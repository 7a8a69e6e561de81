import Mathlib

/-!
# Machines that answer

A machine takes a call and gives an answer, and goes over into another state.  Two machines answer a
sequence of calls alike if there is a relation of their states such that related states give the
same answer to a call and go over into related states (`answers_eq`).  Where that is so only of some
calls, `Allowed` says that every call of the sequence is one of those in the state it comes in.
-/

namespace Answers

variable {σ τ α ω : Type}

/-- A sequence of calls, with the answers. -/
def answers (step : σ → α → σ × ω) : σ → List α → σ × List ω
  | s, [] => (s, [])
  | s, a :: rest =>
    let (s, answer) := step s a
    let (s, more) := answers step s rest
    (s, answer :: more)

/-- Every call is allowed in the state in which it comes. -/
def Allowed (step : σ → α → σ × ω) (ok : σ → α → Prop) : σ → List α → Prop
  | _, [] => True
  | s, a :: rest => ok s a ∧ Allowed step ok (step s a).1 rest

variable {step : σ → α → σ × ω} {step' : τ → α → τ × ω} {ok : τ → α → Prop}

theorem allowed_of_forall (h : ∀ t a, ok t a) (t : τ) (calls : List α) :
    Allowed step' ok t calls := by
  induction calls generalizing t with
  | nil => trivial
  | cons a rest ih => exact ⟨h t a, ih _⟩

/-- **Related states answer alike.** -/
theorem answers_eq {rel : σ → τ → Prop} (hstep : ∀ s t a, rel s t → ok t a →
      rel (step s a).1 (step' t a).1 ∧ (step s a).2 = (step' t a).2)
    {s : σ} {t : τ} (h : rel s t) {calls : List α} (hok : Allowed step' ok t calls) :
    rel (answers step s calls).1 (answers step' t calls).1 ∧
      (answers step s calls).2 = (answers step' t calls).2 := by
  induction calls generalizing s t with
  | nil => exact ⟨h, rfl⟩
  | cons a rest ih =>
    obtain ⟨hrel, hanswer⟩ := hstep s t a h hok.1
    obtain ⟨hend, hmore⟩ := ih hrel hok.2
    exact ⟨hend, congrArg₂ List.cons hanswer hmore⟩

end Answers
