import Mathlib

/-!
# The connection that two nodes settle on

When the first dials of two nodes cross, there are several connections between them, and each
node selects one of them for its new streams.  `publishSession` prefers the connections that the
node with the lower id initiated, and among those the one with the lowest address of its
initiator.  Both ends see these, so both order the connections in the same way (`rank_eq`); and
whatever the order in which an end publishes them, it selects the first one (`Selects.publish`).
-/

namespace Wire.Transport

open List Function

/-- `net.JoinHostPort`. -/
def joinHostPort (host port : String) : String :=
  if ':' ∈ host.toList then "[" ++ host ++ "]:" ++ port else host ++ ":" ++ port

/-- A TCP address. -/
structure Addr where
  host : String
  port : ℕ
deriving DecidableEq

def Addr.string (a : Addr) : String :=
  joinHostPort a.host (toString a.port)

/-- What a mux reads of a session. -/
structure Session where
  peerNodeID : String
  initiator : Bool
  localAddr : Addr
  remoteAddr : Addr
  peerListenPort : ℕ
  /-- `FeatureSessionDrain` was negotiated. -/
  sessionDrain : Bool
deriving DecidableEq

namespace Session

variable (a b : Session)

/-- The observed host with the advertised port. -/
def peerListenAddress : String :=
  if a.peerListenPort = 0 then "" else joinHostPort a.remoteAddr.host (toString a.peerListenPort)

/-- The address of the end that dialed. -/
def endpoint : String :=
  (if a.initiator then a.localAddr else a.remoteAddr).string

def oppositeConnectionEndpoints : Bool :=
  a.localAddr.string = b.remoteAddr.string ∧ a.remoteAddr.string = b.localAddr.string

end Session

structure Mux where
  nodeID : String
  sessions : List Session
  nodes : String → Option Session
  peers : String → Option Session
  /-- The sessions that `beginDrain` has marked. -/
  draining : List Session

namespace Mux

variable (m : Mux)

def preferred (s : Session) : Bool :=
  s.initiator = decide (m.nodeID < s.peerNodeID)

def sessionBefore (a b : Session) : Bool :=
  if m.preferred a ≠ m.preferred b then m.preferred a else a.endpoint < b.endpoint

def beginDrain (s : Session) : Mux :=
  if s.sessionDrain then { m with draining := m.draining.insert s } else m

/-- The choice of `publishSession`; `closed` is what `IsClosed` says at that time. -/
def select (closed : Session → Bool) (candidate : Session) : Session :=
  match m.nodes candidate.peerNodeID with
  | none => candidate
  | some selected =>
    if closed selected || m.sessionBefore candidate selected then candidate else selected

/-- The maps after the choice. -/
def cache (addr : String) (candidate selected : Session) : Mux :=
  -- where the choice has not changed, the aliases of the previous one are its own
  let moved := fun cached =>
    if (m.peers cached).isSome ∧ m.peers cached = m.nodes candidate.peerNodeID then some selected
    else m.peers cached
  let peers := update moved addr (some selected)
  { m with
    sessions := m.sessions.insert candidate
    nodes := update m.nodes candidate.peerNodeID (some selected)
    peers := if candidate.peerListenAddress = "" then peers
      else update peers candidate.peerListenAddress (some selected) }

def publishSession (closed : Session → Bool) (addr : String) (candidate : Session) : Mux :=
  let selected := m.select closed candidate
  let m := m.cache addr candidate selected
  (m.sessions.filter fun s => s ≠ selected ∧ s.peerNodeID = candidate.peerNodeID ∧
    s.oppositeConnectionEndpoints selected = false).foldl beginDrain m

/-! ## The order of the sessions -/

/-- Where a session stands in the order of the end. -/
def rank (s : Session) : Bool ×ₗ String :=
  toLex (!m.preferred s, s.endpoint)

theorem sessionBefore_iff (a b : Session) : m.sessionBefore a b = true ↔ m.rank a < m.rank b := by
  rw [sessionBefore, rank, rank, Prod.Lex.toLex_lt_toLex]
  cases m.preferred a <;> cases m.preferred b <;> simp

/-! ## Publishing -/

variable {m} {closed : Session → Bool} {node : String} {candidate w : Session}

theorem foldl_beginDrain (l : List Session) (m : Mux) :
    ∃ draining, l.foldl beginDrain m = { m with draining } ∧
      ∀ s ∈ draining, s ∈ m.draining ∨ s ∈ l := by
  induction l generalizing m with
  | nil => exact ⟨m.draining, rfl, fun s hs => .inl hs⟩
  | cons t l ih =>
    obtain ⟨draining, heq, hsub⟩ := ih (m.beginDrain t)
    rw [foldl_cons, heq]
    rw [beginDrain] at hsub ⊢
    split at hsub
    · next hdrain =>
      rw [if_pos hdrain]
      refine ⟨draining, rfl, fun s hs => ?_⟩
      rcases hsub s hs with hold | hl
      · rcases mem_insert_iff.mp hold with rfl | hold
        · exact .inr mem_cons_self
        · exact .inl hold
      · exact .inr (mem_cons_of_mem t hl)
    · next hdrain =>
      rw [if_neg hdrain]
      exact ⟨draining, rfl, fun s hs => (hsub s hs).imp_right (mem_cons_of_mem t)⟩

/-- What holds of the sessions of a node: the first of those that were published is selected, every
alias is of the selected one, and `w` is not drained. -/
structure Selects (m : Mux) (node : String) (w : Session) : Prop where
  selected : ∀ t ∈ m.sessions, t.peerNodeID = node → m.nodes node ≠ none
  first : ∀ s, m.nodes node = some s → s ∈ m.sessions ∧ s.peerNodeID = node ∧
    ∀ t ∈ m.sessions, t.peerNodeID = node → m.rank s ≤ m.rank t
  aliases : ∀ addr s, m.peers addr = some s → s.peerNodeID = node → m.nodes node = some s
  awake : w ∉ m.draining

theorem Selects.select (h : m.Selects candidate.peerNodeID w)
    (hlive : ∀ s ∈ m.sessions, s.peerNodeID = candidate.peerNodeID → closed s = false) :
    m.select closed candidate ∈ m.sessions.insert candidate ∧
      (m.select closed candidate).peerNodeID = candidate.peerNodeID ∧
      ∀ t ∈ m.sessions.insert candidate, t.peerNodeID = candidate.peerNodeID →
        m.rank (m.select closed candidate) ≤ m.rank t := by
  rw [Mux.select]
  split
  · next hnone =>
    refine ⟨mem_insert_self, rfl, fun t ht hpeer => ?_⟩
    rcases mem_insert_iff.mp ht with rfl | ht
    · exact le_rfl
    · exact absurd hnone (h.selected t ht hpeer)
  · next s hs =>
    obtain ⟨hmem, hpeer, hmin⟩ := h.first s hs
    rw [hlive s hmem hpeer, Bool.false_or]
    split
    · next hbefore =>
      rw [sessionBefore_iff] at hbefore
      refine ⟨mem_insert_self, rfl, fun t ht hpeer => ?_⟩
      rcases mem_insert_iff.mp ht with rfl | ht
      · exact le_rfl
      · exact hbefore.le.trans (hmin t ht hpeer)
    · next hbefore =>
      rw [sessionBefore_iff, not_lt] at hbefore
      refine ⟨mem_insert_of_mem hmem, hpeer, fun t ht hpeer => ?_⟩
      rcases mem_insert_iff.mp ht with rfl | ht
      · exact hbefore
      · exact hmin t ht hpeer

theorem cache_peers {selected t : Session} {addr a : String}
    (h : (m.cache addr candidate selected).peers a = some t) :
    t = selected ∨ m.peers a = some t ∧ m.nodes candidate.peerNodeID ≠ some t := by
  have hupdate : ∀ {f : String → Option Session} {b}, update f b (some selected) a =
      some t → t = selected ∨ f a = some t := by
    intro f b ht
    rcases eq_or_ne a b with rfl | hne
    · rw [update_self] at ht
      exact .inl (Option.some.inj ht).symm
    · rw [update_of_ne hne] at ht
      exact .inr ht
  have hcached : t = selected ∨ (if (m.peers a).isSome ∧ m.peers a = m.nodes candidate.peerNodeID
      then some selected else m.peers a) = some t := by
    rw [cache] at h
    dsimp only at h
    split at h
    · exact hupdate h
    · exact (hupdate h).elim .inl hupdate
  rcases hcached with heq | hmoved
  · exact .inl heq
  · split at hmoved
    · exact .inl (Option.some.inj hmoved).symm
    · next hkeep =>
      refine .inr ⟨hmoved, fun hprevious => hkeep ⟨?_, hmoved.trans hprevious.symm⟩⟩
      rw [hmoved, Option.isSome_some]

/-- Publishing a session of the node keeps this up. -/
theorem Selects.publish (h : m.Selects candidate.peerNodeID w)
    (hlive : ∀ s ∈ m.sessions, s.peerNodeID = candidate.peerNodeID → closed s = false)
    (hfirst : ∀ s ∈ m.sessions.insert candidate, s.peerNodeID = candidate.peerNodeID →
      m.rank s ≤ m.rank w → s = w) (hw : w.peerNodeID = candidate.peerNodeID) (addr : String) :
    (m.publishSession closed addr candidate).nodeID = m.nodeID ∧
    (m.publishSession closed addr candidate).sessions = m.sessions.insert candidate ∧
    (m.publishSession closed addr candidate).Selects candidate.peerNodeID w := by
  obtain ⟨hmem, hpeer, hmin⟩ := h.select hlive
  rw [publishSession]
  generalize m.select closed candidate = selected at hmem hpeer hmin ⊢
  have hnode : (m.cache addr candidate selected).nodes candidate.peerNodeID = some selected :=
    update_self ..
  obtain ⟨draining, heq, hsub⟩ := foldl_beginDrain (filter (fun s => s ≠ selected ∧
    s.peerNodeID = candidate.peerNodeID ∧ s.oppositeConnectionEndpoints selected = false)
    (m.cache addr candidate selected).sessions) (m.cache addr candidate selected)
  rw [heq]
  refine ⟨rfl, rfl, fun _ _ _ => hnode ▸ nofun, fun t ht => ?_, fun a t ht hpeer' => ?_,
    fun hdrain => ?_⟩
  · cases hnode.symm.trans ht
    exact ⟨hmem, hpeer, hmin⟩
  · rcases cache_peers ht with rfl | ⟨hold, hne⟩
    · exact hnode
    · exact absurd (h.aliases a t hold hpeer') hne
  · rcases hsub w hdrain with hold | hloser
    · exact h.awake hold
    · rw [mem_filter, decide_eq_true_iff] at hloser
      exact hloser.2.1 (hfirst selected hmem hpeer (hmin w hloser.1 hw)).symm

/-- What an end publishes, one after another. -/
def publishAll (m : Mux) (pubs : List ((Session → Bool) × String × Session)) : Mux :=
  pubs.foldl (fun m p => m.publishSession p.1 p.2.1 p.2.2) m

theorem Selects.publishAll {l : List Session} (hpeer : ∀ s ∈ l, s.peerNodeID = node) (hw : w ∈ l)
    (hfirst : ∀ n : Mux, n.nodeID = m.nodeID → ∀ s ∈ l, n.rank s ≤ n.rank w → s = w)
    (pubs : List ((Session → Bool) × String × Session)) (hpubs : ∀ p ∈ pubs, p.2.2 ∈ l)
    (hlive : ∀ p ∈ pubs, ∀ s ∈ l, p.1 s = false) (h : m.Selects node w)
    (hknown : ∀ s ∈ m.sessions, s.peerNodeID = node → s ∈ l) :
    (m.publishAll pubs).nodeID = m.nodeID ∧ (m.publishAll pubs).Selects node w ∧
      ∀ s, s ∈ (m.publishAll pubs).sessions ↔ s ∈ m.sessions ∨ s ∈ pubs.map fun p => p.2.2 := by
  induction pubs generalizing m with
  | nil => exact ⟨rfl, h, fun s => by rw [map_nil, or_iff_left not_mem_nil]; rfl⟩
  | cons p pubs ih =>
    obtain ⟨hp, hpubs⟩ := forall_mem_cons.mp hpubs
    obtain ⟨hl, hlive⟩ := forall_mem_cons.mp hlive
    obtain rfl := hpeer _ hp
    have hknown' : ∀ s ∈ m.sessions.insert p.2.2, s.peerNodeID = p.2.2.peerNodeID → s ∈ l := by
      intro s hs hnode
      rcases mem_insert_iff.mp hs with rfl | hs
      · exact hp
      · exact hknown s hs hnode
    obtain ⟨hid, hsessions, hselects⟩ := h.publish
      (fun s hs hnode => hl s (hknown s hs hnode))
      (fun s hs hnode => hfirst m rfl s (hknown' s hs hnode)) (hpeer w hw) p.2.1
    obtain ⟨hid', hselects', hmem⟩ := ih (fun n hn => hfirst n (hn.trans hid)) hpubs hlive hselects
      (hsessions ▸ hknown')
    refine ⟨hid'.trans hid, hselects', fun s => ?_⟩
    rw [Mux.publishAll, foldl_cons, ← Mux.publishAll, hmem, hsessions, mem_insert_iff, map_cons,
      mem_cons, or_assoc, or_left_comm]

end Mux

/-! ## The two ends -/

/-- The two sessions of a connection between `ids true` and `ids false`. -/
structure Connects (ids : Bool → String) (c : Bool → Session) : Prop where
  peer : ∀ x, (c x).peerNodeID = ids !x
  initiator : (c true).initiator = !(c false).initiator
  endpoint : ∀ x, (c x).endpoint = (c true).endpoint

variable {ids : Bool → String} {c : Bool → Session}

/-- **Both ends order the connections in the same way.** -/
theorem rank_eq (hids : ids true ≠ ids false) (hc : Connects ids c) {m n : Mux} {x : Bool}
    (hm : m.nodeID = ids true) (hn : n.nodeID = ids x) : n.rank (c x) = m.rank (c true) := by
  have hpreferred : n.preferred (c x) = m.preferred (c true) := by
    rw [Mux.preferred, Mux.preferred, hc.peer, hc.peer, hm, hn]
    cases x with
    | true => rfl
    | false =>
      rw [hc.initiator, Bool.not_false, Bool.not_true]
      rcases lt_or_gt_of_ne hids with hlt | hlt
      · rw [decide_eq_true hlt, decide_eq_false hlt.asymm]
        cases (c false).initiator <;> rfl
      · rw [decide_eq_true hlt, decide_eq_false hlt.asymm]
        cases (c false).initiator <;> rfl
  rw [Mux.rank, Mux.rank, hpreferred, hc.endpoint]

/-- Nothing of the node is known yet. -/
structure Mux.Fresh (m : Mux) (node : String) : Prop where
  nodes : m.nodes node = none
  peers : ∀ addr s, m.peers addr = some s → s.peerNodeID ≠ node
  sessions : ∀ s ∈ m.sessions ++ m.draining, s.peerNodeID ≠ node

/-- **The two ends settle on one connection.**  Two nodes publish the connections `conns`, live all
the time and told apart by the addresses of their initiators, each in an order of its own.  Then
both have selected the same one, every alias of the other node is of it, and neither end has begun
to drain it. -/
theorem peers_agree {conns : List (Bool → Session)} {m : Bool → Mux}
    {pubs : Bool → List ((Session → Bool) × String × Session)} (hids : ids true ≠ ids false)
    (hne : conns ≠ []) (hconns : ∀ c ∈ conns, Connects ids c)
    (hendpoints : (conns.map fun c => (c true).endpoint).Nodup)
    (hnodeID : ∀ x, (m x).nodeID = ids x) (hfresh : ∀ x, (m x).Fresh (ids !x))
    (hpubs : ∀ x, ((pubs x).map fun p => p.2.2).Perm (conns.map fun c => c x))
    (hlive : ∀ x, ∀ p ∈ pubs x, ∀ c ∈ conns, p.1 (c x) = false) :
    ∃ c ∈ conns, ∀ x, ((m x).publishAll (pubs x)).nodes (ids !x) = some (c x) ∧
      (∀ addr s, ((m x).publishAll (pubs x)).peers addr = some s → s.peerNodeID = ids !x →
        s = c x) ∧
      c x ∉ ((m x).publishAll (pubs x)).draining := by
  obtain ⟨w, hargmin⟩ := Option.ne_none_iff_exists'.mp
    (mt argmin_eq_none.mp hne : argmin (fun c => (m true).rank (c true)) conns ≠ none)
  have hw : w ∈ conns := argmin_mem hargmin
  refine ⟨w, hw, fun x => ?_⟩
  have hpeer : ∀ s ∈ conns.map (· x), s.peerNodeID = ids !x := by
    intro s hs
    obtain ⟨c, hc, rfl⟩ := mem_map.mp hs
    exact (hconns c hc).peer x
  have hfirst : ∀ n : Mux, n.nodeID = (m x).nodeID → ∀ s ∈ conns.map (· x),
      n.rank s ≤ n.rank (w x) → s = w x := by
    intro n hn s hs hle
    obtain ⟨c, hc, rfl⟩ := mem_map.mp hs
    have hn := hn.trans (hnodeID x)
    rw [rank_eq hids (hconns c hc) (hnodeID true) hn,
      rank_eq hids (hconns w hw) (hnodeID true) hn] at hle
    have hrank := le_antisymm hle
      (le_of_mem_argmin (f := fun c => (m true).rank (c true)) hc hargmin)
    have hendpoint : (c true).endpoint = (w true).endpoint := congrArg (fun r => (ofLex r).2) hrank
    rw [inj_on_of_nodup_map hendpoints hc hw hendpoint]
  have hstart : (m x).Selects (ids !x) (w x) := by
    refine ⟨fun t ht hnode => ?_, fun s hs => ?_, fun addr s hs hnode => ?_, fun hmem => ?_⟩
    · exact absurd hnode ((hfresh x).sessions t (mem_append_left _ ht))
    · cases (hfresh x).nodes.symm.trans hs
    · exact absurd hnode ((hfresh x).peers addr s hs)
    · exact (hfresh x).sessions _ (mem_append_right _ hmem) ((hconns w hw).peer x)
  have hwx : w x ∈ conns.map (· x) := mem_map_of_mem hw
  obtain ⟨hid, hselects, hsessions⟩ := hstart.publishAll hpeer hwx hfirst (pubs x)
    (fun p hp => (hpubs x).subset (mem_map_of_mem hp))
    (fun p hp => forall_mem_map.mpr (hlive x p hp))
    fun s hs hnode => absurd hnode ((hfresh x).sessions s (mem_append_left _ hs))
  have hpublished : w x ∈ ((m x).publishAll (pubs x)).sessions :=
    (hsessions _).mpr (.inr ((hpubs x).mem_iff.mpr hwx))
  obtain ⟨s, hs⟩ := Option.ne_none_iff_exists'.mp (hselects.selected _ hpublished (hpeer _ hwx))
  obtain ⟨hmem, hnode, hmin⟩ := hselects.first s hs
  have hmem : s ∈ conns.map (· x) := by
    rcases (hsessions s).mp hmem with hold | hnew
    · exact absurd hnode ((hfresh x).sessions s (mem_append_left _ hold))
    · exact (hpubs x).subset hnew
  rw [hfirst _ hid s hmem (hmin _ hpublished (hpeer _ hwx))] at hs
  exact ⟨hs, fun a t ht hnode => Option.some.inj ((hselects.aliases a t ht hnode).symm.trans hs),
    hselects.awake⟩

def sampleID (x : Bool) : String :=
  if x then "a" else "b"

/-- The connection that `x` dialed, as `y` sees it. -/
def crossed (x y : Bool) : Session where
  peerNodeID := sampleID !y
  initiator := x = y
  localAddr := ⟨sampleID y, if x = y then 5000 else 80⟩
  remoteAddr := ⟨sampleID !y, if x = y then 80 else 5000⟩
  peerListenPort := 80
  sessionDrain := true

/-- What an end has when it has published the connection that it dialed and then the other one. -/
def crossedMux (x : Bool) : Mux :=
  Mux.publishAll ⟨sampleID x, [], fun _ => none, fun _ => none, []⟩
    [(fun _ => false, "", crossed x x), (fun _ => false, "", crossed (!x) x)]

theorem peers_agree_crossed : ∃ c ∈ [crossed true, crossed false], ∀ x,
    (crossedMux x).nodes (sampleID !x) = some (c x) ∧
    (∀ a s, (crossedMux x).peers a = some s → s.peerNodeID = sampleID (!x) → s = c x) ∧
    c x ∉ (crossedMux x).draining := by
  have hconns : ∀ c ∈ [crossed true, crossed false], Connects sampleID c := by
    simp only [forall_mem_cons]
    exact ⟨⟨by decide, by decide, by decide⟩, ⟨by decide, by decide, by decide⟩, nofun⟩
  obtain ⟨c, hc, h⟩ := @peers_agree _ _
    (fun x => ⟨sampleID x, [], fun _ => none, fun _ => none, []⟩)
    (fun x => [(fun _ => false, "", crossed x x), (fun _ => false, "", crossed (!x) x)])
    (by decide) (by simp) hconns (by decide) (fun _ => rfl)
    (fun x => ⟨rfl, (fun _ _ h => nomatch h), (fun _ h => nomatch h)⟩) (by decide) (by decide)
  exact ⟨c, hc, h⟩

end Wire.Transport
