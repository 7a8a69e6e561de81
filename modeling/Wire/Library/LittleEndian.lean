import Mathlib

/-!
# Numbers as bytes, least significant first

`encode n v` is the number `v` in `n` bytes, and `decode` reads any number of bytes back.  What does
not fit into `n` bytes is cut off, so `decode_encode` is a remainder.  Every byte string is the
encoding of what it decodes to, at its own length (`encode_decode`).
-/

/-! ## Bytes and byte strings

The instances that a numeral for a byte and the sorting of byte strings use.  Without them each
definition would prove its own. -/

instance byte_neZero : NeZero 256 := ⟨by decide⟩

instance bytes_isTrans : IsTrans (List (Fin 256)) fun x y => x ≤ y := inferInstance

instance bytes_antisymm : Std.Antisymm fun x y : List (Fin 256) => x ≤ y := inferInstance

instance bytes_total : Std.Total fun x y : List (Fin 256) => x ≤ y := inferInstance

namespace LittleEndian

open Nat

def encode : ℕ → ℕ → List (Fin 256)
  | 0, _ => []
  | n + 1, v => Fin.ofNat 256 v :: encode n (v / 256)

def decode : List (Fin 256) → ℕ
  | [] => 0
  | b :: data => b + 256 * decode data

@[simp] theorem length_encode (n v : ℕ) : (encode n v).length = n := by
  induction n generalizing v with
  | zero => rfl
  | succ n ih => rw [encode, List.length_cons, ih]

theorem decode_encode (n v : ℕ) : decode (encode n v) = v % 256 ^ n := by
  induction n generalizing v with
  | zero => rw [pow_zero, mod_one]; rfl
  | succ n ih => rw [encode, decode, ih, Fin.val_ofNat, pow_succ', mod_mul]

theorem decode_lt (data : List (Fin 256)) : decode data < 256 ^ data.length := by
  induction data with
  | nil => exact one_pos
  | cons b data ih =>
    rw [decode, List.length_cons, pow_succ]
    omega

theorem encode_decode (data : List (Fin 256)) : encode data.length (decode data) = data := by
  induction data with
  | nil => rfl
  | cons b data ih =>
    rw [List.length_cons, encode, decode]
    congr 1
    · apply Fin.ext
      rw [Fin.val_ofNat, add_mul_mod_self_left, mod_eq_of_lt b.isLt]
    · rw [add_mul_div_left _ _ (by decide), div_eq_of_lt b.isLt, zero_add, ih]

end LittleEndian
