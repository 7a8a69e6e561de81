import Mathlib

/-!
# Numbers as bytes, most significant first

`encode n v` is the number `v` in `n` bytes, and `decode` reads any number of bytes back.  What
does not fit into `n` bytes is cut off at the front, so `decode (encode n v) = v` is for
`v < 256 ^ n`.
-/

namespace BigEndian

open List

/-- The last `n` bytes of a number. -/
def encode : ℕ → ℕ → List UInt8
  | 0, _ => []
  | n + 1, v => encode n (v / 256) ++ [UInt8.ofNat v]

/-- The number that the bytes stand for. -/
def decode (data : List UInt8) : ℕ :=
  data.foldl (fun v b => v * 256 + b.toNat) 0

@[simp] theorem length_encode (n v : ℕ) : (encode n v).length = n := by
  induction n generalizing v with
  | zero => rfl
  | succ n ih => rw [encode, length_append, ih, length_singleton]

theorem decode_concat (data : List UInt8) (b : UInt8) :
    decode (data ++ [b]) = decode data * 256 + b.toNat := by
  rw [decode, foldl_append]
  rfl

/-- **Reading gives back what was written**, if it fits. -/
theorem decode_encode {n v : ℕ} (h : v < 256 ^ n) : decode (encode n v) = v := by
  induction n generalizing v with
  | zero =>
    rw [pow_zero, Nat.lt_one_iff] at h
    rw [h]
    rfl
  | succ n ih =>
    have hfront : v / 256 < 256 ^ n := by
      rw [pow_succ'] at h
      exact Nat.div_lt_of_lt_mul h
    rw [encode, decode_concat, ih hfront, UInt8.toNat_ofNat']
    exact Nat.div_add_mod' v 256

/-! ## The order of the bytes -/

theorem encode_two (v : ℕ) : encode 2 v = [UInt8.ofNat (v / 256), UInt8.ofNat v] := rfl

/-- The order of the numbers is the order of the bytes, whatever comes after them. -/
theorem encode_two_le {m n : ℕ} (hm : m < 2 ^ 16) (hn : n < 2 ^ 16) (rest : List UInt8) :
    encode 2 m ≤ encode 2 n ++ rest ↔ m ≤ n := by
  rw [encode_two, encode_two, cons_append, cons_append, nil_append,
    ← List.not_lt, List.cons_lt_cons_iff, List.cons_lt_cons_iff, UInt8.lt_iff_toNat_lt,
    UInt8.lt_iff_toNat_lt, ← UInt8.toNat_inj, ← UInt8.toNat_inj, UInt8.toNat_ofNat',
    UInt8.toNat_ofNat', UInt8.toNat_ofNat', UInt8.toNat_ofNat']
  have hnil : ¬ rest < [] := not_lt_nil rest
  simp only [hnil, and_false, or_false]
  omega

theorem lt_encode_two {m n : ℕ} (hm : m < 2 ^ 16) (hn : n < 2 ^ 16) (rest : List UInt8) :
    encode 2 n ++ rest < encode 2 m ↔ n < m := by
  rw [← List.not_le, encode_two_le hm hn, not_le]

end BigEndian
