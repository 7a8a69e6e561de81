import Mathlib

/-!
# Readers and writers of bytes

A reader is the list of the bytes still to come.  `readFull` takes a given number of them or
fails: with `eof` if there was no byte at all, with `unexpectedEOF` if there were too few.  A
writer keeps what was written to it and a list of what its next writes answer; `writeAll` is the
usual call, which takes a short count for an error.
-/

namespace ByteStream

inductive StreamError where
  | eof
  | unexpectedEOF
  | writeFailed
  | shortWrite
  deriving DecidableEq, Repr

/-- The next `n` bytes and the bytes after them.  A failed read leaves nothing. -/
def readFull (n : ℕ) (r : List UInt8) : Except StreamError (List UInt8) × List UInt8 :=
  if n ≤ r.length then (.ok (r.take n), r.drop n)
  else (.error (if r = [] then .eof else .unexpectedEOF), [])

theorem readFull_append {n : ℕ} {data : List UInt8} (h : data.length = n) (rest : List UInt8) :
    readFull n (data ++ rest) = (.ok data, rest) := by
  subst h
  rw [readFull, if_pos (by simp), List.take_left, List.drop_left]

theorem readFull_nil {n : ℕ} (h : 0 < n) : readFull n [] = (.error .eof, []) := by
  simp [readFull, Nat.pos_iff_ne_zero.1 h]

/-- What was written, and for each of the next writes how many bytes it takes and whether it
fails.  With no answers left a write takes everything. -/
structure Writer where
  written : List UInt8 := []
  answers : List (ℕ × Bool) := []
  deriving DecidableEq, Repr

def Writer.write (w : Writer) (p : List UInt8) : Writer × ℕ × Bool :=
  match w.answers with
  | [] => ({ w with written := w.written ++ p }, p.length, false)
  | (n, failed) :: answers =>
    ({ written := w.written ++ p.take n, answers }, (p.take n).length, failed)

def Writer.writeAll (w : Writer) (p : List UInt8) : Writer × Option StreamError :=
  match w.write p with
  | (w, _, true) => (w, some .writeFailed)
  | (w, n, false) => (w, if n = p.length then none else some .shortWrite)

/-- A writer that never fails has taken every byte. -/
@[simp] theorem Writer.writeAll_plain (data p : List UInt8) :
    Writer.writeAll { written := data } p = ({ written := data ++ p }, none) := by
  simp [Writer.writeAll, Writer.write]

end ByteStream
