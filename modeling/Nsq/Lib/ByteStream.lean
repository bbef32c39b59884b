import Nsq.Lib.BigEndian

/-!
# A byte stream read as Go's `io` package reads it

A connection handler reads its input front to back: `io.ReadFull(r, buf)` takes exactly
`len(buf)` bytes or fails, and `io.CopyN(w, r, n)` copies exactly `n` bytes or fails with
`io.EOF`. Here the stream is the list of bytes still to come, and each read answers what it took
and the stream after it. `ReadFull` tells an empty stream (`io.EOF`) from a short one
(`io.ErrUnexpectedEOF`), which is all that distinguishes the two reads.

The two reads succeed alike and differ only in their errors (`readFull_eq_ok_iff`), so the laws
are proved once, for `CopyN`: a read of `n` bytes from a stream that starts with `n` given bytes
answers them and leaves the rest, and a read that succeeds took exactly `n` bytes off the front.
A handler built from these reads consumes the bytes of its reads and nothing else, which is what
its framing proofs add up.
-/

/-- How a read of the stream fails. -/
inductive ReadError where
  /-- `io.EOF`: nothing was left to read. -/
  | eof
  /-- `io.ErrUnexpectedEOF`: some bytes were left, but not enough. -/
  | unexpectedEOF
  deriving DecidableEq, Repr

namespace ByteStream

/-- `io.ReadFull(r, buf)` with `len(buf) = n`: the first `n` bytes and the stream after them. -/
def readFull (r : List UInt8) (n : Nat) : Except ReadError (List UInt8 × List UInt8) :=
  if n ≤ r.length then .ok (r.take n, r.drop n)
  else if r = [] then .error .eof
  else .error .unexpectedEOF

/-- `io.CopyN(w, r, n)`: the `n` bytes copied and the stream after them; fewer is `io.EOF`. -/
def copyN (r : List UInt8) (n : Nat) : Except ReadError (List UInt8 × List UInt8) :=
  if n ≤ r.length then .ok (r.take n, r.drop n) else .error .eof

variable {r p q rest : List UInt8} {n : Nat}

/-- The two reads succeed on the same streams with the same answers. -/
theorem readFull_eq_ok_iff {x : List UInt8 × List UInt8} : readFull r n = .ok x ↔ copyN r n = .ok x := by
  unfold readFull copyN
  split
  · rfl
  · constructor <;> intro h
    · split at h <;> cases h
    · cases h

/-- A read of `n` bytes from a stream that starts with `n` given bytes answers them. -/
theorem copyN_append (hp : p.length = n) : copyN (p ++ q) n = .ok (p, q) := by
  unfold copyN
  rw [if_pos (by simp; omega), ← hp, List.take_left, List.drop_left]

theorem readFull_append (hp : p.length = n) : readFull (p ++ q) n = .ok (p, q) :=
  readFull_eq_ok_iff.mpr (copyN_append hp)

/-- A read that succeeds took exactly `n` bytes off the front of the stream. -/
theorem copyN_eq_ok (h : copyN r n = .ok (p, rest)) : r = p ++ rest ∧ p.length = n := by
  unfold copyN at h
  split at h
  · rename_i hn
    injection h with h
    simp only [Prod.mk.injEq] at h
    obtain ⟨rfl, rfl⟩ := h
    exact ⟨(List.take_append_drop n r).symm, List.length_take_of_le hn⟩
  · cases h

theorem readFull_eq_ok (h : readFull r n = .ok (p, rest)) : r = p ++ rest ∧ p.length = n :=
  copyN_eq_ok (readFull_eq_ok_iff.mp h)

end ByteStream
