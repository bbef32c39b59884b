import Nsq.Lib.BigEndian

/-!
# Byte slices read at absolute positions

A decoder in the style of Go's `encoding/binary` keeps an absolute position into its input and
reads `b[lo:hi]`, `b[lo:]` and `binary.BigEndian.UintN(b[lo:lo+N])` there, checking the length
itself before each read. Here every such read answers `none` when it does not lie within the
input, so that a decoder built from them answers `none` exactly when one of its reads leaves its
input: in Go either a panic or a read of bytes past the slice's length.

The laws are those of reading a concatenation: a read within the head reads the head, a read past
the head reads the tail at the shifted position, and a big-endian field read where it was written
gives back what was written, below its width.
-/

namespace ByteSlice

/-- `b[lo:hi]`, when it lies within `b`. -/
def slice? (b : List UInt8) (lo hi : Nat) : Option (List UInt8) :=
  if lo ≤ hi ∧ hi ≤ b.length then some ((b.drop lo).take (hi - lo)) else none

/-- `b[lo:]`, when `lo` lies within `b`. -/
def sliceFrom? (b : List UInt8) (lo : Nat) : Option (List UInt8) :=
  if lo ≤ b.length then some (b.drop lo) else none

/-- `binary.BigEndian.UintN(b[lo:lo+w])` for `N = 8 * w`, when the bytes lie within `b`. -/
def uintAt? (b : List UInt8) (lo w : Nat) : Option Nat :=
  (slice? b lo (lo + w)).map BigEndian.decode

variable {b p q : List UInt8} {lo hi w : Nat}

theorem slice?_eq_none_iff : slice? b lo hi = none ↔ ¬ (lo ≤ hi ∧ hi ≤ b.length) := by
  unfold slice?
  split <;> simp_all

theorem uintAt?_eq_none_iff : uintAt? b lo w = none ↔ b.length < lo + w := by
  simp only [uintAt?, Option.map_eq_none_iff, slice?_eq_none_iff]
  omega

theorem slice?_of_le (h : lo ≤ hi) (h' : hi ≤ b.length) :
    slice? b lo hi = some ((b.drop lo).take (hi - lo)) := by
  simp [slice?, h, h']

theorem uintAt?_of_le (h : lo + w ≤ b.length) :
    uintAt? b lo w = some (BigEndian.decode ((b.drop lo).take w)) := by
  simp [uintAt?, slice?, h]

/-- A read that ends within the head reads the head. -/
theorem slice?_append_left (h : hi ≤ p.length) : slice? (p ++ q) lo hi = slice? p lo hi := by
  unfold slice?
  by_cases hlh : lo ≤ hi
  · rw [if_pos ⟨hlh, by simp; omega⟩, if_pos ⟨hlh, h⟩, List.drop_append_of_le_length (by omega),
      List.take_append_of_le_length (by simp; omega)]
  · rw [if_neg (by omega), if_neg (by omega)]

/-- A read that starts past the head reads the tail. -/
theorem slice?_append_right (h : p.length ≤ lo) (hlh : lo ≤ hi) :
    slice? (p ++ q) lo hi = slice? q (lo - p.length) (hi - p.length) := by
  unfold slice?
  by_cases hq : hi ≤ p.length + q.length
  · rw [if_pos ⟨hlh, by simp; omega⟩, if_pos ⟨by omega, by omega⟩, List.drop_append,
      List.drop_eq_nil_of_le h, List.nil_append, show hi - p.length - (lo - p.length) = hi - lo by
        omega]
  · rw [if_neg (by simp; omega), if_neg (by omega)]

theorem sliceFrom?_append_right (h : p.length ≤ lo) :
    sliceFrom? (p ++ q) lo = sliceFrom? q (lo - p.length) := by
  unfold sliceFrom?
  by_cases hq : lo ≤ p.length + q.length
  · rw [if_pos (by simp; omega), if_pos (by omega), List.drop_append, List.drop_eq_nil_of_le h,
      List.nil_append]
  · rw [if_neg (by simp; omega), if_neg (by omega)]

theorem uintAt?_append_right (h : p.length ≤ lo) :
    uintAt? (p ++ q) lo w = uintAt? q (lo - p.length) w := by
  rw [uintAt?, slice?_append_right h (by omega), uintAt?,
    show lo + w - p.length = lo - p.length + w by omega]

theorem slice?_cons (x : UInt8) (h : 0 < lo) (hlh : lo ≤ hi) :
    slice? (x :: b) lo hi = slice? b (lo - 1) (hi - 1) :=
  slice?_append_right (p := [x]) h hlh

theorem uintAt?_cons (x : UInt8) (h : 0 < lo) : uintAt? (x :: b) lo w = uintAt? b (lo - 1) w :=
  uintAt?_append_right (p := [x]) h

@[simp] theorem slice?_prefix : slice? (p ++ q) 0 p.length = some p := by
  simp [slice?]

@[simp] theorem sliceFrom?_zero : sliceFrom? b 0 = some b := by
  simp [sliceFrom?]

/-- A field read where it was written gives back what was written, below its width. -/
@[simp] theorem uintAt?_encode (n : Nat) :
    uintAt? (BigEndian.encode w n ++ q) 0 w = some (n % 256 ^ w) := by
  have h := slice?_prefix (p := BigEndian.encode w n) (q := q)
  rw [BigEndian.length_encode] at h
  simp [uintAt?, h, BigEndian.decode_encode]

theorem uintAt?_encode_of_lt {n : Nat} (h : n < 256 ^ w) :
    uintAt? (BigEndian.encode w n ++ q) 0 w = some n := by
  rw [uintAt?_encode, Nat.mod_eq_of_lt h]

/-! ## Reading at a cursor

A decoder's reads at the position where a field was written, after a prefix `p` of that length:
what the main proofs chain, one field at a time. -/

theorem uintAt?_at {n : Nat} (hb : b = p ++ (BigEndian.encode w n ++ q)) (hp : p.length = lo)
    (hn : n < 256 ^ w) : uintAt? b lo w = some n := by
  rw [hb, uintAt?_append_right (by omega), hp, Nat.sub_self, uintAt?_encode_of_lt hn]

theorem slice?_at (s : List UInt8) (hb : b = p ++ (s ++ q)) (hp : p.length = lo) :
    slice? b lo (lo + s.length) = some s := by
  rw [hb, slice?_append_right (by omega) (by omega), hp, Nat.sub_self, Nat.add_sub_cancel_left,
    slice?_prefix]

theorem sliceFrom?_at (hb : b = p ++ q) (hp : p.length = lo) : sliceFrom? b lo = some q := by
  rw [hb, sliceFrom?_append_right (by omega), hp, Nat.sub_self, sliceFrom?_zero]

end ByteSlice
