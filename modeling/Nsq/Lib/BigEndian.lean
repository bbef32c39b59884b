import Mathlib.Tactic.Ring
import Nsq.Lib.OrderedMap

/-!
# Big-endian fixed-width integers

The one byte codec every persisted frame here is built from: a natural becomes exactly `w`
bytes, most significant first, and a list of bytes becomes the natural they spell. A signed
value of `w` bytes is its two's-complement residue, and reading one back takes the balanced
residue (`Int.bmod`), which is how a signed machine integer of that width reinterprets its
bits.

The laws are the ones a framing proof needs and no more: the encoding has exactly `w` bytes,
decoding inverts it below `256 ^ w` (and for signed values inside the signed range), decoding a
concatenation shifts the head by the tail's width, and the encodings of two naturals compare,
byte by byte, as the naturals do (`compare_encode`), which is what makes big-endian keys sort
numerically in a byte-ordered store.
-/

namespace BigEndian

/-- The `w` bytes of `n`, most significant first; bits above `8 * w` are dropped. -/
def encode : Nat → Nat → List UInt8
  | 0, _ => []
  | w + 1, n => encode w (n / 256) ++ [UInt8.ofNat n]

/-- The natural spelled by a list of bytes, most significant first. -/
def decode (bytes : List UInt8) : Nat :=
  bytes.foldl (fun acc b => acc * 256 + b.toNat) 0

/-- The `w` bytes of a signed value: its residue modulo `2 ^ (8 * w)`, encoded. -/
def encodeInt (w : Nat) (v : Int) : List UInt8 :=
  encode w (v % (2 ^ (8 * w) : Nat)).toNat

/-- The signed value of `w` bytes: the balanced residue of what they spell. -/
def decodeInt (w : Nat) (bytes : List UInt8) : Int :=
  Int.bmod (decode bytes) (2 ^ (8 * w))

@[simp] theorem length_encode (w n : Nat) : (encode w n).length = w := by
  induction w generalizing n with
  | zero => rfl
  | succ w ih => simp [encode, ih]

@[simp] theorem length_encodeInt (w : Nat) (v : Int) : (encodeInt w v).length = w :=
  length_encode w _

@[simp] theorem decode_nil : decode [] = 0 := rfl

/-- Folding from any accumulator shifts it past the whole list. -/
theorem foldl_decode (acc : Nat) (l : List UInt8) :
    l.foldl (fun acc b => acc * 256 + b.toNat) acc = acc * 256 ^ l.length + decode l := by
  induction l generalizing acc with
  | nil => simp
  | cons b l ih =>
    have hd : decode (b :: l) = (0 * 256 + b.toNat) * 256 ^ l.length + decode l := ih _
    rw [List.foldl_cons, ih, hd, List.length_cons]
    ring

theorem decode_append (l₁ l₂ : List UInt8) :
    decode (l₁ ++ l₂) = decode l₁ * 256 ^ l₂.length + decode l₂ := by
  rw [decode, List.foldl_append, foldl_decode]
  rfl

@[simp] theorem decode_snoc (l : List UInt8) (b : UInt8) :
    decode (l ++ [b]) = decode l * 256 + b.toNat := by
  rw [decode_append]
  simp [decode]

theorem decode_cons (b : UInt8) (l : List UInt8) :
    decode (b :: l) = b.toNat * 256 ^ l.length + decode l := by
  rw [← List.singleton_append, decode_append]
  simp [decode]

theorem decode_encode (w n : Nat) : decode (encode w n) = n % 256 ^ w := by
  induction w generalizing n with
  | zero => simp [encode, Nat.mod_one]
  | succ w ih =>
    have h8 : (2 : Nat) ^ 8 = 256 := rfl
    rw [encode, decode_snoc, ih, UInt8.toNat_ofNat', h8, Nat.pow_succ', Nat.mod_mul]
    ring

theorem decode_encode_of_lt {w n : Nat} (h : n < 256 ^ w) : decode (encode w n) = n := by
  rw [decode_encode, Nat.mod_eq_of_lt h]

theorem decode_lt (bytes : List UInt8) : decode bytes < 256 ^ bytes.length := by
  induction bytes with
  | nil => simp
  | cons b l ih =>
    have hb : b.toNat + 1 ≤ 256 := b.toNat_lt
    rw [decode_cons, List.length_cons, Nat.pow_succ']
    calc b.toNat * 256 ^ l.length + decode l
        < b.toNat * 256 ^ l.length + 256 ^ l.length := by omega
      _ = (b.toNat + 1) * 256 ^ l.length := by ring
      _ ≤ 256 * 256 ^ l.length := Nat.mul_le_mul_right _ hb

/-- Bytes are the encoding of what they spell, at their own width. -/
theorem encode_decode (bytes : List UInt8) : encode bytes.length (decode bytes) = bytes := by
  induction bytes using List.reverseRecOn with
  | nil => rfl
  | append_singleton l b ih =>
    have hb := b.toNat_lt
    have h8 : (2 : Nat) ^ 8 = 256 := rfl
    rw [List.length_append, List.length_singleton, encode, decode_snoc,
      show (decode l * 256 + b.toNat) / 256 = decode l by omega, ih]
    -- the last byte is the residue of the value below `256`
    congr 1
    rw [List.singleton_inj]
    apply UInt8.toNat_inj.mp
    rw [UInt8.toNat_ofNat', h8]
    omega

/-- Signed values inside the signed range of `w` bytes read back as themselves. -/
theorem decodeInt_encodeInt {w : Nat} {v : Int} (hlo : -(2 ^ (8 * w) / 2 : Nat) ≤ v)
    (hhi : v < ((2 ^ (8 * w) + 1) / 2 : Nat)) : decodeInt w (encodeInt w v) = v := by
  have h256 : (256 : Nat) ^ w = 2 ^ (8 * w) := by rw [Nat.pow_mul]
  have hpos : (0 : Int) < (2 ^ (8 * w) : Nat) := by exact_mod_cast Nat.two_pow_pos (8 * w)
  have hnn : 0 ≤ v % (2 ^ (8 * w) : Nat) := Int.emod_nonneg _ (by omega)
  have hlt : (v % (2 ^ (8 * w) : Nat)).toNat < 256 ^ w := by
    have := Int.emod_lt_of_pos v hpos
    rw [h256]
    omega
  unfold decodeInt encodeInt
  rw [decode_encode_of_lt hlt, Int.toNat_of_nonneg hnn, Int.emod_bmod]
  exact Int.bmod_eq_of_le hlo hhi

/-- Any `w` bytes are the encoding of the signed value they spell. -/
theorem encodeInt_decodeInt {w : Nat} {bytes : List UInt8} (hb : bytes.length = w) :
    encodeInt w (decodeInt w bytes) = bytes := by
  have h256 : (256 : Nat) ^ w = 2 ^ (8 * w) := by rw [Nat.pow_mul]
  have hlt : decode bytes < 2 ^ (8 * w) := by
    have := decode_lt bytes
    rw [hb, h256] at this
    exact this
  unfold encodeInt decodeInt
  rw [Int.bmod_emod, Int.emod_eq_of_lt (by omega) (by exact_mod_cast hlt), Int.toNat_natCast, ← hb,
    encode_decode]

/-- A natural compares as its quotient by `256`, then its last byte. -/
theorem compare_div_mod (a b : Nat) :
    compare a b = (compare (a / 256) (b / 256)).then (compare (a % 256) (b % 256)) := by
  rcases Nat.lt_trichotomy (a / 256) (b / 256) with h | h | h
  · rw [Nat.compare_eq_lt.mpr h, Nat.compare_eq_lt.mpr (by omega)]
    rfl
  · rw [h, Nat.compare_eq_ite_lt (b / 256), if_neg (Nat.lt_irrefl _), if_neg (Nat.lt_irrefl _),
      Ordering.eq_then, Nat.compare_eq_ite_lt, Nat.compare_eq_ite_lt (a % 256)]
    split_ifs <;> first | rfl | omega
  · rw [Nat.compare_eq_gt.mpr h, Nat.compare_eq_gt.mpr (by omega)]
    rfl

/-- Below `256 ^ w`, the encodings of two naturals compare as the naturals. -/
theorem compare_encode (w : Nat) {a b : Nat} (ha : a < 256 ^ w) (hb : b < 256 ^ w) :
    compare (encode w a) (encode w b) = compare a b := by
  induction w generalizing a b with
  | zero =>
    have ha0 : a = 0 := by simpa using ha
    have hb0 : b = 0 := by simpa using hb
    subst ha0 hb0
    rfl
  | succ w ih =>
    have hdiv : ∀ n, n < 256 ^ (w + 1) → n / 256 < 256 ^ w := fun n hn => by
      rw [Nat.pow_succ] at hn
      exact Nat.div_lt_of_lt_mul (by rwa [Nat.mul_comm] at hn)
    have hbyte : compare [UInt8.ofNat a] [UInt8.ofNat b] = compare (a % 256) (b % 256) := by
      rw [List.compare_cons_cons, List.compare_nil_nil, Ordering.then_eq,
        UInt8.compare_eq_toNat_compare_toNat, UInt8.toNat_ofNat', UInt8.toNat_ofNat']
    rw [encode, encode, OrderedMap.compare_append_of_length_eq (by simp), ih (hdiv a ha) (hdiv b hb),
      hbyte, ← compare_div_mod]

end BigEndian
