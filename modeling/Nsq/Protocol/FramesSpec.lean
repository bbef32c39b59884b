import Nsq.Protocol.Frames
import Nsq.Lib.ExceptBind

/-!
# What the publish handlers read

Each handler reads its frame off the front of the stream. A `PUB`, `PUB_TRACE` or `PUB_EXT` that
succeeds has read a body length `L` with `0 < L ≤ MaxMsgSize` and exactly `L` bytes after it
(`internalPubExtAndTrace_eq_ok`). A `PUB_EXT` body whose header length `h` has `2 + h < L` hands
the JSON parser the bytes `[2, 2 + h)` and keeps the message `[2 + h, L)` when `2 + h < 2 ^ 16`
(`splitPubBody_ext`). For `h` of `65534` or `65535` the `uint16` slice bound wraps to `0` or `1`,
below the low bound `2`, and the handler panics (`internalPubExtAndTrace_ext_wraps`); that is the
only panic it can reach (`internalPubExtAndTrace_panic`).

An `MPUB` that succeeds has read the body length, a count `n` and `n` length-prefixed messages
(`internalMPUBAndTrace_eq_ok`), whatever the body length said: `internalMPUBAndTrace_frames` gives
the same messages and the same stream after them for every body length that passes `preparePub`.
The body length is never compared with what follows, and the bytes read are bounded by the count
and `MaxMsgSize`, not by `MaxBodySize`. `MPUB` never panics (`internalMPUBAndTrace_noPanic`);
`IDENTIFY` panics exactly for a negative body length (`identify_panic_iff`).
-/

namespace Nsq.Protocol

open ByteStream ByteSlice ExceptBind

/-! ## Panics -/

variable {α : Type}

/-- A command's answer is not a Go panic. -/
def NoPanic (x : Except ProtoErr α) : Prop := ∀ p, x ≠ .error (.panic p)

namespace NoPanic

theorem ok (a : α) : NoPanic (.ok a : Except ProtoErr α) := fun _ h => by cases h

theorem fatal (code desc : String) : NoPanic (.error (.fatal code desc) : Except ProtoErr α) :=
  fun _ h => by cases h

theorem bind {β : Type} {x : Except ProtoErr α} {f : α → Except ProtoErr β} (hx : NoPanic x)
    (hf : ∀ a, x = .ok a → NoPanic (f a)) : NoPanic (x >>= f) := by
  intro p h
  cases hx' : x with
  | error e =>
    rw [hx', error_bind] at h
    injection h with he
    rw [he] at hx'
    exact hx p hx'
  | ok a =>
    rw [hx', ok_bind] at h
    exact hf a hx' p h

/-- A read whose every error becomes a client error does not panic. -/
theorem mapError_fatal {ε : Type} (x : Except ε α) (code desc : String) :
    NoPanic (x.mapError fun _ => ProtoErr.fatal code desc) := by
  cases x with
  | error e => exact fatal code desc
  | ok a => exact ok a

end NoPanic

/-! ## Slices and reads -/

theorem goSlice_of_le {b : List UInt8} {lo hi : Nat} (h : lo ≤ hi) (h' : hi ≤ b.length) :
    goSlice b lo hi = .ok ((b.drop lo).take (hi - lo)) := by
  rw [goSlice, slice?_of_le h h']

theorem goSlice_of_lt {b : List UInt8} {lo hi : Nat} (h : hi < lo) :
    goSlice b lo hi = .error (.panic (.sliceBounds lo hi)) := by
  rw [goSlice, slice?_eq_none_iff.mpr (by omega)]

theorem goSliceFrom_of_le {b : List UInt8} {lo : Nat} (h : lo ≤ b.length) :
    goSliceFrom b lo = .ok (b.drop lo) := by
  rw [goSliceFrom, sliceFrom?, if_pos h]

theorem readLen_append {b q : List UInt8} (hb : b.length = 4) :
    readLen (b ++ q) = .ok (BigEndian.decodeInt 4 b, q) := by
  rw [readLen, readFull_append hb]
  rfl

/-- A length read took four bytes off the front of the stream. -/
theorem readLen_eq_ok {r r' : List UInt8} {v : Int} (h : readLen r = .ok (v, r')) :
    ∃ b, r = b ++ r' ∧ b.length = 4 ∧ v = BigEndian.decodeInt 4 b := by
  unfold readLen at h
  cases hr : readFull r 4 with
  | error e =>
    rw [hr] at h
    cases h
  | ok p =>
    obtain ⟨b, rest⟩ := p
    rw [hr] at h
    injection h with h
    simp only [Prod.mk.injEq] at h
    obtain ⟨rfl, rfl⟩ := h
    obtain ⟨hr', hlen⟩ := readFull_eq_ok hr
    exact ⟨b, hr', hlen, rfl⟩

/-- An `int32` reads back as itself. -/
theorem decodeInt_encodeInt_int32 {v : Int} (hlo : -2 ^ 31 ≤ v) (hhi : v < 2 ^ 31) :
    BigEndian.decodeInt 4 (BigEndian.encodeInt 4 v) = v :=
  BigEndian.decodeInt_encodeInt (by norm_num; omega) (by norm_num; omega)

/-- What four bytes spell as an `int32` lies below `2 ^ 31`. -/
theorem decodeInt_lt_int32 (b : List UInt8) : BigEndian.decodeInt 4 b < 2 ^ 31 := by
  have h := Int.bmod_lt (x := (BigEndian.decode b : Int)) (m := 2 ^ (8 * 4)) (by norm_num)
  unfold BigEndian.decodeInt
  exact lt_of_lt_of_le h (by decide)

/-! ## `preparePub` -/

section Prepare

variable {τ : Type} (ctx : PubCtx τ)

theorem checkBodyLen_eq_ok_iff {bodyLen maxBody : Int} {isMpub : Bool} :
    checkBodyLen bodyLen maxBody isMpub = .ok () ↔ 0 < bodyLen ∧ bodyLen ≤ maxBody := by
  unfold checkBodyLen
  by_cases h0 : bodyLen ≤ 0
  · simp [h0]
  · by_cases h1 : bodyLen > maxBody
    · cases isMpub <;> simp [h0, h1]
    · simp [h0, h1]
      omega

theorem pubPartition_noPanic (params : List String) : NoPanic (pubPartition ctx params) := by
  unfold pubPartition
  by_cases h2 : params.length < 2
  · rw [if_pos h2]
    exact NoPanic.fatal _ _
  rw [if_neg h2]
  by_cases h3 : params.length = 3
  · rw [if_pos h3]
    cases strconvAtoi params[2]! with
    | some p => exact NoPanic.ok _
    | none => exact NoPanic.fatal _ _
  · rw [if_neg h3]
    exact NoPanic.ok _

theorem checkBodyLen_noPanic (bodyLen maxBody : Int) (isMpub : Bool) :
    NoPanic (checkBodyLen bodyLen maxBody isMpub) := by
  unfold checkBodyLen
  by_cases h0 : bodyLen ≤ 0
  · rw [if_pos h0]
    exact NoPanic.fatal _ _
  rw [if_neg h0]
  by_cases h1 : bodyLen > maxBody
  · rw [if_pos h1]
    cases isMpub
    · exact NoPanic.fatal _ _
    · exact NoPanic.fatal _ _
  · rw [if_neg h1]
    exact NoPanic.ok _

theorem pubTopic_noPanic (topicName : String) (origPart partition : Int) :
    NoPanic (pubTopic ctx topicName origPart partition) := by
  unfold pubTopic
  cases ctx.getExistingTopic topicName partition with
  | none => exact NoPanic.fatal _ _
  | some topic =>
    dsimp only
    by_cases ho : origPart = -1 ∧ ctx.isOrdered topic
    · rw [if_pos ho]
      exact NoPanic.fatal _ _
    rw [if_neg ho]
    cases ctx.checkAuth topicName with
    | none => exact NoPanic.ok _
    | some e => exact NoPanic.fatal _ _

theorem preparePub_noPanic (params : List String) (maxBody : Int) (isMpub : Bool)
    (r : List UInt8) : NoPanic (preparePub ctx params maxBody isMpub r) := by
  unfold preparePub
  refine NoPanic.bind (pubPartition_noPanic ctx params) fun ⟨topicName, origPart, partition⟩ _ => ?_
  refine NoPanic.bind (NoPanic.mapError_fatal _ _ _) fun ⟨bodyLen, r⟩ _ => ?_
  refine NoPanic.bind (checkBodyLen_noPanic bodyLen maxBody isMpub) fun _ _ => ?_
  exact NoPanic.bind (pubTopic_noPanic ctx _ _ _) fun _ _ => NoPanic.ok _

variable {params : List String} {maxBody : Int} {isMpub : Bool}

/-- A `preparePub` that succeeds read a length of four bytes, and nothing else, that passed the
size checks. -/
theorem preparePub_eq_ok {r r' : List UInt8} {bodyLen : Int} {topic : τ}
    (h : preparePub ctx params maxBody isMpub r = .ok (bodyLen, topic, r')) :
    ∃ b, r = b ++ r' ∧ b.length = 4 ∧ bodyLen = BigEndian.decodeInt 4 b ∧
      0 < bodyLen ∧ bodyLen ≤ maxBody := by
  unfold preparePub at h
  obtain ⟨⟨topicName, origPart, partition⟩, -, h⟩ := bind_eq_ok h
  obtain ⟨⟨bodyLen', r₁⟩, hread, h⟩ := bind_eq_ok h
  obtain ⟨u, hcheck, h⟩ := bind_eq_ok h
  obtain ⟨topic', -, h⟩ := bind_eq_ok h
  injection h with h
  simp only [Prod.mk.injEq] at h
  obtain ⟨rfl, -, rfl⟩ := h
  obtain ⟨b, hr, hb, hv⟩ := readLen_eq_ok (mapError_eq_ok.mp hread)
  exact ⟨b, hr, hb, hv, checkBodyLen_eq_ok_iff.mp hcheck⟩

/-- With parameters naming a topic the client may publish to, `preparePub` reads a length that
passes the size checks and leaves the stream after it. -/
theorem preparePub_append {topicName : String} {origPart partition : Int} {topic : τ}
    (hpart : pubPartition ctx params = .ok (topicName, origPart, partition))
    (htopic : pubTopic ctx topicName origPart partition = .ok topic) {b q : List UInt8}
    (hb : b.length = 4) (hpos : 0 < BigEndian.decodeInt 4 b)
    (hmax : BigEndian.decodeInt 4 b ≤ maxBody) :
    preparePub ctx params maxBody isMpub (b ++ q) = .ok (BigEndian.decodeInt 4 b, topic, q) := by
  unfold preparePub
  rw [hpart, ok_bind]
  dsimp only
  rw [readLen_append hb, mapError_ok, ok_bind]
  dsimp only
  rw [checkBodyLen_eq_ok_iff.mpr ⟨hpos, hmax⟩, ok_bind, htopic, ok_bind]
  rfl

end Prepare

section Split

variable {τ : Type} (ctx : PubCtx τ) {body : List UInt8} {traceEnable : Bool}

/-- A `PUB_TRACE` body is its trace ID and the message after it. -/
theorem splitPubBody_trace {bodyLen : Int} (h8 : 8 ≤ body.length) :
    splitPubBody ctx false true bodyLen body =
      .ok ⟨UInt64.ofNat (BigEndian.decode (body.take 8)), none, body.drop 8⟩ := by
  unfold splitPubBody
  rw [if_pos (by simp), msgTraceIDLength, goSlice_of_le (Nat.zero_le 8) h8, ok_bind,
    goSliceFrom_of_le h8, ok_bind, List.drop_zero]
  rfl

/-- The header length a body starts with is below `2 ^ 16`. -/
theorem decode_take_two_lt (body : List UInt8) : BigEndian.decode (body.take 2) < 2 ^ 16 := by
  have h := BigEndian.decode_lt (body.take 2)
  have hlen : (body.take 2).length ≤ 2 := by simp
  calc BigEndian.decode (body.take 2) < 256 ^ (body.take 2).length := h
    _ ≤ 256 ^ 2 := Nat.pow_le_pow_right (by norm_num) hlen
    _ = 2 ^ 16 := by norm_num

/-- A `PUB_EXT` body whose header ends before the body does and below `2 ^ 16` hands the JSON
parser the header `[2, 2 + h)` and keeps the message `[2 + h, L)`. -/
theorem splitPubBody_ext (hlt : 2 + BigEndian.decode (body.take 2) < body.length)
    (hw : 2 + BigEndian.decode (body.take 2) < 2 ^ 16) :
    splitPubBody ctx true traceEnable body.length body =
      (fun tid => ⟨tid.getD 0, some ((body.drop 2).take (BigEndian.decode (body.take 2))),
          body.drop (2 + BigEndian.decode (body.take 2))⟩) <$>
        (ctx.parseJsonHeader ((body.drop 2).take (BigEndian.decode (body.take 2)))).mapError
          fun (code, desc) => .client code desc := by
  unfold splitPubBody
  rw [if_neg (by simp), if_pos rfl, msgJsonHeaderLength, goSlice_of_le (Nat.zero_le 2) (by omega),
    ok_bind, List.drop_zero, Nat.sub_zero]
  rw [if_neg (by omega), Nat.mod_eq_of_lt hw, goSlice_of_le (by omega) (by omega), ok_bind,
    Nat.add_sub_cancel_left]
  cases (ctx.parseJsonHeader ((body.drop 2).take (BigEndian.decode (body.take 2)))) with
  | error e => rfl
  | ok tid =>
    rw [mapError_ok, ok_bind, goSliceFrom_of_le (by omega), ok_bind]
    rfl

/-- For a header length of `65534` or `65535` the `uint16` bound wraps below the low bound `2`,
and slicing the header panics. -/
theorem splitPubBody_ext_wraps (hlt : 2 + BigEndian.decode (body.take 2) < body.length)
    (hw : 2 ^ 16 ≤ 2 + BigEndian.decode (body.take 2)) :
    splitPubBody ctx true traceEnable body.length body =
      .error (.panic (.sliceBounds 2 ((2 + BigEndian.decode (body.take 2)) % 2 ^ 16))) := by
  have hh := decode_take_two_lt body
  unfold splitPubBody
  rw [if_neg (by simp), if_pos rfl, msgJsonHeaderLength, goSlice_of_le (Nat.zero_le 2) (by omega),
    ok_bind, List.drop_zero, Nat.sub_zero]
  rw [if_neg (by omega), goSlice_of_lt (by omega), error_bind]

/-- Past the handler's own checks, the split panics only at a wrapped header bound. -/
theorem splitPubBody_panic {pubExt : Bool} {e : GoPanic} (htr : traceEnable → 8 < body.length)
    (hext : pubExt → 2 < body.length)
    (h : splitPubBody ctx pubExt traceEnable body.length body = .error (.panic e)) :
    pubExt = true ∧ 2 ^ 16 ≤ 2 + BigEndian.decode (body.take 2) ∧
      2 + BigEndian.decode (body.take 2) < body.length ∧
      e = .sliceBounds 2 ((2 + BigEndian.decode (body.take 2)) % 2 ^ 16) := by
  cases pubExt with
  | false =>
    cases traceEnable with
    | true =>
      rw [splitPubBody_trace ctx (Nat.le_of_lt (htr rfl))] at h
      cases h
    | false =>
      unfold splitPubBody at h
      rw [if_neg (by simp), if_neg (by simp)] at h
      cases h
  | true =>
    have h2 := hext rfl
    by_cases hle : body.length ≤ 2 + BigEndian.decode (body.take 2)
    · -- the `int32` check refuses the header length
      unfold splitPubBody at h
      rw [if_neg (by simp), if_pos rfl, msgJsonHeaderLength,
        goSlice_of_le (Nat.zero_le 2) (by omega), ok_bind, List.drop_zero, Nat.sub_zero,
        if_pos (by omega)] at h
      cases h
    by_cases hw : 2 + BigEndian.decode (body.take 2) < 2 ^ 16
    · rw [splitPubBody_ext ctx (by omega) hw] at h
      cases hj : ctx.parseJsonHeader ((body.drop 2).take (BigEndian.decode (body.take 2))) with
      | error ce =>
        rw [hj] at h
        cases h
      | ok tid =>
        rw [hj] at h
        cases h
    · rw [splitPubBody_ext_wraps ctx (by omega) (by omega)] at h
      injection h with h
      injection h with h
      exact ⟨rfl, by omega, by omega, h.symm⟩

end Split

section Pub

variable {τ : Type} (ctx : PubCtx τ) {params : List String} {pubExt traceEnable : Bool}

/-- A `PUB`, `PUB_TRACE` or `PUB_EXT` that succeeds read a length `L` with `0 < L ≤ MaxMsgSize`
and exactly `L` bytes after it, and its frame is the split of those bytes. -/
theorem internalPubExtAndTrace_eq_ok {r r' : List UInt8} {frame : PubFrame}
    (h : internalPubExtAndTrace ctx params pubExt traceEnable r = .ok (frame, r')) :
    ∃ b body, r = b ++ body ++ r' ∧ b.length = 4 ∧ BigEndian.decodeInt 4 b = body.length ∧
      0 < body.length ∧ (body.length : Int) ≤ ctx.maxMsgSize ∧
      splitPubBody ctx pubExt traceEnable body.length body = .ok frame := by
  unfold internalPubExtAndTrace at h
  obtain ⟨⟨bodyLen, topic, r₁⟩, hprep, h⟩ := bind_eq_ok h
  obtain ⟨b, hr, hb, hv, hpos, hmax⟩ := preparePub_eq_ok ctx hprep
  dsimp only at h
  by_cases htr : traceEnable = true ∧ bodyLen ≤ msgTraceIDLength
  · rw [if_pos htr] at h
    cases h
  rw [if_neg htr] at h
  by_cases hext : pubExt = true ∧ bodyLen ≤ msgJsonHeaderLength
  · rw [if_pos hext] at h
    cases h
  rw [if_neg hext] at h
  obtain ⟨⟨body, r₂⟩, hcopy, h⟩ := bind_eq_ok h
  obtain ⟨hr₁, hlen⟩ := copyN_eq_ok (mapError_eq_ok.mp hcopy)
  obtain ⟨frame', hsplit, h⟩ := bind_eq_ok h
  injection h with h
  simp only [Prod.mk.injEq] at h
  obtain ⟨rfl, rfl⟩ := h
  have hL : (body.length : Int) = bodyLen := by omega
  refine ⟨b, body, by rw [hr, hr₁, List.append_assoc], hb, hv ▸ hL.symm, by omega, by omega, ?_⟩
  rw [hL]
  exact hsplit

/-- The only panic of `PUB`, `PUB_TRACE` and `PUB_EXT`: a `PUB_EXT` whose header length `h` has
`2 + h` at least `2 ^ 16` and below the body length. -/
theorem internalPubExtAndTrace_panic {r : List UInt8} {e : GoPanic}
    (h : internalPubExtAndTrace ctx params pubExt traceEnable r = .error (.panic e)) :
    pubExt = true ∧ ∃ b body r', r = b ++ body ++ r' ∧ b.length = 4 ∧
      BigEndian.decodeInt 4 b = body.length ∧ 2 ^ 16 ≤ 2 + BigEndian.decode (body.take 2) ∧
      2 + BigEndian.decode (body.take 2) < body.length ∧
      e = .sliceBounds 2 ((2 + BigEndian.decode (body.take 2)) % 2 ^ 16) := by
  unfold internalPubExtAndTrace at h
  rcases bind_eq_error h with hprep | ⟨⟨bodyLen, topic, r₁⟩, hprep, h⟩
  · exact absurd hprep (preparePub_noPanic ctx _ _ _ _ e)
  obtain ⟨b, hr, hb, hv, hpos, hmax⟩ := preparePub_eq_ok ctx hprep
  dsimp only at h
  by_cases htr : traceEnable = true ∧ bodyLen ≤ msgTraceIDLength
  · rw [if_pos htr] at h
    cases h
  rw [if_neg htr] at h
  by_cases hext : pubExt = true ∧ bodyLen ≤ msgJsonHeaderLength
  · rw [if_pos hext] at h
    cases h
  rw [if_neg hext] at h
  rcases bind_eq_error h with hcopy | ⟨⟨body, r₂⟩, hcopy, h⟩
  · exact absurd hcopy (NoPanic.mapError_fatal _ _ _ e)
  obtain ⟨hr₁, hlen⟩ := copyN_eq_ok (mapError_eq_ok.mp hcopy)
  rcases bind_eq_error h with hsplit | ⟨frame, -, h⟩
  · have hL : (body.length : Int) = bodyLen := by omega
    -- the handler's checks are what the split needs of the body length
    have htr' : traceEnable = true → 8 < body.length := fun ht => by
      have := not_and.mp htr ht
      rw [msgTraceIDLength] at this
      omega
    have hext' : pubExt = true → 2 < body.length := fun hp => by
      have := not_and.mp hext hp
      rw [msgJsonHeaderLength] at this
      omega
    rw [← hL] at hsplit
    obtain ⟨hp, hw, hlt, he⟩ := splitPubBody_panic ctx htr' hext' hsplit
    exact ⟨hp, b, body, r₂, by rw [hr, hr₁, List.append_assoc], hb, hv ▸ hL.symm, hw, hlt, he⟩
  · cases h

/-- A `PUB_EXT` of a body that fits `MaxMsgSize`, to a topic the client may publish to, whose
header length `h` has `2 ^ 16 ≤ 2 + h < L` panics. -/
theorem internalPubExtAndTrace_ext_wraps {topicName : String} {origPart partition : Int}
    {topic : τ} (hpart : pubPartition ctx params = .ok (topicName, origPart, partition))
    (htopic : pubTopic ctx topicName origPart partition = .ok topic) {body q : List UInt8}
    (hmax : (body.length : Int) ≤ ctx.maxMsgSize) (h31 : body.length < 2 ^ 31)
    (hlt : 2 + BigEndian.decode (body.take 2) < body.length)
    (hw : 2 ^ 16 ≤ 2 + BigEndian.decode (body.take 2)) :
    internalPubExtAndTrace ctx params true traceEnable
        (BigEndian.encodeInt 4 body.length ++ body ++ q) =
      .error (.panic (.sliceBounds 2 ((2 + BigEndian.decode (body.take 2)) % 2 ^ 16))) := by
  have hL := decodeInt_encodeInt_int32 (v := body.length) (by omega) (by exact_mod_cast h31)
  unfold internalPubExtAndTrace
  rw [List.append_assoc, preparePub_append ctx hpart htopic (BigEndian.length_encodeInt 4 _)
    (by omega) (by omega), ok_bind]
  dsimp only
  rw [hL, if_neg (fun hc => by have := hc.2; rw [msgTraceIDLength] at this; omega),
    if_neg (fun hc => by have := hc.2; rw [msgJsonHeaderLength] at this; omega),
    copyN_append (by simp), mapError_ok, ok_bind]
  dsimp only
  rw [splitPubBody_ext_wraps ctx hlt hw, error_bind]

end Pub

/-! ## `MPUB` -/

/-- One `MPUB` message on the wire: its length, then its bytes. -/
def mpubFrame (m : List UInt8) : List UInt8 := BigEndian.encodeInt 4 m.length ++ m

/-- A message as `readMPUB` answers it: with tracing, the trace ID and the body after it. -/
def splitTrace (traceEnable : Bool) (m : List UInt8) : UInt64 × List UInt8 :=
  if traceEnable then (UInt64.ofNat (BigEndian.decode (m.take 8)), m.drop 8) else (0, m)

/-- A message `readMPUB` accepts: not empty, within `maxMessageSize` and the `int32` range, and
longer than a trace ID when tracing. -/
def MessageFits (maxMessageSize : Int) (traceEnable : Bool) (m : List UInt8) : Prop :=
  0 < m.length ∧ (m.length : Int) ≤ maxMessageSize ∧ m.length < 2 ^ 31 ∧
    (traceEnable = true → 8 < m.length)

section MPUB

variable {maxMessageSize : Int} {traceEnable : Bool}

/-- A message that fits is read off the front of the stream as its frame. -/
theorem readMPUBMessage_append {m : List UInt8} (hm : MessageFits maxMessageSize traceEnable m)
    (i : Nat) (q : List UInt8) :
    readMPUBMessage maxMessageSize traceEnable i (mpubFrame m ++ q) =
      .ok (splitTrace traceEnable m, q) := by
  obtain ⟨hpos, hmax, h31, htr⟩ := hm
  have hL := decodeInt_encodeInt_int32 (v := m.length) (by omega) (by exact_mod_cast h31)
  unfold readMPUBMessage mpubFrame
  rw [List.append_assoc, readLen_append (BigEndian.length_encodeInt 4 _), mapError_ok, ok_bind]
  dsimp only
  rw [hL, if_neg (by omega), if_neg (by omega), copyN_append (by simp), mapError_ok, ok_bind]
  dsimp only
  cases traceEnable with
  | false => rfl
  | true =>
    have h8 := htr rfl
    rw [if_pos rfl, msgTraceIDLength, if_neg (by omega), goSlice_of_le (Nat.zero_le 8) (by omega),
      ok_bind, goSliceFrom_of_le (by omega), ok_bind, List.drop_zero]
    rfl

/-- A message read off the stream was a frame of a message that fits. -/
theorem readMPUBMessage_eq_ok {i : Nat} {r r' : List UInt8} {msg : UInt64 × List UInt8}
    (h : readMPUBMessage maxMessageSize traceEnable i r = .ok (msg, r')) :
    ∃ m, r = mpubFrame m ++ r' ∧ MessageFits maxMessageSize traceEnable m ∧
      msg = splitTrace traceEnable m := by
  unfold readMPUBMessage at h
  obtain ⟨⟨size, r₁⟩, hread, h⟩ := bind_eq_ok h
  obtain ⟨b, hr, hb, hv⟩ := readLen_eq_ok (mapError_eq_ok.mp hread)
  dsimp only at h
  by_cases h0 : size ≤ 0
  · rw [if_pos h0] at h
    cases h
  rw [if_neg h0] at h
  by_cases h1 : size > maxMessageSize
  · rw [if_pos h1] at h
    cases h
  rw [if_neg h1] at h
  obtain ⟨⟨body, r₂⟩, hcopy, h⟩ := bind_eq_ok h
  obtain ⟨hr₁, hlen⟩ := copyN_eq_ok (mapError_eq_ok.mp hcopy)
  have hL : (body.length : Int) = size := by omega
  have h31 : size < 2 ^ 31 := hv ▸ decodeInt_lt_int32 b
  -- the four length bytes are the encoding of the body's length
  have hstream : r = mpubFrame body ++ r₂ := by
    rw [hr, hr₁, mpubFrame, hL, hv, BigEndian.encodeInt_decodeInt hb, List.append_assoc]
  dsimp only at h
  cases traceEnable with
  | false =>
    rw [if_neg Bool.false_ne_true] at h
    injection h with h
    simp only [Prod.mk.injEq] at h
    obtain ⟨hmsg, hr'⟩ := h
    refine ⟨body, hr' ▸ hstream, ⟨by omega, by omega, by omega, ?_⟩, hmsg.symm⟩
    exact fun h => absurd h Bool.false_ne_true
  | true =>
    rw [if_pos rfl] at h
    by_cases h8 : size ≤ msgTraceIDLength
    · rw [if_pos h8] at h
      cases h
    rw [msgTraceIDLength] at h8
    rw [if_neg (by rw [msgTraceIDLength]; exact h8), msgTraceIDLength,
      goSlice_of_le (Nat.zero_le 8) (by omega), ok_bind, goSliceFrom_of_le (by omega), ok_bind,
      List.drop_zero] at h
    injection h with h
    simp only [Prod.mk.injEq] at h
    obtain ⟨hmsg, hr'⟩ := h
    exact ⟨body, hr' ▸ hstream, ⟨by omega, by omega, by omega, fun _ => by omega⟩, hmsg.symm⟩

/-- The loop reads the frames of messages that fit, one after another. -/
theorem readMPUBLoop_frames (ms : List (List UInt8))
    (hms : ∀ m ∈ ms, MessageFits maxMessageSize traceEnable m) (i : Nat)
    (acc : List (UInt64 × List UInt8)) (q : List UInt8) :
    readMPUBLoop maxMessageSize traceEnable ms.length i acc ((ms.map mpubFrame).flatten ++ q) =
      .ok (acc ++ ms.map (splitTrace traceEnable), q) := by
  induction ms generalizing i acc with
  | nil =>
    rw [List.map_nil, List.flatten_nil, List.nil_append, List.map_nil, List.append_nil]
    rfl
  | cons m ms ih =>
    rw [List.length_cons, readMPUBLoop, List.map_cons, List.flatten_cons, List.append_assoc,
      readMPUBMessage_append (hms m List.mem_cons_self), ok_bind]
    dsimp only
    rw [ih (fun m' hm' => hms m' (List.mem_cons_of_mem _ hm')), List.map_cons, List.append_assoc,
      List.singleton_append]

/-- What the loop read is the frames of `n` messages that fit, and nothing else. -/
theorem readMPUBLoop_eq_ok {n i : Nat} {acc msgs : List (UInt64 × List UInt8)} {r r' : List UInt8}
    (h : readMPUBLoop maxMessageSize traceEnable n i acc r = .ok (msgs, r')) :
    ∃ ms : List (List UInt8), ms.length = n ∧ r = (ms.map mpubFrame).flatten ++ r' ∧
      (∀ m ∈ ms, MessageFits maxMessageSize traceEnable m) ∧
      msgs = acc ++ ms.map (splitTrace traceEnable) := by
  induction n generalizing i acc r with
  | zero =>
    rw [readMPUBLoop] at h
    injection h with h
    simp only [Prod.mk.injEq] at h
    obtain ⟨hmsgs, hr⟩ := h
    exact ⟨[], rfl, by rw [hr]; rfl, fun _ hm => absurd hm List.not_mem_nil,
      by rw [← hmsgs, List.map_nil, List.append_nil]⟩
  | succ n ih =>
    rw [readMPUBLoop] at h
    obtain ⟨⟨msg, r₁⟩, hmsg, h⟩ := bind_eq_ok h
    obtain ⟨m, hr, hm, hmsg'⟩ := readMPUBMessage_eq_ok hmsg
    obtain ⟨ms, hlen, hr₁, hms, hmsgs⟩ := ih h
    refine ⟨m :: ms, by rw [List.length_cons, hlen], ?_, ?_, ?_⟩
    · rw [hr, hr₁, List.map_cons, List.flatten_cons, List.append_assoc]
    · intro m' hm'
      rcases List.mem_cons.mp hm' with rfl | hm'
      · exact hm
      · exact hms m' hm'
    · rw [hmsgs, hmsg', List.map_cons, List.append_assoc, List.singleton_append]

theorem readMPUBMessage_noPanic (i : Nat) (r : List UInt8) :
    NoPanic (readMPUBMessage maxMessageSize traceEnable i r) := by
  unfold readMPUBMessage
  refine NoPanic.bind (NoPanic.mapError_fatal _ _ _) fun ⟨size, r₁⟩ _ => ?_
  dsimp only
  by_cases h0 : size ≤ 0
  · rw [if_pos h0]
    exact NoPanic.fatal _ _
  rw [if_neg h0]
  by_cases h1 : size > maxMessageSize
  · rw [if_pos h1]
    exact NoPanic.fatal _ _
  rw [if_neg h1]
  refine NoPanic.bind (NoPanic.mapError_fatal _ _ _) fun ⟨body, r₂⟩ hcopy => ?_
  obtain ⟨-, hlen⟩ := copyN_eq_ok (mapError_eq_ok.mp hcopy)
  dsimp only
  cases traceEnable with
  | false => exact NoPanic.ok _
  | true =>
    rw [if_pos rfl]
    by_cases h8 : size ≤ msgTraceIDLength
    · rw [if_pos h8]
      exact NoPanic.fatal _ _
    -- a message longer than a trace ID holds both slices
    rw [msgTraceIDLength] at h8
    rw [if_neg (by rw [msgTraceIDLength]; exact h8), msgTraceIDLength,
      goSlice_of_le (Nat.zero_le 8) (by omega), ok_bind, goSliceFrom_of_le (by omega), ok_bind]
    exact NoPanic.ok _

theorem readMPUBLoop_noPanic (n i : Nat) (acc : List (UInt64 × List UInt8)) (r : List UInt8) :
    NoPanic (readMPUBLoop maxMessageSize traceEnable n i acc r) := by
  induction n generalizing i acc r with
  | zero => exact NoPanic.ok _
  | succ n ih =>
    rw [readMPUBLoop]
    exact NoPanic.bind (readMPUBMessage_noPanic i r) fun ⟨msg, r₁⟩ _ => ih _ _ _

end MPUB

section MPUBHandler

variable {τ : Type} (ctx : PubCtx τ) {params : List String} {traceEnable : Bool}

/-- An `MPUB` or `MPUB_TRACE` that succeeds read a body length, a count and that many frames of
messages that fit, and nothing else. The body length only passed the size checks: nothing ties it
to the bytes that follow. -/
theorem internalMPUBAndTrace_eq_ok {r r' : List UInt8} {msgs : List (UInt64 × List UInt8)}
    (h : internalMPUBAndTrace ctx params traceEnable r = .ok (msgs, r')) :
    ∃ (b c : List UInt8) (ms : List (List UInt8)), r = b ++ c ++ (ms.map mpubFrame).flatten ++ r' ∧
      b.length = 4 ∧ c.length = 4 ∧
      0 < BigEndian.decodeInt 4 b ∧ BigEndian.decodeInt 4 b ≤ ctx.maxBodySize ∧
      BigEndian.decodeInt 4 c = ms.length ∧ (∀ m ∈ ms, MessageFits ctx.maxMsgSize traceEnable m) ∧
      msgs = ms.map (splitTrace traceEnable) := by
  unfold internalMPUBAndTrace readMPUB at h
  obtain ⟨⟨bodyLen, topic, r₁⟩, hprep, h⟩ := bind_eq_ok h
  obtain ⟨b, hr, hb, hv, hpos, hmax⟩ := preparePub_eq_ok ctx hprep
  dsimp only at h
  obtain ⟨⟨count, r₂⟩, hread, h⟩ := bind_eq_ok h
  obtain ⟨c, hr₁, hc, hcount⟩ := readLen_eq_ok (mapError_eq_ok.mp hread)
  dsimp only at h
  by_cases hbad : count ≤ 0 ∨ count > (ctx.maxBodySize - 4).tdiv 5
  · rw [if_pos hbad] at h
    cases h
  rw [if_neg hbad] at h
  obtain ⟨ms, hlen, hr₂, hms, hmsgs⟩ := readMPUBLoop_eq_ok h
  refine ⟨b, c, ms, by rw [hr, hr₁, hr₂, List.append_assoc, List.append_assoc], hb, hc,
    hv ▸ hpos, hv ▸ hmax, ?_, hms, by rw [hmsgs, List.nil_append]⟩
  rw [← hcount, hlen]
  omega

/-- For every body length that passes `preparePub`, an `MPUB` of messages that fit, as many as
the count allows, reads all their frames and answers them. -/
theorem internalMPUBAndTrace_frames {topicName : String} {origPart partition : Int} {topic : τ}
    (hpart : pubPartition ctx params = .ok (topicName, origPart, partition))
    (htopic : pubTopic ctx topicName origPart partition = .ok topic) {bodyLen : Int}
    (hpos : 0 < bodyLen) (hmax : bodyLen ≤ ctx.maxBodySize) (h31 : bodyLen < 2 ^ 31)
    {ms : List (List UInt8)} (hcount : 0 < ms.length)
    (hcap : (ms.length : Int) ≤ (ctx.maxBodySize - 4).tdiv 5) (hcount31 : ms.length < 2 ^ 31)
    (hms : ∀ m ∈ ms, MessageFits ctx.maxMsgSize traceEnable m) (q : List UInt8) :
    internalMPUBAndTrace ctx params traceEnable
        (BigEndian.encodeInt 4 bodyLen ++ BigEndian.encodeInt 4 ms.length ++
          (ms.map mpubFrame).flatten ++ q) =
      .ok (ms.map (splitTrace traceEnable), q) := by
  have hL := decodeInt_encodeInt_int32 (by omega) h31
  have hN := decodeInt_encodeInt_int32 (v := ms.length) (by omega) (by exact_mod_cast hcount31)
  unfold internalMPUBAndTrace readMPUB
  rw [List.append_assoc, List.append_assoc, preparePub_append ctx hpart htopic
    (BigEndian.length_encodeInt 4 _) (by omega) (by omega), ok_bind]
  dsimp only
  rw [readLen_append (BigEndian.length_encodeInt 4 _), mapError_ok, ok_bind]
  dsimp only
  rw [hN, if_neg (by omega), Int.toNat_natCast, readMPUBLoop_frames ms hms, List.nil_append]

/-- `MPUB` and `MPUB_TRACE` never panic. -/
theorem internalMPUBAndTrace_noPanic (r : List UInt8) :
    NoPanic (internalMPUBAndTrace ctx params traceEnable r) := by
  unfold internalMPUBAndTrace readMPUB
  refine NoPanic.bind (preparePub_noPanic ctx _ _ _ _) fun ⟨bodyLen, topic, r₁⟩ _ => ?_
  refine NoPanic.bind (NoPanic.mapError_fatal _ _ _) fun ⟨count, r₂⟩ _ => ?_
  dsimp only
  by_cases hbad : count ≤ 0 ∨ count > (ctx.maxBodySize - 4).tdiv 5
  · rw [if_pos hbad]
    exact NoPanic.fatal _ _
  rw [if_neg hbad]
  exact readMPUBLoop_noPanic _ _ _ _

end MPUBHandler

/-! ## `IDENTIFY` -/

/-- `IDENTIFY` panics exactly when it is the first and its body length is negative. -/
theorem identify_panic_iff {identified : Bool} {r : List UInt8} :
    (∃ p, identify identified r = .error (.panic p)) ↔
      identified = false ∧ 4 ≤ r.length ∧ BigEndian.decodeInt 4 (r.take 4) < 0 := by
  cases identified with
  | true =>
    refine ⟨fun ⟨p, h⟩ => ?_, fun h => absurd h.1 (by decide)⟩
    cases h
  | false =>
    unfold identify
    rw [if_neg Bool.false_ne_true]
    by_cases h4 : 4 ≤ r.length
    · have hread : readLen r = .ok (BigEndian.decodeInt 4 (r.take 4), r.drop 4) := by
        have h := readLen_append (b := r.take 4) (q := r.drop 4) (by simp; omega)
        rwa [List.take_append_drop] at h
      rw [hread, mapError_ok, ok_bind]
      dsimp only
      by_cases hneg : BigEndian.decodeInt 4 (r.take 4) < 0
      · rw [if_pos hneg]
        exact ⟨fun _ => ⟨rfl, h4, hneg⟩, fun _ => ⟨_, rfl⟩⟩
      · rw [if_neg hneg]
        exact ⟨fun ⟨p, h⟩ => absurd h (NoPanic.mapError_fatal _ _ _ p), fun h => absurd h.2.2 hneg⟩
    · -- fewer than four bytes: the length read fails, and its error is a client error
      have hshort : readLen r = .error (if r = [] then .eof else .unexpectedEOF) := by
        unfold readLen readFull
        rw [if_neg h4]
        split <;> rfl
      rw [hshort]
      refine ⟨fun ⟨p, h⟩ => ?_, fun h => absurd h.2.1 h4⟩
      cases h

/-! ## At the default limits -/

/-- A server with `nsqd`'s default limits (`MaxMsgSize` 1 MiB, `MaxBodySize` 5 MiB) and one
topic, not ordered, that every client may publish to; the JSON parser accepts every header. -/
def defaultPubCtx : PubCtx Unit where
  atoiErr s := "strconv.Atoi: parsing " ++ s.quote ++ ": invalid syntax"
  getDefaultPartition _ := 0
  getExistingTopic _ _ := some ()
  isOrdered _ := false
  checkAuth _ := none
  parseJsonHeader _ := .ok none
  maxMsgSize := 1024 * 1024
  maxBodySize := 5 * 1024 * 1024

/-- A `PUB_EXT` of 65537 bytes with header length 65534 panics at the slice `[2:0]`; an `MPUB`
that declares a body of one byte reads six messages of 1 MiB, more than `MaxBodySize`, and
accepts them; an `IDENTIFY` with body length `-1` panics in `make`. -/
theorem clientFrames_panic_and_overread :
    internalPubExtAndTrace defaultPubCtx ["PUB_EXT", "t"] true false
        (BigEndian.encodeInt 4 65537 ++ ([255, 254] ++ List.replicate 65535 0)) =
      .error (.panic (.sliceBounds 2 0)) ∧
    internalMPUBAndTrace defaultPubCtx ["MPUB", "t"] false
        (BigEndian.encodeInt 4 1 ++ BigEndian.encodeInt 4 6 ++
          ((List.replicate 6 (List.replicate 1048576 0)).map mpubFrame).flatten) =
      .ok ((List.replicate 6 (List.replicate 1048576 0)).map (splitTrace false), []) ∧
    defaultPubCtx.maxBodySize <
      (((List.replicate 6 (List.replicate 1048576 (0 : UInt8))).map mpubFrame).flatten.length : Int) ∧
    identify false (BigEndian.encodeInt 4 (-1)) = .error (.panic (.makeSliceLen (-1))) := by
  refine ⟨?_, ?_, ?_, by decide⟩
  · obtain ⟨body, hbody⟩ : ∃ body : List UInt8, body = [255, 254] ++ List.replicate 65535 0 :=
      ⟨_, rfl⟩
    rw [← hbody]
    have hlen : body.length = 65537 := by
      rw [hbody, List.length_append, List.length_replicate]
      rfl
    have hh : BigEndian.decode (body.take 2) = 65534 := by
      rw [hbody]
      rfl
    have h : internalPubExtAndTrace defaultPubCtx ["PUB_EXT", "t"] true false
        (BigEndian.encodeInt 4 body.length ++ body ++ []) =
        .error (.panic (.sliceBounds 2 ((2 + BigEndian.decode (body.take 2)) % 2 ^ 16))) :=
      internalPubExtAndTrace_ext_wraps defaultPubCtx rfl rfl (by rw [hlen]; decide)
        (by rw [hlen]; decide) (by rw [hh, hlen]; decide) (by rw [hh]; decide)
    rw [hlen, hh, List.append_nil] at h
    exact h
  · obtain ⟨m, hm⟩ : ∃ m : List UInt8, m = List.replicate 1048576 0 := ⟨_, rfl⟩
    rw [← hm]
    have hfits : ∀ m' ∈ List.replicate 6 m, MessageFits defaultPubCtx.maxMsgSize false m' := by
      intro m' hm'
      rw [List.eq_of_mem_replicate hm', hm]
      rw [MessageFits, List.length_replicate]
      exact ⟨by decide, by decide, by decide, fun h => absurd h Bool.false_ne_true⟩
    have h : internalMPUBAndTrace defaultPubCtx ["MPUB", "t"] false
        (BigEndian.encodeInt 4 1 ++ BigEndian.encodeInt 4 (List.replicate 6 m).length ++
          ((List.replicate 6 m).map mpubFrame).flatten ++ []) =
        .ok ((List.replicate 6 m).map (splitTrace false), []) :=
      internalMPUBAndTrace_frames defaultPubCtx rfl rfl (by decide) (by decide) (by decide)
        (by rw [List.length_replicate]; decide) (by rw [List.length_replicate]; decide)
        (by rw [List.length_replicate]; decide) hfits []
    rw [List.length_replicate, List.append_nil] at h
    exact h
  · have hframe : (List.length ∘ mpubFrame) (List.replicate 1048576 (0 : UInt8)) = 1048580 := by
      rw [Function.comp_apply, mpubFrame, List.length_append, BigEndian.length_encodeInt,
        List.length_replicate]
    rw [List.length_flatten, List.map_map, List.map_replicate, hframe]
    decide
end Nsq.Protocol
