import Mathlib.Data.List.Infix
import Nsq.DiskQueue.Reader
import Nsq.DiskQueue.Frames

/-!
# Reading a frame log

What `TryReadOne` answers over a disk that holds a frame log. The reader is followed through its
own code: `ensureReadBuffer` only ever extends the buffer with the file's next bytes
(`ensureReadBuffer_ok`), `readFrame` parses the frame at the read position and steps past it
(`readFrame_frame`), and `CheckFileOpen` leaves a read position that still has bytes in front of
it alone (`checkFileOpen_at`).

The invariant is `BufferAt`: no file open and nothing buffered, or the read position's file open
with the buffer holding the bytes that follow the read position and the cursor just past them.
How the read-ahead splits the bytes is invisible through it, which is why no lemma here names a
buffer size beyond `ensureReadBuffer`'s own.

`tryReadOneN_spells` is the run: over a log that spells `ds` from the read position, `n + 1`
calls answer the messages of `ds` with their offsets, sizes and counts, and then no data. The
turn from the reader's view of a file (its size, or the queue end inside the last file) to the
writer's (`maxBytesPerFile`) is `FrameLog.Spells`'s three clauses, used in `readFrame_spells`.
-/

namespace Nsq

namespace DiskQueueReader

/-- The buffer agrees with the file at `p`: no file open and nothing buffered, or `p`'s file open,
the buffer holding the bytes that follow `p` and the cursor just past them. -/
def BufferAt (disk : Disk) (p : DiskQueueOffset) (d : DiskQueueReader) : Prop :=
  (d.readFile = none ∧ d.readBuffer = []) ∨
    ∃ h, d.readFile = some h ∧ h.fileNum = p.fileNum ∧ h.cursor = p.pos.toNat + d.readBuffer.length ∧
      d.readBuffer <+: (disk.contents p.fileNum).drop p.pos.toNat

/-- A closed file with an empty buffer agrees with every position. -/
theorem bufferAt_closed {disk : Disk} {p : DiskQueueOffset} {d : DiskQueueReader}
    (hf : d.readFile = none) (hb : d.readBuffer = []) : BufferAt disk p d :=
  Or.inl ⟨hf, hb⟩

/-- Extending a buffered prefix of `l.drop p` by bytes read from just past it keeps a prefix. -/
theorem prefix_append_take_drop {b l : List UInt8} {p : Nat} (hb : b <+: l.drop p) (n : Nat) :
    b ++ (l.drop (p + b.length)).take n <+: l.drop p := by
  obtain ⟨t, ht⟩ := hb
  have hrest : l.drop (p + b.length) = t := by
    rw [← List.drop_drop, ← ht, List.drop_left]
  rw [hrest, ← ht]
  exact List.prefix_append_right_inj b |>.mpr (List.take_prefix n t)

/-- Two prefixes of one list agree on the length of the shorter. -/
theorem take_eq_of_prefix {a b l : List UInt8} (ha : a <+: l) (hb : b <+: l)
    (hlen : a.length ≤ b.length) : b.take a.length = a := by
  obtain ⟨ta, rfl⟩ := ha
  obtain ⟨tb, htb⟩ := hb
  have := congrArg (List.take a.length) htb
  rwa [List.take_append_of_le_length hlen, List.take_left] at this

section EnsureReadBuffer

variable {disk : Disk}

/-- `ensureReadBuffer` over a buffer that holds the bytes after `p`, asked for `need` bytes that
the readable range holds: it succeeds, and the buffer then holds at least `need` bytes after `p`,
with the cursor still just past them. -/
theorem ensureReadBuffer_ok (d : DiskQueueReader) (h : OsFile) (need p cfe : Int) (hp : 0 ≤ p)
    (hbuf : d.readBuffer <+: (disk.contents h.fileNum).drop p.toNat)
    (hcur : h.cursor = p.toNat + d.readBuffer.length) (hneed : need ≤ cfe - p)
    (hcfe : cfe ≤ (disk.contents h.fileNum).length) :
    ∃ buf h', ensureReadBuffer disk d h need p cfe = .ok ({ d with readBuffer := buf }, h') ∧
      h'.fileNum = h.fileNum ∧ buf <+: (disk.contents h.fileNum).drop p.toNat ∧
      need ≤ buf.length ∧ h'.cursor = p.toNat + buf.length := by
  by_cases hshort : (d.readBuffer.length : Int) < need
  · -- the copy reads `n` bytes from the cursor, and the file holds them
    let n := (min (max need readBufferSize) (cfe - p) - d.readBuffer.length).toNat
    have hlen := hbuf.length_le
    rw [List.length_drop] at hlen
    have havail : n ≤ ((disk.contents h.fileNum).drop h.cursor).length := by
      rw [List.length_drop]
      omega
    refine ⟨d.readBuffer ++ ((disk.contents h.fileNum).drop h.cursor).take n,
      { h with cursor := h.cursor + n }, ?_, rfl, ?_, ?_, ?_⟩
    · simp only [ensureReadBuffer, hshort, if_true, show ¬ cfe - p < need by omega, if_false]
      rw [if_neg (by omega)]
    · rw [hcur]
      exact prefix_append_take_drop hbuf n
    · rw [List.length_append, List.length_take, min_eq_left havail]
      simp only [readBufferSize, n] at *
      omega
    · show h.cursor + n = _
      rw [List.length_append, List.length_take, min_eq_left havail, hcur]
      omega
  · refine ⟨d.readBuffer, h, ?_, rfl, hbuf, by omega, hcur⟩
    simp only [ensureReadBuffer, hshort, if_false]

end EnsureReadBuffer

/-- Where `readOne` stops reading in the read position's file: the queue end's position in the
queue end's file, the file's size in a file before it. -/
def readLimit (disk : Disk) (d : DiskQueueReader) : Int :=
  if d.readQueueInfo.endOffset.fileNum = d.queueEndInfo.endOffset.fileNum then
    d.queueEndInfo.endOffset.pos
  else (disk.contents d.readQueueInfo.endOffset.fileNum).length

/-- The frame's header and payload are the first bytes after its position. -/
theorem frame_prefix_split {data l : List UInt8} (hf : frame data <+: l) :
    BigEndian.encodeInt 4 data.length <+: l ∧ data <+: l.drop 4 := by
  refine ⟨(List.prefix_append _ _).trans hf, ?_⟩
  have := List.IsPrefix.drop hf 4
  rwa [frame, List.drop_left' (BigEndian.length_encodeInt 4 _)] at this

/-- What `readOne` answers for the frame of `data` at `d`'s read position. -/
def frameResult (d : DiskQueueReader) (data : List UInt8) : ReadResult :=
  ⟨d.readQueueInfo.offset, 4 + data.length, d.readQueueInfo.totalMsgCnt + 1, data, none⟩

/-- What reading the frame of `data` at `d`'s read position leaves in `d'`: the queue end and the
skip mode kept; the read position past the frame, on in the next file when the frame ends a file
before the queue end's file, with its count taken from the queue end when the virtual offsets
meet; and the buffer agreeing with the file there. -/
structure SteppedPast (disk : Disk) (d : DiskQueueReader) (data : List UInt8)
    (d' : DiskQueueReader) : Prop where
  queueEnd : d'.queueEndInfo = d.queueEndInfo
  autoSkip : d'.autoSkipError = d.autoSkipError
  endOffset : d'.readQueueInfo.endOffset =
    if d.readQueueInfo.endOffset.fileNum < d.queueEndInfo.endOffset.fileNum ∧
        d.readQueueInfo.endOffset.pos + (4 + data.length) ≥ readLimit disk d then
      ⟨d.readQueueInfo.endOffset.fileNum + 1, 0⟩
    else ⟨d.readQueueInfo.endOffset.fileNum, d.readQueueInfo.endOffset.pos + (4 + data.length)⟩
  virtualEnd : d'.readQueueInfo.virtualEnd = d.readQueueInfo.virtualEnd + (4 + data.length)
  totalMsgCnt : d'.readQueueInfo.totalMsgCnt =
    if d.readQueueInfo.virtualEnd + (4 + data.length) = d.queueEndInfo.virtualEnd then
      d.queueEndInfo.totalMsgCnt
    else d.readQueueInfo.totalMsgCnt + 1
  buffer : BufferAt disk d'.readQueueInfo.endOffset d'

section ReadFrame

variable {disk : Disk} {d : DiskQueueReader} {h : OsFile} {data : List UInt8}

/-- `readFrame` at a frame the readable range holds, with the buffer agreeing with the file: it
answers the frame's payload, its offset, size and count, and steps past it. -/
theorem readFrame_frame (hp : 0 ≤ d.readQueueInfo.endOffset.pos)
    (hfile : h.fileNum = d.readQueueInfo.endOffset.fileNum)
    (hcur : h.cursor = d.readQueueInfo.endOffset.pos.toNat + d.readBuffer.length)
    (hbuf : d.readBuffer <+:
      (disk.contents d.readQueueInfo.endOffset.fileNum).drop d.readQueueInfo.endOffset.pos.toNat)
    (hframe : frame data <+:
      (disk.contents d.readQueueInfo.endOffset.fileNum).drop d.readQueueInfo.endOffset.pos.toNat)
    (hsize : 0 < data.length) (hmax : (data.length : Int) ≤ maxPossibleMsgSize)
    (hle : d.readQueueInfo.endOffset.fileNum ≤ d.queueEndInfo.endOffset.fileNum)
    (hfit : d.readQueueInfo.endOffset.pos + (4 + data.length) ≤ readLimit disk d)
    (hlim : readLimit disk d ≤ (disk.contents d.readQueueInfo.endOffset.fileNum).length) :
    ∃ d', readFrame disk d h = (d', frameResult d data) ∧ SteppedPast disk d data d' := by
  obtain ⟨hF, hc⟩ := h
  dsimp only at hfile hcur
  subst hfile
  have hcfe : (if d.readQueueInfo.endOffset.fileNum = d.queueEndInfo.endOffset.fileNum then
      some d.queueEndInfo.endOffset.pos
    else if d.readQueueInfo.endOffset.fileNum < d.queueEndInfo.endOffset.fileNum then
      some ((disk.contents d.readQueueInfo.endOffset.fileNum).length : Int)
    else none) = some (readLimit disk d) := by
    unfold readLimit
    split_ifs <;> first | rfl | omega
  obtain ⟨buf₁, h₁, hens₁, hf₁, hpre₁, hlen₁, hcur₁⟩ := ensureReadBuffer_ok d ⟨_, hc⟩ 4
    _ (readLimit disk d) hp hbuf hcur (by omega) hlim
  dsimp only at hf₁ hpre₁
  obtain ⟨hhead, hdata⟩ := frame_prefix_split hframe
  have hp4 : (d.readQueueInfo.endOffset.pos + 4).toNat = d.readQueueInfo.endOffset.pos.toNat + 4 := by
    omega
  obtain ⟨buf₃, h₃, hens₃, hf₃, hpre₃, hlen₃, hcur₃⟩ :=
    ensureReadBuffer_ok { d with readBuffer := buf₁.drop 4 } h₁ data.length
      (d.readQueueInfo.endOffset.pos + 4) (readLimit disk d) (by omega)
      (by rw [hf₁, hp4, ← List.drop_drop]; exact List.IsPrefix.drop hpre₁ 4)
      (by simp only [List.length_drop]; omega) (by omega) (by rw [hf₁]; exact hlim)
  -- the payload is the next bytes after the header
  have hpay : buf₃.take data.length = data := by
    have hd : data <+: (disk.contents d.readQueueInfo.endOffset.fileNum).drop
        (d.readQueueInfo.endOffset.pos + 4).toNat := by
      rw [hp4, ← List.drop_drop]
      exact hdata
    rw [hf₁] at hpre₃
    exact take_eq_of_prefix hd hpre₃ (by omega)
  have hrd : ¬ buf₁.length < 4 := by omega
  have hsz : ¬ ((data.length : Int) ≤ 0 ∨ (data.length : Int) > maxPossibleMsgSize) := by omega
  have hlen₃' : ¬ (buf₃.length : Int) < data.length := by omega
  -- the header is the first four bytes of the buffer, and it carries the payload's length
  have htake : buf₁.take 4 = BigEndian.encodeInt 4 data.length := by
    simpa using take_eq_of_prefix hhead hpre₁ (by simpa using hlen₁)
  have hmsg : BigEndian.decodeInt 4 (buf₁.take 4) = data.length := by
    rw [htake]
    apply BigEndian.decodeInt_encodeInt <;> simp only [maxPossibleMsgSize] at hmax <;> omega
  dsimp only at hens₃
  simp only [readFrame, hcfe, hens₁, hmsg, hens₃, hrd, hsz, hlen₃', if_false, Int.toNat_natCast,
    hpay]
  clear hmsg htake
  by_cases hend : d.readQueueInfo.endOffset.fileNum < d.queueEndInfo.endOffset.fileNum ∧
      d.readQueueInfo.endOffset.pos + (4 + data.length) ≥ readLimit disk d
  · -- the frame ends a file before the queue end's: the file is closed, the buffer dropped
    rw [if_pos hend]
    exact ⟨_, rfl, rfl, rfl, by simp [hend, DiskQueueEndInfo.nextFile], rfl, rfl,
      bufferAt_closed rfl rfl⟩
  · rw [if_neg hend]
    refine ⟨_, rfl, rfl, rfl, by simp [hend], rfl, rfl, Or.inr ⟨h₃, rfl, ?_, ?_, ?_⟩⟩
    · rw [hf₃, hf₁]
    · simp only [List.length_drop] at hcur₃ ⊢
      omega
    · rw [hf₁] at hpre₃
      have := List.IsPrefix.drop hpre₃ data.length
      rwa [List.drop_drop, hp4, show d.readQueueInfo.endOffset.pos.toNat + 4 + data.length =
        (d.readQueueInfo.endOffset.pos + (4 + data.length)).toNat by omega] at this

/-- `CheckFileOpen` at a read position with bytes in front of it in an existing file: it opens
that file if none is open, and moves nowhere. -/
theorem checkFileOpen_at (hbuf : BufferAt disk d.readQueueInfo.endOffset d)
    (hp : 0 ≤ d.readQueueInfo.endOffset.pos)
    (hin : d.readQueueInfo.endOffset.pos < (disk.contents d.readQueueInfo.endOffset.fileNum).length)
    (hex : disk.dataFile d.readQueueInfo.endOffset.fileNum ≠ none) :
    ∃ h, checkFileOpen disk d = ({ d with readFile := some h }, .ok h) ∧
      h.fileNum = d.readQueueInfo.endOffset.fileNum ∧
      h.cursor = d.readQueueInfo.endOffset.pos.toNat + d.readBuffer.length ∧
      d.readBuffer <+:
        (disk.contents d.readQueueInfo.endOffset.fileNum).drop d.readQueueInfo.endOffset.pos.toNat := by
  rcases hbuf with ⟨hf, hb⟩ | ⟨h, hf, hfile, hcur, hpre⟩
  · -- nothing open: the open seeks to the read position
    obtain ⟨x, hx⟩ := Option.ne_none_iff_exists'.mp hex
    have hseek : (if d.readQueueInfo.endOffset.pos > 0 then d.readQueueInfo.endOffset.pos.toNat
        else 0) = d.readQueueInfo.endOffset.pos.toNat := by
      split_ifs <;> omega
    refine ⟨⟨d.readQueueInfo.endOffset.fileNum, d.readQueueInfo.endOffset.pos.toNat⟩, ?_, rfl,
      by simp [hb], by simp [hb]⟩
    rw [checkFileOpen]
    simp only [openReadFile, hf, hx, Option.map_some, hseek]
    rw [if_neg (by omega)]
  · refine ⟨h, ?_, hfile, hcur, hpre⟩
    rw [checkFileOpen]
    simp only [openReadFile, hf]
    rw [if_neg (by rw [hfile]; omega)]

/-- `readOne` at a frame the readable range holds, over an agreeing buffer and a count the
offset does not contradict: `readFrame` after a `CheckFileOpen` that moved nowhere. -/
theorem readOne_frame (hbuf : BufferAt disk d.readQueueInfo.endOffset d)
    (hcnt : ¬ (d.readQueueInfo.totalMsgCnt ≤ 0 ∧ d.readQueueInfo.offset > 0))
    (hp : 0 ≤ d.readQueueInfo.endOffset.pos)
    (hex : disk.dataFile d.readQueueInfo.endOffset.fileNum ≠ none)
    (hframe : frame data <+:
      (disk.contents d.readQueueInfo.endOffset.fileNum).drop d.readQueueInfo.endOffset.pos.toNat)
    (hsize : 0 < data.length) (hmax : (data.length : Int) ≤ maxPossibleMsgSize)
    (hle : d.readQueueInfo.endOffset.fileNum ≤ d.queueEndInfo.endOffset.fileNum)
    (hfit : d.readQueueInfo.endOffset.pos + (4 + data.length) ≤ readLimit disk d)
    (hlim : readLimit disk d ≤ (disk.contents d.readQueueInfo.endOffset.fileNum).length) :
    ∃ d', readOne disk d = (d', frameResult d data) ∧ SteppedPast disk d data d' := by
  obtain ⟨h, hopen, hfile, hcur, hpre⟩ := checkFileOpen_at hbuf hp (by omega) hex
  obtain ⟨d', hread, hs⟩ := @readFrame_frame disk { d with readFile := some h } h data hp hfile hcur hpre
    hframe hsize hmax hle hfit hlim
  refine ⟨d', ?_, ⟨hs.1, hs.2, hs.3, hs.4, hs.5, hs.6⟩⟩
  simp only [readOne, hcnt, if_false, hopen, hread]
  rfl

end ReadFrame

/-! ## Reading a log -/

/-- A consumer's loop: `TryReadOne` `n` times, each call with `fuel` turns of its retry loop;
`none` when a call did not return within its fuel. -/
def tryReadOneN (fuel : Nat) (disk : Disk) :
    Nat → DiskQueueReader → Option (List (ReadResult × Bool))
  | 0, _ => some []
  | n + 1, d =>
    match tryReadOne fuel disk d with
    | none => none
    | some (d', r, more) => (tryReadOneN fuel disk n d').map ((r, more) :: ·)

/-- What reading the messages `ds` should answer, starting at virtual offset `offset` after `cnt`
messages: each message with its offset, its frame size and the count after it, then no data. -/
def frameReads (offset cnt : Int) : List (List UInt8) → List (ReadResult × Bool)
  | [] => [(.empty, false)]
  | data :: ds =>
    (⟨offset, 4 + data.length, cnt + 1, data, none⟩, true) ::
      frameReads (offset + (4 + data.length)) (cnt + 1) ds

/-- The reader over the log `q`: its queue end is the log's, its buffer agrees with the file at
its read position, and its count is not one `readOne` rejects as missing. -/
structure ReaderAt (disk : Disk) (q : FrameLog) (d : DiskQueueReader) : Prop where
  queueEnd : d.queueEndInfo = q.last
  buffer : BufferAt disk d.readQueueInfo.endOffset d
  cnt_nonneg : 0 ≤ d.readQueueInfo.totalMsgCnt
  cnt_offset : d.readQueueInfo.totalMsgCnt ≤ 0 → d.readQueueInfo.offset ≤ 0

section SpellsRun

variable {m : Int} {disk : Disk} {q : FrameLog}
  (hdisk : ∀ f, disk.contents f = q.files f)
  (hpres : ∀ f, q.files f ≠ [] → disk.dataFile f ≠ none)
  (hq : q.WF)

include hdisk hq in
/-- Where the log spells a frame, the reader's view of its file agrees with the writer's: the
frame fits below `readLimit`, which the file holds, and it ends the file exactly when the writer
rolled after it. -/
theorem readLimit_spells {d : DiskQueueReader} {data : List UInt8} {ds : List (List UInt8)}
    (hend : d.queueEndInfo = q.last) (hs : q.Spells m d.readQueueInfo (data :: ds)) :
    d.readQueueInfo.endOffset.pos + (4 + data.length) ≤ readLimit disk d ∧
      readLimit disk d ≤ (disk.contents d.readQueueInfo.endOffset.fileNum).length ∧
      ((d.readQueueInfo.endOffset.fileNum < d.queueEndInfo.endOffset.fileNum ∧
          d.readQueueInfo.endOffset.pos + (4 + data.length) ≥ readLimit disk d) ↔
        d.readQueueInfo.endOffset.pos + (data.length + 4) ≥ m) := by
  have hle₀ := FrameLog.spells_le m hs
  obtain ⟨_, _, hroll, hnoroll, htail⟩ := hs
  have hle := FrameLog.spells_le m htail
  obtain ⟨_, hlen, _⟩ := hq
  unfold readLimit
  rw [hend, hdisk]
  by_cases hF : d.readQueueInfo.endOffset.fileNum = q.last.endOffset.fileNum
  · -- in the end's file nothing rolls, and the queue end bounds the frame
    have hnr : ¬ d.readQueueInfo.endOffset.pos + (data.length + 4) ≥ m := fun h =>
      absurd (hroll h).1 (by omega)
    rw [FrameLog.afterFrame_of_not_roll m hnr] at hle
    simp only [hF, if_true, hlen, lt_self_iff_false, false_and, false_iff]
    unfold DiskQueueOffset.Le at hle
    dsimp only at hle
    omega
  · have hlt : d.readQueueInfo.endOffset.fileNum < q.last.endOffset.fileNum := by
      rcases hle₀ with h | h
      · exact h
      · exact absurd h.1 hF
    simp only [if_neg hF, hlt, true_and]
    by_cases hr : d.readQueueInfo.endOffset.pos + (data.length + 4) ≥ m
    · have := (hroll hr).2
      omega
    · have := hnoroll (by omega) hlt
      omega

include hdisk hpres hq in
/-- The step: `readOne` over a log that spells `data` next answers its frame and moves the reader
to where the writer's end moved after it, keeping the invariant. -/
theorem readOne_spells {d : DiskQueueReader} {data : List UInt8} {ds : List (List UInt8)}
    (hr : ReaderAt disk q d) (hs : q.Spells m d.readQueueInfo (data :: ds))
    (hsize : 0 < data.length) (hmax : (data.length : Int) ≤ maxPossibleMsgSize) :
    ∃ d', readOne disk d = (d', frameResult d data) ∧
      d'.readQueueInfo = d.readQueueInfo.afterFrame m data ∧ ReaderAt disk q d' ∧
      d'.autoSkipError = d.autoSkipError := by
  obtain ⟨hfit, hlim, hisEnd⟩ := readLimit_spells hdisk hq hr.queueEnd hs
  have hle := FrameLog.spells_le m hs
  obtain ⟨hp, hframe, -, -, htail⟩ := hs
  rw [← hdisk] at hframe
  have hexists : disk.dataFile d.readQueueInfo.endOffset.fileNum ≠ none := by
    apply hpres
    rw [← hdisk]
    intro hnil
    rw [hnil, List.drop_nil] at hframe
    simpa using hframe.length_le
  have hcnt : ¬ (d.readQueueInfo.totalMsgCnt ≤ 0 ∧ d.readQueueInfo.offset > 0) := fun h =>
    absurd (hr.cnt_offset h.1) (by omega)
  have hleF : d.readQueueInfo.endOffset.fileNum ≤ d.queueEndInfo.endOffset.fileNum := by
    rw [hr.queueEnd]
    unfold DiskQueueOffset.Le at hle
    omega
  obtain ⟨d', hread, hstep⟩ := readOne_frame hr.buffer hcnt hp hexists hframe hsize hmax hleF hfit hlim
  -- the count fix-up is a no-op: the virtual offsets meet only after the last frame
  have hcount : (if d.readQueueInfo.virtualEnd + (4 + data.length) = d.queueEndInfo.virtualEnd then
      d.queueEndInfo.totalMsgCnt else d.readQueueInfo.totalMsgCnt + 1) =
      d.readQueueInfo.totalMsgCnt + 1 := by
    have hv := FrameLog.le_spells_virtualEnd m htail
    have hc := FrameLog.spells_totalMsgCnt m htail
    simp only [FrameLog.afterFrame_virtualEnd, FrameLog.afterFrame_totalMsgCnt] at hv hc
    rw [hr.queueEnd]
    split_ifs <;> omega
  have hpos : d'.readQueueInfo = d.readQueueInfo.afterFrame m data := by
    refine DiskQueueEndInfo.ext ?_ ?_ ?_
    · rw [hstep.endOffset]
      by_cases hroll : d.readQueueInfo.endOffset.pos + (data.length + 4) ≥ m
      · rw [if_pos (hisEnd.mpr hroll), FrameLog.afterFrame_of_roll m hroll]
      · rw [if_neg (mt hisEnd.mp hroll), FrameLog.afterFrame_of_not_roll m hroll]
        congr 1
        omega
    · rw [hstep.virtualEnd, FrameLog.afterFrame_virtualEnd]
      omega
    · rw [hstep.totalMsgCnt, hcount, FrameLog.afterFrame_totalMsgCnt]
  have hnn := hr.cnt_nonneg
  refine ⟨d', hread, hpos, ⟨hstep.queueEnd.trans hr.queueEnd, hstep.buffer, ?_, ?_⟩, hstep.autoSkip⟩
  · rw [hpos, FrameLog.afterFrame_totalMsgCnt]
    omega
  · rw [hpos, FrameLog.afterFrame_totalMsgCnt]
    intro h
    omega

include hdisk hpres hq in
/-- `TryReadOne` where the log spells `data` next: the queue end lies ahead, and the frame is
answered as data. -/
theorem tryReadOne_spells_cons {d : DiskQueueReader} {data : List UInt8}
    {ds : List (List UInt8)} (hr : ReaderAt disk q d) (hs : q.Spells m d.readQueueInfo (data :: ds))
    (hsize : 0 < data.length) (hmax : (data.length : Int) ≤ maxPossibleMsgSize) (fuel : Nat) :
    ∃ d', tryReadOne (fuel + 1) disk d = some (d', frameResult d data, true) ∧
      d'.readQueueInfo = d.readQueueInfo.afterFrame m data ∧ ReaderAt disk q d' := by
  obtain ⟨d', hread, hpos, hr', -⟩ := readOne_spells hdisk hpres hq hr hs hsize hmax
  -- the frame lies between the read position and the queue end, so the end is strictly ahead
  have hahead : d.queueEndInfo.endOffset.greatThan d.readQueueInfo.endOffset = true := by
    rw [DiskQueueOffset.greatThan_eq_true_iff, hr.queueEnd]
    obtain ⟨-, -, hroll, -, htail⟩ := hs
    have hle := FrameLog.spells_le m htail
    unfold DiskQueueOffset.Le at hle ⊢
    by_cases hr : d.readQueueInfo.endOffset.pos + (data.length + 4) ≥ m
    · have := (hroll hr).1
      omega
    · rw [FrameLog.afterFrame_of_not_roll m hr] at hle
      dsimp only at hle
      omega
  refine ⟨d', ?_, hpos, hr'⟩
  simp only [tryReadOne, hahead, if_true, hread, frameResult]

/-- `TryReadOne` at the queue end: no data. -/
theorem tryReadOne_spells_nil {d : DiskQueueReader} (hr : ReaderAt disk q d)
    (hs : q.Spells m d.readQueueInfo []) (fuel : Nat) :
    tryReadOne (fuel + 1) disk d = some (d, .empty, false) := by
  have hend : d.queueEndInfo.endOffset.greatThan d.readQueueInfo.endOffset = false := by
    rw [DiskQueueOffset.greatThan_eq_false_iff, hr.queueEnd, (FrameLog.spells_nil m q _).mp hs]
    exact DiskQueueOffset.le_refl _
  simp only [tryReadOne, hend, Bool.false_eq_true, if_false]

include hdisk hpres hq in
/-- The run: over a log that spells `ds` from the read position, `ds.length + 1` calls of
`TryReadOne` answer each message of `ds` with its offset, frame size and count, and then no data.
The induction is on `ds`, each step `tryReadOne_spells_cons`. -/
theorem tryReadOneN_spells (fuel : Nat) :
    ∀ (ds : List (List UInt8)) {d : DiskQueueReader}, ReaderAt disk q d →
      q.Spells m d.readQueueInfo ds →
      (∀ data ∈ ds, 0 < data.length ∧ (data.length : Int) ≤ maxPossibleMsgSize) →
      tryReadOneN (fuel + 1) disk (ds.length + 1) d =
        some (frameReads d.readQueueInfo.virtualEnd d.readQueueInfo.totalMsgCnt ds)
  | [], d, hr, hs, _ => by
    simp [tryReadOneN, tryReadOne_spells_nil hr hs, frameReads]
  | data :: ds, d, hr, hs, hsizes => by
    obtain ⟨hsize, hmax⟩ := hsizes data (List.mem_cons_self ..)
    obtain ⟨d', hone, hpos, hr'⟩ := tryReadOne_spells_cons hdisk hpres hq hr hs hsize hmax fuel
    have htail : q.Spells m d'.readQueueInfo ds := by
      rw [hpos]
      exact hs.2.2.2.2
    have hrest := tryReadOneN_spells fuel ds hr' htail
      (fun x hx => hsizes x (List.mem_cons_of_mem _ hx))
    rw [hpos, FrameLog.afterFrame_virtualEnd, FrameLog.afterFrame_totalMsgCnt] at hrest
    simp only [List.length_cons, tryReadOneN, hone, hrest, Option.map_some, frameResult, frameReads,
      DiskQueueEndInfo.offset, Int.add_comm (data.length : Int) 4]

end SpellsRun

end DiskQueueReader

end Nsq
