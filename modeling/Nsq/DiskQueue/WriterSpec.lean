import Nsq.DiskQueue.Writer
import Nsq.DiskQueue.Frames

/-!
# The writer writes the frame log

`diskQueueWriter` refines `FrameLog.append`: from a state that backs a well-formed log, `PutV2`
of a payload the size checks admit answers the frame's offset and size and leaves a state that
backs the log with that payload appended (`putV2_backs`). After `Flush`, the disk holds the log's
files exactly (`flush_contents`).

What the refinement has to see through is the buffer. A writer state backs a table of files
(`Backs`) when every file but the write end's holds its bytes on disk, and the write end's file
holds a prefix of its bytes on disk with the rest held in `bufferWriter`; an open file is the
write end's, with its cursor at the end of what is on disk, and a closed one leaves nothing in the
buffer. Every step below is a lemma about one piece of `writeOne`: opening the file, one buffered
write, the flush, and the roll.
-/

namespace Nsq

namespace DiskQueueWriter

/-- The writer's disk and buffer back the table `files`. -/
structure Backs (disk : Disk) (w : DiskQueueWriter) (files : Int → List UInt8) : Prop where
  other : ∀ f, f ≠ w.diskWriteEnd.endOffset.fileNum → disk.contents f = files f
  current : disk.contents w.diskWriteEnd.endOffset.fileNum ++ w.bufferWriter =
    files w.diskWriteEnd.endOffset.fileNum
  opened : ∀ h, w.writeFile = some h →
    h.fileNum = w.diskWriteEnd.endOffset.fileNum ∧ h.cursor = (disk.contents h.fileNum).length
  closed : w.writeFile = none → w.bufferWriter = []
  present : ∀ f, files f ≠ [] → disk.dataFile f ≠ none

@[simp] theorem contents_setMeta (disk : Disk) (n : Int) (m : FileOffsetMeta) (f : Int) :
    (disk.setMeta n m).contents f = disk.contents f := rfl

/-- With nothing buffered, backing a table is holding it on disk. -/
theorem Backs.contents_eq {disk : Disk} {w : DiskQueueWriter} {files : Int → List UInt8}
    (hb : w.Backs disk files) (hbuf : w.bufferWriter = []) (f : Int) :
    disk.contents f = files f := by
  by_cases hf : f = w.diskWriteEnd.endOffset.fileNum
  · have := hb.current
    rw [hbuf, List.append_nil, ← hf] at this
    exact this
  · exact hb.other f hf

/-- Only the write end's file number matters to backing. -/
theorem Backs.withEnd {disk : Disk} {w : DiskQueueWriter} {files : Int → List UInt8}
    (hb : w.Backs disk files) (e : DiskQueueEndInfo)
    (he : e.endOffset.fileNum = w.diskWriteEnd.endOffset.fileNum) :
    ({ w with diskWriteEnd := e } : DiskQueueWriter).Backs disk files := by
  obtain ⟨hother, hcur, hopen, hclosed, hpresent⟩ := hb
  exact ⟨by simpa [he] using hother, by simpa [he] using hcur, by simpa [he] using hopen,
    hclosed, hpresent⟩

/-- `w'` keeps what `w` was created with: its start, its limits, and its exit flag. -/
def KeepsSettings (w w' : DiskQueueWriter) : Prop :=
  w'.diskQueueStart = w.diskQueueStart ∧ w'.maxBytesPerFile = w.maxBytesPerFile ∧
    w'.minMsgSize = w.minMsgSize ∧ w'.maxMsgSize = w.maxMsgSize ∧ w'.exitFlag = w.exitFlag

theorem KeepsSettings.refl (w : DiskQueueWriter) : KeepsSettings w w :=
  ⟨rfl, rfl, rfl, rfl, rfl⟩

theorem KeepsSettings.trans {w₁ w₂ w₃ : DiskQueueWriter} (h₁ : KeepsSettings w₁ w₂)
    (h₂ : KeepsSettings w₂ w₃) : KeepsSettings w₁ w₃ := by
  obtain ⟨a, b, c, d, e⟩ := h₁
  obtain ⟨a', b', c', d', e'⟩ := h₂
  exact ⟨a'.trans a, b'.trans b, c'.trans c, d'.trans d, e'.trans e⟩

/-- Opening the write file, when the write end's file is exactly as long as its position:
afterwards a file is open on it and the writer backs the same table. -/
theorem openWriteFile_spec {disk : Disk} {w : DiskQueueWriter} {files : Int → List UInt8}
    (hb : w.Backs disk files) (hpos : 0 ≤ w.diskWriteEnd.endOffset.pos)
    (hlen : ((files w.diskWriteEnd.endOffset.fileNum).length : Int) = w.diskWriteEnd.endOffset.pos) :
    ∃ disk' w' h, openWriteFile disk w = (disk', w', h) ∧ w'.writeFile = some h ∧
      w'.Backs disk' files ∧ w'.diskWriteEnd = w.diskWriteEnd ∧ KeepsSettings w w' := by
  cases hw : w.writeFile with
  | some h =>
    exact ⟨disk, w, h, by simp [openWriteFile, hw], hw, hb, rfl, .refl w⟩
  | none =>
    have hbuf := hb.closed hw
    have hcur := hb.contents_eq hbuf w.diskWriteEnd.endOffset.fileNum
    rcases w with ⟨⟨⟨F, pos⟩, v, c⟩, re, qs, mb, mn, mx, ex, ns, wf, buf⟩
    dsimp only at hw hbuf hcur hpos hlen
    subst hw hbuf
    -- opening with `O_CREATE` makes the file exist; the seek lands at the end of its bytes
    refine ⟨disk.setData F (disk.contents F), _, ⟨F, if pos > 0 then pos.toNat else 0⟩, rfl, rfl,
      ?_, rfl, ⟨rfl, rfl, rfl, rfl, rfl⟩⟩
    refine ⟨fun f hf => ?_, ?_, fun h' hh' => ?_, by simp, fun f hf => ?_⟩
    · rw [Disk.contents_setData_of_ne _ _ hf]
      exact hb.other f hf
    · show (disk.setData F (disk.contents F)).contents F ++ [] = files F
      rw [Disk.contents_setData_self, List.append_nil, hcur]
    · simp only [Option.some.injEq] at hh'
      subst hh'
      refine ⟨rfl, ?_⟩
      show (if pos > 0 then pos.toNat else 0) = ((disk.setData F (disk.contents F)).contents F).length
      rw [Disk.contents_setData_self, hcur]
      split_ifs <;> omega
    · by_cases hF : f = F
      · simp [Disk.setData, hF]
      · simp only [Disk.setData, if_neg hF]
        exact hb.present f hf

/-- One buffered write into the open file appends its bytes to the write end's file of the
backed table. -/
theorem bufferedWrite_backs {disk : Disk} {w : DiskQueueWriter} {files : Int → List UInt8}
    {h : OsFile} (hb : w.Backs disk files) (hw : w.writeFile = some h) (bytes : List UInt8) :
    ∃ disk' w' h', bufferedWrite disk w h bytes = (disk', w') ∧ w'.writeFile = some h' ∧
      w'.Backs disk' (appendFile files w.diskWriteEnd.endOffset.fileNum bytes) ∧
      w'.diskWriteEnd = w.diskWriteEnd ∧ KeepsSettings w w' := by
  obtain ⟨hfile, hcursor⟩ := hb.opened h hw
  have happ := bufioWrite_append writeBufSize w.bufferWriter bytes
  refine ⟨(osWrite disk h (bufioWrite writeBufSize w.bufferWriter bytes).1).1,
    { w with
      writeFile := some (osWrite disk h (bufioWrite writeBufSize w.bufferWriter bytes).1).2
      bufferWriter := (bufioWrite writeBufSize w.bufferWriter bytes).2 },
    (osWrite disk h (bufioWrite writeBufSize w.bufferWriter bytes).1).2, rfl, rfl,
    ⟨fun f hf => ?_, ?_, fun h' hh' => ?_, by simp, fun f hf => ?_⟩, rfl, ⟨rfl, rfl, rfl, rfl, rfl⟩⟩
  · rw [osWrite_contents_of_ne _ _ _ (by rwa [hfile]), appendFile_of_ne _ _ hf]
    exact hb.other f hf
  · rw [appendFile_self, ← hfile, osWrite_contents_self _ hcursor, List.append_assoc, happ,
      ← List.append_assoc, hfile, hb.current]
  · simp only [osWrite_file, Option.some.injEq] at hh'
    subst hh'
    refine ⟨hfile, ?_⟩
    rw [osWrite_contents_self _ hcursor, hcursor, List.length_append]
  · apply osWrite_dataFile_ne_none
    by_cases hF : f = w.diskWriteEnd.endOffset.fileNum
    · exact Or.inl (hF.trans hfile.symm)
    · rw [appendFile_of_ne _ _ hF] at hf
      exact Or.inr (hb.present f hf)

/-- The buffer's flush into an open file. -/
theorem bufferWriterFlush_of_open {disk : Disk} {w : DiskQueueWriter} {h : OsFile}
    (hw : w.writeFile = some h) :
    bufferWriterFlush disk w = ((osWrite disk h w.bufferWriter).1,
      { w with writeFile := some (osWrite disk h w.bufferWriter).2, bufferWriter := [] }) := by
  simp [bufferWriterFlush, hw]

/-- The buffer's flush empties it into the open file; the backed table does not change. -/
theorem bufferWriterFlush_backs {disk : Disk} {w : DiskQueueWriter} {files : Int → List UInt8}
    {h : OsFile} (hb : w.Backs disk files) (hw : w.writeFile = some h) :
    (bufferWriterFlush disk w).2.Backs (bufferWriterFlush disk w).1 files := by
  obtain ⟨hfile, hcursor⟩ := hb.opened h hw
  rw [bufferWriterFlush_of_open hw]
  refine ⟨fun f hf => ?_, ?_, fun h' hh' => ?_, by simp, fun f hf => ?_⟩
  · rw [osWrite_contents_of_ne _ _ _ (by rwa [hfile])]
    exact hb.other f hf
  · simp only [List.append_nil]
    rw [← hfile, osWrite_contents_self _ hcursor, hfile, hb.current]
  · simp only [osWrite_file, Option.some.injEq] at hh'
    subst hh'
    refine ⟨hfile, ?_⟩
    rw [osWrite_contents_self _ hcursor, hcursor, List.length_append]
  · exact osWrite_dataFile_ne_none _ (Or.inr (hb.present f hf))

/-- A writer with nothing buffered and no file open backs exactly what its disk holds. -/
theorem Backs.of_contents {disk : Disk} {w : DiskQueueWriter} {files : Int → List UInt8}
    (hc : ∀ f, disk.contents f = files f) (hp : ∀ f, files f ≠ [] → disk.dataFile f ≠ none)
    (hw : w.writeFile = none) (hbuf : w.bufferWriter = []) : w.Backs disk files :=
  ⟨fun f _ => hc f, by rw [hbuf, List.append_nil]; exact hc _, fun h hh => by simp [hw] at hh,
    fun _ => hbuf, hp⟩

/-- The roll of a full file, spelled out: flush, close, record the meta, move both ends. -/
theorem rollIfFull_of_full {disk : Disk} {w : DiskQueueWriter} {h : OsFile}
    (hw : w.writeFile = some h) (hfull : w.diskWriteEnd.endOffset.pos ≥ w.maxBytesPerFile) :
    rollIfFull disk w = (saveFileOffsetMeta (osWrite disk h w.bufferWriter).1 w,
      { w with
        diskWriteEnd := w.diskWriteEnd.nextFile
        diskReadEnd := w.diskWriteEnd.nextFile
        needSync := false
        writeFile := none
        bufferWriter := [] }) := by
  simp only [rollIfFull, if_pos hfull, sync, bufferWriterFlush_of_open hw]
  rfl

/-- The roll: when the write position has reached `maxBytesPerFile` the writer moves its ends to
the start of the next file and still backs the same table, since the flush put the buffer on
disk; otherwise nothing happens. -/
theorem rollIfFull_spec {disk : Disk} {w : DiskQueueWriter} {files : Int → List UInt8}
    {h : OsFile} (hb : w.Backs disk files) (hw : w.writeFile = some h) :
    ∃ disk' w', rollIfFull disk w = (disk', w') ∧ w'.Backs disk' files ∧
      w'.diskWriteEnd = (if w.diskWriteEnd.endOffset.pos ≥ w.maxBytesPerFile then
        w.diskWriteEnd.nextFile else w.diskWriteEnd) ∧ KeepsSettings w w' := by
  by_cases hfull : w.diskWriteEnd.endOffset.pos ≥ w.maxBytesPerFile
  · have hf := bufferWriterFlush_backs hb hw
    rw [bufferWriterFlush_of_open hw] at hf
    rw [rollIfFull_of_full hw hfull]
    refine ⟨_, _, rfl, Backs.of_contents (fun f => ?_) (fun f hne => ?_) rfl rfl,
      by simp [hfull], ⟨rfl, rfl, rfl, rfl, rfl⟩⟩
    · simp only [saveFileOffsetMeta, contents_setMeta]
      exact hf.contents_eq rfl f
    · simp only [saveFileOffsetMeta, Disk.setMeta_dataFile]
      exact hf.present f hne
  · exact ⟨disk, w, by simp [rollIfFull, hfull], hb, by simp [hfull], .refl w⟩

/-- `writeOne` of a payload whose length passes the size check as an `int32`, over a writer that
backs a table whose end file is as long as the end's position: the frame, with that `int32` as its
length field, goes to the end's file, and the end advances by that `int32` and the four length
bytes, rolling when the file is full. -/
theorem writeOne_spec {disk : Disk} {w : DiskQueueWriter} {files : Int → List UInt8}
    (hb : w.Backs disk files) (hpos : 0 ≤ w.diskWriteEnd.endOffset.pos)
    (hlen : ((files w.diskWriteEnd.endOffset.fileNum).length : Int) = w.diskWriteEnd.endOffset.pos)
    {data : List UInt8} (hmin : w.minMsgSize ≤ int32 data.length)
    (hmax : int32 data.length ≤ w.maxMsgSize) :
    ∃ disk' w', writeOne disk w data false 0 =
        (disk', w', .ok (w.diskWriteEnd.offset, int32 (int32 data.length + 4))) ∧
      w'.Backs disk' (appendFile files w.diskWriteEnd.endOffset.fileNum
        (BigEndian.encodeInt 4 (int32 data.length) ++ data)) ∧
      w'.diskWriteEnd =
        ⟨if w.diskWriteEnd.endOffset.pos + (int32 data.length + 4) ≥ w.maxBytesPerFile then
            ⟨w.diskWriteEnd.endOffset.fileNum + 1, 0⟩
          else ⟨w.diskWriteEnd.endOffset.fileNum,
            w.diskWriteEnd.endOffset.pos + (int32 data.length + 4)⟩,
          w.diskWriteEnd.virtualEnd + (int32 data.length + 4), w.diskWriteEnd.totalMsgCnt + 1⟩ ∧
      KeepsSettings w w' := by
  obtain ⟨disk₁, w₁, h₁, hopen, hw₁, hb₁, he₁, hk₁⟩ := openWriteFile_spec hb hpos hlen
  obtain ⟨disk₂, w₂, h₂, hwr₂, hw₂, hb₂, he₂, hk₂⟩ :=
    bufferedWrite_backs hb₁ hw₁ (BigEndian.encodeInt 4 (int32 data.length))
  obtain ⟨disk₃, w₃, h₃, hwr₃, hw₃, hb₃, he₃, hk₃⟩ := bufferedWrite_backs hb₂ hw₂ data
  -- the frame's bytes went to the end's file; the end then advances by the `int32` size
  let e' : DiskQueueEndInfo := ⟨⟨w.diskWriteEnd.endOffset.fileNum,
      w.diskWriteEnd.endOffset.pos + (int32 data.length + 4)⟩,
    w.diskWriteEnd.virtualEnd + (int32 data.length + 4), w.diskWriteEnd.totalMsgCnt + 1⟩
  have hfiles : appendFile (appendFile files w₁.diskWriteEnd.endOffset.fileNum
      (BigEndian.encodeInt 4 (int32 data.length))) w₂.diskWriteEnd.endOffset.fileNum data =
      appendFile files w.diskWriteEnd.endOffset.fileNum
        (BigEndian.encodeInt 4 (int32 data.length) ++ data) := by
    rw [he₂, he₁, appendFile_appendFile]
  have hb₃' : ({ w₃ with diskWriteEnd := e' } : DiskQueueWriter).Backs disk₃
      (appendFile files w.diskWriteEnd.endOffset.fileNum
        (BigEndian.encodeInt 4 (int32 data.length) ++ data)) := by
    rw [← hfiles]
    exact hb₃.withEnd e' (by rw [he₃, he₂, he₁])
  obtain ⟨disk₄, w₄, hroll, hb₄, he₄, hk₄⟩ := rollIfFull_spec hb₃' (by simpa using hw₃)
  have hk : KeepsSettings w ({ w₃ with diskWriteEnd := e' } : DiskQueueWriter) :=
    hk₁.trans (hk₂.trans hk₃)
  refine ⟨disk₄, w₄, ?_, hb₄, ?_, hk.trans hk₄⟩
  · have hcheck : ¬ (int32 data.length < w₁.minMsgSize ∨ int32 data.length > w₁.maxMsgSize) := by
      rw [hk₁.2.2.1, hk₁.2.2.2.1]
      omega
    -- the two buffered writes and the end's advance are the ones named above
    have hwrite : writeOne disk w data false 0 = ((rollIfFull disk₃ { w₃ with diskWriteEnd := e' }).1,
        (rollIfFull disk₃ { w₃ with diskWriteEnd := e' }).2,
        .ok (w.diskWriteEnd.offset, int32 (int32 data.length + 4))) := by
      simp only [writeOne, hopen, Bool.false_eq_true, ↓reduceIte, hwr₂, hw₂, Option.getD_some,
        hwr₃, he₃, he₂, he₁]
      rw [if_neg (by simpa using hcheck)]
    rw [hwrite, hroll]
  · have hmb : w₃.maxBytesPerFile = w.maxBytesPerFile := hk.2.1
    rw [he₄]
    dsimp only
    rw [hmb]
    by_cases hfull : w.diskWriteEnd.endOffset.pos + (int32 data.length + 4) ≥ w.maxBytesPerFile
    · simp [hfull, e', DiskQueueEndInfo.nextFile]
    · simp [hfull, e']

/-- `writeOne` of a payload the size checks admit, over a writer that backs a well-formed log
at its end: it answers the frame's offset and size, and afterwards backs the log with the
frame appended, with its end at the log's new end. -/
theorem writeOne_backs {disk : Disk} {w : DiskQueueWriter} {q : FrameLog}
    (hb : w.Backs disk q.files) (hend : w.diskWriteEnd = q.last) (hq : q.WF)
    {data : List UInt8} (hmin : w.minMsgSize ≤ data.length) (hmax : data.length ≤ w.maxMsgSize)
    (hbig : data.length < 2 ^ 31 - 4) :
    ∃ disk' w', writeOne disk w data false 0 = (disk', w', .ok (q.last.virtualEnd, data.length + 4)) ∧
      w'.Backs disk' (q.append w.maxBytesPerFile data).files ∧
      w'.diskWriteEnd = (q.append w.maxBytesPerFile data).last ∧ KeepsSettings w w' := by
  obtain ⟨hpos, hlen, -⟩ := hq
  rw [← hend] at hpos hlen
  -- below `2 ^ 31` the `int32` of the length is the length
  have hdl : int32 data.length = data.length := int32_of_lt (by omega) (by omega)
  have hsize : int32 (data.length + 4) = data.length + 4 := int32_of_lt (by omega) (by omega)
  obtain ⟨disk', w', hwr, hb', he', hk⟩ :=
    writeOne_spec hb hpos hlen (by rw [hdl]; exact hmin) (by rw [hdl]; exact hmax)
  rw [hdl, hsize] at hwr
  rw [hdl] at hb' he'
  refine ⟨disk', w', by rw [hwr, hend]; rfl, by rw [hend] at hb'; exact hb', ?_, hk⟩
  rw [he', hend, FrameLog.append_last]
  rfl

/-- `PutV2` of a payload the size checks admit: `writeOne`'s frame, with a sync now owed. -/
theorem putV2_backs {disk : Disk} {w : DiskQueueWriter} {q : FrameLog}
    (hb : w.Backs disk q.files) (hend : w.diskWriteEnd = q.last) (hq : q.WF)
    (hex : w.exitFlag = false) {data : List UInt8} (hmin : w.minMsgSize ≤ data.length)
    (hmax : data.length ≤ w.maxMsgSize) (hbig : data.length < 2 ^ 31 - 4) :
    ∃ disk' w', putV2 disk w data = (disk', w',
        .ok (q.last.virtualEnd, data.length + 4, (q.append w.maxBytesPerFile data).last)) ∧
      w'.Backs disk' (q.append w.maxBytesPerFile data).files ∧
      w'.diskWriteEnd = (q.append w.maxBytesPerFile data).last ∧ w'.needSync = true ∧
      KeepsSettings w w' := by
  obtain ⟨disk', w', hwr, hb', he', hk⟩ := writeOne_backs hb hend hq hmin hmax hbig
  refine ⟨disk', { w' with needSync := true }, ?_,
    ⟨hb'.other, hb'.current, hb'.opened, hb'.closed, hb'.present⟩, he', rfl, hk⟩
  simp [putV2, hex, hwr, he', Except.map]

/-- A producer's loop: `PutV2` each payload in turn. -/
def putV2All (disk : Disk) (d : DiskQueueWriter) : List (List UInt8) → Disk × DiskQueueWriter
  | [] => (disk, d)
  | data :: ds =>
    let (disk', d', _) := putV2 disk d data
    putV2All disk' d' ds

/-- A writer that owes no sync has published its write end and buffers nothing. -/
def Clean (w : DiskQueueWriter) : Prop :=
  w.needSync = false → w.diskReadEnd = w.diskWriteEnd ∧ w.bufferWriter = []

/-- The producer's loop over payloads the size checks admit backs the log with them appended,
and leaves its settings alone. The induction is on the payloads, each step `putV2_backs`. -/
theorem putV2All_backs (m : Int) :
    ∀ {disk : Disk} {w : DiskQueueWriter} {q : FrameLog} (ds : List (List UInt8)),
      w.Backs disk q.files → w.diskWriteEnd = q.last → q.WF → w.exitFlag = false →
      w.maxBytesPerFile = m → w.Clean →
      (∀ d ∈ ds, w.minMsgSize ≤ d.length ∧ d.length ≤ w.maxMsgSize ∧ d.length < 2 ^ 31 - 4) →
      (putV2All disk w ds).2.Backs (putV2All disk w ds).1 (q.appendAll m ds).files ∧
        (putV2All disk w ds).2.diskWriteEnd = (q.appendAll m ds).last ∧
        (putV2All disk w ds).2.Clean ∧ KeepsSettings w (putV2All disk w ds).2
  | disk, w, q, [], hb, hend, _, _, _, hc, _ => ⟨hb, hend, hc, .refl w⟩
  | disk, w, q, data :: ds, hb, hend, hq, hex, hm, _, hsizes => by
    obtain ⟨hmin, hmax, hbig⟩ := hsizes data (List.mem_cons_self ..)
    obtain ⟨disk', w', hput, hb', he', hns, hk⟩ := putV2_backs hb hend hq hex hmin hmax hbig
    have hrest := putV2All_backs m ds hb' he' (FrameLog.wf_append _ hq data)
      (hk.2.2.2.2.trans hex) (hk.2.1.trans hm) (fun h => absurd (hns.symm.trans h) (by simp))
      (fun d hd => by
        obtain ⟨h₁, h₂, h₃⟩ := hsizes d (List.mem_cons_of_mem _ hd)
        exact ⟨hk.2.2.1 ▸ h₁, hk.2.2.2.1 ▸ h₂, h₃⟩)
    simp only [putV2All, hput]
    rw [hm] at hrest
    exact ⟨hrest.1, hrest.2.1, hrest.2.2.1, hk.trans hrest.2.2.2⟩

/-- `sync` of a writer that backs `files` puts them all on disk and publishes the write end. -/
theorem sync_spec {disk : Disk} {w : DiskQueueWriter} {files : Int → List UInt8}
    (hb : w.Backs disk files) :
    (∀ f, (sync disk w).1.contents f = files f) ∧
      (∀ f, files f ≠ [] → (sync disk w).1.dataFile f ≠ none) ∧
      (sync disk w).2.diskReadEnd = w.diskWriteEnd := by
  cases hw : w.writeFile with
  | none =>
    simp only [sync, bufferWriterFlush, hw]
    exact ⟨hb.contents_eq (hb.closed hw), hb.present, trivial⟩
  | some h =>
    have hf := bufferWriterFlush_backs hb hw
    rw [bufferWriterFlush_of_open hw] at hf
    simp only [sync, bufferWriterFlush_of_open hw]
    exact ⟨hf.contents_eq rfl, hf.present, trivial⟩

/-- `Flush` of a writer that backs `files`: everything is on disk and the read end is published. -/
theorem flush_backs {disk : Disk} {w : DiskQueueWriter} {files : Int → List UInt8}
    (hb : w.Backs disk files) (hex : w.exitFlag = false) (hc : w.Clean) :
    ∃ disk' w', flush disk w = (disk', w', .ok ()) ∧ (∀ f, disk'.contents f = files f) ∧
      (∀ f, files f ≠ [] → disk'.dataFile f ≠ none) ∧ w'.diskReadEnd = w.diskWriteEnd := by
  cases hns : w.needSync
  · obtain ⟨hre, hbuf⟩ := hc hns
    exact ⟨disk, w, by simp [flush, hex, hns], hb.contents_eq hbuf, hb.present, hre⟩
  · exact ⟨(sync disk w).1, (sync disk w).2, by simp [flush, hex, hns], sync_spec hb⟩

/-- The writer side of a producer run: from an empty directory, `PutV2` of each payload the size
checks admit and a `Flush` leave on disk exactly the files of the frame log of the payloads, and
publish its end as the read end. -/
theorem putV2All_flush (maxBytesPerFile minMsgSize maxMsgSize : Int) (ds : List (List UInt8))
    (hsizes : ∀ d ∈ ds, minMsgSize ≤ d.length ∧ d.length ≤ maxMsgSize ∧ d.length < 2 ^ 31 - 4) :
    let run := putV2All Disk.empty (newDiskQueueWriter maxBytesPerFile minMsgSize maxMsgSize) ds
    let log := FrameLog.empty.appendAll maxBytesPerFile ds
    ∃ disk w, flush run.1 run.2 = (disk, w, .ok ()) ∧ (∀ f, disk.contents f = log.files f) ∧
      (∀ f, log.files f ≠ [] → disk.dataFile f ≠ none) ∧ w.getQueueReadEnd = log.last := by
  intro run log
  have hb₀ : (newDiskQueueWriter maxBytesPerFile minMsgSize maxMsgSize).Backs Disk.empty
      FrameLog.empty.files :=
    Backs.of_contents (fun _ => rfl) (fun _ h => absurd rfl h) rfl rfl
  obtain ⟨hb, hend, hc, hk⟩ := putV2All_backs maxBytesPerFile ds hb₀ rfl FrameLog.wf_empty
    rfl rfl (fun _ => ⟨rfl, rfl⟩) hsizes
  obtain ⟨disk, w, hflush, hcont, hpres, hre⟩ := flush_backs hb hk.2.2.2.2 hc
  exact ⟨disk, w, hflush, hcont, hpres, hre.trans hend⟩

end DiskQueueWriter

end Nsq
