import Nsq.DiskQueue.WriterSpec
import Nsq.DiskQueue.Positions

/-!
# Resetting the write end

`ResetWriteEndV2` takes the writer back to an earlier virtual offset: it syncs, walks back from
the write end over the files by their sizes until the target lies in the current file
(`resetWalk`), makes that position the write and read end, closes the file, truncates it there and
moves aside the data files after it.

`Wrote disk w ds` is the writer after writing `ds` from an empty directory: it backs their frame
log, with its end at the log's, and no data file exists past its end. `PutV2` and `Flush` keep it,
a `PutV2` that fails its size check keeps it with the same messages, and resetting to the end
after the first messages of a longer run gives it back for those messages
(`Wrote.resetWriteEndV2`), whatever file boundaries the later messages crossed: the walk lands on
the writer's own earlier end (`resetWalk_located`), and the truncate leaves exactly its bytes.

`RollbackWriteV2` takes back the last writes only within the write end's file. Taking back the
last message gives back the writer without it (`rollbackWriteV2_wrote`), unless its frame filled
its file: the write end is then at the start of the next file, the rollback is refused as a move
across files, and the message stays (`rollbackWriteV2_across`).

The data files past the write end matter because the rename loop stops at the first one that does
not exist. The writer only ever creates the write end's file (`writeOne_dataFile`), so past its
end none exists, and the loop stops within one turn per file the later messages rolled into.
-/

namespace Nsq

namespace DiskQueueWriter

open FrameLog

variable {disk : Disk} {w : DiskQueueWriter} {f : Int}

/-! ## The writer only touches the write end's file -/

/-- An open file is the write end's. -/
def OpenAtEnd (w : DiskQueueWriter) : Prop :=
  ∀ h, w.writeFile = some h → h.fileNum = w.diskWriteEnd.endOffset.fileNum

theorem Backs.openAtEnd {files : Int → List UInt8} (hb : w.Backs disk files) : w.OpenAtEnd :=
  fun h hh => (hb.opened h hh).1

theorem openWriteFile_dataFile (disk : Disk) (hf : f ≠ w.diskWriteEnd.endOffset.fileNum) :
    (openWriteFile disk w).1.dataFile f = disk.dataFile f := by
  unfold openWriteFile
  split <;> simp [Disk.setData, hf]

/-- The file `openWriteFile` answers is the write end's, and the writer has it open. -/
theorem openWriteFile_fileNum (disk : Disk) (ho : w.OpenAtEnd) :
    (openWriteFile disk w).2.2.fileNum = w.diskWriteEnd.endOffset.fileNum ∧
      (openWriteFile disk w).2.1.writeFile = some (openWriteFile disk w).2.2 ∧
      (openWriteFile disk w).2.1.diskWriteEnd = w.diskWriteEnd := by
  unfold openWriteFile
  split
  · exact ⟨ho _ ‹_›, ‹_›, rfl⟩
  · exact ⟨rfl, rfl, rfl⟩

theorem bufferedWrite_dataFile {h : OsFile} (bytes : List UInt8) (hf : f ≠ h.fileNum) :
    (bufferedWrite disk w h bytes).1.dataFile f = disk.dataFile f :=
  Disk.setData_dataFile_of_ne _ _ hf

theorem bufferedWrite_writeFile (disk : Disk) (w : DiskQueueWriter) (h : OsFile)
    (bytes : List UInt8) :
    ∃ h', (bufferedWrite disk w h bytes).2.writeFile = some h' ∧ h'.fileNum = h.fileNum ∧
      (bufferedWrite disk w h bytes).2.diskWriteEnd = w.diskWriteEnd :=
  ⟨_, rfl, rfl, rfl⟩

theorem bufferWriterFlush_dataFile (disk : Disk) (ho : w.OpenAtEnd)
    (hf : f ≠ w.diskWriteEnd.endOffset.fileNum) :
    (bufferWriterFlush disk w).1.dataFile f = disk.dataFile f := by
  cases hw : w.writeFile with
  | none => simp [bufferWriterFlush, hw]
  | some h =>
    simp only [bufferWriterFlush, hw]
    exact Disk.setData_dataFile_of_ne _ _ (by rw [ho h hw]; exact hf)

theorem sync_dataFile (disk : Disk) (ho : w.OpenAtEnd) (hf : f ≠ w.diskWriteEnd.endOffset.fileNum) :
    (sync disk w).1.dataFile f = disk.dataFile f :=
  bufferWriterFlush_dataFile disk ho hf

theorem rollIfFull_dataFile (ho : w.OpenAtEnd) (hf : f ≠ w.diskWriteEnd.endOffset.fileNum) :
    (rollIfFull disk w).1.dataFile f = disk.dataFile f := by
  unfold rollIfFull
  split_ifs
  · simp only [saveFileOffsetMeta, Disk.setMeta_dataFile]
    exact sync_dataFile disk ho hf
  · rfl

/-- A frame's last buffered write into the open file, and the roll after it, touch no data file
but the write end's. -/
theorem frameWrite_dataFile {h : OsFile} (hh : h.fileNum = w.diskWriteEnd.endOffset.fileNum)
    (hf : f ≠ w.diskWriteEnd.endOffset.fileNum) (bytes : List UInt8) (e : DiskQueueEndInfo)
    (he : e.endOffset.fileNum = w.diskWriteEnd.endOffset.fileNum) :
    (rollIfFull (bufferedWrite disk w h bytes).1
      { (bufferedWrite disk w h bytes).2 with diskWriteEnd := e }).1.dataFile f = disk.dataFile f := by
  rw [rollIfFull_dataFile (fun h' hh' => ?_) (by rw [he]; exact hf)]
  · exact bufferedWrite_dataFile bytes (by rw [hh]; exact hf)
  · obtain ⟨h₂, hw₂, hF₂, -⟩ := bufferedWrite_writeFile disk w h bytes
    rw [hw₂, Option.some.injEq] at hh'
    rw [← hh', hF₂, hh, he]

/-- `writeOne` creates or writes no data file but the write end's: it opens that file, writes
the frame through the buffer into it, and at a roll syncs it. -/
theorem writeOne_dataFile (disk : Disk) (ho : w.OpenAtEnd) (data : List UInt8) (isRaw : Bool) (msgCnt : Int)
    (hf : f ≠ w.diskWriteEnd.endOffset.fileNum) :
    (writeOne disk w data isRaw msgCnt).1.dataFile f = disk.dataFile f := by
  obtain ⟨hF₁, hw₁, he₁⟩ := openWriteFile_fileNum disk ho
  have hd₁ := openWriteFile_dataFile disk hf
  unfold writeOne
  split
  rename_i disk₁ w₁ h₁ hop
  rw [hop] at hF₁ hw₁ he₁ hd₁
  dsimp only at hF₁ hw₁ he₁ hd₁ ⊢
  rw [← he₁] at hf hF₁
  split
  · exact hd₁
  cases isRaw
  · -- the length, then the payload, each through the buffer
    obtain ⟨h₂, hw₂, hF₂, he₂⟩ := bufferedWrite_writeFile disk₁ w₁ h₁
      (BigEndian.encodeInt 4 (int32 data.length))
    simp only [Bool.false_eq_true, if_false, hw₂, Option.getD_some]
    rw [frameWrite_dataFile (by rw [hF₂, he₂, hF₁]) (by rw [he₂]; exact hf) _ _ (by rw [he₂]; rfl),
      bufferedWrite_dataFile _ (by rw [hF₁]; exact hf), hd₁]
  · simp only [if_true, hw₁, Option.getD_some]
    rw [frameWrite_dataFile hF₁ hf _ _ (by rfl), hd₁]

theorem putV2_dataFile (disk : Disk) (ho : w.OpenAtEnd) (data : List UInt8)
    (hf : f ≠ w.diskWriteEnd.endOffset.fileNum) :
    (putV2 disk w data).1.dataFile f = disk.dataFile f := by
  unfold putV2
  split
  · rfl
  · exact writeOne_dataFile disk ho data false 0 hf

/-- Flushing the buffer, `Flush` and `FlushBuffer` never move the write end. -/
theorem bufferWriterFlush_diskWriteEnd (disk : Disk) (w : DiskQueueWriter) :
    (bufferWriterFlush disk w).2.diskWriteEnd = w.diskWriteEnd := by
  unfold bufferWriterFlush
  split <;> rfl

theorem flush_diskWriteEnd (disk : Disk) (w : DiskQueueWriter) :
    (flush disk w).2.1.diskWriteEnd = w.diskWriteEnd := by
  unfold flush
  split
  · rfl
  split
  · exact bufferWriterFlush_diskWriteEnd disk w
  · rfl

theorem flushBuffer_diskWriteEnd (disk : Disk) (w : DiskQueueWriter) :
    (flushBuffer disk w).2.1.diskWriteEnd = w.diskWriteEnd := by
  unfold flushBuffer
  split
  · exact bufferWriterFlush_diskWriteEnd disk w
  · rfl

/-! ## The writer after a run of writes -/

/-- Backing reads only the write end's file, the buffer and the open file. -/
theorem Backs.congr {w' : DiskQueueWriter} {files : Int → List UInt8} (hb : w.Backs disk files)
    (he : w'.diskWriteEnd.endOffset.fileNum = w.diskWriteEnd.endOffset.fileNum)
    (hf : w'.writeFile = w.writeFile) (hbuf : w'.bufferWriter = w.bufferWriter) :
    w'.Backs disk files := by
  obtain ⟨hother, hcur, hopen, hclosed, hpresent⟩ := hb
  refine ⟨fun g hg => hother g (by rwa [he] at hg), by rw [he, hbuf]; exact hcur,
    fun h hh => ?_, fun hw => by rw [hbuf]; exact hclosed (by rwa [hf] at hw), hpresent⟩
  rw [he]
  exact hopen h (by rwa [hf] at hh)

/-- The buffer's flush keeps what the writer backs and its end, and empties the buffer. -/
theorem bufferWriterFlush_keeps {files : Int → List UInt8} (hb : w.Backs disk files) :
    (bufferWriterFlush disk w).2.Backs (bufferWriterFlush disk w).1 files ∧
      (bufferWriterFlush disk w).2.bufferWriter = [] ∧
      (bufferWriterFlush disk w).2.diskWriteEnd = w.diskWriteEnd ∧
      KeepsSettings w (bufferWriterFlush disk w).2 := by
  cases hw : w.writeFile with
  | none =>
    have hflush : bufferWriterFlush disk w = (disk, w) := by simp [bufferWriterFlush, hw]
    rw [hflush]
    exact ⟨hb, hb.closed hw, rfl, .refl w⟩
  | some h =>
    have hf := bufferWriterFlush_backs hb hw
    rw [bufferWriterFlush_of_open hw] at hf ⊢
    exact ⟨hf, rfl, rfl, .refl w⟩

/-- `sync` puts the buffer on disk, publishes the write end and keeps what the writer backs. -/
theorem sync_backs {files : Int → List UInt8} (hb : w.Backs disk files) :
    (sync disk w).2.Backs (sync disk w).1 files ∧ (sync disk w).2.bufferWriter = [] ∧
      (sync disk w).2.diskWriteEnd = w.diskWriteEnd ∧ (sync disk w).2.needSync = false ∧
      (sync disk w).2.diskReadEnd = w.diskWriteEnd ∧ KeepsSettings w (sync disk w).2 := by
  obtain ⟨hb', hbuf, he, hk⟩ := bufferWriterFlush_keeps hb
  exact ⟨hb'.congr rfl rfl rfl, hbuf, he, rfl, he, hk⟩

/-- The writer after writing `ds` from an empty directory: it backs their frame log with its end at
the log's end, owes a sync or has published its end with nothing buffered, starts at zero, is
running, and no data file exists past its end. -/
structure Wrote (disk : Disk) (w : DiskQueueWriter) (ds : List (List UInt8)) : Prop where
  backs : w.Backs disk (empty.appendAll w.maxBytesPerFile ds).files
  writeEnd : w.diskWriteEnd = (empty.appendAll w.maxBytesPerFile ds).last
  clean : w.Clean
  start : w.diskQueueStart = .zero
  running : w.exitFlag = false
  absent : ∀ f, w.diskWriteEnd.endOffset.fileNum < f → disk.dataFile f = none

theorem wrote_newDiskQueueWriter (maxBytesPerFile minMsgSize maxMsgSize : Int) :
    Wrote Disk.empty (newDiskQueueWriter maxBytesPerFile minMsgSize maxMsgSize) [] :=
  ⟨Backs.of_contents (fun _ => rfl) (fun _ h => absurd rfl h) rfl rfl, rfl,
    fun _ => ⟨rfl, rfl⟩, rfl, rfl, fun _ _ => rfl⟩

/-- Messages written one after the other make one log. -/
theorem appendAll_concat (q : FrameLog) (m : Int) (ds : List (List UInt8)) (data : List UInt8) :
    q.appendAll m (ds ++ [data]) = (q.appendAll m ds).append m data := by
  simp [appendAll, List.foldl_append]

/-- `PutV2` of a payload the size checks admit extends what was written by it. -/
theorem putV2_wrote {ds : List (List UInt8)} (hw : Wrote disk w ds) {data : List UInt8}
    (hmin : w.minMsgSize ≤ data.length) (hmax : data.length ≤ w.maxMsgSize)
    (hbig : data.length < 2 ^ 31 - 4) :
    ∃ disk' w', putV2 disk w data = (disk', w',
        .ok ((empty.appendAll w.maxBytesPerFile ds).last.virtualEnd, data.length + 4,
          (empty.appendAll w.maxBytesPerFile (ds ++ [data])).last)) ∧
      Wrote disk' w' (ds ++ [data]) ∧ KeepsSettings w w' := by
  obtain ⟨hwf, -⟩ := log_spec w.maxBytesPerFile ds
  obtain ⟨disk', w', hput, hb', he', hns, hk⟩ :=
    putV2_backs hw.backs hw.writeEnd hwf hw.running hmin hmax hbig
  have hm : w'.maxBytesPerFile = w.maxBytesPerFile := hk.2.1
  rw [← appendAll_concat] at hput hb' he'
  refine ⟨disk', w', hput, ⟨by rwa [hm], by rwa [hm], fun h => absurd (hns.symm.trans h) (by simp),
    hk.1.trans hw.start, hk.2.2.2.2.trans hw.running, fun g hg => ?_⟩, hk⟩
  -- the end moved no file back, and the write touched only the old end's file
  have hle : w.diskWriteEnd.endOffset.fileNum ≤ w'.diskWriteEnd.endOffset.fileNum := by
    rw [he', appendAll_concat, hw.writeEnd]
    exact fileNum_le_append _ _ _
  have := putV2_dataFile disk hw.backs.openAtEnd data (f := g) (by omega)
  rw [hput] at this
  rw [this]
  exact hw.absent g (by omega)

/-- A writer whose buffer went to disk and whose write end was published as its read end, with
no data file touched but the end's, keeps what was written. -/
theorem Wrote.published {ds : List (List UInt8)} (hw : Wrote disk w ds) {disk' : Disk}
    {w' : DiskQueueWriter} (hb : w'.Backs disk' (empty.appendAll w.maxBytesPerFile ds).files)
    (hbuf : w'.bufferWriter = []) (he : w'.diskWriteEnd = w.diskWriteEnd)
    (hre : w'.diskReadEnd = w.diskWriteEnd) (hk : KeepsSettings w w')
    (hd : ∀ g, g ≠ w.diskWriteEnd.endOffset.fileNum → disk'.dataFile g = disk.dataFile g) :
    Wrote disk' w' ds := by
  refine ⟨by rw [hk.2.1]; exact hb, by rw [he, hk.2.1]; exact hw.writeEnd,
    fun _ => ⟨by rw [hre, he], hbuf⟩, hk.1.trans hw.start, hk.2.2.2.2.trans hw.running,
    fun g hg => ?_⟩
  rw [he] at hg
  rw [hd g (by omega)]
  exact hw.absent g hg

/-- `sync` keeps what was written and owes no sync after it. -/
theorem sync_wrote {ds : List (List UInt8)} (hw : Wrote disk w ds) :
    Wrote (sync disk w).1 (sync disk w).2 ds ∧ KeepsSettings w (sync disk w).2 ∧
      (sync disk w).2.diskWriteEnd = w.diskWriteEnd ∧ (sync disk w).2.needSync = false := by
  obtain ⟨hb, hbuf, he, hns, hre, hk⟩ := sync_backs hw.backs
  exact ⟨hw.published hb hbuf he hre hk fun g hg => sync_dataFile disk hw.backs.openAtEnd hg, hk,
    he, hns⟩

/-- `FlushBuffer` writes out what the buffer holds and keeps what was written. -/
theorem flushBuffer_wrote {ds : List (List UInt8)} (hw : Wrote disk w ds) :
    Wrote (flushBuffer disk w).1 (flushBuffer disk w).2.1 ds ∧
      KeepsSettings w (flushBuffer disk w).2.1 ∧
      (flushBuffer disk w).2.1.diskWriteEnd = w.diskWriteEnd := by
  unfold flushBuffer
  split
  · obtain ⟨hb, hbuf, he, hk⟩ := bufferWriterFlush_keeps hw.backs
    exact ⟨hw.published (hb.congr rfl rfl rfl) hbuf he he hk
      fun g hg => bufferWriterFlush_dataFile disk hw.backs.openAtEnd hg, hk, he⟩
  · exact ⟨hw, .refl w, rfl⟩

/-- The producer's loop over payloads the size checks admit extends what was written by them. The
induction is on the payloads, each step `putV2_wrote`. -/
theorem putV2All_wrote :
    ∀ {disk : Disk} {w : DiskQueueWriter} {ds : List (List UInt8)} (ds' : List (List UInt8)),
      Wrote disk w ds →
      (∀ d ∈ ds', w.minMsgSize ≤ d.length ∧ d.length ≤ w.maxMsgSize ∧ d.length < 2 ^ 31 - 4) →
      Wrote (putV2All disk w ds').1 (putV2All disk w ds').2 (ds ++ ds') ∧
        KeepsSettings w (putV2All disk w ds').2
  | disk, w, ds, [], hw, _ => by
    rw [List.append_nil]
    exact ⟨hw, .refl w⟩
  | disk, w, ds, data :: ds', hw, hsizes => by
    obtain ⟨hmin, hmax, hbig⟩ := hsizes data (List.mem_cons_self ..)
    obtain ⟨disk₁, w₁, hput, hw₁, hk₁⟩ := putV2_wrote hw hmin hmax hbig
    obtain ⟨hrest, hk⟩ := putV2All_wrote ds' hw₁ fun d hd => by
      obtain ⟨h₁, h₂, h₃⟩ := hsizes d (List.mem_cons_of_mem _ hd)
      exact ⟨hk₁.2.2.1 ▸ h₁, hk₁.2.2.2.1 ▸ h₂, h₃⟩
    simp only [putV2All, hput]
    rw [← List.singleton_append, ← List.append_assoc]
    exact ⟨hrest, hk₁.trans hk⟩

/-- `Flush` publishes the write end, puts the buffer on disk and keeps what was written. -/
theorem flush_wrote {ds : List (List UInt8)} (hw : Wrote disk w ds) :
    ∃ disk' w', flush disk w = (disk', w', .ok ()) ∧ Wrote disk' w' ds ∧ KeepsSettings w w' ∧
      w'.diskWriteEnd = w.diskWriteEnd ∧ w'.needSync = false := by
  cases hns : w.needSync
  · exact ⟨disk, w, by simp [DiskQueueWriter.flush, hw.running, hns], hw, .refl w, rfl, hns⟩
  · obtain ⟨hw', hk, he, hns'⟩ := sync_wrote hw
    exact ⟨_, _, by simp [DiskQueueWriter.flush, hw.running, hns], hw', hk, he, hns'⟩

/-- `PutV2` of a payload its size check rejects: the file is opened, nothing is written, and the
writer still backs what was written before. -/
theorem putV2_invalid_wrote {ds : List (List UInt8)} (hw : Wrote disk w ds) {data : List UInt8}
    (hsize : int32 data.length < w.minMsgSize ∨ int32 data.length > w.maxMsgSize) :
    ∃ disk' w', putV2 disk w data =
        (disk', w', .error (.invalidMessageWriteSize (int32 data.length) w.maxMsgSize)) ∧
      Wrote disk' w' ds ∧ KeepsSettings w w' := by
  obtain ⟨hwf, -⟩ := log_spec w.maxBytesPerFile ds
  obtain ⟨hpos, hlen, -⟩ := hwf
  rw [← hw.writeEnd] at hpos hlen
  obtain ⟨disk₁, w₁, h₁, hop, -, hb₁, he₁, hk₁⟩ := openWriteFile_spec hw.backs hpos hlen
  have hd₁ := fun g (hg : g ≠ w.diskWriteEnd.endOffset.fileNum) =>
    openWriteFile_dataFile (w := w) disk hg
  rw [hop] at hd₁
  have hcheck : (!false && (decide (int32 data.length < w₁.minMsgSize) ||
      decide (int32 data.length > w₁.maxMsgSize))) = true := by
    rw [hk₁.2.2.1, hk₁.2.2.2.1]
    simpa using hsize
  have hk : KeepsSettings w { w₁ with needSync := true } := hk₁
  refine ⟨disk₁, { w₁ with needSync := true }, ?_, ⟨?_, ?_, fun h => absurd h (by simp),
    hk.1.trans hw.start, hk.2.2.2.2.trans hw.running, fun g hg => ?_⟩, hk⟩
  · simp only [DiskQueueWriter.putV2, hw.running, Bool.false_eq_true, if_false, writeOne, hop]
    rw [if_pos hcheck, hk₁.2.2.2.1]
    rfl
  · rw [hk.2.1]
    exact hb₁.congr rfl rfl rfl
  · rw [hk.2.1]
    exact he₁.trans hw.writeEnd
  · have hg' : w.diskWriteEnd.endOffset.fileNum < g := by rwa [← he₁]
    rw [hd₁ g (by omega)]
    exact hw.absent g hg'

/-! ## The reset -/

/-- The disk holds exactly `files`, each nonempty one as a data file, and no data file past
`top`. -/
structure OnDisk (disk : Disk) (files : Int → List UInt8) (top : Int) : Prop where
  contents : ∀ g, disk.contents g = files g
  present : ∀ g, files g ≠ [] → disk.dataFile g ≠ none
  absent : ∀ g, top < g → disk.dataFile g = none

theorem OnDisk.dataFile_eq {files : Int → List UInt8} {top : Int} (hd : OnDisk disk files top)
    {g : Int} (hne : files g ≠ []) : disk.dataFile g = some (files g) := by
  cases h : disk.dataFile g with
  | none => exact absurd h (hd.present g hne)
  | some file =>
    have := hd.contents g
    rw [Disk.contents, h, Option.getD_some] at this
    rw [this]

/-- A writer that owes no sync has everything it wrote on disk. -/
theorem Wrote.onDisk {ds : List (List UInt8)} (hw : Wrote disk w ds) (hns : w.needSync = false) :
    OnDisk disk (empty.appendAll w.maxBytesPerFile ds).files
      (empty.appendAll w.maxBytesPerFile ds).last.endOffset.fileNum :=
  ⟨hw.backs.contents_eq (hw.clean hns).2, hw.backs.present, by rw [← hw.writeEnd]; exact hw.absent⟩

/-- The sync `ResetWriteEndV2` makes when one is owed leaves a writer that owes none. -/
theorem syncIfNeeded_wrote {ds : List (List UInt8)} (hw : Wrote disk w ds) :
    ∃ disk₁ w₁, (if w.needSync then sync disk w else (disk, w)) = (disk₁, w₁) ∧
      Wrote disk₁ w₁ ds ∧ w₁.needSync = false ∧ w₁.diskWriteEnd = w.diskWriteEnd ∧
      KeepsSettings w w₁ := by
  cases hns : w.needSync
  · exact ⟨disk, w, by simp, hw, hns, rfl, .refl w⟩
  · obtain ⟨hw', hk, he, hns'⟩ := sync_wrote hw
    exact ⟨_, _, by simp, hw', hns', he, hk⟩

/-- Closing the file, with nothing buffered, leaves what the disk holds. The open file, if any, is
`top`'s with its cursor at the file's end. -/
theorem closeCurrentFile_onDisk {files : Int → List UInt8} {top : Int} (hd : OnDisk disk files top)
    (hbuf : w.bufferWriter = [])
    (ho : ∀ h, w.writeFile = some h → h.fileNum = top ∧ h.cursor = (disk.contents top).length) :
    ∃ disk', closeCurrentFile disk w =
        (disk', { w with diskReadEnd := w.diskWriteEnd, writeFile := none }) ∧
      OnDisk disk' files top := by
  cases hw : w.writeFile with
  | none => exact ⟨disk, by simp [closeCurrentFile, bufferWriterFlush, hw], hd⟩
  | some h =>
    obtain ⟨hF, hc⟩ := ho h hw
    refine ⟨(osWrite disk h []).1, by simp [closeCurrentFile, bufferWriterFlush, hw, hbuf],
      ⟨fun g => ?_, fun g hg => osWrite_dataFile_ne_none [] (Or.inr (hd.present g hg)),
        fun g hg => ?_⟩⟩
    · by_cases hg : g = h.fileNum
      · subst hg
        rw [osWrite_contents_self [] (by rw [hF]; exact hc), List.append_nil]
        exact hd.contents _
      · rw [osWrite_contents_of_ne _ _ _ hg]
        exact hd.contents g
    · have hne : g ≠ h.fileNum := by omega
      have : (osWrite disk h []).1.dataFile g = disk.dataFile g := Disk.setData_dataFile_of_ne _ _ hne
      rw [this]
      exact hd.absent g hg

/-- The rename loop from `n`, over data files that exist below `top` and none past it, stops
within one turn a file and leaves no data file from `n` on. The induction is on the fuel, one
turn a step. -/
theorem renameFrom_spec : ∀ (fuel : Nat) (disk : Disk) (n top : Int),
    (∀ g, n ≤ g → g < top → disk.dataFile g ≠ none) → (∀ g, top < g → disk.dataFile g = none) →
    n ≤ top + 1 → top + 1 - n < fuel →
    ∃ disk', renameFrom fuel disk n = some disk' ∧
      (∀ g, g < n → disk'.dataFile g = disk.dataFile g) ∧ ∀ g, n ≤ g → disk'.dataFile g = none
  | 0, _, _, _, _, _, _, hfuel => by omega
  | fuel + 1, disk, n, top, hpres, habs, hn, hfuel => by
    cases hdn : disk.dataFile n with
    | none =>
      -- `n` does not exist, so it is `top` (never created) or past it
      have htop : top ≤ n := by
        by_contra hlt
        exact hpres n le_rfl (by omega) hdn
      refine ⟨disk, by simp [renameFrom, hdn], fun _ _ => rfl, fun g hg => ?_⟩
      rcases Int.lt_or_eq_of_le hg with hlt | heq
      · exact habs g (by omega)
      · rw [← heq]
        exact hdn
    | some file =>
      have hn' : n ≤ top := by
        by_contra hlt
        rw [habs n (by omega)] at hdn
        cases hdn
      obtain ⟨disk', hrun, hbelow, habove⟩ := renameFrom_spec fuel (disk.removeData n) (n + 1) top
        (fun g hg hgt => by
          rw [Disk.removeData_dataFile_of_ne _ (by omega)]
          exact hpres g (by omega) hgt)
        (fun g hg => by
          rw [Disk.removeData_dataFile_of_ne _ (by omega)]
          exact habs g hg)
        (by omega) (by omega)
      refine ⟨disk', by simp [renameFrom, hdn, hrun], fun g hg => ?_, fun g hg => ?_⟩
      · rw [hbelow g (by omega), Disk.removeData_dataFile_of_ne _ (by omega)]
      · rcases Int.lt_or_eq_of_le hg with hlt | heq
        · exact habove g (by omega)
        · rw [← heq, hbelow n (by omega), Disk.removeData_dataFile_self]

/-- The truncate with the file closed: the write end's file is opened, cut at the write position,
and the files after it are moved aside. -/
theorem truncateDiskQueueToWriteEnd_closed (fuel : Nat) (disk : Disk) (hw : w.writeFile = none)
    (hpos : 0 ≤ w.diskWriteEnd.endOffset.pos) :
    truncateDiskQueueToWriteEnd fuel disk w =
      (renameFrom fuel (disk.setData w.diskWriteEnd.endOffset.fileNum
        (truncateAt (disk.contents w.diskWriteEnd.endOffset.fileNum) w.diskWriteEnd.endOffset.pos.toNat))
        (w.diskWriteEnd.endOffset.fileNum + 1)).map fun disk' => (disk', w) := by
  simp only [truncateDiskQueueToWriteEnd, hw, not_lt.mpr hpos, if_false]

/-- The truncate at the `i`-th boundary of what was written, with the file closed: the boundary's
file is cut there and the files after it are moved aside, which leaves exactly the first `i`
messages' log on disk. The later messages rolled into at most one file each, so the rename loop
needs one turn each and one to stop. -/
theorem truncate_boundary_wrote (m : Int) {ds : List (List UInt8)} {i : Nat} {fuel : Nat}
    (hfuel : ds.length - i < fuel)
    (hd : OnDisk disk (empty.appendAll m ds).files (empty.appendAll m ds).last.endOffset.fileNum)
    (hm : w.maxBytesPerFile = m) (hwf : w.writeFile = none) (hbuf : w.bufferWriter = [])
    (he : w.diskWriteEnd = boundary m ds i) (hre : w.diskReadEnd = w.diskWriteEnd)
    (hst : w.diskQueueStart = .zero) (hrun : w.exitFlag = false) :
    ∃ disk', truncateDiskQueueToWriteEnd fuel disk w = some (disk', w) ∧ Wrote disk' w (ds.take i) := by
  obtain ⟨-, hfl⟩ := log_spec m ds
  obtain ⟨hb₀, hbF, hbpos, hbsz, -⟩ := located_boundary m ds i
  -- the later messages moved the end at most one file each past the boundary's
  have hlast : (empty.appendAll m ds).last.endOffset.fileNum ≤
      (boundary m ds i).endOffset.fileNum + (ds.length - i : Nat) := by
    have := fileNum_appendAll_le m (empty.appendAll m (ds.take i)) (ds.drop i)
    rwa [appendAll_take_drop, List.length_drop, ← boundary] at this
  set b := (boundary m ds i).endOffset with hbdef
  set cut := disk.setData b.fileNum (truncateAt (disk.contents b.fileNum) b.pos.toNat) with hcut
  have hcut_of_ne : ∀ g, g ≠ b.fileNum → cut.dataFile g = disk.dataFile g :=
    fun g hg => Disk.setData_dataFile_of_ne _ _ hg
  obtain ⟨disk', hren, hbelow, habove⟩ := renameFrom_spec fuel cut (b.fileNum + 1)
    (empty.appendAll m ds).last.endOffset.fileNum
    (fun g hg hgt => by
      rw [hcut_of_ne g (by omega)]
      exact hd.present g (hfl.files_ne_nil (by omega) hgt))
    (fun g hg => by
      rw [hcut_of_ne g (by omega)]
      exact hd.absent g hg)
    (by omega) (by omega)
  have htrunc : truncateDiskQueueToWriteEnd fuel disk w = some (disk', w) := by
    rw [truncateDiskQueueToWriteEnd_closed fuel disk hwf (by rw [he]; exact hbpos), he, ← hbdef,
      ← hcut, hren]
    rfl
  refine ⟨disk', htrunc, ⟨Backs.of_contents (fun g => ?_) (fun g hg => ?_) hwf hbuf, by rw [hm]; exact he,
    fun _ => ⟨hre, hbuf⟩, hst, hrun, fun g hg => habove g (by rw [he, ← hbdef] at hg; omega)⟩⟩
  · -- below the boundary's file the old bytes, that file cut, nothing after it
    rw [hm, boundary_files m ds i g, ← hbdef]
    rcases lt_or_ge g (b.fileNum + 1) with hlt | hge
    · rw [Disk.contents, hbelow g hlt, ← Disk.contents]
      by_cases hgb : g < b.fileNum
      · rw [if_pos hgb, Disk.contents, hcut_of_ne g (by omega), ← Disk.contents]
        exact hd.contents g
      · have hgeq : g = b.fileNum := by omega
        rw [if_neg hgb, if_pos hgeq, hgeq, hcut, Disk.contents_setData_self, hd.contents,
          truncateAt_of_le (by omega)]
    · rw [Disk.contents, habove g hge, if_neg (by omega), if_neg (by omega)]
      rfl
  · -- a nonempty file of the first `i` messages is at or below the boundary's, where it exists
    rw [hm, boundary_files m ds i g, ← hbdef] at hg
    have hgb : g < b.fileNum + 1 := by
      by_contra hge
      rw [if_neg (by omega), if_neg (by omega)] at hg
      exact hg rfl
    rw [hbelow g hgb]
    by_cases hlt : g < b.fileNum
    · rw [hcut_of_ne g (by omega)]
      rw [if_pos hlt] at hg
      exact hd.present g hg
    · rw [show g = b.fileNum by omega, hcut, Disk.setData_dataFile_self]
      exact Option.some_ne_none _

/-- While the target lies before the current file, the walk steps to the end of the file before
it, as long as it is `stat`. -/
theorem resetWalk_of_lt {offset newEnd fileNum pos : Int} (hlt : offset < newEnd - pos)
    (h₀ : 0 ≤ fileNum - 1) {file : List UInt8} (hf : disk.dataFile (fileNum - 1) = some file) :
    resetWalk disk offset newEnd fileNum pos =
      resetWalk disk offset (newEnd - pos) (fileNum - 1) file.length := by
  rw [resetWalk, if_pos hlt, if_neg (by omega), hf]

/-- Once the target does not lie before the current file, the walk stops there. -/
theorem resetWalk_of_ge {offset newEnd fileNum pos : Int} (hge : ¬ offset < newEnd - pos) :
    resetWalk disk offset newEnd fileNum pos = .ok (newEnd, fileNum, pos) := by
  rw [resetWalk, if_neg hge]

/-- The walk from the end of a file at or after the file of a boundary `b` lands on `b`: while
the target lies before the current file's start the file comes after `b`'s, and once it does not
the file is `b`'s, since every later file starts past `b`, strictly inside its own. -/
theorem resetWalk_boundary {q : FrameLog} (hf : q.Flat)
    (hd : OnDisk disk q.files q.last.endOffset.fileNum) {b : DiskQueueOffset} {offset : Int}
    (hb : q.Located b offset) (hin : b.pos < (q.files b.fileNum).length)
    (newEnd fileNum pos : Int) (hge : b.fileNum ≤ fileNum) (hat : q.Located ⟨fileNum, pos⟩ newEnd)
    (hpos : pos = (q.files fileNum).length) :
    ∃ newEnd' pos', resetWalk disk offset newEnd fileNum pos = .ok (newEnd', b.fileNum, pos') ∧
      pos' - (newEnd' - offset) = b.pos := by
  obtain ⟨hb₀, -, hbpos, -, hbv⟩ := hb
  obtain ⟨h₀, hF, -, -, hv⟩ := hat
  dsimp only at h₀ hF hv
  by_cases hlt : offset < newEnd - pos
  · -- the target lies before this file, which is therefore after `b`'s: step to the file before
    have hgt : b.fileNum < fileNum := by
      rcases Int.lt_or_eq_of_le hge with h | h
      · exact h
      · rw [h] at hbv
        omega
    have hprev := startOf_succ q (f := fileNum - 1) (by omega)
    rw [sub_add_cancel] at hprev
    have hat' : q.Located ⟨fileNum - 1, (q.files (fileNum - 1)).length⟩ (newEnd - pos) := by
      refine ⟨?_, ?_, ?_, ?_, ?_⟩ <;> dsimp only <;> omega
    rw [resetWalk_of_lt hlt (by omega) (hd.dataFile_eq (hf.files_ne_nil (by omega) (by omega)))]
    exact resetWalk_boundary hf hd ⟨hb₀, by omega, hbpos, by omega, hbv⟩ hin (newEnd - pos)
      (fileNum - 1) _ (by omega) hat' rfl
  · -- the target lies in this file, so the file is `b`'s
    have heq : fileNum = b.fileNum := by
      by_contra hne
      have hsize : q.size b.fileNum.toNat = (q.files b.fileNum).length := by
        rw [FrameLog.size, Int.toNat_of_nonneg hb₀]
      have hafter : q.startOf b.fileNum.toNat + q.size b.fileNum.toNat ≤ q.startOf fileNum.toNat :=
        Segments.start_add_le (by omega)
      omega
    subst heq
    exact ⟨newEnd, pos, resetWalk_of_ge hlt, by omega⟩
termination_by fileNum.toNat
decreasing_by omega

/-- Resetting to the end the writer had after the first `i` of the messages it wrote, with fuel for
one turn of the rename loop a later message and one more: the writer answers that end and is as if
it had written only those messages. With no message kept the reset takes the queue start;
otherwise the walk from the write end lands on the boundary. -/
theorem resetWriteEndV2_wrote {ds : List (List UInt8)} (hw : Wrote disk w ds) {i : Nat}
    (hi : i < ds.length) {fuel : Nat} (hfuel : ds.length - i < fuel) :
    ∃ disk' w', resetWriteEndV2 fuel disk w (boundary w.maxBytesPerFile ds i).offset
        (boundary w.maxBytesPerFile ds i).totalMsgCnt =
        some (disk', w', boundary w.maxBytesPerFile ds i, none) ∧
      Wrote disk' w' (ds.take i) ∧ KeepsSettings w w' := by
  set m := w.maxBytesPerFile with hm
  obtain ⟨hwf, hfl⟩ := log_spec m ds
  have hoff : (boundary m ds i).offset = frameOffset ds i := boundary_virtualEnd m ds i
  have hcnt : (boundary m ds i).totalMsgCnt = i := boundary_totalMsgCnt m ds hi.le
  -- the target lies between the queue start and the write end
  have hlow : ¬ ((boundary m ds i).offset < w.diskQueueStart.virtualEnd ∨
      (boundary m ds i).totalMsgCnt < w.diskQueueStart.totalMsgCnt) := by
    have := frameOffset_nonneg ds hi.le
    rw [hw.start, hoff, hcnt]
    simp only [DiskQueueEndInfo.zero]
    omega
  have hhigh : ¬ (boundary m ds i).offset > w.diskWriteEnd.offset := by
    have := frameOffset_le ds hi.le le_rfl
    rw [hoff, hw.writeEnd, ← boundary_length, DiskQueueEndInfo.offset, boundary_virtualEnd]
    omega
  obtain ⟨disk₁, w₁, hsync, hw₁, hns₁, he₁, hk₁⟩ := syncIfNeeded_wrote hw
  have hm₁ : w₁.maxBytesPerFile = m := hk₁.2.1
  obtain ⟨hre₁, hbuf₁⟩ := hw₁.clean hns₁
  have hd₁ := hw₁.onDisk hns₁
  rw [hm₁] at hd₁
  -- the open file, if any, is the write end's with its cursor at the file's end
  have ho₁ : ∀ h, w₁.writeFile = some h →
      h.fileNum = (empty.appendAll m ds).last.endOffset.fileNum ∧
        h.cursor = (disk₁.contents (empty.appendAll m ds).last.endOffset.fileNum).length := by
    intro h hh
    obtain ⟨hF, hc⟩ := hw₁.backs.opened h hh
    rw [he₁, hw.writeEnd] at hF
    rw [← hF]
    exact ⟨rfl, hc⟩
  have hst₁ : w₁.diskQueueStart = .zero := hk₁.1.trans hw.start
  have hrun₁ : w₁.exitFlag = false := hk₁.2.2.2.2.trans hw.running
  rw [resetWriteEndV2, if_neg hlow, if_neg hhigh, hsync]
  dsimp only
  by_cases h0 : i = 0
  · -- nothing is kept: the reset takes the queue start, which is the first boundary
    subst h0
    rw [if_pos (by rw [hoff]; rfl)]
    obtain ⟨disk₂, hclose, hd₂⟩ := closeCurrentFile_onDisk hd₁ hbuf₁ ho₁
    rw [hclose]
    dsimp only
    obtain ⟨disk₃, htr, hw₃⟩ := truncate_boundary_wrote m hfuel hd₂
      (w := { w₁ with
        diskWriteEnd := w₁.diskQueueStart, diskReadEnd := w₁.diskQueueStart, writeFile := none })
      hm₁ rfl hbuf₁ hst₁ rfl hst₁ hrun₁
    rw [htr]
    exact ⟨disk₃, _, by rw [Option.map_some, hst₁]; rfl, hw₃, hk₁⟩
  · -- the walk from the write end lands on the boundary, which the reset makes both ends
    have hne : (boundary m ds i).offset ≠ 0 := by
      have := frameOffset_lt ds (Nat.pos_of_ne_zero h0) hi.le
      have hz : frameOffset ds 0 = 0 := by simp [frameOffset]
      rw [hoff]
      omega
    rw [if_neg hne, he₁, hw.writeEnd]
    have hb : (empty.appendAll m ds).Located (boundary m ds i).endOffset (boundary m ds i).offset := by
      rw [hoff]
      exact located_boundary m ds i
    obtain ⟨newEnd, pos, hwalk, hland⟩ := resetWalk_boundary hfl hd₁ hb (boundary_pos_lt m ds hi)
      (empty.appendAll m ds).last.offset _ _ hb.2.1 (located_last hwf hfl) hwf.2.1.symm
    rw [hwalk]
    dsimp only
    have hB : (⟨⟨(boundary m ds i).endOffset.fileNum, pos - (newEnd - (boundary m ds i).offset)⟩,
        (boundary m ds i).offset, (boundary m ds i).totalMsgCnt⟩ : DiskQueueEndInfo) =
        boundary m ds i := by
      rw [hland]
      rfl
    rw [hB]
    obtain ⟨disk₂, hclose, hd₂⟩ := closeCurrentFile_onDisk hd₁
      (w := { w₁ with diskWriteEnd := boundary m ds i, diskReadEnd := boundary m ds i }) hbuf₁ ho₁
    rw [hclose]
    dsimp only
    obtain ⟨disk₃, htr, hw₃⟩ := truncate_boundary_wrote m hfuel hd₂
      (w := { w₁ with
        diskWriteEnd := boundary m ds i, diskReadEnd := boundary m ds i, writeFile := none })
      hm₁ rfl hbuf₁ rfl rfl hst₁ hrun₁
    rw [htr]
    exact ⟨disk₃, _, by rw [Option.map_some], hw₃, hk₁⟩

/-! ## Rolling back the last write -/

/-- An open file at the write end's file is cut as the closed one would be: the truncate closes
it either way. -/
theorem truncateDiskQueueToWriteEnd_close (fuel : Nat) (disk : Disk)
    (ho : ∀ h, w.writeFile = some h → h.fileNum = w.diskWriteEnd.endOffset.fileNum) :
    truncateDiskQueueToWriteEnd fuel disk w =
      truncateDiskQueueToWriteEnd fuel disk { w with writeFile := none } := by
  cases hw : w.writeFile with
  | none => rw [← hw]
  | some h => simp only [truncateDiskQueueToWriteEnd, hw, ho h hw]

/-- The end of what was written, read off the log: at a position in its file, after the frames
written, with their count. -/
theorem last_spec (m : Int) (ds : List (List UInt8)) :
    0 ≤ (empty.appendAll m ds).last.endOffset.pos ∧
      (empty.appendAll m ds).last.virtualEnd = frameOffset ds ds.length ∧
      (empty.appendAll m ds).last.totalMsgCnt = ds.length := by
  rw [← boundary_length]
  exact ⟨(located_boundary m ds ds.length).2.2.1, boundary_virtualEnd m ds ds.length,
    boundary_totalMsgCnt m ds le_rfl⟩

/-- Taking back the last message written passes the checks against the queue start. -/
theorem rollbackWriteV2_start {ds : List (List UInt8)} {data : List UInt8}
    (hw : Wrote disk w (ds ++ [data])) :
    ¬ ((empty.appendAll w.maxBytesPerFile ds).last.virtualEnd < w.diskQueueStart.virtualEnd ∨
      w.diskWriteEnd.totalMsgCnt - ((1 : Nat) : Int) < w.diskQueueStart.totalMsgCnt) := by
  obtain ⟨-, hv, hn⟩ := last_spec w.maxBytesPerFile ds
  have h₀ := frameOffset_nonneg ds (le_refl ds.length)
  rw [hw.start, hw.writeEnd, appendAll_concat, append_last, afterFrame_totalMsgCnt, hn, hv]
  simp only [DiskQueueEndInfo.zero]
  omega

/-- Taking back the last message written, when its frame did not fill its file: the write end
moves back to the end before it, the read end with it, and the truncate cuts the frame off, so
the writer is as if it had written only the messages before it. -/
theorem rollbackWriteV2_wrote {ds : List (List UInt8)} {data : List UInt8}
    (hw : Wrote disk w (ds ++ [data]))
    (hroll : ¬ (empty.appendAll w.maxBytesPerFile ds).last.endOffset.pos + (data.length + 4) ≥
      w.maxBytesPerFile)
    {fuel : Nat} (hfuel : 1 < fuel) :
    ∃ disk' w', rollbackWriteV2 fuel disk w (empty.appendAll w.maxBytesPerFile ds).last.virtualEnd 1 =
        some (disk', w', (empty.appendAll w.maxBytesPerFile ds).last, none) ∧
      Wrote disk' w' ds ∧ KeepsSettings w w' := by
  set m := w.maxBytesPerFile with hm
  obtain ⟨hp, -, -⟩ := last_spec m ds
  set b := (empty.appendAll m ds).last with hb
  have he : w.diskWriteEnd = b.afterFrame m data := by rw [hw.writeEnd, appendAll_concat, append_last]
  have hend := afterFrame_of_not_roll m hroll
  obtain ⟨disk₁, w₁, hsync, hw₁, hns₁, he₁, hk₁⟩ := syncIfNeeded_wrote hw
  have hm₁ : w₁.maxBytesPerFile = m := hk₁.2.1
  obtain ⟨hre₁, hbuf₁⟩ := hw₁.clean hns₁
  have hd₁ := hw₁.onDisk hns₁
  rw [hm₁] at hd₁
  -- the frame lies in the write end's file, between its start and the write end
  have hoff : w₁.diskWriteEnd.offset = b.virtualEnd + (data.length + 4) := by
    rw [he₁, he, DiskQueueEndInfo.offset, afterFrame_virtualEnd]
  have hpos : w₁.diskWriteEnd.endOffset = ⟨b.endOffset.fileNum, b.endOffset.pos + (data.length + 4)⟩ := by
    rw [he₁, he, hend]
  rw [rollbackWriteV2, if_neg (rollbackWriteV2_start hw), hsync]
  dsimp only
  rw [if_neg (by omega), if_neg (by rw [hpos]; dsimp only; omega)]
  -- moved back by the frame's size, the write end is the end before the frame
  have hback : (⟨⟨w₁.diskWriteEnd.endOffset.fileNum,
      w₁.diskWriteEnd.endOffset.pos - (w₁.diskWriteEnd.offset - b.virtualEnd)⟩, b.virtualEnd,
      w₁.diskWriteEnd.totalMsgCnt - ((1 : Nat) : Int)⟩ : DiskQueueEndInfo) = b := by
    refine DiskQueueEndInfo.ext (DiskQueueOffset.ext ?_ ?_) rfl ?_ <;> dsimp only
    · rw [hpos]
    · rw [hpos, hoff]
      dsimp only
      omega
    · rw [he₁, he, afterFrame_totalMsgCnt]
      omega
  simp only [hback]
  rw [if_pos (Or.inl (by rw [hre₁, hpos, hoff]; dsimp only; omega))]
  rw [truncateDiskQueueToWriteEnd_close fuel disk₁ (fun h hh => by
    rw [(hw₁.backs.opened h hh).1, hpos])]
  obtain ⟨disk₂, htr, hw₂⟩ := truncate_boundary_wrote m (i := ds.length) (by simp; omega) hd₁
    (w := { w₁ with diskWriteEnd := b, diskReadEnd := b, writeFile := none })
    hm₁ rfl hbuf₁ (by rw [boundary, List.take_left]) rfl (hk₁.1.trans hw.start)
    (hk₁.2.2.2.2.trans hw.running)
  rw [List.take_left] at hw₂
  rw [htr]
  exact ⟨disk₂, _, rfl, hw₂, hk₁⟩

/-- Taking back the last message written, when its frame filled its file: the write end is at the
start of the next file, the offset lies before it, and the rollback is refused across the file
boundary. The writer keeps the message. -/
theorem rollbackWriteV2_across {ds : List (List UInt8)} {data : List UInt8}
    (hw : Wrote disk w (ds ++ [data]))
    (hroll : (empty.appendAll w.maxBytesPerFile ds).last.endOffset.pos + (data.length + 4) ≥
      w.maxBytesPerFile) (fuel : Nat) :
    ∃ disk' w', rollbackWriteV2 fuel disk w (empty.appendAll w.maxBytesPerFile ds).last.virtualEnd 1 =
        some (disk', w', w.diskWriteEnd, some .invalidOffset) ∧
      Wrote disk' w' (ds ++ [data]) ∧ KeepsSettings w w' := by
  set m := w.maxBytesPerFile with hm
  have he : w.diskWriteEnd = (empty.appendAll m ds).last.afterFrame m data := by
    rw [hw.writeEnd, appendAll_concat, append_last]
  obtain ⟨disk₁, w₁, hsync, hw₁, -, he₁, hk₁⟩ := syncIfNeeded_wrote hw
  have hoff : w₁.diskWriteEnd.offset = (empty.appendAll m ds).last.virtualEnd + (data.length + 4) := by
    rw [he₁, he, DiskQueueEndInfo.offset, afterFrame_virtualEnd]
  have hpos : w₁.diskWriteEnd.endOffset.pos = 0 := by
    rw [he₁, he, afterFrame_of_roll m hroll]
  rw [rollbackWriteV2, if_neg (rollbackWriteV2_start hw), hsync]
  dsimp only
  rw [if_neg (by omega), if_pos (by omega)]
  exact ⟨disk₁, w₁, by rw [he₁], hw₁, hk₁⟩

/-- A message written and then taken back, as the coordinator does when the replication of a
write fails: when its frame did not fill its file, the rollback answers the end before it and the
writer is as if it had not been written; when it did, the rollback is refused and the writer
keeps the message. -/
theorem putV2_rollbackWriteV2 {ds : List (List UInt8)} (hw : Wrote disk w ds) {data : List UInt8}
    (hmin : w.minMsgSize ≤ data.length) (hmax : data.length ≤ w.maxMsgSize)
    (hbig : data.length < 2 ^ 31 - 4) {fuel : Nat} (hfuel : 1 < fuel) :
    ∃ disk₁ w₁, putV2 disk w data = (disk₁, w₁,
        .ok ((empty.appendAll w.maxBytesPerFile ds).last.virtualEnd, data.length + 4,
          (empty.appendAll w.maxBytesPerFile (ds ++ [data])).last)) ∧
      (¬ (empty.appendAll w.maxBytesPerFile ds).last.endOffset.pos + (data.length + 4) ≥
          w.maxBytesPerFile →
        ∃ disk₂ w₂, rollbackWriteV2 fuel disk₁ w₁ (empty.appendAll w.maxBytesPerFile ds).last.virtualEnd 1 =
            some (disk₂, w₂, (empty.appendAll w.maxBytesPerFile ds).last, none) ∧
          Wrote disk₂ w₂ ds) ∧
      ((empty.appendAll w.maxBytesPerFile ds).last.endOffset.pos + (data.length + 4) ≥
          w.maxBytesPerFile →
        ∃ disk₂ w₂, rollbackWriteV2 fuel disk₁ w₁ (empty.appendAll w.maxBytesPerFile ds).last.virtualEnd 1 =
            some (disk₂, w₂, (empty.appendAll w.maxBytesPerFile (ds ++ [data])).last, some .invalidOffset) ∧
          Wrote disk₂ w₂ (ds ++ [data])) := by
  obtain ⟨disk₁, w₁, hput, hw₁, hk⟩ := putV2_wrote hw hmin hmax hbig
  have hm : w₁.maxBytesPerFile = w.maxBytesPerFile := hk.2.1
  refine ⟨disk₁, w₁, hput, fun hroll => ?_, fun hroll => ?_⟩
  · obtain ⟨disk₂, w₂, hrb, hw₂, -⟩ := rollbackWriteV2_wrote hw₁ (by rw [hm]; exact hroll) hfuel
    rw [hm] at hrb
    exact ⟨disk₂, w₂, hrb, hw₂⟩
  · obtain ⟨disk₂, w₂, hrb, hw₂, -⟩ := rollbackWriteV2_across hw₁ (by rw [hm]; exact hroll) fuel
    rw [hw₁.writeEnd, hm] at hrb
    exact ⟨disk₂, w₂, hrb, hw₂⟩

/-- In files of 8 bytes a message of four bytes fills the first file: its rollback is refused, and
the writer keeps it. -/
theorem putV2_rollbackWriteV2_across :
    Wrote Disk.empty (newDiskQueueWriter 8 1 1024) [] ∧
    ∃ disk₁ w₁, putV2 Disk.empty (newDiskQueueWriter 8 1 1024) [1, 2, 3, 4] =
        (disk₁, w₁, .ok (0, 8, ⟨⟨1, 0⟩, 8, 1⟩)) ∧
      ∃ disk₂ w₂, rollbackWriteV2 2 disk₁ w₁ 0 1 = some (disk₂, w₂, ⟨⟨1, 0⟩, 8, 1⟩, some .invalidOffset) ∧
        Wrote disk₂ w₂ [[1, 2, 3, 4]] := by
  have hw := wrote_newDiskQueueWriter 8 1 1024
  obtain ⟨disk₁, w₁, hput, -, hrolled⟩ :=
    putV2_rollbackWriteV2 hw
      (show (newDiskQueueWriter 8 1 1024).minMsgSize ≤ ([1, 2, 3, 4] : List UInt8).length by decide)
      (by decide) (by decide) (show 1 < 2 by decide)
  obtain ⟨disk₂, w₂, hrb, hw₂⟩ := hrolled (by decide)
  exact ⟨hw, disk₁, w₁, hput, disk₂, w₂, hrb, hw₂⟩

end DiskQueueWriter

end Nsq
