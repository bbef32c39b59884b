import Mathlib.Tactic.Ring
import Nsq.Lib.BigEndian

/-!
# Disk queue positions and the disk under them

A disk queue is a numbered sequence of data files. A position in it is a file number and a byte
position inside that file (`diskQueueOffset`), and a queue end adds the two running totals the
writer keeps beside it: the virtual offset, which counts every byte ever written to the queue,
and the message count (`diskQueueEndInfo`). Both are Go `int64`s; they are `Int` here because no
modelled path comes near the 64-bit bounds.

The disk is two tables indexed by file number: the data files, as byte arrays, and the
`.offsetmeta.dat` file the writer leaves beside each data file it closes. A missing entry is a
file that does not exist. What the operating system does to a file is modelled as POSIX does it:
a write at a cursor past the end first fills the gap with zero bytes, and a truncation cuts.

Go's `bufio.Writer` is here too, because the writer puts every frame through one: `bufioWrite`
is its `Write` for a buffer of a given size, returning the bytes that go through to the file now
and the bytes the buffer keeps. Its one law is that nothing is lost or reordered
(`bufioWrite_append`).
-/

namespace Nsq

/-- `diskQueueOffset`: a file number and a byte position inside that file. -/
@[ext]
structure DiskQueueOffset where
  fileNum : Int
  pos : Int
  deriving DecidableEq, Repr

/-- `diskQueueEndInfo`: a physical position with the virtual offset and the message count that
the queue has reached there. -/
@[ext]
structure DiskQueueEndInfo where
  endOffset : DiskQueueOffset
  virtualEnd : Int
  totalMsgCnt : Int
  deriving DecidableEq, Repr

namespace DiskQueueOffset

/-- `GreatThan`: the strict lexicographic order on (file number, position). -/
def greatThan (d o : DiskQueueOffset) : Bool :=
  if d.fileNum > o.fileNum then true
  else if d.fileNum = o.fileNum ∧ d.pos > o.pos then true
  else false

/-- The order `greatThan` is the strict half of: lexicographic, as a proposition. -/
def Le (d o : DiskQueueOffset) : Prop :=
  d.fileNum < o.fileNum ∨ (d.fileNum = o.fileNum ∧ d.pos ≤ o.pos)

instance (d o : DiskQueueOffset) : Decidable (d.Le o) := by
  unfold Le; infer_instance

theorem greatThan_eq_true_iff {d o : DiskQueueOffset} :
    d.greatThan o = true ↔ ¬ d.Le o := by
  unfold greatThan Le
  split_ifs <;> simp_all <;> omega

theorem greatThan_eq_false_iff {d o : DiskQueueOffset} :
    d.greatThan o = false ↔ d.Le o := by
  rw [← Bool.not_eq_true, greatThan_eq_true_iff, not_not]

@[simp] theorem le_refl (d : DiskQueueOffset) : d.Le d := Or.inr ⟨rfl, le_rfl⟩

theorem le_trans {a b c : DiskQueueOffset} (h₁ : a.Le b) (h₂ : b.Le c) : a.Le c := by
  unfold Le at *
  omega

end DiskQueueOffset

namespace DiskQueueEndInfo

/-- `Offset()`: the virtual offset of the end. -/
def offset (e : DiskQueueEndInfo) : Int := e.virtualEnd

/-- The empty queue's end: file 0, position 0, nothing written. -/
def zero : DiskQueueEndInfo := ⟨⟨0, 0⟩, 0, 0⟩

/-- The start of the file after the one an end lies in, with the same totals. -/
def nextFile (e : DiskQueueEndInfo) : DiskQueueEndInfo :=
  { e with endOffset := ⟨e.endOffset.fileNum + 1, 0⟩ }

end DiskQueueEndInfo

/-- The three numbers of a `.offsetmeta.dat` file: the message count at the file's end, and the
virtual offsets of its start and of its end. -/
structure FileOffsetMeta where
  cnt : Int
  startPos : Int
  endPos : Int
  deriving DecidableEq, Repr

/-- The disk under one queue: its data files and the offset meta files beside them, by file
number. `none` is a file that does not exist. -/
structure Disk where
  dataFile : Int → Option (List UInt8)
  offsetMeta : Int → Option FileOffsetMeta

namespace Disk

/-- A disk with no file at all. -/
def empty : Disk := ⟨fun _ => none, fun _ => none⟩

/-- Replace the data file `n`. -/
def setData (disk : Disk) (n : Int) (f : List UInt8) : Disk :=
  { disk with dataFile := fun m => if m = n then some f else disk.dataFile m }

/-- Replace the offset meta file beside data file `n`. -/
def setMeta (disk : Disk) (n : Int) (m : FileOffsetMeta) : Disk :=
  { disk with offsetMeta := fun k => if k = n then some m else disk.offsetMeta k }

@[simp] theorem setData_dataFile_self (disk : Disk) (n : Int) (f : List UInt8) :
    (disk.setData n f).dataFile n = some f := by simp [setData]

theorem setData_dataFile_of_ne (disk : Disk) {n m : Int} (f : List UInt8) (h : m ≠ n) :
    (disk.setData n f).dataFile m = disk.dataFile m := by simp [setData, h]

@[simp] theorem setData_offsetMeta (disk : Disk) (n : Int) (f : List UInt8) :
    (disk.setData n f).offsetMeta = disk.offsetMeta := rfl

@[simp] theorem setMeta_dataFile (disk : Disk) (n : Int) (m : FileOffsetMeta) :
    (disk.setMeta n m).dataFile = disk.dataFile := rfl

/-- The bytes of data file `n`; a file that does not exist reads as empty, which is what
opening it with `O_CREATE` makes of it. -/
def contents (disk : Disk) (n : Int) : List UInt8 := (disk.dataFile n).getD []

@[simp] theorem contents_setData_self (disk : Disk) (n : Int) (f : List UInt8) :
    (disk.setData n f).contents n = f := by simp [contents]

theorem contents_setData_of_ne (disk : Disk) {n m : Int} (f : List UInt8) (h : m ≠ n) :
    (disk.setData n f).contents m = disk.contents m := by
  simp [contents, setData_dataFile_of_ne disk f h]

/-- `os.Rename` of data file `n` to a name no reader opens: the data file no longer exists. -/
def removeData (disk : Disk) (n : Int) : Disk :=
  { disk with dataFile := fun m => if m = n then none else disk.dataFile m }

@[simp] theorem removeData_dataFile_self (disk : Disk) (n : Int) :
    (disk.removeData n).dataFile n = none := by simp [removeData]

theorem removeData_dataFile_of_ne (disk : Disk) {n m : Int} (h : m ≠ n) :
    (disk.removeData n).dataFile m = disk.dataFile m := by simp [removeData, h]

end Disk

/-- An open `*os.File` of the queue: the data file it was opened on and its cursor. -/
structure OsFile where
  fileNum : Int
  cursor : Nat
  deriving DecidableEq, Repr

/-- A POSIX write of `bytes` at `cursor`: a gap past the end reads as zero bytes, and the
bytes overwrite what was there. -/
def writeAt (file : List UInt8) (cursor : Nat) (bytes : List UInt8) : List UInt8 :=
  file.take cursor ++ List.replicate (cursor - file.length) 0 ++ bytes ++
    file.drop (cursor + bytes.length)

/-- Writing at the end of a file appends. -/
@[simp] theorem writeAt_length_self (file bytes : List UInt8) :
    writeAt file file.length bytes = file ++ bytes := by
  simp [writeAt]

/-- A POSIX truncate of `file` to `size` bytes: cut it there, or extend it with zero bytes. -/
def truncateAt (file : List UInt8) (size : Nat) : List UInt8 :=
  file.take size ++ List.replicate (size - file.length) 0

/-- Truncating no further than a file's length keeps its first bytes. -/
theorem truncateAt_of_le {file : List UInt8} {size : Nat} (h : size ≤ file.length) :
    truncateAt file size = file.take size := by
  simp [truncateAt, Nat.sub_eq_zero_of_le h]

/-- `(*os.File).Write` through an open file: the disk with the bytes written at the cursor,
and the file with the cursor moved past them. -/
def osWrite (disk : Disk) (h : OsFile) (bytes : List UInt8) : Disk × OsFile :=
  (disk.setData h.fileNum (writeAt (disk.contents h.fileNum) h.cursor bytes),
    { h with cursor := h.cursor + bytes.length })

/-- Writing at the end of a file appends to it. -/
theorem osWrite_contents_self {disk : Disk} {h : OsFile} (bytes : List UInt8)
    (hc : h.cursor = (disk.contents h.fileNum).length) :
    (osWrite disk h bytes).1.contents h.fileNum = disk.contents h.fileNum ++ bytes := by
  simp [osWrite, hc]

theorem osWrite_contents_of_ne (disk : Disk) (h : OsFile) (bytes : List UInt8) {f : Int}
    (hf : f ≠ h.fileNum) : (osWrite disk h bytes).1.contents f = disk.contents f :=
  Disk.contents_setData_of_ne _ _ hf

@[simp] theorem osWrite_file (disk : Disk) (h : OsFile) (bytes : List UInt8) :
    (osWrite disk h bytes).2 = { h with cursor := h.cursor + bytes.length } := rfl

/-- A write leaves every existing file in place and makes the written one exist. -/
theorem osWrite_dataFile_ne_none {disk : Disk} {h : OsFile} (bytes : List UInt8) {f : Int}
    (hf : f = h.fileNum ∨ disk.dataFile f ≠ none) : (osWrite disk h bytes).1.dataFile f ≠ none := by
  by_cases hF : f = h.fileNum
  · simp [osWrite, Disk.setData, hF]
  · simpa [osWrite, Disk.setData, hF] using hf.resolve_left hF

/-- `bufio.Writer.Write` for a buffer of `size` bytes holding `buf`: the bytes that go through to
the file now, and what the buffer holds after. A write that fits is only buffered. One that does
not fit goes straight through when the buffer is empty; otherwise the buffer is topped up and
flushed, and the rest is buffered, or written through when it alone is larger than the buffer. -/
def bufioWrite (size : Nat) (buf p : List UInt8) : List UInt8 × List UInt8 :=
  if p.length ≤ size - buf.length then ([], buf ++ p)
  else if buf = [] then (p, [])
  else
    let rest := p.drop (size - buf.length)
    if rest.length ≤ size then (buf ++ p.take (size - buf.length), rest)
    else (buf ++ p.take (size - buf.length) ++ rest, [])

/-- The buffer loses and reorders nothing: what went through, then what is held, is what was
held, then what was written. -/
theorem bufioWrite_append (size : Nat) (buf p : List UInt8) :
    (bufioWrite size buf p).1 ++ (bufioWrite size buf p).2 = buf ++ p := by
  unfold bufioWrite
  by_cases hfit : p.length ≤ size - buf.length
  · simp [hfit]
  · by_cases hempty : buf = []
    · subst hempty
      split <;> simp
    · simp only [hfit, hempty, if_false]
      split <;> simp

/-- `writeBufSize`, the writer's buffer size. -/
def writeBufSize : Nat := 1024 * 128

end Nsq
