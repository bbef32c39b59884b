import Nsq.DiskQueue.Reader

/-!
# The reader's depth

`updateDepth` stores `Depth()` and `DepthSize()`, the distance in messages and in bytes from the
confirmed position to the queue end, each time one of the two moves. Away from the file-number
guard and from a conflict it stores exactly those distances (`updateDepth_depth`).

A conflict is a confirmed position at the queue end's offset with another message count. The
code settles it by moving the confirmed position to the queue end and clears its local `newDepth`,
but it has already stored the old count distance as the depth and does not store it again
(`updateDepth_conflict`). `UpdateQueueEnd` reaches that branch from a new reader
(`updateQueueEnd_stale_depth`).
-/

namespace Nsq

namespace DiskQueueReader

section Depth

variable (d : DiskQueueReader)
  (hfile : d.confirmedQueueInfo.endOffset.fileNum ≤ d.queueEndInfo.endOffset.fileNum)
include hfile

/-- Without a conflict, `updateDepth` stores the distances from the confirmed position to the
queue end. -/
theorem updateDepth_depth
    (hconf : d.queueEndInfo.offset = d.confirmedQueueInfo.offset →
      d.queueEndInfo.totalMsgCnt = d.confirmedQueueInfo.totalMsgCnt) :
    (updateDepth d).depth =
        (updateDepth d).queueEndInfo.totalMsgCnt - (updateDepth d).confirmedQueueInfo.totalMsgCnt ∧
      (updateDepth d).depthSize =
        (updateDepth d).queueEndInfo.offset - (updateDepth d).confirmedQueueInfo.offset := by
  have hguard : ¬ d.confirmedQueueInfo.endOffset.fileNum > d.queueEndInfo.endOffset.fileNum :=
    Int.not_lt.mpr hfile
  unfold updateDepth
  rw [if_neg hguard]
  dsimp only
  by_cases hsize : d.queueEndInfo.offset - d.confirmedQueueInfo.offset = 0
  · -- no conflict: the counts agree too, and nothing is fixed up
    have hcnt : d.queueEndInfo.totalMsgCnt - d.confirmedQueueInfo.totalMsgCnt = 0 := by
      rw [hconf (Int.sub_eq_zero.mp hsize), Int.sub_self]
    rw [if_pos hsize, if_neg (not_not.mpr hcnt)]
    exact ⟨rfl, rfl⟩
  · rw [if_neg hsize]
    split_ifs <;> exact ⟨rfl, rfl⟩

/-- At a conflict, `updateDepth` moves the confirmed position to the queue end, where no message
is left, but keeps the count distance of before as the depth. -/
theorem updateDepth_conflict
    (hsize : d.queueEndInfo.offset = d.confirmedQueueInfo.offset)
    (hcnt : d.queueEndInfo.totalMsgCnt ≠ d.confirmedQueueInfo.totalMsgCnt) :
    (updateDepth d).confirmedQueueInfo = d.queueEndInfo ∧
      (updateDepth d).depth = d.queueEndInfo.totalMsgCnt - d.confirmedQueueInfo.totalMsgCnt ∧
      (updateDepth d).queueEndInfo.totalMsgCnt - (updateDepth d).confirmedQueueInfo.totalMsgCnt = 0 ∧
      (updateDepth d).depth ≠ 0 := by
  have hguard : ¬ d.confirmedQueueInfo.endOffset.fileNum > d.queueEndInfo.endOffset.fileNum :=
    Int.not_lt.mpr hfile
  have hsize' : d.queueEndInfo.offset - d.confirmedQueueInfo.offset = 0 := by
    rw [hsize, Int.sub_self]
  have hcnt' : d.queueEndInfo.totalMsgCnt - d.confirmedQueueInfo.totalMsgCnt ≠ 0 :=
    fun h => hcnt (Int.sub_eq_zero.mp h)
  unfold updateDepth
  rw [if_neg hguard]
  dsimp only
  rw [if_pos hsize', if_pos hcnt']
  exact ⟨rfl, rfl, Int.sub_self _, hcnt'⟩

end Depth

/-- A new reader over an empty queue told of a queue end at offset 0 that counts 5 messages: the
confirmed position moves to that end, where `Depth()` should be 0, and the depth stays 5. -/
theorem updateQueueEnd_stale_depth :
    ((newDiskQueueReader none false).updateQueueEnd ⟨⟨0, 0⟩, 0, 5⟩ false).1.depth = 5 ∧
      ((newDiskQueueReader none false).updateQueueEnd ⟨⟨0, 0⟩, 0, 5⟩ false).1.queueEndInfo.totalMsgCnt -
        ((newDiskQueueReader none false).updateQueueEnd ⟨⟨0, 0⟩, 0, 5⟩ false).1.confirmedQueueInfo.totalMsgCnt
          = 0 := by
  decide

end DiskQueueReader

end Nsq
