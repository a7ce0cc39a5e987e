import Upipe.Entities.MemQueue.Outcomes

/-!
# Intact frames that are counted

`Carries q frames` says of the layout what `put` and `get` keep of it between two calls: every frame was
written whole, and the two counters are apart by the number of frames. The frames may fill the whole data
area.
-/

namespace Upipe.MemQueue

open Upipe.Common

/-- The frame was written whole: watermark in place, checksum that of the body. -/
structure Frame.Intact (f : Frame) : Prop where
  watermark_eq : f.watermark = waterMark
  crcOk : f.CrcOk

theorem Frame.intact_ofBody {body : Bytes} {num : ℕ} (h : frameSize body < 256 ^ 4) :
    (Frame.ofBody body num h).Intact where
  watermark_eq := Frame.watermark_ofBody h
  crcOk := by rw [Frame.CrcOk, Frame.crc_ofBody, Frame.body_ofBody]

theorem Frame.length_raw (f : Frame) : f.raw.length = frameSize f.body := by
  have := f.header_le
  rw [frameSize, Frame.body, List.length_drop]
  omega

theorem frameSize_pos (body : Bytes) : 0 < frameSize body := by
  rw [frameSize, frameHeaderSize]
  omega

/-- The queue stores `frames`, all of them intact and counted. -/
structure Carries (q : MemQueue) (frames : List Frame) : Prop extends Stores q frames where
  intact : ∀ f ∈ frames, f.Intact
  counted : q.allocCounter = q.exeCounter + frames.length

variable {q q' : MemQueue} {frames : List Frame} {f : Frame} {body : Bytes}

theorem Carries.pendingCounter_eq (h : Carries q frames) : q.pendingCounter = frames.length := by
  rw [pendingCounter, h.counted]
  omega

/-! ## `put` -/

/-- The two refusals of `put` leave the queue alone. -/
theorem put_refused {df : Except PyError Bytes} (now : UInt64)
    (h : q.overCapacity ∨ ∃ body, df = .ok body ∧ ¬ q.fitsFree body) :
    q.put df now = .ok false q := by
  rw [put, get_bind_apply]
  by_cases hover : q.overCapacity
  · rw [if_pos hover]; rfl
  · obtain hc | ⟨body, rfl, hfit⟩ := h
    · exact absurd hc hover
    · rw [if_neg hover, bind_ok (ofExcept_ok _ q), if_pos hfit]; rfl

/-- Past both tests `put` is its locked part. -/
theorem put_admitted (now : UInt64) (hover : ¬ q.overCapacity) (hfit : q.fitsFree body) :
    q.put (.ok body) now = putLocked body now q := by
  rw [put, get_bind_apply, if_neg hover, bind_ok (ofExcept_ok _ q), if_neg (not_not_intro hfit)]

section Room

variable (hroom : used frames + frameSize body ≤ q.size - qControlSize)

include hroom

/-- With room for a frame the free space is exact. -/
theorem Stores.freeSpace_of_room (h : Stores q frames) :
    q.freeSpace = q.size - qControlSize - used frames := by
  have := frameSize_pos body
  exact freeSpace_of_lt h (by omega)

theorem Stores.fitsFree_of_room (h : Stores q frames) : q.fitsFree body := by
  have := h.size_ge
  rw [fitsFree, h.freeSpace_of_room hroom]
  omega

theorem Stores.frameSize_lt_of_room (h : Stores q frames) : frameSize body < 256 ^ 4 := by
  have := h.size_lt
  omega

/-- With room for a frame the capacity test is one of the frames that are there. -/
theorem Stores.overCapacity_iff_of_room (h : Stores q frames) :
    q.overCapacity ↔ 9 * q.size < 10 * used frames := by
  have := h.size_ge
  rw [overCapacity, h.freeSpace_of_room hroom]
  omega

end Room

/-- What `put` has appended is carried when it is counted. -/
theorem Carries.pushed (h : Carries q frames) {num : ℕ} {hsize : frameSize body < 256 ^ 4}
    (hp : Pushed q frames (Frame.ofBody body num hsize) q')
    (hcounter : q'.allocCounter = q.allocCounter + 1) :
    Carries q' (frames ++ [Frame.ofBody body num hsize]) where
  toStores := hp.stores
  intact f hf := by
    rcases List.mem_append.mp hf with hf | hf
    · exact h.intact f hf
    · rw [List.mem_singleton.mp hf]
      exact Frame.intact_ofBody hsize
  counted := by
    rw [hcounter, hp.exeCounter_eq, h.counted, List.length_append]
    rfl

/-- The locked write of a frame for which there is room appends it, while the counters last. -/
theorem Carries.putLocked_ok (h : Carries q frames) (now : UInt64)
    (hroom : used frames + frameSize body ≤ q.size - qControlSize) (hnum : q.frameCounter < 256 ^ 4)
    (halloc : q.allocCounter + 1 < 256 ^ 4) :
    ∃ q' hsize, putLocked body now q = .ok true q' ∧
      Pushed q frames (Frame.ofBody body q.frameCounter hsize) q' ∧
      Carries q' (frames ++ [Frame.ofBody body q.frameCounter hsize]) ∧
      q'.allocCounter = q.allocCounter + 1 := by
  have hsize := h.frameSize_lt_of_room hroom
  have hout := putLocked_outcome h.toStores now hroom hsize
  revert hout
  generalize putLocked body now q = r
  rintro (⟨hover', -⟩ | ⟨-, -, hfull, -⟩ | ⟨-, pushed, hcounter⟩)
  · omega
  · omega
  · exact ⟨_, hsize, rfl, pushed, h.pushed pushed hcounter, hcounter⟩

/-- A frame for which there is room is appended, while the counters last. -/
theorem Carries.put_ok (h : Carries q frames) (now : UInt64) (hover : ¬ q.overCapacity)
    (hroom : used frames + frameSize body ≤ q.size - qControlSize) (hnum : q.frameCounter < 256 ^ 4)
    (halloc : q.allocCounter + 1 < 256 ^ 4) :
    ∃ q' hsize, q.put (.ok body) now = .ok true q' ∧
      Pushed q frames (Frame.ofBody body q.frameCounter hsize) q' ∧
      Carries q' (frames ++ [Frame.ofBody body q.frameCounter hsize]) ∧
      q'.allocCounter = q.allocCounter + 1 := by
  rw [put_admitted now hover (h.fitsFree_of_room hroom)]
  exact h.putLocked_ok now hroom hnum halloc

/-! ## `get` -/

/-- The first frame leaves the queue. -/
theorem Carries.popped (h : Carries q (f :: frames)) (hp : Popped q frames q')
    (hcounter : q'.exeCounter = q.exeCounter + 1) : Carries q' frames where
  toStores := hp.stores
  intact g hg := h.intact g (List.mem_cons_of_mem f hg)
  counted := by
    have := h.counted
    rw [List.length_cons] at this
    rw [hcounter, hp.allocCounter_eq]
    omega

section Get

variable {α : Type} (fromByteArr : Bytes → Except PyError α)

/-- With a frame pending `get` is its locked part. -/
theorem get_cons (h : q.allocCounter = q.exeCounter + (f :: frames).length) (now : UInt64) :
    get fromByteArr now q = getLocked fromByteArr now q := by
  have hpending : q.pendingCounter ≠ 0 := by
    rw [List.length_cons] at h
    rw [pendingCounter]
    omega
  rw [get, get_bind_apply, if_neg hpending]

/-- The locked body of `get` returns the first frame, decoded, when its body decodes. -/
theorem Carries.getLocked_ok (h : Carries q (f :: frames)) (now : UInt64) {a : α}
    (hd : fromByteArr f.body = .ok a) :
    ∃ q', getLocked fromByteArr now q = .ok (some a) q' ∧ Popped q frames q' ∧ Carries q' frames := by
  have hf := h.intact f List.mem_cons_self
  have hcounted := h.counted
  have halloc : q.allocCounter < 256 ^ 4 := getInt_lt ..
  have hout := getLocked_outcome fromByteArr h.toStores now
  revert hout
  rw [List.length_cons] at hcounted
  generalize getLocked fromByteArr now q = r
  rintro (⟨hw, -⟩ | ⟨-, hc, -, -, -⟩ | ⟨-, -, hd', -, -⟩ | ⟨-, -, -, -, -, hfull, -⟩ |
    ⟨-, -, hd', popped, hcounter⟩)
  · exact absurd hf.watermark_eq hw
  · exact absurd hf.crcOk hc
  · rw [hd] at hd'; cases hd'
  · -- the allocation counter is ahead and has only four bytes
    omega
  · rw [hd] at hd'
    cases hd'
    exact ⟨_, rfl, popped, h.popped popped hcounter⟩

/-- So does `get`. -/
theorem Carries.get_ok (h : Carries q (f :: frames)) (now : UInt64) {a : α}
    (hd : fromByteArr f.body = .ok a) :
    ∃ q', get fromByteArr now q = .ok (some a) q' ∧ Popped q frames q' ∧ Carries q' frames := by
  rw [get_cons fromByteArr h.counted]
  exact h.getLocked_ok fromByteArr now hd

end Get

end Upipe.MemQueue
