import Upipe.Entities.MemQueue.Holds

/-!
# One frame through an empty queue

Wherever in the data area an empty queue has its two indices, a frame that fits the data area goes in
through the one address arithmetic and comes out through the other, and leaves the queue empty behind it.
-/

namespace Upipe.MemQueue

open Upipe.Common

/-- An empty queue with both indices at `p`. -/
structure EmptyAt (q : MemQueue) (p : ℕ) : Prop where
  size_ge : 97 ≤ q.size
  size_lt : q.size < 2 ^ 32
  buf_length : q.buf.length = q.size
  ge : qControlSize ≤ p
  lt : p < q.size
  allocIndex_eq : q.allocIndex = p
  exeIndex_eq : q.exeIndex = p
  zeroed : q.data = List.replicate (q.size - qControlSize) 0
  counted : q.allocCounter = q.exeCounter

instance (q : MemQueue) (p : ℕ) : Decidable (EmptyAt q p) :=
  decidable_of_iff (97 ≤ q.size ∧ q.size < 2 ^ 32 ∧ q.buf.length = q.size ∧ qControlSize ≤ p ∧
      p < q.size ∧ q.allocIndex = p ∧ q.exeIndex = p ∧
      q.data = List.replicate (q.size - qControlSize) 0 ∧ q.allocCounter = q.exeCounter)
    ⟨fun ⟨h₁, h₂, h₃, h₄, h₅, h₆, h₇, h₈, h₉⟩ => ⟨h₁, h₂, h₃, h₄, h₅, h₆, h₇, h₈, h₉⟩,
      fun ⟨h₁, h₂, h₃, h₄, h₅, h₆, h₇, h₈, h₉⟩ => ⟨h₁, h₂, h₃, h₄, h₅, h₆, h₇, h₈, h₉⟩⟩

/-- Of the control bytes only the direction, the two indices, their counters and the DFPS fields may
differ. -/
def ControlKept (q q' : MemQueue) : Prop :=
  slice q'.buf 0 directionPointer = slice q.buf 0 directionPointer ∧
    slice q'.buf (dfpsLastExeCounterPointer + 4) qControlSize
      = slice q.buf (dfpsLastExeCounterPointer + 4) qControlSize

/-- The bytes that `get` reads of the frame at `exe_index`: its body, with the checksum that its header
has. -/
def ReadsBack (q : MemQueue) (body : Bytes) : Prop :=
  q.readFrameData body.length = .ok body ∧
    slice q.readFrameHeader frameCrc32Offset (frameCrc32Offset + 4) = leBytes 4 (crc32 body).toNat

variable {q q' : MemQueue} {p : ℕ} {body : Bytes}

theorem EmptyAt.carries (h : EmptyAt q p) : Carries q [] where
  size_ge := h.size_ge
  size_lt := h.size_lt
  buf_length := h.buf_length
  exe_ge := h.exeIndex_eq ▸ h.ge
  laid := by
    have := h.ge
    have := h.lt
    rw [h.zeroed, h.exeIndex_eq]
    exact Laid.replicate (by omega)
  alloc_eq := by
    have := h.ge
    have := h.lt
    rw [h.allocIndex_eq, h.exeIndex_eq, h.zeroed, Laid.tail, contents_nil, List.length_nil,
      List.length_replicate, Nat.mod_eq_of_lt (by omega)]
    omega
  intact _ hf := nomatch hf
  counted := h.counted

/-- A queue without frames is empty at its `exe_index`. -/
theorem Carries.emptyAt (h : Carries q []) : EmptyAt q q.exeIndex where
  size_ge := h.size_ge
  size_lt := h.size_lt
  buf_length := h.buf_length
  ge := h.exe_ge
  lt := h.exe_lt
  allocIndex_eq := by
    have := h.exe_ge
    have hhead := h.laid.head_lt
    have halloc := h.alloc_eq
    rw [Laid.tail, contents_nil, List.length_nil, Nat.add_zero, Nat.mod_eq_of_lt hhead] at halloc
    omega
  exeIndex_eq := rfl
  zeroed := by
    have hrotate := h.laid.rotate_eq
    rw [contents_nil, List.nil_append, List.length_nil, Nat.sub_zero, h.length_data] at hrotate
    apply List.rotate_injective (q.exeIndex - qControlSize)
    show q.data.rotate _ = (List.replicate _ _).rotate _
    rw [hrotate, List.rotate_replicate]
  counted := h.counted

/-- The frame in front is the one that is read. -/
theorem Carries.readsBack {f : Frame} {frames : List Frame} (h : Carries q (f :: frames)) :
    ReadsBack q f.body := by
  have hlength := f.length_raw
  have hread := readFrameData_cons h.toStores.lies
  rw [frameSize] at hlength
  refine ⟨?_, ?_⟩
  · rwa [show (f.raw.length : ℤ) - frameHeaderSize = f.body.length by omega] at hread
  · rw [readFrameHeader_cons h.toStores.lies, slice, List.take_take]
    exact (h.intact f List.mem_cons_self).crcOk

theorem controlKept_of_sameCtl (h : SameCtl 25 62 q q') : ControlKept q q' :=
  ⟨h.outside _ _ (by decide) (Or.inl (by decide)), h.outside _ _ (by decide) (Or.inr (by decide))⟩

/-- On every empty queue, at every index, `put` accepts every body that fits, the bytes that it writes
read back as that body, and `get` returns it and leaves the queue empty. -/
theorem put_get_emptyAt {α : Type} (decode : Bytes → α) (h : EmptyAt q p)
    (halloc : q.allocCounter < 2 ^ 32 - 1) (hnum : q.frameCounter < 2 ^ 32 - 1)
    (hfit : frameSize body ≤ q.size - qControlSize) (now now' : UInt64) :
    ∃ q₁ q₂ p', q.put (.ok body) now = .ok true q₁ ∧ ReadsBack q₁ body ∧
      get (fun arr => .ok (decode arr)) now' q₁ = .ok (some (decode body)) q₂ ∧
      EmptyAt q₂ p' ∧ q₂.size = q.size ∧ ControlKept q q₂ := by
  have hcarries := h.carries
  have hroom : used [] + frameSize body ≤ q.size - qControlSize := by
    rw [used_nil]
    omega
  have hover : ¬ q.overCapacity := by
    rw [hcarries.overCapacity_iff_of_room hroom, used_nil]
    omega
  obtain ⟨q₁, hsize, hput, pushed, hcarries₁, -⟩ :=
    hcarries.put_ok now hover hroom (by omega) (by omega)
  have hbody : (Frame.ofBody body q.frameCounter hsize).body = body := Frame.body_ofBody hsize
  obtain ⟨q₂, hget, popped, hcarries₂⟩ := hcarries₁.get_ok (fun arr => .ok (decode arr)) now' rfl
  have hreads := hcarries₁.readsBack
  rw [hbody] at hget hreads
  have hctl := (controlKept_of_sameCtl pushed.ctl)
  have hctl' := controlKept_of_sameCtl (popped.ctl.mono (show 25 ≤ 30 by decide) (Nat.le_refl 62))
  refine ⟨q₁, q₂, q₂.exeIndex, hput, hreads, hget, hcarries₂.emptyAt,
    popped.ctl.size.trans pushed.ctl.size, ?_⟩
  exact ⟨hctl'.1.trans hctl.1, hctl'.2.trans hctl.2⟩

/-- A zeroed queue of the given size with both indices at `p`. -/
def zeroedAt (size p : ℕ) : MemQueue :=
  (({ qid := "12", fromP := "a", toP := "b", host := none, size := size,
      buf := List.replicate size 0, frameCounter := 0 } : MemQueue).withInt allocPointer 4 p).withInt
    exePointer 4 p

/-- A frame that fills the data area of 36 bytes, from 10 bytes before its end. -/
theorem put_get_emptyAt_full :
    ∃ q₁ q₂ p', (zeroedAt 100 90).put (.ok [1, 2, 3, 4]) 5000 = .ok true q₁ ∧
      ReadsBack q₁ [1, 2, 3, 4] ∧
      get (fun arr => .ok arr) 7000 q₁ = .ok (some [1, 2, 3, 4]) q₂ ∧
      EmptyAt q₂ p' ∧ q₂.size = (zeroedAt 100 90).size ∧ ControlKept (zeroedAt 100 90) q₂ :=
  put_get_emptyAt (fun arr => arr) (show EmptyAt (zeroedAt 100 90) 90 by decide +kernel)
    (by decide +kernel) (by decide +kernel) (by decide +kernel) 5000 7000

end Upipe.MemQueue
