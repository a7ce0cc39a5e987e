import Upipe.Entities.MemQueue.Outcomes

/-!
# A mapping that is longer than the queue

A process that attaches to a queue may map more bytes than the queue has. `Same` says that a body behaves
through the longer mapping as it does through the exact one; it is kept by sequencing. `put` computes both ends
of every slice from `size`, so it behaves the same on every queue (`same_put`).
-/

namespace Upipe.MemQueue

open Upipe.Common

/-- The queue through a mapping with `extra` bytes behind it. -/
def longer (q : MemQueue) (extra : Bytes) : MemQueue := { q with buf := q.buf ++ extra }

variable {q q' : MemQueue} {extra : Bytes}

@[simp] theorem size_longer : (q.longer extra).size = q.size := rfl

@[simp] theorem frameCounter_longer : (q.longer extra).frameCounter = q.frameCounter := rfl

@[simp] theorem buf_longer : (q.longer extra).buf = q.buf ++ extra := rfl

@[simp] theorem longer_nil (q : MemQueue) : q.longer [] = q := by
  rw [longer, List.append_nil]

theorem longer_injective (h : q.longer extra = q'.longer extra) : q = q' := by
  rw [longer, longer, MemQueue.mk.injEq] at h
  obtain ⟨h₁, h₂, h₃, h₄, h₅, hbuf, h₇⟩ := h
  cases q
  cases q'
  simp_all

/-! ## Fields and stores -/

theorem getInt_longer {address len : ℕ} (h : address + len ≤ q.buf.length) :
    (q.longer extra).getInt address len = q.getInt address len := by
  rw [getInt, getInt, buf_longer, slice_append_left h]

/-- A slice inside the queue. -/
theorem pySlice_longer {lo hi : ℤ} (h0 : 0 ≤ lo) (h1 : lo ≤ q.buf.length) (h2 : 0 ≤ hi)
    (h3 : hi ≤ q.buf.length) : pySlice (q.buf ++ extra) lo hi = pySlice q.buf lo hi := by
  have hlen : (q.buf ++ extra).length = q.buf.length + extra.length := List.length_append
  rw [pySlice_of_le h0 (by omega) h2 (by omega), pySlice_of_le h0 h1 h2 h3, slice_append_left (by omega)]

section Control

variable (h : qControlSize ≤ q.buf.length)

include h

theorem allocIndex_longer : (q.longer extra).allocIndex = q.allocIndex :=
  getInt_longer (Nat.le_trans (by decide) h)

theorem exeIndex_longer : (q.longer extra).exeIndex = q.exeIndex :=
  getInt_longer (Nat.le_trans (by decide) h)

theorem allocCounter_longer : (q.longer extra).allocCounter = q.allocCounter :=
  getInt_longer (Nat.le_trans (by decide) h)

theorem exeCounter_longer : (q.longer extra).exeCounter = q.exeCounter :=
  getInt_longer (Nat.le_trans (by decide) h)

theorem dfpsIntervalMs_longer : (q.longer extra).dfpsIntervalMs = q.dfpsIntervalMs :=
  getInt_longer (Nat.le_trans (by decide) h)

theorem lastDfpsCalcTime_longer : (q.longer extra).lastDfpsCalcTime = q.lastDfpsCalcTime :=
  getInt_longer (Nat.le_trans (by decide) h)

theorem freeSpace_longer : (q.longer extra).freeSpace = q.freeSpace := by
  rw [freeSpace, freeSpace, allocIndex_longer h, exeIndex_longer h]
  rfl

theorem pendingCounter_longer : (q.longer extra).pendingCounter = q.pendingCounter := by
  rw [pendingCounter, pendingCounter, allocCounter_longer h, exeCounter_longer h]

end Control

/-! ## Bodies that behave the same -/

/-- From `q` on, the body ends through the longer mapping as through the exact one. -/
structure Same {α : Type} (extra : Bytes) (q : MemQueue) (x : PyM MemQueue α) : Prop where
  eq : x (q.longer extra) = mapState (fun s => s.longer extra) (x q)
  length_eq : (stateOf (x q)).buf.length = q.buf.length

section Same

variable {α β : Type}

theorem Same.bind {x : PyM MemQueue α} {f : α → PyM MemQueue β} (hx : Same extra q x)
    (hf : ∀ a q', x q = .ok a q' → q'.buf.length = q.buf.length → Same extra q' (f a)) :
    Same extra q (x >>= f) := by
  obtain ⟨heq, hlen⟩ := hx
  cases h : x q with
  | ok a q' =>
    rw [h] at heq hlen
    obtain ⟨heq', hlen'⟩ := hf a q' h hlen
    refine ⟨?_, ?_⟩
    · rw [bind_ok h, bind_ok heq, heq']
    · rw [bind_ok h, hlen', ← hlen]
      rfl
  | error e q' =>
    rw [h] at heq hlen
    refine ⟨?_, ?_⟩
    · rw [bind_error h, bind_error heq]
      rfl
    · rw [bind_error h]
      exact hlen

theorem same_pure (a : α) : Same extra q (pure a) := ⟨rfl, rfl⟩

theorem same_throw (e : PyError) : Same extra q (throw e : PyM MemQueue α) := ⟨rfl, rfl⟩

theorem same_ofExcept (x : Except PyError α) : Same extra q (ofExcept x) := by
  cases x with
  | ok a => exact ⟨rfl, rfl⟩
  | error e => exact ⟨rfl, rfl⟩

/-- Reading the object, when what is computed of it is the same. -/
theorem same_get_bind {f : MemQueue → PyM MemQueue β} (hf : f (q.longer extra) = f q)
    (h : Same extra q (f q)) : Same extra q (MonadState.get >>= f) := by
  refine ⟨?_, h.length_eq⟩
  rw [get_bind_apply, get_bind_apply, hf, h.eq]

theorem same_store {lo hi : ℤ} {v : Bytes} (h0 : 0 ≤ lo) (h1 : lo ≤ q.buf.length) (h2 : 0 ≤ hi)
    (h3 : hi ≤ q.buf.length) : Same extra q (store lo hi v) := by
  have hlen : (q.buf ++ extra).length = q.buf.length + extra.length := List.length_append
  have hindex : sliceIndex lo (q.buf ++ extra).length = lo.toNat := sliceIndex_of_nonneg h0 (by omega)
  have hindex' : sliceIndex lo q.buf.length = lo.toNat := sliceIndex_of_nonneg h0 h1
  have hslice : pySlice (q.buf ++ extra) lo hi = pySlice q.buf lo hi := pySlice_longer h0 h1 h2 h3
  by_cases hv : v.length = (pySlice q.buf lo hi).length
  · have hfit : lo.toNat + v.length ≤ q.buf.length := by
      rw [pySlice_of_le h0 h1 h2 h3, length_slice] at hv
      omega
    refine ⟨?_, ?_⟩
    · rw [store, store, buf_longer, hslice, if_pos hv, if_pos hv, hindex, hindex', patch_append_left hfit]
      rfl
    · rw [store, if_pos hv, hindex']
      exact length_patch hfit
  · refine ⟨?_, ?_⟩
    · rw [store, store, buf_longer, hslice, if_neg hv, if_neg hv]
      rfl
    · rw [store, if_neg hv]
      rfl

theorem same_setInt {address len : ℕ} {v : ℤ} (h : address + len ≤ q.buf.length) :
    Same extra q (setInt address len v) :=
  (same_ofExcept _).bind fun _ q' _ hlen => by
    rw [← hlen] at h
    exact same_store (by omega) (by omega) (by omega) (by omega)

theorem same_updateDfps (h : qControlSize ≤ q.buf.length) (now : UInt64) :
    Same extra q (updateDfps now) := by
  have h64 : 64 ≤ q.buf.length := h
  rw [updateDfps]
  refine same_get_bind ?_ ?_
  · rw [lastDfpsCalcTime_longer h, dfpsIntervalMs_longer h, exeCounter_longer h]
  · split
    · exact same_pure _
    · refine (same_setInt (by simp only [dfpsLastExeCounterPointer]; omega)).bind fun _ q₁ _ h₁ => ?_
      refine same_get_bind (by rw [allocCounter_longer (by omega)]) ?_
      refine (same_setInt (by simp only [dfpsLastAllocCounterPointer]; omega)).bind fun _ q₂ _ h₂ => ?_
      exact same_setInt (by simp only [lastDfpsCalcTimePointer]; omega)

end Same

/-! ## `put` -/

theorem same_writeFrame (h : InBounds q) {frame : Bytes} (hfit : frame.length ≤ q.size - qControlSize) :
    Same extra q (writeFrame frame) := by
  have hbuf := h.buf_length
  have hge := h.alloc_ge
  have hlt := h.alloc_lt
  have hcontrol := h.control_le
  have hs : dataStartPoint = qControlSize := rfl
  have hfield : ∀ {q' : MemQueue}, q'.buf.length = q.buf.length →
      allocPointer + 4 ≤ q'.buf.length ∧ directionPointer + 1 ≤ q'.buf.length := by
    intro q' hlen
    rw [hlen]
    exact ⟨Nat.le_trans (by decide) hcontrol, Nat.le_trans (by decide) hcontrol⟩
  rw [writeFrame]
  refine same_get_bind ?_ ?_
  · rw [allocIndex_longer hcontrol, size_longer]
  · dsimp only
    split
    · refine (same_store (by omega) (by omega) (by omega) (by omega)).bind fun _ q₁ _ h₁ => ?_
      refine (same_store (by omega) (by omega) (by omega) (by omega)).bind fun _ q₂ _ h₂ => ?_
      have h₃ := h₂.trans h₁
      refine (same_setInt (hfield h₃).1).bind fun _ q₄ _ h₄ => ?_
      exact same_setInt (hfield (h₄.trans h₃)).2
    · refine (same_store (by omega) (by omega) (by omega) (by omega)).bind fun _ q₁ _ h₁ => ?_
      refine same_get_bind (by rw [allocIndex_longer (by omega)]) ?_
      refine (same_setInt (hfield h₁).1).bind fun _ q₂ _ h₂ => ?_
      exact same_setInt (hfield (h₂.trans h₁)).2

theorem same_putLocked (h : InBounds q) {body : Bytes} (hfit : frameSize body ≤ q.size - qControlSize)
    (now : UInt64) : Same extra q (putLocked body now) := by
  have hcontrol := h.control_le
  have hcrc : toBytes (crc32 body).toNat 4 = .ok (leBytes 4 (crc32 body).toNat) :=
    toBytes_natCast (crc32 body).toNat_lt
  rw [putLocked]
  rcases Nat.lt_or_ge (frameSize body) (256 ^ 4) with hsize | hsize
  swap
  · rw [toBytes_too_big hsize]
    exact (same_ofExcept _).bind fun _ _ he => by cases he
  rw [toBytes_natCast hsize, hcrc]
  refine (same_ofExcept _).bind fun _ q₁ he _ => ?_
  cases he
  refine (same_ofExcept _).bind fun _ q₁ he _ => ?_
  cases he
  refine same_get_bind rfl ?_
  rcases Nat.lt_or_ge q.frameCounter (256 ^ 4) with hnum | hnum
  swap
  · rw [toBytes_too_big hnum]
    exact (same_ofExcept _).bind fun _ _ he => by cases he
  rw [toBytes_natCast hnum]
  refine (same_ofExcept _).bind fun _ q₁ he _ => ?_
  cases he
  have hmodify : Same extra q
      (modify fun q => { q with frameCounter := q.frameCounter + 1 } : PyM MemQueue PUnit) := ⟨rfl, rfl⟩
  refine hmodify.bind fun _ q₂ he _ => ?_
  cases he
  have h₂ : InBounds { q with frameCounter := q.frameCounter + 1 } :=
    ⟨h.size_ge, h.buf_length, h.exe_ge, h.exe_le, h.alloc_ge, h.alloc_lt⟩
  refine (same_writeFrame h₂ ?_).bind fun _ q₃ _ h₃ => ?_
  · show (frameBytes body q.frameCounter).length ≤ q.size - qControlSize
    rw [length_frameBytes]
    exact hfit
  have hlen₃ : q₃.buf.length = q.buf.length := h₃
  refine (same_updateDfps (by omega) now).bind fun _ q₄ _ h₄ => ?_
  refine same_get_bind (by rw [allocCounter_longer (by omega)]) ?_
  refine (same_setInt ?_).bind fun _ q₅ _ _ => same_pure _
  rw [h₄, hlen₃]
  exact Nat.le_trans (by decide) hcontrol

/-- `put` goes through the longer mapping as through the exact one, on every queue. -/
theorem same_put (h : InBounds q) (df : Except PyError Bytes) (now : UInt64) :
    Same extra q (put df now) := by
  have hcontrol := h.control_le
  have hover : (q.longer extra).overCapacity ↔ q.overCapacity := by
    rw [overCapacity, overCapacity, freeSpace_longer hcontrol]
    rfl
  have hfits : ∀ body, (q.longer extra).fitsFree body ↔ q.fitsFree body := by
    intro body
    rw [fitsFree, fitsFree, freeSpace_longer hcontrol]
  rw [put]
  refine same_get_bind ?_ ?_
  · simp only [hover, hfits]
  · split
    · exact same_pure _
    · refine (same_ofExcept _).bind fun body q₁ he _ => ?_
      have hq₁ : q₁ = q := by
        cases df with
        | error e => cases he
        | ok body => cases he; rfl
      subst hq₁
      split
      · exact same_pure _
      · rename_i hfit
        exact same_putLocked h (h.frameSize_le (not_not.mp hfit)) now

end Upipe.MemQueue
