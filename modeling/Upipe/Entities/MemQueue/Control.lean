import Upipe.Entities.MemQueue.Defs

/-!
# The control bytes

Every control field of the queue is a little-endian integer in the first 64 bytes. `setInt_ok` reduces
a setter to `withInt`, and `SameOff lo hi` is the frame condition under which one setter leaves the
other fields and the data area alone.
-/

namespace Upipe.MemQueue

open Upipe.Common

/-- The circular data area. -/
def data (q : MemQueue) : Bytes := q.buf.drop qControlSize

/-- The queue with one integer field overwritten. -/
def withInt (q : MemQueue) (address len v : ℕ) : MemQueue :=
  { q with buf := patch q.buf address (leBytes len v) }

/-- `q'` differs from `q` only in the bytes from `lo` up to `hi`. -/
structure SameOff (lo hi : ℕ) (q q' : MemQueue) : Prop where
  attrs : q' = { q with buf := q'.buf }
  length_eq : q'.buf.length = q.buf.length
  outside : ∀ a b, b ≤ lo ∨ hi ≤ a → slice q'.buf a b = slice q.buf a b

namespace SameOff

variable {lo hi : ℕ} {q q' q'' : MemQueue}

theorem refl (q : MemQueue) : SameOff lo hi q q := ⟨rfl, rfl, fun _ _ _ => rfl⟩

theorem trans (h : SameOff lo hi q q') (h' : SameOff lo hi q' q'') : SameOff lo hi q q'' where
  attrs := by rw [h'.attrs, h.attrs]
  length_eq := h'.length_eq.trans h.length_eq
  outside a b hd := (h'.outside a b hd).trans (h.outside a b hd)

theorem mono {lo' hi' : ℕ} (h : SameOff lo hi q q') (hlo : lo' ≤ lo) (hhi : hi ≤ hi') :
    SameOff lo' hi' q q' where
  attrs := h.attrs
  length_eq := h.length_eq
  outside a b hd := h.outside a b (by omega)

/-- A field outside the changed bytes keeps its value. -/
theorem getInt (h : SameOff lo hi q q') {address len : ℕ}
    (hd : address + len ≤ lo ∨ hi ≤ address) : q'.getInt address len = q.getInt address len := by
  rw [MemQueue.getInt, MemQueue.getInt, h.outside _ _ hd]

/-- Changes to control bytes leave the data area alone. -/
theorem data (h : SameOff lo hi q q') (hhi : hi ≤ qControlSize) : q'.data = q.data := by
  have hslice := h.outside qControlSize q.buf.length (Or.inr hhi)
  rw [MemQueue.data, MemQueue.data, ← slice_to_end q.buf, ← hslice, ← h.length_eq, slice_to_end]

theorem size (h : SameOff lo hi q q') : q'.size = q.size := by rw [h.attrs]

theorem frameCounter (h : SameOff lo hi q q') : q'.frameCounter = q.frameCounter := by rw [h.attrs]

end SameOff

/-! ## Setters -/

theorem getInt_lt (q : MemQueue) (address len : ℕ) : q.getInt address len < 256 ^ len := by
  refine Nat.lt_of_lt_of_le (leValue_lt _) (Nat.pow_le_pow_right (by decide) ?_)
  rw [length_slice]
  omega

/-- A store of the right length inside the buffer overwrites it. -/
theorem store_ok {q : MemQueue} {lo hi : ℤ} {v : Bytes} (hlo : 0 ≤ lo) (hhi : hi ≤ q.buf.length)
    (hv : (v.length : ℤ) = hi - lo) :
    store lo hi v q = .ok () { q with buf := patch q.buf lo.toNat v } := by
  have hlen : v.length = (pySlice q.buf lo hi).length := by
    rw [pySlice_of_le hlo (by omega) (by omega) hhi, length_slice]
    omega
  rw [store, if_pos hlen, sliceIndex_of_nonneg hlo (by omega)]

theorem withInt_sameOff {q : MemQueue} (address len v : ℕ) (h : address + len ≤ q.buf.length) :
    SameOff address (address + len) q (q.withInt address len v) where
  attrs := rfl
  length_eq := length_patch (by rw [length_leBytes]; exact h)
  outside a b hd := slice_patch_of_disjoint (by rw [length_leBytes]; exact h)
    (by rw [length_leBytes]; exact hd)

/-- Reading back a field just set. -/
theorem getInt_withInt {q : MemQueue} {address len v : ℕ} (h : address + len ≤ q.buf.length)
    (hv : v < 256 ^ len) : (q.withInt address len v).getInt address len = v := by
  have hfit : address + (leBytes len v).length ≤ q.buf.length := by rw [length_leBytes]; exact h
  have hslice := slice_patch_self hfit
  rw [length_leBytes] at hslice
  rw [getInt, withInt, hslice, leValue_leBytes hv]

/-- A setter whose value fits its field. -/
theorem setInt_ok {q : MemQueue} {address len v : ℕ} (h : address + len ≤ q.buf.length)
    (hv : v < 256 ^ len) : setInt address len v q = .ok () (q.withInt address len v) := by
  rw [setInt, toBytes_natCast hv, bind_ok (ofExcept_ok _ q),
    store_ok (by omega) (by omega) (by rw [length_leBytes]; omega), Int.toNat_natCast, withInt]

/-- A setter whose value does not fit raises and changes nothing. -/
theorem setInt_overflow {q : MemQueue} {address len v : ℕ} (hv : 256 ^ len ≤ v) :
    setInt address len v q = .error ⟨.overflowError, "int too big to convert"⟩ q := by
  rw [setInt, toBytes_too_big hv, bind_error (ofExcept_error _ q)]

/-- Whether it returns or raises, a setter changes nothing but its field. -/
theorem setInt_sameOff {q : MemQueue} {address len : ℕ} (v : ℤ) (h : address + len ≤ q.buf.length) :
    SameOff address (address + len) q (stateOf (setInt address len v q)) := by
  rw [setInt]
  cases hbytes : toBytes v len with
  | error e =>
    rw [bind_error (ofExcept_error _ q)]
    exact .refl q
  | ok bytes =>
    rw [bind_ok (ofExcept_ok _ q), store]
    split
    · rename_i hv
      rw [pySlice_of_le (by omega) (by omega) (by omega) (by omega), length_slice] at hv
      rw [stateOf_ok, sliceIndex_of_nonneg (by omega) (by omega), Int.toNat_natCast]
      have hfit : address + bytes.length ≤ q.buf.length := by omega
      exact {
        attrs := rfl
        length_eq := length_patch hfit
        outside := fun a b hab => slice_patch_of_disjoint hfit (by omega) }
    · exact .refl q

/-- `update_dfps` never raises, and touches its own three fields only. -/
theorem updateDfps_ok {q : MemQueue} (h : qControlSize ≤ q.buf.length) (now : UInt64) :
    ∃ q', updateDfps now q = .ok () q' ∧ SameOff 46 62 q q' := by
  have h64 : 64 ≤ q.buf.length := h
  rw [updateDfps, get_bind_apply]
  split
  · exact ⟨q, rfl, .refl q⟩
  · set q₁ := q.withInt 58 4 q.exeCounter with hq₁
    have s₁ : SameOff 58 62 q q₁ := withInt_sameOff 58 4 _ (by omega)
    set q₂ := q₁.withInt 54 4 q₁.allocCounter with hq₂
    have s₂ : SameOff 54 58 q₁ q₂ := withInt_sameOff 54 4 _ (by rw [s₁.length_eq]; omega)
    have s₃ : SameOff 46 54 q₂ (q₂.withInt 46 8 now.toNat) :=
      withInt_sameOff 46 8 _ (by rw [s₂.length_eq, s₁.length_eq]; omega)
    refine ⟨q₂.withInt 46 8 now.toNat, ?_,
      ((s₁.mono (by omega) (Nat.le_refl _)).trans (s₂.mono (by omega) (by omega))).trans
        (s₃.mono (Nat.le_refl _) (by omega))⟩
    have e₁ : setInt dfpsLastExeCounterPointer 4 q.exeCounter q = .ok () q₁ :=
      setInt_ok (by simp only [dfpsLastExeCounterPointer]; omega) (getInt_lt ..)
    have e₂ : setInt dfpsLastAllocCounterPointer 4 q₁.allocCounter q₁ = .ok () q₂ :=
      setInt_ok (by rw [s₁.length_eq]; simp only [dfpsLastAllocCounterPointer]; omega)
        (getInt_lt ..)
    rw [bind_ok e₁, get_bind_apply, bind_ok e₂]
    exact setInt_ok (by rw [s₂.length_eq, s₁.length_eq]; simp only [lastDfpsCalcTimePointer]; omega)
      now.toNat_lt

end Upipe.MemQueue
