import Upipe.Entities.MemQueue.Stores

/-!
# What `put` and `get` can do

On a queue that stores some frames, `putLocked_outcome` and `getLocked_outcome` list every way the two
locked bodies can end, with the exact state they leave behind. All later results about the queue are
case analyses of these two lemmas.
-/

namespace Upipe.MemQueue

open Upipe.Common

variable {q q' : MemQueue} {frames : List Frame} {f : Frame}

/-! ## Free space -/

/-- The free space is exact as long as one byte of the data area is free. -/
theorem freeSpace_of_lt (h : Stores q frames) (hlt : used frames < q.size - qControlSize) :
    q.freeSpace = q.size - qControlSize - used frames := by
  have hge := h.exe_ge; have hexe := h.exe_lt; have hdata := h.length_data
  have halloc := h.alloc_eq
  rw [Laid.tail, ← used] at halloc
  rw [freeSpace, dataSize, halloc]
  by_cases hwrap : q.exeIndex - qControlSize + used frames < q.data.length
  · rw [Nat.mod_eq_of_lt hwrap, if_neg (by omega)]
    omega
  · rw [Nat.mod_eq_sub_mod (by omega), Nat.mod_eq_of_lt (by omega), if_pos (by omega)]
    omega

/-- When the frames fill the data area the two indices coincide, and the free space reads as if the
queue were empty. -/
theorem freeSpace_of_full (h : Stores q frames) (hfull : used frames = q.size - qControlSize) :
    q.freeSpace = q.size - qControlSize := by
  have hge := h.exe_ge; have hexe := h.exe_lt; have hdata := h.length_data
  have halloc := h.alloc_eq
  rw [Laid.tail, ← used, show used frames = q.data.length by omega, Nat.add_mod_right,
    Nat.mod_eq_of_lt h.laid.head_lt] at halloc
  rw [freeSpace, dataSize, halloc, if_neg (by omega)]
  omega

/-! ## The tests of `put` -/

/-- `put` is its tests and then, without anyone in between, its locked part. -/
theorem put_eq_putTest (df : Except PyError Bytes) (now : UInt64) (q : MemQueue) :
    q.put df now = match q.putTest df with
      | .ok (some body) => putLocked body now q
      | .ok none => .ok false q
      | .error e => .error e q := by
  rw [put, get_bind_apply, putTest]
  by_cases hover : q.overCapacity
  · rw [if_pos hover, if_pos hover]
    rfl
  · rw [if_neg hover, if_neg hover]
    cases df with
    | error e => rfl
    | ok body =>
      rw [bind_ok (ofExcept_ok _ q)]
      show _ = match (if ¬ q.fitsFree body then .ok none else .ok (some body) :
        Except PyError (Option Bytes)) with
        | .ok (some body) => putLocked body now q
        | .ok none => .ok false q
        | .error e => .error e q
      by_cases hfit : q.fitsFree body
      · rw [if_neg (not_not_intro hfit), if_neg (not_not_intro hfit)]
      · rw [if_pos hfit, if_pos hfit]
        rfl

theorem putTest_of_fits {q : MemQueue} {body : Bytes} (hover : ¬ q.overCapacity)
    (hfit : q.fitsFree body) : q.putTest (.ok body) = .ok (some body) := by
  rw [putTest, if_neg hover]
  show (if ¬ q.fitsFree body then .ok none else .ok (some body) : Except PyError (Option Bytes)) = _
  rw [if_neg (not_not_intro hfit)]

theorem putTest_eq_some {q : MemQueue} {df : Except PyError Bytes} {body : Bytes}
    (h : q.putTest df = .ok (some body)) : ¬ q.overCapacity ∧ df = .ok body ∧ q.fitsFree body := by
  rw [putTest] at h
  by_cases hover : q.overCapacity
  · rw [if_pos hover] at h
    cases h
  · rw [if_neg hover] at h
    cases df with
    | error e => cases h
    | ok arr =>
      by_cases hfit : q.fitsFree arr
      · change (if ¬ q.fitsFree arr then _ else _) = _ at h
        rw [if_neg (not_not_intro hfit)] at h
        cases h
        exact ⟨hover, rfl, hfit⟩
      · change (if ¬ q.fitsFree arr then _ else _) = _ at h
        rw [if_pos hfit] at h
        cases h

/-! ## Writing under the lock -/

/-- `q'` is `q` with `f` appended. The counters of the control area are not part of this. -/
structure Pushed (q : MemQueue) (frames : List Frame) (f : Frame) (q' : MemQueue) : Prop where
  stores : Stores q' (frames ++ [f])
  ctl : SameCtl 25 62 { q with frameCounter := q.frameCounter + 1 } q'
  exeIndex_eq : q'.exeIndex = q.exeIndex
  exeCounter_eq : q'.exeCounter = q.exeCounter

/-- The ends of `putLocked` on a queue with room for the frame. -/
inductive PutOutcome (q : MemQueue) (frames : List Frame) (body : Bytes)
    (hsize : frameSize body < 256 ^ 4) : EStateM.Result PyError MemQueue Bool → Prop
  | numOverflow {e : PyError} (hnum : 256 ^ 4 ≤ q.frameCounter) (hk : e.kind = .overflowError) :
      PutOutcome q frames body hsize (.error e q)
  | counterOverflow {e : PyError} {q' : MemQueue} (hk : e.kind = .overflowError)
      (pushed : Pushed q frames (Frame.ofBody body q.frameCounter hsize) q')
      (hfull : q.allocCounter + 1 = 256 ^ 4) (hcounter : q'.allocCounter = q.allocCounter)
      (hnum : q.frameCounter < 256 ^ 4) : PutOutcome q frames body hsize (.error e q')
  | accepted {q' : MemQueue} (hnum : q.frameCounter < 256 ^ 4)
      (pushed : Pushed q frames (Frame.ofBody body q.frameCounter hsize) q')
      (hcounter : q'.allocCounter = q.allocCounter + 1) :
      PutOutcome q frames body hsize (.ok true q')

/-- The locked body behind its write: the statistics, then the counter, which may be exhausted. -/
private theorem putLocked_of_write {q₁ : MemQueue} {body : Bytes} (hsize : frameSize body < 256 ^ 4)
    (hnum : q.frameCounter < 256 ^ 4)
    (hw : writeFrame (frameBytes body q.frameCounter) { q with frameCounter := q.frameCounter + 1 }
      = .ok () q₁)
    (hlen : qControlSize ≤ q₁.buf.length) (hcount : q₁.allocCounter = q.allocCounter)
    (now : UInt64) :
    ∃ q₂, SameOff 46 62 q₁ q₂ ∧
      ((q.allocCounter + 1 < 256 ^ 4 ∧
          putLocked body now q
            = .ok true (q₂.withInt allocCounterPointer 4 (q.allocCounter + 1))) ∨
        (q.allocCounter + 1 = 256 ^ 4 ∧
          ∃ e, e.kind = .overflowError ∧ putLocked body now q = .error e q₂)) := by
  have hcrc : (crc32 body).toNat < 256 ^ 4 := (crc32 body).toNat_lt
  obtain ⟨q₂, hu, hc₂⟩ := updateDfps_ok hlen now
  have hcount₂ : q₂.allocCounter = q.allocCounter := (hc₂.getInt (Or.inl (by decide))).trans hcount
  refine ⟨q₂, hc₂, ?_⟩
  rw [putLocked, toBytes_natCast hsize, bind_ok (ofExcept_ok _ q), toBytes_natCast hcrc,
    bind_ok (ofExcept_ok _ q), get_bind_apply, toBytes_natCast hnum, bind_ok (ofExcept_ok _ q),
    modify_bind_apply]
  rw [frameBytes] at hw
  rw [bind_ok hw, bind_ok hu, get_bind_apply, hcount₂,
    show (q.allocCounter : ℤ) + 1 = (q.allocCounter + 1 : ℕ) from by omega]
  by_cases hlast : q.allocCounter + 1 < 256 ^ 4
  · have hfield : allocCounterPointer + 4 ≤ q₂.buf.length := by
      rw [hc₂.length_eq]
      exact Nat.le_trans (by decide) hlen
    rw [bind_ok (setInt_ok hfield hlast)]
    exact Or.inl ⟨hlast, rfl⟩
  · have hlt : q.allocCounter < 256 ^ 4 := getInt_lt ..
    rw [bind_error (setInt_overflow (by omega))]
    exact Or.inr ⟨by omega, _, rfl, rfl⟩

/-- A frame number that has run out of its four bytes ends `putLocked` before it writes. -/
private theorem putLocked_numOverflow {body : Bytes} (hsize : frameSize body < 256 ^ 4)
    (hnum : 256 ^ 4 ≤ q.frameCounter) (now : UInt64) :
    ∃ e, e.kind = .overflowError ∧ putLocked body now q = .error e q := by
  have hcrc : (crc32 body).toNat < 256 ^ 4 := (crc32 body).toNat_lt
  rw [putLocked, toBytes_natCast hsize, bind_ok (ofExcept_ok _ q), toBytes_natCast hcrc,
    bind_ok (ofExcept_ok _ q), get_bind_apply, toBytes_too_big hnum, bind_error (ofExcept_error _ q)]
  exact ⟨_, rfl, rfl⟩

theorem putLocked_outcome (h : Stores q frames) {body : Bytes} (now : UInt64)
    (hfit : used frames + frameSize body ≤ q.size - qControlSize)
    (hsize : frameSize body < 256 ^ 4) :
    PutOutcome q frames body hsize (putLocked body now q) := by
  rcases Nat.lt_or_ge q.frameCounter (256 ^ 4) with hnum | hnum
  · set q₀ : MemQueue := { q with frameCounter := q.frameCounter + 1 } with hq₀
    have h₀ : Stores q₀ frames := h.congr rfl rfl rfl rfl rfl
    obtain ⟨q₁, hw, hs₁, hc₁⟩ :=
      writeFrame_stores h₀ (Frame.ofBody body q.frameCounter hsize) (by
        rw [Frame.raw_ofBody, length_frameBytes]; exact hfit)
    have hcount : q₁.allocCounter = q.allocCounter := hc₁.getInt (by decide) (Or.inr (by decide))
    obtain ⟨q₂, hc₂, hends⟩ := putLocked_of_write hsize hnum hw hs₁.control_le hcount now
    have pushed₂ : Pushed q frames (Frame.ofBody body q.frameCounter hsize) q₂ :=
      { stores := hs₁.sameOff (hc₂.mono (by decide) (by decide))
        ctl := (hc₁.mono (by decide) (by decide)).trans
          (hc₂.sameCtl.mono (by decide) (by decide))
        exeIndex_eq :=
          (hc₂.getInt (Or.inl (by decide))).trans (hc₁.getInt (by decide) (Or.inr (by decide)))
        exeCounter_eq :=
          (hc₂.getInt (Or.inl (by decide))).trans (hc₁.getInt (by decide) (Or.inr (by decide))) }
    obtain ⟨hlast, hput⟩ | ⟨hfull, e, hk, hput⟩ := hends
    · have hfield : allocCounterPointer + 4 ≤ q₂.buf.length :=
        Nat.le_trans (by decide) pushed₂.stores.control_le
      have hc₃ : SameOff 34 38 q₂ (q₂.withInt allocCounterPointer 4 (q.allocCounter + 1)) :=
        withInt_sameOff _ _ _ hfield
      rw [hput]
      exact .accepted hnum
        { stores := pushed₂.stores.sameOff (hc₃.mono (by decide) (by decide))
          ctl := pushed₂.ctl.trans (hc₃.sameCtl.mono (by decide) (by decide))
          exeIndex_eq := (hc₃.getInt (Or.inl (by decide))).trans pushed₂.exeIndex_eq
          exeCounter_eq := (hc₃.getInt (Or.inr (by decide))).trans pushed₂.exeCounter_eq }
        (getInt_withInt hfield hlast)
    · rw [hput]
      exact .counterOverflow hk pushed₂ hfull ((hc₂.getInt (Or.inl (by decide))).trans hcount) hnum
  · obtain ⟨e, hk, hput⟩ := putLocked_numOverflow hsize hnum now
    rw [hput]
    exact .numOverflow hnum hk

/-! ## Writing to any queue -/

/-- What every queue keeps, on a buffer of any size and whatever its bytes: the two indices stay in the data
area, where `exe_index` may also be its end. -/
structure InBounds (q : MemQueue) : Prop where
  size_ge : qControlSize + frameHeaderSize + 1 ≤ q.size
  buf_length : q.buf.length = q.size
  exe_ge : qControlSize ≤ q.exeIndex
  exe_le : q.exeIndex ≤ q.size
  alloc_ge : qControlSize ≤ q.allocIndex
  alloc_lt : q.allocIndex < q.size

namespace InBounds

theorem control_le (h : InBounds q) : qControlSize ≤ q.buf.length := by
  have := h.size_ge
  have := h.buf_length
  omega

/-- Changes behind the control bytes, or to those that are no index. -/
theorem sameCtl (h : InBounds q) {lo hi : ℕ} (hs : SameCtl lo hi q q') (hd : 34 ≤ lo ∨ hi ≤ 26) :
    InBounds q' := by
  have hexe : q'.exeIndex = q.exeIndex :=
    hs.getInt (by decide) (by simp only [exePointer]; omega)
  have halloc : q'.allocIndex = q.allocIndex :=
    hs.getInt (by decide) (by simp only [allocPointer]; omega)
  exact {
    size_ge := hs.size ▸ h.size_ge
    buf_length := hs.length_eq.trans (h.buf_length.trans hs.size.symm)
    exe_ge := hexe ▸ h.exe_ge
    exe_le := by rw [hexe, hs.size]; exact h.exe_le
    alloc_ge := halloc ▸ h.alloc_ge
    alloc_lt := by rw [halloc, hs.size]; exact h.alloc_lt }

/-- The free space is never more than the data area. -/
theorem freeSpace_le (h : InBounds q) : q.freeSpace ≤ q.size - qControlSize := by
  have := h.exe_le
  have := h.alloc_ge
  rw [freeSpace, dataSize]
  split <;> omega

theorem frameSize_le (h : InBounds q) {body : Bytes} (hfit : q.fitsFree body) :
    frameSize body ≤ q.size - qControlSize := by
  have := h.freeSpace_le
  have := h.size_ge
  rw [fitsFree] at hfit
  omega

theorem allocAfter_lt (h : InBounds q) (n : ℕ) : q.allocAfter n < q.size := by
  have := h.size_ge
  have := h.buf_length
  have hdata := length_data q
  have hmod : (q.allocIndex - qControlSize + n) % q.data.length < q.data.length :=
    Nat.mod_lt _ (by omega)
  rw [allocAfter]
  omega

end InBounds

/-- One of the integers that `put` writes in four bytes for a frame of size `n` does not fit them: the size,
the frame number, the new `alloc_index` or the new `alloc_counter`. -/
def Overflows (q : MemQueue) (n : ℕ) : Prop :=
  256 ^ 4 ≤ n ∨ 256 ^ 4 ≤ q.frameCounter ∨ 256 ^ 4 ≤ q.allocAfter n ∨ q.allocCounter + 1 = 256 ^ 4

instance (q : MemQueue) (n : ℕ) : Decidable (q.Overflows n) := inferInstanceAs (Decidable (_ ∨ _))

/-- On any queue, a frame that fits the data area is written, unless one of its integers overflows: then the
call raises. -/
theorem InBounds.putLocked_ends (h : InBounds q) {body : Bytes}
    (hfit : frameSize body ≤ q.size - qControlSize) (now : UInt64) :
    InBounds (stateOf (putLocked body now q)) ∧
      ((¬ q.Overflows (frameSize body) ∧ ∃ q', putLocked body now q = .ok true q') ∨
        (q.Overflows (frameSize body) ∧
          ∃ e q', e.kind = .overflowError ∧ putLocked body now q = .error e q')) := by
  -- the numbers in the order `put` writes them, each with four bytes to fit in
  rcases Nat.lt_or_ge (frameSize body) (256 ^ 4) with hsize | hsize
  swap
  · rw [putLocked, toBytes_too_big hsize, bind_error (ofExcept_error _ q)]
    exact ⟨h, Or.inr ⟨Or.inl hsize, _, _, rfl, rfl⟩⟩
  rcases Nat.lt_or_ge q.frameCounter (256 ^ 4) with hnum | hnum
  swap
  · obtain ⟨e, hk, hput⟩ := putLocked_numOverflow hsize hnum now
    rw [hput]
    exact ⟨h, Or.inr ⟨Or.inr (Or.inl hnum), e, q, hk, rfl⟩⟩
  set q₀ : MemQueue := { q with frameCounter := q.frameCounter + 1 } with hq₀
  have h₀ : InBounds q₀ := ⟨h.size_ge, h.buf_length, h.exe_ge, h.exe_le, h.alloc_ge, h.alloc_lt⟩
  obtain ⟨d, hd⟩ : ∃ d, Places q₀ (frameBytes body q.frameCounter) d :=
    writeFrame_places h₀.buf_length h₀.alloc_ge h₀.alloc_lt (by rw [length_frameBytes]; exact hfit)
  have hafter : q₀.allocAfter (frameBytes body q.frameCounter).length = q.allocAfter (frameSize body) := by
    rw [length_frameBytes]
    rfl
  rcases Nat.lt_or_ge (q.allocAfter (frameSize body)) (256 ^ 4) with hval | hval
  · have hw := (hd.writes h₀.control_le (hafter ▸ hval)).call_eq
    rw [← allocAfter, hafter] at hw
    have hctl := written_sameCtl h₀.control_le hd.length_eq (q.allocAfter (frameSize body))
    have halloc := allocIndex_written h₀.control_le hd.length_eq hval
    have hexe : (q₀.written d (q.allocAfter (frameSize body))).exeIndex = q.exeIndex :=
      hctl.getInt (by decide) (Or.inr (by decide))
    have h₁ : InBounds (q₀.written d (q.allocAfter (frameSize body))) :=
      { size_ge := h.size_ge
        buf_length := hctl.length_eq.trans h.buf_length
        exe_ge := hexe ▸ h.exe_ge
        exe_le := by rw [hexe]; exact h.exe_le
        alloc_ge := by rw [halloc]; exact Nat.le_add_right ..
        alloc_lt := by rw [halloc]; exact h.allocAfter_lt _ }
    obtain ⟨q₂, hs₂, ⟨hlast, hput⟩ | ⟨hfull, e, hk, hput⟩⟩ :=
      putLocked_of_write hsize hnum hw h₁.control_le (hctl.getInt (by decide) (Or.inr (by decide))) now
    · have h₂ := h₁.sameCtl hs₂.sameCtl (Or.inl (by decide))
      have hs₃ := withInt_sameOff (q := q₂) allocCounterPointer 4 (q.allocCounter + 1)
        (Nat.le_trans (by decide) h₂.control_le)
      rw [hput]
      refine ⟨h₂.sameCtl hs₃.sameCtl (Or.inl (by decide)), Or.inl ⟨?_, _, rfl⟩⟩
      rintro (hover | hover | hover | hover) <;> omega
    · rw [hput]
      exact ⟨h₁.sameCtl hs₂.sameCtl (Or.inl (by decide)),
        Or.inr ⟨Or.inr (Or.inr (Or.inr hfull)), e, q₂, hk, rfl⟩⟩
  · -- the frame is written, and `alloc_index` cannot move behind it
    have hindex : writeFrame (frameBytes body q.frameCounter) q₀
        = .error ⟨.overflowError, "int too big to convert"⟩ (q₀.withData d) := by
      rw [hd.call_eq, hafter, bind_error (setInt_overflow hval)]
    rw [frameBytes] at hindex
    rw [putLocked, toBytes_natCast hsize, bind_ok (ofExcept_ok _ q),
      toBytes_natCast (show (crc32 body).toNat < 256 ^ 4 from (crc32 body).toNat_lt),
      bind_ok (ofExcept_ok _ q), get_bind_apply, toBytes_natCast hnum, bind_ok (ofExcept_ok _ q),
      modify_bind_apply, bind_error hindex]
    exact ⟨h₀.sameCtl (withData_sameCtl h₀.control_le hd.length_eq) (Or.inr (by decide)),
      Or.inr ⟨Or.inr (Or.inr (Or.inl hval)), _, _, rfl, rfl⟩⟩

/-- What every queue of fewer than `2 ^ 32` bytes keeps, as long as every frame in it is one that was put. -/
structure WellFormed (q : MemQueue) : Prop where
  size_ge : qControlSize + frameHeaderSize + 1 ≤ q.size
  size_lt : q.size < 256 ^ 4
  buf_length : q.buf.length = q.size
  exe_ge : qControlSize ≤ q.exeIndex
  exe_lt : q.exeIndex < q.size
  alloc_ge : qControlSize ≤ q.allocIndex
  alloc_lt : q.allocIndex < q.size

theorem Stores.wellFormed (h : Stores q frames) : WellFormed q where
  size_ge := h.size_ge
  size_lt := h.size_lt
  buf_length := h.buf_length
  exe_ge := h.exe_ge
  exe_lt := h.exe_lt
  alloc_ge := h.alloc_ge
  alloc_lt := h.alloc_lt

theorem WellFormed.inBounds (h : WellFormed q) : InBounds q where
  size_ge := h.size_ge
  buf_length := h.buf_length
  exe_ge := h.exe_ge
  exe_le := Nat.le_of_lt h.exe_lt
  alloc_ge := h.alloc_ge
  alloc_lt := h.alloc_lt

/-- A frame number or the allocation counter has run out of its four bytes. -/
def Exhausted (q : MemQueue) : Prop := 256 ^ 4 ≤ q.frameCounter ∨ q.allocCounter + 1 = 256 ^ 4

instance (q : MemQueue) : Decidable q.Exhausted := inferInstanceAs (Decidable (_ ∨ _))

/-- On a queue of fewer than `2 ^ 32` bytes the counters are all that can overflow. -/
theorem WellFormed.overflows_iff (h : WellFormed q) {n : ℕ} (hn : n ≤ q.size - qControlSize) :
    q.Overflows n ↔ q.Exhausted := by
  have := h.size_lt
  have := h.inBounds.allocAfter_lt n
  rw [Overflows, Exhausted]
  omega

/-- On a well-formed queue, a frame that fits is written, unless a counter is exhausted: then the call
raises. -/
theorem WellFormed.putLocked_ends (h : WellFormed q) {body : Bytes} (hfit : q.fitsFree body)
    (now : UInt64) :
    (¬ q.Exhausted ∧ ∃ q', putLocked body now q = .ok true q') ∨
      (q.Exhausted ∧ ∃ e q', e.kind = .overflowError ∧ putLocked body now q = .error e q') := by
  have hle := h.inBounds.frameSize_le hfit
  rw [← h.overflows_iff hle]
  exact (h.inBounds.putLocked_ends hle now).2

/-! ## Reading under the lock -/

/-- `q'` is `q` with the first frame removed: its bytes zeroed and `exe_index` behind it. Whether the
frame was counted is not part of this. -/
structure Popped (q : MemQueue) (frames : List Frame) (q' : MemQueue) : Prop where
  stores : Stores q' frames
  ctl : SameCtl 30 62 q q'
  allocIndex_eq : q'.allocIndex = q.allocIndex
  allocCounter_eq : q'.allocCounter = q.allocCounter

/-- Setters of the counters and of the performance fields leave the removal as it is. -/
theorem Popped.sameOff {q₁ q₂ : MemQueue} (h : Popped q frames q₁) (hs : SameOff 34 62 q₁ q₂)
    (hindex : q₂.allocIndex = q₁.allocIndex) (hcounter : q₂.allocCounter = q₁.allocCounter) :
    Popped q frames q₂ where
  stores := h.stores.sameOff hs
  ctl := h.ctl.trans (hs.sameCtl.mono (by decide) (by decide))
  allocIndex_eq := hindex.trans h.allocIndex_eq
  allocCounter_eq := hcounter.trans h.allocCounter_eq

/-- The checksum field of the frame is that of its body. -/
def Frame.CrcOk (f : Frame) : Prop := f.crc = leBytes 4 (crc32 f.body).toNat

instance (f : Frame) : Decidable f.CrcOk := inferInstanceAs (Decidable (_ = _))

section Get

variable {α : Type} (fromByteArr : Bytes → Except PyError α)

/-- The ends of `getLocked` on a queue whose first frame is `f`. -/
inductive GetOutcome (q : MemQueue) (f : Frame) (frames : List Frame) :
    EStateM.Result PyError MemQueue (Option α) → Prop
  | missingWatermark {e : PyError} (hw : f.watermark ≠ waterMark) (hk : e.kind = .brokenPipeError) :
      GetOutcome q f frames (.error e q)
  | crcError {e : PyError} {q' : MemQueue} (hw : f.watermark = waterMark) (hc : ¬ f.CrcOk)
      (hk : e.kind = .brokenPipeError) (popped : Popped q frames q')
      (hcounter : q'.exeCounter = q.exeCounter) : GetOutcome q f frames (.error e q')
  | decodeError {e : PyError} {q' : MemQueue} (hw : f.watermark = waterMark) (hc : f.CrcOk)
      (hd : fromByteArr f.body = .error e) (popped : Popped q frames q')
      (hcounter : q'.exeCounter = q.exeCounter) : GetOutcome q f frames (.error e q')
  | counterOverflow {e : PyError} {q' : MemQueue} {a : α} (hw : f.watermark = waterMark)
      (hc : f.CrcOk) (hd : fromByteArr f.body = .ok a) (hk : e.kind = .overflowError)
      (popped : Popped q frames q') (hfull : q.exeCounter + 1 = 256 ^ 4)
      (hcounter : q'.exeCounter = q.exeCounter) : GetOutcome q f frames (.error e q')
  | returned {q' : MemQueue} {a : α} (hw : f.watermark = waterMark) (hc : f.CrcOk)
      (hd : fromByteArr f.body = .ok a) (popped : Popped q frames q')
      (hcounter : q'.exeCounter = q.exeCounter + 1) : GetOutcome q f frames (.ok (some a) q')

/-- The status byte of a header is `CREATED`. -/
def Created (header : Bytes) : Prop := header[frameStatusOffset]? = some frameCreated

instance (header : Bytes) : Decidable (Created header) := inferInstanceAs (Decidable (_ = _))

/-- The watermark of a header is in place. -/
def Marked (header : Bytes) : Prop :=
  slice header frameWatermarkOffset (frameWatermarkOffset + 8) = waterMark

instance (header : Bytes) : Decidable (Marked header) := inferInstanceAs (Decidable (_ = _))

/-- The frame size in a header. -/
def declaredSize (header : Bytes) : ℕ := leValue (slice header frameSizeOffset (frameSizeOffset + 4))

/-- On an empty queue the status byte is zero, so the locked body finds nothing. -/
theorem getLocked_nil (h : Lies q []) (now : UInt64) :
    getLocked fromByteArr now q = .ok none q := by
  rw [getLocked, get_bind_apply, readFrameHeader_nil h]
  rfl

/-- Without a header that is marked as created the locked body changes nothing. -/
theorem stateOf_getLocked_of_not_created (h : ¬ Created q.readFrameHeader) (now : UInt64) :
    stateOf (getLocked fromByteArr now q) = q := by
  rw [getLocked, get_bind_apply]
  cases hstatus : byteAt q.readFrameHeader frameStatusOffset with
  | error e => rfl
  | ok status =>
    rw [bind_ok (ofExcept_ok _ q), if_pos]
    · rfl
    · rintro rfl
      rw [byteAt] at hstatus
      split at hstatus
      · rename_i hb
        exact h (hb.trans (congrArg some (Except.ok.inj hstatus)))
      · cases hstatus

/-- A header that is marked as created: its watermark decides whether its frame is taken. -/
theorem getLocked_of_created (h : Created q.readFrameHeader) (now : UInt64) :
    getLocked fromByteArr now q
      = (if ¬ Marked q.readFrameHeader then
          throw ⟨.brokenPipeError, s!"Missing watermark on index:{slice q.readFrameHeader
            frameWatermarkOffset (frameWatermarkOffset + 8)} @ {q.exeIndex}"⟩
        else do
          let frameData ← ofExcept (q.readFrameData ((declaredSize q.readFrameHeader : ℤ) - frameHeaderSize))
          clearExecutedFrame (declaredSize q.readFrameHeader)
          updateExecutionIndex (declaredSize q.readFrameHeader)
          finishGet fromByteArr (slice q.readFrameHeader frameCrc32Offset (frameCrc32Offset + 4)) frameData
            q.exeIndex now : PyM MemQueue (Option α)) q := by
  have hstatus : byteAt q.readFrameHeader frameStatusOffset = .ok frameCreated := by
    rw [byteAt, show q.readFrameHeader[frameStatusOffset]? = _ from h]
  rw [getLocked, get_bind_apply, hstatus, bind_ok (ofExcept_ok _ q), if_neg (fun hne => hne rfl)]
  rfl

/-- The header of the frame in front. -/
theorem header_cons (h : Lies q (f :: frames)) :
    Created q.readFrameHeader ∧ (Marked q.readFrameHeader ↔ f.watermark = waterMark) ∧
      declaredSize q.readFrameHeader = f.raw.length ∧
      slice q.readFrameHeader frameCrc32Offset (frameCrc32Offset + 4) = f.crc := by
  have hfield : ∀ a b, b ≤ frameHeaderSize →
      slice q.readFrameHeader a b = slice f.raw a b := by
    intro a b hb
    rw [readFrameHeader_cons h, slice, slice, List.take_take, Nat.min_eq_left hb]
  refine ⟨?_, ?_, ?_, hfield _ _ (by decide)⟩
  · rw [Created, readFrameHeader_cons h, List.getElem?_take, if_pos (by decide), f.created]
  · rw [Marked, hfield _ _ (by decide)]
    rfl
  · rw [declaredSize, hfield _ _ (by decide), f.size_eq]

/-- A body that decodes, with its own checksum in the header, is counted and returned while the counter
lasts. -/
theorem finishGet_ok {body : Bytes} {a : α} (hlen : qControlSize ≤ q.buf.length)
    (hd : fromByteArr body = .ok a) (hlast : q.exeCounter + 1 < 256 ^ 4) (startExeIndex : ℕ)
    (now : UInt64) :
    ∃ q', finishGet fromByteArr (leBytes 4 (crc32 body).toNat) body startExeIndex now q
        = .ok (some a) q' ∧
      SameOff 38 62 q q' ∧ q'.exeCounter = q.exeCounter + 1 := by
  obtain ⟨q₂, hu, hc₂⟩ := updateDfps_ok hlen now
  have hcount₂ : q₂.exeCounter = q.exeCounter := hc₂.getInt (Or.inl (by decide))
  have hfit : exeCounterPointer + 4 ≤ q₂.buf.length := by
    rw [hc₂.length_eq]
    exact Nat.le_trans (by decide) hlen
  have hc₃ : SameOff 38 42 q₂ (q₂.withInt exeCounterPointer 4 (q.exeCounter + 1)) :=
    withInt_sameOff _ _ _ hfit
  refine ⟨_, ?_, (hc₂.mono (by decide) (by decide)).trans (hc₃.mono (by decide) (by decide)),
    getInt_withInt hfit hlast⟩
  rw [finishGet, toBytes_natCast (crc32 body).toNat_lt, bind_ok (ofExcept_ok _ q),
    if_neg (fun hne => hne rfl), hd, bind_ok (ofExcept_ok _ q), bind_ok hu, get_bind_apply, hcount₂,
    show (q.exeCounter : ℤ) + 1 = (q.exeCounter + 1 : ℕ) from by omega, bind_ok (setInt_ok hfit hlast)]
  rfl

/-- What is left once the first frame is out of the ring: the checksum, the decoder, the counter. -/
private theorem finishGet_outcome {q₁ : MemQueue} (hw : f.watermark = waterMark)
    (popped₁ : Popped q frames q₁) (hcount₁ : q₁.exeCounter = q.exeCounter) (startExeIndex : ℕ)
    (now : UInt64) :
    GetOutcome fromByteArr q f frames
      (finishGet fromByteArr f.crc f.body startExeIndex now q₁) := by
  have hcrc : toBytes (crc32 f.body).toNat 4 = .ok (leBytes 4 (crc32 f.body).toNat) :=
    toBytes_natCast (crc32 f.body).toNat_lt
  by_cases hc : f.CrcOk
  · cases hd : fromByteArr f.body with
    | error e =>
      rw [finishGet, hcrc, bind_ok (ofExcept_ok _ q₁), if_neg (fun hne => hne hc), hd,
        bind_error (ofExcept_error _ q₁)]
      exact .decodeError hw hc hd popped₁ hcount₁
    | ok a =>
      by_cases hlast : q₁.exeCounter + 1 < 256 ^ 4
      · obtain ⟨q₂, hfinish, hc₂, hcount₂⟩ :=
          finishGet_ok fromByteArr popped₁.stores.control_le hd hlast startExeIndex now
        rw [show f.crc = _ from hc, hfinish]
        exact .returned hw hc hd
          (popped₁.sameOff (hc₂.mono (by decide) (by decide)) (hc₂.getInt (Or.inl (by decide)))
            (hc₂.getInt (Or.inl (by decide))))
          (hcount₁ ▸ hcount₂)
      · obtain ⟨q₂, hu, hc₂⟩ := updateDfps_ok popped₁.stores.control_le now
        have hcount₂ : q₂.exeCounter = q₁.exeCounter := hc₂.getInt (Or.inl (by decide))
        have hlt : q₁.exeCounter < 256 ^ 4 := getInt_lt ..
        rw [finishGet, hcrc, bind_ok (ofExcept_ok _ q₁), if_neg (fun hne => hne hc), hd,
          bind_ok (ofExcept_ok _ q₁), bind_ok hu, get_bind_apply, hcount₂,
          show (q₁.exeCounter : ℤ) + 1 = (q₁.exeCounter + 1 : ℕ) from by omega,
          bind_error (setInt_overflow (by omega))]
        exact .counterOverflow hw hc hd rfl
          (popped₁.sameOff (hc₂.mono (by decide) (by decide)) (hc₂.getInt (Or.inl (by decide)))
            (hc₂.getInt (Or.inl (by decide)))) (by omega) (hcount₂.trans hcount₁)
  · rw [finishGet, hcrc, bind_ok (ofExcept_ok _ q₁),
      if_pos (show f.crc ≠ leBytes 4 (crc32 f.body).toNat from hc)]
    exact .crcError hw hc rfl popped₁ hcount₁

/-- With a frame in front, and an address behind it that fits `exe_index`, the locked body takes the frame
out of the ring and goes on with its checksum. -/
theorem getLocked_cons (h : Lies q (f :: frames)) (hw : f.watermark = waterMark)
    (hval : q.addressBehind f < 256 ^ 4) (now : UInt64) :
    ∃ q₁, Lies q₁ frames ∧ SameCtl 30 34 q q₁ ∧ q₁.exeIndex = q.addressBehind f ∧
      getLocked fromByteArr now q = finishGet fromByteArr f.crc f.body q.exeIndex now q₁ := by
  obtain ⟨hcreated, hmarked, hsize, hcrc⟩ := header_cons h
  obtain ⟨q₀, q₁, hclear, hupdate, hl₁, hc₁, hexe₁⟩ := clear_and_advance h hval
  refine ⟨q₁, hl₁, hc₁, hexe₁, ?_⟩
  rw [getLocked_of_created fromByteArr hcreated, if_neg (fun hne => hne (hmarked.mpr hw)), hsize, hcrc,
    readFrameData_cons h, bind_ok (ofExcept_ok _ q), bind_ok hclear, bind_ok hupdate]

theorem getLocked_outcome (h : Stores q (f :: frames)) (now : UInt64) :
    GetOutcome fromByteArr q f frames (getLocked fromByteArr now q) := by
  by_cases hw : f.watermark = waterMark
  · obtain ⟨q₁, hl₁, hc₁, -, heq⟩ := getLocked_cons fromByteArr h.lies hw h.addressBehind_lt now
    rw [heq]
    refine finishGet_outcome fromByteArr hw ?_ (hc₁.getInt (by decide) (Or.inr (by decide))) _ now
    exact {
      stores := hl₁.stores (by rw [hc₁.size]; exact h.size_lt)
      ctl := hc₁.mono (by decide) (by decide)
      allocIndex_eq := hc₁.getInt (by decide) (Or.inl (by decide))
      allocCounter_eq := hc₁.getInt (by decide) (Or.inr (by decide)) }
  · obtain ⟨hcreated, hmarked, -⟩ := header_cons h.lies
    rw [getLocked_of_created fromByteArr hcreated, if_pos (mt hmarked.mp hw)]
    exact .missingWatermark hw rfl

/-- A locked read removes the first frame, if there is one. -/
theorem getLocked_stores (h : Stores q frames) (hw : ∀ f ∈ frames, f.watermark = waterMark)
    (now : UInt64) :
    Stores (stateOf (getLocked fromByteArr now q)) frames.tail ∧
      stateOf (getLocked fromByteArr now q)
        = { q with buf := (stateOf (getLocked fromByteArr now q)).buf } := by
  cases frames with
  | nil =>
    rw [getLocked_nil fromByteArr h.lies]
    exact ⟨h, rfl⟩
  | cons f frames =>
    have hout := getLocked_outcome fromByteArr h now
    revert hout
    generalize getLocked fromByteArr now q = r
    intro hout
    cases hout with
    | missingWatermark hne _ => exact absurd (hw f List.mem_cons_self) hne
    | crcError _ _ _ popped _ => exact ⟨popped.stores, popped.ctl.attrs⟩
    | decodeError _ _ _ popped _ => exact ⟨popped.stores, popped.ctl.attrs⟩
    | counterOverflow _ _ _ _ popped _ _ => exact ⟨popped.stores, popped.ctl.attrs⟩
    | returned _ _ _ popped _ => exact ⟨popped.stores, popped.ctl.attrs⟩

end Get

end Upipe.MemQueue
