import Mathlib.Data.Nat.ModEq
import Upipe.Entities.DataFrame.Frame
import Upipe.Entities.MemQueue.Holds

/-!
# When `get` raises

`get` clears the frame and moves `exe_index` before it checks the sum and decodes the body, and counts
the frame last. A `get` that raises at the watermark leaves the queue alone; one that raises later has
removed the frame without counting it, so that `pending_counter` is one too high from then on.
-/

namespace Upipe.MemQueue

open Upipe.Common

/-- The first frame is gone for good: its bytes are cleared, `exe_index` is behind it, and it is
counted. -/
structure Consumed (q : MemQueue) (f : Frame) (frames : List Frame) (q' : MemQueue) : Prop where
  stores : Stores q' frames
  exeIndex_eq : q'.exeIndex
    = qControlSize + (q.exeIndex - qControlSize + f.raw.length) % (q.size - qControlSize)
  exeCounter_eq : q'.exeCounter = q.exeCounter + 1
  pending : q'.pendingCounter = frames.length

/-- What a raising `get` may leave behind: the queue as it was, or without its first frame. -/
def Consistent (q : MemQueue) (f : Frame) (frames : List Frame) (q' : MemQueue) : Prop :=
  q'.buf = q.buf ∨ Consumed q f frames q'

variable {q q' : MemQueue} {f : Frame} {frames : List Frame}

/-- The bytes tell whether a frame is there or not. -/
theorem Stores.not_tail (h : Stores q (f :: frames)) : ¬ Stores q frames := by
  intro h'
  have htail : Laid.tail q.data (q.exeIndex - qControlSize) (contents (f :: frames))
      = Laid.tail q.data (q.exeIndex - qControlSize) (contents frames) :=
    Nat.add_left_cancel (h.alloc_eq.symm.trans h'.alloc_eq)
  have hpos := f.length_pos
  have hle := h.used_le
  rw [used_cons] at hle
  have hdata := h.length_data
  have hhead := h.laid.head_lt
  -- with `alloc_index` the same, the first frame would fill the whole data area
  have hfull : f.raw.length = q.data.length ∧ used frames = 0 := by
    rw [Laid.tail, Laid.tail, contents_cons, List.length_append, ← used] at htail
    have hmod : (f.raw.length + (q.exeIndex - qControlSize + used frames))
        ≡ 0 + (q.exeIndex - qControlSize + used frames) [MOD q.data.length] := by
      rw [Nat.ModEq, Nat.zero_add, Nat.add_left_comm]
      exact htail
    have hdvd : q.data.length ∣ f.raw.length :=
      (Nat.modEq_zero_iff_dvd).mp (Nat.ModEq.add_right_cancel' _ hmod)
    have := Nat.le_of_dvd hpos hdvd
    omega
  have hnil : frames = [] := by
    cases frames with
    | nil => rfl
    | cons g frames =>
      have := g.length_pos
      have := hfull.2
      rw [used_cons] at this
      omega
  subst hnil
  have hheader := readFrameHeader_cons h.lies
  rw [readFrameHeader_nil h'.lies] at hheader
  have hstatus := f.created
  rw [← List.getElem?_take_of_lt (show frameStatusOffset < frameHeaderSize by decide), ← hheader]
    at hstatus
  cases hstatus

/-- Removing the first frame moves `exe_index` by its size. -/
theorem Popped.exeIndex_eq (h : Stores q (f :: frames)) (hp : Popped q frames q') :
    q'.exeIndex
      = qControlSize + (q.exeIndex - qControlSize + f.raw.length) % (q.size - qControlSize) := by
  have hdata := h.length_data
  have hdata' := hp.stores.length_data
  have hsize := hp.ctl.size
  have hge := hp.stores.exe_ge
  have hhead := hp.stores.laid.head_lt
  have halloc := hp.stores.alloc_eq
  rw [hp.allocIndex_eq, h.alloc_eq, Laid.tail, Laid.tail, contents_cons, List.length_append,
    ← Nat.add_assoc, hdata', hsize, hdata] at halloc
  have hmod : q.exeIndex - qControlSize + f.raw.length + (contents frames).length
      ≡ q'.exeIndex - qControlSize + (contents frames).length [MOD q.size - qControlSize] :=
    Nat.add_left_cancel halloc
  have hcancel := Nat.ModEq.add_right_cancel' _ hmod
  rw [Nat.ModEq, Nat.mod_eq_of_lt (show q'.exeIndex - qControlSize < _ by omega)] at hcancel
  omega

/-- A frame removed but not counted: the queue is neither as before nor rid of the frame. -/
theorem Popped.not_consistent (h : Stores q (f :: frames)) (hp : Popped q frames q')
    (hcounter : q'.exeCounter = q.exeCounter) : ¬ Consistent q f frames q' := by
  rintro (hsame | hconsumed)
  · have heq : q' = q := by rw [hp.ctl.attrs, hsame]
    exact h.not_tail (heq ▸ hp.stores)
  · have := hconsumed.exeCounter_eq
    omega

section Get

variable {α : Type} {fromByteArr : Bytes → Except PyError α}

/-- A body that does not check or does not decode is removed without being counted. -/
theorem get_raises_popped (h : Stores q (f :: frames))
    (hcount : q.allocCounter = q.exeCounter + (f :: frames).length) (now : UInt64)
    (hw : f.watermark = waterMark) (hbad : ¬ (f.CrcOk ∧ ∃ a, fromByteArr f.body = .ok a)) :
    ∃ e q', get fromByteArr now q = .error e q' ∧ Popped q frames q' ∧
      q'.exeCounter = q.exeCounter := by
  rw [get_cons fromByteArr hcount]
  have hout := getLocked_outcome fromByteArr h now
  revert hout
  generalize getLocked fromByteArr now q = r
  intro hout
  cases hout with
  | missingWatermark hw' _ => exact absurd hw hw'
  | crcError _ _ _ popped hcounter => exact ⟨_, _, rfl, popped, hcounter⟩
  | decodeError _ _ _ popped hcounter => exact ⟨_, _, rfl, popped, hcounter⟩
  | counterOverflow _ hc hd _ _ _ _ => exact absurd ⟨hc, _, hd⟩ hbad
  | returned _ hc hd _ _ => exact absurd ⟨hc, _, hd⟩ hbad

/-- A `get` that returns a frame has consumed it. -/
theorem get_some_consumed (h : Stores q (f :: frames))
    (hcount : q.allocCounter = q.exeCounter + (f :: frames).length) {now : UInt64} {a : α}
    (hget : get fromByteArr now q = .ok (some a) q') : Consumed q f frames q' := by
  have hout := getLocked_outcome fromByteArr h now
  rw [← get_cons fromByteArr hcount, hget] at hout
  cases hout with
  | returned _ _ _ popped hcounter =>
    rw [List.length_cons] at hcount
    exact {
      stores := popped.stores
      exeIndex_eq := popped.exeIndex_eq h
      exeCounter_eq := hcounter
      pending := by
        rw [pendingCounter, popped.allocCounter_eq, hcounter, hcount]
        omega }

/-- A raising `get` leaves the queue consistent exactly when it raises at the watermark or not at all:
with the watermark in place, a body that fails its checksum or its decoder breaks the count. -/
theorem get_consistent_iff (h : Stores q (f :: frames))
    (hcount : q.allocCounter = q.exeCounter + (f :: frames).length) (now : UInt64) :
    (∀ e q', get fromByteArr now q = .error e q' → Consistent q f frames q')
      ↔ f.watermark ≠ waterMark ∨ (f.CrcOk ∧ ∃ a, fromByteArr f.body = .ok a) := by
  constructor
  · intro hall
    by_contra hcond
    rw [not_or, not_not] at hcond
    obtain ⟨e, q', hget, hpopped, hcounter⟩ := get_raises_popped h hcount now hcond.1 hcond.2
    exact hpopped.not_consistent h hcounter (hall e q' hget)
  · intro hcond e q' hget
    have hout := getLocked_outcome fromByteArr h now
    rw [← get_cons fromByteArr hcount, hget] at hout
    cases hout with
    | missingWatermark _ _ => exact Or.inl rfl
    | crcError hw hc _ _ _ => exact (hcond.elim (absurd hw) (fun hgood => absurd hgood.1 hc))
    | decodeError hw _ hd _ _ =>
      rcases hcond with hcond | ⟨-, a, ha⟩
      · exact absurd hw hcond
      · rw [hd] at ha
        cases ha
    | counterOverflow _ _ _ _ _ hfull _ =>
      -- the allocation counter is ahead and has only four bytes
      have halloc : q.allocCounter < 256 ^ 4 := getInt_lt ..
      rw [List.length_cons] at hcount
      omega

end Get

/-- A fresh queue with one frame on it, for the runs below. -/
theorem exists_one_frame (body : Bytes) (hsize : frameSize body < 136) :
    ∃ q₀ q f, create (queueOfSize 200) = .ok q₀ ∧ q₀.put (.ok body) 0 = .ok true q ∧
      Stores q [f] ∧ f.Intact ∧ f.body = body ∧ q.allocCounter = q.exeCounter + [f].length := by
  obtain ⟨q₀, hq₀, hholds, -, halloc, hnum⟩ := create_holds (queueOfSize 200) (by decide) (by decide)
  have hover : ¬ q₀.overCapacity := of_create (fun q => ¬ q.overCapacity) hq₀ (by decide +kernel)
  have hfree : q₀.freeSpace = 136 := of_create (fun q => q.freeSpace = 136) hq₀ (by decide +kernel)
  have hfit : (frameSize body : ℤ) < q₀.freeSpace := by omega
  obtain ⟨q, hlt, hput, hq, -⟩ := hholds.put_ok 0 hover hfit (by omega) (by omega)
  have hf : (Frame.ofBody body q₀.frameCounter hlt).Intact := Frame.intact_ofBody hlt
  exact ⟨q₀, q, _, hq₀, hput, hq.toStores, hf, Frame.body_ofBody hlt, hq.counted⟩

/-- With a decoder that takes the body, `get` leaves the queue consistent. -/
theorem get_consistent_one_byte :
    ∃ q₀ q f, create (queueOfSize 200) = .ok q₀ ∧ q₀.put (.ok [7]) 0 = .ok true q ∧
      ∀ e q', get (fun arr => (.ok arr : Except PyError Bytes)) 0 q = .error e q' →
        Consistent q f [] q' := by
  obtain ⟨q₀, q, f, hq₀, hput, hstores, hf, -, hcount⟩ := exists_one_frame [7] (by decide)
  exact ⟨q₀, q, f, hq₀, hput, (get_consistent_iff hstores hcount 0).mpr (Or.inr ⟨hf.crcOk, _, rfl⟩)⟩

/-! ## A frame that encodes and does not decode -/

/-- A codec with one registered type of the user's own, under id 101. -/
def customTypes : Codec where
  dumps _ := .error ⟨.typeError, "not JSON serializable"⟩
  loads _ := .error ⟨.valueError, "Expecting value"⟩
  typeHandlers := (builtinHandlers ⟨fun _ => .ok [], fun _ => .ok .none⟩).set 101
    (some ⟨fun _ => .ok [1], fun _ => .ok (.int 1)⟩)

/-- A frame with one field of the registered type. -/
def customFrame : DataFrame := DataFrame.empty.setField { key := "k", value := .int 1, dType := 101 }

/-- The bytes of `customFrame`. -/
def customBody : Bytes := [1, 8, 0, 0, 0, 101, 1, 107, 1, 0, 0, 0, 1]

example : customFrame.toByteArr customTypes = .ok customBody := by rfl

/-- The decoder only takes `DType` members, and 101 is none. -/
theorem customBody_not_decoded :
    DataFrame.fromByteArr customTypes customBody = .error ⟨.valueError, "101 is not a valid DType"⟩ := by
  show DataFrame.fieldsFromByteArr customTypes customBody .empty 1 = _
  rw [DataFrame.fieldsFromByteArr]
  rfl

/-- The consumer's `get` raises and leaves a queue that counts a frame it no longer holds. -/
theorem undecodable_frame_miscounted :
    ∃ q₀ q f, create (queueOfSize 200) = .ok q₀ ∧
      q₀.put (customFrame.toByteArr customTypes) 0 = .ok true q ∧
      Stores q [f] ∧ q.pendingCounter = 1 ∧
      ∃ e q', get (DataFrame.fromByteArr customTypes) 0 q = .error e q' ∧
        ¬ Consistent q f [] q' ∧ Stores q' [] ∧ q'.pendingCounter = 1 := by
  obtain ⟨q₀, q, f, hq₀, hput, hstores, hf, hbody, hcount⟩ :=
    exists_one_frame customBody (by decide)
  have hdecode : ¬ ∃ frame, DataFrame.fromByteArr customTypes f.body = .ok frame := by
    rintro ⟨frame, hframe⟩
    rw [hbody, customBody_not_decoded] at hframe
    cases hframe
  obtain ⟨e, q', hget, hpopped, hcounter⟩ := get_raises_popped hstores hcount 0 hf.watermark_eq
    (fun hgood => hdecode hgood.2)
  rw [List.length_singleton] at hcount
  refine ⟨q₀, q, f, hq₀, hput, hstores, ?_, e, q', hget, hpopped.not_consistent hstores hcounter,
    hpopped.stores, ?_⟩
  · rw [pendingCounter]
    omega
  · rw [pendingCounter, hpopped.allocCounter_eq, hcounter]
    omega

end Upipe.MemQueue
