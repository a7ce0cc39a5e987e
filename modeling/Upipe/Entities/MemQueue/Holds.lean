import Upipe.Entities.MemQueue.Carries

/-!
# The queue as a list of frames

`Holds q frames` is the abstraction relation of a healthy queue: the layout invariant, every frame
intact, the counters apart by the number of frames, and at least one byte of the data area free, so
that the indices alone tell how full the queue is. A freshly created queue holds no frames, `put`
appends one or refuses, and `get` returns the first.

One put leaves this relation: the frame that fills the free space exactly (`put_exact`).
-/

namespace Upipe.MemQueue

open Upipe.Common

/-- A healthy queue that holds exactly `frames`. -/
structure Holds (q : MemQueue) (frames : List Frame) : Prop extends Stores q frames where
  intact : ∀ f ∈ frames, f.Intact
  free : used frames < q.size - qControlSize
  counted : q.allocCounter = q.exeCounter + frames.length

theorem Holds.carries {q : MemQueue} {frames : List Frame} (h : Holds q frames) : Carries q frames where
  toStores := h.toStores
  intact := h.intact
  counted := h.counted

/-- Frames that are carried are held while a byte is free. -/
theorem Carries.holds {q : MemQueue} {frames : List Frame} (h : Carries q frames)
    (hfree : used frames < q.size - qControlSize) : Holds q frames where
  toStores := h.toStores
  intact := h.intact
  free := hfree
  counted := h.counted

/-- The object that looks at the memory does not matter. -/
theorem Holds.congr {q q' : MemQueue} {frames : List Frame} (h : Holds q frames) (hsize : q'.size = q.size)
    (hbuf : q'.buf = q.buf) : Holds q' frames where
  toStores := by
    have hint (address len : ℕ) : q'.getInt address len = q.getInt address len := by rw [getInt, hbuf, getInt]
    exact h.toStores.congr hsize (congrArg _ hbuf) (hint ..) (hint ..) (by rw [MemQueue.data, hbuf, MemQueue.data])
  intact := h.intact
  free := by rw [hsize]; exact h.free
  counted := by
    rw [allocCounter, exeCounter, getInt, getInt, hbuf]
    exact h.counted

/-- The performance fields do not matter. -/
theorem Holds.sameOff {q q' : MemQueue} {frames : List Frame} (h : Holds q frames) (hs : SameOff 42 62 q q') :
    Holds q' frames where
  toStores := h.toStores.sameOff (hs.mono (by decide) (by decide))
  intact := h.intact
  free := by rw [hs.size]; exact h.free
  counted := by
    rw [allocCounter, exeCounter, hs.getInt (Or.inl (by decide)), hs.getInt (Or.inl (by decide))]
    exact h.counted

/-! ## Creation -/

private theorem leValue_replicate_zero (n : ℕ) : leValue (List.replicate n 0) = 0 := by
  induction n with
  | zero => rfl
  | succ n ih => rw [List.replicate_succ, leValue, ih]; rfl

/-- The queue object on a zeroed buffer, before its control bytes are set. -/
def blank (api : APIQueue) : MemQueue :=
  { qid := api.id, fromP := api.fromP, toP := api.toP, host := api.host, size := api.size.toNat,
    buf := List.replicate api.size.toNat 0, frameCounter := 0 }

private theorem getInt_blank (api : APIQueue) (address len : ℕ) : (blank api).getInt address len = 0 := by
  rw [getInt, slice, blank, List.take_replicate, List.drop_replicate, leValue_replicate_zero]

/-- `create` sets five control fields: the indices are at the start of the data area, the counters at
zero. -/
theorem create_sets (api : APIQueue) (hge : 97 ≤ api.size) :
    ∃ q, create api = .ok q ∧ SameOff 24 46 (blank api) q ∧ q.exeIndex = 64 ∧ q.allocIndex = 64 ∧
      q.allocCounter = 0 ∧ q.exeCounter = 0 := by
  set q₀ := blank api with hq₀
  have hlen₀ : q₀.buf.length = api.size.toNat := List.length_replicate ..
  set q₁ := q₀.withInt statusPointer 1 1 with hq₁
  have s₁ : SameOff 24 25 q₀ q₁ := withInt_sameOff 24 1 1 (by omega)
  set q₂ := q₁.withInt directionPointer 1 1 with hq₂
  have hlen₁ := s₁.length_eq.trans hlen₀
  have s₂ : SameOff 25 26 q₁ q₂ := withInt_sameOff 25 1 1 (by omega)
  have hlen₂ := s₂.length_eq.trans hlen₁
  set q₃ := q₂.withInt allocPointer 4 64 with hq₃
  have s₃ : SameOff 26 30 q₂ q₃ := withInt_sameOff 26 4 64 (by omega)
  have hlen₃ := s₃.length_eq.trans hlen₂
  set q₄ := q₃.withInt exePointer 4 64 with hq₄
  have s₄ : SameOff 30 34 q₃ q₄ := withInt_sameOff 30 4 64 (by omega)
  have hlen₄ := s₄.length_eq.trans hlen₃
  set q₅ := q₄.withInt dfpsCalcInterval 4 1000 with hq₅
  have s₅ : SameOff 42 46 q₄ q₅ := withInt_sameOff 42 4 1000 (by omega)
  have hcreate : create api = .ok q₅ := by
    have e₁ : setInt statusPointer 1 lockOpen q₀ = .ok () q₁ :=
      setInt_ok (by simp only [statusPointer]; omega) (by decide)
    have e₂ : setInt directionPointer 1 QDirection.normal.value q₁ = .ok () q₂ :=
      setInt_ok (by simp only [directionPointer]; omega) (by decide)
    have e₃ : setInt allocPointer 4 dataStartPoint q₂ = .ok () q₃ :=
      setInt_ok (by simp only [allocPointer]; omega) (by decide)
    have e₄ : setInt exePointer 4 dataStartPoint q₃ = .ok () q₄ :=
      setInt_ok (by simp only [exePointer]; omega) (by decide)
    have e₅ : setInt dfpsCalcInterval 4 (1000 : ℕ) q₄ = .ok () q₅ :=
      setInt_ok (by simp only [dfpsCalcInterval]; omega) (by decide)
    rw [create, if_neg (by simp only [qControlSize, frameHeaderSize]; omega)]
    dsimp only
    rw [← blank, ← hq₀, bind_ok e₁, bind_ok e₂, bind_ok e₃, bind_ok e₄]
    erw [e₅]
  have sIndices : SameOff 24 34 q₀ q₄ :=
    (((s₁.mono (by decide) (by decide)).trans (s₂.mono (by decide) (by decide))).trans
      (s₃.mono (by decide) (by decide))).trans (s₄.mono (by decide) (by decide))
  refine ⟨q₅, hcreate, (sIndices.mono (by decide) (by decide)).trans (s₅.mono (by decide) (by decide)),
    ?_, ?_, ?_, ?_⟩
  · rw [exeIndex, s₅.getInt (Or.inl (by decide))]
    exact getInt_withInt (by simp only [exePointer]; omega) (by decide)
  · rw [allocIndex, s₅.getInt (Or.inl (by decide)), s₄.getInt (Or.inl (by decide))]
    exact getInt_withInt (by simp only [allocPointer]; omega) (by decide)
  · -- the counters lie between the fields that are set
    rw [allocCounter, s₅.getInt (Or.inl (by decide)), sIndices.getInt (Or.inr (by decide)),
      getInt_blank]
  · rw [exeCounter, s₅.getInt (Or.inl (by decide)), sIndices.getInt (Or.inr (by decide)),
      getInt_blank]

/-- A size that the constructor accepts yields a queue that holds nothing, with its counters at
zero. -/
theorem create_holds (api : APIQueue) (hge : 97 ≤ api.size) (hlt : api.size < 256 ^ 4) :
    ∃ q, create api = .ok q ∧ Holds q [] ∧ q.size = api.size.toNat ∧ q.allocCounter = 0 ∧
      q.frameCounter = 0 := by
  obtain ⟨q, hcreate, hs, hexe, halloc, hac, hec⟩ := create_sets api hge
  have hsize : q.size = api.size.toNat := hs.size
  have hdata : q.data = List.replicate (api.size.toNat - qControlSize) 0 := by
    rw [hs.data (by decide), MemQueue.data, blank, List.drop_replicate]
  refine ⟨q, hcreate, ?_, hsize, hac, hs.frameCounter⟩
  exact {
    size_ge := by rw [hsize]; simp only [qControlSize, frameHeaderSize]; omega
    size_lt := by rw [hsize]; omega
    buf_length := by rw [hs.length_eq, hsize]; exact List.length_replicate ..
    exe_ge := by rw [hexe]; decide
    laid := by
      rw [hdata, hexe]
      exact Laid.replicate (by simp only [qControlSize]; omega)
    alloc_eq := by
      rw [halloc, hexe, Laid.tail, contents_nil, List.length_nil, Nat.add_zero,
        show 64 - qControlSize = 0 from rfl, Nat.zero_mod]
      rfl
    intact := fun f hf => absurd hf List.not_mem_nil
    free := by
      rw [hsize, used_nil]
      simp only [qControlSize]
      omega
    counted := by rw [hac, hec]; rfl }

/-- A queue of the given size between two processors. -/
def queueOfSize (n : ℤ) : APIQueue :=
  { id := "12", name := "test_throughput", fromP := "a", toP := "b", size := n }

/-- A decidable fact about a fresh queue may be evaluated on the queue that `create` computes. -/
theorem of_create (P : MemQueue → Prop) [DecidablePred P] {api : APIQueue} {q : MemQueue}
    (hq : create api = .ok q) (h : (create api).toOption.all (fun q => decide (P q)) = true) : P q := by
  rw [hq] at h
  exact of_decide_eq_true h

/-! ## `put` -/

variable {q : MemQueue} {frames : List Frame} {body : Bytes}

namespace Holds

theorem freeSpace_eq (h : Holds q frames) :
    q.freeSpace = q.size - qControlSize - used frames := freeSpace_of_lt h.toStores h.free

theorem fitsFree_iff (h : Holds q frames) :
    q.fitsFree body ↔ used frames + frameSize body ≤ q.size - qControlSize := by
  have := h.free
  rw [fitsFree, h.freeSpace_eq]
  omega

theorem frameSize_lt (h : Holds q frames) (hfit : q.fitsFree body) : frameSize body < 256 ^ 4 := by
  have := h.fitsFree_iff.mp hfit
  have := h.size_lt
  omega

end Holds

/-- The frame that fills the free space exactly is accepted (unless a counter is exhausted) and makes
the queue read as empty. -/
theorem put_exact (h : Holds q frames) (now : UInt64) (hover : ¬ q.overCapacity)
    (hexact : (frameSize body : ℤ) = q.freeSpace) {r : Bool} {q' : MemQueue}
    (hput : q.put (.ok body) now = .ok r q') :
    r = true ∧ q'.freeSpace = q'.dataSize := by
  have hfit : q.fitsFree body := Int.le_of_eq hexact
  have hle := h.fitsFree_iff.mp hfit
  have hout := putLocked_outcome h.toStores now hle (h.frameSize_lt hfit)
  rw [← put_admitted now hover hfit, hput] at hout
  cases hout with
  | accepted hnum pushed hcounter =>
    refine ⟨rfl, ?_⟩
    rw [h.freeSpace_eq] at hexact
    have hsize := pushed.ctl.size
    rw [freeSpace_of_full pushed.stores, dataSize]
    rw [used_append, used_cons, used_nil, Frame.raw_ofBody, length_frameBytes, hsize]
    show used frames + (frameSize body + 0) = q.size - qControlSize
    have := h.free
    omega

/-- A frame past both tests that leaves a byte free is appended, while the counters last. -/
theorem Holds.put_ok (h : Holds q frames) (now : UInt64) (hover : ¬ q.overCapacity)
    (hlt : (frameSize body : ℤ) < q.freeSpace) (hnum : q.frameCounter < 256 ^ 4)
    (halloc : q.allocCounter + 1 < 256 ^ 4) :
    ∃ q' hsize, q.put (.ok body) now = .ok true q' ∧
      Holds q' (frames ++ [Frame.ofBody body q.frameCounter hsize]) ∧
      q'.allocCounter = q.allocCounter + 1 ∧ q'.frameCounter = q.frameCounter + 1 := by
  have hfree := h.free
  rw [h.freeSpace_eq] at hlt
  have hroom : used frames + frameSize body < q.size - qControlSize := by omega
  obtain ⟨q', hsize, hput, pushed, hcarries, hcounter⟩ :=
    h.carries.put_ok now hover (Nat.le_of_lt hroom) hnum halloc
  refine ⟨q', hsize, hput, hcarries.holds ?_, hcounter, pushed.ctl.frameCounter⟩
  rw [pushed.ctl.size, used_append, used_cons, used_nil, Frame.raw_ofBody, length_frameBytes]
  exact hroom

/-- The locked write of a frame that leaves a byte free appends it, while the counters last. -/
theorem Holds.putLocked_ok (h : Holds q frames) (now : UInt64)
    (hroom : used frames + frameSize body < q.size - qControlSize) (hnum : q.frameCounter < 256 ^ 4)
    (halloc : q.allocCounter + 1 < 256 ^ 4) :
    ∃ q' hsize, putLocked body now q = .ok true q' ∧
      Holds q' (frames ++ [Frame.ofBody body q.frameCounter hsize]) ∧ q'.size = q.size ∧
      q'.allocCounter = q.allocCounter + 1 ∧ q'.frameCounter = q.frameCounter + 1 := by
  obtain ⟨q', hsize, hput, pushed, hcarries, hcounter⟩ :=
    h.carries.putLocked_ok now (Nat.le_of_lt hroom) hnum halloc
  refine ⟨q', hsize, hput, hcarries.holds ?_, pushed.ctl.size, hcounter, pushed.ctl.frameCounter⟩
  rw [pushed.ctl.size, used_append, used_cons, used_nil, Frame.raw_ofBody, length_frameBytes]
  exact hroom

/-! ## `get` -/

section Get

variable {α : Type} (fromByteArr : Bytes → Except PyError α)

/-- With nothing pending `get` returns nothing. -/
theorem get_nil (h : Holds q []) (now : UInt64) : get fromByteArr now q = .ok none q := by
  have hpending : q.pendingCounter = 0 := by
    have := h.counted
    rw [List.length_nil] at this
    rw [pendingCounter]
    omega
  rw [get, get_bind_apply, if_pos hpending]
  rfl

/-- `get` returns the first frame, decoded, when its body decodes. -/
theorem Holds.get_ok {f : Frame} (h : Holds q (f :: frames)) (now : UInt64) {a : α}
    (hd : fromByteArr f.body = .ok a) :
    ∃ q', get fromByteArr now q = .ok (some a) q' ∧ Holds q' frames ∧
      q'.allocCounter = q.allocCounter ∧ q'.frameCounter = q.frameCounter := by
  have hfree := h.free
  rw [used_cons] at hfree
  obtain ⟨q', hget, popped, hcarries⟩ := h.carries.get_ok fromByteArr now hd
  have hsize := popped.ctl.size
  exact ⟨q', hget, hcarries.holds (by omega), popped.allocCounter_eq, popped.ctl.frameCounter⟩

/-- The locked read takes the first frame, decoded, when its body decodes. -/
theorem Holds.getLocked_ok {f : Frame} (h : Holds q (f :: frames)) (now : UInt64) {a : α}
    (hd : fromByteArr f.body = .ok a) :
    ∃ q', getLocked fromByteArr now q = .ok (some a) q' ∧ Holds q' frames ∧ q'.size = q.size ∧
      q'.allocCounter = q.allocCounter ∧ q'.frameCounter = q.frameCounter := by
  have hfree := h.free
  rw [used_cons] at hfree
  obtain ⟨q', hget, popped, hcarries⟩ := h.carries.getLocked_ok fromByteArr now hd
  have hsize := popped.ctl.size
  exact ⟨q', hget, hcarries.holds (by omega), hsize, popped.allocCounter_eq, popped.ctl.frameCounter⟩

end Get

end Upipe.MemQueue
