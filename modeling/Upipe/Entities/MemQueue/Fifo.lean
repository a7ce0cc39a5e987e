import Upipe.Entities.MemQueue.Holds

/-!
# The queue as a bounded FIFO

`FifoRun` is the abstract queue run beside the real one: a list of bodies that grows by each accepted
`put` and shrinks by each `get`, with the free space always the data area less the frames in it.
`fifoRun_iff` says exactly which runs from a fresh queue follow it. The one way off the path is a frame
that fills the free space to the last byte: it is accepted, the two indices coincide, and the full
queue reads as empty.
-/

namespace Upipe.MemQueue

open Upipe.Common

/-- One call on the queue. -/
inductive Call where
  | put (body : Bytes) (now : UInt64)
  | get (now : UInt64)

/-- The bytes that frames with these bodies take on the queue. -/
def storedSize (bodies : List Bytes) : ℕ := (bodies.map frameSize).sum

section Run

variable {α : Type} (decode : Bytes → α)

/-- The queue after one call, with a body decoder that is total. -/
def Call.after (q : MemQueue) : Call → MemQueue
  | .put body now => stateOf (q.put (.ok body) now)
  | .get now => stateOf (MemQueue.get (fun arr => .ok (decode arr)) now q)

/-- The run of the calls on `q` follows the abstract queue that starts with the bodies `pending`. -/
def FifoRun : List Bytes → MemQueue → List Call → Prop
  | pending, q, [] => q.freeSpace = q.dataSize - storedSize pending
  | pending, q, .put body now :: calls =>
      q.freeSpace = q.dataSize - storedSize pending ∧
      match q.put (.ok body) now with
      | .ok accepted q' => FifoRun (if accepted then pending ++ [body] else pending) q' calls
      | .error _ _ => False
  | pending, q, .get now :: calls =>
      q.freeSpace = q.dataSize - storedSize pending ∧
      match MemQueue.get (fun arr => .ok (decode arr)) now q with
      | .ok frame q' => frame = pending.head?.map decode ∧ FifoRun pending.tail q' calls
      | .error _ _ => False

/-- The call passes the capacity test of `put` with a frame of exactly the size of the free space. -/
def Call.Fills (q : MemQueue) : Call → Prop
  | .put body _ => ¬ q.overCapacity ∧ (frameSize body : ℤ) = q.freeSpace
  | .get _ => False

/-- No call of the run fills the queue to the last byte. -/
def NoneFills : MemQueue → List Call → Prop
  | _, [] => True
  | q, c :: calls => ¬ c.Fills q ∧ NoneFills (c.after decode q) calls

/-- The call is a `put` that passes both tests. -/
def Call.Admitted (q : MemQueue) : Call → Prop
  | .put body _ => ¬ q.overCapacity ∧ q.fitsFree body
  | .get _ => False

instance (q : MemQueue) (c : Call) : Decidable (c.Fills q) :=
  match c with
  | .put _ _ => inferInstanceAs (Decidable (_ ∧ _))
  | .get _ => isFalse id

instance (q : MemQueue) (c : Call) : Decidable (c.Admitted q) :=
  match c with
  | .put _ _ => inferInstanceAs (Decidable (_ ∧ _))
  | .get _ => isFalse id

/-- The number of frames that reach the queue in a run. -/
def admitted : MemQueue → List Call → ℕ
  | _, [] => 0
  | q, c :: calls => (if c.Admitted q then 1 else 0) + admitted (c.after decode q) calls

instance decNoneFills : ∀ q calls, Decidable (NoneFills decode q calls)
  | _, [] => isTrue trivial
  | q, c :: calls =>
      have := decNoneFills (c.after decode q) calls
      inferInstanceAs (Decidable (¬ c.Fills q ∧ NoneFills decode (c.after decode q) calls))

instance decFifoRun [DecidableEq α] :
    ∀ pending q calls, Decidable (FifoRun decode pending q calls)
  | _, _, [] => inferInstanceAs (Decidable (_ = _))
  | pending, q, .put body now :: calls =>
      have : Decidable (match q.put (.ok body) now with
          | .ok accepted q' => FifoRun decode (if accepted then pending ++ [body] else pending) q' calls
          | .error _ _ => False) :=
        match q.put (.ok body) now with
        | .ok accepted q' => decFifoRun (if accepted then pending ++ [body] else pending) q' calls
        | .error _ _ => isFalse id
      inferInstanceAs (Decidable (_ ∧ _))
  | pending, q, .get now :: calls =>
      have : Decidable (match MemQueue.get (fun arr => .ok (decode arr)) now q with
          | .ok frame q' => frame = pending.head?.map decode ∧ FifoRun decode pending.tail q' calls
          | .error _ _ => False) :=
        match MemQueue.get (fun arr => .ok (decode arr)) now q with
        | .ok frame q' =>
            have := decFifoRun pending.tail q' calls
            inferInstanceAs (Decidable (frame = pending.head?.map decode ∧ _))
        | .error _ _ => isFalse id
      inferInstanceAs (Decidable (_ ∧ _))

end Run

variable {α : Type} (decode : Bytes → α)

theorem used_eq_storedSize (frames : List Frame) :
    used frames = storedSize (frames.map Frame.body) := by
  induction frames with
  | nil => rfl
  | cons f frames ih =>
    rw [used_cons, ih, f.length_raw]
    rfl

/-- On a healthy queue the free space is what the abstract queue says. -/
theorem Holds.freeSpace_eq_storedSize {q : MemQueue} {frames : List Frame} (h : Holds q frames) :
    q.freeSpace = q.dataSize - storedSize (frames.map Frame.body) := by
  rw [h.freeSpace_eq, used_eq_storedSize, dataSize]

private theorem freeSpace_of_fifoRun {pending : List Bytes} {q : MemQueue} {calls : List Call}
    (h : FifoRun decode pending q calls) : q.freeSpace = q.dataSize - storedSize pending := by
  match calls, h with
  | [], h => exact h
  | .put _ _ :: _, h => exact h.1
  | .get _ :: _, h => exact h.1

/-- A put that is not admitted is refused. -/
private theorem put_of_not_admitted {q : MemQueue} {body : Bytes} {now : UInt64}
    (h : ¬ (Call.put body now).Admitted q) : q.put (.ok body) now = .ok false q := by
  apply put_refused
  by_cases hover : q.overCapacity
  · exact Or.inl hover
  · exact Or.inr ⟨body, rfl, fun hfit => h ⟨hover, hfit⟩⟩

/-- After the exact fit the free space contradicts the abstract queue. -/
private theorem not_fifoRun_of_full {q : MemQueue} {pending : List Bytes} {body : Bytes}
    {calls : List Call} (hfree : q.freeSpace = q.dataSize) :
    ¬ FifoRun decode (pending ++ [body]) q calls := by
  intro hrun
  have hspec := freeSpace_of_fifoRun decode hrun
  have hpos : 0 < storedSize (pending ++ [body]) := by
    rw [storedSize, List.map_append, List.sum_append, List.map_singleton, List.sum_singleton,
      frameSize, frameHeaderSize]
    omega
  omega

/-- The run lemma: from any healthy queue, with enough counter values left, a run follows the abstract
queue exactly when none of its calls fills the queue. -/
theorem Holds.fifoRun_iff {q : MemQueue} {frames : List Frame} (h : Holds q frames)
    {calls : List Call} (halloc : q.allocCounter + admitted decode q calls < 256 ^ 4)
    (hnum : q.frameCounter + admitted decode q calls < 256 ^ 4) :
    FifoRun decode (frames.map Frame.body) q calls ↔ NoneFills decode q calls := by
  induction calls generalizing q frames with
  | nil => exact iff_of_true h.freeSpace_eq_storedSize trivial
  | cons c calls ih =>
    cases c with
    | put body now =>
      rw [admitted] at halloc hnum
      rw [FifoRun, NoneFills, and_iff_right h.freeSpace_eq_storedSize]
      by_cases hadm : (Call.put body now).Admitted q
      · rw [if_pos hadm] at halloc hnum
        obtain ⟨hover, hfit⟩ := hadm
        rcases Int.lt_or_eq_of_le hfit with hlt | hexact
        · -- the frame fits and leaves a byte free: both queues append it
          obtain ⟨q', hsize, hput, hholds, hac, hfc⟩ :=
            h.put_ok now hover hlt (by omega) (by omega)
          have hnofill : ¬ (Call.put body now).Fills q := fun hf => by
            have := hf.2
            omega
          rw [Call.after, hput, stateOf_ok] at halloc hnum
          rw [and_iff_right hnofill, Call.after, hput]
          have := ih hholds (by omega) (by omega)
          rwa [List.map_append, List.map_cons, List.map_nil, Frame.body_ofBody] at this
        · -- the exact fit: the free space is wrong in the next state
          have hfill : (Call.put body now).Fills q := ⟨hover, hexact⟩
          refine iff_of_false ?_ (fun hn => hn.1 hfill)
          cases hput : q.put (.ok body) now with
          | error e q' => exact id
          | ok r q' =>
            obtain ⟨rfl, hfree⟩ := put_exact h now hover hexact hput
            exact not_fifoRun_of_full decode hfree
      · -- a refusal: nothing changes on either side
        rw [if_neg hadm] at halloc hnum
        have hput := put_of_not_admitted hadm
        have hnofill : ¬ (Call.put body now).Fills q :=
          fun hf => hadm ⟨hf.1, Int.le_of_eq hf.2⟩
        rw [Call.after, hput, stateOf_ok, Nat.zero_add] at halloc hnum
        rw [and_iff_right hnofill, Call.after, hput]
        exact ih h halloc hnum
    | get now =>
      rw [admitted, if_neg (show ¬ (Call.get now).Admitted q from id)] at halloc hnum
      rw [FifoRun, NoneFills, and_iff_right h.freeSpace_eq_storedSize,
        and_iff_right (show ¬ (Call.get now).Fills q from id)]
      cases frames with
      | nil =>
        have hget := get_nil (fun arr => .ok (decode arr)) h now
        rw [Call.after, hget, stateOf_ok, Nat.zero_add] at halloc hnum
        rw [hget, Call.after, hget, stateOf_ok]
        simpa using ih h halloc hnum
      | cons f frames =>
        obtain ⟨q', hget, hholds, hac, hfc⟩ := h.get_ok (fun arr => .ok (decode arr)) now rfl
        rw [Call.after, hget, stateOf_ok, Nat.zero_add] at halloc hnum
        rw [hget, Call.after, hget, stateOf_ok]
        simpa using ih hholds (by rwa [hac]) (by rwa [hfc])

/-- From a fresh queue, and for fewer than `2 ^ 32` frames, a run follows the bounded FIFO exactly when
no `put` fills the queue to the last byte. -/
theorem fifoRun_iff_noneFills {api : APIQueue} (hge : 97 ≤ api.size) (hlt : api.size < 2 ^ 32)
    {q : MemQueue} (hq : create api = .ok q) {calls : List Call}
    (hfew : admitted decode q calls < 2 ^ 32) :
    FifoRun decode [] q calls ↔ NoneFills decode q calls := by
  obtain ⟨q', hq', hholds, -, hac, hfc⟩ := create_holds api hge (by omega)
  rw [hq, Except.ok.injEq] at hq'
  subst hq'
  exact hholds.fifoRun_iff decode (by omega) (by omega)

/-- Two frames of different sizes through a queue of 200 bytes. -/
theorem fifoRun_two_frames :
    ∃ q, create (queueOfSize 200) = .ok q ∧
      FifoRun (fun arr => arr) [] q [.put [1, 2] 0, .put [] 5000, .get 7, .get 7, .get 7] := by
  obtain ⟨q, hq, -⟩ := create_holds (queueOfSize 200) (by decide) (by decide)
  refine ⟨q, hq, (fifoRun_iff_noneFills (fun arr => arr) (by decide) (by decide) hq ?_).mpr ?_⟩
  · exact of_create (fun q => admitted _ q _ < 2 ^ 32) hq (by decide +kernel)
  · exact of_create (fun q => NoneFills _ q _) hq (by decide +kernel)

/-- The smallest queue and two frames of one byte each: the second overwrites the first. -/
theorem exact_fit_breaks_fifo :
    ∃ q, create (queueOfSize 97) = .ok q ∧
      admitted (fun arr => arr) q [.put [7] 0, .put [9] 0, .get 0] < 2 ^ 32 ∧
      ¬ FifoRun (fun arr => arr) [] q [.put [7] 0, .put [9] 0, .get 0] := by
  obtain ⟨q, hq, -⟩ := create_holds (queueOfSize 97) (by decide) (by decide)
  refine ⟨q, hq, ?_, ?_⟩
  · exact of_create (fun q => admitted _ q _ < 2 ^ 32) hq (by decide +kernel)
  · exact of_create (fun q => ¬ FifoRun _ [] q _) hq (by decide +kernel)

end Upipe.MemQueue
