import Upipe.Common.Runs
import Upipe.Entities.Worker.Emit

/-!
# Waiting to emit

`emit_sync` polls the first output queue until the frame fits its free space, and then emits. Consumers
may read from any queue between two steps. The poll looks at one queue, with one of the two tests of
`put` and without the stamp that `emit` adds, so the `emit` that follows may still be refused;
`emitSync_safe` gives what must hold at the last poll for the frame to reach every queue.
-/

namespace Upipe.Worker

open Upipe.Common MemQueue

/-- Where a call of `emit_sync` is. `noQueue` is the `IndexError` of `self.out_qs[0]`. -/
inductive Phase where
  | waiting
  | sending (frame : DataFrame) (k : ℕ) (success : Bool)
  | returned (result : Bool)
  | noQueue
  | raised (e : PyError)

/-- A call of `emit_sync` in progress. `took` is a ghost: the positions of the queues that have taken
the frame. -/
structure SyncCall where
  worker : Worker
  data : EmitData
  phase : Phase
  took : List ℕ

/-- A step of the call, or a consumer's read from the queue at a position. -/
inductive SyncEvent where
  | poll
  | put
  | consume (i : ℕ) (now : UInt64)

section Step

variable {α : Type} (c : Codec) (putQ : MemQueue → DataFrame → Except PyError Bool)
  (clock : String → UInt64) (fromByteArr : Bytes → Except PyError α)

/-- One turn of the loop of `emit_sync`, and the start of `emit` when the loop ends. -/
def pollStep (s : SyncCall) : SyncCall :=
  match s.worker.outQs with
  | [] => { s with phase := .noQueue }
  | q :: _ =>
    match q.spaceAvailable (frameOf c s.data >>= DataFrame.toByteArr c) with
    | .error e => { s with phase := .raised e }
    | .ok false => s
    | .ok true =>
      match s.worker.stampedFrame c s.data with
      | .error e => { s with phase := .raised e }
      | .ok frame =>
          { s with
            worker := { s.worker with processedCounter := s.worker.processedCounter + 1 }
            phase := .sending frame 0 true }

/-- One turn of the loop of `emit`. -/
def putStep (s : SyncCall) (frame : DataFrame) (k : ℕ) (success : Bool) : SyncCall :=
  match s.worker.outQs[k]?, success with
  | none, _ => { s with phase := .returned success }
  | some _, false => { s with phase := .sending frame (k + 1) false }
  | some q, true =>
    match enqueue c putQ clock frame q with
    | .ok added q' =>
        { s with
          worker := { s.worker with outQs := s.worker.outQs.set k q' }
          phase := .sending frame (k + 1) added
          took := if added then s.took ++ [k] else s.took }
    | .error e q' =>
        { s with
          worker := { s.worker with outQs := s.worker.outQs.set k q' }
          phase := .raised e }

/-- The steps of the system. -/
def syncStep (s : SyncCall) : SyncEvent → Option SyncCall
  | .poll =>
      match s.phase with
      | .waiting => some (pollStep c s)
      | _ => none
  | .put =>
      match s.phase with
      | .sending frame k success => some (putStep c putQ clock s frame k success)
      | _ => none
  | .consume i now =>
      match s.worker.outQs[i]? with
      | some q =>
          some { s with worker := { s.worker with
            outQs := s.worker.outQs.set i (stateOf (getLocked fromByteArr now q)) } }
      | none => none

/-- The start of the call. -/
def startSync (w : Worker) (data : EmitData) : SyncCall where
  worker := w
  data := data
  phase :=
    match frameOf c data with
    | .ok _ => .waiting
    | .error e => .raised e
  took := []

/-- The contract: a call that returns returns `True`, with the frame on every output queue, and no call
fails for want of a queue. -/
def SyncCall.Kept (s : SyncCall) : Prop :=
  match s.phase with
  | .returned result => result = true ∧ s.took = List.range s.worker.outQs.length
  | .noQueue => False
  | _ => True

/-- The queue holds whole frames, at most nine tenths of its size, and the encoded frame fits the rest
of its data area. -/
structure HasRoom (q : MemQueue) (df : Except PyError Bytes) : Prop where
  isLocal : ¬ Remote q
  room : ∃ frames, Stores q frames ∧ (∀ f ∈ frames, f.watermark = waterMark) ∧
    10 * used frames ≤ 9 * q.size ∧
    ∀ body, df = .ok body → used frames + frameSize body ≤ q.size - qControlSize

/-- A poll that ends the wait finds at least one output queue, and room in every one of them for the
frame that will be sent. -/
def RoomAtLastPoll (s : SyncCall) : SyncEvent → Prop
  | .poll =>
      match s.worker.outQs with
      | [] => False
      | q :: _ =>
          q.spaceAvailable (frameOf c s.data >>= DataFrame.toByteArr c) = .ok true →
            ∀ r ∈ s.worker.outQs, ∀ frame, s.worker.stampedFrame c s.data = .ok frame →
              HasRoom r (frame.toByteArr c)
  | _ => True

/-- The invariant of a call whose last poll found room. -/
def SyncCall.OnTrack (s : SyncCall) : Prop :=
  match s.phase with
  | .waiting => s.took = []
  | .sending frame k success => success = true ∧ s.took = List.range k ∧
      k ≤ s.worker.outQs.length ∧
      ∀ i, k ≤ i → ∀ q, s.worker.outQs[i]? = some q → HasRoom q (frame.toByteArr c)
  | .returned result => result = true ∧ s.took = List.range s.worker.outQs.length
  | .noQueue => False
  | .raised _ => True

variable {c putQ clock fromByteArr}

/-! ## Room -/

/-- With at most nine tenths in use the first test of `put` passes, even when the queue is full. -/
private theorem not_overCapacity {q : MemQueue} {frames : List Frame} (h : Stores q frames)
    (hused : 10 * used frames ≤ 9 * q.size) : ¬ q.overCapacity := by
  have hle := h.used_le
  rw [overCapacity]
  rcases Nat.lt_or_ge (used frames) (q.size - qControlSize) with hlt | hge
  · rw [freeSpace_of_lt h hlt]
    omega
  · rw [freeSpace_of_full h (by omega)]
    omega

/-- A consumer's read leaves at least as much room. -/
theorem HasRoom.consume {q : MemQueue} {df : Except PyError Bytes} (h : HasRoom q df)
    (now : UInt64) : HasRoom (stateOf (getLocked fromByteArr now q)) df := by
  obtain ⟨frames, hstores, hw, hused, hfit⟩ := h.room
  obtain ⟨hstores', hattrs⟩ := getLocked_stores fromByteArr hstores hw now
  have hle := used_tail_le frames
  refine { isLocal := ?_, room := ⟨frames.tail, hstores', ?_, ?_, ?_⟩ }
  · rw [hattrs]
    exact h.isLocal
  · exact fun f hf => hw f (List.mem_of_mem_tail hf)
  · rw [hattrs]
    show 10 * used frames.tail ≤ 9 * q.size
    omega
  · intro body hbody
    have := hfit body hbody
    rw [hattrs]
    show used frames.tail + frameSize body ≤ q.size - qControlSize
    omega

variable (putQ clock) in
/-- A queue with room takes the frame, or the call raises. -/
theorem HasRoom.enqueue_ends {q : MemQueue} {frame : DataFrame}
    (h : HasRoom q (frame.toByteArr c)) :
    (∃ q', enqueue c putQ clock frame q = .ok true q') ∨
      ∃ e q', enqueue c putQ clock frame q = .error e q' := by
  obtain ⟨frames, hstores, -, hused, hfit⟩ := h.room
  have hover := not_overCapacity hstores hused
  rw [enqueue, if_neg h.isLocal, put_eq_putTest]
  cases hdf : frame.toByteArr c with
  | error e =>
    rw [putTest, if_neg hover]
    exact Or.inr ⟨e, q, rfl⟩
  | ok body =>
    have hbody := hfit body hdf
    have hpos : 0 < frameSize body := Nat.lt_of_lt_of_le (by decide) (Nat.le_add_left _ _)
    have hfits : q.fitsFree body := by
      rw [fitsFree, freeSpace_of_lt hstores (by omega)]
      omega
    rw [putTest_of_fits hover hfits]
    rcases hstores.wellFormed.putLocked_ends hfits (clock q.qid) with ⟨-, hput⟩ | ⟨-, e, q', -, hput⟩
    · exact Or.inl hput
    · exact Or.inr ⟨e, q', hput⟩

/-! ## Every step stays on track -/

private theorem pollStep_onTrack {s : SyncCall} (htook : s.took = []) (hw : s.phase = .waiting)
    (hroom : RoomAtLastPoll c s .poll) : (pollStep c s).OnTrack c := by
  rw [RoomAtLastPoll] at hroom
  rw [pollStep]
  split at hroom
  · exact hroom.elim
  · rename_i q qs hqs
    split
    · exact trivial
    · rw [SyncCall.OnTrack, hw]
      exact htook
    · rename_i hspace
      split
      · exact trivial
      · -- the wait is over, and the guard speaks of every queue
        rename_i frame hframe
        refine ⟨rfl, htook, Nat.zero_le _, ?_⟩
        intro i _ r hr
        exact hroom hspace r (List.mem_of_getElem? hr) frame hframe

private theorem putStep_onTrack {s : SyncCall} {frame : DataFrame} {k : ℕ} {success : Bool}
    (hphase : s.phase = .sending frame k success) (h : s.OnTrack c) :
    (putStep c putQ clock s frame k success).OnTrack c := by
  rw [SyncCall.OnTrack, hphase] at h
  obtain ⟨rfl, htook, hk, hroom⟩ := h
  cases hq : s.worker.outQs[k]? with
  | none =>
    -- the loop is behind the last queue, and all of them have taken the frame
    have hlen := List.getElem?_eq_none_iff.mp hq
    simp only [putStep, hq]
    exact ⟨rfl, by rw [htook, Nat.le_antisymm hk hlen]⟩
  | some q =>
    rcases (hroom k (Nat.le_refl k) q hq).enqueue_ends putQ clock with ⟨q', hput⟩ | ⟨e, q', hput⟩
    · simp only [putStep, hq, hput]
      have hlt : k < s.worker.outQs.length := (List.getElem?_eq_some_iff.mp hq).1
      refine ⟨rfl, ?_, ?_, ?_⟩
      · show s.took ++ [k] = List.range (k + 1)
        rw [htook, List.range_succ]
      · rw [List.length_set]
        exact hlt
      · intro i hi r hr
        rw [List.getElem?_set_ne (by omega)] at hr
        exact hroom i (by omega) r hr
    · simp only [putStep, hq, hput]
      exact trivial

private theorem consume_onTrack {s : SyncCall} {i : ℕ} {now : UInt64} {q : MemQueue}
    (hq : s.worker.outQs[i]? = some q) (h : s.OnTrack c) :
    SyncCall.OnTrack c { s with worker := { s.worker with
      outQs := s.worker.outQs.set i (stateOf (getLocked fromByteArr now q)) } } := by
  rw [SyncCall.OnTrack] at h ⊢
  cases hphase : s.phase with
  | waiting => rw [hphase] at h; exact h
  | noQueue => rw [hphase] at h; exact h
  | raised e => exact trivial
  | returned result =>
    rw [hphase] at h
    show result = true ∧ s.took = List.range (s.worker.outQs.set i _).length
    rw [List.length_set]
    exact h
  | sending frame k success =>
    rw [hphase] at h
    -- only the queues from `k` on still matter, and a read leaves them as much room
    obtain ⟨hsuccess, htook, hk, hroom⟩ := h
    refine ⟨hsuccess, htook, ?_, ?_⟩
    · show k ≤ (s.worker.outQs.set i _).length
      rw [List.length_set]
      exact hk
    · intro j hj r hr
      rcases Nat.decEq i j with hne | rfl
      · rw [List.getElem?_set_ne hne] at hr
        exact hroom j hj r hr
      · have hlt : i < s.worker.outQs.length := (List.getElem?_eq_some_iff.mp hq).1
        rw [List.getElem?_set_self hlt, Option.some.injEq] at hr
        rw [← hr]
        exact (hroom i hj q hq).consume now

theorem SyncCall.OnTrack.step {s s' : SyncCall} {e : SyncEvent} (h : s.OnTrack c)
    (hroom : RoomAtLastPoll c s e) (hstep : syncStep c putQ clock fromByteArr s e = some s') :
    s'.OnTrack c := by
  cases e with
  | poll =>
    rw [syncStep] at hstep
    split at hstep
    · rename_i hw
      rw [← Option.some.inj hstep]
      rw [SyncCall.OnTrack, hw] at h
      exact pollStep_onTrack h hw hroom
    · cases hstep
  | put =>
    rw [syncStep] at hstep
    split at hstep
    · rename_i frame k success hphase
      rw [← Option.some.inj hstep]
      exact putStep_onTrack hphase h
    · cases hstep
  | consume i now =>
    rw [syncStep] at hstep
    split at hstep
    · rename_i q hq
      rw [← Option.some.inj hstep]
      exact consume_onTrack hq h
    · cases hstep

theorem SyncCall.OnTrack.kept {s : SyncCall} (h : s.OnTrack c) : s.Kept := by
  rw [SyncCall.OnTrack] at h
  rw [SyncCall.Kept]
  cases hphase : s.phase <;> rw [hphase] at h <;> first | exact h | exact trivial

/-- In every run of `emit_sync` among consumers in which the poll that ends the wait finds room in all
output queues, of which there is at least one, the call returns `True` with the frame on every queue,
or raises for another reason than a missing queue. -/
theorem emitSync_safe (w : Worker) (data : EmitData) {events : List SyncEvent}
    (hroom : Along (syncStep c putQ clock fromByteArr) (RoomAtLastPoll c) (startSync c w data) events) :
    Along (syncStep c putQ clock fromByteArr)
      (fun s e => ∀ s', syncStep c putQ clock fromByteArr s e = some s' → s'.Kept)
      (startSync c w data) events := by
  refine Along.of_invariant (SyncCall.OnTrack c) ?_ ?_ ?_ hroom
  · exact fun s e s' h hguard hstep => h.step hguard hstep
  · exact fun s e h hguard s' hstep => (h.step hguard hstep).kept
  · rw [SyncCall.OnTrack, startSync]
    cases frameOf c data with
    | ok frame => rfl
    | error e => exact trivial

end Step

/-- A fresh queue on this host has room for a frame that fits its data area. -/
theorem hasRoom_of_holds {q : MemQueue} {df : Except PyError Bytes} (h : Holds q []) (hlocal : ¬ Remote q)
    (hfit : ∀ body, df = .ok body → frameSize body ≤ q.size - qControlSize) : HasRoom q df where
  isLocal := hlocal
  room := ⟨[], h.toStores, fun f hf => (nomatch hf), Nat.zero_le _, fun body hbody => by
    rw [used_nil, Nat.zero_add]
    exact hfit body hbody⟩

/-- The frame with the default field 5, and its bytes. -/
def fiveFrame : DataFrame :=
  DataFrame.empty.setField { key := "d", value := .int 5, dType := DType.u32.value }

def fiveBody : Bytes := [1, 11, 0, 0, 0, 3, 1, 100, 4, 0, 0, 0, 5, 0, 0, 0]

/-- Two roomy queues, and a consumer that reads in between. -/
theorem emitSync_two_roomy_queues :
    ∃ q r, create (queueOfSize 200) = .ok q ∧ create (queueOfSize 130) = .ok r ∧
      Along (syncStep Codec.emptyObjects (fun _ _ => .ok false) (fun _ => 0)
          (Except.ok : Bytes → Except PyError Bytes))
        (fun s e => ∀ s', syncStep Codec.emptyObjects (fun _ _ => .ok false) (fun _ => 0)
          (Except.ok : Bytes → Except PyError Bytes) s e = some s' → s'.Kept)
        (startSync Codec.emptyObjects (withOutQs [q, r]) (.value (.int 5)))
        [.poll, .put, .consume 0 7, .put, .put] := by
  obtain ⟨q, hq, hholds, hsize, -⟩ := create_holds (queueOfSize 200) (by decide) (by decide)
  obtain ⟨r, hr, hholds', hsize', -⟩ := create_holds (queueOfSize 130) (by decide) (by decide)
  refine ⟨q, r, hq, hr, emitSync_safe _ _ ⟨?_, fun _ _ => ⟨trivial, fun _ _ => ⟨trivial, fun _ _ =>
    ⟨trivial, fun _ _ => ⟨trivial, fun _ _ => trivial⟩⟩⟩⟩⟩⟩
  show _ → ∀ x ∈ [q, r], ∀ frame : DataFrame, _ → HasRoom x (frame.toByteArr Codec.emptyObjects)
  rintro - x hx frame hframe
  have hfive : frame = fiveFrame := (Except.ok.inj hframe).symm
  have hbytes : fiveFrame.toByteArr Codec.emptyObjects = .ok fiveBody := rfl
  rw [hfive, hbytes]
  rcases hx with _ | ⟨_, _ | ⟨_, hx⟩⟩
  · refine hasRoom_of_holds hholds (of_create (fun q => ¬ Remote q) hq (by decide +kernel)) ?_
    rintro body ⟨⟩
    rw [hsize]
    decide
  · refine hasRoom_of_holds hholds' (of_create (fun q => ¬ Remote q) hr (by decide +kernel)) ?_
    rintro body ⟨⟩
    rw [hsize']
    decide
  · cases hx

/-- The second queue has no room left: the call returns `False`, with the frame on the first queue. And
a worker with a sink and no output queue fails at its first poll. -/
theorem emitSync_drops_frame :
    (∃ q r, create (queueOfSize 200) = .ok q ∧ create (queueOfSize 130) = .ok r ∧
      ¬ Along (syncStep Codec.emptyObjects (fun _ _ => .ok false) (fun _ => 0)
          (Except.ok : Bytes → Except PyError Bytes))
        (fun s e => ∀ s', syncStep Codec.emptyObjects (fun _ _ => .ok false) (fun _ => 0)
          (Except.ok : Bytes → Except PyError Bytes) s e = some s' → s'.Kept)
        (startSync Codec.emptyObjects (withOutQs [q, stateOf (r.put (.ok fiveBody) 0)])
          (.value (.int 5)))
        ([.poll, .put, .put] ++ [.put])) ∧
      ∃ q, create (queueOfSize 200) = .ok q ∧
        ∃ s', syncStep Codec.emptyObjects (fun _ _ => .ok false) (fun _ => 0)
          (Except.ok : Bytes → Except PyError Bytes)
          (startSync Codec.emptyObjects { withOutQs [] with sinkQ := some q } (.value (.int 5))) .poll
            = some s' ∧ ¬ s'.Kept := by
  refine ⟨?_, ?_⟩
  · obtain ⟨q, hq, -⟩ := create_holds (queueOfSize 200) (by decide) (by decide)
    obtain ⟨r, hr, -⟩ := create_holds (queueOfSize 130) (by decide) (by decide)
    refine ⟨q, r, hq, hr, ?_⟩
    intro hkept
    have hend := of_create_pair (fun q r => (runFrom
      (syncStep Codec.emptyObjects (fun _ _ => .ok false) (fun _ => 0)
        (Except.ok : Bytes → Except PyError Bytes))
      (startSync Codec.emptyObjects (withOutQs [q, stateOf (r.put (.ok fiveBody) 0)]) (.value (.int 5)))
      [.poll, .put, .put]).any (fun t => match t.phase with
        | .sending _ k success => k == t.worker.outQs.length && !success
        | _ => false) = true) hq hr (by decide +kernel)
    obtain ⟨t, hrun, ht⟩ := (Option.any_eq_true _ _).mp hend
    have hlast := hkept.last hrun
    split at ht
    · rename_i frame k success hphase
      rw [Bool.and_eq_true, beq_iff_eq, Bool.not_eq_true'] at ht
      obtain ⟨rfl, rfl⟩ := ht
      have hstep : syncStep Codec.emptyObjects (fun _ _ => .ok false) (fun _ => 0)
          (Except.ok : Bytes → Except PyError Bytes) t .put
            = some { t with phase := .returned false } := by
        simp only [syncStep, hphase, putStep, List.getElem?_length]
      exact Bool.false_ne_true (hlast _ hstep).1
    · cases ht
  · obtain ⟨q, hq, -⟩ := create_holds (queueOfSize 200) (by decide) (by decide)
    exact ⟨q, hq, _, rfl, id⟩

end Upipe.Worker
