import Upipe.Entities.Pipe.Network
import Upipe.Node.Manager.Isolation

/-!
# Queues on another host

A worker whose output queue is on another host sends each frame as a `push_q` request to the node there, which puts it
on the queue of that id. The frame is pickled on the way, and is taken to come out as it went in. A connection may be
gone before the answer: `put_q` then returns `False`, as for a queue that is full, and the worker emits the frame again,
while the first request may still be on its way or may wait for the lock of the queue. Nothing tells the node that it
has seen a frame before.

What the worker has been told is therefore true (`at_least_once`): frames for which `emit` has returned `True` have
been accepted by the queue, in this order. A frame may be there once more for every request that was not answered
(`copies_le`), and where all were answered the queue has accepted exactly these frames (`exactly_once`).
-/

namespace Upipe

open Upipe.Common MemQueue

/-! ## Requests -/

/-- How far the server is with a `push_q` request. -/
inductive PushPhase where
  | sent
  | waiting (call : WaitingPut)
  | answered (success : Bool)

/-- A worker on another host, with what its program emits to its output queue: `while not await worker.emit(frame):
continue` for each of the frames. `confirmed` counts those for which `emit` has returned `True`, and `request` is what
its `put_q` waits for. `lost` is a ghost: the number of requests that it has given up. -/
structure RemoteWorker where
  queue : APIQueue
  isRemote : queue.host.getD "" ≠ ""
  frames : List DataFrame
  confirmed : ℕ
  request : Option PushPhase
  failed : Option PyError
  lost : ℕ

/-- A request that no one waits for any more: that of a worker for the frame at a position. -/
structure StrayRequest where
  sender : ℕ
  position : ℕ
  phase : PushPhase

/-- A frame that a queue has accepted from a worker on another host. -/
structure Arrival where
  sender : ℕ
  position : ℕ
  qid : String
  body : Bytes

/-- The queues of the node's machine, the workers on other hosts and the requests that were given up. `arrivals` is a
ghost, oldest first. -/
structure RemoteSystem where
  queues : QueueProcesses DataFrame
  workers : List RemoteWorker
  strays : List StrayRequest
  arrivals : List Arrival

inductive RemoteEvent where
  /-- A process of the machine takes a step on the queues. -/
  | call (e : QueueEvent)
  /-- `emit` sends its request. -/
  | emit (k : ℕ)
  /-- The server goes on with the request that a worker waits for, or with another one. -/
  | serve (k : ℕ) (move : NetMove)
  | serveStray (i : ℕ) (move : NetMove)
  /-- The worker gets the answer, or a `ServerDisconnectedError`, or another exception, with which it ends. -/
  | answer (k : ℕ)
  | disconnect (k : ℕ)
  | fail (k : ℕ) (e : PyError)

section Remote

variable (refuses : String → Bool) (c : Codec) (controllers : Dict String LoadedPipe) (objectOf : QueueHandle → ℕ)

/-- The next step that the server takes on its queues for a request. `objectOf` is the place of a queue of the node
among the objects of the machine. -/
def pushEvent (s : QueueProcesses DataFrame) (q : APIQueue) (frame : DataFrame) : PushPhase → NetMove → Option QueueEvent
  | .sent, .go _ => (pushQ controllers q).map fun found => .test (objectOf found.2) (frame.toByteArr c)
  | .waiting call, .go now => some (.write (s.waiting.idxOf call) now)
  | .waiting call, .timeout => some (.writeTimeout (s.waiting.idxOf call))
  | _, _ => none

/-- The request behind that step. An exception of the endpoint is an answer with status 500. -/
def pushBehind (s s' : QueueProcesses DataFrame) : PushPhase :=
  match queueAnswer s s' with
  | none => (s'.waiting.getLast?.map .waiting).getD .sent
  | some (.accepted success) => .answered success
  | some _ => .answered false

/-- The server goes on with a request. A queue that no pipe has takes nothing. -/
def servePush (s : QueueProcesses DataFrame) (q : APIQueue) (frame : DataFrame) (phase : PushPhase) (move : NetMove) :
    Option (QueueProcesses DataFrame × PushPhase) :=
  match pushEvent c controllers objectOf s q frame phase move with
  | some e => (queueStep refuses (DataFrame.fromByteArr c) s e).map fun s' => (s', pushBehind s s')
  | none =>
      match phase, move with
      | .sent, .go _ => some (s, .answered false)
      | _, _ => none

/-- What has arrived in that step. -/
def arrivalOf (k position : ℕ) : PushPhase → PushPhase → List Arrival
  | .waiting call, .answered true => [⟨k, position, call.qid, call.body⟩]
  | _, _ => []

/-- The request of a worker, once the worker has given it up. An answer that is there already is lost. -/
def strayOf (k position : ℕ) : PushPhase → List StrayRequest
  | .answered _ => []
  | phase => [⟨k, position, phase⟩]

/-- The steps. -/
def remoteStep (s : RemoteSystem) : RemoteEvent → Option RemoteSystem
  | .call e => (queueStep refuses (DataFrame.fromByteArr c) s.queues e).map fun queues => { s with queues := queues }
  | .emit k => do
      let w ← s.workers[k]?
      if w.failed.isNone ∧ w.request.isNone ∧ w.confirmed < w.frames.length then
        some { s with workers := s.workers.set k { w with request := some .sent } }
      else none
  | .serve k move => do
      let w ← s.workers[k]?
      let phase ← w.request
      let frame ← w.frames[w.confirmed]?
      let (queues, phase') ← servePush refuses c controllers objectOf s.queues w.queue frame phase move
      some
        { s with
          queues := queues
          workers := s.workers.set k { w with request := some phase' }
          arrivals := s.arrivals ++ arrivalOf k w.confirmed phase phase' }
  | .serveStray i move => do
      let r ← s.strays[i]?
      let w ← s.workers[r.sender]?
      let frame ← w.frames[r.position]?
      let (queues, phase') ← servePush refuses c controllers objectOf s.queues w.queue frame r.phase move
      some
        { s with
          queues := queues
          strays := s.strays.eraseIdx i ++ strayOf r.sender r.position phase'
          arrivals := s.arrivals ++ arrivalOf r.sender r.position r.phase phase' }
  | .answer k => do
      let w ← s.workers[k]?
      match w.request with
      | some (.answered success) =>
          some
            { s with
              workers := s.workers.set k
                { w with request := none, confirmed := w.confirmed + if success then 1 else 0 } }
      | _ => none
  | .disconnect k => do
      let w ← s.workers[k]?
      let phase ← w.request
      some
        { s with
          workers := s.workers.set k { w with request := none, lost := w.lost + 1 }
          strays := s.strays ++ strayOf k w.confirmed phase }
  | .fail k e => do
      let w ← s.workers[k]?
      if w.failed.isSome then none
      else
        match w.request with
        | none => some { s with workers := s.workers.set k { w with failed := some e } }
        | some phase =>
            some
              { s with
                workers := s.workers.set k { w with request := none, lost := w.lost + 1, failed := some e }
                strays := s.strays ++ strayOf k w.confirmed phase }

/-- The queue that a step of a process puts on. -/
def putsOn (s : QueueProcesses DataFrame) : QueueEvent → Option String
  | .test o _ => s.qidOf o
  | .write i _ | .writeTimeout i => s.waiting[i]?.map WaitingPut.qid
  | _ => none

/-- The step leaves room in the queues. The processes of the machine put nothing on a queue that is fed from other
hosts. -/
def RemoteRoom (s : RemoteSystem) : RemoteEvent → Prop
  | .call e => LeavesRoom (DataFrame.fromByteArr c) s.queues e ∧
      ∀ qid ∈ putsOn s.queues e, ∀ w ∈ s.workers, w.queue.id ≠ qid
  | .serve k move => ∀ w ∈ s.workers[k]?, ∀ phase ∈ w.request, ∀ frame ∈ w.frames[w.confirmed]?,
      ∀ e ∈ pushEvent c controllers objectOf s.queues w.queue frame phase move,
        LeavesRoom (DataFrame.fromByteArr c) s.queues e
  | .serveStray i move => ∀ r ∈ s.strays[i]?, ∀ w ∈ s.workers[r.sender]?, ∀ frame ∈ w.frames[r.position]?,
      ∀ e ∈ pushEvent c controllers objectOf s.queues w.queue frame r.phase move,
        LeavesRoom (DataFrame.fromByteArr c) s.queues e
  | _ => True

instance (s : RemoteSystem) : ∀ e, Decidable (RemoteRoom c controllers objectOf s e)
  | .call e => inferInstanceAs (Decidable (LeavesRoom (DataFrame.fromByteArr c) s.queues e ∧
      ∀ qid ∈ putsOn s.queues e, ∀ w ∈ s.workers, w.queue.id ≠ qid))
  | .serve k move => inferInstanceAs (Decidable (∀ w ∈ s.workers[k]?, ∀ phase ∈ w.request,
      ∀ frame ∈ w.frames[w.confirmed]?, ∀ e ∈ pushEvent c controllers objectOf s.queues w.queue frame phase move,
        LeavesRoom (DataFrame.fromByteArr c) s.queues e))
  | .serveStray i move => inferInstanceAs (Decidable (∀ r ∈ s.strays[i]?, ∀ w ∈ s.workers[r.sender]?,
      ∀ frame ∈ w.frames[r.position]?,
        ∀ e ∈ pushEvent c controllers objectOf s.queues w.queue frame r.phase move,
          LeavesRoom (DataFrame.fromByteArr c) s.queues e))
  | .emit _ | .answer _ | .disconnect _ | .fail .. => isTrue trivial

end Remote

/-! ## What a request has done -/

variable {c : Codec} {refuses : String → Bool} {controllers : Dict String LoadedPipe} {objectOf : QueueHandle → ℕ}

/-- A request that waits for the lock of the queue of its worker brings the encoded frame. -/
def PushPhase.Ok (c : Codec) (q : APIQueue) (frame : DataFrame) : PushPhase → Prop
  | .waiting call => call.qid = q.id ∧ frame.toByteArr c = .ok call.body
  | _ => True

/-- The queue has accepted the frame of the request. -/
def PushPhase.isAccepted : PushPhase → Bool
  | .answered success => success
  | _ => false

/-- The server has gone on with a request: the queue has accepted its frame, or nothing. -/
structure Serves (c : Codec) (s s' : QueueProcesses DataFrame) (q : APIQueue) (frame : DataFrame)
    (phase phase' : PushPhase) : Prop where
  ok : phase'.Ok c q frame
  unanswered : ∀ success, phase ≠ .answered success
  accepted : (∃ call, phase = .waiting call ∧ phase' = .answered true ∧ call.qid = q.id ∧
      frame.toByteArr c = .ok call.body ∧
        s'.returned = s.returned ++ [(.put call.qid (.ok call.body), .accepted true)]) ∨
    phase'.isAccepted = false ∧ ∀ qid, acceptedOn qid s'.returned = acceptedOn qid s.returned

section Serve

variable {s s' : QueueProcesses DataFrame} {t : QueueStore} {q : APIQueue} {frame : DataFrame}
  {phase phase' : PushPhase}

theorem acceptedOn_same {call : QueueCall} {answer : QueueAnswer DataFrame}
    (hreturned : s'.returned = s.returned ++ [(call, answer)]) {qid : String}
    (hnothing : acceptedOn qid [(call, answer)] = []) : acceptedOn qid s'.returned = acceptedOn qid s.returned := by
  rw [hreturned, acceptedOn_append, hnothing, List.append_nil]

/-- A call that the queue answers without having taken a frame. -/
theorem serves_nothing {call : QueueCall} {answer : QueueAnswer DataFrame}
    (hreturned : s'.returned = s.returned ++ [(call, answer)])
    (hnothing : ∀ qid, acceptedOn qid [(call, answer)] = []) (hunanswered : ∀ success, phase ≠ .answered success)
    (hbehind : pushBehind s s' = .answered false) : Serves c s s' q frame phase (pushBehind s s') := by
  rw [hbehind]
  exact ⟨trivial, hunanswered, Or.inr ⟨rfl, fun _ => acceptedOn_same hreturned (hnothing _)⟩⟩

/-- The tests of the put. -/
theorem serves_test {o : ℕ} (hopened : s.qidOf o = some q.id)
    (hstep : queueStep refuses (DataFrame.fromByteArr c) s (.test o (frame.toByteArr c)) = some s') :
    Serves c s s' q frame .sent (pushBehind s s') := by
  obtain ⟨m, hm, ⟨body, hbody, -, rfl⟩ | ⟨-, hs'⟩ | ⟨e, hs'⟩⟩ := QueueProcesses.test_cases hstep
  · have hqid : m.qid = q.id := by
      rw [QueueProcesses.qidOf_of_queue hm] at hopened
      exact Option.some.inj hopened
    have hbehind : pushBehind s { s with waiting := s.waiting ++ [⟨o, m.qid, body⟩] } = .waiting ⟨o, m.qid, body⟩ := by
      simp [pushBehind, queueAnswer]
    rw [hbehind]
    exact ⟨⟨hqid, hbody⟩, fun _ => PushPhase.noConfusion, Or.inr ⟨rfl, fun _ => rfl⟩⟩
  · have hreturned : s'.returned = s.returned ++ [(.put m.qid (frame.toByteArr c), .accepted false)] := by rw [hs']; rfl
    have hbehind : pushBehind s s' = .answered false := by rw [pushBehind, queueAnswer_eq_some hreturned]
    exact serves_nothing hreturned (fun _ => acceptedOn_refused ..) (fun _ => PushPhase.noConfusion) hbehind
  · have hreturned : s'.returned = s.returned ++ [(.put m.qid (frame.toByteArr c), .raised e)] := by rw [hs']; rfl
    have hbehind : pushBehind s s' = .answered false := by rw [pushBehind, queueAnswer_eq_some hreturned]
    exact serves_nothing hreturned (fun _ => acceptedOn_raised ..) (fun _ => PushPhase.noConfusion) hbehind

/-- The put behind the lock. -/
theorem serves_write (hrep : s.Represents (DataFrame.fromByteArr c) t) {call : WaitingPut}
    (hok : (PushPhase.waiting call).Ok c q frame) {now : UInt64}
    (hstep : queueStep refuses (DataFrame.fromByteArr c) s (.write (s.waiting.idxOf call) now) = some s') :
    Serves c s s' q frame (.waiting call) (pushBehind s s') := by
  obtain ⟨call', -, hcall, hreturned, -, -⟩ := hrep.write_accepted hstep
  obtain rfl := eq_of_idxOf hcall
  have hbehind : pushBehind s s' = .answered true := by rw [pushBehind, queueAnswer_eq_some hreturned]
  rw [hbehind]
  exact ⟨trivial, fun _ => PushPhase.noConfusion, Or.inl ⟨call', rfl, rfl, hok.1, hok.2, hreturned⟩⟩

/-- The lock of the queue does not become free in time. -/
theorem serves_writeTimeout {call : WaitingPut}
    (hstep : queueStep refuses (DataFrame.fromByteArr c) s (.writeTimeout (s.waiting.idxOf call)) = some s') :
    Serves c s s' q frame (.waiting call) (pushBehind s s') := by
  obtain ⟨call', -, hreturned⟩ := QueueProcesses.writeTimeout_cases hstep
  have hbehind : pushBehind s s' = .answered false := by rw [pushBehind, queueAnswer_eq_some hreturned]
  exact serves_nothing hreturned (fun _ => acceptedOn_raised ..) (fun _ => PushPhase.noConfusion) hbehind

/-- The queues that the server finds have been opened under their ids. -/
def Opened (controllers : Dict String LoadedPipe) (objectOf : QueueHandle → ℕ) (s : QueueProcesses DataFrame) : Prop :=
  ∀ q found, pushQ controllers q = some found → s.qidOf (objectOf found.2) = some q.id

/-- What the server does with a request keeps the queues to their lists. -/
theorem servePush_cases (hrep : s.Represents (DataFrame.fromByteArr c) t) (hopened : Opened controllers objectOf s)
    (hok : phase.Ok c q frame) {move : NetMove}
    (hroom : ∀ e ∈ pushEvent c controllers objectOf s q frame phase move, LeavesRoom (DataFrame.fromByteArr c) s e)
    (hstep : servePush refuses c controllers objectOf s q frame phase move = some (s', phase')) :
    Serves c s s' q frame phase phase' ∧
      ∃ t', Returns (QueueStore.Answers refuses (DataFrame.fromByteArr c)) s.returned s'.returned t t' ∧
        s'.Represents (DataFrame.fromByteArr c) t' ∧ ∀ o qid, s.qidOf o = some qid → s'.qidOf o = some qid := by
  unfold servePush at hstep
  cases hevent : pushEvent c controllers objectOf s q frame phase move with
  | some e =>
    rw [hevent] at hstep
    obtain ⟨u, hu, heq⟩ := Option.map_eq_some_iff.mp hstep
    obtain ⟨rfl, rfl⟩ := Prod.mk.inj heq
    obtain ⟨t', hreturns, hrep'⟩ := hrep.step (hroom e hevent) hu
    refine ⟨?_, t', hreturns, hrep', fun _ _ => QueueProcesses.qidOf_step hu⟩
    unfold pushEvent at hevent
    split at hevent
    · obtain ⟨found, hfound, rfl⟩ := Option.map_eq_some_iff.mp hevent
      exact serves_test (hopened q found hfound) hu
    · obtain rfl := Option.some.inj hevent
      exact serves_write hrep hok hu
    · obtain rfl := Option.some.inj hevent
      exact serves_writeTimeout hu
    · cases hevent
  | none =>
    rw [hevent] at hstep
    dsimp only at hstep
    split at hstep
    · obtain ⟨rfl, rfl⟩ := Prod.mk.inj (Option.some.inj hstep)
      exact ⟨⟨trivial, fun _ => PushPhase.noConfusion, Or.inr ⟨rfl, fun _ => rfl⟩⟩, t, .none rfl rfl, hrep,
        fun _ _ h => h⟩
    · cases hstep

/-- A process of the machine puts nothing on a queue that it does not put on. -/
theorem acceptedOn_call (hrep : s.Represents (DataFrame.fromByteArr c) t) {e : QueueEvent} {qid : String}
    (hother : ∀ other ∈ putsOn s e, qid ≠ other)
    (hstep : queueStep refuses (DataFrame.fromByteArr c) s e = some s') :
    acceptedOn qid s'.returned = acceptedOn qid s.returned := by
  cases e with
  | init api =>
    rw [queueStep] at hstep
    split at hstep <;> obtain rfl := Option.some.inj hstep <;> exact acceptedOn_same rfl rfl
  | test o df =>
    obtain ⟨m, -, ⟨body, -, -, rfl⟩ | ⟨-, rfl⟩ | ⟨e, rfl⟩⟩ := QueueProcesses.test_cases hstep
    · rfl
    · exact acceptedOn_same rfl (acceptedOn_refused ..)
    · exact acceptedOn_same rfl (acceptedOn_raised ..)
  | write i now =>
    obtain ⟨call, -, hcall, hreturned, -, -⟩ := hrep.write_accepted hstep
    have hne : qid ≠ call.qid := hother _ (Option.map_eq_some_iff.mpr ⟨call, hcall, rfl⟩)
    exact acceptedOn_same hreturned (by rw [acceptedOn_accepted, if_neg hne.symm])
  | writeTimeout i =>
    obtain ⟨call, -, hreturned⟩ := QueueProcesses.writeTimeout_cases hstep
    exact acceptedOn_same hreturned (acceptedOn_raised ..)
  | check o =>
    obtain ⟨m, -, rfl | rfl⟩ := QueueProcesses.check_cases hstep
    · exact acceptedOn_same rfl rfl
    · rfl
  | read i now =>
    obtain ⟨call, -, ⟨frame, hreturned⟩ | ⟨e, hreturned⟩⟩ := QueueProcesses.read_cases hstep
    · exact acceptedOn_same hreturned rfl
    · exact acceptedOn_same hreturned rfl
  | readTimeout i =>
    obtain ⟨call, -, hreturned⟩ := QueueProcesses.readTimeout_cases hstep
    exact acceptedOn_same hreturned rfl

end Serve

/-! ## A worker and its frames -/

namespace RemoteWorker

/-- The frames of which the worker knows, or is about to be told, that the queue has accepted them. -/
def heard (w : RemoteWorker) : ℕ := w.confirmed + if (w.request.any PushPhase.isAccepted) then 1 else 0

/-- What is known of a worker, its frames on the queue and the requests that it gave up. -/
structure Kept (c : Codec) (w : RemoteWorker) (arrived : List Arrival) (strays : List StrayRequest) : Prop where
  request : ∀ phase, w.request = some phase → ∃ frame, w.frames[w.confirmed]? = some frame ∧ phase.Ok c w.queue frame
  givenUp : ∀ r ∈ strays, ∃ frame, w.frames[r.position]? = some frame ∧ r.phase.Ok c w.queue frame
  brought : ∀ a ∈ arrived, a.qid = w.queue.id ∧
    ∃ frame, w.frames[a.position]? = some frame ∧ frame.toByteArr c = .ok a.body
  atLeast : (List.range w.heard).Sublist (arrived.map Arrival.position)
  atMost : arrived.length + strays.length ≤ w.heard + w.lost

variable {w : RemoteWorker} {arrived : List Arrival} {strays strays' : List StrayRequest}
  {s s' : QueueProcesses DataFrame}
  {phase phase' : PushPhase} {frame : DataFrame} {k : ℕ}

/-- A worker without a request, and one with a request that nothing has come of. -/
theorem heard_eq (h : w.request.any PushPhase.isAccepted = false) : w.heard = w.confirmed := by
  simp [heard, h]

theorem Kept.emit (h : w.Kept c arrived strays) (hnone : w.request = none) (hmore : w.confirmed < w.frames.length) :
    Kept c { w with request := some .sent } arrived strays := by
  have hheard : heard { w with request := some .sent } = w.heard := by
    rw [heard_eq (by rfl), heard_eq (by rw [hnone]; rfl)]
  refine ⟨fun phase hphase => ?_, h.givenUp, h.brought, hheard ▸ h.atLeast, hheard ▸ h.atMost⟩
  obtain rfl := Option.some.inj hphase
  exact ⟨_, List.getElem?_eq_getElem hmore, trivial⟩

/-- What has arrived in a step is the frame of the request. -/
theorem arrivalOf_eq (h : Serves c s s' w.queue frame phase phase') (k position : ℕ) :
    (∃ body, frame.toByteArr c = .ok body ∧ phase'.isAccepted = true ∧
        arrivalOf k position phase phase' = [⟨k, position, w.queue.id, body⟩]) ∨
      phase'.isAccepted = false ∧ arrivalOf k position phase phase' = [] := by
  rcases h.accepted with ⟨call, rfl, rfl, hqid, hbody, -⟩ | ⟨hnot, -⟩
  · refine Or.inl ⟨call.body, hbody, rfl, ?_⟩
    rw [arrivalOf, hqid]
  · refine Or.inr ⟨hnot, ?_⟩
    unfold arrivalOf
    split
    · cases hnot
    · rfl

/-- The server goes on with the request that the worker waits for. -/
theorem Kept.serve (h : w.Kept c arrived strays) (hrequest : w.request = some phase)
    (hframe : w.frames[w.confirmed]? = some frame) (hserves : Serves c s s' w.queue frame phase phase') :
    Kept c { w with request := some phase' } (arrived ++ arrivalOf k w.confirmed phase phase') strays := by
  have hbefore : w.heard = w.confirmed := by
    apply heard_eq
    rw [hrequest]
    cases phase with
    | answered success => exact absurd rfl (hserves.unanswered success)
    | _ => rfl
  have hok : ∀ later, some phase' = some later →
      ∃ frame, w.frames[w.confirmed]? = some frame ∧ later.Ok c w.queue frame := by
    intro later hlater
    obtain rfl := Option.some.inj hlater
    exact ⟨frame, hframe, hserves.ok⟩
  rcases arrivalOf_eq hserves k w.confirmed with ⟨body, hbody, haccepted, hone⟩ | ⟨hnot, hnone⟩
  · have hheard : heard { w with request := some phase' } = w.confirmed + 1 := by simp [heard, haccepted]
    rw [hone]
    refine ⟨hok, h.givenUp, ?_, ?_, ?_⟩
    · rw [List.forall_mem_append, List.forall_mem_singleton]
      exact ⟨h.brought, rfl, frame, hframe, hbody⟩
    · rw [hheard, List.range_succ, List.map_append]
      exact (hbefore ▸ h.atLeast).append (List.Sublist.refl _)
    · have := h.atMost
      rw [hheard, List.length_append, List.length_singleton]
      dsimp only
      omega
  · have hheard : heard { w with request := some phase' } = w.heard := by
      rw [hbefore]
      exact heard_eq hnot
    rw [hnone, List.append_nil]
    exact ⟨hok, h.givenUp, h.brought, hheard ▸ h.atLeast, hheard ▸ h.atMost⟩

/-- The server goes on with a request that the worker has given up. -/
theorem Kept.serveStray (h : w.Kept c arrived strays) {position : ℕ} (hframe : w.frames[position]? = some frame)
    (hserves : Serves c s s' w.queue frame phase phase')
    (hperm : strays.Perm (⟨k, position, phase⟩ :: strays')) :
    w.Kept c (arrived ++ arrivalOf k position phase phase') (strays' ++ strayOf k position phase') := by
  have hold : ∀ r ∈ strays', ∃ frame, w.frames[r.position]? = some frame ∧ r.phase.Ok c w.queue frame :=
    fun r hr => h.givenUp r (hperm.mem_iff.mpr (List.mem_cons_of_mem _ hr))
  have hstrays : ∀ r ∈ strays' ++ strayOf k position phase',
      ∃ frame, w.frames[r.position]? = some frame ∧ r.phase.Ok c w.queue frame := by
    intro r hr
    rcases List.mem_append.mp hr with hr | hr
    · exact hold r hr
    · unfold strayOf at hr
      split at hr
      · cases hr
      · obtain rfl := List.mem_singleton.mp hr
        exact ⟨frame, hframe, hserves.ok⟩
  have hatMost := h.atMost
  rw [hperm.length_eq, List.length_cons] at hatMost
  rcases arrivalOf_eq hserves k position with ⟨body, hbody, haccepted, hone⟩ | ⟨hnot, hnone⟩
  · -- what the request has still to do, it has done
    have hdone : strayOf k position phase' = [] := by
      cases phase' with
      | answered success => rfl
      | _ => cases haccepted
    rw [hone]
    refine ⟨h.request, hstrays, ?_, ?_, ?_⟩
    · rw [List.forall_mem_append, List.forall_mem_singleton]
      exact ⟨h.brought, rfl, frame, hframe, hbody⟩
    · rw [List.map_append]
      exact h.atLeast.trans (List.sublist_append_left _ _)
    · rw [hdone, List.append_nil, List.length_append, List.length_singleton]
      omega
  · rw [hnone, List.append_nil]
    refine ⟨h.request, hstrays, h.brought, h.atLeast, ?_⟩
    have hle : (strayOf k position phase').length ≤ 1 := by
      unfold strayOf
      split <;> simp
    rw [List.length_append]
    omega

theorem Kept.answer (h : w.Kept c arrived strays) {success : Bool} (hrequest : w.request = some (.answered success)) :
    Kept c { w with request := none, confirmed := w.confirmed + if success then 1 else 0 } arrived strays := by
  have hheard : heard { w with request := none, confirmed := w.confirmed + if success then 1 else 0 } = w.heard := by
    rw [heard_eq (by rfl), heard, hrequest]
    rfl
  exact ⟨fun _ hphase => (nomatch hphase), h.givenUp, h.brought, hheard ▸ h.atLeast, hheard ▸ h.atMost⟩

theorem Kept.failed (h : w.Kept c arrived strays) (failed : Option PyError) :
    Kept c { w with failed := failed } arrived strays :=
  ⟨h.request, h.givenUp, h.brought, h.atLeast, h.atMost⟩

/-- The worker gives its request up, and may end. -/
theorem Kept.giveUp (h : w.Kept c arrived strays) (hrequest : w.request = some phase) (failed : Option PyError) :
    Kept c { w with request := none, lost := w.lost + 1, failed := failed } arrived
      (strays ++ strayOf k w.confirmed phase) := by
  obtain ⟨frame, hframe, hok⟩ := h.request phase hrequest
  have hheard : heard { w with request := none, lost := w.lost + 1, failed := failed } = w.confirmed := heard_eq rfl
  have hle : w.confirmed ≤ w.heard := Nat.le_add_right _ _
  refine ⟨fun _ hphase => (nomatch hphase), ?_, h.brought, ?_, ?_⟩
  · intro r hr
    rcases List.mem_append.mp hr with hr | hr
    · exact h.givenUp r hr
    · unfold strayOf at hr
      split at hr
      · cases hr
      · obtain rfl := List.mem_singleton.mp hr
        exact ⟨frame, hframe, hok⟩
  · rw [hheard]
    exact (List.range_sublist.mpr hle).trans h.atLeast
  · have hatMost := h.atMost
    have hlength : w.heard + (strayOf k w.confirmed phase).length ≤ w.confirmed + 1 := by
      rw [heard, hrequest]
      cases phase with
      | answered success => cases success <;> simp [strayOf, PushPhase.isAccepted]
      | _ => simp [strayOf, PushPhase.isAccepted]
    rw [hheard, List.length_append]
    dsimp only
    omega

end RemoteWorker

/-! ## The invariant of the system -/

namespace RemoteSystem

/-- The frames that the queues have accepted from a worker. -/
def arrivedFrom (s : RemoteSystem) (k : ℕ) : List Arrival := s.arrivals.filter fun a => a.sender = k

/-- The requests that a worker has given up. -/
def givenUpBy (s : RemoteSystem) (k : ℕ) : List StrayRequest := s.strays.filter fun r => r.sender = k

/-- The queues keep to their lists, and what those fed from other hosts have accepted is what has arrived. -/
structure Sound (refuses : String → Bool) (c : Codec) (controllers : Dict String LoadedPipe)
    (objectOf : QueueHandle → ℕ) (s : RemoteSystem) : Prop where
  queues : ∃ t,
    SequentialRun (QueueStore.Answers refuses (DataFrame.fromByteArr c)) (fun _ => none) s.queues.returned t ∧
      s.queues.Represents (DataFrame.fromByteArr c) t
  opened : Opened controllers objectOf s.queues
  workers : ∀ (k : ℕ) (w : RemoteWorker), s.workers[k]? = some w → w.Kept c (s.arrivedFrom k) (s.givenUpBy k)
  senders : ∀ a ∈ s.arrivals, a.sender < s.workers.length
  accepted : ∀ w ∈ s.workers, acceptedOn w.queue.id s.queues.returned =
    (s.arrivals.filter fun a => a.qid = w.queue.id).map Arrival.body

end RemoteSystem

section System

variable {s s' : RemoteSystem}

theorem sender_of_mem_arrivalOf {k position : ℕ} {phase phase' : PushPhase} {a : Arrival}
    (h : a ∈ arrivalOf k position phase phase') : a.sender = k := by
  unfold arrivalOf at h
  split at h
  · rw [List.mem_singleton.mp h]
  · cases h

theorem sender_of_mem_strayOf {k position : ℕ} {phase : PushPhase} {r : StrayRequest}
    (h : r ∈ strayOf k position phase) : r.sender = k := by
  unfold strayOf at h
  split at h
  · cases h
  · rw [List.mem_singleton.mp h]

theorem set_of_getElem? {α : Type} {xs : List α} {n : ℕ} {x : α} (h : xs[n]? = some x) : xs.set n x = xs := by
  obtain ⟨hn, rfl⟩ := List.getElem?_eq_some_iff.mp h
  exact List.set_getElem_self hn

/-- What belongs to one worker only. -/
theorem filter_append_of_key {α : Type} {key : α → ℕ} (xs : List α) {ys : List α} {n : ℕ}
    (h : ∀ y ∈ ys, key y = n) (k : ℕ) :
    (xs ++ ys).filter (fun x => key x = k) = xs.filter (fun x => key x = k) ++ if n = k then ys else [] := by
  rw [List.filter_append]
  congr 1
  split_ifs with hk
  · rw [List.filter_eq_self]
    intro y hy
    rw [h y hy]
    exact decide_eq_true hk
  · rw [List.filter_eq_nil_iff]
    intro y hy heq
    exact hk ((h y hy).symm.trans (of_decide_eq_true heq))

/-- What has arrived is what the queues have accepted. -/
theorem acceptedOn_serves {s s' : QueueProcesses DataFrame} {q : APIQueue} {frame : DataFrame} {phase phase' : PushPhase}
    (h : Serves c s s' q frame phase phase') (k position : ℕ) (qid : String) :
    acceptedOn qid s'.returned = acceptedOn qid s.returned ++
      ((arrivalOf k position phase phase').filter fun a => a.qid = qid).map Arrival.body := by
  rcases h.accepted with ⟨call, rfl, rfl, -, -, hreturned⟩ | ⟨hnot, hsame⟩
  · rw [hreturned, acceptedOn_append, acceptedOn_accepted, arrivalOf]
    by_cases hqid : call.qid = qid <;> simp [hqid]
  · have hnone : arrivalOf k position phase phase' = [] := by
      unfold arrivalOf
      split
      · cases hnot
      · rfl
    rw [hsame, hnone]
    exact (List.append_nil _).symm

namespace RemoteSystem.Sound

variable {k : ℕ} {w w' : RemoteWorker}

/-- Something has changed for one worker. -/
theorem set (h : s.Sound refuses c controllers objectOf) (hw : s.workers[k]? = some w)
    {queues : QueueProcesses DataFrame} {strays : List StrayRequest} {new : List Arrival}
    (hqueues : ∃ t, SequentialRun (QueueStore.Answers refuses (DataFrame.fromByteArr c)) (fun _ => none)
      queues.returned t ∧ queues.Represents (DataFrame.fromByteArr c) t)
    (hmore : ∀ o qid, s.queues.qidOf o = some qid → queues.qidOf o = some qid)
    (hkept : w'.Kept c (s.arrivedFrom k ++ new) (strays.filter fun r => r.sender = k)) (hqueue : w'.queue = w.queue)
    (hnew : ∀ a ∈ new, a.sender = k)
    (hothers : ∀ j, j ≠ k → strays.filter (fun r => r.sender = j) = s.givenUpBy j)
    (haccepted : ∀ qid, acceptedOn qid queues.returned =
      acceptedOn qid s.queues.returned ++ (new.filter fun a => a.qid = qid).map Arrival.body) :
    Sound refuses c controllers objectOf
      { queues := queues, workers := s.workers.set k w', strays := strays, arrivals := s.arrivals ++ new } := by
  have hlt : k < s.workers.length := (List.getElem?_eq_some_iff.mp hw).1
  refine ⟨hqueues, fun q found hfound => hmore _ _ (h.opened q found hfound), ?_, ?_, ?_⟩
  · intro j v hv
    rw [arrivedFrom, givenUpBy, filter_append_of_key _ hnew]
    rw [List.getElem?_set] at hv
    split_ifs at hv with hj
    · subst hj
      obtain rfl := Option.some.inj hv
      rw [if_pos rfl]
      exact hkept
    · rw [if_neg hj, List.append_nil, hothers j (Ne.symm hj)]
      exact h.workers j v hv
  · intro a ha
    rw [List.length_set]
    rcases List.mem_append.mp ha with ha | ha
    · exact h.senders a ha
    · exact hnew a ha ▸ hlt
  · intro v hv
    have hold : ∃ u ∈ s.workers, u.queue = v.queue := by
      rcases List.mem_or_eq_of_mem_set hv with hv | rfl
      · exact ⟨v, hv, rfl⟩
      · exact ⟨w, List.mem_of_getElem? hw, hqueue.symm⟩
    obtain ⟨u, hu, huv⟩ := hold
    rw [haccepted, ← huv, h.accepted u hu, List.filter_append, List.map_append]

/-- Something has changed for one worker alone. -/
theorem setWorker (h : s.Sound refuses c controllers objectOf) (hw : s.workers[k]? = some w)
    {strays : List StrayRequest} (hkept : w'.Kept c (s.arrivedFrom k) (strays.filter fun r => r.sender = k))
    (hqueue : w'.queue = w.queue)
    (hothers : ∀ j, j ≠ k → strays.filter (fun r => r.sender = j) = s.givenUpBy j) :
    Sound refuses c controllers objectOf { s with workers := s.workers.set k w', strays := strays } := by
  have hkept' : w'.Kept c (s.arrivedFrom k ++ []) (strays.filter fun r => r.sender = k) := by rwa [List.append_nil]
  have hset := h.set hw h.queues (fun _ _ hq => hq) hkept' hqueue
    (fun _ ha => absurd ha List.not_mem_nil) hothers fun _ => (List.append_nil _).symm
  rwa [List.append_nil] at hset

/-- Another process takes a step on the queues. -/
theorem call (h : s.Sound refuses c controllers objectOf) {e : QueueEvent}
    (hroom : RemoteRoom c controllers objectOf s (.call e)) {queues : QueueProcesses DataFrame}
    (hstep : queueStep refuses (DataFrame.fromByteArr c) s.queues e = some queues) :
    Sound refuses c controllers objectOf { s with queues := queues } := by
  obtain ⟨hleaves, hother⟩ := hroom
  obtain ⟨t, hlegal, hrep⟩ := h.queues
  obtain ⟨t', hreturns, hrep'⟩ := hrep.step hleaves hstep
  refine ⟨⟨t', hlegal.returns hreturns, hrep'⟩, ?_, h.workers, h.senders, fun w hw => ?_⟩
  · exact fun q found hfound => QueueProcesses.qidOf_step hstep (h.opened q found hfound)
  · rw [acceptedOn_call hrep (fun qid hqid => hother qid hqid w hw) hstep]
    exact h.accepted w hw

/-- A request is given up. -/
theorem giveUp (h : s.Sound refuses c controllers objectOf) (hw : s.workers[k]? = some w) {phase : PushPhase}
    (hrequest : w.request = some phase) (failed : Option PyError) :
    Sound refuses c controllers objectOf
      { s with
        workers := s.workers.set k { w with request := none, lost := w.lost + 1, failed := failed }
        strays := s.strays ++ strayOf k w.confirmed phase } := by
  have hsender : ∀ r ∈ strayOf k w.confirmed phase, r.sender = k := fun r hr => sender_of_mem_strayOf hr
  refine h.setWorker hw ?_ rfl ?_
  · rw [filter_append_of_key _ hsender, if_pos rfl]
    exact (h.workers k w hw).giveUp hrequest failed
  · intro j hj
    rw [filter_append_of_key _ hsender, if_neg hj.symm, List.append_nil]
    rfl

/-- The steps keep the invariant. -/
theorem step (h : s.Sound refuses c controllers objectOf) {e : RemoteEvent}
    (hroom : RemoteRoom c controllers objectOf s e)
    (hstep : remoteStep refuses c controllers objectOf s e = some s') : s'.Sound refuses c controllers objectOf := by
  cases e with
  | call e =>
    obtain ⟨queues, hqueues, rfl⟩ := Option.map_eq_some_iff.mp hstep
    exact h.call hroom hqueues
  | emit k =>
    obtain ⟨w, hw, hstep⟩ := Option.bind_eq_some_iff.mp hstep
    split_ifs at hstep with hready
    obtain rfl := Option.some.inj hstep
    obtain ⟨-, hnone, hmore⟩ := hready
    exact h.setWorker hw ((h.workers k w hw).emit (Option.isNone_iff_eq_none.mp hnone) hmore) rfl fun _ _ => rfl
  | serve k move =>
    obtain ⟨w, hw, hstep⟩ := Option.bind_eq_some_iff.mp hstep
    obtain ⟨phase, hrequest, hstep⟩ := Option.bind_eq_some_iff.mp hstep
    obtain ⟨frame, hframe, hstep⟩ := Option.bind_eq_some_iff.mp hstep
    obtain ⟨⟨queues, phase'⟩, hserve, hstep⟩ := Option.bind_eq_some_iff.mp hstep
    obtain rfl := Option.some.inj hstep
    obtain ⟨t, hlegal, hrep⟩ := h.queues
    have hkept := h.workers k w hw
    obtain ⟨frame', hframe', hok⟩ := hkept.request phase hrequest
    obtain rfl := Option.some.inj (hframe.symm.trans hframe')
    obtain ⟨hserves, t', hreturns, hrep', hmore⟩ :=
      servePush_cases hrep h.opened hok (hroom w hw phase hrequest frame hframe) hserve
    exact h.set hw ⟨t', hlegal.returns hreturns, hrep'⟩ hmore (hkept.serve hrequest hframe hserves) rfl
      (fun a ha => sender_of_mem_arrivalOf ha) (fun _ _ => rfl) (acceptedOn_serves hserves k w.confirmed)
  | serveStray i move =>
    obtain ⟨r, hr, hstep⟩ := Option.bind_eq_some_iff.mp hstep
    obtain ⟨w, hw, hstep⟩ := Option.bind_eq_some_iff.mp hstep
    obtain ⟨frame, hframe, hstep⟩ := Option.bind_eq_some_iff.mp hstep
    obtain ⟨⟨queues, phase'⟩, hserve, hstep⟩ := Option.bind_eq_some_iff.mp hstep
    obtain rfl := Option.some.inj hstep
    obtain ⟨t, hlegal, hrep⟩ := h.queues
    have hkept := h.workers r.sender w hw
    have hperm : (r :: s.strays.eraseIdx i).Perm s.strays := by
      obtain ⟨hi, rfl⟩ := List.getElem?_eq_some_iff.mp hr
      exact List.getElem_cons_eraseIdx_perm hi
    have hmine : (s.givenUpBy r.sender).Perm (r :: (s.strays.eraseIdx i).filter fun r' => r'.sender = r.sender) := by
      have hfilter := hperm.filter fun r' => r'.sender = r.sender
      rw [List.filter_cons, if_pos (decide_eq_true rfl)] at hfilter
      exact hfilter.symm
    obtain ⟨frame', hframe', hok⟩ := hkept.givenUp r (hmine.mem_iff.mpr List.mem_cons_self)
    obtain rfl := Option.some.inj (hframe.symm.trans hframe')
    obtain ⟨hserves, t', hreturns, hrep', hmore⟩ :=
      servePush_cases hrep h.opened hok (hroom r hr w hw frame hframe) hserve
    have hsender : ∀ r' ∈ strayOf r.sender r.position phase', r'.sender = r.sender := fun r' hr' =>
      sender_of_mem_strayOf hr'
    have hsame : ∀ j, j ≠ r.sender →
        (s.strays.eraseIdx i ++ strayOf r.sender r.position phase').filter (fun r' => r'.sender = j) =
          s.givenUpBy j := by
      intro j hj
      rw [filter_append_of_key _ hsender, if_neg hj.symm, List.append_nil]
      exact filter_eraseIdx hr (by simpa using hj.symm)
    have hkept' : w.Kept c (s.arrivedFrom r.sender ++ arrivalOf r.sender r.position r.phase phase')
        ((s.strays.eraseIdx i ++ strayOf r.sender r.position phase').filter fun r' => r'.sender = r.sender) := by
      rw [filter_append_of_key _ hsender, if_pos rfl]
      exact hkept.serveStray hframe hserves hmine
    have hset := h.set hw ⟨t', hlegal.returns hreturns, hrep'⟩ hmore hkept' rfl
      (fun a ha => sender_of_mem_arrivalOf ha) hsame (acceptedOn_serves hserves r.sender r.position)
    rwa [set_of_getElem? hw] at hset
  | answer k =>
    obtain ⟨w, hw, hstep⟩ := Option.bind_eq_some_iff.mp hstep
    split at hstep
    · rename_i success hrequest
      obtain rfl := Option.some.inj hstep
      exact h.setWorker hw ((h.workers k w hw).answer hrequest) rfl fun _ _ => rfl
    · cases hstep
  | disconnect k =>
    obtain ⟨w, hw, hstep⟩ := Option.bind_eq_some_iff.mp hstep
    obtain ⟨phase, hrequest, hstep⟩ := Option.bind_eq_some_iff.mp hstep
    obtain rfl := Option.some.inj hstep
    exact h.giveUp hw hrequest w.failed
  | fail k e =>
    obtain ⟨w, hw, hstep⟩ := Option.bind_eq_some_iff.mp hstep
    split_ifs at hstep
    split at hstep
    · obtain rfl := Option.some.inj hstep
      exact h.setWorker hw ((h.workers k w hw).failed (some e)) rfl fun _ _ => rfl
    · rename_i phase hrequest
      obtain rfl := Option.some.inj hstep
      exact h.giveUp hw hrequest (some e)

end RemoteSystem.Sound

/-! ## What the workers have been told -/

/-- The workers at their start. -/
structure RemoteWorker.Fresh (w : RemoteWorker) : Prop where
  confirmed : w.confirmed = 0
  request : w.request = none
  lost : w.lost = 0

/-- The node's queues are open, and empty when they are fed from other hosts. No request has been made. -/
structure RemoteSystem.Ready (refuses : String → Bool) (c : Codec) (controllers : Dict String LoadedPipe)
    (objectOf : QueueHandle → ℕ) (s : RemoteSystem) : Prop where
  queues : ∃ t,
    SequentialRun (QueueStore.Answers refuses (DataFrame.fromByteArr c)) (fun _ => none) s.queues.returned t ∧
      s.queues.Represents (DataFrame.fromByteArr c) t
  opened : Opened controllers objectOf s.queues
  fresh : ∀ w ∈ s.workers, w.Fresh ∧ acceptedOn w.queue.id s.queues.returned = []
  strays : s.strays = []
  arrivals : s.arrivals = []

theorem RemoteSystem.Ready.sound (h : s.Ready refuses c controllers objectOf) :
    s.Sound refuses c controllers objectOf where
  queues := h.queues
  opened := h.opened
  workers k w hw := by
    obtain ⟨⟨hconfirmed, hrequest, hlost⟩, -⟩ := h.fresh w (List.mem_of_getElem? hw)
    have hheard : w.heard = 0 := by simp [RemoteWorker.heard, hconfirmed, hrequest]
    rw [arrivedFrom, givenUpBy, h.arrivals, h.strays]
    refine ⟨fun phase hphase => ?_, fun _ hr => absurd hr List.not_mem_nil,
      fun _ ha => absurd ha List.not_mem_nil, ?_, ?_⟩
    · rw [hrequest] at hphase
      cases hphase
    · rw [hheard]
      exact List.nil_sublist _
    · exact Nat.zero_le _
  senders a ha := by
    rw [h.arrivals] at ha
    cases ha
  accepted w hw := by
    rw [(h.fresh w hw).2, h.arrivals]
    rfl

variable {s₀ : RemoteSystem} {events : List RemoteEvent}

theorem sound_of_remoteRun (hready : s₀.Ready refuses c controllers objectOf)
    (hroom : Along (remoteStep refuses c controllers objectOf) (RemoteRoom c controllers objectOf) s₀ events)
    (hrun : runFrom (remoteStep refuses c controllers objectOf) s₀ events = some s) :
    s.Sound refuses c controllers objectOf :=
  hroom.invariant (fun _ _ _ h hguard hstep => h.step hguard hstep) hready.sound hrun

/-- A frame as the readers of its queue get it. -/
def asRead (c : Codec) (frame : DataFrame) : Option DataFrame :=
  (do let body ← frame.toByteArr c
      DataFrame.fromByteArr c body : Except PyError DataFrame).toOption

/-- The frames that a queue has accepted from a worker, as readers get them. -/
theorem RemoteWorker.Kept.decoded {w : RemoteWorker} {arrived : List Arrival} {strays : List StrayRequest}
    (h : w.Kept c arrived strays) : arrived.filterMap (fun a => (DataFrame.fromByteArr c a.body).toOption) =
      (arrived.map Arrival.position).filterMap fun j => w.frames[j]?.bind (asRead c) := by
  rw [List.filterMap_map]
  apply List.filterMap_congr
  intro a ha
  obtain ⟨-, frame, hframe, hbody⟩ := h.brought a ha
  rw [Function.comp_apply, hframe, Option.bind_some, asRead, hbody]
  rfl

theorem filterMap_range_take {α β : Type} (xs : List α) (f : α → Option β) {n : ℕ} (hn : n ≤ xs.length) :
    (List.range n).filterMap (fun j => xs[j]?.bind f) = (xs.take n).filterMap f := by
  induction n with
  | zero => rfl
  | succ n ih =>
    have hlt : n < xs.length := hn
    rw [List.range_succ, List.filterMap_append, ih (Nat.le_of_lt hlt), List.take_add_one, List.filterMap_append,
      List.getElem?_eq_getElem hlt]
    congr 1
    cases h : f xs[n] <;> simp [h, hlt]

/-- A worker has been told of frames that it had. -/
theorem RemoteWorker.Kept.confirmed_le {w : RemoteWorker} {arrived : List Arrival} {strays : List StrayRequest}
    (h : w.Kept c arrived strays) : w.confirmed ≤ w.frames.length := by
  by_contra hlt
  have hmem : w.frames.length ∈ List.range w.heard := by
    have hle : w.confirmed ≤ w.heard := Nat.le_add_right _ _
    exact List.mem_range.mpr (by omega)
  obtain ⟨a, ha, hposition⟩ := List.mem_map.mp (h.atLeast.subset hmem)
  obtain ⟨-, frame, hframe, -⟩ := h.brought a ha
  rw [hposition, List.getElem?_eq_none le_rfl] at hframe
  cases hframe

/-- What a worker has brought, its queue has accepted. -/
theorem RemoteSystem.Sound.arrivedFrom_eq (h : s.Sound refuses c controllers objectOf) {k : ℕ} {w : RemoteWorker}
    (hw : s.workers[k]? = some w) :
    s.arrivedFrom k = (s.arrivals.filter fun a => a.qid = w.queue.id).filter fun a => a.sender = k := by
  rw [arrivedFrom, List.filter_filter]
  apply List.filter_congr
  intro a ha
  by_cases hk : a.sender = k
  · have hqid := ((h.workers k w hw).brought a (List.mem_filter.mpr ⟨ha, decide_eq_true hk⟩)).1
    simp [hqid]
  · simp [hk]

theorem RemoteSystem.Sound.decodedOn_eq (h : s.Sound refuses c controllers objectOf) {w : RemoteWorker}
    (hw : w ∈ s.workers) : decodedOn (DataFrame.fromByteArr c) w.queue.id s.queues.returned =
      (s.arrivals.filter fun a => a.qid = w.queue.id).filterMap fun a => (DataFrame.fromByteArr c a.body).toOption := by
  rw [decodedOn, h.accepted w hw, List.filterMap_map]
  rfl

theorem on_filterMap {β : Type} (f : Arrival → Option β) (xs : List Arrival) (k : ℕ) :
    on k (xs.filterMap fun a => (f a).map fun y => (a.sender, y)) =
      (xs.filter fun a => a.sender = k).filterMap f := by
  induction xs with
  | nil => rfl
  | cons a xs ih =>
    cases hf : f a with
    | none =>
      rw [List.filterMap_cons_none (by rw [hf]; rfl), List.filter_cons, ih]
      split_ifs
      · rw [List.filterMap_cons_none hf]
      · rfl
    | some y =>
      rw [List.filterMap_cons_some (by rw [hf]; rfl), List.filter_cons]
      by_cases hk : a.sender = k
      · rw [if_pos (decide_eq_true hk), List.filterMap_cons_some hf, ← ih]
        simp [on, hk]
      · rw [if_neg (by simpa using hk), ← ih]
        simp [on, hk]

/-- A worker whose requests have all been answered has brought each frame once. -/
theorem RemoteWorker.Kept.arrived_eq {w : RemoteWorker} {arrived : List Arrival} {strays : List StrayRequest}
    (h : w.Kept c arrived strays) (hlost : w.lost = 0) (hrequest : w.request = none) :
    arrived.map Arrival.position = List.range w.confirmed := by
  have hheard : w.heard = w.confirmed := heard_eq (by rw [hrequest]; rfl)
  have hatMost := h.atMost
  have hatLeast := h.atLeast
  rw [hheard] at hatMost hatLeast
  refine (hatLeast.eq_of_length_le ?_).symm
  rw [List.length_map, List.length_range]
  omega

theorem map_eq_map_range {α β : Type} (xs : List α) (f : α → β) (d : β) :
    xs.map f = (List.range xs.length).map fun k => (xs[k]?.map f).getD d :=
  List.ext_getElem (by simp) fun k hk _ => by
    have hlt : k < xs.length := by simpa using hk
    simp [hlt]

/-- What has arrived has been brought by the workers. -/
theorem RemoteSystem.Sound.filterMap_eq_sum {β : Type} (h : s.Sound refuses c controllers objectOf)
    (f : Arrival → Option β) (qid : String) :
    ((s.arrivals.filter fun a => a.qid = qid).filterMap f : Multiset β) =
      ((List.range s.workers.length).map fun k =>
        (((s.arrivals.filter fun a => a.qid = qid).filter fun a => a.sender = k).filterMap f : Multiset β)).sum := by
  let mine := s.arrivals.filter fun a => a.qid = qid
  let tagged := mine.filterMap fun a => (f a).map fun y => (a.sender, y)
  have htags : ∀ x ∈ tagged, x.1 ∈ List.range s.workers.length := by
    intro x hx
    obtain ⟨a, ha, hx⟩ := List.mem_filterMap.mp hx
    obtain ⟨y, -, rfl⟩ := Option.map_eq_some_iff.mp hx
    exact List.mem_range.mpr (h.senders a (List.mem_of_mem_filter ha))
  have huntag : mine.filterMap f = tagged.map Prod.snd := by
    rw [List.map_filterMap]
    simp [Function.comp_def]
  show (mine.filterMap f : Multiset β) = _
  rw [huntag, ← sum_on List.nodup_range htags]
  simp only [mine, tagged, on_filterMap]

/-- A worker has brought nothing to the queue of another one. -/
theorem RemoteSystem.Sound.brought_eq (h : s.Sound refuses c controllers objectOf) {k : ℕ} {w : RemoteWorker}
    (hw : s.workers[k]? = some w) (qid : String) :
    (s.arrivals.filter fun a => a.qid = qid).filter (fun a => a.sender = k) =
      if w.queue.id = qid then s.arrivedFrom k else [] := by
  split_ifs with hqid
  · rw [h.arrivedFrom_eq hw, hqid]
  · rw [List.filter_eq_nil_iff]
    intro a ha hsender
    obtain ⟨ha, hthis⟩ := List.mem_filter.mp ha
    have hother := ((h.workers k w hw).brought a (List.mem_filter.mpr ⟨ha, hsender⟩)).1
    exact hqid (hother.symm.trans (of_decide_eq_true hthis))

/-- A queue has accepted more than the frames for which `emit` has returned `True`, or is about to, only where answers
were lost: for each request that a worker has given up, one frame at most. -/
theorem copies_le (hready : s₀.Ready refuses c controllers objectOf)
    (hroom : Along (remoteStep refuses c controllers objectOf) (RemoteRoom c controllers objectOf) s₀ events)
    (hrun : runFrom (remoteStep refuses c controllers objectOf) s₀ events = some s) {qid : String}
    (hfed : ∃ w ∈ s.workers, w.queue.id = qid) :
    (acceptedOn qid s.queues.returned).length ≤
      (s.workers.map fun w => if w.queue.id = qid then w.heard + w.lost else 0).sum := by
  have h := sound_of_remoteRun hready hroom hrun
  obtain ⟨v, hv, rfl⟩ := hfed
  have hcount := congrArg Multiset.cardHom (h.filterMap_eq_sum some v.queue.id)
  rw [map_list_sum, List.map_map] at hcount
  calc (acceptedOn v.queue.id s.queues.returned).length
      = Multiset.cardHom
          (((s.arrivals.filter fun a => a.qid = v.queue.id).filterMap some : List Arrival) : Multiset Arrival) := by
        simp [h.accepted v hv]
    _ = _ := hcount
    _ ≤ _ := by
      rw [map_eq_map_range s.workers _ 0]
      apply List.sum_le_sum
      intro k hk
      have hw := List.getElem?_eq_getElem (List.mem_range.mp hk)
      have hatMost := (h.workers k _ hw).atMost
      rw [Function.comp_apply, h.brought_eq hw, hw]
      split_ifs with hqid
      · simp [hqid]
        omega
      · simp [hqid]

/-- Where every request has been answered, a queue has accepted just the frames for which `emit` has returned `True`,
each of them once. -/
theorem exactly_once (hready : s₀.Ready refuses c controllers objectOf)
    (hroom : Along (remoteStep refuses c controllers objectOf) (RemoteRoom c controllers objectOf) s₀ events)
    (hrun : runFrom (remoteStep refuses c controllers objectOf) s₀ events = some s) {qid : String}
    (hfed : ∃ w ∈ s.workers, w.queue.id = qid)
    (hanswered : ∀ w ∈ s.workers, w.queue.id = qid → w.lost = 0 ∧ w.request = none) :
    (decodedOn (DataFrame.fromByteArr c) qid s.queues.returned : Multiset DataFrame) = (s.workers.map fun w =>
      if w.queue.id = qid then ((w.frames.take w.confirmed).filterMap (asRead c) : Multiset DataFrame) else 0).sum := by
  have h := sound_of_remoteRun hready hroom hrun
  obtain ⟨v, hv, rfl⟩ := hfed
  rw [h.decodedOn_eq hv, h.filterMap_eq_sum, map_eq_map_range s.workers _ 0]
  refine congrArg List.sum (List.map_congr_left fun k hk => ?_)
  have hlt := List.mem_range.mp hk
  have hw := List.getElem?_eq_getElem hlt
  have hkept := h.workers k _ hw
  rw [h.brought_eq hw, hw]
  simp only [Option.map_some, Option.getD_some]
  split_ifs with hqid
  · obtain ⟨hlost, hrequest⟩ := hanswered _ (List.getElem_mem hlt) hqid
    rw [hkept.decoded, hkept.arrived_eq hlost hrequest, filterMap_range_take _ _ hkept.confirmed_le]
  · rfl

/-- The node has opened its queues. -/
theorem RemoteSystem.ready_of_run {setup : List QueueEvent} {queues : QueueProcesses DataFrame}
    (hroom : Along (queueStep refuses (DataFrame.fromByteArr c)) (LeavesRoom (DataFrame.fromByteArr c)) .start setup)
    (hrun : runFrom (queueStep refuses (DataFrame.fromByteArr c)) .start setup = some queues)
    (hopened : Opened controllers objectOf queues) {workers : List RemoteWorker}
    (hfresh : ∀ w ∈ workers, w.Fresh ∧ acceptedOn w.queue.id queues.returned = []) :
    Ready refuses c controllers objectOf ⟨queues, workers, [], []⟩ where
  queues := hroom.linearizes (fun _ _ _ _ h hguard hstep => h.step hguard hstep) represents_start rfl hrun
  opened := hopened
  fresh := hfresh
  strays := rfl
  arrivals := rfl

end System

/-! ## A lost answer -/

/-- The queue to a processor of this host, as other hosts know it. -/
def toNear : APIQueue := { toTwo with host := some "near" }

/-- A worker on another host has two frames for the processor. -/
def farWorker : RemoteWorker where
  queue := toNear
  isRemote := by decide
  frames := [PipeLine.taggedFrame, PipeLine.taggedFrame]
  confirmed := 0
  request := none
  failed := none
  lost := 0

/-- The node has a pipe with the queue to this processor. -/
def nearPipe : Dict String LoadedPipe :=
  Dict.empty.set "main" ⟨twoStage "main" "two", Dict.empty.set "main->two" (QueueHandle.ofDef toNear)⟩

/-- The node and a worker of the processor open the queue. -/
def nearSetup : List QueueEvent := [.init toNear, .init toNear]

theorem opened_nearPipe {queues : QueueProcesses DataFrame} (h : queues.qidOf 0 = some toNear.id) :
    Opened nearPipe (fun _ => 0) queues := by
  intro q found hfound
  have hkey : q.id = "main->two" := by
    by_contra hne
    have hnone : pushQ nearPipe q = none := by
      have hget : (Dict.empty.set "main->two" (QueueHandle.ofDef toNear)).get? q.id = none := by
        rw [Dict.get?_set_of_ne _ _ hne]
        rfl
      show List.findSome? _ [_] = none
      simp [hget]
    rw [hnone] at hfound
    cases hfound
  rw [h, hkey]
  rfl

/-- The node with its queue, and the worker before its first request. -/
def nearSystem : Option RemoteSystem :=
  (runFrom (queueStep (fun _ => false) (DataFrame.fromByteArr Codec.emptyObjects)) .start nearSetup).map fun queues =>
    ⟨queues, [farWorker], [], []⟩

theorem ready_nearSystem {s : RemoteSystem} (h : nearSystem = some s) :
    s.Ready (fun _ => false) Codec.emptyObjects nearPipe fun _ => 0 := by
  have hroom : Along (queueStep (fun _ => false) (DataFrame.fromByteArr Codec.emptyObjects))
      (LeavesRoom (DataFrame.fromByteArr Codec.emptyObjects)) .start nearSetup := by
    decide +kernel
  have hany : (runFrom (queueStep (fun _ => false) (DataFrame.fromByteArr Codec.emptyObjects)) .start nearSetup).any
      (fun queues => queues.qidOf 0 = some toNear.id ∧ acceptedOn toNear.id queues.returned = []) = true := by
    decide +kernel
  obtain ⟨queues, hrun, rfl⟩ := Option.map_eq_some_iff.mp h
  rw [hrun] at hany
  obtain ⟨hopened, hempty⟩ := of_decide_eq_true hany
  exact RemoteSystem.ready_of_run hroom hrun (opened_nearPipe hopened)
    (List.forall_mem_singleton.mpr ⟨⟨rfl, rfl, rfl⟩, hempty⟩)

/-- The first answer is lost. The request goes on behind the one that the worker makes in its place, and the queue
accepts the first frame twice. -/
def lostAnswer : List RemoteEvent :=
  [.emit 0, .serve 0 (.go 0), .disconnect 0, .emit 0, .serve 0 (.go 0), .serve 0 (.go 0), .answer 0,
    .serveStray 0 (.go 0), .call (.check 1), .call (.read 0 0), .emit 0, .serve 0 (.go 0), .serve 0 (.go 0), .answer 0]

theorem copies_le_lostAnswer : ∃ s₀ s, nearSystem = some s₀ ∧
    runFrom (remoteStep (fun _ => false) Codec.emptyObjects nearPipe fun _ => 0) s₀ lostAnswer = some s ∧
      (s.workers.map fun w => if w.queue.id = toNear.id then w.heard + w.lost else 0).sum = 3 ∧
        (acceptedOn toNear.id s.queues.returned).length ≤
          (s.workers.map fun w => if w.queue.id = toNear.id then w.heard + w.lost else 0).sum := by
  have hany : nearSystem.any (fun s₀ =>
      Along (remoteStep (fun _ => false) Codec.emptyObjects nearPipe fun _ => 0)
        (RemoteRoom Codec.emptyObjects nearPipe fun _ => 0) s₀ lostAnswer ∧
      (runFrom (remoteStep (fun _ => false) Codec.emptyObjects nearPipe fun _ => 0) s₀ lostAnswer).any (fun s =>
        (∃ w ∈ s.workers, w.queue.id = toNear.id) ∧
          (s.workers.map fun w => if w.queue.id = toNear.id then w.heard + w.lost else 0).sum = 3) = true) = true := by
    decide +kernel
  obtain ⟨s₀, hs₀, hrest⟩ := (Option.any_eq_true ..).mp hany
  obtain ⟨hroom, hany⟩ := of_decide_eq_true hrest
  obtain ⟨s, hrun, hrest⟩ := (Option.any_eq_true ..).mp hany
  obtain ⟨hfed, hthree⟩ := of_decide_eq_true hrest
  exact ⟨s₀, s, hs₀, hrun, hthree, copies_le (ready_nearSystem hs₀) hroom hrun hfed⟩

/-- Both requests are answered. -/
def noneLost : List RemoteEvent :=
  [.emit 0, .serve 0 (.go 0), .serve 0 (.go 0), .answer 0, .call (.check 1), .emit 0, .serve 0 (.go 0),
    .call (.read 0 0), .serve 0 (.go 0), .answer 0]

theorem exactly_once_noneLost : ∃ s₀ s, nearSystem = some s₀ ∧
    runFrom (remoteStep (fun _ => false) Codec.emptyObjects nearPipe fun _ => 0) s₀ noneLost = some s ∧
      (acceptedOn toNear.id s.queues.returned).length = 2 ∧
        (decodedOn (DataFrame.fromByteArr Codec.emptyObjects) toNear.id s.queues.returned : Multiset DataFrame) =
          (s.workers.map fun w => if w.queue.id = toNear.id then
            ((w.frames.take w.confirmed).filterMap (asRead Codec.emptyObjects) : Multiset DataFrame) else 0).sum := by
  have hany : nearSystem.any (fun s₀ =>
      Along (remoteStep (fun _ => false) Codec.emptyObjects nearPipe fun _ => 0)
        (RemoteRoom Codec.emptyObjects nearPipe fun _ => 0) s₀ noneLost ∧
      (runFrom (remoteStep (fun _ => false) Codec.emptyObjects nearPipe fun _ => 0) s₀ noneLost).any (fun s =>
        (acceptedOn toNear.id s.queues.returned).length = 2 ∧ (∃ w ∈ s.workers, w.queue.id = toNear.id) ∧
          ∀ w ∈ s.workers, w.queue.id = toNear.id → w.lost = 0 ∧ w.request.isNone) = true) = true := by
    decide +kernel
  obtain ⟨s₀, hs₀, hrest⟩ := (Option.any_eq_true ..).mp hany
  obtain ⟨hroom, hany⟩ := of_decide_eq_true hrest
  obtain ⟨s, hrun, hrest⟩ := (Option.any_eq_true ..).mp hany
  obtain ⟨htwo, hfed, hanswered⟩ := of_decide_eq_true hrest
  exact ⟨s₀, s, hs₀, hrun, htwo, exactly_once (ready_nearSystem hs₀) hroom hrun hfed fun w hw hqid =>
    ⟨(hanswered w hw hqid).1, Option.isNone_iff_eq_none.mp (hanswered w hw hqid).2⟩⟩

end Upipe
