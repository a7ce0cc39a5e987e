import Upipe.Common.Flow
import Upipe.Entities.MemQueue.Processes
import Upipe.Entities.Pipe.Line

/-!
# A network of workers

A pipe of any shape, with any number of workers for each processor. A worker opens the queues that the node has told
it, and then runs

    while True:
        data = await worker.get()
        if data is None: continue
        for x in handle(data):
            while not await worker.emit(x): continue

A worker that produces values of its own, as the pipe process does, begins with values to emit. Workers may be launched
at any time, and every one of them takes its steps between those of the others: `get` goes over its input queues from
`consumer_next_q_index` on, and `emit` over its output queues up to the first that refuses.

`network_sound` says that at any time the frames that have come through the queues are part of what the processors make
of what they were given, and `network_delivers` that they are all of it when nothing is left to do. How many workers a
processor has and how their steps interleave makes no difference to that (`same_outcome`).
-/

namespace Upipe

open Upipe.Common MemQueue

deriving instance DecidableEq for DataFrame

/-! ## Processors -/

/-- What a worker opens a queue for. -/
inductive QueueEnd where
  | input | output | sink
deriving DecidableEq

/-- The queue objects that `_add_q` makes for a queue. -/
def endsOf (id : String) (q : APIQueue) : List (QueueEnd × APIQueue) :=
  if q.id = sinkQueueId then [(.sink, q)]
  else (if q.toP = id then [(.input, q)] else []) ++ if q.fromP = id then [(.output, q)] else []

/-- The ids of the queues at one end. -/
def idsAt (at_ : QueueEnd) (ends : List (QueueEnd × APIQueue)) : List String :=
  (ends.filter fun e => e.1 = at_).map fun e => e.2.id

/-- A program of the pipe: the queues that it opens, all of them on this machine, and what it goes on to send when it
has got a frame. -/
structure Station where
  ends : List (QueueEnd × APIQueue)
  handle : DataFrame → Except PyError (List EmitData)
  nodup : ∀ at_, (idsAt at_ ends).Nodup
  oneSink : (idsAt .sink ends).length ≤ 1
  isLocal : ∀ e ∈ ends, e.2.host.getD "" = ""

section Worker

variable (c : Codec)

/-- The frame that a reader gets for a value that has been emitted. -/
def carried (id : PyVal) (data : EmitData) : Option DataFrame :=
  (do let frame ← stampedWith c id data
      let body ← frame.toByteArr c
      DataFrame.fromByteArr c body : Except PyError DataFrame).toOption

namespace Station

def inputs (p : Station) : List String := idsAt .input p.ends

/-- Where `emit` sends: to the output queues, or to the sink when there are none. -/
def outputs (p : Station) : List String :=
  if idsAt .output p.ends = [] then idsAt .sink p.ends else idsAt .output p.ends

/-- What comes of a frame. -/
def madeOf (p : Station) (frame : DataFrame) : List DataFrame :=
  match p.handle frame with
  | .error _ => []
  | .ok sending => sending.filterMap (carried c (currentIdOf frame))

/-- The processor as a node of the flow. -/
def node (p : Station) : FlowNode String DataFrame where
  inputs := p.inputs
  outputs := p.outputs
  makes frame := p.madeOf c frame

end Station

/-! ## Workers -/

/-- Where a worker is: at a queue that it is to open, at a queue that `get` asks, or at one that `emit` sends to; or
it waits for the lock of that. -/
inductive WorkerPhase where
  | joining (ends : List (QueueEnd × APIQueue))
  | asking (i : ℕ)
  | reading (i : ℕ) (call : WaitingGet)
  | emitting (i : ℕ)
  | writing (i : ℕ) (call : WaitingPut)
  | failed (e : PyError)

/-- Nothing is left to send. -/
def WorkerPhase.isAsking : WorkerPhase → Bool
  | .asking _ => true
  | _ => false

/-- The frame has gone to a queue before this one. -/
def WorkerPhase.hasSent : WorkerPhase → Bool
  | .emitting i => 0 < i
  | _ => false

/-- A worker process. A queue object is known by its place among all objects and by the id of its queue. `sending` are
the values that no `emit` has returned `True` for. `given`, `received` and `sent` are ghosts: the values that it began
with, the frames that its `get` calls took and those that its `emit` calls put, with the queues. -/
structure StationWorker where
  station : ℕ
  inQs : List (ℕ × String)
  outQs : List (ℕ × String)
  sinkQ : Option (ℕ × String)
  consumerNextQIndex : ℕ
  currentPipeExecutionId : PyVal
  sending : List EmitData
  phase : WorkerPhase
  given : List EmitData
  received : List (String × DataFrame)
  sent : List (String × DataFrame)

/-- How the system goes on with a worker: its lock is free, or `acquire_lock` times out. -/
inductive NetMove where
  | go (now : UInt64)
  | timeout

namespace StationWorker

/-- The queues that `emit` sends to. -/
def targets (w : StationWorker) : List (ℕ × String) := if w.outQs = [] then w.sinkQ.toList else w.outQs

/-- The program goes on: with the next value to emit, or with `get`. -/
def ready (w : StationWorker) : StationWorker :=
  { w with phase := if w.sending.isEmpty then .asking 0 else .emitting 0 }

/-- The process ends with an exception. -/
def fail (e : PyError) (w : StationWorker) : StationWorker := { w with phase := .failed e }

/-- `_add_q` keeps the object. -/
def attach (at_ : QueueEnd) (q : ℕ × String) (w : StationWorker) : StationWorker :=
  match at_ with
  | .input => { w with inQs := w.inQs ++ [q] }
  | .output => { w with outQs := w.outQs ++ [q] }
  | .sink => { w with sinkQ := some q }

/-- The worker with queues that are still to be opened. -/
def join (ends : List (QueueEnd × APIQueue)) (w : StationWorker) : StationWorker :=
  match ends with
  | [] => w.ready
  | _ :: _ => { w with phase := .joining ends }

/-- A process has been launched. -/
def launched (n : ℕ) (p : Station) (given : List EmitData) : StationWorker :=
  { station := n, inQs := [], outQs := [], sinkQ := none, consumerNextQIndex := 0, currentPipeExecutionId := .none
    sending := given, phase := .joining [], given := given, received := [], sent := [] : StationWorker }.join p.ends

/-- `get` turns to the next queue. Behind the last it returns `None`, and is called again. -/
def ask (i : ℕ) (w : StationWorker) : StationWorker := { w with phase := .asking (if i < w.inQs.length then i else 0) }

/-- What follows in `get` and in the program when a frame has been read. -/
def receive (p : Station) (qid : String) (frame : DataFrame) (w : StationWorker) : StationWorker :=
  let w := { w with
    consumerNextQIndex := w.consumerNextQIndex + 1
    currentPipeExecutionId := currentIdOf frame
    received := w.received ++ [(qid, frame)] }
  match p.handle frame with
  | .error e => w.fail e
  | .ok sending => { w with sending := sending }.ready

/-- The queue has taken the frame. Behind the last queue `emit` returns `True`. -/
def emitted (i : ℕ) (call : WaitingPut) (w : StationWorker) : StationWorker :=
  let w := { w with
    sent := w.sent ++ ((DataFrame.fromByteArr c call.body).toOption.map fun frame => (call.qid, frame)).toList }
  if i + 1 < w.targets.length then { w with phase := .emitting (i + 1) } else { w with sending := w.sending.tail }.ready

/-- The exception of an `emit` that does not come to its queues. -/
def stampError (w : StationWorker) : Option PyError :=
  match w.phase, w.sending with
  | .emitting _, data :: _ =>
      match stampedWith c w.currentPipeExecutionId data with
      | .error e => some e
      | .ok _ => none
  | _, _ => none

/-- The next step that the worker takes on the queues. -/
def request (s : QueueProcesses DataFrame) (w : StationWorker) : NetMove → Option QueueEvent
  | .go now =>
      match w.phase with
      | .joining [] | .failed _ => none
      | .joining ((_, api) :: _) => some (.init api)
      | .asking i => w.inQs[(w.consumerNextQIndex + i) % w.inQs.length]?.map fun q => .check q.1
      | .reading _ call => some (.read (s.checked.idxOf call) now)
      | .emitting i => do
          let data ← w.sending.head?
          let q ← w.targets[i]?
          some (.test q.1 (do
            let frame ← stampedWith c w.currentPipeExecutionId data
            frame.toByteArr c))
      | .writing _ call => some (.write (s.waiting.idxOf call) now)
  | .timeout =>
      match w.phase with
      | .reading _ call => some (.readTimeout (s.checked.idxOf call))
      | .writing _ call => some (.writeTimeout (s.waiting.idxOf call))
      | _ => none

/-- The worker behind that step. `answer` is what its call has returned, if it has. -/
def proceed (p : Station) (s s' : QueueProcesses DataFrame) (answer : Option (QueueAnswer DataFrame))
    (w : StationWorker) : StationWorker :=
  match w.phase, answer with
  | .joining ((at_, api) :: rest), some .opened => (w.attach at_ (s.objects.length, api.id)).join rest
  -- an exception while the queues are opened is printed, and the other queues are passed over
  | .joining _, _ => w.ready
  | .asking i, none => (s'.checked.getLast?.map fun call => { w with phase := .reading i call }).getD w
  | .asking i, some _ => w.ask (i + 1)
  | .reading _ call, some (.frame (some frame)) => w.receive p call.qid frame
  | .reading i _, some (.frame none) => w.ask (i + 1)
  | .emitting i, none => (s'.waiting.getLast?.map fun call => { w with phase := .writing i call }).getD w
  | .writing i call, some (.accepted true) => w.emitted c i call
  -- a refusal is the end of `emit`, which is called again
  | .emitting _, some (.accepted _) | .writing .., some (.accepted _) => { w with phase := .emitting 0 }
  | .reading .., some (.raised e) | .emitting _, some (.raised e) | .writing .., some (.raised e) => w.fail e
  | _, _ => w

end StationWorker

end Worker

/-! ## The network -/

/-- The queues of the machine and the workers. -/
structure Network where
  queues : QueueProcesses DataFrame
  workers : List StationWorker

/-- A worker is launched for a processor, or takes a step. -/
inductive NetEvent where
  | launch (n : ℕ) (given : List EmitData)
  | step (k : ℕ) (move : NetMove)

section Network

variable (refuses : String → Bool) (c : Codec) (stations : List Station)

/-- The steps. -/
def netStep (s : Network) : NetEvent → Option Network
  | .launch n given => stations[n]?.map fun p => { s with workers := s.workers ++ [.launched n p given] }
  | .step k move => do
      let w ← s.workers[k]?
      let p ← stations[w.station]?
      match w.stampError c with
      | some e => some { s with workers := s.workers.set k (w.fail e) }
      | none => do
          let e ← w.request c s.queues move
          let queues ← queueStep refuses (DataFrame.fromByteArr c) s.queues e
          some
            { queues := queues
              workers := s.workers.set k (w.proceed c p s.queues queues (queueAnswer s.queues queues)) }

/-- The queues can be opened, and only the first queue of an `emit` refuses. -/
def GoesOn (s : QueueProcesses DataFrame) (w : StationWorker) : QueueEvent → Prop
  | .init api => 97 ≤ api.size ∧ refuses (memoryName api.id) = false
  | .test o df => w.phase.hasSent → ∀ q ∈ s.queue o, q.putTest df ≠ .ok none
  | _ => True

instance (s : QueueProcesses DataFrame) (w : StationWorker) : ∀ e, Decidable (GoesOn refuses s w e)
  | .init api => inferInstanceAs (Decidable (97 ≤ api.size ∧ refuses (memoryName api.id) = false))
  | .test o df =>
      inferInstanceAs (Decidable (w.phase.hasSent → ∀ q ∈ s.queue o, q.putTest df ≠ .ok none))
  | .write .. | .writeTimeout _ | .check _ | .read .. | .readTimeout _ => isTrue trivial

/-- The step goes on, and leaves room in the queues. -/
def NetRoom (s : Network) : NetEvent → Prop
  | .launch .. => True
  | .step k move => ∀ w ∈ s.workers[k]?, ∀ e ∈ w.request c s.queues move,
      LeavesRoom (DataFrame.fromByteArr c) s.queues e ∧ GoesOn refuses s.queues w e

instance (s : Network) : ∀ e, Decidable (NetRoom refuses c s e)
  | .launch .. => isTrue trivial
  | .step k move =>
      inferInstanceAs (Decidable (∀ w ∈ s.workers[k]?, ∀ e ∈ w.request c s.queues move,
        LeavesRoom (DataFrame.fromByteArr c) s.queues e ∧ GoesOn refuses s.queues w e))

namespace Network

/-- No queue has been made. -/
def start : Network := ⟨.start, []⟩

/-- What the workers of the processors put on a queue of their own. -/
def given (s : Network) (q : String) : Multiset DataFrame :=
  (s.workers.map fun w => stations[w.station]?.elim 0 fun p =>
    if q ∈ p.outputs then (w.given.filterMap (carried c .none) : Multiset DataFrame) else 0).sum

/-- What has come through a queue. -/
def through (s : Network) (q : String) : Multiset DataFrame := takenFrom q s.queues.returned

/-- No worker has something to send, and all queues are empty. -/
structure Drained (s : Network) : Prop where
  workers : ∀ w ∈ s.workers, w.phase.isAsking
  queues : ∀ o, ∀ q ∈ s.queues.queue o, q.pendingCounter = 0

instance (s : Network) : Decidable s.Drained :=
  decidable_of_iff ((∀ w ∈ s.workers, w.phase.isAsking) ∧
    ∀ o < s.queues.objects.length, ∀ q ∈ s.queues.queue o, q.pendingCounter = 0) (by
      refine ⟨fun h => ⟨h.1, fun o q hq => ?_⟩, fun h => ⟨h.workers, fun o _ => h.queues o⟩⟩
      obtain ⟨object, -, hobject, -⟩ := QueueProcesses.queue_eq_some_iff.mp hq
      exact h.2 o (List.getElem?_eq_some_iff.mp hobject).1 q hq)

end Network

/-- No queue is read for two processors. -/
def OneReader (stations : List Station) : Prop := (stations.flatMap Station.inputs).Nodup

end Network

/-! ## The queues of a processor -/

theorem idsAt_append (at_ : QueueEnd) (xs ys : List (QueueEnd × APIQueue)) :
    idsAt at_ (xs ++ ys) = idsAt at_ xs ++ idsAt at_ ys := by
  simp [idsAt]

theorem idsAt_endsOf_sublist (at_ : QueueEnd) (id : String) (queues : List APIQueue) :
    (idsAt at_ (queues.flatMap (endsOf id))).Sublist (queues.map APIQueue.id) := by
  have hone : ∀ q, (idsAt at_ (endsOf id q)).Sublist [q.id] := by
    intro q
    unfold idsAt endsOf
    cases at_ <;> split_ifs <;> simp
  induction queues with
  | nil => exact List.Sublist.refl _
  | cons q queues ih =>
    rw [List.flatMap_cons, idsAt_append, List.map_cons]
    exact (hone q).append ih

/-- A queue is opened at its ends. Only the sink is opened as a sink. -/
theorem of_mem_endsOf {id : String} {queues : List APIQueue} {e : QueueEnd × APIQueue}
    (h : e ∈ queues.flatMap (endsOf id)) : e.2 ∈ queues ∧ (e.1 = .sink → e.2.id = sinkQueueId) := by
  obtain ⟨q, hmem, he⟩ := List.mem_flatMap.mp h
  have hq : e.2 = q ∧ (e.1 = .sink → q.id = sinkQueueId) := by
    unfold endsOf at he
    split_ifs at he with hsink hto hfrom hfrom <;> simp at he
    · exact ⟨congrArg Prod.snd he, fun _ => hsink⟩
    · rcases he with rfl | rfl <;> exact ⟨rfl, fun h => nomatch h⟩
    all_goals exact ⟨congrArg Prod.snd he, fun h => by rw [he] at h; cases h⟩
  exact ⟨hq.1.symm ▸ hmem, hq.1.symm ▸ hq.2⟩

namespace Station

/-- The loop of a worker: `queues` is what the node has told it, and `handle` what its program makes of a value. -/
def worker (id : String) (queues : List APIQueue) (handle : PyVal → Except PyError (List EmitData))
    (hnodup : (queues.map APIQueue.id).Nodup) (hlocal : ∀ q ∈ queues, q.host.getD "" = "") : Station where
  ends := queues.flatMap (endsOf id)
  handle frame := do
    let data ← frame.data
    if data = .none then pure [] else handle data
  nodup at_ := (idsAt_endsOf_sublist at_ id queues).nodup hnodup
  oneSink := by
    have hsub : idsAt .sink (queues.flatMap (endsOf id)) ⊆ [sinkQueueId] := by
      intro qid hqid
      obtain ⟨e, he, rfl⟩ := List.mem_map.mp hqid
      obtain ⟨hmem, hsink⟩ := List.mem_filter.mp he
      exact List.mem_singleton.mpr ((of_mem_endsOf hmem).2 (of_decide_eq_true hsink))
    exact (List.subperm_of_subset ((idsAt_endsOf_sublist .sink id queues).nodup hnodup) hsub).length_le
  isLocal e he := hlocal e.2 (of_mem_endsOf he).1

/-- The pipe process opens the sink, and the queues out of the root of the pipe. It sends the frames that it is given. -/
def pipe (id : String) (sink : APIQueue) (queues : List APIQueue) (hnodup : (queues.map APIQueue.id).Nodup)
    (hlocal : ∀ q ∈ sink :: queues, q.host.getD "" = "") : Station where
  ends := (.sink, sink) :: (queues.filter fun q => q.fromP = id).map fun q => (.output, q)
  handle _ := pure []
  nodup at_ := by
    have hmap : idsAt .output ((queues.filter fun q => q.fromP = id).map fun q => (.output, q)) =
        (queues.filter fun q => q.fromP = id).map APIQueue.id := by
      simp [idsAt, List.filter_map, Function.comp_def]
    cases at_ with
    | output =>
      have hsub := (List.filter_sublist (l := queues) (p := fun q => q.fromP = id)).map APIQueue.id
      exact hmap ▸ hsub.nodup hnodup
    | input | sink => simp [idsAt, List.filter_map, Function.comp_def]
  oneSink := by simp [idsAt, List.filter_map, Function.comp_def]
  isLocal e he := by
    rcases List.mem_cons.mp he with rfl | he
    · exact hlocal sink List.mem_cons_self
    · obtain ⟨q, hq, rfl⟩ := List.mem_map.mp he
      exact hlocal q (List.mem_cons_of_mem _ (List.mem_of_mem_filter hq))

/-- The reader of the sink takes frames for as long as it raises nothing. -/
def sinkReader (sink : APIQueue) (take : DataFrame → Except PyError Unit) (hlocal : sink.host.getD "" = "") :
    Station where
  ends := [(.input, sink)]
  handle frame := (take frame).map fun _ => []
  nodup at_ := by cases at_ <;> simp [idsAt]
  oneSink := by simp [idsAt]
  isLocal e he := by rw [List.mem_singleton.mp he, hlocal]

variable (p : Station)

theorem nodup_inputs : p.inputs.Nodup := p.nodup .input

theorem nodup_outputs : p.outputs.Nodup := by
  unfold outputs
  split_ifs
  · exact p.nodup .sink
  · exact p.nodup .output

/-- A program has one sink at most. -/
theorem idsAt_sink_of_append {opened rest : List (QueueEnd × APIQueue)} {api : APIQueue}
    (h : opened ++ (.sink, api) :: rest = p.ends) : idsAt .sink opened = [] := by
  have hone := p.oneSink
  have hcons : idsAt .sink ((.sink, api) :: rest) = api.id :: idsAt .sink rest := by simp [idsAt]
  rw [← h, idsAt_append, hcons, List.length_append, List.length_cons] at hone
  exact List.eq_nil_of_length_eq_zero (by omega)

end Station

/-! ## What a worker has to send -/

theorem WorkerPhase.eq_asking {phase : WorkerPhase} (h : phase.isAsking = true) : ∃ i, phase = .asking i := by
  cases phase with
  | asking i => exact ⟨i, rfl⟩
  | _ => cases h

section Books

variable (c : Codec)

namespace StationWorker

/-- What the worker is about to send, as readers get it. -/
def pending (w : StationWorker) : List DataFrame := w.sending.filterMap (carried c w.currentPipeExecutionId)

/-- What the target at a place has still to get. -/
def owed (w : StationWorker) (j : ℕ) : List DataFrame :=
  match w.phase with
  | .emitting i | .writing i _ =>
      if j < i then w.sending.tail.filterMap (carried c w.currentPipeExecutionId) else w.pending c
  | _ => w.pending c

/-- What the worker has made of what it was given and of what it received. -/
def made (p : Station) (w : StationWorker) : List DataFrame :=
  w.given.filterMap (carried c .none) ++ w.received.flatMap fun x => p.madeOf c x.2

/-- Each target has got what the worker has made, up to what it has still to get. -/
def Balanced (p : Station) (w : StationWorker) : Prop :=
  ∀ j q, p.outputs[j]? = some q → on q w.sent ++ w.owed c j = w.made c p

/-- The queues that have been opened are in their places. -/
structure Attached (opened : List (QueueEnd × APIQueue)) (w : StationWorker) : Prop where
  inQs : w.inQs.map Prod.snd = idsAt .input opened
  outQs : w.outQs.map Prod.snd = idsAt .output opened
  sinkQ : w.sinkQ.toList.map Prod.snd = idsAt .sink opened

/-- A worker that has still to open queues. -/
structure Joining (qidOf : ℕ → Option String) (p : Station) (rest : List (QueueEnd × APIQueue)) (w : StationWorker) :
    Prop where
  attached : ∃ opened, opened ++ rest = p.ends ∧ w.Attached opened
  objects : ∀ q ∈ w.inQs ++ (w.outQs ++ w.sinkQ.toList), qidOf q.1 = some q.2
  received : w.received = []
  sent : w.sent = []
  pending : w.pending c = w.given.filterMap (carried c .none)

/-- A worker that has opened all its queues. -/
structure Joined (qidOf : ℕ → Option String) (p : Station) (w : StationWorker) : Prop where
  inQs : w.inQs.map Prod.snd = p.inputs
  targets : w.targets.map Prod.snd = p.outputs
  objects : ∀ q ∈ w.inQs ++ w.targets, qidOf q.1 = some q.2
  received : ∀ x ∈ w.received, x.1 ∈ p.inputs
  sent : ∀ x ∈ w.sent, x.1 ∈ p.outputs

/-- What is known of a worker in each phase. -/
def Ok (qidOf : ℕ → Option String) (p : Station) (w : StationWorker) : Prop :=
  match w.phase with
  | .joining rest => w.Joining c qidOf p rest
  | .asking _ => w.Joined qidOf p ∧ w.Balanced c p ∧ w.sending = []
  | .reading _ call => w.Joined qidOf p ∧ w.Balanced c p ∧ w.sending = [] ∧ call.qid ∈ p.inputs
  | .emitting _ => w.Joined qidOf p ∧ w.Balanced c p
  | .writing i call => w.Joined qidOf p ∧ w.Balanced c p ∧ p.outputs[i]? = some call.qid ∧
      ∃ data rest frame, w.sending = data :: rest ∧ carried c w.currentPipeExecutionId data = some frame ∧
        DataFrame.fromByteArr c call.body = .ok frame
  | .failed _ => w.Joined qidOf p ∧ ∀ q ∈ p.outputs, on q w.sent <+: w.made c p

variable {c} {qidOf qidOf' : ℕ → Option String} {p : Station} {w : StationWorker}

theorem Joined.congr (h : w.Joined qidOf p) {w' : StationWorker} (hin : w'.inQs = w.inQs) (hout : w'.outQs = w.outQs)
    (hsink : w'.sinkQ = w.sinkQ) (hreceived : ∀ x ∈ w'.received, x.1 ∈ p.inputs)
    (hsent : ∀ x ∈ w'.sent, x.1 ∈ p.outputs) : w'.Joined qidOf p := by
  have htargets : w'.targets = w.targets := by rw [StationWorker.targets, StationWorker.targets, hout, hsink]
  exact ⟨hin ▸ h.inQs, htargets ▸ h.targets, by rw [hin, htargets]; exact h.objects, hreceived, hsent⟩

theorem Joined.mono (h : w.Joined qidOf p) (hmore : ∀ o qid, qidOf o = some qid → qidOf' o = some qid) :
    w.Joined qidOf' p :=
  ⟨h.inQs, h.targets, fun q hq => hmore _ _ (h.objects q hq), h.received, h.sent⟩

/-- New objects change nothing for a worker. -/
theorem Ok.mono (h : w.Ok c qidOf p) (hmore : ∀ o qid, qidOf o = some qid → qidOf' o = some qid) :
    w.Ok c qidOf' p := by
  unfold Ok at h ⊢
  split at h
  · exact ⟨h.attached, fun q hq => hmore _ _ (h.objects q hq), h.received, h.sent, h.pending⟩
  all_goals exact ⟨h.1.mono hmore, h.2⟩

/-- The worker goes on with all that it has to send. -/
theorem ready_ok (h : w.Joined qidOf p)
    (hbooks : ∀ q ∈ p.outputs, on q w.sent ++ w.pending c = w.made c p) : w.ready.Ok c qidOf p := by
  have hjoined : w.ready.Joined qidOf p := h.congr rfl rfl rfl h.received h.sent
  have hbalanced : w.ready.Balanced c p := by
    intro j q hq
    have howed : w.ready.owed c j = w.pending c := by
      unfold ready owed
      dsimp only
      split_ifs <;> rfl
    rw [howed]
    exact hbooks q (List.mem_of_getElem? hq)
  by_cases hempty : w.sending.isEmpty = true
  · have hphase : w.ready.phase = .asking 0 := if_pos hempty
    rw [Ok, hphase]
    exact ⟨hjoined, hbalanced, List.isEmpty_iff.mp hempty⟩
  · have hphase : w.ready.phase = .emitting 0 := if_neg hempty
    rw [Ok, hphase]
    exact ⟨hjoined, hbalanced⟩

/-- An exception leaves what has been sent. -/
theorem fail_ok (h : w.Joined qidOf p) (hbooks : w.Balanced c p) (e : PyError) : (w.fail e).Ok c qidOf p := by
  refine ⟨h.congr rfl rfl rfl h.received h.sent, fun q hq => ?_⟩
  obtain ⟨j, hj⟩ := List.mem_iff_getElem?.mp hq
  exact ⟨_, hbooks j q hj⟩

/-! ## A worker that joins -/

theorem Joining.attach {at_ : QueueEnd} {api : APIQueue} {rest : List (QueueEnd × APIQueue)}
    (h : w.Joining c qidOf p ((at_, api) :: rest)) {o : ℕ} (hmore : ∀ o qid, qidOf o = some qid → qidOf' o = some qid)
    (ho : qidOf' o = some api.id) : (w.attach at_ (o, api.id)).Joining c qidOf' p rest := by
  obtain ⟨opened, hends, hattached⟩ := h.attached
  have hnew : opened ++ [(at_, api)] ++ rest = p.ends := by rw [← hends, List.append_assoc]; rfl
  have hold := h.objects
  cases at_ with
  | input =>
    refine ⟨⟨_, hnew, ?_⟩, fun q hq => ?_, h.received, h.sent, h.pending⟩
    · constructor <;> simp [StationWorker.attach, hattached.inQs, hattached.outQs, hattached.sinkQ, idsAt]
    · simp only [StationWorker.attach, List.mem_append, List.mem_singleton] at hq hold
      rcases hq with (hq | rfl) | hq
      · exact hmore _ _ (hold q (Or.inl hq))
      · exact ho
      · exact hmore _ _ (hold q (Or.inr hq))
  | output =>
    refine ⟨⟨_, hnew, ?_⟩, fun q hq => ?_, h.received, h.sent, h.pending⟩
    · constructor <;> simp [StationWorker.attach, hattached.inQs, hattached.outQs, hattached.sinkQ, idsAt]
    · simp only [StationWorker.attach, List.mem_append, List.mem_singleton] at hq hold
      rcases hq with hq | (hq | rfl) | hq
      · exact hmore _ _ (hold q (Or.inl hq))
      · exact hmore _ _ (hold q (Or.inr (Or.inl hq)))
      · exact ho
      · exact hmore _ _ (hold q (Or.inr (Or.inr hq)))
  | sink =>
    have hnone := p.idsAt_sink_of_append hends
    refine ⟨⟨_, hnew, ?_⟩, fun q hq => ?_, h.received, h.sent, h.pending⟩
    · rw [idsAt] at hnone
      constructor <;> simp [StationWorker.attach, hattached.inQs, hattached.outQs, hnone, idsAt]
    · simp only [StationWorker.attach, List.mem_append, Option.toList_some, List.mem_singleton] at hq hold
      rcases hq with hq | hq | rfl
      · exact hmore _ _ (hold q (Or.inl hq))
      · exact hmore _ _ (hold q (Or.inr (Or.inl hq)))
      · exact ho

/-- A worker without queues to open has joined. -/
theorem Joining.joined (h : w.Joining c qidOf p []) : w.Joined qidOf p := by
  obtain ⟨opened, hends, hattached⟩ := h.attached
  rw [List.append_nil] at hends
  subst hends
  have hnil : w.outQs = [] ↔ idsAt .output p.ends = [] := by rw [← hattached.outQs, List.map_eq_nil_iff]
  refine ⟨hattached.inQs, ?_, fun q hq => h.objects q ?_, by simp [h.received], by simp [h.sent]⟩
  · unfold targets Station.outputs
    by_cases hout : w.outQs = []
    · rw [if_pos hout, if_pos (hnil.mp hout), hattached.sinkQ]
    · rw [if_neg hout, if_neg (mt hnil.mpr hout), hattached.outQs]
  · unfold targets at hq
    split_ifs at hq <;> simp only [List.mem_append] at hq ⊢ <;> tauto

theorem Joining.join_ok {rest : List (QueueEnd × APIQueue)} (h : w.Joining c qidOf p rest) :
    (w.join rest).Ok c qidOf p := by
  cases rest with
  | nil =>
    refine ready_ok h.joined fun q _ => ?_
    rw [h.sent, h.pending, made, h.received, List.flatMap_nil, List.append_nil]
    rfl
  | cons e rest =>
    exact ⟨h.attached.imp fun _ h => ⟨h.1, ⟨h.2.inQs, h.2.outQs, h.2.sinkQ⟩⟩, h.objects, h.received, h.sent, h.pending⟩

theorem launched_ok (n : ℕ) (given : List EmitData) : (launched n p given).Ok c qidOf p :=
  Joining.join_ok ⟨⟨[], rfl, ⟨rfl, rfl, rfl⟩⟩, by simp, rfl, rfl, rfl⟩

/-! ## The steps of a worker -/

/-- The queues have given the worker what it has received more, and have taken what it has sent more. -/
structure Advances (c : Codec) (s s' : QueueProcesses DataFrame) (w w' : StationWorker) : Prop where
  station : w'.station = w.station
  given : w'.given = w.given
  received : ∃ xs, w'.received = w.received ++ xs ∧ ∀ q, takenFrom q s'.returned = takenFrom q s.returned ++ on q xs
  sent : ∃ xs, w'.sent = w.sent ++ xs ∧ ∀ q, decodedOn (DataFrame.fromByteArr c) q s'.returned =
    decodedOn (DataFrame.fromByteArr c) q s.returned ++ on q xs

variable {refuses : String → Bool} {s s' : QueueProcesses DataFrame} {t : QueueStore} {w' : StationWorker}

/-- Nothing has returned. -/
theorem Advances.of_same (hreturned : s'.returned = s.returned) (hstation : w'.station = w.station)
    (hgiven : w'.given = w.given) (hreceived : w'.received = w.received) (hsent : w'.sent = w.sent) :
    Advances c s s' w w' :=
  ⟨hstation, hgiven, ⟨[], by simp [hreceived], by simp [hreturned]⟩,
    ⟨[], by simp [hsent], by simp [decodedOn, hreturned]⟩⟩

/-- A call has returned that neither takes a frame nor adds one. -/
theorem Advances.of_idle {call : QueueCall} {answer : QueueAnswer DataFrame}
    (hreturned : s'.returned = s.returned ++ [(call, answer)]) (htaken : ∀ q, takenFrom q [(call, answer)] = [])
    (haccepted : ∀ q, acceptedOn q [(call, answer)] = []) (hstation : w'.station = w.station)
    (hgiven : w'.given = w.given) (hreceived : w'.received = w.received) (hsent : w'.sent = w.sent) :
    Advances c s s' w w' :=
  ⟨hstation, hgiven, ⟨[], by simp [hreceived], by simp [hreturned, takenFrom_append, htaken]⟩,
    ⟨[], by simp [hsent], by simp [decodedOn, hreturned, acceptedOn_append, haccepted]⟩⟩

/-- The worker asks the next queue, or calls `get` again. -/
theorem ask_ok (h : w.Joined qidOf p) (hbooks : ∀ q ∈ p.outputs, on q w.sent ++ w.pending c = w.made c p)
    (hsending : w.sending = []) (i : ℕ) : (w.ask i).Ok c qidOf p :=
  ⟨h.congr rfl rfl rfl h.received h.sent, fun _ q hq => hbooks q (List.mem_of_getElem? hq), hsending⟩

/-- A worker that opens a queue. -/
theorem joining_step (h : w.Ok c s.qidOf p) {at_ : QueueEnd} {api : APIQueue} {rest : List (QueueEnd × APIQueue)}
    (hphase : w.phase = .joining ((at_, api) :: rest)) (hrep : s.Represents (DataFrame.fromByteArr c) t)
    (hroom : LeavesRoom (DataFrame.fromByteArr c) s (.init api)) (hgoes : GoesOn refuses s w (.init api))
    (hstep : queueStep refuses (DataFrame.fromByteArr c) s (.init api) = some s') :
    (w.proceed c p s s' (queueAnswer s s')).Ok c s'.qidOf p ∧
      Advances c s s' w (w.proceed c p s s' (queueAnswer s s')) := by
  obtain ⟨hge, hname⟩ := hgoes
  have hallowed : ¬ refuses (memoryName api.id) = true := by simp [hname]
  obtain ⟨q, memory, hinit, hobject⟩ := hrep.init_opens hroom hge hallowed
  have hmore : ∀ o qid, s.qidOf o = some qid → s'.qidOf o = some qid := fun o qid =>
    QueueProcesses.qidOf_step hstep
  rw [queueStep, hinit] at hstep
  dsimp only at hstep
  rw [hobject] at hstep
  have hs' := (Option.some.inj hstep).symm
  have hreturned : s'.returned = s.returned ++ [(.init api, .opened)] := by rw [hs']; rfl
  have hobjects : s'.objects = s.objects ++ [.ofDef api] := by rw [hs']; rfl
  have ho : s'.qidOf s.objects.length = some api.id := by simp [QueueProcesses.qidOf, hobjects, OpenQueue.ofDef]
  have hproceed : w.proceed c p s s' (queueAnswer s s') = (w.attach at_ (s.objects.length, api.id)).join rest := by
    rw [queueAnswer_eq_some hreturned]
    simp only [proceed, hphase]
  rw [Ok, hphase] at h
  rw [hproceed]
  refine ⟨(h.attach hmore ho).join_ok, Advances.of_idle hreturned (fun _ => rfl) (fun _ => rfl) ?_ ?_ ?_ ?_⟩ <;>
    cases at_ <;> cases rest <;> rfl

/-- A worker that asks a queue. -/
theorem asking_step (h : w.Ok c s.qidOf p) {i : ℕ} (hphase : w.phase = .asking i) {q : ℕ × String}
    (hq : q ∈ w.inQs) (hstep : queueStep refuses (DataFrame.fromByteArr c) s (.check q.1) = some s') :
    (w.proceed c p s s' (queueAnswer s s')).Ok c s'.qidOf p ∧
      Advances c s s' w (w.proceed c p s s' (queueAnswer s s')) := by
  rw [Ok, hphase] at h
  obtain ⟨hjoined, hbalanced, hsending⟩ := h
  have hbooks : ∀ q ∈ p.outputs, on q w.sent ++ w.pending c = w.made c p := by
    intro q hq
    obtain ⟨j, hj⟩ := List.mem_iff_getElem?.mp hq
    have hj := hbalanced j q hj
    rwa [owed, hphase] at hj
  have hjoined' : w.Joined s'.qidOf p := hjoined.mono fun _ _ => QueueProcesses.qidOf_step hstep
  obtain ⟨m, hm, hs' | hs'⟩ := QueueProcesses.check_cases hstep
  · have hreturned : s'.returned = s.returned ++ [(.get m.qid, .frame none)] := by rw [hs']; rfl
    have hproceed : w.proceed c p s s' (queueAnswer s s') = w.ask (i + 1) := by
      rw [queueAnswer_eq_some hreturned]
      simp only [proceed, hphase]
    rw [hproceed]
    exact ⟨ask_ok hjoined' hbooks hsending (i + 1),
      Advances.of_idle hreturned (fun q => by simp [takenFrom]) (fun _ => rfl) rfl rfl rfl rfl⟩
  · have hqid : m.qid = q.2 := by
      have hobject := hjoined.objects q (List.mem_append_left _ hq)
      rw [QueueProcesses.qidOf_of_queue hm] at hobject
      exact Option.some.inj hobject
    have hreturned : s'.returned = s.returned := by rw [hs']
    have hproceed : w.proceed c p s s' (queueAnswer s s') = { w with phase := .reading i ⟨q.1, m.qid⟩ } := by
      rw [queueAnswer_eq_none hreturned, hs']
      simp [proceed, hphase]
    rw [hproceed]
    refine ⟨⟨hjoined'.congr rfl rfl rfl hjoined.received hjoined.sent, ?_, hsending, ?_⟩,
      Advances.of_same hreturned rfl rfl rfl rfl⟩
    · exact fun j q hq => hbooks q (List.mem_of_getElem? hq)
    · rw [← hjoined.inQs]
      exact List.mem_map.mpr ⟨q, hq, hqid.symm⟩

theorem made_received (p : Station) (w : StationWorker) (qid : String) (frame : DataFrame) :
    made c p { w with received := w.received ++ [(qid, frame)] } = w.made c p ++ p.madeOf c frame := by
  simp [made]

/-- The worker has read a frame. -/
theorem receive_ok (h : w.Joined qidOf p) (hbooks : ∀ q ∈ p.outputs, on q w.sent = w.made c p) {qid : String}
    (hqid : qid ∈ p.inputs) (frame : DataFrame) :
    (w.receive p qid frame).Ok c qidOf p := by
  set w₁ : StationWorker := { w with
    consumerNextQIndex := w.consumerNextQIndex + 1
    currentPipeExecutionId := currentIdOf frame
    received := w.received ++ [(qid, frame)] } with hw₁
  have hreceived : ∀ x ∈ w₁.received, x.1 ∈ p.inputs := by
    intro x hx
    rcases List.mem_append.mp hx with hx | hx
    · exact h.received x hx
    · rw [List.mem_singleton.mp hx]
      exact hqid
  have hjoined : w₁.Joined qidOf p := h.congr rfl rfl rfl hreceived h.sent
  have hmade : w₁.made c p = w.made c p ++ p.madeOf c frame := made_received p w qid frame
  have hfailed : ∀ e, (w₁.fail e).Ok c qidOf p := by
    refine fun e => ⟨hjoined.congr rfl rfl rfl hreceived h.sent, fun q hq => ?_⟩
    show on q w.sent <+: w₁.made c p
    rw [hbooks q hq, hmade]
    exact List.prefix_append _ _
  have hready : ∀ sending, sending.filterMap (carried c (currentIdOf frame)) = p.madeOf c frame →
      ({ w₁ with sending := sending }.ready).Ok c qidOf p := by
    intro sending hsent
    refine ready_ok (hjoined.congr rfl rfl rfl hreceived h.sent) fun q hq => ?_
    show on q w.sent ++ sending.filterMap (carried c (currentIdOf frame)) = w₁.made c p
    rw [hbooks q hq, hsent, hmade]
  rw [receive, ← hw₁]
  cases hhandle : p.handle frame with
  | error e => exact hfailed e
  | ok sending => exact hready sending (by rw [Station.madeOf, hhandle])

theorem receive_frame (p : Station) (w : StationWorker) (qid : String) (frame : DataFrame) :
    (w.receive p qid frame).station = w.station ∧ (w.receive p qid frame).given = w.given ∧
      (w.receive p qid frame).received = w.received ++ [(qid, frame)] ∧ (w.receive p qid frame).sent = w.sent := by
  unfold receive
  dsimp only
  split <;> exact ⟨rfl, rfl, rfl, rfl⟩

/-- A worker that has the read lock. -/
theorem reading_step (h : w.Ok c s.qidOf p) {i : ℕ} {call : WaitingGet} (hphase : w.phase = .reading i call)
    {now : UInt64}
    (hstep : queueStep refuses (DataFrame.fromByteArr c) s (.read (s.checked.idxOf call) now) = some s') :
    (w.proceed c p s s' (queueAnswer s s')).Ok c s'.qidOf p ∧
      Advances c s s' w (w.proceed c p s s' (queueAnswer s s')) := by
  rw [Ok, hphase] at h
  obtain ⟨hjoined, hbalanced, hsending, hqid⟩ := h
  have hjoined' : w.Joined s'.qidOf p := hjoined.mono fun _ _ => QueueProcesses.qidOf_step hstep
  have hpending : w.pending c = [] := by rw [pending, hsending, List.filterMap_nil]
  have hbooks : ∀ q ∈ p.outputs, on q w.sent = w.made c p := by
    intro q hq
    obtain ⟨j, hj⟩ := List.mem_iff_getElem?.mp hq
    have hj := hbalanced j q hj
    rwa [owed, hphase, hpending, List.append_nil] at hj
  obtain ⟨call', hcall, hreturned⟩ := QueueProcesses.read_cases hstep
  obtain rfl := eq_of_idxOf hcall
  rcases hreturned with ⟨frame, hreturned⟩ | ⟨e, hreturned⟩
  · cases frame with
    | some frame =>
      have hproceed : w.proceed c p s s' (queueAnswer s s') = w.receive p call'.qid frame := by
        rw [queueAnswer_eq_some hreturned]
        simp only [proceed, hphase]
      obtain ⟨hstation, hgiven, hreceived, hsent⟩ := receive_frame p w call'.qid frame
      rw [hproceed]
      refine ⟨receive_ok hjoined' hbooks hqid frame, hstation, hgiven, ⟨_, hreceived, fun q => ?_⟩,
        ⟨[], by simp [hsent], fun q => ?_⟩⟩
      · rw [hreturned, takenFrom_append, takenFrom_frame, on_singleton]
      · simp [decodedOn, hreturned, acceptedOn_append, acceptedOn_get]
    | none =>
      have hproceed : w.proceed c p s s' (queueAnswer s s') = w.ask (i + 1) := by
        rw [queueAnswer_eq_some hreturned]
        simp only [proceed, hphase]
      rw [hproceed]
      refine ⟨ask_ok hjoined' (fun q hq => ?_) hsending (i + 1),
        Advances.of_idle hreturned (fun q => by simp [takenFrom]) (fun _ => rfl) rfl rfl rfl rfl⟩
      rw [hpending, List.append_nil, hbooks q hq]
  · have hproceed : w.proceed c p s s' (queueAnswer s s') = w.fail e := by
      rw [queueAnswer_eq_some hreturned]
      simp only [proceed, hphase]
    rw [hproceed]
    exact ⟨fail_ok hjoined' hbalanced e, Advances.of_idle hreturned (fun _ => rfl) (fun _ => rfl) rfl rfl rfl rfl⟩

theorem carried_eq_some {id : PyVal} {data : EmitData} {body : Bytes} {frame : DataFrame}
    (hbody : (do let frame ← stampedWith c id data; frame.toByteArr c) = .ok body)
    (hframe : DataFrame.fromByteArr c body = .ok frame) : carried c id data = some frame := by
  have hall : (do let frame ← stampedWith c id data
                  let body ← frame.toByteArr c
                  DataFrame.fromByteArr c body) = .ok frame := by
    rw [← bind_assoc, hbody]
    exact hframe
  rw [carried, hall]
  rfl

/-- A worker that sends to a queue. -/
theorem emitting_step (h : w.Ok c s.qidOf p) {i : ℕ} (hphase : w.phase = .emitting i) {data : EmitData}
    (hdata : w.sending.head? = some data) {q : ℕ × String} (hq : w.targets[i]? = some q) {df : Except PyError Bytes}
    (hdf : df = (do let frame ← stampedWith c w.currentPipeExecutionId data; frame.toByteArr c))
    (hroom : LeavesRoom (DataFrame.fromByteArr c) s (.test q.1 df)) (hgoes : GoesOn refuses s w (.test q.1 df))
    (hstep : queueStep refuses (DataFrame.fromByteArr c) s (.test q.1 df) = some s') :
    (w.proceed c p s s' (queueAnswer s s')).Ok c s'.qidOf p ∧
      Advances c s s' w (w.proceed c p s s' (queueAnswer s s')) := by
  rw [Ok, hphase] at h
  obtain ⟨hjoined, hbalanced⟩ := h
  have hjoined' : w.Joined s'.qidOf p := hjoined.mono fun _ _ => QueueProcesses.qidOf_step hstep
  obtain ⟨m, hm, ⟨body, rfl, hadmits, hs'⟩ | ⟨hrefuses, hs'⟩ | ⟨e, hs'⟩⟩ := QueueProcesses.test_cases hstep
  · have hreturned : s'.returned = s.returned := by rw [hs']
    have hproceed : w.proceed c p s s' (queueAnswer s s') = { w with phase := .writing i ⟨q.1, m.qid, body⟩ } := by
      rw [queueAnswer_eq_none hreturned, hs']
      simp [proceed, hphase]
    have hqid : m.qid = q.2 := by
      have hmem := List.mem_append_right w.inQs (List.mem_of_getElem? hq)
      have hobject := hjoined.objects q hmem
      rw [QueueProcesses.qidOf_of_queue hm] at hobject
      exact Option.some.inj hobject
    obtain ⟨-, -, hdecodes⟩ := hroom m hm body hadmits
    obtain ⟨frame, hframe⟩ : ∃ frame, DataFrame.fromByteArr c body = .ok frame := by
      cases hbody : DataFrame.fromByteArr c body with
      | ok frame => exact ⟨frame, rfl⟩
      | error e =>
        rw [hbody] at hdecodes
        cases hdecodes
    rw [hproceed]
    refine ⟨⟨hjoined'.congr rfl rfl rfl hjoined.received hjoined.sent, ?_, ?_, data, w.sending.tail, frame, ?_,
      carried_eq_some hdf.symm hframe, hframe⟩, Advances.of_same hreturned rfl rfl rfl rfl⟩
    · intro j r hr
      have hj := hbalanced j r hr
      rwa [owed, hphase] at hj
    · rw [← hjoined.targets, List.getElem?_map, hq, hqid]
      rfl
    · exact List.eq_cons_of_mem_head? hdata
  · have hreturned : s'.returned = s.returned ++ [(.put m.qid df, .accepted false)] := by rw [hs']; rfl
    have hproceed : w.proceed c p s s' (queueAnswer s s') = { w with phase := .emitting 0 } := by
      rw [queueAnswer_eq_some hreturned]
      simp only [proceed, hphase]
    -- only the first queue refuses
    obtain rfl : i = 0 := by
      cases i with
      | zero => rfl
      | succ i => exact absurd hrefuses (hgoes (by simp [hphase, WorkerPhase.hasSent]) m hm)
    have hsame : ({ w with phase := .emitting 0 } : StationWorker) = w := by rw [← hphase]
    rw [hproceed, hsame, Ok, hphase]
    exact ⟨⟨hjoined', hbalanced⟩, Advances.of_idle hreturned (fun _ => takenFrom_put ..)
      (fun _ => acceptedOn_refused ..) rfl rfl rfl rfl⟩
  · have hreturned : s'.returned = s.returned ++ [(.put m.qid df, .raised e)] := by rw [hs']; rfl
    have hproceed : w.proceed c p s s' (queueAnswer s s') = w.fail e := by
      rw [queueAnswer_eq_some hreturned]
      simp only [proceed, hphase]
    rw [hproceed]
    exact ⟨fail_ok hjoined' hbalanced e, Advances.of_idle hreturned (fun _ => takenFrom_put ..)
      (fun _ => acceptedOn_raised ..) rfl rfl rfl rfl⟩

/-- The queue at a place among the targets has taken the frame. -/
theorem emitted_ok (h : w.Joined qidOf p) (hbalanced : w.Balanced c p) {i : ℕ} {call : WaitingPut}
    (hphase : w.phase = .writing i call) (hqid : p.outputs[i]? = some call.qid) {data : EmitData}
    {rest : List EmitData} {frame : DataFrame} (hsending : w.sending = data :: rest)
    (hcarried : carried c w.currentPipeExecutionId data = some frame)
    (hframe : DataFrame.fromByteArr c call.body = .ok frame) : (w.emitted c i call).Ok c qidOf p := by
  have hsent : ∀ x ∈ w.sent ++ [(call.qid, frame)], x.1 ∈ p.outputs := by
    intro x hx
    rcases List.mem_append.mp hx with hx | hx
    · exact h.sent x hx
    · rw [List.mem_singleton.mp hx]
      exact List.mem_of_getElem? hqid
  have hpending : w.pending c = frame :: rest.filterMap (carried c w.currentPipeExecutionId) := by
    rw [pending, hsending, List.filterMap_cons, hcarried]
  -- the queues in front of the next one have got the frame, the others have not
  have hbooks : ∀ j q, p.outputs[j]? = some q → on q (w.sent ++ [(call.qid, frame)]) ++
      (if j < i + 1 then rest.filterMap (carried c w.currentPipeExecutionId) else w.pending c) = w.made c p := by
    intro j q hq
    have hj := hbalanced j q hq
    rw [owed, hphase, hsending] at hj
    dsimp only [List.tail_cons] at hj
    rw [on_append, on_singleton]
    by_cases hji : j = i
    · subst hji
      obtain rfl := Option.some.inj (hq.symm.trans hqid)
      rw [if_neg (Nat.lt_irrefl j), hpending] at hj
      rw [if_pos rfl, if_pos (Nat.lt_succ_self j), List.append_assoc]
      exact hj
    · have hne : call.qid ≠ q := by
        intro heq
        have hlt := (List.getElem?_eq_some_iff.mp hq).1
        exact hji ((List.getElem?_inj hlt p.nodup_outputs).mp (hq.trans (heq ▸ hqid.symm)))
      have hlt : (j < i + 1) = (j < i) := by
        rw [eq_iff_iff]
        omega
      simp only [hlt, if_neg hne, List.append_nil]
      exact hj
  have hemitted : w.emitted c i call =
      if i + 1 < w.targets.length then { w with sent := w.sent ++ [(call.qid, frame)], phase := .emitting (i + 1) }
      else ({ w with sent := w.sent ++ [(call.qid, frame)], sending := rest } : StationWorker).ready := by
    simp only [emitted, hframe, hsending]
    rfl
  rw [hemitted]
  split_ifs with hlast
  · refine ⟨h.congr rfl rfl rfl h.received hsent, fun j q hq => ?_⟩
    have hj := hbooks j q hq
    rw [show rest = w.sending.tail from hsending ▸ rfl] at hj
    exact hj
  · refine ready_ok (h.congr rfl rfl rfl h.received hsent) fun q hq => ?_
    obtain ⟨j, hj⟩ := List.mem_iff_getElem?.mp hq
    have hlength : w.targets.length = p.outputs.length := by rw [← h.targets, List.length_map]
    have hlt : j < i + 1 := by
      have := (List.getElem?_eq_some_iff.mp hj).1
      omega
    have hbooks := hbooks j q hj
    rw [if_pos hlt] at hbooks
    exact hbooks

theorem emitted_frame {i : ℕ} {call : WaitingPut} {frame : DataFrame}
    (hframe : DataFrame.fromByteArr c call.body = .ok frame) :
    (w.emitted c i call).station = w.station ∧ (w.emitted c i call).given = w.given ∧
      (w.emitted c i call).received = w.received ∧ (w.emitted c i call).sent = w.sent ++ [(call.qid, frame)] := by
  unfold emitted
  rw [hframe]
  dsimp only
  split_ifs
  · exact ⟨rfl, rfl, rfl, rfl⟩
  · exact ⟨rfl, rfl, rfl, rfl⟩

/-- A worker that has the write lock. -/
theorem writing_step (h : w.Ok c s.qidOf p) {i : ℕ} {call : WaitingPut} (hphase : w.phase = .writing i call)
    (hrep : s.Represents (DataFrame.fromByteArr c) t) {now : UInt64}
    (hstep : queueStep refuses (DataFrame.fromByteArr c) s (.write (s.waiting.idxOf call) now) = some s') :
    (w.proceed c p s s' (queueAnswer s s')).Ok c s'.qidOf p ∧
      Advances c s s' w (w.proceed c p s s' (queueAnswer s s')) := by
  rw [Ok, hphase] at h
  obtain ⟨hjoined, hbalanced, hqid, data, rest, frame, hsending, hcarried, hframe⟩ := h
  obtain ⟨call', -, hcall, hreturned, -, -⟩ := hrep.write_accepted hstep
  obtain rfl := eq_of_idxOf hcall
  have hproceed : w.proceed c p s s' (queueAnswer s s') = w.emitted c i call' := by
    rw [queueAnswer_eq_some hreturned]
    simp only [proceed, hphase]
  obtain ⟨hstation, hgiven, hreceived, hsent⟩ := emitted_frame (w := w) (i := i) hframe
  rw [hproceed]
  have hjoined' : w.Joined s'.qidOf p := hjoined.mono fun _ _ => QueueProcesses.qidOf_step hstep
  refine ⟨emitted_ok hjoined' hbalanced hphase hqid hsending hcarried hframe, hstation, hgiven,
    ⟨[], by simp [hreceived], fun q => ?_⟩, ⟨_, hsent, fun q => ?_⟩⟩
  · simp [hreturned, takenFrom_append, takenFrom_put]
  · rw [decodedOn, hreturned, acceptedOn_append, List.filterMap_append, on_singleton, ← decodedOn]
    by_cases hq : call'.qid = q <;> simp [acceptedOn, hq, hframe, Except.toOption]

/-- A worker whose call ends with a `TimeoutError`. -/
theorem timeout_step (h : w.Joined s.qidOf p) (hbalanced : w.Balanced c p) {e : QueueEvent} {call : QueueCall}
    (hstep : queueStep refuses (DataFrame.fromByteArr c) s e = some s')
    (hreturned : s'.returned = s.returned ++ [(call, .raised lockTimeout)]) (hcall : ∀ api, call ≠ .init api)
    (hproceed : w.proceed c p s s' (some (.raised lockTimeout)) = w.fail lockTimeout) :
    (w.proceed c p s s' (queueAnswer s s')).Ok c s'.qidOf p ∧
      Advances c s s' w (w.proceed c p s s' (queueAnswer s s')) := by
  rw [queueAnswer_eq_some hreturned, hproceed]
  refine ⟨fail_ok (h.mono fun _ _ => QueueProcesses.qidOf_step hstep) hbalanced _,
    Advances.of_idle hreturned (fun q => ?_) (fun q => ?_) rfl rfl rfl rfl⟩
  · cases call <;> rfl
  · cases call with
    | init api => exact absurd rfl (hcall api)
    | put qid df => exact acceptedOn_raised ..
    | get qid => rfl

/-- The step of a worker on the queues. -/
theorem step_ok (h : w.Ok c s.qidOf p) (hrep : s.Represents (DataFrame.fromByteArr c) t) {move : NetMove}
    {e : QueueEvent} (hrequest : w.request c s move = some e) (hroom : LeavesRoom (DataFrame.fromByteArr c) s e)
    (hgoes : GoesOn refuses s w e) (hstep : queueStep refuses (DataFrame.fromByteArr c) s e = some s') :
    (w.proceed c p s s' (queueAnswer s s')).Ok c s'.qidOf p ∧
      Advances c s s' w (w.proceed c p s s' (queueAnswer s s')) := by
  cases move with
  | go now =>
    simp only [request] at hrequest
    split at hrequest
    · cases hrequest
    · cases hrequest
    · rename_i at_ api rest hphase
      obtain rfl := Option.some.inj hrequest
      exact joining_step h hphase hrep hroom hgoes hstep
    · rename_i i hphase
      obtain ⟨q, hq, rfl⟩ := Option.map_eq_some_iff.mp hrequest
      exact asking_step h hphase (List.mem_of_getElem? hq) hstep
    · rename_i i call hphase
      obtain rfl := Option.some.inj hrequest
      exact reading_step h hphase hstep
    · rename_i i hphase
      obtain ⟨data, hdata, hrequest⟩ := Option.bind_eq_some_iff.mp hrequest
      obtain ⟨q, hq, hrequest⟩ := Option.bind_eq_some_iff.mp hrequest
      obtain rfl := Option.some.inj hrequest
      exact emitting_step h hphase hdata hq rfl hroom hgoes hstep
    · rename_i i call hphase
      obtain rfl := Option.some.inj hrequest
      exact writing_step h hphase hrep hstep
  | timeout =>
    simp only [request] at hrequest
    split at hrequest
    · rename_i i call hphase
      obtain rfl := Option.some.inj hrequest
      rw [Ok, hphase] at h
      obtain ⟨call', -, hreturned⟩ := QueueProcesses.readTimeout_cases hstep
      exact timeout_step h.1 h.2.1 hstep hreturned (fun _ => QueueCall.noConfusion) (by simp only [proceed, hphase])
    · rename_i i call hphase
      obtain rfl := Option.some.inj hrequest
      rw [Ok, hphase] at h
      obtain ⟨call', -, hreturned⟩ := QueueProcesses.writeTimeout_cases hstep
      exact timeout_step h.1 h.2.1 hstep hreturned (fun _ => QueueCall.noConfusion) (by simp only [proceed, hphase])
    · cases hrequest

/-- A value that cannot be stamped. -/
theorem stampError_ok (h : w.Ok c qidOf p) {e : PyError} (herror : w.stampError c = some e) :
    (w.fail e).Ok c qidOf p := by
  unfold stampError at herror
  split at herror
  · rename_i hphase _
    rw [Ok, hphase] at h
    exact fail_ok h.1 h.2 e
  · cases herror

/-- In every phase the targets have got part of what the worker has made, in its order. -/
theorem Ok.sent_prefix (h : w.Ok c qidOf p) {q : String} (hq : q ∈ p.outputs) : on q w.sent <+: w.made c p := by
  obtain ⟨j, hj⟩ := List.mem_iff_getElem?.mp hq
  unfold Ok at h
  split at h
  · rw [h.sent]
    exact List.nil_prefix
  · exact ⟨_, h.2.1 j q hj⟩
  · exact ⟨_, h.2.1 j q hj⟩
  · exact ⟨_, h.2 j q hj⟩
  · exact ⟨_, h.2.1 j q hj⟩
  · exact h.2 q hq

/-- A worker that has nothing to send has sent all that it has made. -/
theorem Ok.sent_eq (h : w.Ok c qidOf p) {i : ℕ} (hphase : w.phase = .asking i) {q : String} (hq : q ∈ p.outputs) :
    on q w.sent = w.made c p := by
  obtain ⟨j, hj⟩ := List.mem_iff_getElem?.mp hq
  rw [Ok, hphase] at h
  have hpending : w.pending c = [] := by rw [pending, h.2.2, List.filterMap_nil]
  have hj := h.2.1 j q hj
  rwa [owed, hphase, hpending, List.append_nil] at hj

/-- Outside its queues a worker neither receives nor sends. -/
theorem Ok.received_mem (h : w.Ok c qidOf p) : ∀ x ∈ w.received, x.1 ∈ p.inputs := by
  unfold Ok at h
  split at h
  · simp [h.received]
  all_goals exact h.1.received

theorem Ok.sent_mem (h : w.Ok c qidOf p) : ∀ x ∈ w.sent, x.1 ∈ p.outputs := by
  unfold Ok at h
  split at h
  · simp [h.sent]
  all_goals exact h.1.sent

end StationWorker

/-! ## All the workers -/

section Actors

/-- A worker as an actor of its processor. -/
def StationWorker.actor (w : StationWorker) : FlowActor String DataFrame where
  node := w.station
  given := w.given.filterMap (carried c .none)
  received q := on q w.received
  sent q := on q w.sent

variable {c} {stations : List Station} {qidOf : ℕ → Option String} {w : StationWorker} {p : Station}

theorem getElem?_nodes (n : ℕ) : (stations.map (Station.node c))[n]? = stations[n]?.map (Station.node c) :=
  List.getElem?_map

theorem OneReader.eq (h : OneReader stations) {m n : ℕ} {p p' : Station} (hp : stations[m]? = some p)
    (hp' : stations[n]? = some p') {q : String} (hq : q ∈ p.inputs) (hq' : q ∈ p'.inputs) : m = n := by
  obtain ⟨hm, rfl⟩ := List.getElem?_eq_some_iff.mp hp
  obtain ⟨hn, rfl⟩ := List.getElem?_eq_some_iff.mp hp'
  have hdisjoint := List.pairwise_iff_getElem.mp (List.nodup_flatMap.mp h).2
  rcases Nat.lt_trichotomy m n with hlt | heq | hlt
  · exact absurd hq' (List.disjoint_left.mp (hdisjoint m n hm hn hlt) hq)
  · exact heq
  · exact absurd hq (List.disjoint_left.mp (hdisjoint n m hn hm hlt) hq')

theorem StationWorker.actor_reads (hreader : OneReader stations) (hp : stations[w.station]? = some p)
    (h : w.Ok c qidOf p) : (w.actor c).Reads (stations.map (Station.node c)) where
  node := by
    rw [List.length_map]
    exact (List.getElem?_eq_some_iff.mp hp).1
  others m n hn hne q hq := by
    rw [getElem?_nodes] at hn
    obtain ⟨p', hp', rfl⟩ := Option.map_eq_some_iff.mp hn
    have hnot : q ∉ p.inputs := fun hmem => hne (hreader.eq hp' hp hq hmem)
    exact congrArg _ (on_eq_nil hnot h.received_mem)

/-- What a worker makes is what its processor makes of what it is given and receives. -/
theorem StationWorker.made_eq (hp : stations[w.station]? = some p) (h : w.Ok c qidOf p) (q : String) :
    (w.actor c).gives (stations.map (Station.node c)) q + (w.actor c).puts (stations.map (Station.node c)) q =
      if q ∈ p.outputs then (w.made c p : Multiset DataFrame) else 0 := by
  have hnode : (stations.map (Station.node c))[(w.actor c).node]? = some (p.node c) := by
    rw [getElem?_nodes]
    exact congrArg (Option.map _) hp
  have hgives : (w.actor c).gives (stations.map (Station.node c)) q =
      if q ∈ p.outputs then (w.given.filterMap (carried c .none) : Multiset DataFrame) else 0 := by
    rw [FlowActor.gives, hnode]
    rfl
  have hsum : ((p.node c).inputs.map (w.actor c).received).sum = (w.received.map Prod.snd : List DataFrame) :=
    sum_on p.nodup_inputs h.received_mem
  have hputs : (w.actor c).puts (stations.map (Station.node c)) q =
      if q ∈ p.outputs then ((w.received.flatMap fun x => p.madeOf c x.2 : List DataFrame) : Multiset DataFrame)
      else 0 := by
    rw [FlowActor.puts, hnode, Option.elim_some, FlowNode.puts, hsum]
    congr 1
    simp only [Station.node, Multiset.coe_bind, List.flatMap_map]
  rw [hgives, hputs]
  split_ifs
  · rfl
  · rw [add_zero]

theorem StationWorker.sent_le (hp : stations[w.station]? = some p) (h : w.Ok c qidOf p) (q : String) :
    (w.actor c).sent q ≤
      (w.actor c).gives (stations.map (Station.node c)) q + (w.actor c).puts (stations.map (Station.node c)) q := by
  rw [made_eq hp h]
  split_ifs with hq
  · exact Multiset.coe_le.mpr (h.sent_prefix hq).sublist.subperm
  · exact (congrArg _ (on_eq_nil hq h.sent_mem)).le

theorem StationWorker.sent_eq (hp : stations[w.station]? = some p) (h : w.Ok c qidOf p) {i : ℕ}
    (hphase : w.phase = .asking i) (q : String) : (w.actor c).sent q =
      (w.actor c).gives (stations.map (Station.node c)) q + (w.actor c).puts (stations.map (Station.node c)) q := by
  rw [made_eq hp h]
  split_ifs with hq
  · exact congrArg _ (h.sent_eq hphase hq)
  · exact congrArg _ (on_eq_nil hq h.sent_mem)

end Actors

/-! ## The invariant of the network -/

/-- A part more for one element of a list is that part more for all of them. -/
theorem sum_set {α β : Type*} [AddCommMonoid β] {xs : List α} {k : ℕ} {x y : α} (hk : xs[k]? = some x) {f : α → β}
    {b : β} (hf : f y = f x + b) : ((xs.set k y).map f).sum = (xs.map f).sum + b := by
  induction xs generalizing k with
  | nil => cases hk
  | cons z xs ih =>
    cases k with
    | zero =>
      obtain rfl := Option.some.inj hk
      rw [List.set_cons_zero, List.map_cons, List.sum_cons, List.map_cons, List.sum_cons, hf, add_right_comm]
    | succ k =>
      rw [List.set_cons_succ, List.map_cons, List.sum_cons, ih hk, List.map_cons, List.sum_cons, add_assoc]

open StationWorker

variable {c} {refuses : String → Bool} {stations : List Station} {s s' : Network}

/-- The queues keep to their lists, the workers to their books, and what the queues have returned and taken is what
the workers have received and sent. -/
structure Network.Sound (refuses : String → Bool) (c : Codec) (stations : List Station) (s : Network) : Prop where
  queues : ∃ t, SequentialRun (QueueStore.Answers refuses (DataFrame.fromByteArr c)) (fun _ => none) s.queues.returned t ∧
    s.queues.Represents (DataFrame.fromByteArr c) t
  workers : ∀ w ∈ s.workers, ∃ p, stations[w.station]? = some p ∧ w.Ok c s.queues.qidOf p
  taken : ∀ q, (takenFrom q s.queues.returned : Multiset DataFrame) =
    (s.workers.map fun w => (on q w.received : Multiset DataFrame)).sum
  accepted : ∀ q, (decodedOn (DataFrame.fromByteArr c) q s.queues.returned : Multiset DataFrame) =
    (s.workers.map fun w => (on q w.sent : Multiset DataFrame)).sum

theorem sound_start : Network.start.Sound refuses c stations where
  queues := ⟨_, .nil, represents_start⟩
  workers _ hw := nomatch hw
  taken _ := rfl
  accepted _ := rfl

theorem launched_fresh (n : ℕ) (p : Station) (given : List EmitData) :
    (StationWorker.launched n p given).station = n ∧ (StationWorker.launched n p given).received = [] ∧
      (StationWorker.launched n p given).sent = [] := by
  unfold StationWorker.launched StationWorker.join
  split <;> exact ⟨rfl, rfl, rfl⟩

namespace Network.Sound

/-- A new worker has neither received nor sent anything. -/
theorem launch (h : s.Sound refuses c stations) {n : ℕ} {p : Station} (hp : stations[n]? = some p)
    (given : List EmitData) :
    Network.Sound refuses c stations { s with workers := s.workers ++ [.launched n p given] } := by
  obtain ⟨hstation, hreceived, hsent⟩ := launched_fresh n p given
  refine ⟨h.queues, fun w hw => ?_, fun q => ?_, fun q => ?_⟩
  · rcases List.mem_append.mp hw with hw | hw
    · exact h.workers w hw
    · obtain rfl := List.mem_singleton.mp hw
      exact ⟨p, hstation.symm ▸ hp, StationWorker.launched_ok n given⟩
  · rw [h.taken q]
    simp [hreceived]
  · rw [h.accepted q]
    simp [hsent]

/-- A worker has gone on, and the queues with it. -/
theorem set (h : s.Sound refuses c stations) {k : ℕ} {w w' : StationWorker} {p : Station}
    (hw : s.workers[k]? = some w) (hp : stations[w.station]? = some p) {queues : QueueProcesses DataFrame}
    (hqueues : ∃ t, SequentialRun (QueueStore.Answers refuses (DataFrame.fromByteArr c)) (fun _ => none)
      queues.returned t ∧ queues.Represents (DataFrame.fromByteArr c) t)
    (hmore : ∀ o qid, s.queues.qidOf o = some qid → queues.qidOf o = some qid) (hok : w'.Ok c queues.qidOf p)
    (hadvances : Advances c s.queues queues w w') :
    Network.Sound refuses c stations { queues := queues, workers := s.workers.set k w' } := by
  obtain ⟨xs, hreceived, htaken⟩ := hadvances.received
  obtain ⟨ys, hsent, haccepted⟩ := hadvances.sent
  refine ⟨hqueues, fun v hv => ?_, fun q => ?_, fun q => ?_⟩
  · rcases List.mem_or_eq_of_mem_set hv with hv | rfl
    · obtain ⟨p', hp', hok'⟩ := h.workers v hv
      exact ⟨p', hp', hok'.mono hmore⟩
    · exact ⟨p, hadvances.station.symm ▸ hp, hok⟩
  · have hone : (on q w'.received : Multiset DataFrame) = on q w.received + on q xs := by
      rw [hreceived, on_append, Multiset.coe_add]
    rw [htaken q, ← Multiset.coe_add, h.taken q]
    exact (sum_set hw hone).symm
  · have hone : (on q w'.sent : Multiset DataFrame) = on q w.sent + on q ys := by
      rw [hsent, on_append, Multiset.coe_add]
    rw [haccepted q, ← Multiset.coe_add, h.accepted q]
    exact (sum_set hw hone).symm

/-- The steps keep the invariant. -/
theorem step (h : s.Sound refuses c stations) {e : NetEvent} (hroom : NetRoom refuses c s e)
    (hstep : netStep refuses c stations s e = some s') : s'.Sound refuses c stations := by
  cases e with
  | launch n given =>
    obtain ⟨p, hp, rfl⟩ := Option.map_eq_some_iff.mp hstep
    exact h.launch hp given
  | step k move =>
    obtain ⟨w, hw, hstep⟩ := Option.bind_eq_some_iff.mp hstep
    obtain ⟨p, hp, hstep⟩ := Option.bind_eq_some_iff.mp hstep
    obtain ⟨p', hp', hok⟩ := h.workers w (List.mem_of_getElem? hw)
    obtain rfl := Option.some.inj (hp.symm.trans hp')
    cases herror : w.stampError c with
    | some e =>
      rw [herror] at hstep
      obtain rfl := Option.some.inj hstep
      exact h.set hw hp h.queues (fun _ _ hq => hq) (StationWorker.stampError_ok hok herror)
        (Advances.of_same rfl rfl rfl rfl rfl)
    | none =>
      rw [herror] at hstep
      obtain ⟨e, hrequest, hstep⟩ := Option.bind_eq_some_iff.mp hstep
      obtain ⟨queues, hqueues, hstep⟩ := Option.bind_eq_some_iff.mp hstep
      obtain rfl := Option.some.inj hstep
      obtain ⟨t, hlegal, hrep⟩ := h.queues
      obtain ⟨hleaves, hgoes⟩ := hroom w hw e hrequest
      obtain ⟨t', hreturns, hrep'⟩ := hrep.step hleaves hqueues
      obtain ⟨hok', hadvances⟩ := StationWorker.step_ok hok hrep hrequest hleaves hgoes hqueues
      exact h.set hw hp ⟨t', hlegal.returns hreturns, hrep'⟩ (fun _ _ => QueueProcesses.qidOf_step hqueues) hok'
        hadvances

/-- Of the frames that a queue has taken, the first have been read, and the others are still there. -/
theorem exists_held (h : s.Sound refuses c stations) : ∃ t : QueueStore,
    s.queues.Represents (DataFrame.fromByteArr c) t ∧
      ∀ q, decodedOn (DataFrame.fromByteArr c) q s.queues.returned =
        takenFrom q s.queues.returned ++ (t.held q).filterMap fun body => (DataFrame.fromByteArr c body).toOption := by
  obtain ⟨t, hlegal, hrep⟩ := h.queues
  exact ⟨t, hrep, (inOrder_of_legal hlegal).decodedOn_eq⟩

/-- When nothing is left to do, everything that has been taken has been read. -/
theorem decodedOn_of_drained (h : s.Sound refuses c stations) (hdrained : s.Drained) (q : String) :
    decodedOn (DataFrame.fromByteArr c) q s.queues.returned = takenFrom q s.queues.returned := by
  obtain ⟨t, hrep, hheld⟩ := h.exists_held
  by_cases hnone : decodedOn (DataFrame.fromByteArr c) q s.queues.returned = []
  · rw [hnone]
    exact (List.append_eq_nil_iff.mp ((hheld q).symm.trans hnone)).1.symm
  -- a worker has sent to the queue, so that it has an object of it
  have hsent : ∃ w ∈ s.workers, on q w.sent ≠ [] := by
    by_contra hall
    push Not at hall
    refine hnone ((Multiset.coe_eq_zero _).mp ?_)
    rw [h.accepted q]
    refine List.sum_eq_zero fun x hx => ?_
    obtain ⟨w, hw, rfl⟩ := List.mem_map.mp hx
    rw [hall w hw]
    rfl
  obtain ⟨w, hw, hne⟩ := hsent
  obtain ⟨p, -, hok⟩ := h.workers w hw
  obtain ⟨i, hphase⟩ := WorkerPhase.eq_asking (hdrained.workers w hw)
  have hq : q ∈ p.outputs := by
    by_contra hq
    exact hne (on_eq_nil hq hok.sent_mem)
  rw [Ok, hphase] at hok
  rw [← hok.1.targets] at hq
  obtain ⟨target, htarget, rfl⟩ := List.mem_map.mp hq
  obtain ⟨object, hobject, hqid⟩ := Option.map_eq_some_iff.mp (hok.1.objects _ (List.mem_append_right _ htarget))
  obtain ⟨r, hr, hsize, -⟩ := hrep.objects object (List.mem_of_getElem? hobject)
  obtain ⟨buf, hbuf, hstored⟩ := hrep.stored _ _ hr
  have hempty := hdrained.queues target.1 (object.on buf)
    (QueueProcesses.queue_eq_some_iff.mpr ⟨_, _, hobject, hbuf, rfl⟩)
  obtain ⟨frames, hholds, hbodies⟩ := hstored.on hsize
  have hnoframes : frames = [] := by
    have hlength := hholds.carries.pendingCounter_eq
    exact List.eq_nil_of_length_eq_zero (by omega)
  have hheldnil : t.held object.qid = [] := by
    rw [QueueStore.held, hr, Option.elim_some, ← hbodies, hnoframes, List.map_nil]
  rw [hheld, ← hqid, hheldnil, List.filterMap_nil, List.append_nil]

end Network.Sound

/-! ## What comes through -/

theorem Network.through_eq (h : s.Sound refuses c stations) :
    s.through = fun q => ((s.workers.map (actor c)).map fun a => a.received q).sum := by
  funext q
  rw [List.map_map]
  exact h.taken q

theorem Network.given_eq : s.given c stations =
    fun q => ((s.workers.map (actor c)).map fun a => a.gives (stations.map (Station.node c)) q).sum := by
  funext q
  rw [List.map_map]
  refine congrArg List.sum (List.map_congr_left fun w _ => ?_)
  rw [Function.comp_apply, FlowActor.gives, getElem?_nodes]
  show _ = (stations[w.station]?.map (Station.node c)).elim 0 _
  cases stations[w.station]? <;> rfl

theorem Network.Sound.actors_read (h : s.Sound refuses c stations) (hreader : OneReader stations) :
    ∀ a ∈ s.workers.map (actor c), a.Reads (stations.map (Station.node c)) := by
  intro a ha
  obtain ⟨w, hw, rfl⟩ := List.mem_map.mp ha
  obtain ⟨p, hp, hok⟩ := h.workers w hw
  exact actor_reads hreader hp hok

theorem Network.Sound.taken_le (h : s.Sound refuses c stations) (q : String) :
    (s.workers.map fun w => (on q w.received : Multiset DataFrame)).sum ≤
      (s.workers.map fun w => (on q w.sent : Multiset DataFrame)).sum := by
  obtain ⟨t, -, hheld⟩ := h.exists_held
  rw [← h.taken q, ← h.accepted q, hheld q, ← Multiset.coe_add]
  exact Multiset.le_add_right _ _

theorem Network.Sound.taken_eq (h : s.Sound refuses c stations) (hdrained : s.Drained) (q : String) :
    (s.workers.map fun w => (on q w.received : Multiset DataFrame)).sum =
      (s.workers.map fun w => (on q w.sent : Multiset DataFrame)).sum := by
  rw [← h.taken q, ← h.accepted q, h.decodedOn_of_drained hdrained]

theorem Network.Sound.isSubflow (h : s.Sound refuses c stations) (hreader : OneReader stations) :
    IsSubflow (stations.map (Station.node c)) (s.given c stations) s.through := by
  rw [Network.given_eq, Network.through_eq h]
  refine isSubflow_of_actors (h.actors_read hreader) (fun a ha => ?_) fun q => ?_
  · obtain ⟨w, hw, rfl⟩ := List.mem_map.mp ha
    obtain ⟨p, hp, hok⟩ := h.workers w hw
    exact sent_le hp hok
  · rw [List.map_map, List.map_map]
    exact h.taken_le q

theorem Network.Sound.isFlow (h : s.Sound refuses c stations) (hreader : OneReader stations) (hdrained : s.Drained) :
    IsFlow (stations.map (Station.node c)) (s.given c stations) s.through := by
  rw [Network.given_eq, Network.through_eq h]
  refine isFlow_of_actors (h.actors_read hreader) (fun a ha => ?_) fun q => ?_
  · obtain ⟨w, hw, rfl⟩ := List.mem_map.mp ha
    obtain ⟨p, hp, hok⟩ := h.workers w hw
    obtain ⟨i, hphase⟩ := WorkerPhase.eq_asking (hdrained.workers w hw)
    exact sent_eq hp hok hphase
  · rw [List.map_map, List.map_map]
    exact h.taken_eq hdrained q

/-- The workers that were given something, and what. -/
def Network.launches (c : Codec) (s : Network) : List (ℕ × List DataFrame) :=
  (s.workers.map fun w => (w.station, w.given.filterMap (carried c .none))).filter fun x => !x.2.isEmpty

/-- How many workers were given nothing makes no difference. -/
theorem Network.given_congr (h : s.launches c = s'.launches c) : s.given c stations = s'.given c stations := by
  have hgiven : ∀ (s : Network) (q : String), s.given c stations q = ((s.launches c).map fun x =>
      stations[x.1]?.elim 0 fun p => if q ∈ p.outputs then (x.2 : Multiset DataFrame) else 0).sum := by
    intro s q
    rw [given, launches]
    induction s.workers with
    | nil => rfl
    | cons w workers ih =>
      rw [List.map_cons, List.sum_cons, ih, List.map_cons, List.filter_cons]
      split_ifs with hnone
      · rfl
      · have hnil : w.given.filterMap (carried c .none) = [] := by simpa using hnone
        rw [hnil]
        cases stations[w.station]? <;> simp
  funext q
  rw [hgiven, hgiven, h]

/-! ## Every interleaving -/

variable {events : List NetEvent}

theorem sound_of_run (hroom : Along (netStep refuses c stations) (NetRoom refuses c) .start events)
    (hrun : runFrom (netStep refuses c stations) .start events = some s) : s.Sound refuses c stations :=
  hroom.invariant (fun _ _ _ h hguard hstep => h.step hguard hstep) sound_start hrun

/-- When nothing is left to do, all that the processors make has come through. -/
theorem network_delivers (hreader : OneReader stations)
    (hroom : Along (netStep refuses c stations) (NetRoom refuses c) .start events)
    (hrun : runFrom (netStep refuses c stations) .start events = some s) (hdrained : s.Drained) :
    IsFlow (stations.map (Station.node c)) (s.given c stations) s.through :=
  (sound_of_run hroom hrun).isFlow hreader hdrained

end Books

/-! ## Two workers for one processor -/

/-- The queue from the pipe process to its processor. -/
def toTwo : APIQueue where
  id := "main->two"
  name := "main->two"
  fromP := "main"
  toP := "two"
  size := 400
  host := none

def toSink : APIQueue where
  id := sinkQueueId
  name := "pipe_sink_q"
  fromP := "*"
  toP := "main"
  size := 600
  host := none

/-- A pipe with a processor that emits every value twice. -/
def doubling : List Station :=
  [.pipe "main" toSink [toTwo] (by decide) (by decide),
    .worker "two" [toTwo, toSink] (fun data => .ok [.value data, .value data]) (by decide) (by decide),
    .sinkReader toSink (fun _ => .ok ()) rfl]

/-- The pipe process sends two frames. Each of the two workers of the processor takes one of them, and their puts to
the sink alternate. -/
def doublingRun : List NetEvent :=
  [.launch 0 [.frame PipeLine.taggedFrame, .frame PipeLine.taggedFrame], .launch 1 [], .launch 1 [], .launch 2 []] ++
    [0, 0, 1, 1, 2, 2, 3, 0, 0, 0, 0, 1, 2, 1, 2, 1, 2, 1, 2, 2, 1, 1, 2, 3, 3, 3, 3, 3, 3, 3, 3].map (.step · (.go 0))

/-- The same with one worker. -/
def alone : List NetEvent :=
  [.launch 0 [.frame PipeLine.taggedFrame, .frame PipeLine.taggedFrame], .launch 1 [], .launch 2 []] ++
    [0, 0, 1, 1, 2, 0, 0, 0, 0, 1, 1, 1, 1, 1, 1, 2, 2, 2, 2, 1, 1, 1, 1, 1, 1, 2, 2, 2, 2].map (.step · (.go 0))

theorem oneReader_doubling : OneReader doubling := by
  unfold OneReader
  decide

theorem ranked_doubling :
    Ranked (doubling.map (Station.node Codec.emptyObjects)) fun q => if q = sinkQueueId then 1 else 0 := by
  unfold Ranked
  decide

theorem room_doublingRun : Along (netStep (fun _ => false) Codec.emptyObjects doubling)
    (NetRoom (fun _ => false) Codec.emptyObjects) .start doublingRun := by
  decide +kernel

theorem network_delivers_doubling : ∃ s, runFrom (netStep (fun _ => false) Codec.emptyObjects doubling) .start
    doublingRun = some s ∧ (takenFrom sinkQueueId s.queues.returned).length = 4 ∧
      IsFlow (doubling.map (Station.node Codec.emptyObjects)) (s.given Codec.emptyObjects doubling) s.through := by
  have hany : (runFrom (netStep (fun _ => false) Codec.emptyObjects doubling) .start doublingRun).any
      (fun s => s.Drained ∧ (takenFrom sinkQueueId s.queues.returned).length = 4) = true := by
    decide +kernel
  obtain ⟨s, hrun, hrest⟩ := (Option.any_eq_true ..).mp hany
  obtain ⟨hdrained, hfour⟩ := of_decide_eq_true hrest
  exact ⟨s, hrun, hfour, network_delivers oneReader_doubling room_doublingRun hrun hdrained⟩

end Upipe
