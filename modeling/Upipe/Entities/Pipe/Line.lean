import Upipe.Common.Line
import Upipe.Common.Runs
import Upipe.Entities.MemQueue.Holds
import Upipe.Entities.Worker.Defs

/-!
# A line of workers

A pipe without forks, with one worker for each processor: the pipe process emits its frames into the queue of
the first worker, every worker gets a value, handles it and emits the results into the next queue, and the last
queue is the sink. A worker is a loop

    while True: data = await worker.get(); for x in handle(data): while not await worker.emit(x): pass

with a `handle` of its own. An `emit` is two steps, the tests of `put` and the locked write, and so is a `get`, the
pending test and the locked read; between two steps any other process may take steps of its own. The locks are taken
to work: that a step is one piece is what they are for, and the `TimeoutError` of an `acquire_lock` is left out.

`delivers` says that whatever the interleaving, what comes out of the sink is what the workers come to when they
work one after the other on lists; `can_always_finish` that no interleaving leads into a dead end.
-/

namespace Upipe

open Upipe.Common MemQueue

/-! ## Definitions -/

/-- The program of a worker: what it keeps between two values, and what it makes of one. -/
structure Program (σ : Type) where
  handle : σ → PyVal → Except PyError (σ × List EmitData)
  memory : σ

/-- A worker that runs its program. `sending` are the results that no `emit` has returned `True` for, `admitted`
is the encoded frame that waits for the write lock, `failed` the exception that ended the process. -/
structure LineWorker (σ : Type) extends Program σ where
  currentPipeExecutionId : PyVal
  sending : List EmitData
  admitted : Option Bytes
  failed : Option PyError

/-- A worker and its output queue. `reading` says that the reader of the queue is past the pending test and waits
for the read lock. -/
structure Segment (σ : Type) where
  worker : LineWorker σ
  outQ : MemQueue
  reading : Bool

/-- What has been read from the sink, oldest first. -/
structure SinkReader where
  got : List DataFrame
  failed : Option PyError

/-- A line. The first worker stands for the pipe process. -/
structure PipeLine (σ : Type) where
  segments : List (Segment σ)
  sink : SinkReader

/-- A step at one segment: of its worker, which writes to the queue, or of the reader of the queue. -/
inductive LineMove where
  | test
  | write (now : UInt64)
  | check
  | read (now : UInt64)

variable {σ : Type} (c : Codec)

/-- The execution id that a worker has behind a `get`. -/
def currentIdOf (frame : DataFrame) : PyVal :=
  if frame.pipeExecutionId.truthy then frame.pipeExecutionId else .none

/-- The frame that a worker with the execution id sends. -/
def stampedWith (id : PyVal) (data : EmitData) : Except PyError DataFrame :=
  Worker.stampedFrame c { outQs := [], sinkQ := none, processedCounter := 0, currentPipeExecutionId := id } data

namespace LineWorker

def idle (w : LineWorker σ) : Bool := w.sending.isEmpty && w.failed.isNone

/-- The process ends with an exception. -/
def fail (e : PyError) (w : LineWorker σ) : LineWorker σ :=
  { w with sending := [], admitted := none, failed := some e }

/-- What follows in `get` and in the program when a frame has been read. -/
def receive (frame : DataFrame) (w : LineWorker σ) : LineWorker σ :=
  match frame.data with
  | .error e => w.fail e
  | .ok data =>
      match w.handle w.memory data with
      | .error e => w.fail e
      | .ok (memory, sending) =>
          { w with memory := memory, sending := sending, currentPipeExecutionId := currentIdOf frame }

/-- The end of the locked read. -/
def reads (w : LineWorker σ) : EStateM.Result PyError MemQueue (Option DataFrame) → LineWorker σ
  | .ok (some frame) _ => w.receive frame
  | .ok none _ => w
  | .error e _ => w.fail e

end LineWorker

def SinkReader.reads (k : SinkReader) : EStateM.Result PyError MemQueue (Option DataFrame) → SinkReader
  | .ok (some frame) _ => { k with got := k.got ++ [frame] }
  | .ok none _ => k
  | .error e _ => { k with failed := some e }

namespace Segment

/-- `emit` up to the wait for the write lock. -/
def offer (s : Segment σ) (data : EmitData) : Except PyError (Option Bytes) := do
  let frame ← stampedWith c s.worker.currentPipeExecutionId data
  s.outQ.putTest (frame.toByteArr c)

/-- The worker begins to emit the first of its results. -/
def test (s : Segment σ) : Option (Segment σ) :=
  match s.worker.sending with
  | [] => none
  | data :: _ =>
      if s.worker.admitted.isSome then none
      else
        match s.offer c data with
        | .ok (some body) => some { s with worker := { s.worker with admitted := some body } }
        | .ok none => some s
        | .error e => some { s with worker := s.worker.fail e }

/-- The worker writes the frame that was admitted. -/
def write (now : UInt64) (s : Segment σ) : Option (Segment σ) :=
  match s.worker.admitted with
  | none => none
  | some body =>
      match putLocked body now s.outQ with
      | .ok added q =>
          some { s with
            outQ := q
            worker := { s.worker with
              admitted := none, sending := if added then s.worker.sending.tail else s.worker.sending } }
      | .error e q => some { s with outQ := q, worker := s.worker.fail e }

/-- The pending test of the reader. -/
def checked (s : Segment σ) : Segment σ := { s with reading := decide (s.outQ.pendingCounter ≠ 0) }

/-- The locked read. -/
def readResult (now : UInt64) (s : Segment σ) : EStateM.Result PyError MemQueue (Option DataFrame) :=
  getLocked (DataFrame.fromByteArr c) now s.outQ

/-- The segment behind the locked read. -/
def afterRead (now : UInt64) (s : Segment σ) : Segment σ :=
  { s with outQ := stateOf (s.readResult c now), reading := false }

/-- The next test admits a frame that fills the queue to the last byte. -/
def Fills (s : Segment σ) : Prop :=
  match s.worker.sending with
  | [] => False
  | data :: _ =>
      match s.offer c data with
      | .ok (some body) => (frameSize body : ℤ) = s.outQ.freeSpace
      | _ => False

end Segment

/-- A step at the segment at a position. A reader that is a worker begins to read when it has nothing to send. -/
def moveAt : List (Segment σ) → SinkReader → ℕ → LineMove → Option (PipeLine σ)
  | [], _, _, _ => none
  | s :: ss, k, 0, .test => (s.test c).map fun s' => ⟨s' :: ss, k⟩
  | s :: ss, k, 0, .write now => (s.write now).map fun s' => ⟨s' :: ss, k⟩
  | [s], k, 0, .check => if s.reading || k.failed.isSome then none else some ⟨[s.checked], k⟩
  | [s], k, 0, .read now => if s.reading then some ⟨[s.afterRead c now], k.reads (s.readResult c now)⟩ else none
  | s :: t :: ss, k, 0, .check => if s.reading || !t.worker.idle then none else some ⟨s.checked :: t :: ss, k⟩
  | s :: t :: ss, k, 0, .read now =>
      if s.reading && t.worker.idle then
        some ⟨s.afterRead c now :: { t with worker := t.worker.reads (s.readResult c now) } :: ss, k⟩
      else none
  | s :: ss, k, i + 1, m => (moveAt ss k i m).map fun p => { p with segments := s :: p.segments }

/-- The steps of the line. -/
def lineStep (p : PipeLine σ) (e : ℕ × LineMove) : Option (PipeLine σ) := moveAt c p.segments p.sink e.1 e.2

/-- A worker with results to send. -/
def Program.segment (p : Program σ) (q : MemQueue) (sending : List EmitData) : Segment σ where
  worker := { toProgram := p, currentPipeExecutionId := .none, sending := sending, admitted := none, failed := none }
  outQ := q
  reading := false

/-- A line of programs with their output queues, before any step. The first has frames to send. -/
def PipeLine.start (frames : List DataFrame) (stations : List (Program σ × MemQueue)) : PipeLine σ where
  segments :=
    match stations with
    | [] => []
    | (p, q) :: rest => p.segment q (frames.map .frame) :: rest.map fun (p, q) => p.segment q []
  sink := { got := [], failed := none }

/-- What a worker sends for a frame, on lists. -/
def Program.work (p : Program σ) (state : σ × PyVal) (frame : DataFrame) :
    Except PyError ((σ × PyVal) × List DataFrame) := do
  let data ← frame.data
  let (memory, sending) ← p.handle state.1 data
  let frames ← sending.mapM (stampedWith c (currentIdOf frame))
  pure ((memory, currentIdOf frame), frames)

abbrev LineStage (σ : Type) := Stage PyError (σ × PyVal) DataFrame

/-- A worker as a stage. -/
def Program.stage (p : Program σ) (frames : List DataFrame) : LineStage σ where
  work := p.work c
  state := (p.memory, .none)
  held := frames
  queue := []
  entered := []

/-- The workers one after the other on lists: the frames that go through each queue, and what comes out. -/
def onLists (frames : List DataFrame) (programs : List (Program σ)) :
    Except PyError (List (List DataFrame) × List DataFrame) :=
  match programs with
  | [] => .ok ([], [])
  | p :: rest => Line.flow (p.stage c frames :: rest.map fun p => p.stage c []) []

/-- The frames can go through the queue: each is encoded, comes back from its bytes, and leaves a byte of the empty
queue free, and the four bytes of the counters last for all of them. -/
structure GoThrough (q : MemQueue) (history : List DataFrame) : Prop where
  few : history.length < 2 ^ 32
  comesBack : ∀ frame ∈ history, ∃ body, frame.toByteArr c = .ok body ∧ DataFrame.fromByteArr c body = .ok frame ∧
    frameSize body < q.size - qControlSize

namespace PipeLine

/-- No step admits a frame that fills its queue to the last byte. -/
def NoneFills (p : PipeLine σ) : ℕ × LineMove → Prop
  | (i, .test) => ∀ s ∈ p.segments[i]?, ¬ s.Fills c
  | _ => True

def NoneFailed (p : PipeLine σ) : Prop := (∀ s ∈ p.segments, s.worker.failed = none) ∧ p.sink.failed = none

/-- Nothing is left to send or to read. -/
def Drained (p : PipeLine σ) : Prop := ∀ s ∈ p.segments, s.worker.sending = [] ∧ s.outQ.pendingCounter = 0

end PipeLine

/-! ## The two steps of a call -/

variable {c} in
/-- An `emit` that nobody comes between is the tests and then the locked write. -/
theorem Segment.emit_eq {putQ : MemQueue → DataFrame → Except PyError Bool} {clock : String → UInt64} {s : Segment σ}
    {w : Worker} (hqs : w.outQs = [s.outQ]) (hid : w.currentPipeExecutionId = s.worker.currentPipeExecutionId)
    (hlocal : ¬ Worker.Remote s.outQ) {data : EmitData} {frame : DataFrame}
    (hframe : stampedWith c s.worker.currentPipeExecutionId data = .ok frame) :
    Worker.emit c putQ clock data w =
      match s.offer c data with
      | .error e => .error e { w with processedCounter := w.processedCounter + 1 }
      | .ok none => .ok false { w with processedCounter := w.processedCounter + 1 }
      | .ok (some body) =>
          match putLocked body (clock s.outQ.qid) s.outQ with
          | .ok added q => .ok added { w with outQs := [q], processedCounter := w.processedCounter + 1 }
          | .error e q => .error e { w with outQs := [q], processedCounter := w.processedCounter + 1 } := by
  have hstamped : w.stampedFrame c data = .ok frame := by
    rw [← hid] at hframe
    exact hframe
  have hoffer : s.offer c data = s.outQ.putTest (frame.toByteArr c) := by
    rw [Segment.offer, hframe]
    rfl
  rw [Worker.emit, hstamped, hqs, hoffer]
  dsimp only
  rw [Worker.broadcast, Worker.enqueue, if_neg hlocal, put_eq_putTest]
  cases s.outQ.putTest (frame.toByteArr c) with
  | error e => rfl
  | ok result =>
    cases result with
    | none => rfl
    | some body =>
      dsimp only
      cases putLocked body (clock s.outQ.qid) s.outQ with
      | error e q => rfl
      | ok added q => cases added <;> rfl

/-- A `get` that nobody comes between is the pending test and then the locked read. -/
theorem Segment.get_eq (s : Segment σ) (now : UInt64) :
    MemQueue.get (DataFrame.fromByteArr c) now s.outQ
      = if s.checked.reading then s.readResult c now else .ok none s.outQ := by
  rw [MemQueue.get, get_bind_apply, Segment.checked]
  by_cases hpending : s.outQ.pendingCounter = 0
  · rw [if_pos hpending, decide_eq_false (not_not_intro hpending)]
    rfl
  · rw [if_neg hpending, decide_eq_true hpending]
    rfl

/-! ## One segment -/

/-- The worker and its queue are where the stage is: the queue holds the frames of the stage's queue, and what is
left to send becomes the frames that the stage holds. -/
structure Represents (s : Segment σ) (stage : LineStage σ) : Prop where
  failed : s.worker.failed = none
  work_eq : stage.work = s.worker.toProgram.work c
  state_eq : stage.state = (s.worker.memory, s.worker.currentPipeExecutionId)
  held : List.Forall₂ (fun data frame => stampedWith c s.worker.currentPipeExecutionId data = .ok frame)
    s.worker.sending stage.held
  queue : ∃ frames, Holds s.outQ frames ∧
    List.Forall₂ (fun f frame => DataFrame.fromByteArr c f.body = .ok frame) frames stage.queue
  allocCounter : s.outQ.allocCounter = stage.entered.length
  frameCounter : s.outQ.frameCounter = stage.entered.length
  admitted : ∀ body ∈ s.worker.admitted, ∃ frame held, stage.held = frame :: held ∧
    frame.toByteArr c = .ok body ∧ (frameSize body : ℤ) < s.outQ.freeSpace
  reading : s.reading = true → stage.queue ≠ []

variable {c} {s s' t : Segment σ} {stage : LineStage σ} {history : List DataFrame}

/-- The tests never raise on a frame that has been encoded. -/
private theorem exists_putTest_ok (q : MemQueue) (body : Bytes) : ∃ admitted, q.putTest (.ok body) = .ok admitted := by
  by_cases hover : q.overCapacity
  · exact ⟨none, if_pos hover⟩
  · by_cases hfits : q.fitsFree body
    · exact ⟨some body, (if_neg hover).trans (if_neg (not_not.mpr hfits))⟩
    · exact ⟨none, (if_neg hover).trans (if_pos hfits)⟩

namespace Represents

theorem pendingCounter_eq (h : Represents c s stage) : s.outQ.pendingCounter = stage.queue.length := by
  obtain ⟨frames, hholds, hqueue⟩ := h.queue
  rw [hholds.carries.pendingCounter_eq, hqueue.length_eq]

/-- The first result is offered as the first frame that the stage holds. -/
theorem offer_eq (h : Represents c s stage) (hgo : GoThrough c s.outQ history)
    (hsub : ∀ frame ∈ stage.held, frame ∈ history) {data : EmitData} {rest : List EmitData}
    (hsending : s.worker.sending = data :: rest) :
    ∃ frame held body, stage.held = frame :: held ∧ frame.toByteArr c = .ok body ∧
      frameSize body < s.outQ.size - qControlSize ∧ s.offer c data = s.outQ.putTest (.ok body) := by
  have hheld := h.held
  rw [hsending] at hheld
  obtain ⟨frame, held, hframe, -, hcons⟩ := List.forall₂_cons_left_iff.mp hheld
  obtain ⟨body, hbody, -, hsize⟩ := hgo.comesBack frame (hsub frame (hcons ▸ List.mem_cons_self))
  refine ⟨frame, held, body, hcons, hbody, hsize, ?_⟩
  rw [Segment.offer, hframe, ← hbody]
  rfl

/-- The tests of a `put` leave the stage where it is. -/
theorem test (h : Represents c s stage) (hgo : GoThrough c s.outQ history)
    (hsub : ∀ frame ∈ stage.held, frame ∈ history) (hfills : ¬ s.Fills c) (htest : s.test c = some s') :
    Represents c s' stage ∧ s'.outQ = s.outQ := by
  rw [Segment.test] at htest
  rw [Segment.Fills] at hfills
  split at htest
  · cases htest
  · rename_i data rest hsending
    obtain ⟨frame, held, body, hheld, hbody, -, hoffer⟩ := h.offer_eq hgo hsub hsending
    rw [hsending] at hfills
    dsimp only at hfills
    rw [hoffer] at htest hfills
    split at htest
    · cases htest
    · split at htest
      · rename_i body' hadmits
        cases htest
        obtain ⟨-, hsame, hfit⟩ := putTest_eq_some hadmits
        obtain rfl := Except.ok.inj hsame
        rw [hadmits] at hfills
        refine ⟨{ h with admitted := ?_ }, rfl⟩
        rintro _ ⟨⟩
        exact ⟨frame, held, hheld, hbody, Int.lt_iff_le_and_ne.mpr ⟨hfit, hfills⟩⟩
      · cases htest
        exact ⟨h, rfl⟩
      · rename_i e hraises
        obtain ⟨admitted, hadmits⟩ := exists_putTest_ok s.outQ body
        rw [hadmits] at hraises
        cases hraises

/-- The locked write gives the first frame to the queue. -/
theorem write (h : Represents c s stage) (hgo : GoThrough c s.outQ history) {results : List DataFrame}
    (hhistory : history = stage.entered ++ (stage.held ++ results)) {now : UInt64} (hwrite : s.write now = some s') :
    ∃ frame held, stage.held = frame :: held ∧ s'.outQ.size = s.outQ.size ∧
      Represents c s' { stage with
        held := held, queue := stage.queue ++ [frame], entered := stage.entered ++ [frame] } := by
  rw [Segment.write] at hwrite
  split at hwrite
  · cases hwrite
  · rename_i body hadmitted
    obtain ⟨frame, held, hheld, hbody, hfit⟩ := h.admitted body hadmitted
    obtain ⟨frames, hholds, hqueue⟩ := h.queue
    have hfew := hgo.few
    rw [hhistory, hheld, List.length_append, List.cons_append, List.length_cons] at hfew
    have halloc := h.allocCounter
    have hnum := h.frameCounter
    rw [hholds.freeSpace_eq] at hfit
    have hroom : used frames + frameSize body < s.outQ.size - qControlSize := by omega
    obtain ⟨q', hsize, hput, hholds', hsame, halloc', hnum'⟩ := hholds.putLocked_ok now hroom (by omega) (by omega)
    rw [hput] at hwrite
    cases hwrite
    have hback : DataFrame.fromByteArr c body = .ok frame := by
      obtain ⟨body', hbody', hback, -⟩ := hgo.comesBack frame (by
        rw [hhistory, hheld]
        exact List.mem_append_right _ List.mem_cons_self)
      rw [hbody, Except.ok.injEq] at hbody'
      rwa [hbody']
    have hsent := h.held
    rw [hheld] at hsent
    obtain ⟨data, rest, -, hrest, hsending⟩ := List.forall₂_cons_right_iff.mp hsent
    refine ⟨frame, held, hheld, hsame,
      { h with held := ?_, queue := ?_, allocCounter := ?_, frameCounter := ?_, admitted := ?_, reading := ?_ }⟩
    · dsimp only
      rw [hsending]
      exact hrest
    · refine ⟨_, hholds', List.rel_append hqueue (.cons ?_ .nil)⟩
      rw [Frame.body_ofBody]
      exact hback
    · rw [List.length_append, List.length_singleton, ← halloc]
      exact halloc'
    · rw [List.length_append, List.length_singleton, ← hnum]
      exact hnum'
    · exact fun _ hnone => nomatch hnone
    · exact fun _ hnil => List.append_ne_nil_of_right_ne_nil _ (List.cons_ne_nil _ _) hnil

/-- The pending test tells the reader whether the stage's queue is empty. -/
theorem check (h : Represents c s stage) : Represents c s.checked stage := by
  refine { h with reading := ?_ }
  intro hreading hnil
  refine of_decide_eq_true hreading ?_
  rw [h.pendingCounter_eq, hnil]
  rfl

/-- The locked read takes the frame in front of the stage's queue. -/
theorem read (h : Represents c s stage) (hreading : s.reading = true) (now : UInt64) :
    ∃ frame queue q', stage.queue = frame :: queue ∧ s.readResult c now = .ok (some frame) q' ∧
      q'.size = s.outQ.size ∧ Represents c (s.afterRead c now) { stage with queue := queue } := by
  obtain ⟨frames, hholds, hqueue⟩ := h.queue
  obtain ⟨frame, queue, hcons⟩ := List.exists_cons_of_ne_nil (h.reading hreading)
  rw [hcons] at hqueue
  obtain ⟨f, rest, hback, hrest, rfl⟩ := List.forall₂_cons_right_iff.mp hqueue
  obtain ⟨q', hget, hholds', hsize, halloc, hnum⟩ := hholds.getLocked_ok (DataFrame.fromByteArr c) now hback
  have hresult : s.readResult c now = .ok (some frame) q' := hget
  have hafter : s.afterRead c now = { s with outQ := q', reading := false } := by
    rw [Segment.afterRead, hresult, stateOf_ok]
  refine ⟨frame, queue, q', hcons, hresult, hsize, ?_⟩
  rw [hafter]
  refine { h with
    queue := ⟨rest, hholds', hrest⟩, allocCounter := ?_, frameCounter := ?_, admitted := ?_
    reading := fun hfalse => nomatch hfalse }
  · exact halloc.trans h.allocCounter
  · exact hnum.trans h.frameCounter
  · intro body hadmitted
    obtain ⟨frame', held, hheld, hbody, hfit⟩ := h.admitted body hadmitted
    refine ⟨frame', held, hheld, hbody, ?_⟩
    rw [hholds.freeSpace_eq, used_cons] at hfit
    rw [hholds'.freeSpace_eq, hsize]
    omega

/-- A worker with nothing to send is idle. -/
theorem idle_of_held_nil (h : Represents c s stage) (hheld : stage.held = []) : s.worker.idle = true := by
  have hsent := h.held
  rw [hheld, List.forall₂_nil_right_iff] at hsent
  rw [LineWorker.idle, hsent, h.failed]
  rfl

theorem held_nil_of_idle (h : Represents c s stage) (hidle : s.worker.idle = true) : stage.held = [] := by
  have hsent := h.held
  rw [LineWorker.idle, Bool.and_eq_true, List.isEmpty_iff] at hidle
  rwa [hidle.1, List.forall₂_nil_left_iff] at hsent

/-- A worker that receives a frame does the work of the stage. -/
theorem receive (h : Represents c s stage) (hheld : stage.held = []) {frame : DataFrame} {state : σ × PyVal}
    {results : List DataFrame} (hwork : stage.work stage.state frame = .ok (state, results)) :
    Represents c { s with worker := s.worker.receive frame } { stage with state := state, held := results } := by
  rw [h.work_eq, h.state_eq] at hwork
  simp only [Program.work, except_bind_eq_ok_iff, except_pure_eq_ok_iff, Prod.exists, Prod.mk.injEq] at hwork
  obtain ⟨data, hdata, memory, sending, hhandle, frames, hframes, rfl, rfl⟩ := hwork
  have hreceive : s.worker.receive frame = { s.worker with
      memory := memory, sending := sending, currentPipeExecutionId := currentIdOf frame } := by
    rw [LineWorker.receive, hdata]
    dsimp only
    rw [hhandle]
  rw [hreceive]
  refine { h with work_eq := h.work_eq, state_eq := rfl, held := forall₂_of_mapM_eq_ok hframes, admitted := ?_ }
  intro body hadmitted
  obtain ⟨frame', held, hcons, -⟩ := h.admitted body hadmitted
  rw [hheld] at hcons
  cases hcons

end Represents

/-! ## The line -/

variable (c) in
/-- Each segment is where its stage is, and the frames of its history can go through its queue. -/
inductive Tracks : List (Segment σ) → List (LineStage σ) → List (List DataFrame) → Prop where
  | nil : Tracks [] [] []
  | cons {s : Segment σ} {stage : LineStage σ} {history : List DataFrame} {ss : List (Segment σ)}
      {stages : List (LineStage σ)} {histories : List (List DataFrame)} (h : Represents c s stage)
      (hgo : GoThrough c s.outQ history) (rest : Tracks ss stages histories) :
      Tracks (s :: ss) (stage :: stages) (history :: histories)

variable {ss : List (Segment σ)} {stages stages' : List (LineStage σ)} {histories : List (List DataFrame)}
  {k : SinkReader} {p : PipeLine σ} {frames out : List DataFrame}

/-- What goes through a queue depends on the size of the queue only. -/
theorem GoThrough.congr {q q' : MemQueue} (h : GoThrough c q history) (hsize : q'.size = q.size) :
    GoThrough c q' history := by
  refine { few := h.few, comesBack := ?_ }
  rw [hsize]
  exact h.comesBack

/-- The frames that a stage holds are in the history of its queue. -/
private theorem mem_history {stage : LineStage σ} {results : List DataFrame} {frame : DataFrame}
    (h : frame ∈ stage.held) : frame ∈ stage.entered ++ (stage.held ++ results) :=
  List.mem_append_right _ (List.mem_append_left _ h)

/-- A step behind the first segment fills a queue in the line behind that segment. -/
private theorem noneFills_succ {i : ℕ} {m : LineMove} :
    PipeLine.NoneFills c ⟨s :: ss, k⟩ (i + 1, m) ↔ PipeLine.NoneFills c ⟨ss, k⟩ (i, m) := by
  cases m <;> exact Iff.rfl

/-- A step of the line is a step of the stages, or none. -/
theorem Tracks.step (h : Tracks c ss stages histories) (hflow : Line.flow stages frames = .ok (histories, out))
    (hk : k.failed = none) {i : ℕ} {m : LineMove} (hfills : PipeLine.NoneFills c ⟨ss, k⟩ (i, m))
    (hmove : moveAt c ss k i m = some p) :
    ∃ stages' left, Line.Steps (fun _ => True) stages left stages' ∧ Tracks c p.segments stages' histories ∧
      p.sink.failed = none ∧ p.sink.got = k.got ++ left := by
  induction h generalizing i p frames with
  | nil => cases hmove
  | @cons s stage history ss stages histories hs hgo hrest ih =>
    have hstay : ∀ {s' : Segment σ}, Represents c s' stage → s'.outQ = s.outQ →
        ∃ stages' left, Line.Steps (fun _ => True) (stage :: stages) left stages' ∧
          Tracks c (s' :: ss) stages' (history :: histories) ∧ k.failed = none ∧ k.got = k.got ++ left := by
      intro s' hs' hsame
      exact ⟨_, [], .refl _, .cons hs' (hgo.congr (congrArg MemQueue.size hsame)) hrest, hk,
        (List.append_nil _).symm⟩
    obtain ⟨results, later, hresults, hflow', hhistories⟩ := Line.flow_cons_eq_ok_iff.mp hflow
    obtain ⟨hhistory, rfl⟩ := List.cons.inj hhistories
    cases i with
    | succ i =>
      rw [moveAt, Option.map_eq_some_iff] at hmove
      obtain ⟨p', hmove', rfl⟩ := hmove
      obtain ⟨stages', left, hsteps, htracks, hsink, hgot⟩ := ih hflow' (noneFills_succ.mp hfills) hmove'
      exact ⟨_, left, hsteps.behind stage, .cons hs hgo htracks, hsink, hgot⟩
    | zero =>
      cases m with
      | test =>
        rw [moveAt, Option.map_eq_some_iff] at hmove
        obtain ⟨s', htest, rfl⟩ := hmove
        have hsub : ∀ frame ∈ stage.held, frame ∈ history := fun frame hframe => hhistory ▸ mem_history hframe
        obtain ⟨hs', hsame⟩ := hs.test hgo hsub (hfills s rfl) htest
        exact hstay hs' hsame
      | write now =>
        rw [moveAt, Option.map_eq_some_iff] at hmove
        obtain ⟨s', hwrite, rfl⟩ := hmove
        obtain ⟨frame, held, hheld, hsize, hs'⟩ := hs.write hgo hhistory hwrite
        exact ⟨_, [], (Line.Step.give hheld trivial).steps, .cons hs' (hgo.congr hsize) hrest, hk,
          (List.append_nil _).symm⟩
      | check =>
        cases hrest with
        | nil =>
          rw [moveAt] at hmove
          split at hmove
          · cases hmove
          · cases hmove
            exact hstay hs.check rfl
        | cons ht hgo' hrest' =>
          rw [moveAt] at hmove
          split at hmove
          · cases hmove
          · cases hmove
            exact hstay hs.check rfl
      | read now =>
        cases hrest with
        | nil =>
          rw [moveAt] at hmove
          split at hmove
          · rename_i hreading
            obtain ⟨frame, queue, q', hqueue, hresult, hsize, hs'⟩ := hs.read hreading now
            cases hmove
            refine ⟨_, [frame], (Line.Step.leave hqueue).steps, .cons hs' (hgo.congr ?_) .nil, ?_, ?_⟩
            · rw [Segment.afterRead, hresult]
              exact hsize
            · rw [hresult]
              exact hk
            · rw [hresult]
              rfl
          · cases hmove
        | @cons t stage' _ ss stages histories ht hgo' hrest' =>
          rw [moveAt] at hmove
          split at hmove
          · rename_i hboth
            rw [Bool.and_eq_true] at hboth
            obtain ⟨frame, queue, q', hqueue, hresult, hsize, hs'⟩ := hs.read hboth.1 now
            have hheld := ht.held_nil_of_idle hboth.2
            rw [hqueue, List.cons_append] at hflow'
            obtain ⟨state, made, hwork, -⟩ := Line.work_of_flow hflow' hheld
            cases hmove
            refine ⟨_, [], (Line.Step.take hqueue hheld hwork).steps,
              .cons hs' (hgo.congr ?_) (.cons ?_ hgo' hrest'), hk, (List.append_nil _).symm⟩
            · rw [Segment.afterRead, hresult]
              exact hsize
            · rw [hresult]
              exact ht.receive hheld hwork
          · cases hmove

namespace PipeLine

variable (c) in
/-- What is true of a line that has followed its lists: the stages where it is still lead to the same histories, and
what comes out of them follows what has been read. -/
def Follows (histories : List (List DataFrame)) (out : List DataFrame) (p : PipeLine σ) : Prop :=
  ∃ stages left, Tracks c p.segments stages histories ∧ Line.flow stages [] = .ok (histories, left) ∧
    p.sink.failed = none ∧ out = p.sink.got ++ left

theorem Follows.step (h : p.Follows c histories out) {e : ℕ × LineMove} {p' : PipeLine σ} (hfills : p.NoneFills c e)
    (hstep : lineStep c p e = some p') : p'.Follows c histories out := by
  obtain ⟨stages, left, htracks, hflow, hsink, rfl⟩ := h
  obtain ⟨stages', left', hsteps, htracks', hsink', hgot⟩ := htracks.step hflow hsink hfills hstep
  obtain ⟨rest, rfl, hflow'⟩ := hsteps.flow hflow
  exact ⟨stages', rest, htracks', hflow', hsink', by rw [hgot, List.append_assoc]⟩

end PipeLine

/-! ## The start -/

/-- A worker before its first step is where its stage starts. -/
theorem Represents.of_create {api : APIQueue} {q : MemQueue} (hge : 97 ≤ api.size) (hlt : api.size < 2 ^ 32)
    (hq : create api = .ok q) (program : Program σ) (frames : List DataFrame) :
    Represents c (program.segment q (frames.map .frame)) (program.stage c frames) := by
  obtain ⟨q', hq', hholds, -, halloc, hnum⟩ := create_holds api hge (by omega)
  rw [hq, Except.ok.injEq] at hq'
  subst hq'
  refine { failed := rfl, work_eq := rfl, state_eq := rfl, held := ?_, queue := ⟨[], hholds, .nil⟩,
           allocCounter := halloc, frameCounter := hnum, admitted := fun _ hnone => nomatch hnone
           reading := fun hfalse => nomatch hfalse }
  -- without a current execution id the frames go out as they are
  exact List.forall₂_map_left_iff.mpr (List.forall₂_same.mpr fun _ _ => rfl)

variable (c) in
/-- The programs of a line with their queues: the queues are fresh, on lists nothing raises, and what comes to go
through each queue can. -/
structure PipeLine.Prepared (frames : List DataFrame) (stations : List (Program σ × MemQueue))
    (histories : List (List DataFrame)) (out : List DataFrame) : Prop where
  created : ∀ station ∈ stations, ∃ api, 97 ≤ api.size ∧ api.size < 2 ^ 32 ∧ create api = .ok station.2
  onLists : onLists c frames (stations.map Prod.fst) = .ok (histories, out)
  goThrough : List.Forall₂ (fun station history => GoThrough c station.2 history) stations histories

theorem Tracks.start {stations : List (Program σ × MemQueue)}
    (hcreated : ∀ station ∈ stations, ∃ api, 97 ≤ api.size ∧ api.size < 2 ^ 32 ∧ create api = .ok station.2)
    (hgo : List.Forall₂ (fun station history => GoThrough c station.2 history) stations histories) :
    Tracks c (stations.map fun (p, q) => p.segment q []) (stations.map fun station => station.1.stage c [])
      histories := by
  induction hgo with
  | nil => exact .nil
  | cons hstation _ ih =>
    obtain ⟨api, hge, hlt, hq⟩ := hcreated _ List.mem_cons_self
    exact .cons (.of_create hge hlt hq _ []) hstation (ih fun station h => hcreated station (List.mem_cons_of_mem _ h))

variable {stations : List (Program σ × MemQueue)}

theorem PipeLine.Prepared.follows (h : Prepared c frames stations histories out) :
    (start frames stations).Follows c histories out := by
  have hlists := h.onLists
  have hgo := h.goThrough
  cases stations with
  | nil =>
    obtain ⟨rfl, rfl⟩ := Prod.mk.inj (Except.ok.inj hlists)
    exact ⟨[], [], .nil, rfl, rfl, rfl⟩
  | cons station rest =>
    obtain ⟨history, histories, hstation, hrest, rfl⟩ := List.forall₂_cons_left_iff.mp hgo
    obtain ⟨api, hge, hlt, hq⟩ := h.created station List.mem_cons_self
    have hstart := Tracks.start (fun s hs => h.created s (List.mem_cons_of_mem _ hs)) hrest
    refine ⟨_, out, .cons (.of_create hge hlt hq station.1 frames) hstation hstart, ?_, rfl, rfl⟩
    change Line.flow (_ :: List.map _ (List.map _ rest)) [] = _ at hlists
    rwa [List.map_map] at hlists

/-! ## Going on -/

/-- A frame that comes to an empty queue is admitted, and does not fill it. -/
theorem Represents.test_of_queue_nil (h : Represents c s stage) (hgo : GoThrough c s.outQ history)
    (hsub : ∀ frame ∈ stage.held, frame ∈ history) (hqueue : stage.queue = []) {frame : DataFrame}
    {held : List DataFrame} (hheld : stage.held = frame :: held) (hnone : s.worker.admitted = none) :
    ∃ s', s.test c = some s' ∧ ¬ s.Fills c ∧ s'.worker.admitted.isSome := by
  have hsent := h.held
  rw [hheld] at hsent
  obtain ⟨data, rest, -, -, hsending⟩ := List.forall₂_cons_right_iff.mp hsent
  obtain ⟨-, -, body, -, -, hsize, hoffer⟩ := h.offer_eq hgo hsub hsending
  obtain ⟨frames, hholds, hframes⟩ := h.queue
  rw [hqueue, List.forall₂_nil_right_iff] at hframes
  subst hframes
  have hfree := hholds.freeSpace_eq
  have hge := hholds.size_ge
  rw [used_nil] at hfree
  have hover : ¬ s.outQ.overCapacity := by
    rw [overCapacity, hfree]
    omega
  have hfit : s.outQ.fitsFree body := by
    rw [fitsFree, hfree]
    omega
  rw [putTest_of_fits hover hfit] at hoffer
  refine ⟨{ s with worker := { s.worker with admitted := some body } }, ?_, ?_, rfl⟩
  · rw [Segment.test, hsending]
    dsimp only
    rw [hnone, hoffer]
    rfl
  · rw [Segment.Fills, hsending]
    dsimp only
    rw [hoffer]
    dsimp only
    rw [hfree]
    omega

/-- An admitted frame is written when its worker goes on. -/
theorem Segment.write_of_admitted (h : s.worker.admitted.isSome) (now : UInt64) : ∃ s', s.write now = some s' := by
  obtain ⟨body, hbody⟩ := Option.isSome_iff_exists.mp h
  rw [Segment.write, hbody]
  dsimp only
  split <;> exact ⟨_, rfl⟩

namespace PipeLine

variable (c) in
/-- A step that fills no queue. -/
def Moves (p p' : PipeLine σ) : Prop := ∃ e, p.NoneFills c e ∧ lineStep c p e = some p'

/-- A line goes on behind another segment as it does alone. -/
theorem Moves.behind (s : Segment σ) {p p' : PipeLine σ} (h : Relation.ReflTransGen (Moves c) p p') :
    Relation.ReflTransGen (Moves c) { p with segments := s :: p.segments } { p' with segments := s :: p'.segments } := by
  refine h.lift (fun p => { p with segments := s :: p.segments }) ?_
  rintro p p' ⟨⟨i, m⟩, hfills, hstep⟩
  refine ⟨(i + 1, m), noneFills_succ.mpr hfills, ?_⟩
  rw [lineStep, moveAt]
  exact Option.map_eq_some_iff.mpr ⟨p', hstep, rfl⟩

/-- One step that fills no queue. -/
theorem Moves.single {p p' : PipeLine σ} {e : ℕ × LineMove} (hfills : p.NoneFills c e) (hstep : lineStep c p e = some p') :
    Relation.ReflTransGen (Moves c) p p' :=
  .single ⟨e, hfills, hstep⟩

end PipeLine

open PipeLine

/-- A worker with an empty queue gets its next frame admitted. -/
theorem Represents.moves_admitted (h : Represents c s stage) (hgo : GoThrough c s.outQ history)
    (hsub : ∀ frame ∈ stage.held, frame ∈ history) (hqueue : stage.queue = []) {frame : DataFrame}
    {held : List DataFrame} (hheld : stage.held = frame :: held) :
    ∃ s', Relation.ReflTransGen (Moves c) ⟨s :: ss, k⟩ ⟨s' :: ss, k⟩ ∧ Represents c s' stage ∧ s'.outQ = s.outQ ∧
      s'.worker.admitted.isSome := by
  cases hadmitted : s.worker.admitted with
  | some body => exact ⟨s, .refl, h, rfl, by rw [hadmitted]; rfl⟩
  | none =>
    obtain ⟨s', htest, hfills, hsome⟩ := h.test_of_queue_nil hgo hsub hqueue hheld hadmitted
    obtain ⟨hs', hsame⟩ := h.test hgo hsub hfills htest
    refine ⟨s', Moves.single (e := (0, .test)) ?_ ?_, hs', hsame, hsome⟩
    · rintro s'' ⟨⟩
      exact hfills
    · rw [lineStep, moveAt, htest]
      rfl

/-- A reader that may begin to read comes to wait for the lock of a queue that is not empty. -/
theorem Represents.moves_reading (h : Represents c s stage) {frame : DataFrame} {queue : List DataFrame}
    (hqueue : stage.queue = frame :: queue)
    (hready : s.reading = false → moveAt c (s :: ss) k 0 .check = some ⟨s.checked :: ss, k⟩) :
    ∃ s', Relation.ReflTransGen (Moves c) ⟨s :: ss, k⟩ ⟨s' :: ss, k⟩ ∧ Represents c s' stage ∧ s'.outQ = s.outQ ∧
      s'.reading = true := by
  cases hreading : s.reading with
  | true => exact ⟨s, .refl, h, rfl, hreading⟩
  | false =>
    have hpending : s.outQ.pendingCounter ≠ 0 := by
      rw [h.pendingCounter_eq, hqueue, List.length_cons]
      omega
    exact ⟨s.checked, Moves.single (e := (0, .check)) trivial (hready hreading), h.check, rfl,
      decide_eq_true hpending⟩

/-- Every step of the stages that gives to an empty queue can be taken by the line. -/
theorem Tracks.realize (h : Tracks c ss stages histories) (hflow : Line.flow stages frames = .ok (histories, out))
    {left : List DataFrame} (hstep : Line.Step (· = []) stages left stages') (hk : k.failed = none) :
    ∃ p, Relation.ReflTransGen (Moves c) ⟨ss, k⟩ p ∧ Tracks c p.segments stages' histories ∧
      p.sink.failed = none ∧ p.sink.got = k.got ++ left := by
  induction hstep generalizing ss frames histories with
  | @give stage frame held stages hheld hopen =>
    cases h with
    | @cons s _ history ss _ histories hs hgo hrest =>
      obtain ⟨results, later, -, -, hhistories⟩ := Line.flow_cons_eq_ok_iff.mp hflow
      obtain ⟨hhistory, -⟩ := List.cons.inj hhistories
      have hsub : ∀ frame ∈ stage.held, frame ∈ history := fun frame hframe => hhistory ▸ mem_history hframe
      obtain ⟨s₁, hmoves, hs₁, hsame, hsome⟩ := hs.moves_admitted hgo hsub hopen hheld
      obtain ⟨s₂, hwrite⟩ := s₁.write_of_admitted hsome 0
      have hgo₁ := hgo.congr (congrArg MemQueue.size hsame)
      obtain ⟨frame', held', hheld', hsize, hs₂⟩ := hs₁.write hgo₁ hhistory hwrite
      rw [hheld, List.cons.injEq] at hheld'
      obtain ⟨rfl, rfl⟩ := hheld'
      refine ⟨⟨s₂ :: ss, k⟩, hmoves.trans (Moves.single (e := (0, .write 0)) trivial ?_),
        .cons hs₂ (hgo₁.congr hsize) hrest, hk, (List.append_nil _).symm⟩
      rw [lineStep, moveAt, hwrite]
      rfl
  | @take stage stage' frame queue results state stages hqueue hheld hwork =>
    cases h with
    | @cons s _ history ss _ histories hs hgo hrest =>
      cases hrest with
      | @cons t _ _ ss _ _ ht hgo' hrest =>
        have hidle := ht.idle_of_held_nil hheld
        obtain ⟨s₁, hmoves, hs₁, hsame, hreading⟩ := hs.moves_reading hqueue (fun hreading => by
          show moveAt c (s :: t :: ss) k 0 .check = _
          rw [moveAt, hreading, hidle]
          rfl)
        obtain ⟨frame', queue', q', hqueue', hresult, hsize, hs₂⟩ := hs₁.read hreading 0
        rw [hqueue, List.cons.injEq] at hqueue'
        obtain ⟨rfl, rfl⟩ := hqueue'
        refine ⟨⟨s₁.afterRead c 0 :: { t with worker := t.worker.receive frame } :: ss, k⟩,
          hmoves.trans (Moves.single (e := (0, .read 0)) trivial ?_),
          .cons hs₂ (hgo.congr ?_) (.cons (ht.receive hheld hwork) hgo' hrest), hk, (List.append_nil _).symm⟩
        · rw [lineStep, moveAt, hreading, hidle, hresult]
          rfl
        · rw [Segment.afterRead, hresult, ← hsame]
          exact hsize
  | @leave stage frame queue hqueue =>
    cases h with
    | @cons s _ history ss _ histories hs hgo hrest =>
      cases hrest with
      | nil =>
        obtain ⟨s₁, hmoves, hs₁, hsame, hreading⟩ := hs.moves_reading hqueue (fun hreading => by
          show moveAt c [s] k 0 .check = _
          rw [moveAt, hreading, hk]
          rfl)
        obtain ⟨frame', queue', q', hqueue', hresult, hsize, hs₂⟩ := hs₁.read hreading 0
        rw [hqueue, List.cons.injEq] at hqueue'
        obtain ⟨rfl, rfl⟩ := hqueue'
        refine ⟨⟨[s₁.afterRead c 0], k.reads (s₁.readResult c 0)⟩,
          hmoves.trans (Moves.single (e := (0, .read 0)) trivial ?_), .cons hs₂ (hgo.congr ?_) .nil, ?_, ?_⟩
        · rw [lineStep, moveAt, hreading]
          rfl
        · rw [Segment.afterRead, hresult, ← hsame]
          exact hsize
        · rw [hresult]
          exact hk
        · rw [hresult]
          rfl
  | @behind stage stages stages' left _ ih =>
    cases h with
    | @cons s _ history ss _ histories hs hgo hrest =>
      obtain ⟨results, later, -, hflow', hhistories⟩ := Line.flow_cons_eq_ok_iff.mp hflow
      obtain ⟨-, rfl⟩ := List.cons.inj hhistories
      obtain ⟨p, hmoves, htracks, hsink, hgot⟩ := ih hrest hflow'
      exact ⟨_, Moves.behind s hmoves, .cons hs hgo htracks, hsink, hgot⟩

theorem Tracks.realize_steps (h : Tracks c ss stages histories)
    (hflow : Line.flow stages frames = .ok (histories, out)) {left : List DataFrame}
    (hsteps : Line.Steps (· = []) stages left stages') (hk : k.failed = none) :
    ∃ p, Relation.ReflTransGen (Moves c) ⟨ss, k⟩ p ∧ Tracks c p.segments stages' histories ∧
      p.sink.failed = none ∧ p.sink.got = k.got ++ left := by
  induction hsteps generalizing ss k out with
  | refl stages => exact ⟨⟨ss, k⟩, .refl, h, hk, (List.append_nil _).symm⟩
  | head hstep _ ih =>
    obtain ⟨⟨ss₁, k₁⟩, hmoves₁, htracks₁, hk₁, hgot₁⟩ := h.realize hflow hstep hk
    obtain ⟨out₁, rfl, hflow₁⟩ := hstep.flow hflow
    obtain ⟨p, hmoves, htracks, hsink, hgot⟩ := ih htracks₁ hflow₁ hk₁
    exact ⟨p, hmoves₁.trans hmoves, htracks, hsink, by rw [hgot, hgot₁, List.append_assoc]⟩

/-! ## Whole runs -/

/-- The segments of an empty line are those of empty stages. -/
theorem Tracks.drained_iff (h : Tracks c ss stages histories) :
    PipeLine.Drained ⟨ss, k⟩ ↔ Line.Drained stages := by
  induction h with
  | nil => exact iff_of_true (fun _ hs => nomatch hs) (fun _ hs => nomatch hs)
  | @cons s stage _ ss _ _ hs _ _ ih =>
    have hheld : s.worker.sending = [] ↔ stage.held = [] := by
      rw [← List.length_eq_zero_iff, ← List.length_eq_zero_iff, hs.held.length_eq]
    have hqueue : s.outQ.pendingCounter = 0 ↔ stage.queue = [] := by
      rw [hs.pendingCounter_eq, Int.natCast_eq_zero, List.length_eq_zero_iff]
    rw [PipeLine.Drained, Line.Drained] at ih ⊢
    rw [List.forall_mem_cons, List.forall_mem_cons, ih, hheld, hqueue]

theorem Tracks.noneFailed (h : Tracks c ss stages histories) : ∀ s ∈ ss, s.worker.failed = none := by
  induction h with
  | nil => exact fun _ hs => nomatch hs
  | cons hs _ _ ih => exact List.forall_mem_cons.mpr ⟨hs.failed, ih⟩

namespace PipeLine

/-- A line that has followed its lists can go on to its end. -/
theorem Follows.exists_finish (h : p.Follows c histories out) :
    ∃ more p', Along (lineStep c) (NoneFills c) p more ∧ runFrom (lineStep c) p more = some p' ∧
      p'.Drained ∧ p'.sink.got = out := by
  obtain ⟨stages, left, htracks, hflow, hsink, rfl⟩ := h
  obtain ⟨stages', hsteps, hdrained⟩ : ∃ stages', Line.Steps (· = []) stages left stages' ∧ Line.Drained stages' :=
    Line.exists_steps_drained rfl hflow
  obtain ⟨p', hmoves, htracks', -, hgot⟩ := htracks.realize_steps hflow hsteps hsink
  obtain ⟨more, halong, hrun⟩ := exists_run_of_reflTransGen hmoves
  exact ⟨more, p', halong, hrun, htracks'.drained_iff.mpr hdrained, hgot⟩

theorem Prepared.follows_run (h : Prepared c frames stations histories out) {events : List (ℕ × LineMove)}
    (hfills : Along (lineStep c) (NoneFills c) (start frames stations) events)
    (hrun : runFrom (lineStep c) (start frames stations) events = some p) : p.Follows c histories out :=
  hfills.invariant (fun _ _ _ hp hguard hstep => hp.step hguard hstep) h.follows hrun

/-- In every interleaving in which no `put` fills a queue to the last byte, no process fails, and the sink gives
out the frames that the workers make one after the other on lists, in this order: as far as they have come, and all
of them when the line is empty. -/
theorem delivers (h : Prepared c frames stations histories out) {events : List (ℕ × LineMove)}
    (hfills : Along (lineStep c) (NoneFills c) (start frames stations) events)
    (hrun : runFrom (lineStep c) (start frames stations) events = some p) :
    p.NoneFailed ∧ p.sink.got <+: out ∧ (p.Drained → p.sink.got = out) := by
  obtain ⟨stages, left, htracks, hflow, hsink, rfl⟩ := h.follows_run hfills hrun
  refine ⟨⟨htracks.noneFailed, hsink⟩, List.prefix_append _ _, fun hdrained => ?_⟩
  rw [Line.flow_of_drained (htracks.drained_iff.mp hdrained) hflow, List.append_nil]

/-- From every state that such a run comes to, the line can go on to its end: no interleaving blocks it. -/
theorem can_always_finish (h : Prepared c frames stations histories out) {events : List (ℕ × LineMove)}
    (hfills : Along (lineStep c) (NoneFills c) (start frames stations) events)
    (hrun : runFrom (lineStep c) (start frames stations) events = some p) :
    ∃ more p', Along (lineStep c) (NoneFills c) p more ∧ runFrom (lineStep c) p more = some p' ∧
      p'.Drained ∧ p'.sink.got = out :=
  (h.follows_run hfills hrun).exists_finish

/-! ## A line of two workers -/

/-- A frame of an execution. -/
def taggedFrame : DataFrame :=
  (DataFrame.empty.setField { key := "d", value := .int 5, dType := DType.u32.value }).setField
    { key := "pid", value := .str "e1", dType := DType.str.value }

/-- A program that emits every value twice. -/
def twice : Program Unit where
  handle memory data := .ok (memory, [.value data, .value data])
  memory := ()

theorem goThrough_taggedFrame {q : MemQueue} (hsize : q.size = 200) {n : ℕ} (hn : n < 2 ^ 32) :
    GoThrough Codec.emptyObjects q (List.replicate n taggedFrame) where
  few := by rwa [List.length_replicate]
  comesBack := by
    intro frame hframe
    rw [List.eq_of_mem_replicate hframe]
    have hfields : taggedFrame.fields.values =
        [{ key := "d", value := .int 5, dType := (Codec.typeOf (.int 5)).value },
          { key := "pid", value := .str "e1", dType := (Codec.typeOf (.str "e1")).value }] := by decide
    refine ⟨_, rfl, DataFrame.fromByteArr_toByteArr rfl ?_ ?_, ?_⟩
    · rw [hfields]
      simp only [List.mem_cons, List.not_mem_nil, or_false, forall_eq_or_imp, forall_eq]
      exact ⟨⟨_, rfl⟩, ⟨_, rfl⟩⟩
    · rw [hfields]
      simp only [List.mem_cons, List.not_mem_nil, or_false, forall_eq_or_imp, forall_eq]
      exact ⟨DataField.inverts_of_endsWell (show 0 ≤ (5 : ℤ) ∧ (5 : ℤ) < 2 ^ 32 by decide) trivial rfl,
        DataField.inverts_of_endsWell trivial trivial rfl⟩
    · rw [hsize]
      decide

/-- The pipe process sends a frame to the one worker of a pipe. -/
theorem prepared_twice : ∃ q r, Prepared Codec.emptyObjects [taggedFrame] [(twice, q), (twice, r)]
    [[taggedFrame], [taggedFrame, taggedFrame]] [taggedFrame, taggedFrame] := by
  obtain ⟨q, hq, -, hsize, -⟩ := create_holds (queueOfSize 200) (by decide) (by decide)
  refine ⟨q, q, ?_, rfl, .cons ?_ (.cons ?_ .nil)⟩
  · simp only [List.forall_mem_cons]
    exact ⟨⟨_, by decide, by decide, hq⟩, ⟨_, by decide, by decide, hq⟩, fun _ h => nomatch h⟩
  · exact goThrough_taggedFrame hsize (n := 1) (by decide)
  · exact goThrough_taggedFrame hsize (n := 2) (by decide)

theorem delivers_twice : ∃ q r events p,
    runFrom (lineStep Codec.emptyObjects) (start [taggedFrame] [(twice, q), (twice, r)]) events = some p ∧
      p.NoneFailed ∧ p.sink.got = [taggedFrame, taggedFrame] := by
  obtain ⟨q, r, h⟩ := prepared_twice
  obtain ⟨events, p, halong, hrun, hdrained, -⟩ := h.follows.exists_finish
  obtain ⟨hfailed, -, hall⟩ := delivers h halong hrun
  exact ⟨q, r, events, p, hrun, hfailed, hall hdrained⟩

theorem can_always_finish_twice : ∃ q r more p p',
    runFrom (lineStep Codec.emptyObjects) (start [taggedFrame] [(twice, q), (twice, r)]) [(0, .check)] = some p ∧
      runFrom (lineStep Codec.emptyObjects) p more = some p' ∧ p'.sink.got = [taggedFrame, taggedFrame] := by
  obtain ⟨q, r, h⟩ := prepared_twice
  have hfills : Along (lineStep Codec.emptyObjects) (NoneFills Codec.emptyObjects)
      (start [taggedFrame] [(twice, q), (twice, r)]) [(0, .check)] := ⟨trivial, fun _ _ => trivial⟩
  obtain ⟨more, p', -, hrun, -, hgot⟩ := can_always_finish h hfills rfl
  exact ⟨q, r, more, _, p', rfl, hrun, hgot⟩

end PipeLine

end Upipe
