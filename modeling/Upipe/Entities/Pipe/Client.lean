import Upipe.Common.Runs
import Upipe.Types.Entities
import Upipe.Common.Python

/-!
# The futures of the pipe process

`start` and `terminate` send their request, replace the futures that the answer is to resolve, and wait.
The websocket thread handles a status message whenever it comes, also between two of these steps: it sets
the result of the future that is in place then, and a future takes only one result.

A future is a number; `made` counts them. `replied` on a handled message says that the server has sent
it in response to the latest request.
-/

namespace Upipe

open Upipe.Common

/-! ## The client -/

/-- A step of `start`, `terminate` or `wait_for_completion` behind its request. -/
inductive ClientStep where
  | replaceStart
  | replaceCompletion
  | waitStart
  | waitCompletion
deriving DecidableEq

/-- The futures of `Pipe`. `block` is what is left of the call that runs, up to its `await`. The rest are
ghosts: the futures waited on, and whether the answers to the latest requests have been handled. -/
structure PipeClient where
  status : PipeExecutionStatus
  made : ℕ
  done : ℕ → Bool
  startFuture : ℕ
  completionFuture : ℕ
  block : List ClientStep
  startWaits : List ℕ
  completionWaits : List ℕ
  running : Bool
  completed : Bool

/-- A call that begins. -/
inductive ClientCall where
  | start
  | terminate
  | waitForCompletion
deriving DecidableEq

/-- What happens in the two threads: a call begins, with its request, if it makes one; the running call
makes its next step; the websocket thread handles a status. -/
inductive ClientEvent where
  | call (call : ClientCall)
  | next
  | handle (status : PipeExecutionStatus) (replied : Bool)

namespace PipeClient

/-- `__init__`, as far as the futures go. -/
def init : PipeClient where
  status := .init
  made := 2
  done _ := false
  startFuture := 1
  completionFuture := 0
  block := []
  startWaits := []
  completionWaits := []
  running := false
  completed := false

/-- `future.set_result(0)`. -/
def setResult (future : ℕ) : PyM PipeClient Unit := do
  let s ← get
  if s.done future then throw ⟨.invalidStateError, "invalid state"⟩
  else set { s with done := fun f => if f = future then true else s.done f }

/-- `_handle_pipelines_message`, for a status message. -/
def handlePipelinesMessage (status : PipeExecutionStatus) : PyM PipeClient Unit := do
  modify fun s => { s with status := status }
  let s ← get
  if status = .completed then setResult s.completionFuture
  if status = .running then setResult s.startFuture

/-- The start of a call. -/
def begins (s : PipeClient) : ClientCall → PipeClient
  | .start =>
      { s with
        block := [.replaceStart, .replaceCompletion, .waitStart]
        running := false
        completed := false }
  | .terminate => { s with block := [.replaceCompletion, .waitCompletion], completed := false }
  | .waitForCompletion => { s with block := [.waitCompletion] }

/-- One step of the running call. -/
def performs (s : PipeClient) : ClientStep → PipeClient
  | .replaceStart => { s with startFuture := s.made, made := s.made + 1 }
  | .replaceCompletion => { s with completionFuture := s.made, made := s.made + 1 }
  | .waitStart => { s with startWaits := s.startWaits ++ [s.startFuture] }
  | .waitCompletion => { s with completionWaits := s.completionWaits ++ [s.completionFuture] }

/-- The message has been handled, whether the handler returned or raised. -/
def handled (s : PipeClient) (status : PipeExecutionStatus) (replied : Bool) : PipeClient :=
  let s' := stateOf (handlePipelinesMessage status s)
  { s' with
    running := s'.running || (replied && status = .running)
    completed := s'.completed || (replied && status = .completed) }

/-- One event. A call runs on to its `await` before another begins. -/
def clientStep (s : PipeClient) : ClientEvent → Option PipeClient
  | .call call => if s.block = [] then some (s.begins call) else none
  | .next =>
      match s.block with
      | [] => none
      | step :: block => some ({ s with block := block }.performs step)
  | .handle status replied => some (s.handled status replied)

/-! ## The law and its condition -/

/-- Once the answer to the latest request has been handled, the futures that are waited on for it have a
result. -/
structure Answered (s : PipeClient) : Prop where
  started : s.running → ∀ f ∈ s.startWaits, s.done f
  completed : s.completed → ∀ f ∈ s.completionWaits, s.done f

/-- The handler returns, and no answer is lost. -/
structure StatusKept (s : PipeClient) (e : ClientEvent) : Prop where
  returns : ∀ status replied, e = .handle status replied →
    ∃ s', handlePipelinesMessage status s = .ok () s'
  answered : ∀ s', clientStep s e = some s' → s'.Answered

/-- The condition on a step: a status finds its future without a result, an answer comes when the future
has been replaced, and no future is replaced that a call still waits on. -/
def InTime (s : PipeClient) : ClientEvent → Prop
  | .handle .running replied =>
      s.done s.startFuture = false ∧ (replied → .replaceStart ∉ s.block)
  | .handle .completed replied =>
      s.done s.completionFuture = false ∧ (replied → .replaceCompletion ∉ s.block)
  | .next =>
      (s.block.head? = some .replaceStart → ∀ f ∈ s.startWaits, s.done f) ∧
        (s.block.head? = some .replaceCompletion → ∀ f ∈ s.completionWaits, s.done f)
  | _ => True

instance (s : PipeClient) : Decidable s.Answered :=
  decidable_of_iff ((s.running → ∀ f ∈ s.startWaits, s.done f) ∧
    (s.completed → ∀ f ∈ s.completionWaits, s.done f)) ⟨fun h => ⟨h.1, h.2⟩, fun h => ⟨h.1, h.2⟩⟩

instance (s : PipeClient) (e : ClientEvent) : Decidable (s.InTime e) :=
  match e with
  | .handle .running _ => inferInstanceAs (Decidable (_ ∧ (_ → _)))
  | .handle .completed _ => inferInstanceAs (Decidable (_ ∧ (_ → _)))
  | .next => inferInstanceAs (Decidable ((_ → ∀ f ∈ _, _) ∧ (_ → ∀ f ∈ _, _)))
  | .handle .init _ | .handle .registered _ | .handle .ready _ | .handle .paused _
  | .handle .pendingTermination _ | .call _ => isTrue trivial

/-! ## The invariant -/

/-- A call waits on a future that has its result or is in place; once an answer has been handled the
future in place has its result and is not replaced before the next request. -/
structure Waiting (s : PipeClient) : Prop where
  start_inPlace : ∀ f ∈ s.startWaits, s.done f ∨ f = s.startFuture
  completion_inPlace : ∀ f ∈ s.completionWaits, s.done f ∨ f = s.completionFuture
  running_done : s.running → s.done s.startFuture ∧ .replaceStart ∉ s.block
  completed_done : s.completed → s.done s.completionFuture ∧ .replaceCompletion ∉ s.block

theorem waiting_init : init.Waiting where
  start_inPlace _ hf := nomatch hf
  completion_inPlace _ hf := nomatch hf
  running_done h := nomatch h
  completed_done h := nomatch h

variable {s s' : PipeClient}

theorem Waiting.answered (h : s.Waiting) : s.Answered where
  started hrunning f hf := by
    rcases h.start_inPlace f hf with hdone | rfl
    · exact hdone
    · exact (h.running_done hrunning).1
  completed hcompleted f hf := by
    rcases h.completion_inPlace f hf with hdone | rfl
    · exact hdone
    · exact (h.completed_done hcompleted).1

theorem setResult_ok {future : ℕ} (h : s.done future = false) :
    setResult future s = .ok () { s with done := fun f => if f = future then true else s.done f } := by
  rw [setResult, get_bind_apply, if_neg (Bool.eq_false_iff.mp h)]
  rfl

theorem handle_running (h : s.done s.startFuture = false) :
    handlePipelinesMessage .running s = .ok () { s with
      status := .running
      done := fun f => if f = s.startFuture then true else s.done f } := by
  rw [handlePipelinesMessage, modify_bind_apply, get_bind_apply]
  exact setResult_ok h

theorem handle_completed (h : s.done s.completionFuture = false) :
    handlePipelinesMessage .completed s = .ok () { s with
      status := .completed
      done := fun f => if f = s.completionFuture then true else s.done f } := by
  have hset : setResult s.completionFuture { s with status := .completed } = .ok () _ := setResult_ok h
  rw [handlePipelinesMessage, modify_bind_apply, get_bind_apply, if_pos rfl]
  exact (bind_ok hset).trans rfl

/-- Any other status only becomes the status of the pipe. -/
theorem handle_other {status : PipeExecutionStatus} (hrunning : status ≠ .running)
    (hcompleted : status ≠ .completed) :
    handlePipelinesMessage status s = .ok () { s with status := status } := by
  rw [handlePipelinesMessage, modify_bind_apply, get_bind_apply, if_neg hcompleted, if_neg hrunning]
  rfl

theorem Waiting.call (h : s.Waiting) (call : ClientCall) : (s.begins call).Waiting := by
  have hterminate : ClientStep.replaceStart ∉ [ClientStep.replaceCompletion, .waitCompletion] := by
    decide
  have hwait : ∀ step : ClientStep, step ≠ .waitCompletion → step ∉ [ClientStep.waitCompletion] :=
    fun step hne hmem => hne (List.mem_singleton.mp hmem)
  cases call with
  | start => exact ⟨h.start_inPlace, h.completion_inPlace, fun hr => (nomatch hr), fun hc => nomatch hc⟩
  | terminate =>
    refine ⟨h.start_inPlace, h.completion_inPlace, ?_, fun hc => nomatch hc⟩
    exact fun hrunning => ⟨(h.running_done hrunning).1, hterminate⟩
  | waitForCompletion =>
    refine ⟨h.start_inPlace, h.completion_inPlace, ?_, ?_⟩
    · exact fun hrunning => ⟨(h.running_done hrunning).1, hwait _ nofun⟩
    · exact fun hcompleted => ⟨(h.completed_done hcompleted).1, hwait _ nofun⟩

/-- A call that begins to wait does so on the future in place. -/
theorem forall_inPlace_append {done : ℕ → Bool} {waits : List ℕ} {future : ℕ}
    (h : ∀ f ∈ waits, done f ∨ f = future) : ∀ f ∈ waits ++ [future], done f ∨ f = future := by
  intro f hf
  rcases List.mem_append.mp hf with hold | hnew
  · exact h f hold
  · exact Or.inr (List.mem_singleton.mp hnew)

theorem Waiting.next (h : s.Waiting) {step : ClientStep} {block : List ClientStep}
    (hblock : s.block = step :: block) (hintime : s.InTime .next) :
    ({ s with block := block }.performs step).Waiting := by
  have hhead : s.block.head? = some step := by rw [hblock]; rfl
  have hmem : step ∈ s.block := hblock ▸ List.mem_cons_self
  have hrest : ∀ {x}, x ∉ s.block → x ∉ block := fun hnot hx => hnot (hblock ▸ List.mem_cons_of_mem _ hx)
  have hrunning : s.running → s.done s.startFuture ∧ .replaceStart ∉ block :=
    fun hr => (h.running_done hr).imp_right hrest
  have hcompleted : s.completed → s.done s.completionFuture ∧ .replaceCompletion ∉ block :=
    fun hc => (h.completed_done hc).imp_right hrest
  cases step with
  | replaceStart =>
    -- a new future, which nothing has resolved, and no call that waits on the old one
    refine ⟨fun f hf => Or.inl (hintime.1 hhead f hf), h.completion_inPlace, ?_, hcompleted⟩
    exact fun hr => absurd hmem (h.running_done hr).2
  | replaceCompletion =>
    refine ⟨h.start_inPlace, fun f hf => Or.inl (hintime.2 hhead f hf), hrunning, ?_⟩
    exact fun hc => absurd hmem (h.completed_done hc).2
  | waitStart =>
    exact ⟨forall_inPlace_append h.start_inPlace, h.completion_inPlace, hrunning, hcompleted⟩
  | waitCompletion =>
    exact ⟨h.start_inPlace, forall_inPlace_append h.completion_inPlace, hrunning, hcompleted⟩

/-- A future that has a result keeps it. -/
theorem done_setResult {done : ℕ → Bool} {g f : ℕ} (h : done f) :
    (if f = g then true else done f) = true := by
  split
  · rfl
  · exact h

/-- A status in time is handled, and its answer is not lost. -/
theorem Waiting.handle (h : s.Waiting) {status : PipeExecutionStatus} {replied : Bool}
    (hintime : s.InTime (.handle status replied)) :
    (∃ s', handlePipelinesMessage status s = .ok () s') ∧ (s.handled status replied).Waiting := by
  -- two statuses set a future, each its own, and `hintime` says that it is not set yet
  by_cases hrunning : status = .running
  · subst hrunning
    have hcall := handle_running hintime.1
    refine ⟨⟨_, hcall⟩, ?_⟩
    unfold handled
    rw [hcall]
    refine ⟨?_, ?_, ?_, ?_⟩
    · exact fun f hf => (h.start_inPlace f hf).imp_left done_setResult
    · exact fun f hf => (h.completion_inPlace f hf).imp_left done_setResult
    · intro hr
      refine ⟨if_pos rfl, ?_⟩
      rcases Bool.or_eq_true_iff.mp hr with hold | hnew
      · exact (h.running_done hold).2
      · exact hintime.2 (Bool.and_eq_true_iff.mp hnew).1
    · intro hc
      exact (h.completed_done (by simpa using hc)).imp_left done_setResult
  by_cases hcompleted : status = .completed
  · subst hcompleted
    have hcall := handle_completed hintime.1
    refine ⟨⟨_, hcall⟩, ?_⟩
    unfold handled
    rw [hcall]
    refine ⟨?_, ?_, ?_, ?_⟩
    · exact fun f hf => (h.start_inPlace f hf).imp_left done_setResult
    · exact fun f hf => (h.completion_inPlace f hf).imp_left done_setResult
    · intro hr
      exact (h.running_done (by simpa using hr)).imp_left done_setResult
    · intro hc
      refine ⟨if_pos rfl, ?_⟩
      rcases Bool.or_eq_true_iff.mp hc with hold | hnew
      · exact (h.completed_done hold).2
      · exact hintime.2 (Bool.and_eq_true_iff.mp hnew).1
  · have hcall := handle_other (s := s) hrunning hcompleted
    refine ⟨⟨_, hcall⟩, ?_⟩
    unfold handled
    rw [hcall]
    refine ⟨h.start_inPlace, h.completion_inPlace, ?_, ?_⟩
    · intro hr
      exact h.running_done (by simpa [hrunning] using hr)
    · intro hc
      exact h.completed_done (by simpa [hcompleted] using hc)

theorem Waiting.step (h : s.Waiting) {e : ClientEvent} (hintime : s.InTime e)
    (hstep : clientStep s e = some s') : s'.Waiting := by
  cases e with
  | call call =>
    rw [clientStep] at hstep
    split at hstep
    · obtain rfl := Option.some.inj hstep
      exact h.call call
    · cases hstep
  | next =>
    rw [clientStep] at hstep
    split at hstep
    · cases hstep
    · rename_i hblock
      obtain rfl := Option.some.inj hstep
      exact h.next hblock hintime
  | handle status replied =>
    obtain rfl := Option.some.inj hstep
    exact (h.handle hintime).2

/-- In every run whose steps are in time the handler never raises and no answer is lost. -/
theorem status_kept {events : List ClientEvent} (hintime : Along clientStep InTime init events) :
    Along clientStep StatusKept init events := by
  refine Along.of_invariant Waiting (fun _ _ _ h hguard hstep => h.step hguard hstep) ?_ waiting_init
    hintime
  intro s e h hguard
  constructor
  · rintro status replied rfl
    exact (h.handle hguard).1
  · exact fun s' hstep => (h.step hguard hstep).answered

/-! ## A slow, a fast and a repeating server -/

/-- `start` on a server that answers when `start` waits; the pipe completes once. -/
def slowServer : List ClientEvent :=
  [.call .start, .next, .next, .next, .handle .running true, .call .waitForCompletion, .next,
    .handle .completed true]

theorem status_kept_slow_server : Along clientStep StatusKept init slowServer :=
  status_kept (by decide)

/-- The server answers START before `start` has replaced its future. -/
def fastServer : List ClientEvent :=
  [.call .start, .handle .running true, .next, .next, .next]

/-- `start` waits on a future that the answer has missed; and a COMPLETED that is sent again makes the
handler raise. -/
theorem answer_lost_or_handler_raises :
    ¬ Along clientStep StatusKept init fastServer ∧
      ¬ Along clientStep StatusKept init (slowServer ++ [.handle .completed true]) := by
  refine ⟨?_, ?_⟩
  · intro h
    have hrun : (runFrom clientStep init [.call .start, .handle .running true, .next, .next]).any
        (fun s => (clientStep s .next).any fun s' => decide (¬ s'.Answered)) = true := by decide
    obtain ⟨s, hs, hrun⟩ := (Option.any_eq_true _ _).mp hrun
    obtain ⟨s', hs', hlost⟩ := (Option.any_eq_true _ _).mp hrun
    have h' : Along clientStep StatusKept init
        ([.call .start, .handle .running true, .next, .next] ++ [.next]) := h
    exact of_decide_eq_true hlost ((h'.last hs).answered s' hs')
  · intro h
    have hrun : (runFrom clientStep init slowServer).any
        (fun s => returned (handlePipelinesMessage .completed s) = none) = true := by decide
    obtain ⟨s, hs, hraise⟩ := (Option.any_eq_true _ _).mp hrun
    obtain ⟨s', hok⟩ := (h.last hs).returns .completed true rfl
    rw [hok] at hraise
    cases of_decide_eq_true hraise

end PipeClient

end Upipe
