import Upipe.Entities.Pipe.Provenance

/-!
# The sink's monitor

`_baby_sitter` ends with an exception when a sink frame carries an execution id that no `emit_sync` has
registered, or one whose future is resolved already. `emit` generates an id too but registers nothing, and
a worker may answer one frame with several. The monitor survives the runs in which every sink frame with
an id is the first under an id that is registered (`monitor_survives`).
-/

namespace Upipe

open Upipe.Common

/-- The destination of the next put of a call. -/
def CallPhase.next : CallPhase → Option Destination
  | .sending (dest :: _) => some dest
  | _ => none

/-- The next put of a worker. -/
def PipeWorker.next (worker : PipeWorker) : Option (Sent × Destination) :=
  match worker.sending with
  | some (item, dest :: _) => some (item, dest)
  | _ => none

namespace PipeState

/-- The sink queue returns its frames in order, each of them once. -/
def InOrder (s : PipeState) : PipeStep → Prop
  | .readSink k => k = s.reads
  | _ => True

/-- The step leaves the monitor alive. -/
def MonitorAlive (c : Codec) (s : PipeState) (e : PipeStep) : Prop :=
  ∀ s', pipeStep c s e = some s' → s'.monitor = none

/-- A frame with an execution id, registered by `emit_sync`, that no sink frame has carried yet. -/
def FitsSink (s : PipeState) (item : Sent) : Prop :=
  item.pipeExecutionId.truthy → s.executingFrames.get? item.pipeExecutionId ≠ none ∧
    ∀ other ∈ s.sink, other.pipeExecutionId ≠ item.pipeExecutionId

/-- The condition on a step: the frame that it puts in the sink, if it does, fits. -/
def SinkFits (s : PipeState) : PipeStep → Prop
  | .put n true => ∀ call ∈ s.calls[n]?, call.phase.next = some .sink → s.FitsSink (.root n call.frame)
  | .workerPut w true => ∀ worker ∈ s.workers[w]?, ∀ next ∈ worker.next, next.2 = .sink →
      s.FitsSink next.1
  | _ => True

instance (s : PipeState) (e : PipeStep) : Decidable (s.InOrder e) :=
  match e with
  | .readSink k => inferInstanceAs (Decidable (k = s.reads))
  | .emit .. | .poll .. | .put .. | .fail .. | .wake .. | .get .. | .workerEmit .. | .workerPut ..
  | .workerFail .. => isTrue trivial

instance (s : PipeState) (item : Sent) : Decidable (s.FitsSink item) :=
  decidable_of_iff (item.pipeExecutionId.truthy →
      s.executingFrames.contains item.pipeExecutionId ∧
        ∀ other ∈ s.sink, other.pipeExecutionId ≠ item.pipeExecutionId) (by
    rw [FitsSink, Dict.contains, decide_eq_true_iff, ne_eq, Dict.get?_eq_none_iff, not_not])

instance (s : PipeState) (e : PipeStep) : Decidable (s.SinkFits e) :=
  match e with
  | .put n true => inferInstanceAs (Decidable (∀ call ∈ s.calls[n]?, _ → s.FitsSink _))
  | .workerPut w true => inferInstanceAs (Decidable (∀ worker ∈ s.workers[w]?, ∀ next ∈ worker.next,
      _ → s.FitsSink _))
  | .put _ false | .workerPut _ false | .emit .. | .poll .. | .fail .. | .wake .. | .readSink ..
  | .get .. | .workerEmit .. | .workerFail .. => isTrue trivial

/-! ## The invariant -/

/-- The monitor is alive, every id in the sink is registered and there once, and only frames that have been
read are in a future. -/
structure Orderly (s : PipeState) : Prop where
  alive : s.monitor = none
  registered : ∀ item ∈ s.sink, item.pipeExecutionId.truthy →
    s.executingFrames.get? item.pipeExecutionId ≠ none
  once : s.sink.Pairwise fun a b => a.pipeExecutionId.truthy → b.pipeExecutionId ≠ a.pipeExecutionId
  resolved : ∀ id item, s.executingFrames.get? id = some (some item) →
    item ∈ s.sink.take s.reads ∧ item.pipeExecutionId = id

variable {c : Codec} {s s' : PipeState}

theorem Fresh.orderly (h : s.Fresh) : s.Orderly where
  alive := h.monitor
  registered item hitem := by
    rw [h.sink] at hitem
    cases hitem
  once := by
    rw [h.sink]
    exact List.Pairwise.nil
  resolved id item hget := by
    rw [h.executingFrames] at hget
    cases hget

theorem Orderly.deliver (h : s.Orderly) {item : Sent} {dest : Destination}
    (hfits : dest = .sink → s.FitsSink item) : (s.deliver item dest).Orderly := by
  cases dest with
  | queue q => exact { h with }
  | sink =>
    have hfits := hfits rfl
    refine ⟨h.alive, ?_, ?_, ?_⟩
    · intro item' hitem' hid
      rcases List.mem_append.mp hitem' with hold | hnew
      · exact h.registered item' hold hid
      · rw [List.mem_singleton.mp hnew] at hid ⊢
        exact (hfits hid).1
    · show (s.sink ++ [item]).Pairwise _
      rw [List.pairwise_append]
      refine ⟨h.once, List.pairwise_singleton _ _, ?_⟩
      intro other hother item' hitem' hid heq
      rw [List.mem_singleton.mp hitem'] at heq
      exact (hfits (heq ▸ hid)).2 other hother heq.symm
    · intro id item' hget
      obtain ⟨hmem, hid⟩ := h.resolved id item' hget
      exact ⟨((List.prefix_append s.sink [item]).take s.reads).subset hmem, hid⟩

theorem Orderly.startCall (h : s.Orderly) (sync : Bool) (data : EmitData) (uuid : String) :
    (s.startCall c sync data uuid).Orderly := by
  unfold PipeState.startCall
  split
  · exact h
  split
  · rename_i frame _ _
    refine ⟨h.alive, ?_, h.once, ?_⟩
    -- the future set now may replace one of the same id, which is registered all the same
    · intro item hitem hid
      by_cases heq : item.pipeExecutionId = frame.pipeExecutionId
      · rw [heq, Dict.get?_set_self]
        exact Option.some_ne_none _
      · rw [Dict.get?_set_of_ne _ _ heq]
        exact h.registered item hitem hid
    · intro id item hget
      by_cases heq : id = frame.pipeExecutionId
      · subst heq
        rw [Dict.get?_set_self] at hget
        cases hget
      · rw [Dict.get?_set_of_ne _ _ heq] at hget
        exact h.resolved id item hget
  · exact { h with }

/-- The next sink frame finds its future, unresolved. -/
theorem Orderly.monitorSink (h : s.Orderly) {item : Sent} (hitem : s.sink[s.reads]? = some item) :
    (s.monitorSink item).Orderly := by
  have hread : ∀ item', item' ∈ s.sink.take s.reads → item' ∈ s.sink.take (s.reads + 1) :=
    fun _ hmem => (List.take_subset_take_left s.sink (Nat.le_succ s.reads)) hmem
  obtain ⟨hlt, hget⟩ := List.getElem?_eq_some_iff.mp hitem
  have hsplit : s.sink = s.sink.take s.reads ++ item :: s.sink.drop (s.reads + 1) := by
    rw [← hget, ← List.drop_eq_getElem_cons hlt, List.take_append_drop]
  have hmem : item ∈ s.sink := List.mem_of_getElem? hitem
  have hself : item ∈ s.sink.take (s.reads + 1) := by
    rw [List.mem_take_iff_getElem]
    exact ⟨s.reads, by omega, hget⟩
  unfold PipeState.monitorSink
  split
  · rename_i hid
    split
    · rename_i hnone
      exact absurd hnone (h.registered item hmem hid)
    · rename_i item' hresolved
      -- the frame in the future would be an earlier one with the same id
      obtain ⟨hbefore, hsame⟩ := h.resolved _ item' hresolved
      have honce := h.once
      rw [hsplit, List.pairwise_append] at honce
      have hne := honce.2.2 item' hbefore item List.mem_cons_self (hsame.symm ▸ hid)
      exact absurd hsame.symm hne
    · refine ⟨h.alive, ?_, h.once, ?_⟩
      · intro other hother hotherid
        by_cases heq : other.pipeExecutionId = item.pipeExecutionId
        · rw [heq, Dict.get?_set_self]
          exact Option.some_ne_none _
        · rw [Dict.get?_set_of_ne _ _ heq]
          exact h.registered other hother hotherid
      · intro id item' hresolved
        by_cases heq : id = item.pipeExecutionId
        · subst heq
          rw [Dict.get?_set_self] at hresolved
          obtain rfl := Option.some.inj (Option.some.inj hresolved)
          exact ⟨hself, rfl⟩
        · rw [Dict.get?_set_of_ne _ _ heq] at hresolved
          obtain ⟨hbefore, hsame⟩ := h.resolved id item' hresolved
          exact ⟨hread item' hbefore, hsame⟩
  · refine ⟨h.alive, h.registered, h.once, ?_⟩
    intro id item' hresolved
    obtain ⟨hbefore, hsame⟩ := h.resolved id item' hresolved
    exact ⟨hread item' hbefore, hsame⟩

/-- A step whose sink frame fits keeps the sink in order. -/
theorem Orderly.step (h : s.Orderly) {e : PipeStep} (horder : s.InOrder e) (hfits : s.SinkFits e)
    (hstep : pipeStep c s e = some s') : s'.Orderly := by
  cases pipeStep_turns hstep with
  | emit sync data uuid => exact h.startCall sync data uuid
  | phase => exact { h with }
  | @put n call dest left hcall hsending =>
    have hdeliver : (s.deliver (.root n call.frame) dest).Orderly := by
      apply h.deliver
      rintro rfl
      exact hfits call hcall (by rw [hsending]; rfl)
    exact { hdeliver with }
  | readSink hitem => exact h.monitorSink (horder ▸ hitem)
  | get => exact { h with }
  | workerEmit => exact { h with }
  | @workerPut w worker item dest left hworker hsending =>
    have hdeliver : (s.deliver item dest).Orderly := by
      apply h.deliver
      rintro rfl
      exact hfits worker hworker (item, .sink) (by rw [PipeWorker.next, hsending]; rfl) rfl
    exact { hdeliver with }
  | workerStop => exact { h with }

/-- In every run whose sink frames fit, the monitor never raises. -/
theorem monitor_survives (hfresh : s.Fresh) {events : List PipeStep}
    (horder : Along (pipeStep c) InOrder s events) (hfits : Along (pipeStep c) SinkFits s events) :
    Along (pipeStep c) (MonitorAlive c) s events :=
  Along.of_invariant Orderly (fun _ _ _ h hguard hstep => h.step hguard.1 hguard.2 hstep)
    (fun _ _ h hguard _ hstep => (h.step hguard.1 hguard.2 hstep).alive) hfresh.orderly
    (horder.and hfits)

/-! ## Runs that end the monitor -/

theorem monitor_survives_answered :
    Along (pipeStep Codec.emptyObjects) (MonitorAlive Codec.emptyObjects) oneWorker answeredRun :=
  monitor_survives oneWorker_fresh (by decide +kernel) (by decide +kernel)

/-- One frame goes in through `emit`, and the worker answers it, once. -/
def firedRun : List PipeStep :=
  [.emit false (.value (.int 5)) "x", .put 0 true, .get 0 "a" 0, .workerEmit 0 (.value (.int 6)),
    .workerPut 0 true]

/-- One frame goes in through `emit_sync`, and the worker answers it twice. -/
def answeredTwiceRun : List PipeStep :=
  answeredRun ++ [.workerEmit 0 (.value (.int 7)), .workerPut 0 true]

/-- The monitor raises on the answer to a frame of `emit`, whose id is not registered, and on the second
answer to a frame of `emit_sync`, whose future is resolved. -/
theorem legal_runs_end_monitor :
    (Along (pipeStep Codec.emptyObjects) InOrder oneWorker (firedRun ++ [.readSink 0]) ∧
      ¬ Along (pipeStep Codec.emptyObjects) (MonitorAlive Codec.emptyObjects) oneWorker
        (firedRun ++ [.readSink 0])) ∧
    Along (pipeStep Codec.emptyObjects) InOrder oneWorker (answeredTwiceRun ++ [.readSink 1]) ∧
      ¬ Along (pipeStep Codec.emptyObjects) (MonitorAlive Codec.emptyObjects) oneWorker
        (answeredTwiceRun ++ [.readSink 1]) := by
  have hbreak : ∀ {events : List PipeStep} {k : ℕ} (kind : PyErrorKind),
      ((runFrom (pipeStep Codec.emptyObjects) oneWorker events).any fun t =>
        (pipeStep Codec.emptyObjects t (.readSink k)).any fun t' =>
          decide (t'.monitor.map PyError.kind = some kind)) = true →
      ¬ Along (pipeStep Codec.emptyObjects) (MonitorAlive Codec.emptyObjects) oneWorker
        (events ++ [.readSink k]) := by
    intro events k kind hrun h
    obtain ⟨t, ht, hrun⟩ := (Option.any_eq_true _ _).mp hrun
    obtain ⟨t', ht', hkind⟩ := (Option.any_eq_true _ _).mp hrun
    have hkind := of_decide_eq_true hkind
    rw [h.last ht t' ht'] at hkind
    cases hkind
  exact ⟨⟨by decide +kernel, hbreak .brokenPipeError (by decide +kernel)⟩, by decide +kernel,
    hbreak .invalidStateError (by decide +kernel)⟩

end PipeState

end Upipe
