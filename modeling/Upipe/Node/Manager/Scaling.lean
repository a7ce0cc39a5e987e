import Upipe.Common.Argmax
import Upipe.Entities.Worker.Identity
import Upipe.Node.Manager.Autoscale
import Upipe.Node.Manager.Wiring

/-!
# The processor that is scaled

Both searches go over the processors of a pipe and keep the first maximum, `get_processor_to_scale_up` that of the
pending frames and `get_processor_to_scale_down` that of the gap to the autoscale setting. A queue names a processor
by its id and `in_queues` looks for its name, so a processor with a configuration seems to have nothing pending; and
the gap is largest where there are few instances.
-/

namespace Upipe

open Upipe.Common

deriving instance DecidableEq for ProcessorController

/-! ## What the searches read -/

/-- `get_processor_queues`, which `load` hands to the controller of the processor. -/
def LoadedPipe.getProcessorQueues (loaded : LoadedPipe) (key : String) : List QueueHandle :=
  loaded.queues.values.filter fun q => q.toP = key ∨ q.fromP = key

namespace ProcessorController

/-- `in_queues`. -/
def inQueues (queues : List QueueHandle) (p : ProcessorController) : List QueueHandle :=
  queues.filter fun q => q.toP = p.proc.name

/-- `pending`, with the `pending_counter` of each queue. -/
def pending (fill : QueueHandle → ℕ) (queues : List QueueHandle) (p : ProcessorController) : ℕ :=
  ((p.inQueues queues).map fill).sum

/-- There are more instances than the setting allows. -/
def OverScaled (p : ProcessorController) : Prop :=
  p.status ≠ .completed ∧ p.executable ∧ p.proc.settings.autoscale < p.instances.length

instance (p : ProcessorController) : Decidable p.OverScaled := inferInstanceAs (Decidable (_ ∧ _))

instance (p : ProcessorController) : Decidable p.HasRoom := inferInstanceAs (Decidable (_ ∧ _))

/-- `available_instances` is positive. -/
def Available (p : ProcessorController) : Prop := ∃ k, p.availableInstances = .ok k ∧ 0 < k

/-- `gap`. -/
def gap (p : ProcessorController) : ℤ := p.proc.settings.autoscale - p.instancesNumber

variable {p : ProcessorController}

theorem availableInstances_of_overScaled (h : p.OverScaled) :
    p.availableInstances = .error ⟨.environmentError, s!"Processor over scaled:f{p.proc.name}"⟩ := by
  obtain ⟨hstatus, hexec, hover⟩ := h
  rw [availableInstances, if_neg hstatus, if_neg (not_not.mpr hexec)]
  exact if_pos (by omega)

theorem availableInstances_of_hasRoom (h : p.HasRoom) :
    p.availableInstances = .ok (p.proc.settings.autoscale - p.instances.length) := by
  obtain ⟨hstatus, hexec, hroom⟩ := h
  rw [availableInstances, if_neg hstatus, if_neg (not_not.mpr hexec)]
  exact if_neg (by omega)

theorem availableInstances_eq_zero (hover : ¬ p.OverScaled) (hroom : ¬ p.HasRoom) :
    p.availableInstances = .ok 0 := by
  unfold availableInstances
  split
  · rfl
  split
  · rfl
  rename_i hstatus hexec
  -- the instances are as many as the setting allows
  have hle : ¬ p.proc.settings.autoscale < p.instances.length :=
    fun h => hover ⟨hstatus, not_not.mp hexec, h⟩
  have hge : ¬ (p.instances.length : ℤ) < p.proc.settings.autoscale :=
    fun h => hroom ⟨hstatus, not_not.mp hexec, h⟩
  have hzero : p.proc.settings.autoscale - p.instances.length = 0 := by omega
  dsimp only
  rw [hzero]
  rfl

theorem exists_availableInstances_iff : (∃ k, p.availableInstances = .ok k) ↔ ¬ p.OverScaled := by
  constructor
  · rintro ⟨k, hk⟩ hover
    rw [availableInstances_of_overScaled hover] at hk
    cases hk
  · intro hover
    by_cases hroom : p.HasRoom
    · exact ⟨_, availableInstances_of_hasRoom hroom⟩
    · exact ⟨_, availableInstances_eq_zero hover hroom⟩

theorem available_iff : p.Available ↔ p.HasRoom := by
  constructor
  · rintro ⟨k, hk, hpos⟩
    exact hasRoom_of_availableInstances hk hpos.ne'
  · intro h
    exact ⟨_, availableInstances_of_hasRoom h, by have := h.2.2; omega⟩

instance (p : ProcessorController) : Decidable p.Available := decidable_of_iff _ available_iff.symm

end ProcessorController

namespace PipeController

variable (loaded : LoadedPipe) (fill : QueueHandle → ℕ)

/-- `pending` of the processor under a key. -/
def pendingOf (c : PipeController) (key : String) : ℕ :=
  match c.processors.get? key with
  | some p => p.pending fill (loaded.getProcessorQueues key)
  | none => 0

/-- The frames in all queues of the pipe that lead to the processor. -/
def backlog (p : ProcessorController) : ℕ :=
  ((loaded.queues.values.filter fun q => q.toP = p.proc.id).map fill).sum

/-- The processors with available instances. -/
def available (c : PipeController) : List (String × ProcessorController) :=
  c.processors.entries.filter fun item => item.2.Available

/-- No processor with available instances has a longer backlog. -/
def IsBottleneck (c : PipeController) (item : String × ProcessorController) : Prop :=
  ∀ other ∈ c.available, backlog loaded fill other.2 ≤ backlog loaded fill item.2

instance (c : PipeController) : DecidablePred (c.IsBottleneck loaded fill) :=
  fun _ => inferInstanceAs (Decidable (∀ _ ∈ _, _))

/-- `get_processor_to_scale_up` returns a processor with available instances and the longest backlog of those. -/
def PicksBottleneck (c : PipeController) : Prop :=
  ∃ key p, getProcessorToScaleUp (c.pendingOf loaded fill) c = .ok key ∧ c.processors.get? key = some p ∧
    p.Available ∧ c.IsBottleneck loaded fill (key, p)

/-- `get_processor_to_scale_down` returns a processor with more than one instance. -/
def PicksScaled (c : PipeController) : Prop :=
  ∃ key p, c.getProcessorToScaleDown = .ok key ∧ c.processors.get? key = some p ∧ p.instancesNumber > 1

end PipeController

/-! ## The searches are maxima -/

namespace PipeController

variable {pending : String → ℕ} {items : List (String × ProcessorController)} {c : PipeController}

/-- One turn of the loop at a processor that is not over-scaled. -/
theorem scaleUpLoop_cons {key : String} {p : ProcessorController} {k : ℤ} (h : p.availableInstances = .ok k)
    (most : Option (ℕ × String)) :
    scaleUpLoop pending ((key, p) :: items) most
      = if k = 0 then scaleUpLoop pending items most
        else if most.all (fun (maxPending, _) => pending key > maxPending) then
          scaleUpLoop pending items (some (pending key, key))
        else scaleUpLoop pending items most := by
  rw [scaleUpLoop, h]
  rfl

/-- The loop keeps the first of the largest among the processors with available instances. -/
theorem scaleUpLoop_eq (hover : ∀ item ∈ items, ¬ item.2.OverScaled) (m : Option (String × ProcessorController)) :
    scaleUpLoop pending items (m.map fun item => (pending item.1, item.1))
      = .ok (((items.filter fun item => item.2.Available).foldl (keepLarger fun item => pending item.1) m).map
          fun item => (pending item.1, item.1)) := by
  induction items generalizing m with
  | nil => rfl
  | cons item items ih =>
    obtain ⟨key, p⟩ := item
    rw [List.forall_mem_cons] at hover
    have hrest := ih hover.2
    by_cases hroom : p.HasRoom
    · have hpos : p.proc.settings.autoscale - p.instances.length ≠ 0 := by
        have hlt := hroom.2.2
        omega
      have havailable : decide p.Available = true := decide_eq_true (ProcessorController.available_iff.mpr hroom)
      rw [List.filter_cons, if_pos havailable, List.foldl_cons,
        scaleUpLoop_cons (ProcessorController.availableInstances_of_hasRoom hroom), if_neg hpos]
      -- the loop and `keepLarger` compare alike: a later processor wins only with more pending messages
      cases m with
      | none => exact hrest (some (key, p))
      | some most =>
        by_cases hlarger : pending most.1 < pending key
        · rw [keepLarger, if_pos hlarger, ← hrest (some (key, p))]
          exact if_pos (decide_eq_true hlarger)
        · rw [keepLarger, if_neg hlarger, ← hrest (some most)]
          exact if_neg (by simpa using hlarger)
    -- a processor without room is passed over by the `if` of the loop
    · have hskip : ¬ decide p.Available = true :=
        fun h => hroom (ProcessorController.available_iff.mp (of_decide_eq_true h))
      rw [List.filter_cons, if_neg hskip,
        scaleUpLoop_cons (ProcessorController.availableInstances_eq_zero hover.1 hroom), if_pos rfl]
      exact hrest m

/-- A processor with too many instances ends the loop. -/
theorem scaleUpLoop_error (hover : ∃ item ∈ items, item.2.OverScaled) (m : Option (ℕ × String)) :
    ∃ e, scaleUpLoop pending items m = .error e := by
  induction items generalizing m with
  | nil =>
    obtain ⟨item, hitem, -⟩ := hover
    cases hitem
  | cons item items ih =>
    obtain ⟨key, p⟩ := item
    by_cases hfirst : p.OverScaled
    · rw [scaleUpLoop, ProcessorController.availableInstances_of_overScaled hfirst]
      exact ⟨_, rfl⟩
    · obtain ⟨k, hk⟩ := ProcessorController.exists_availableInstances_iff.mpr hfirst
      have hlater : ∃ item ∈ items, item.2.OverScaled := by
        obtain ⟨other, hother, hover⟩ := hover
        rcases List.mem_cons.mp hother with rfl | hother
        · exact absurd hover hfirst
        · exact ⟨other, hother, hover⟩
      rw [scaleUpLoop_cons hk]
      split
      · exact ih hlater m
      split
      · exact ih hlater _
      · exact ih hlater m

/-- The loop keeps the first of the largest gaps. -/
theorem scaleDownLoop_eq (m : Option (String × ProcessorController)) :
    scaleDownLoop items (m.map fun item => (item.2.gap, item.1))
      = (items.foldl (keepLarger fun item => item.2.gap) m).map fun item => (item.2.gap, item.1) := by
  induction items generalizing m with
  | nil => rfl
  | cons item items ih =>
    obtain ⟨key, p⟩ := item
    rw [List.foldl_cons, scaleDownLoop]
    cases m with
    | none => exact ih (some (key, p))
    | some most =>
      by_cases hlarger : most.2.gap < p.gap
      · rw [keepLarger, if_pos hlarger, ← ih (some (key, p))]
        exact if_pos (decide_eq_true hlarger)
      · rw [keepLarger, if_neg hlarger, ← ih (some most)]
        exact if_neg (by simpa [ProcessorController.gap] using hlarger)

/-- `get_processor_to_scale_up` picks the first maximum, when no processor has too many instances. -/
theorem getProcessorToScaleUp_eq (hover : ∀ item ∈ c.processors.entries, ¬ item.2.OverScaled) :
    getProcessorToScaleUp pending c
      = (c.available.argmax fun item => pending item.1).elim (.error ⟨.keyError, "None"⟩) fun item => .ok item.1 := by
  have hloop : scaleUpLoop pending c.processors.entries none = _ := scaleUpLoop_eq hover none
  rw [foldl_keepLarger] at hloop
  rw [getProcessorToScaleUp, hloop, available]
  cases (c.processors.entries.filter fun item => item.2.Available).argmax fun item => pending item.1 with
  | none => rfl
  | some item => rfl

theorem getProcessorToScaleUp_error (hover : ∃ item ∈ c.processors.entries, item.2.OverScaled) :
    ∃ e, getProcessorToScaleUp pending c = .error e := by
  have hloop : ∃ e, scaleUpLoop pending c.processors.entries none = .error e := scaleUpLoop_error hover none
  obtain ⟨e, he⟩ := hloop
  refine ⟨e, ?_⟩
  rw [getProcessorToScaleUp, he]
  rfl

/-- `get_processor_to_scale_down` picks the first maximum. -/
theorem getProcessorToScaleDown_eq :
    c.getProcessorToScaleDown
      = (c.processors.entries.foldl (keepLarger fun item => item.2.gap) none).elim (.error ⟨.keyError, "None"⟩)
          fun item => .ok item.1 := by
  have hloop : scaleDownLoop c.processors.entries none = _ := scaleDownLoop_eq none
  rw [getProcessorToScaleDown, hloop]
  cases c.processors.entries.foldl (keepLarger fun item => item.2.gap) none with
  | none => rfl
  | some item => rfl

theorem get?_of_mem_available {item : String × ProcessorController} (h : item ∈ c.available) :
    c.processors.get? item.1 = some item.2 ∧ item.2.Available := by
  obtain ⟨hentry, havailable⟩ := List.mem_filter.mp h
  exact ⟨c.processors.get?_eq_some_iff.mpr hentry, of_decide_eq_true havailable⟩

end PipeController

/-! ## Scaling up -/

namespace PipeController

variable {loaded : LoadedPipe} {fill : QueueHandle → ℕ} {c : PipeController}

theorem picksBottleneck_of_argmax (hover : ∀ item ∈ c.processors.entries, ¬ item.2.OverScaled)
    {item : String × ProcessorController}
    (hmax : c.available.argmax (fun item => c.pendingOf loaded fill item.1) = some item)
    (hbottleneck : c.IsBottleneck loaded fill item) : c.PicksBottleneck loaded fill := by
  obtain ⟨hget, havailable⟩ := get?_of_mem_available (List.argmax_mem hmax)
  refine ⟨item.1, item.2, ?_, hget, havailable, hbottleneck⟩
  rw [getProcessorToScaleUp_eq hover, hmax]
  rfl

/-- The processor that is scaled up is a bottleneck exactly when no processor has more instances than its setting
allows and, of the processors with available instances, some bottleneck has more pending than each that is none, or
as much and stands in front of it. -/
theorem picksBottleneck_iff : c.PicksBottleneck loaded fill ↔
    (∀ item ∈ c.processors.entries, ∃ k, item.2.availableInstances = .ok k) ∧
      ∃ item ∈ c.available,
        Ahead (c.IsBottleneck loaded fill) (fun item => c.pendingOf loaded fill item.1) c.available item := by
  rw [← exists_argmax_iff]
  constructor
  · rintro ⟨key, p, hcall, hp, -, hbottleneck⟩
    have hover : ∀ item ∈ c.processors.entries, ¬ item.2.OverScaled := by
      intro item hitem hitemOver
      have hpick : ∃ e, getProcessorToScaleUp (c.pendingOf loaded fill) c = .error e :=
        getProcessorToScaleUp_error ⟨item, hitem, hitemOver⟩
      obtain ⟨e, he⟩ := hpick
      rw [he] at hcall
      cases hcall
    refine ⟨fun item hitem => ProcessorController.exists_availableInstances_iff.mpr (hover item hitem), ?_⟩
    rw [getProcessorToScaleUp_eq hover] at hcall
    cases hmax : c.available.argmax fun item => c.pendingOf loaded fill item.1 with
    | none =>
      rw [hmax] at hcall
      cases hcall
    | some item =>
      rw [hmax] at hcall
      obtain rfl : item.1 = key := Except.ok.inj hcall
      -- the key leads back to the same processor
      obtain ⟨hget, -⟩ := get?_of_mem_available (List.argmax_mem hmax)
      obtain rfl : item.2 = p := Option.some.inj (hget.symm.trans hp)
      exact ⟨item, rfl, hbottleneck⟩
  · rintro ⟨hall, item, hmax, hbottleneck⟩
    refine picksBottleneck_of_argmax (fun other hother => ?_) hmax hbottleneck
    exact ProcessorController.exists_availableInstances_iff.mp (hall other hother)

/-- A processor that is named by its id has its backlog pending. -/
theorem pendingOf_eq_backlog {key : String} {p : ProcessorController} (hp : c.processors.get? key = some p)
    (hkey : key = p.proc.id) (hname : p.proc.name = p.proc.id) : c.pendingOf loaded fill key = backlog loaded fill p := by
  rw [pendingOf, hp]
  show p.pending fill (loaded.getProcessorQueues key) = backlog loaded fill p
  rw [ProcessorController.pending, ProcessorController.inQueues, LoadedPipe.getProcessorQueues, List.filter_filter,
    backlog]
  refine congrArg (fun queues : List QueueHandle => (queues.map fill).sum) (List.filter_congr fun q _ => ?_)
  rw [hname, hkey]
  by_cases hto : q.toP = p.proc.id
  · simp [hto]
  · simp [hto]

/-- Where every processor is named by its id, as one without a configuration is, the bottleneck is scaled. -/
theorem picksBottleneck_of_names (hall : ∀ item ∈ c.processors.entries, ¬ item.2.OverScaled)
    (hnamed : ∀ item ∈ c.processors.entries, item.1 = item.2.proc.id ∧ item.2.proc.name = item.2.proc.id)
    (hsome : c.available ≠ []) : c.PicksBottleneck loaded fill := by
  have hpending : ∀ item ∈ c.available, c.pendingOf loaded fill item.1 = backlog loaded fill item.2 := by
    intro item hitem
    obtain ⟨hkey, hname⟩ := hnamed item (List.mem_of_mem_filter hitem)
    exact pendingOf_eq_backlog (get?_of_mem_available hitem).1 hkey hname
  cases hmax : c.available.argmax fun item => c.pendingOf loaded fill item.1 with
  | none => exact absurd (List.argmax_eq_none.mp hmax) hsome
  | some item =>
    refine picksBottleneck_of_argmax hall hmax fun other hother => ?_
    have hle := List.le_of_mem_argmax hother hmax
    rwa [hpending item (List.argmax_mem hmax), hpending other hother] at hle

end PipeController

/-! ## Scaling down -/

/-- The processor that is scaled down has more than one instance exactly when some such processor has a larger gap
than each with one or none, or as large a gap and stands in front of it. -/
theorem PipeController.picksScaled_iff {c : PipeController} : c.PicksScaled ↔
    ∃ item ∈ c.processors.entries,
      Ahead (fun item => item.2.instancesNumber > 1) (fun item => item.2.gap) c.processors.entries item := by
  rw [← exists_argmax_iff]
  simp only [← foldl_keepLarger]
  constructor
  · rintro ⟨key, p, hcall, hp, hscaled⟩
    rw [getProcessorToScaleDown_eq] at hcall
    cases hmax : c.processors.entries.foldl (keepLarger fun item => item.2.gap) none with
    | none =>
      rw [hmax] at hcall
      cases hcall
    | some item =>
      rw [hmax] at hcall
      obtain rfl : item.1 = key := Except.ok.inj hcall
      have hget : c.processors.get? item.1 = some item.2 :=
        c.processors.get?_eq_some_iff.mpr (mem_of_foldl_keepLarger hmax)
      obtain rfl : item.2 = p := Option.some.inj (hget.symm.trans hp)
      exact ⟨item, rfl, hscaled⟩
  · rintro ⟨item, hmax, hscaled⟩
    refine ⟨item.1, item.2, ?_, c.processors.get?_eq_some_iff.mpr (mem_of_foldl_keepLarger hmax), hscaled⟩
    rw [getProcessorToScaleDown_eq, hmax]
    rfl

/-! ## Two pipes -/

namespace PipeController

/-- A processor with a configuration. -/
def configuredProcessor : APIProcessor where
  id := "b:79d2f74fa9791059d945dad4eeff0155"
  name := "b"
  entry := some "b.py"
  config := .dict [(.str "model", .str "small")]

/-- A pipe that feeds two processors. -/
def forkedPipe : APIPipe :=
  APIPipe.pipeDef (.node APIPipe.mainProcessor [.node APIPipe.childProcessor [], .node configuredProcessor []])

/-- Five frames wait for the processor with the configuration, one for the other, and none in the sink. -/
def forkedFill (q : QueueHandle) : ℕ :=
  if q.qid = sinkQueueId then 0 else if q.toP = configuredProcessor.id then 5 else 1

/-- The processor with the shorter backlog is scaled up, as the other has a configuration. -/
theorem configured_bottleneck_passed_over : ∃ loaded, LoadedPipe.load forkedPipe = .ok loaded ∧
    entityId plainRuntime "b" configuredProcessor.config = .ok configuredProcessor.id ∧
    (load forkedPipe).available ≠ [] ∧
    getProcessorToScaleUp ((load forkedPipe).pendingOf loaded forkedFill) (load forkedPipe) = .ok "a" ∧
    ¬ (load forkedPipe).PicksBottleneck loaded forkedFill := by
  have hrun : (LoadedPipe.load forkedPipe).toOption.any (fun loaded =>
      decide (getProcessorToScaleUp ((load forkedPipe).pendingOf loaded forkedFill) (load forkedPipe) = .ok "a" ∧
        ¬ ∀ p ∈ (load forkedPipe).processors.get? "a", (load forkedPipe).IsBottleneck loaded forkedFill ("a", p)))
      = true := by
    decide +kernel
  obtain ⟨loaded, hload, hpicked⟩ := exists_ok_of_any hrun
  obtain ⟨hpicked, hnot⟩ := of_decide_eq_true hpicked
  refine ⟨loaded, hload, by decide +kernel, by decide +kernel, hpicked, ?_⟩
  rintro ⟨key, p, hcall, hp, -, hbottleneck⟩
  obtain rfl : "a" = key := Except.ok.inj (hpicked.symm.trans hcall)
  refine hnot fun q hq => ?_
  obtain rfl : p = q := Option.some.inj (hp.symm.trans hq)
  exact hbottleneck

/-- A pipe with one processor below its root, with two instances of it as its setting allows. -/
def scaledPipe : PipeController :=
  let proc := { APIPipe.childProcessor with settings := { autoscale := 2 } }
  { load APIPipe.oneChild with
    processors := (load APIPipe.oneChild).processors.set "a"
      { proc := proc
        instances := [WorkerController.launched proc 7 "" (.subProcess []),
          WorkerController.launched proc 8 "" (.subProcess [])]
        status := .init } }

/-- The root, which has no instance, is to be scaled down. -/
theorem root_scaled_down :
    scaledPipe.isScaled = true ∧ scaledPipe.getProcessorToScaleDown = .ok "main" ∧ ¬ scaledPipe.PicksScaled := by
  have hroot : scaledPipe.getProcessorToScaleDown = .ok "main" := by decide
  refine ⟨by decide, hroot, ?_⟩
  rintro ⟨key, p, hcall, hp, hscaled⟩
  obtain rfl : "main" = key := Except.ok.inj (hroot.symm.trans hcall)
  obtain rfl := Option.some.inj hp
  exact absurd hscaled (by decide)

end PipeController

end Upipe
