import Upipe.Node.Manager.Attach

/-!
# Autoscale

Behind the monitoring of the pipes a tick of the baby sitter calls `check_autoscale`. While some processor
has an instance that is LAUNCHED nothing is scaled; otherwise the first pipe with room for one more
instance gets it, at the processor with the longest backlog.

What the node reads of its surroundings in a tick (the time, the averages of the usage log, the backlog
of a processor) is in `Surroundings`. An exception in a tick ends the baby sitter.
-/

namespace Upipe

open Upipe.Common

/-! ## One processor -/

namespace ProcessorController

/-- `launched_instances`. -/
def launchedInstances (p : ProcessorController) : Except PyError (List WorkerController) :=
  let launched := p.instances.filter WorkerController.isLaunched
  if launched.length > 1 then throw ⟨.brokenPipeError, "Duplicated launch instances error"⟩
  else pure launched

/-- `is_scaling`. -/
def isScaling (p : ProcessorController) : Except PyError Bool := do
  let launched ← p.launchedInstances
  pure (launched.length > 0)

def instancesNumber (p : ProcessorController) : ℕ := p.instances.length

/-- `available_instances`. -/
def availableInstances (p : ProcessorController) : Except PyError ℤ :=
  if p.status = .completed then pure 0
  else if ¬ p.executable then pure 0
  else
    let allowed := p.proc.settings.autoscale - p.instances.length
    if allowed < 0 then throw ⟨.environmentError, s!"Processor over scaled:f{p.proc.name}"⟩
    else pure allowed

end ProcessorController

/-! ## One pipe -/

namespace PipeController

/-- The loop of `is_scaling`. -/
def scalingLoop : List ProcessorController → Except PyError Bool
  | [] => pure false
  | p :: processors => do
      if ← p.isScaling then pure true else scalingLoop processors

/-- `is_scaling`. -/
def isScaling (c : PipeController) : Except PyError Bool := scalingLoop c.processors.values

/-- `is_scaled`. -/
def isScaled (c : PipeController) : Bool := c.processors.values.any fun p => p.instancesNumber > 1

/-- The loop of `scaled_to_maxed`. -/
def maxedLoop : List ProcessorController → Except PyError Bool
  | [] => pure true
  | p :: processors => do
      if (← p.availableInstances) > 0 then pure false else maxedLoop processors

/-- `scaled_to_maxed`. -/
def scaledToMaxed (c : PipeController) : Except PyError Bool := maxedLoop c.processors.values

/-- The loop of `get_processor_to_scale_up`, with the largest backlog so far and whose it is. -/
def scaleUpLoop (pending : String → ℕ) :
    List (String × ProcessorController) → Option (ℕ × String) → Except PyError (Option (ℕ × String))
  | [], most => pure most
  | (key, p) :: processors, most => do
      if (← p.availableInstances) = 0 then scaleUpLoop pending processors most
      else if most.all (fun (maxPending, _) => pending key > maxPending) then
        scaleUpLoop pending processors (some (pending key, key))
      else scaleUpLoop pending processors most

/-- `get_processor_to_scale_up`. -/
def getProcessorToScaleUp (pending : String → ℕ) (c : PipeController) : Except PyError String := do
  match ← scaleUpLoop pending c.processors.entries none with
  | some (_, key) => pure key
  | none => throw ⟨.keyError, "None"⟩

/-- `scale_up`, with the pid and the colours that the new instance gets. -/
def scaleUp (pending : String → ℕ) (pid : ℕ) (colour : String) : PyM PipeController Unit := do
  let c ← get
  let key ← ofExcept (getProcessorToScaleUp pending c)
  onProcessor key (ProcessorController.launchInstance pid colour)

/-- The loop of `get_processor_to_scale_down`, with the largest gap so far and whose it is. -/
def scaleDownLoop :
    List (String × ProcessorController) → Option (ℤ × String) → Option (ℤ × String)
  | [], most => most
  | (key, p) :: processors, most =>
      let gap := p.proc.settings.autoscale - p.instancesNumber
      if most.all fun (maxGap, _) => gap > maxGap then scaleDownLoop processors (some (gap, key))
      else scaleDownLoop processors most

/-- `get_processor_to_scale_down`. -/
def getProcessorToScaleDown (c : PipeController) : Except PyError String :=
  match scaleDownLoop c.processors.entries none with
  | some (_, key) => pure key
  | none => throw ⟨.keyError, "None"⟩

/-- `scale_down`. The `scale_down` of the processor that it picks does nothing. -/
def scaleDown : PyM PipeController Unit := do
  let c ← get
  let _ ← ofExcept c.getProcessorToScaleDown

/-- `pause`. The `pause` of a processor does nothing. -/
def pause : PyM PipeController Unit := do
  let c ← get
  if c.status ≠ .running then throw ⟨.assertionError, "Cant pause an idle pipe"⟩
  else modify (schedule .paused)

/-- `process_control_message`. -/
def processControlMessage (launched : String → ℕ × String) : PipeActionType → PyM PipeController Unit
  | .start => start launched
  | .pause => pause
  | .restart | .terminate => pure ()

end PipeController

/-! ## The node -/

/-- What `check_autoscale` reads and gets from its surroundings: the time in ms, the averages of the CPU
and the memory log or what computing them raises, the frames pending in front of a processor of a pipe,
and the pid and the colours of a new instance. -/
structure Surroundings where
  now : ℤ
  usage : Except PyError (ℤ × ℤ)
  pending : String → String → ℕ
  pid : ℕ
  colour : String

/-- The node with its scaling clock. `sitting` says that the task of the baby sitter is alive. -/
structure ScalingNode where
  node : ComputeNode
  lastScaleTime : ℤ
  sitting : Bool

namespace ComputeNode

/-- `process_message`, for a control message to a pipe. An exception is printed and dropped. -/
def processMessage (name : String) (action : PipeActionType) (launched : String → ℕ × String)
    (node : ComputeNode) : ComputeNode :=
  stateOf (onPipe name (PipeController.processControlMessage launched action) node)

/-- The loop of `check_autoscale` over `is_scaling`. -/
def anyScaling : List PipeController → Except PyError Bool
  | [] => pure false
  | c :: pipes => do
      if ← c.isScaling then pure true else anyScaling pipes

/-- `pipes_available_to_scale`. -/
def pipesToScaleUp : List (String × PipeController) → Except PyError (List String)
  | [] => pure []
  | (name, c) :: pipes => do
      let maxed ← c.scaledToMaxed
      let names ← pipesToScaleUp pipes
      pure (if maxed then names else name :: names)

/-- `pipes_available_to_scale_down`. -/
def pipesToScaleDown (node : ComputeNode) : List String :=
  (node.pipeControllers.entries.filter fun item => item.2.isScaled).map Prod.fst

end ComputeNode

namespace ScalingNode

/-- A method call on the node. -/
def onNode {α : Type} (m : PyM ComputeNode α) : PyM ScalingNode α := fun s =>
  match m s.node with
  | .ok a node => .ok a { s with node := node }
  | .error e node => .error e { s with node := node }

/-- `scale_block_time`, in ms. -/
def scaleBlockTime : ℤ := 10000

/-- `is_scale_down_required`, when the usage log is not empty. -/
def isScaleDownRequired (env : Surroundings) (s : ScalingNode) : Except PyError Bool :=
  if env.now - s.lastScaleTime < scaleBlockTime then pure false
  else do
    let (cpu, memory) ← env.usage
    pure (cpu > 90 || memory > 90)

/-- `is_scale_up_possible`. -/
def isScaleUpPossible (env : Surroundings) (s : ScalingNode) : Except PyError Bool :=
  if env.now - s.lastScaleTime < scaleBlockTime then pure false
  else do
    let (cpu, memory) ← env.usage
    pure (!(cpu > 70 || memory > 85))

/-- `self.last_scale_time = time.time()`. -/
def scaled (env : Surroundings) : PyM ScalingNode Unit :=
  modify fun s => { s with lastScaleTime := env.now }

/-- `check_autoscale`. -/
def checkAutoscale (env : Surroundings) : PyM ScalingNode Unit := do
  let s ← get
  if ← ofExcept (ComputeNode.anyScaling s.node.pipeControllers.values) then pure ()
  else if ← ofExcept (isScaleDownRequired env s) then do
    scaled env
    match s.node.pipesToScaleDown with
    | [] => pure ()
    | name :: _ => do
        onNode (ComputeNode.onPipe name PipeController.scaleDown)
        scaled env
  else if ← ofExcept (isScaleUpPossible env s) then do
    match ← ofExcept (ComputeNode.pipesToScaleUp s.node.pipeControllers.entries) with
    | [] => pure ()
    | name :: _ => do
        onNode (ComputeNode.onPipe name (PipeController.scaleUp (env.pending name) env.pid env.colour))
        scaled env
  else pure ()

/-- One turn of the loop of `baby_sitter`, without the usage log. -/
def babySitterTurn (env : Surroundings) : PyM ScalingNode Unit := do
  let s ← get
  if s.node.runningPipesCount = 0 then pure ()
  else do
    onNode (ComputeNode.babySitterLoop s.node.pipeControllers.keys)
    checkAutoscale env

/-! ## Events -/

/-- What can happen to a node with loaded pipes. -/
inductive NodeEvent where
  | control (pipe : String) (action : PipeActionType) (launched : String → ℕ × String)
  | register (ps : ℕ → Except PyError (List ℕ)) (pid : ℕ)
  | output (pipe key : String) (n : ℕ) (text : String) (line : Bytes)
  | exit (pipe key : String) (n : ℕ) (code : ℤ) (lines : List Bytes)
  | runTask (pipe : String)
  | tick (env : Surroundings)

/-- An instance writes to its output queue: a text when it is a process, a line when it is a
subprocess. -/
def wrote (text : String) (line : Bytes) : PyM WorkerController Unit :=
  modify fun i =>
    match i.stdoutQ with
    | .process chunks => { i with stdoutQ := .process (chunks ++ [text]) }
    | .subProcess lines => { i with stdoutQ := .subProcess (lines ++ [line]) }

/-- A call on the instance at a place of the node. -/
def atInstance (pipe key : String) (n : ℕ) (m : PyM WorkerController Unit) : PyM ComputeNode Unit :=
  ComputeNode.onPipe pipe (PipeController.onProcessor key (ProcessorController.onInstance n m))

/-- One event. The baby sitter does not outlive an exception; other calls that raise leave the changes
they made before. -/
def nodeStep (s : ScalingNode) : NodeEvent → Option ScalingNode
  | .control pipe action launched =>
      some { s with node := s.node.processMessage pipe action launched }
  | .register ps pid => some { s with node := stateOf (ComputeNode.registerLaunchedInstance ps pid s.node) }
  | .output pipe key n text line =>
      some { s with node := stateOf (atInstance pipe key n (wrote text line) s.node) }
  | .exit pipe key n code lines =>
      some { s with node := stateOf (atInstance pipe key n (PipeController.exited code lines) s.node) }
  | .runTask pipe =>
      (s.node.pipeControllers.get? pipe).bind fun c =>
        c.runTask.map fun c' => { s with node := s.node.withPipe pipe c' }
  | .tick env =>
      if s.sitting then
        match babySitterTurn env s with
        | .ok _ s' => some s'
        | .error _ s' => some { s' with sitting := false }
      else none

end ScalingNode

/-! ## Where an instance is added -/

namespace ProcessorController

/-- The processor has room for one more instance. -/
def HasRoom (p : ProcessorController) : Prop :=
  p.status ≠ .completed ∧ p.executable ∧ (p.instances.length : ℤ) < p.proc.settings.autoscale

/-- No instance of the processor is LAUNCHED. -/
def NoneLaunched (p : ProcessorController) : Prop := ∀ i ∈ p.instances, i.isLaunched = false

/-- The processor with one more instance. -/
def withLaunched (p : ProcessorController) (pid : ℕ) (colour : String) : ProcessorController :=
  { p with
    instances := p.instances ++ [WorkerController.launched p.proc pid colour
      (if isGiven p.proc.function then .process [] else .subProcess [])] }

variable {p : ProcessorController} {pid : ℕ} {colour : String}

theorem launchInstance_ok (h : isGiven p.proc.entry) :
    launchInstance pid colour p = .ok () (p.withLaunched pid colour) := by
  rw [launchInstance, get_bind_apply, if_pos h]
  rfl

theorem launchInstance_error (h : ¬ isGiven p.proc.entry) :
    launchInstance pid colour p
      = .error ⟨.environmentError, "Can not launch processor with no entry point"⟩ p := by
  rw [launchInstance, get_bind_apply, if_neg h]
  rfl

theorem noneLaunched_of_isScaling (h : p.isScaling = .ok false) : p.NoneLaunched := by
  obtain ⟨launched, hlaunched, hempty⟩ := except_bind_eq_ok_iff.mp h
  have hnil := List.length_eq_zero_iff.mp
    (Nat.eq_zero_of_not_pos (of_decide_eq_false (Except.ok.inj hempty)))
  unfold launchedInstances at hlaunched
  dsimp only at hlaunched
  split at hlaunched
  · cases hlaunched
  · rw [hnil] at hlaunched
    intro i hi
    exact Bool.eq_false_iff.mpr (List.filter_eq_nil_iff.mp (Except.ok.inj hlaunched) i hi)

theorem hasRoom_of_availableInstances {k : ℤ} (h : p.availableInstances = .ok k) (hk : k ≠ 0) :
    p.HasRoom := by
  unfold availableInstances at h
  split at h
  · exact absurd (Except.ok.inj h).symm hk
  split at h
  · exact absurd (Except.ok.inj h).symm hk
  rename_i hstatus hexec
  refine ⟨hstatus, not_not.mp hexec, ?_⟩
  dsimp only at h
  split at h
  · cases h
  · have hallowed := Except.ok.inj h
    omega

end ProcessorController

namespace PipeController

variable {c : PipeController}

theorem noneLaunched_of_scalingLoop {processors : List ProcessorController}
    (h : scalingLoop processors = .ok false) : ∀ p ∈ processors, p.NoneLaunched := by
  induction processors with
  | nil => exact fun _ hp => (nomatch hp)
  | cons p processors ih =>
    obtain ⟨scaling, hscaling, hrest⟩ := except_bind_eq_ok_iff.mp h
    cases scaling with
    | true => cases hrest
    | false =>
      exact List.forall_mem_cons.mpr
        ⟨ProcessorController.noneLaunched_of_isScaling hscaling, ih hrest⟩

/-- The search returns a processor that it has found room at, or what it started from. -/
theorem scaleUpLoop_cases {pending : String → ℕ} {processors : List (String × ProcessorController)}
    {most : Option (ℕ × String)} {m : ℕ} {key : String}
    (h : scaleUpLoop pending processors most = .ok (some (m, key))) :
    most = some (m, key) ∨ ∃ p, (key, p) ∈ processors ∧ p.HasRoom := by
  induction processors generalizing most with
  | nil => exact Or.inl (Except.ok.inj h)
  | cons item processors ih =>
    obtain ⟨key', p⟩ := item
    obtain ⟨available, havailable, hrest⟩ := except_bind_eq_ok_iff.mp h
    have hlater : ∀ {most'}, scaleUpLoop pending processors most' = .ok (some (m, key)) →
        most' = some (m, key) ∨ ∃ q, (key, q) ∈ (key', p) :: processors ∧ q.HasRoom := by
      intro most' hcall
      rcases ih hcall with heq | ⟨q, hq, hroom⟩
      · exact Or.inl heq
      · exact Or.inr ⟨q, List.mem_cons_of_mem _ hq, hroom⟩
    split at hrest
    · exact hlater hrest
    · rename_i hsome
      split at hrest
      · rcases hlater hrest with heq | hlater
        · obtain ⟨-, rfl⟩ := Prod.mk.inj (Option.some.inj heq)
          exact Or.inr ⟨p, List.mem_cons_self,
            ProcessorController.hasRoom_of_availableInstances havailable hsome⟩
        · exact Or.inr hlater
      · exact hlater hrest

/-- A call on a processor changes that processor only. -/
theorem stateOf_onProcessor {α : Type} {key : String} {m : PyM ProcessorController α}
    {p : ProcessorController} (hp : c.processors.get? key = some p) :
    stateOf (onProcessor key m c) = c.withProcessor key (stateOf (m p)) := by
  rw [onProcessor, hp]
  cases hcall : m p with
  | ok a p' | error e p' =>
    simp only [hcall]
    rfl

theorem stateOf_onProcessor_of_none {α : Type} {key : String} {m : PyM ProcessorController α}
    (hp : c.processors.get? key = none) : stateOf (onProcessor key m c) = c := by
  rw [onProcessor, hp]
  rfl

/-- `scale_up` adds one instance where there is room, or leaves the pipe as it is. -/
theorem scaleUp_cases (pending : String → ℕ) (pid : ℕ) (colour : String) (c : PipeController) :
    stateOf (scaleUp pending pid colour c) = c ∨ ∃ key p, c.processors.get? key = some p ∧
      p.HasRoom ∧ stateOf (scaleUp pending pid colour c)
        = c.withProcessor key (p.withLaunched pid colour) := by
  rw [scaleUp, get_bind_apply, getProcessorToScaleUp]
  cases hloop : scaleUpLoop pending c.processors.entries none with
  | error e => exact Or.inl rfl
  | ok most =>
    rcases most with - | ⟨m, key⟩
    · exact Or.inl rfl
    obtain ⟨p, hitem, hroom⟩ := (scaleUpLoop_cases hloop).resolve_left (fun h => nomatch h)
    have hp := c.processors.get?_eq_some_iff.mpr hitem
    show stateOf (onProcessor key (ProcessorController.launchInstance pid colour) c) = c ∨ ∃ key' p',
      c.processors.get? key' = some p' ∧ p'.HasRoom ∧
        stateOf (onProcessor key (ProcessorController.launchInstance pid colour) c)
          = c.withProcessor key' (p'.withLaunched pid colour)
    rw [stateOf_onProcessor hp]
    by_cases hgiven : ProcessorController.isGiven p.proc.entry
    · rw [ProcessorController.launchInstance_ok hgiven]
      exact Or.inr ⟨key, p, hp, hroom, rfl⟩
    · rw [ProcessorController.launchInstance_error hgiven]
      exact Or.inl (withProcessor_of_get? hp)

end PipeController

namespace ComputeNode

variable {node : ComputeNode}

theorem noneLaunched_of_anyScaling {pipes : List PipeController} (h : anyScaling pipes = .ok false) :
    ∀ c ∈ pipes, ∀ p ∈ c.processors.values, p.NoneLaunched := by
  induction pipes with
  | nil => exact fun _ hc => (nomatch hc)
  | cons c pipes ih =>
    obtain ⟨scaling, hscaling, hrest⟩ := except_bind_eq_ok_iff.mp h
    cases scaling with
    | true => cases hrest
    | false =>
      exact List.forall_mem_cons.mpr ⟨PipeController.noneLaunched_of_scalingLoop hscaling, ih hrest⟩

/-- A call on a pipe changes the controller of that pipe only. -/
theorem stateOf_onPipe {α : Type} {name : String} {m : PyM PipeController α} {c : PipeController}
    (hget : node.pipeControllers.get? name = some c) :
    stateOf (onPipe name m node) = node.withPipe name (stateOf (m c)) := by
  rw [onPipe, hget]
  cases hcall : m c with
  | ok a c' | error e c' =>
    simp only [hcall]
    rfl

theorem stateOf_onPipe_of_none {α : Type} {name : String} {m : PyM PipeController α}
    (hget : node.pipeControllers.get? name = none) : stateOf (onPipe name m node) = node := by
  rw [onPipe, hget]
  rfl

theorem stateOf_scaleDown (name : String) (node : ComputeNode) :
    stateOf (onPipe name PipeController.scaleDown node) = node := by
  cases hget : node.pipeControllers.get? name with
  | none => exact stateOf_onPipe_of_none hget
  | some c =>
    have hsame : stateOf (PipeController.scaleDown c) = c := by
      rw [PipeController.scaleDown, get_bind_apply]
      cases c.getProcessorToScaleDown <;> rfl
    rw [stateOf_onPipe hget, hsame, withPipe_of_get? hget]

end ComputeNode

namespace ScalingNode

theorem stateOf_onNode {α : Type} (m : PyM ComputeNode α) (s : ScalingNode) :
    stateOf (onNode m s) = { s with node := stateOf (m s.node) } := by
  rw [onNode]
  cases m s.node <;> rfl

/-- Setting the clock leaves the pipes. -/
theorem node_bind_scaled {α : Type} (env : Surroundings) (m : PyM ScalingNode α) (s : ScalingNode) :
    (stateOf ((m >>= fun _ => scaled env) s)).node = (stateOf (m s)).node := by
  cases hcall : m s with
  | ok a s' =>
    rw [bind_ok hcall]
    rfl
  | error e s' =>
    rw [bind_error hcall]
    rfl

/-- `check_autoscale` adds one instance, where there is room and while nothing is LAUNCHED, or leaves the
pipes as they are. -/
theorem checkAutoscale_cases (env : Surroundings) (s : ScalingNode) :
    (stateOf (checkAutoscale env s)).node = s.node ∨ ∃ name c key p,
      s.node.pipeControllers.get? name = some c ∧ c.processors.get? key = some p ∧
      p.NoneLaunched ∧ p.HasRoom ∧ (stateOf (checkAutoscale env s)).node
        = s.node.withPipe name (c.withProcessor key (p.withLaunched env.pid env.colour)) := by
  rw [checkAutoscale, get_bind_apply]
  -- every early return leaves the controllers, and so does scaling down: only `scale_up` launches
  cases hscaling : ComputeNode.anyScaling s.node.pipeControllers.values with
  | error e => exact Or.inl rfl
  | ok scaling =>
  cases scaling with
  | true => exact Or.inl rfl
  | false =>
  cases hdown : isScaleDownRequired env s with
  | error e => exact Or.inl rfl
  | ok down =>
  cases down with
  | true =>
    left
    cases hnames : s.node.pipesToScaleDown with
    | nil => rfl
    | cons name names =>
      show (stateOf ((onNode (ComputeNode.onPipe name PipeController.scaleDown) >>= fun _ => scaled env)
        { s with lastScaleTime := env.now })).node = _
      rw [node_bind_scaled, stateOf_onNode, ComputeNode.stateOf_scaleDown]
  | false =>
  cases hup : isScaleUpPossible env s with
  | error e => exact Or.inl rfl
  | ok up =>
  cases up with
  | false => exact Or.inl rfl
  | true =>
  cases hnames : ComputeNode.pipesToScaleUp s.node.pipeControllers.entries with
  | error e => exact Or.inl rfl
  | ok names =>
  cases names with
  | nil => exact Or.inl rfl
  | cons name names =>
    show (stateOf ((onNode (ComputeNode.onPipe name (PipeController.scaleUp (env.pending name) env.pid
        env.colour)) >>= fun _ => scaled env) s)).node = _ ∨ ∃ name' c key p, _ ∧ _ ∧ _ ∧ _ ∧
      (stateOf ((onNode (ComputeNode.onPipe name (PipeController.scaleUp (env.pending name) env.pid
        env.colour)) >>= fun _ => scaled env) s)).node = _
    rw [node_bind_scaled, stateOf_onNode]
    cases hget : s.node.pipeControllers.get? name with
    | none => exact Or.inl (ComputeNode.stateOf_onPipe_of_none hget)
    | some c =>
      rw [ComputeNode.stateOf_onPipe hget]
      rcases PipeController.scaleUp_cases (env.pending name) env.pid env.colour c with
        hsame | ⟨key, p, hp, hroom, hup⟩
      · left
        rw [hsame]
        exact ComputeNode.withPipe_of_get? hget
      · have hc := List.mem_map_of_mem (f := Prod.snd) (s.node.pipeControllers.get?_eq_some_iff.mp hget)
        have hmem := List.mem_map_of_mem (f := Prod.snd) (c.processors.get?_eq_some_iff.mp hp)
        have hnone := ComputeNode.noneLaunched_of_anyScaling hscaling c hc p hmem
        exact Or.inr ⟨name, c, key, p, hget, hp, hnone, hroom, congrArg (s.node.withPipe name) hup⟩

end ScalingNode

/-! ## What is kept of every processor -/

/-- The instance afterwards is of the same processor, and it is LAUNCHED only if it was before. -/
structure WorkerController.Follows (i i' : WorkerController) : Prop where
  proc_eq : i'.proc = i.proc
  launched : i'.isLaunched → i.isLaunched

namespace WorkerController

variable {i : WorkerController}

theorem Follows.of_eq {j j' : WorkerController} (h : i.Follows j) (hproc : j'.proc = j.proc)
    (hstate : j'.state = j.state) : i.Follows j' where
  proc_eq := hproc.trans h.proc_eq
  launched hj' := h.launched (by rwa [isLaunched, hstate] at hj')

theorem Follows.of_ne {j j' : WorkerController} (h : i.Follows j) (hproc : j'.proc = j.proc)
    (hstate : j'.state ≠ .launched) : i.Follows j' where
  proc_eq := hproc.trans h.proc_eq
  launched hj' := absurd (of_decide_eq_true hj') hstate

theorem follows_refl (i : WorkerController) : i.Follows i := ⟨rfl, id⟩

theorem follows_register (ps : ℕ → Except PyError (List ℕ)) (pid : ℕ) :
    Keeps i.Follows (register ps pid) := by
  refine Keeps.bind (keeps_modify fun _ hj => hj.of_ne rfl InstanceState.noConfusion) fun _ => ?_
  refine keeps_get_bind fun j hj => ?_
  split
  · exact hj
  · refine Keeps.bind (keeps_ofExcept _) (fun isChild => ?_) j hj
    split
    · exact keeps_pure _
    · exact keeps_throw _

theorem follows_exited (code : ℤ) (lines : List Bytes) :
    Keeps i.Follows (PipeController.exited code lines) := by
  refine keeps_modify fun j hj => ?_
  split
  · rw [handleExit]
    split <;> exact hj.of_ne rfl InstanceState.noConfusion
  · exact hj

theorem follows_wrote (text : String) (line : Bytes) : Keeps i.Follows (ScalingNode.wrote text line) := by
  refine keeps_modify fun j hj => ?_
  split <;> exact hj.of_eq rfl rfl

theorem follows_readStdoutLine : Keeps i.Follows readStdoutLine := by
  refine keeps_get_bind fun j hj => ?_
  rcases hq : j.stdoutQ with (- | ⟨chunk, rest⟩) | (- | ⟨line, rest⟩)
  · exact hj
  · exact hj.of_eq rfl rfl
  · exact hj
  · have hnext : Keeps i.Follows (if line = [] then pure none else do
        let text ← ofExcept (decodeUtf8 line)
        pure (j.lineOf (strip text)) : PyM WorkerController (Option String)) := by
      split
      · exact keeps_pure _
      · exact Keeps.bind (keeps_ofExcept _) fun _ => keeps_pure _
    exact hnext _ (hj.of_eq rfl rfl)

theorem follows_readLines (n : ℕ) : Keeps i.Follows (readLines n) := by
  induction n with
  | zero => exact keeps_pure _
  | succ n ih =>
    refine Keeps.bind follows_readStdoutLine fun line => ?_
    cases line with
    | none => exact keeps_pure _
    | some line => exact ih

end WorkerController

/-- What is left alone by all that happens to the instances of a processor but a launch. -/
structure ProcessorController.Steady (Q : ProcessorController → Prop) : Prop where
  follow : ∀ p n i i', Q p → p.instances[n]? = some i → i.Follows i' →
    Q { p with instances := p.instances.set n i' }
  remove : ∀ p n, Q p → Q { p with instances := p.instances.eraseIdx n }
  status : ∀ p status, Q p → Q { p with status := status }

theorem ProcessorController.Steady.keeps_onInstance {Q : ProcessorController → Prop} (hQ : Steady Q)
    {n : ℕ} {m : PyM WorkerController Unit} (hm : ∀ i, Keeps (WorkerController.Follows i) m) :
    Keeps Q (onInstance n m) := by
  intro p hp
  rw [onInstance]
  cases hn : p.instances[n]? with
  | none => exact hp
  | some i =>
    have hi := hm i i i.follows_refl
    cases hcall : m i with
    | ok _ i' | error _ i' =>
      rw [hcall] at hi
      simp only [hcall]
      exact hQ.follow p n i i' hp hn hi

/-- What each call on an instance keeps, and the removal of an instance, and a status. -/
structure ProcessorController.Lasting (Q : ProcessorController → Prop) : Prop where
  register : ∀ n ps pid, Keeps Q (onInstance n (WorkerController.register ps pid))
  exited : ∀ n code lines, Keeps Q (onInstance n (PipeController.exited code lines))
  wrote : ∀ n text line, Keeps Q (onInstance n (ScalingNode.wrote text line))
  read : ∀ n k, Keeps Q (onInstance n (WorkerController.readLines k))
  remove : ∀ p n, Q p → Q { p with instances := p.instances.eraseIdx n }
  status : ∀ p status, Q p → Q { p with status := status }

theorem ProcessorController.Steady.lasting {Q : ProcessorController → Prop} (hQ : Steady Q) : Lasting Q where
  register _ ps pid := hQ.keeps_onInstance fun _ => WorkerController.follows_register ps pid
  exited _ code lines := hQ.keeps_onInstance fun _ => WorkerController.follows_exited code lines
  wrote _ text line := hQ.keeps_onInstance fun _ => WorkerController.follows_wrote text line
  read _ k := hQ.keeps_onInstance fun _ => WorkerController.follows_readLines k
  remove := hQ.remove
  status := hQ.status

namespace PipeController

/-- Every processor has the property. -/
def Every (Q : String → ProcessorController → Prop) (c : PipeController) : Prop :=
  ∀ item ∈ c.processors.entries, Q item.1 item.2

instance (Q : String → ProcessorController → Prop) [∀ key p, Decidable (Q key p)] (c : PipeController) :
    Decidable (c.Every Q) :=
  inferInstanceAs (Decidable (∀ item ∈ _, _))

variable {Q : String → ProcessorController → Prop} {c : PipeController}

theorem Every.get (h : c.Every Q) {key : String} {p : ProcessorController}
    (hp : c.processors.get? key = some p) : Q key p :=
  h (key, p) (c.processors.get?_eq_some_iff.mp hp)

theorem Every.withProcessor (h : c.Every Q) {key : String} {p : ProcessorController} (hp : Q key p) :
    (c.withProcessor key p).Every Q :=
  c.processors.forall_entries_set h hp

theorem keepsEvery_onProcessor {α : Type} {key : String} {m : PyM ProcessorController α}
    (hm : Keeps (Q key) m) : Keeps (Every Q) (onProcessor key m) := by
  intro c hc
  cases hp : c.processors.get? key with
  | none =>
    rw [stateOf_onProcessor_of_none hp]
    exact hc
  | some p =>
    rw [stateOf_onProcessor hp]
    exact hc.withProcessor (hm p (hc.get hp))

theorem keepsEvery_start (launched : String → ℕ × String)
    (hlaunch : ∀ key p pid colour, Q key p → Q key (p.withLaunched pid colour)) :
    Keeps (Every Q) (start launched) := by
  have hall : ∀ keys, Keeps (Every Q) (launchAll launched keys) := by
    intro keys
    induction keys with
    | nil => exact keeps_pure ()
    | cons key keys ih =>
      refine Keeps.bind (keepsEvery_onProcessor (keeps_get_bind fun p hp => ?_)) fun _ => ih
      split
      · by_cases hgiven : ProcessorController.isGiven p.proc.entry
        · rw [ProcessorController.launchInstance_ok hgiven]
          exact hlaunch key p _ _ hp
        · rw [ProcessorController.launchInstance_error hgiven]
          exact hp
      · exact hp
  refine keeps_get_bind fun c hc => ?_
  split
  · exact hc
  · have hscheduled : Keeps (Every Q) (modify (schedule .running) : PyM PipeController Unit) :=
      keeps_modify fun _ hc => hc
    exact Keeps.bind (hall _) (fun _ => hscheduled) c hc

section Lasting

variable (hQ : ∀ key, ProcessorController.Lasting (Q key))
include hQ

theorem keepsEvery_handleInstanceExit (key : String) (n : ℕ) (i : WorkerController) :
    Keeps (Every Q) (handleInstanceExit key n i) := by
  have hcomplete : ∀ withErrors, Keeps (Every Q)
      (onProcessor i.procId (modify (ProcessorController.onComplete withErrors))) := by
    intro withErrors
    exact keepsEvery_onProcessor (keeps_modify fun p hp => (hQ _).status p _ hp)
  unfold handleInstanceExit
  split
  · refine (hcomplete false).bind fun _ => keepsEvery_onProcessor ?_
    split
    · exact keeps_modify fun p hp => (hQ _).remove p n hp
    · exact keeps_throw _
  · exact hcomplete true

theorem keepsEvery_monitorLoop (key : String) (fuel n running : ℕ) :
    Keeps (Every Q) (monitorLoop key fuel n running) := by
  induction fuel generalizing n running with
  | zero => exact keeps_pure _
  | succ fuel ih =>
    refine keeps_get_bind fun c hc => Keeps.bind (keeps_ofExcept _) (fun p => ?_) c hc
    split
    · exact keeps_pure _
    · rename_i i _
      refine Keeps.bind (keepsEvery_onProcessor ((hQ key).read n _)) fun _ => ?_
      split
      · exact (keepsEvery_handleInstanceExit hQ key n i).bind fun _ => ih _ _
      · exact ih _ _

theorem keepsEvery_monitorPipe : Keeps (Every Q) monitorPipe := by
  have hall : ∀ keys running, Keeps (Every Q) (monitorProcessors keys running) := by
    intro keys
    induction keys with
    | nil => exact fun _ => keeps_pure _
    | cons key keys ih =>
      intro running
      refine keeps_get_bind fun c hc => Keeps.bind (keeps_ofExcept _) (fun p => ?_) c hc
      exact (keepsEvery_monitorLoop hQ key _ _ _).bind fun running => ih running
  exact keeps_get_bind fun c hc => hall _ _ c hc

end Lasting

end PipeController

namespace ComputeNode

/-- Every pipe has the property. -/
def Every (Q : String → PipeController → Prop) (node : ComputeNode) : Prop :=
  ∀ item ∈ node.pipeControllers.entries, Q item.1 item.2

instance (Q : String → PipeController → Prop) [∀ name c, Decidable (Q name c)] (node : ComputeNode) :
    Decidable (node.Every Q) :=
  inferInstanceAs (Decidable (∀ item ∈ _, _))

variable {Q : String → PipeController → Prop} {node : ComputeNode}

theorem Every.get (h : node.Every Q) {name : String} {c : PipeController}
    (hc : node.pipeControllers.get? name = some c) : Q name c :=
  h (name, c) (node.pipeControllers.get?_eq_some_iff.mp hc)

theorem Every.withPipe (h : node.Every Q) {name : String} {c : PipeController} (hc : Q name c) :
    (node.withPipe name c).Every Q :=
  node.pipeControllers.forall_entries_set h hc

theorem keepsEvery_onPipe {α : Type} {name : String} {m : PyM PipeController α}
    (hm : Keeps (Q name) m) : Keeps (Every Q) (onPipe name m) := by
  intro node hnode
  cases hget : node.pipeControllers.get? name with
  | none =>
    rw [stateOf_onPipe_of_none hget]
    exact hnode
  | some c =>
    rw [stateOf_onPipe hget]
    exact hnode.withPipe (hm c (hnode.get hget))

/-- The monitoring of pipes keeps what its calls on them keep. -/
theorem keeps_babySitterLoop {P : ComputeNode → Prop} {names : List String}
    (hmonitor : ∀ name ∈ names, Keeps P (onPipe name PipeController.monitorPipe))
    (hcleanup : ∀ name ∈ names, Keeps P (onPipe name PipeController.cleanup)) :
    Keeps P (babySitterLoop names) := by
  induction names with
  | nil => exact keeps_pure _
  | cons name names ih =>
    rw [List.forall_mem_cons] at hmonitor hcleanup
    have hnames := ih hmonitor.2 hcleanup.2
    refine Keeps.bind hmonitor.1 fun running => ?_
    split
    · exact Keeps.bind hcleanup.1 fun _ => hnames
    · exact hnames

/-- Registration keeps what its call on the instance keeps. -/
theorem keeps_registerLaunchedInstance {P : ComputeNode → Prop} {ps : ℕ → Except PyError (List ℕ)}
    {pid : ℕ} (hregister : ∀ r : InstanceRef, Keeps P (onPipe r.pipe (PipeController.onProcessor r.key
      (ProcessorController.onInstance r.n (WorkerController.register ps pid))))) :
    Keeps P (registerLaunchedInstance ps pid) := by
  refine keeps_get_bind fun node hnode => Keeps.bind (keeps_ofExcept _) (fun found => ?_) node hnode
  cases found with
  | none => exact keeps_throw _
  | some r => exact Keeps.bind (hregister r) fun _ => keeps_pure _

end ComputeNode

namespace ScalingNode

/-- Every processor of every pipe has the property. -/
def Every (Q : String → ProcessorController → Prop) (s : ScalingNode) : Prop :=
  s.node.Every fun _ c => c.Every Q

theorem keeps_onNode {α : Type} {P : ComputeNode → Prop} {m : PyM ComputeNode α} (hm : Keeps P m) :
    Keeps (fun s => P s.node) (onNode m) := by
  intro s hs
  rw [stateOf_onNode]
  exact hm s.node hs

/-- What a tick leaves of the pipes. -/
theorem node_of_tick {env : Surroundings} {s s' : ScalingNode} (h : nodeStep s (.tick env) = some s') :
    s'.node = (stateOf (babySitterTurn env s)).node := by
  rw [nodeStep] at h
  split at h
  · cases hcall : babySitterTurn env s with
    | ok a t =>
      rw [hcall] at h
      obtain rfl := Option.some.inj h
      rfl
    | error e t =>
      rw [hcall] at h
      obtain rfl := Option.some.inj h
      rfl
  · cases h

variable {Q : String → ProcessorController → Prop} (hQ : ∀ key, ProcessorController.Lasting (Q key))
  (hup : ∀ key p pid colour, Q key p → p.NoneLaunched → p.HasRoom → Q key (p.withLaunched pid colour))

include hup in
theorem keepsEvery_checkAutoscale (env : Surroundings) : Keeps (Every Q) (checkAutoscale env) := by
  intro s hs
  rcases checkAutoscale_cases env s with hsame | ⟨name, c, key, p, hc, hp, hnone, hroom, hnode⟩
  · show ComputeNode.Every _ (stateOf (checkAutoscale env s)).node
    rw [hsame]
    exact hs
  · show ComputeNode.Every _ (stateOf (checkAutoscale env s)).node
    rw [hnode]
    have hc' : c.Every Q := ComputeNode.Every.get hs hc
    exact ComputeNode.Every.withPipe hs
      (hc'.withProcessor (hup key p env.pid env.colour (hc'.get hp) hnone hroom))

include hQ in
theorem keepsEvery_babySitterLoop (names : List String) :
    Keeps (Every Q) (onNode (ComputeNode.babySitterLoop names)) := by
  refine keeps_onNode (P := ComputeNode.Every fun _ c => c.Every Q) ?_
  apply ComputeNode.keeps_babySitterLoop
  · exact fun _ _ => ComputeNode.keepsEvery_onPipe (PipeController.keepsEvery_monitorPipe hQ)
  · exact fun _ _ => ComputeNode.keepsEvery_onPipe (keeps_modify fun _ hc => hc)

include hQ hup in
/-- A step keeps a lasting property, when a launch with room keeps it and this step, if it is a START,
does. -/
theorem Every.step {s s' : ScalingNode} {e : NodeEvent} (hs : s.Every Q)
    (hstart : ∀ pipe launched, e = .control pipe .start launched →
      (s.node.processMessage pipe .start launched).Every fun _ c => c.Every Q)
    (hstep : nodeStep s e = some s') : s'.Every Q := by
  have hinstance : ∀ pipe key n m, Keeps (Q key) (ProcessorController.onInstance n m) →
      Keeps (ComputeNode.Every fun _ c => c.Every Q) (atInstance pipe key n m) := by
    intro pipe key n m hm
    exact ComputeNode.keepsEvery_onPipe (PipeController.keepsEvery_onProcessor hm)
  cases e with
  | control pipe action launched =>
    obtain rfl := Option.some.inj hstep
    cases action with
    | start => exact hstart pipe launched rfl
    | pause =>
      have hpause : Keeps (PipeController.Every Q) PipeController.pause := by
        refine keeps_get_bind fun c hc => ?_
        split
        · exact hc
        · exact hc
      exact ComputeNode.keepsEvery_onPipe hpause s.node hs
    | restart | terminate => exact ComputeNode.keepsEvery_onPipe (keeps_pure _) s.node hs
  | register ps pid =>
    obtain rfl := Option.some.inj hstep
    refine ComputeNode.keeps_registerLaunchedInstance (fun r => ?_) s.node hs
    exact hinstance r.pipe r.key r.n _ ((hQ r.key).register r.n ps pid)
  | output pipe key n text line =>
    obtain rfl := Option.some.inj hstep
    exact hinstance pipe key n _ ((hQ key).wrote n text line) s.node hs
  | exit pipe key n code lines =>
    obtain rfl := Option.some.inj hstep
    exact hinstance pipe key n _ ((hQ key).exited n code lines) s.node hs
  | runTask pipe =>
    obtain ⟨c, hc, htask⟩ := Option.bind_eq_some_iff.mp hstep
    obtain ⟨c', hc', rfl⟩ := Option.map_eq_some_iff.mp htask
    have hevery : c.Every Q := ComputeNode.Every.get hs hc
    refine ComputeNode.Every.withPipe hs ?_
    unfold PipeController.runTask at hc'
    split at hc'
    · cases hc'
    · obtain rfl := Option.some.inj hc'
      exact hevery
  | tick env =>
    have hturn : Keeps (Every Q) (babySitterTurn env) := by
      refine keeps_get_bind fun s hs => ?_
      split
      · exact hs
      · exact Keeps.bind (keepsEvery_babySitterLoop hQ _)
          (fun _ => keepsEvery_checkAutoscale hup env) s hs
    rw [Every, node_of_tick hstep]
    exact hturn s hs

end ScalingNode

end Upipe
