import Upipe.Node.Manager.Autoscale

/-!
# A pipe that was never started

A tick of the baby sitter does something only while some pipe is RUNNING, but then it goes through all
pipes: one without instances is taken for a pipe that has ended, and its completion is scheduled
(`turn_completes`). A pipe that got no START is left alone exactly as long as no tick comes to it
(`left_alone_iff`).
-/

namespace Upipe

open Upipe.Common

/-! ## Definitions -/

namespace PipeController

/-- The pipe is as it was loaded, with no change of its status scheduled. -/
structure Untouched (c : PipeController) : Prop where
  ready : c.status = .ready
  unscheduled : c.tasks = []
  empty : ∀ p ∈ c.processors.values, p.instances = []

instance (c : PipeController) : Decidable c.Untouched :=
  decidable_of_iff (c.status = .ready ∧ c.tasks = [] ∧ ∀ p ∈ c.processors.values, p.instances = [])
    ⟨fun h => ⟨h.1, h.2.1, h.2.2⟩, fun h => ⟨h.ready, h.unscheduled, h.empty⟩⟩

/-- A visit of `monitor_pipe` cannot read the output of one of the instances. -/
def Unreadable (c : PipeController) : Prop := ∃ i ∈ c.visitedInstances, ¬ i.readable

instance (c : PipeController) : Decidable c.Unreadable :=
  inferInstanceAs (Decidable (∃ i ∈ _, _))

end PipeController

namespace ComputeNode

/-- The pipes in front of one in the order of their loading. -/
def pipesBefore (node : ComputeNode) (name : String) : List (String × PipeController) :=
  node.pipeControllers.entries.takeWhile fun item => item.1 ≠ name

/-- The pipe is loaded, and `Q` holds of it. -/
def At (name : String) (Q : PipeController → Prop) (node : ComputeNode) : Prop :=
  ∃ c, node.pipeControllers.get? name = some c ∧ Q c

/-- The pipes have just been loaded, with their processors under their ids. -/
def LoadedById (node : ComputeNode) : Prop :=
  ∀ c ∈ node.pipeControllers.values, ∃ pipe : APIPipe, c = PipeController.load pipe ∧
    ∀ item ∈ pipe.processors.entries, item.2.id = item.1

end ComputeNode

namespace ScalingNode

/-- The event is not a START of the pipe. -/
def NotStartOf (name : String) : NodeEvent → Prop
  | .control pipe .start _ => pipe ≠ name
  | _ => True

/-- The step leaves the pipe READY, without instances and with nothing scheduled. -/
def LeftAlone (name : String) (s : ScalingNode) (e : NodeEvent) : Prop :=
  ∀ s', nodeStep s e = some s' → s'.node.At name PipeController.Untouched

/-- The condition on a step: a tick finds no pipe RUNNING, or it ends in front of the pipe. -/
def Spares (name : String) (s : ScalingNode) : NodeEvent → Prop
  | .tick _ => s.sitting → s.node.runningPipesCount = 0 ∨
      ∃ item ∈ s.node.pipesBefore name, item.2.Unreadable
  | _ => True

instance (name : String) (s : ScalingNode) (e : NodeEvent) : Decidable (s.Spares name e) :=
  match e with
  | .tick _ => inferInstanceAs (Decidable (_ → _ ∨ ∃ item ∈ _, _))
  | .control .. | .register .. | .output .. | .exit .. | .runTask .. => isTrue trivial

end ScalingNode

/-! ## One pipe -/

namespace PipeController

variable {c : PipeController}

theorem untouched_load (pipe : APIPipe) : (load pipe).Untouched where
  ready := rfl
  unscheduled := rfl
  empty p hp := by
    rw [load, Dict.values_map] at hp
    obtain ⟨proc, -, rfl⟩ := List.mem_map.mp hp
    rfl

/-- A call on an instance finds none. -/
theorem Untouched.onInstance (h : c.Untouched) (key : String) (n : ℕ) (m : PyM WorkerController Unit) :
    stateOf (onProcessor key (ProcessorController.onInstance n m) c) = c := by
  cases hp : c.processors.get? key with
  | none => exact stateOf_onProcessor_of_none hp
  | some p =>
    have hmem := List.mem_map_of_mem (f := Prod.snd) (c.processors.get?_eq_some_iff.mp hp)
    have hnone : stateOf (ProcessorController.onInstance n m p) = p := by
      rw [ProcessorController.onInstance, h.empty p hmem, List.getElem?_nil]
      rfl
    rw [stateOf_onProcessor hp, hnone, withProcessor_of_get? hp]

theorem Untouched.pause (h : c.Untouched) : stateOf (pause c) = c := by
  have hidle : c.status ≠ .running := by
    rw [h.ready]
    exact PipeExecutionStatus.noConfusion
  rw [PipeController.pause, get_bind_apply, if_pos hidle]
  rfl

theorem Untouched.visitedInstances_eq_nil (h : c.Untouched) : c.visitedInstances = [] := by
  rw [visitedInstances, List.flatMap_eq_nil_iff]
  intro p hp
  rw [h.empty p hp]
  rfl

/-- The instances of the processors are under their ids, and so are those that will be launched. -/
def KeyedById (key : String) (p : ProcessorController) : Prop :=
  p.proc.id = key ∧ ∀ i ∈ p.instances, i.procId = key

theorem steady_keyedById (key : String) : ProcessorController.Steady (KeyedById key) where
  follow p n i i' hp hn hfollow := by
    refine ⟨hp.1, fun j hj => ?_⟩
    rcases List.mem_or_eq_of_mem_set hj with hj | rfl
    · exact hp.2 j hj
    · rw [WorkerController.procId, hfollow.proc_eq]
      exact hp.2 i (List.mem_of_getElem? hn)
  remove p n hp := ⟨hp.1, fun j hj => hp.2 j ((List.eraseIdx_sublist _ n).mem hj)⟩
  status _ _ hp := hp

theorem keyedById_withLaunched {key : String} {p : ProcessorController} (h : KeyedById key p) (pid : ℕ)
    (colour : String) : KeyedById key (p.withLaunched pid colour) := by
  refine ⟨h.1, fun i hi => ?_⟩
  rcases List.mem_append.mp hi with hi | hi
  · exact h.2 i hi
  · rw [List.mem_singleton.mp hi]
    exact h.1

theorem Every.keyed (h : c.Every KeyedById) : c.Keyed :=
  fun item hitem => (h item hitem).2

end PipeController

/-! ## The pipes in front -/

namespace ComputeNode

variable {node : ComputeNode} {name : String} {c : PipeController}

theorem At.withPipe {Q : PipeController → Prop} (h : node.At name Q) {other : String}
    {c : PipeController} (hc : other = name → Q c) : (node.withPipe other c).At name Q := by
  obtain ⟨d, hd, hQ⟩ := h
  by_cases heq : other = name
  · subst heq
    exact ⟨c, node.pipeControllers.get?_set_self other c, hc rfl⟩
  · exact ⟨d, (node.pipeControllers.get?_set_of_ne c (Ne.symm heq)).trans hd, hQ⟩

theorem keepsAt_onPipe {α : Type} {Q : PipeController → Prop} {other : String}
    {m : PyM PipeController α} (hm : other = name → Keeps Q m) :
    Keeps (At name Q) (onPipe other m) := by
  intro node hnode
  cases hget : node.pipeControllers.get? other with
  | none =>
    rw [stateOf_onPipe_of_none hget]
    exact hnode
  | some c =>
    rw [stateOf_onPipe hget]
    apply hnode.withPipe
    rintro rfl
    obtain ⟨d, hd, hQ⟩ := hnode
    obtain rfl := Option.some.inj (hget.symm.trans hd)
    exact hm rfl c hQ

/-- The turn of one pipe changes this pipe only, and ends the tick when some output cannot be read. -/
theorem turn_cases (hget : node.pipeControllers.get? name = some c) (hkeyed : c.Keyed)
    (names : List String) :
    (¬ c.Unreadable ∧ ∃ c', babySitterLoop (name :: names) node
        = babySitterLoop names (node.withPipe name c'))
    ∨ (c.Unreadable ∧ ∃ e c', babySitterLoop (name :: names) node = .error e (node.withPipe name c')) := by
  rw [babySitterLoop, monitorPipe]
  have hread : c.Unreadable ↔ ¬ ∀ i ∈ c.visitedInstances, i.readable := by
    rw [PipeController.Unreadable]
    push Not
    rfl
  rcases hkeyed.monitorPipe_counts with ⟨hall, c', hcall, -⟩ | ⟨hnot, e, c', hcall⟩
  · left
    refine ⟨fun h => hread.mp h hall, ?_⟩
    rw [bind_ok (onPipe_ok hget hcall)]
    split
    · have hclean : onPipe name PipeController.cleanup (node.withPipe name c')
          = .ok () (node.withPipe name (PipeController.schedule .completed c')) := onPipe_withPipe rfl
      exact ⟨_, bind_ok hclean⟩
    · exact ⟨c', rfl⟩
  · right
    have herror : onPipe name PipeController.monitorPipe node = .error e (node.withPipe name c') := by
      rw [onPipe, hget]
      simp only [hcall]
      rfl
    exact ⟨hread.mpr hnot, e, c', bind_error herror⟩

/-- The loop comes past pipes whose output can be read, and ends at one where it cannot. Either way it
changes none but these. -/
theorem front_cases {front : List (String × PipeController)} (hnodup : (front.map Prod.fst).Nodup)
    (hget : ∀ item ∈ front, node.pipeControllers.get? item.1 = some item.2)
    (hkeyed : ∀ item ∈ front, item.2.Keyed) (names : List String) :
    ∃ node', (∀ key ∉ front.map Prod.fst, node'.pipeControllers.get? key = node.pipeControllers.get? key)
      ∧ (((∀ item ∈ front, ¬ item.2.Unreadable)
          ∧ babySitterLoop (front.map Prod.fst ++ names) node = babySitterLoop names node')
        ∨ ((∃ item ∈ front, item.2.Unreadable)
          ∧ ∃ e, babySitterLoop (front.map Prod.fst ++ names) node = .error e node')) := by
  induction front generalizing node with
  | nil => exact ⟨node, fun _ _ => rfl, Or.inl ⟨fun _ hitem => (nomatch hitem), rfl⟩⟩
  | cons item front ih =>
    obtain ⟨name, c⟩ := item
    rw [List.map_cons, List.nodup_cons] at hnodup
    have hother : ∀ c' key, key ≠ name →
        (node.withPipe name c').pipeControllers.get? key = node.pipeControllers.get? key :=
      fun c' _ hne => node.pipeControllers.get?_set_of_ne c' hne
    rw [List.map_cons, List.cons_append]
    rcases turn_cases (hget (name, c) List.mem_cons_self) (hkeyed (name, c) List.mem_cons_self)
        (front.map Prod.fst ++ names) with ⟨hread, c', hturn⟩ | ⟨hunread, e, c', hturn⟩
    · have hget' : ∀ item ∈ front,
          (node.withPipe name c').pipeControllers.get? item.1 = some item.2 := by
        intro item hitem
        rw [hother c' item.1, hget item (List.mem_cons_of_mem _ hitem)]
        intro heq
        have hmem := List.mem_map_of_mem (f := Prod.fst) hitem
        exact hnodup.1 (heq ▸ hmem)
      obtain ⟨node', hsame, hcases⟩ := ih hnodup.2 hget'
        fun item hitem => hkeyed item (List.mem_cons_of_mem _ hitem)
      refine ⟨node', ?_, ?_⟩
      · intro key hkey
        obtain ⟨hne, hkey⟩ := not_or.mp (mt List.mem_cons.mpr hkey)
        rw [hsame key hkey, hother c' key hne]
      · rw [hturn, List.forall_mem_cons, and_iff_right hread, List.exists_mem_cons_iff,
          or_iff_right hread]
        exact hcases
    · refine ⟨node.withPipe name c', ?_, Or.inr ⟨?_, e, hturn⟩⟩
      · exact fun key hkey => hother c' key (not_or.mp (mt List.mem_cons.mpr hkey)).1
      · exact ⟨(name, c), List.mem_cons_self, hunread⟩

/-- The turn of a pipe without instances completes it. -/
theorem turn_completes (hget : node.pipeControllers.get? name = some c) (hkeyed : c.Keyed)
    (h : c.Untouched) (names : List String) :
    ∃ c', c'.tasks = [.completed] ∧ babySitterLoop (name :: names) node
      = babySitterLoop names (node.withPipe name c') := by
  have hcounts := hkeyed.monitorPipe_counts
  rw [h.visitedInstances_eq_nil] at hcounts
  rcases hcounts with ⟨-, c', hcall, htasks⟩ | ⟨hnot, -⟩
  · refine ⟨PipeController.schedule .completed c', ?_, ?_⟩
    · rw [PipeController.schedule, htasks, h.unscheduled]
      rfl
    · rw [babySitterLoop, monitorPipe, bind_ok (onPipe_ok hget hcall)]
      have hclean : onPipe name PipeController.cleanup (node.withPipe name c')
          = .ok () (node.withPipe name (PipeController.schedule .completed c')) := onPipe_withPipe rfl
      exact bind_ok hclean
  · exact absurd (fun _ hi => absurd hi List.not_mem_nil) hnot

end ComputeNode

namespace ScalingNode

variable {s s' : ScalingNode} {name : String} {c : PipeController}

/-! ## Ticks -/

theorem onNode_congr {α : Type} {m m' : PyM ComputeNode α} {node : ComputeNode}
    (h : m s.node = m' node) : onNode m s = onNode m' { s with node := node } := by
  rw [onNode, onNode, h]

/-- Scaling schedules no change of a status. -/
theorem keepsAt_checkAutoscale (env : Surroundings) (tasks : List PipeExecutionStatus) :
    Keeps (fun s => s.node.At name fun c => c.tasks = tasks) (checkAutoscale env) := by
  intro s hs
  show ComputeNode.At _ _ (stateOf (checkAutoscale env s)).node
  rcases checkAutoscale_cases env s with hsame | ⟨other, c, key, p, hc, -, -, -, hnode⟩
  · rw [hsame]
    exact hs
  · rw [hnode]
    apply ComputeNode.At.withPipe hs
    rintro rfl
    obtain ⟨d, hd, htasks⟩ := hs
    obtain rfl := Option.some.inj (hc.symm.trans hd)
    exact htasks

/-- The names of the pipes: those in front of a pipe, its own, and others. -/
theorem ComputeNode.keys_split {n : ComputeNode} (hget : n.pipeControllers.get? name = some c) :
    ∃ rest, n.pipeControllers.keys = (n.pipesBefore name).map Prod.fst ++ name :: rest ∧
      ((n.pipesBefore name).map Prod.fst).Nodup ∧ name ∉ (n.pipesBefore name).map Prod.fst ∧ name ∉ rest := by
  obtain ⟨rest, hentries⟩ := n.pipeControllers.entries_split hget
  have hkeys : n.pipeControllers.keys = (n.pipesBefore name).map Prod.fst ++ name :: rest.map Prod.fst := by
    rw [Dict.keys, hentries, List.map_append, List.map_cons]
    rfl
  have hnodup := n.pipeControllers.nodup
  rw [← Dict.keys, hkeys, List.nodup_append'] at hnodup
  obtain ⟨hnodup, hnodup', hdisjoint⟩ := hnodup
  exact ⟨_, hkeys, hnodup, fun hmem => hdisjoint hmem List.mem_cons_self, (List.nodup_cons.mp hnodup').1⟩

/-- A tick leaves an untouched pipe as it is exactly when it does not come to it. -/
theorem untouched_tick_iff {env : Surroundings} (hget : s.node.pipeControllers.get? name = some c)
    (h : c.Untouched) (hkeyed : s.Every PipeController.KeyedById)
    (hstep : nodeStep s (.tick env) = some s') :
    s'.node.At name PipeController.Untouched ↔ s.node.runningPipesCount = 0 ∨
      ∃ item ∈ s.node.pipesBefore name, item.2.Unreadable := by
  rw [node_of_tick hstep, babySitterTurn, get_bind_apply]
  by_cases hcount : s.node.runningPipesCount = 0
  · rw [if_pos hcount]
    exact iff_of_true ⟨c, hget, h⟩ (Or.inl hcount)
  rw [if_neg hcount, or_iff_right hcount]
  obtain ⟨rest, hkeys, hnodup, hfront, hname⟩ := ComputeNode.keys_split hget
  have hbefore : ∀ item ∈ s.node.pipesBefore name, item ∈ s.node.pipeControllers.entries :=
    fun item hitem => (List.takeWhile_sublist _).mem hitem
  obtain ⟨node', hsame, hcases⟩ := ComputeNode.front_cases hnodup
    (fun item hitem => s.node.pipeControllers.get?_eq_some_iff.mpr (hbefore item hitem))
    (fun item hitem => PipeController.Every.keyed (hkeyed item (hbefore item hitem)))
    (name :: rest)
  rw [← hkeys] at hcases
  have hget' : node'.pipeControllers.get? name = some c := by
    rw [hsame name hfront, hget]
  rcases hcases with ⟨hread, hloop⟩ | ⟨hunread, e, hloop⟩
  · obtain ⟨c', htasks, hturn⟩ := ComputeNode.turn_completes hget'
      (PipeController.Every.keyed (ComputeNode.Every.get hkeyed hget)) h rest
    rw [hturn] at hloop
    -- what is left of the tick does not come to the pipe again
    have hrest : Keeps (fun s => s.node.At name fun c => c.tasks = [.completed])
        (onNode (ComputeNode.babySitterLoop rest) >>= fun _ => checkAutoscale env) := by
      refine Keeps.bind (keeps_onNode (ComputeNode.keeps_babySitterLoop ?_ ?_))
        fun _ => keepsAt_checkAutoscale env _
      · rintro other hother
        exact ComputeNode.keepsAt_onPipe fun heq => absurd (heq ▸ hother) hname
      · rintro other hother
        exact ComputeNode.keepsAt_onPipe fun heq => absurd (heq ▸ hother) hname
    rw [bind_congr_first _ (onNode_congr hloop)]
    have hend := hrest { s with node := node'.withPipe name c' }
      ⟨c', node'.pipeControllers.get?_set_self name c', htasks⟩
    refine iff_of_false ?_ ?_
    · rintro ⟨d, hd, huntouched⟩
      obtain ⟨d', hd', htasks'⟩ := hend
      obtain rfl := Option.some.inj (hd.symm.trans hd')
      rw [huntouched.unscheduled] at htasks'
      cases htasks'
    · rintro ⟨item, hitem, hunread⟩
      exact hread item hitem hunread
  · have herror : onNode (ComputeNode.babySitterLoop s.node.pipeControllers.keys) s
        = .error e { s with node := node' } := by
      rw [onNode, hloop]
    rw [bind_error herror]
    exact iff_of_true ⟨c, hget', h⟩ hunread

/-! ## Runs -/

/-- The pipe is untouched, and all instances are under their ids. -/
structure Sparing (name : String) (s : ScalingNode) : Prop where
  untouched : s.node.At name PipeController.Untouched
  keyed : s.Every PipeController.KeyedById

theorem sparing_of_loaded (hloaded : s.node.LoadedById) (hname : name ∈ s.node.pipeControllers.keys) :
    s.Sparing name where
  untouched := by
    obtain ⟨c, hc⟩ := Option.ne_none_iff_exists'.mp
      (mt s.node.pipeControllers.get?_eq_none_iff.mp (not_not_intro hname))
    have hmem := List.mem_map_of_mem (f := Prod.snd) (s.node.pipeControllers.get?_eq_some_iff.mp hc)
    obtain ⟨pipe, rfl, -⟩ := hloaded c hmem
    exact ⟨_, hc, PipeController.untouched_load pipe⟩
  keyed item hitem := by
    obtain ⟨pipe, hpipe, hids⟩ := hloaded item.2 (List.mem_map_of_mem (f := Prod.snd) hitem)
    rw [hpipe]
    intro item' hitem'
    obtain ⟨⟨key, proc⟩, hproc, rfl⟩ := List.mem_map.mp hitem'
    exact ⟨hids (key, proc) hproc, fun _ hi => nomatch hi⟩

variable {e : NodeEvent}

theorem Sparing.keyed_step (h : s.Sparing name) (hstep : nodeStep s e = some s') :
    s'.Every PipeController.KeyedById := by
  refine h.keyed.step (fun key => (PipeController.steady_keyedById key).lasting) ?_ ?_ hstep
  · exact fun _ _ pid colour hp _ _ => PipeController.keyedById_withLaunched hp pid colour
  · intro pipe launched _
    have hlaunched : Keeps (PipeController.Every PipeController.KeyedById)
        (PipeController.start launched) :=
      PipeController.keepsEvery_start launched
        fun _ _ pid colour hp => PipeController.keyedById_withLaunched hp pid colour
    exact ComputeNode.keepsEvery_onPipe hlaunched s.node h.keyed

/-- A tick leaves the pipe alone exactly when the baby sitter is gone or does not come to it. -/
theorem leftAlone_tick_iff {env : Surroundings} (h : s.Sparing name) :
    s.LeftAlone name (.tick env) ↔ s.Spares name (.tick env) := by
  unfold LeftAlone
  obtain ⟨c, hget, huntouched⟩ := h.untouched
  constructor
  · intro hleft hsitting
    have hstep : ∃ s', nodeStep s (.tick env) = some s' := by
      rw [nodeStep, if_pos hsitting]
      cases babySitterTurn env s with
      | ok a t => exact ⟨t, rfl⟩
      | error e t => exact ⟨_, rfl⟩
    obtain ⟨s', hstep⟩ := hstep
    exact (untouched_tick_iff hget huntouched h.keyed hstep).mp (hleft s' hstep)
  · intro hspares s' hstep
    have hsitting : s.sitting := by
      by_contra hdead
      rw [nodeStep, if_neg hdead] at hstep
      cases hstep
    exact (untouched_tick_iff hget huntouched h.keyed hstep).mpr (hspares hsitting)

theorem leftAlone_iff (h : s.Sparing name) (hevent : NotStartOf name e) :
    s.LeftAlone name e ↔ s.Spares name e := by
  have hinstance : ∀ pipe key n m, Keeps (ComputeNode.At name PipeController.Untouched)
      (atInstance pipe key n m) := by
    intro pipe key n m
    refine ComputeNode.keepsAt_onPipe fun _ c hc => ?_
    rw [hc.onInstance]
    exact hc
  unfold LeftAlone
  cases e with
  | control pipe action launched =>
    refine iff_of_true ?_ trivial
    intro s' hstep
    obtain rfl := Option.some.inj hstep
    refine ComputeNode.keepsAt_onPipe ?_ s.node h.untouched
    intro heq
    cases action with
    | start => exact absurd heq hevent
    | pause =>
      intro c hc
      show PipeController.Untouched (stateOf (PipeController.pause c))
      rw [hc.pause]
      exact hc
    | restart | terminate => exact keeps_pure _
  | register ps pid =>
    refine iff_of_true ?_ trivial
    intro s' hstep
    obtain rfl := Option.some.inj hstep
    exact ComputeNode.keeps_registerLaunchedInstance (fun r => hinstance r.pipe r.key r.n _) s.node
      h.untouched
  | output pipe key n text line =>
    refine iff_of_true ?_ trivial
    intro s' hstep
    obtain rfl := Option.some.inj hstep
    exact hinstance pipe key n _ s.node h.untouched
  | exit pipe key n code lines =>
    refine iff_of_true ?_ trivial
    intro s' hstep
    obtain rfl := Option.some.inj hstep
    exact hinstance pipe key n _ s.node h.untouched
  | runTask pipe =>
    refine iff_of_true ?_ trivial
    intro s' hstep
    obtain ⟨c, hc, htask⟩ := Option.bind_eq_some_iff.mp hstep
    obtain ⟨c', hc', rfl⟩ := Option.map_eq_some_iff.mp htask
    apply h.untouched.withPipe
    rintro rfl
    -- nothing is scheduled for the pipe itself
    obtain ⟨d, hd, huntouched⟩ := h.untouched
    obtain rfl := Option.some.inj (hc.symm.trans hd)
    rw [PipeController.runTask, huntouched.unscheduled] at hc'
    cases hc'
  | tick env => exact leftAlone_tick_iff h

/-- A pipe without a START is left alone along a run exactly when no tick of the run comes to it. -/
theorem left_alone_iff (hloaded : s.node.LoadedById) (hname : name ∈ s.node.pipeControllers.keys)
    {events : List NodeEvent} (hevents : ∀ e ∈ events, NotStartOf name e) :
    Along nodeStep (LeftAlone name) s events ↔ Along nodeStep (Spares name) s events :=
  Along.iff_of_kept (Sparing name)
    (fun _ _ _ s' hs hleft hstep => ⟨hleft s' hstep, hs.keyed_step hstep⟩)
    (fun _ e he hs => leftAlone_iff hs (hevents e he)) (sparing_of_loaded hloaded hname)

/-! ## Two pipes, one of them started -/

/-- A node with two pipes, just loaded. -/
def twoLoaded : ScalingNode where
  node := ⟨(Dict.empty.set "main" (PipeController.load APIPipe.oneChild)).set "other"
    (PipeController.load { APIPipe.oneChild with id := "other", name := "other" })⟩
  lastScaleTime := 0
  sitting := true

theorem twoLoaded_loadedById : twoLoaded.node.LoadedById := by
  intro c hc
  have hc : c = PipeController.load APIPipe.oneChild ∨
      c = PipeController.load { APIPipe.oneChild with id := "other", name := "other" } := by
    simpa [twoLoaded, Dict.values, Dict.set, Dict.keys, Dict.empty] using hc
  rcases hc with rfl | rfl
  · exact ⟨_, rfl, by decide⟩
  · exact ⟨_, rfl, by decide⟩

/-- `main` is started, registers, is paused again, and the node ticks. -/
def pausedRun (env : Surroundings) : List NodeEvent :=
  [.control "main" .start fun _ => (7, ""), .register (fun _ => .ok []) 7, .runTask "main",
    .control "main" .pause fun _ => (7, ""), .runTask "main", .tick env]

/-- `main` is started, registers, and the node ticks while it runs. -/
def runningRun (env : Surroundings) : List NodeEvent :=
  [.control "main" .start fun _ => (7, ""), .register (fun _ => .ok []) 7, .runTask "main", .tick env]

def calm : Surroundings where
  now := 10000
  usage := .ok (0, 0)
  pending _ _ := 0
  pid := 8
  colour := ""

theorem left_alone_paused : Along nodeStep (LeftAlone "other") twoLoaded (pausedRun calm) :=
  (left_alone_iff twoLoaded_loadedById (by decide +kernel) (by simp [pausedRun, NotStartOf])).mpr
    (by decide +kernel)

/-- A tick while `main` is RUNNING completes `other`, which was never started, and launches an instance
of it. -/
theorem tick_touches_unstarted_pipe :
    twoLoaded.node.LoadedById ∧ (∀ e ∈ runningRun calm ++ [.runTask "other"], NotStartOf "other" e) ∧
      (∃ s, runFrom nodeStep twoLoaded (runningRun calm ++ [.runTask "other"]) = some s ∧
        s.node.At "other" fun c =>
          c.status = .completed ∧ ∃ p ∈ c.processors.values, p.instances ≠ []) ∧
      ¬ Along nodeStep (LeftAlone "other") twoLoaded (runningRun calm ++ [.runTask "other"]) := by
  have hrun : (runFrom nodeStep twoLoaded (runningRun calm)).any (fun t =>
      (nodeStep t (.runTask "other")).any fun s => (s.node.pipeControllers.get? "other").any fun c =>
        decide (c.status = .completed ∧ ∃ p ∈ c.processors.values, p.instances ≠ [])) = true := by
    decide +kernel
  obtain ⟨t, ht, hrun⟩ := (Option.any_eq_true _ _).mp hrun
  obtain ⟨s, hs, hrun⟩ := (Option.any_eq_true _ _).mp hrun
  obtain ⟨c, hc, htouched⟩ := (Option.any_eq_true _ _).mp hrun
  have htouched := of_decide_eq_true htouched
  refine ⟨twoLoaded_loadedById, by simp [runningRun, NotStartOf], ⟨s, ?_, c, hc, htouched⟩, ?_⟩
  · rw [runFrom_append, ht]
    show (nodeStep t (.runTask "other")).bind some = some s
    rw [hs, Option.bind_some]
  · intro h
    obtain ⟨c', hc', huntouched⟩ := h.last ht s hs
    obtain rfl := Option.some.inj (hc.symm.trans hc')
    rw [huntouched.ready] at htouched
    cases htouched.1

end ScalingNode

end Upipe
