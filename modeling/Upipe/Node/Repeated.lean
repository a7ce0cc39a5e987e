import Upipe.Node.Manager.Untouched
import Upipe.Node.Reachable

/-!
# Calls that are repeated

A notice of termination finds the same instance again and marks it DONE again, so it changes nothing unless
the pipe has become PENDING_TERMINATION since. A registration finds its instance READY, and raises.
-/

namespace Upipe

open Upipe.Common

/-! ## A notice, again -/

namespace ProcessorController

variable {ps : ℕ → Except PyError (List ℕ)} {pid : ℕ} {p p' : ProcessorController}

/-- The lookup reads nothing but the pids. -/
theorem findByPid_congr {xs ys : List WorkerController}
    (h : xs.map WorkerController.pid = ys.map WorkerController.pid) : findByPid ps pid xs = findByPid ps pid ys := by
  induction xs generalizing ys with
  | nil =>
    rw [List.map_nil, List.nil_eq, List.map_eq_nil_iff] at h
    rw [h]
  | cons x xs ih =>
    cases ys with
    | nil => cases h
    | cons y ys =>
      obtain ⟨hpid, hrest⟩ := List.cons.inj h
      rw [findByPid, findByPid, ih hrest, hpid, WorkerController.isChildProcess, WorkerController.isChildProcess,
        hpid]

theorem map_pid_markDone (found : Option ℕ) (xs : List WorkerController) :
    (markDone found xs).map WorkerController.pid = xs.map WorkerController.pid := by
  apply List.ext_getElem?
  intro n
  rw [List.getElem?_map, List.getElem?_map, getElem?_markDone]
  cases xs[n]? with
  | none => rfl
  | some i =>
    rw [Option.map_some, Option.map_some, Option.map_some]
    split
    · rfl
    · rfl

theorem markDone_markDone (found : Option ℕ) (xs : List WorkerController) :
    markDone found (markDone found xs) = markDone found xs := by
  apply List.ext_getElem?
  intro n
  rw [getElem?_markDone, getElem?_markDone]
  cases xs[n]? with
  | none => rfl
  | some i =>
    rw [Option.map_some, Option.map_some]
    split
    · rfl
    · rfl

/-- The processor after a notice for the instance found. -/
def noticed (found : Option ℕ) (p : ProcessorController) : ProcessorController :=
  let p := { p with instances := markDone found p.instances }
  if p.pendingTermination ∧ p.runningInstances = [] then { p with status := .completed } else p

theorem notifyTermination_eq {found : Option ℕ} (h : findByPid ps pid p.instances = .ok found) :
    ∃ last, notifyTermination ps pid p = .ok last (p.noticed found) := by
  have hstep : ∀ q : ProcessorController, ∃ last,
      (if q.pendingTermination = true ∧ q.runningInstances = [] then do set { q with status := .completed }; pure true
        else pure false : PyM ProcessorController Bool) q
          = .ok last (if q.pendingTermination ∧ q.runningInstances = [] then { q with status := .completed } else q) := by
    intro q
    split
    · exact ⟨true, rfl⟩
    · exact ⟨false, rfl⟩
  rw [notifyTermination, get_bind_apply, h]
  cases found with
  | none => exact hstep p
  | some n => exact hstep { p with instances := p.instances.modify n WorkerController.notifyTermination }

theorem noticed_noticed (found : Option ℕ) (p : ProcessorController) :
    (p.noticed found).noticed found = p.noticed found := by
  unfold noticed
  dsimp only
  by_cases hpending : ({ p with instances := markDone found p.instances } : ProcessorController).pendingTermination
      ∧ ({ p with instances := markDone found p.instances } : ProcessorController).runningInstances = []
  · rw [if_pos hpending]
    simp only [markDone_markDone]
    rw [if_neg fun h => Bool.noConfusion (show false = true from h.1)]
  · rw [if_neg hpending]
    simp only [markDone_markDone]
    rw [if_neg hpending]

theorem instances_noticed (found : Option ℕ) (p : ProcessorController) :
    (p.noticed found).instances = markDone found p.instances := by
  unfold noticed
  dsimp only
  split
  · rfl
  · rfl

/-- A notice finds the same instance again, and nothing to change. -/
theorem notifyTermination_again {last : Bool} (h : notifyTermination ps pid p = .ok last p') :
    ∃ last', notifyTermination ps pid p' = .ok last' p' := by
  cases hfound : findByPid ps pid p.instances with
  | error e =>
    rw [notifyTermination_error hfound] at h
    cases h
  | ok found =>
    obtain ⟨last', heq⟩ := notifyTermination_eq hfound
    rw [heq] at h
    obtain ⟨-, rfl⟩ := EStateM.Result.ok.inj h
    have hagain : findByPid ps pid (p.noticed found).instances = .ok found := by
      rw [instances_noticed, findByPid_congr (map_pid_markDone found p.instances), hfound]
    obtain ⟨last'', heq'⟩ := notifyTermination_eq hagain
    rw [noticed_noticed] at heq'
    exact ⟨last'', heq'⟩

end ProcessorController

namespace PipeController

variable {host : Host} {pid : ℕ} {procId : String} {c c' : PipeController}

/-- The pipe of another processor is left alone. -/
theorem notice_of_not_mem (hmem : procId ∉ c.processors.keys) : notice host pid procId c = .ok () c := by
  have hcontains : ¬ c.processors.contains procId = true := fun h => hmem (of_decide_eq_true h)
  rw [notice, get_bind_apply, if_neg hcontains]
  rfl

/-- The pipe of the processor passes the notice on to it, and goes on with its own termination. -/
theorem notice_of_mem (hmem : procId ∈ c.processors.keys) : notice host pid procId c
    = (onProcessor procId (ProcessorController.notifyTermination host.ps pid) >>= fun _ => do
        let c ← get
        if c.pendingTermination then PipeController.terminateNextProcessor host.drainList else pure ()) c := by
  have hcontains : c.processors.contains procId = true := decide_eq_true hmem
  rw [notice, get_bind_apply, if_pos hcontains, notifyTermination, get_bind_apply, if_pos hcontains]

/-- A notice that the processor does not take changes nothing. -/
theorem notice_error {p : ProcessorController} {e : PyError} (hp : c.processors.get? procId = some p)
    (h : ProcessorController.findByPid host.ps pid p.instances = .error e) :
    notice host pid procId c = .error e c := by
  have hon : onProcessor procId (ProcessorController.notifyTermination host.ps pid) c = .error e c := by
    rw [onProcessor_error hp (ProcessorController.notifyTermination_error h), withProcessor_of_get? hp]
  rw [notice_of_mem (Dict.mem_keys_of_get? _ hp)]
  exact bind_error hon

/-- After a notice that the processor has taken, a pipe that is PENDING_TERMINATION goes on to terminate. -/
theorem notice_taken {p p' : ProcessorController} {last : Bool} (hp : c.processors.get? procId = some p)
    (hcall : ProcessorController.notifyTermination host.ps pid p = .ok last p')
    (hnone : (c.withProcessor procId p').NoneRunning) :
    if c.status = .pendingTermination then
      notice host pid procId c = .ok () (schedule .completed (c.withProcessor procId p')) ∨
        ∃ e, notice host pid procId c = .error e (c.withProcessor procId p')
    else notice host pid procId c = .ok () (c.withProcessor procId p') := by
  rw [notice_of_mem (Dict.mem_keys_of_get? _ hp), bind_ok (onProcessor_ok hp hcall), get_bind_apply]
  by_cases hpending : c.status = .pendingTermination
  · have hafter : (c.withProcessor procId p').pendingTermination = true := decide_eq_true hpending
    rw [if_pos hpending, if_pos hafter]
    exact hnone.terminateNextProcessor host.drainList
  · have hafter : ¬ (c.withProcessor procId p').pendingTermination = true := fun h => hpending (of_decide_eq_true h)
    rw [if_neg hpending, if_neg hafter]
    rfl

/-- A notice to the pipe of the processor. -/
theorem notice_cases (host : Host) (pid : ℕ) (h : c.NoneRunning) (hmem : procId ∈ c.processors.keys) :
    (∃ e p p', c.processors.get? procId = some p ∧
      ProcessorController.notifyTermination host.ps pid p = .error e p' ∧ notice host pid procId c = .error e c) ∨
    ∃ p last p', c.processors.get? procId = some p ∧
      ProcessorController.notifyTermination host.ps pid p = .ok last p' ∧ (c.withProcessor procId p').NoneRunning ∧
      if c.status = .pendingTermination then
        notice host pid procId c = .ok () (schedule .completed (c.withProcessor procId p')) ∨
          ∃ e, notice host pid procId c = .error e (c.withProcessor procId p')
      else notice host pid procId c = .ok () (c.withProcessor procId p') := by
  obtain ⟨p, hp⟩ := Option.ne_none_iff_exists'.mp (mt c.processors.get?_eq_none_iff.mp (not_not_intro hmem))
  cases hfound : ProcessorController.findByPid host.ps pid p.instances with
  | error e =>
    exact Or.inl ⟨e, p, p, hp, ProcessorController.notifyTermination_error hfound, notice_error hp hfound⟩
  | ok found =>
    obtain ⟨last, hcall⟩ := ProcessorController.notifyTermination_eq hfound
    have hidle : (p.noticed found).Idle := by
      have hkept := ProcessorController.keeps_notifyTermination host.ps pid p (Every.get h hp)
      rwa [hcall] at hkept
    have hnone : (c.withProcessor procId (p.noticed found)).NoneRunning := Every.withProcessor h hidle
    exact Or.inr ⟨p, last, p.noticed found, hp, hcall, hnone, notice_taken hp hcall hnone⟩

/-- What a notice that returns leaves. -/
theorem notice_ok (h : c.NoneRunning) (hmem : procId ∈ c.processors.keys)
    (hok : notice host pid procId c = .ok () c') : ∃ p last p', c.processors.get? procId = some p ∧
      ProcessorController.notifyTermination host.ps pid p = .ok last p' ∧
      c'.processors = c.processors.set procId p' ∧ c'.status = c.status ∧ c'.NoneRunning ∧
      c'.tasks = if c.status = .pendingTermination then c.tasks ++ [.completed] else c.tasks := by
  rcases notice_cases host pid h hmem with ⟨e, p, p', -, -, hnotice⟩ |
    ⟨p, last, p', hp, hcall, hnone, hnotice⟩
  · rw [hnotice] at hok
    cases hok
  · refine ⟨p, last, p', hp, hcall, ?_⟩
    by_cases hpending : c.status = .pendingTermination
    · rw [if_pos hpending] at hnotice
      rcases hnotice with hnotice | ⟨e, hnotice⟩
      · rw [hnotice] at hok
        obtain ⟨-, rfl⟩ := EStateM.Result.ok.inj hok
        rw [if_pos hpending]
        exact ⟨rfl, rfl, hnone, rfl⟩
      · rw [hnotice] at hok
        cases hok
    · rw [if_neg hpending] at hnotice
      rw [hnotice] at hok
      obtain ⟨-, rfl⟩ := EStateM.Result.ok.inj hok
      rw [if_neg hpending]
      exact ⟨rfl, rfl, hnone, rfl⟩

/-- A notice changes nothing any more when it comes again, unless the pipe has become PENDING_TERMINATION. -/
theorem notice_again (h : c.NoneRunning) (hok : notice host pid procId c = .ok () c')
    (hstatus : procId ∈ c.processors.keys → c'.settle.status ≠ .pendingTermination) :
    notice host pid procId c'.settle = .ok () c'.settle := by
  by_cases hmem : procId ∈ c.processors.keys
  · obtain ⟨p, last, p', hp, hcall, hprocessors, -, hnone, -⟩ := notice_ok h hmem hok
    obtain ⟨last', hagain⟩ := ProcessorController.notifyTermination_again hcall
    have hget : c'.settle.processors.get? procId = some p' := by
      show c'.processors.get? procId = some p'
      rw [hprocessors, Dict.get?_set_self]
    have hnone' : c'.settle.NoneRunning := hnone
    rcases notice_cases host pid hnone' (Dict.mem_keys_of_get? _ hget) with
      ⟨e, q, q', hq, hqcall, -⟩ | ⟨q, last'', q', hq, hqcall, -, hnotice⟩
    · obtain rfl := Option.some.inj (hget.symm.trans hq)
      rw [hagain] at hqcall
      cases hqcall
    · obtain rfl := Option.some.inj (hget.symm.trans hq)
      rw [hagain] at hqcall
      obtain ⟨-, rfl⟩ := EStateM.Result.ok.inj hqcall
      rw [if_neg (hstatus hmem), withProcessor_of_get? hget] at hnotice
      exact hnotice
  · rw [notice_of_not_mem hmem] at hok
    obtain ⟨-, rfl⟩ := EStateM.Result.ok.inj hok
    exact notice_of_not_mem hmem

/-- The status after a notice and the event loop: PENDING_TERMINATION only if a task made it so. -/
theorem settle_status_eq_pending_iff (h : c.NoneRunning) (hmem : procId ∈ c.processors.keys)
    (hok : notice host pid procId c = .ok () c') : c'.settle.status = .pendingTermination ↔
      c.tasks.getLast? = some .pendingTermination ∧ c.status ≠ .pendingTermination := by
  obtain ⟨-, -, -, -, -, -, hstatus, -, htasks⟩ := notice_ok h hmem hok
  show c'.tasks.getLast?.getD c'.status = _ ↔ _
  rw [hstatus, htasks]
  by_cases hpending : c.status = .pendingTermination
  · rw [if_pos hpending, List.getLast?_concat]
    exact iff_of_false PipeExecutionStatus.noConfusion fun hlast => hlast.2 hpending
  · rw [if_neg hpending, and_iff_left hpending]
    cases c.tasks.getLast? with
    | none => exact iff_of_false hpending fun hlast => by cases hlast
    | some status => exact Option.some_inj.symm

/-- The pipe has begun to terminate, and the processor's instances are not RUNNING. -/
structure Begun (procId : String) (c : PipeController) : Prop where
  mem : procId ∈ c.processors.keys
  noneRunning : c.NoneRunning
  status : c.status = .pendingTermination ∨ c.status = .completed
  tasks : ∀ status ∈ c.tasks, status = .completed

theorem keeps_begun_notice : Keeps (Begun procId) (notice host pid procId) := by
  intro c hc
  rcases notice_cases host pid hc.noneRunning hc.mem with ⟨e, p, p', -, -, hnotice⟩ |
    ⟨p, last, p', hp, hcall, hnone, hnotice⟩
  · rw [hnotice]
    exact hc
  · have hwith : Begun procId (c.withProcessor procId p') :=
      { hc with mem := (Dict.mem_keys_set _).mpr (Or.inl rfl), noneRunning := hnone }
    split at hnotice
    · rcases hnotice with hnotice | ⟨e, hnotice⟩
      · rw [hnotice]
        refine { hwith with tasks := ?_ }
        intro status hstatus
        rcases List.mem_append.mp hstatus with hstatus | hstatus
        · exact hwith.tasks status hstatus
        · exact List.mem_singleton.mp hstatus
      · rw [hnotice]
        exact hwith
    · rw [hnotice]
      exact hwith

theorem Begun.settle (h : c.Begun procId) : c.settle.Begun procId := by
  refine { mem := h.mem, noneRunning := h.noneRunning, status := ?_, tasks := fun _ hstatus => ?_ }
  · show c.tasks.getLast?.getD c.status = _ ∨ c.tasks.getLast?.getD c.status = _
    cases hlast : c.tasks.getLast? with
    | none => exact h.status
    | some status => exact Or.inr (h.tasks status (List.mem_of_getLast? hlast))
  · cases hstatus

/-- A notice that returns completes such a pipe. -/
theorem Begun.completed (h : c.Begun procId) (hempty : c.tasks = []) (hok : notice host pid procId c = .ok () c') :
    c'.settle.status = .completed := by
  obtain ⟨-, -, -, -, -, -, hstatus, -, htasks⟩ := notice_ok h.noneRunning h.mem hok
  show c'.tasks.getLast?.getD c'.status = _
  rw [hstatus, htasks, hempty]
  rcases h.status with hpending | hcompleted
  · rw [if_pos hpending]
    rfl
  · rw [hcompleted, if_neg PipeExecutionStatus.noConfusion]
    rfl

end PipeController

namespace ComputeNode

variable {host : Host} {pid : ℕ} {procId : String} {node node' : ComputeNode}

/-- A call on a pipe that returns. -/
theorem onPipe_returned {m : PyM PipeController Unit} {name : String} (h : onPipe name m node = .ok () node') :
    ∃ c c', node.pipeControllers.get? name = some c ∧ m c = .ok () c' ∧ node' = node.withPipe name c' := by
  cases hget : node.pipeControllers.get? name with
  | none =>
    rw [onPipe, hget] at h
    cases h
  | some c =>
    obtain ⟨c', hm⟩ := (onPipe_eq_ok_iff hget).mp ⟨node', h⟩
    rw [onPipe_ok hget hm] at h
    exact ⟨c, c', rfl, hm, (EStateM.Result.ok.inj h).2.symm⟩

theorem keys_of_notifyLoop {names : List String} (h : notifyLoop host pid procId names node = .ok () node') :
    node'.pipeControllers.keys = node.pipeControllers.keys := by
  induction names generalizing node with
  | nil =>
    cases h
    rfl
  | cons first names ih =>
    rw [notifyLoop] at h
    cases hfirst : onPipe first (PipeController.notice host pid procId) node with
    | error e node₁ =>
      rw [bind_error hfirst] at h
      cases h
    | ok _ node₁ =>
      rw [bind_ok hfirst] at h
      rw [ih h, keys_of_onPipe hfirst]

/-- A loop that returns has given its notice to every pipe it is for. -/
theorem notifyLoop_ok {names : List String} (hnodup : names.Nodup)
    (h : notifyLoop host pid procId names node = .ok () node') {name : String} {c' : PipeController}
    (hget' : node'.pipeControllers.get? name = some c') : ∃ c, node.pipeControllers.get? name = some c ∧
      (name ∈ names → PipeController.notice host pid procId c = .ok () c') ∧ (name ∉ names → c' = c) := by
  induction names generalizing node with
  | nil =>
    cases h
    exact ⟨c', hget', fun hmem => absurd hmem List.not_mem_nil, fun _ => rfl⟩
  | cons first names ih =>
    rw [List.nodup_cons] at hnodup
    rw [notifyLoop] at h
    cases hfirst : onPipe first (PipeController.notice host pid procId) node with
    | error e node₁ =>
      rw [bind_error hfirst] at h
      cases h
    | ok _ node₁ =>
      rw [bind_ok hfirst] at h
      obtain ⟨c₀, c₁, hget₀, hnotice, rfl⟩ := onPipe_returned hfirst
      obtain ⟨c, hget, hin, hout⟩ := ih hnodup.2 h
      by_cases heq : name = first
      · -- the first pipe is not visited again
        subst heq
        obtain rfl := Option.some.inj (hget.symm.trans (node.pipeControllers.get?_set_self name c₁))
        obtain rfl := hout hnodup.1
        exact ⟨c₀, hget₀, fun _ => hnotice, fun hnot => absurd List.mem_cons_self hnot⟩
      · have hget' := (node.pipeControllers.get?_set_of_ne c₁ heq).symm.trans hget
        refine ⟨c, hget', fun hmem => ?_, fun hnot => ?_⟩
        · exact hin ((List.mem_cons.mp hmem).resolve_left heq)
        · exact hout fun hmem => hnot (List.mem_cons_of_mem _ hmem)

/-- A notice that changes no pipe changes nothing. -/
theorem notifyLoop_same {names : List String} (h : ∀ name ∈ names, ∃ c, node.pipeControllers.get? name = some c ∧
    PipeController.notice host pid procId c = .ok () c) : notifyLoop host pid procId names node = .ok () node := by
  induction names with
  | nil => rfl
  | cons name names ih =>
    rw [List.forall_mem_cons] at h
    obtain ⟨⟨c, hget, hnotice⟩, hrest⟩ := h
    have hcall : onPipe name (PipeController.notice host pid procId) node = .ok () node := by
      rw [onPipe_ok hget hnotice, node.pipeControllers.set_of_get? hget]
    rw [notifyLoop, bind_ok hcall]
    exact ih hrest

theorem keepsAt_notifyTermination (host : Host) (pid : ℕ) {name : String} : Keeps (At name (PipeController.Begun procId))
    (notifyTermination host pid procId) := by
  have hloop : ∀ names, Keeps (At name (PipeController.Begun procId)) (notifyLoop host pid procId names) := by
    intro names
    induction names with
    | nil => exact keeps_pure ()
    | cons first names ih =>
      exact (keepsAt_onPipe fun _ => PipeController.keeps_begun_notice).bind fun _ => ih
  exact keeps_get_bind fun node hnode => hloop _ node hnode

/-! ## A registration, again -/

/-- The pids of the instances of each processor. -/
def pidTable (processors : List (String × ProcessorController)) : List (String × List ℕ) :=
  processors.map fun item => (item.1, item.2.instances.map WorkerController.pid)

/-- An instance that keeps its pid does not change the table. -/
theorem pidTable_set {processors : Dict String ProcessorController} {key : String} {p p' : ProcessorController}
    (hp : processors.get? key = some p)
    (hpids : p'.instances.map WorkerController.pid = p.instances.map WorkerController.pid) :
    pidTable (processors.set key p').entries = pidTable processors.entries := by
  rw [pidTable, processors.entries_set_of_mem p' (processors.mem_keys_of_get? hp), List.map_map]
  apply List.map_congr_left
  intro item hitem
  rw [Function.comp_apply]
  split
  · rename_i hkey
    obtain ⟨_, q⟩ := item
    obtain rfl := hkey
    obtain rfl := processors.value_unique (processors.get?_eq_some_iff.mp hp) hitem
    exact congrArg (Prod.mk _) hpids
  · rfl

theorem pidTable_withInstance {c : PipeController} {key : String} {p : ProcessorController} {n : ℕ}
    {i i' : WorkerController} (hp : c.processors.get? key = some p) (hi : p.instances[n]? = some i)
    (hpid : i'.pid = i.pid) : pidTable (c.withInstance key p n i').processors.entries = pidTable c.processors.entries := by
  apply pidTable_set hp
  obtain ⟨hn, rfl⟩ := List.getElem?_eq_some_iff.mp hi
  show (p.instances.set n i').map WorkerController.pid = _
  rw [List.map_set, hpid, ← List.getElem_map WorkerController.pid, List.set_getElem_self]
  rwa [List.length_map]

/-- The lookup in a pipe reads nothing but the pids. -/
theorem getInstanceByPid_congr {ps : ℕ → Except PyError (List ℕ)} {xs ys : List (String × ProcessorController)}
    (h : pidTable xs = pidTable ys) :
    PipeController.getInstanceByPid ps pid xs = PipeController.getInstanceByPid ps pid ys := by
  induction xs generalizing ys with
  | nil =>
    rw [pidTable, List.map_nil, List.nil_eq, pidTable, List.map_eq_nil_iff] at h
    rw [h]
  | cons x xs ih =>
    cases ys with
    | nil => cases h
    | cons y ys =>
      obtain ⟨hitem, hrest⟩ := List.cons.inj h
      obtain ⟨hkey, hpids⟩ := Prod.mk.inj hitem
      rw [PipeController.getInstanceByPid, PipeController.getInstanceByPid, ih hrest, hkey,
        ProcessorController.findByPid_congr hpids]

/-- The instance of a registration is READY afterwards, and has the pid that it had. -/
theorem register_ok_eq {ps : ℕ → Except PyError (List ℕ)} {i i' : WorkerController}
    (h : WorkerController.register ps pid i = .ok () i') : i' = { i with state := .ready } := by
  rw [WorkerController.register, modify_bind_apply, get_bind_apply] at h
  split at h
  · exact (EStateM.Result.ok.inj h).2.symm
  · cases hchild : WorkerController.isChildProcess ps pid { i with state := .ready } with
    | error e =>
      rw [hchild] at h
      cases h
    | ok child =>
      rw [hchild] at h
      cases child with
      | true => exact (EStateM.Result.ok.inj h).2.symm
      | false => cases h

/-- A lookup that finds the launched instance at `r`, and then meets the same pipes with this instance not
launched any more. -/
theorem findLaunched_again {ps : ℕ → Except PyError (List ℕ)} {r : InstanceRef}
    {pipes : List (String × PipeController)} (f : String × PipeController → PipeController)
    (htable : ∀ item ∈ pipes, pidTable (f item).processors.entries = pidTable item.2.processors.entries)
    (hready : ∀ c, (r.pipe, c) ∈ pipes → ∃ i, (f (r.pipe, c)).instanceAt r.key r.n = some i ∧ ¬ i.isLaunched)
    (h : findLaunched ps pid pipes = .ok (some r)) :
    ∃ e, findLaunched ps pid (pipes.map fun item => (item.1, f item)) = .error e := by
  induction pipes with
  | nil => cases h
  | cons item pipes ih =>
    obtain ⟨name, c⟩ := item
    rw [List.forall_mem_cons] at htable
    rw [List.map_cons]
    cases hlookup : PipeController.getInstanceByPid ps pid c.processors.entries with
    | error e =>
      rw [findLaunched, hlookup] at h
      cases h
    | ok found =>
      have hlookup' := (getInstanceByPid_congr htable.1).trans hlookup
      cases found with
      | none =>
        -- the pipe has not the pid, before or after
        rw [findLaunched, hlookup] at h
        rw [findLaunched, hlookup']
        exact ih htable.2 (fun c hc => hready c (List.mem_cons_of_mem _ hc)) h
      | some place =>
        obtain ⟨key, n⟩ := place
        cases hat : c.instanceAt key n with
        | none =>
          rw [findLaunched, hlookup] at h
          simp only [bind, Except.bind, hat] at h
          cases h
        | some i =>
          rw [findLaunched_found hlookup hat] at h
          split at h
          · obtain rfl := Option.some.inj (Except.ok.inj h)
            obtain ⟨j, hat', hnot⟩ := hready c List.mem_cons_self
            refine ⟨⟨.brokenPipeError, s!"Instance already registered: '{j.name}' ({j.pid})"⟩, ?_⟩
            rw [findLaunched_found hlookup' hat', if_neg hnot]
          · cases h

/-- A registration that returns has made one instance READY. -/
theorem register_ok_cases {ps : ℕ → Except PyError (List ℕ)} {r : InstanceRef} {node₁ : ComputeNode}
    (h : registerLaunchedInstance ps pid node = .ok r node₁) : ∃ c p i,
      node.pipeControllers.get? r.pipe = some c ∧ c.processors.get? r.key = some p ∧ p.instances[r.n]? = some i ∧
      node₁ = node.withPipe r.pipe (c.withInstance r.key p r.n { i with state := .ready }) := by
  obtain ⟨c, c', hc, hcall, rfl⟩ := onPipe_returned (register_returned h).2
  unfold PipeController.onProcessor at hcall
  split at hcall
  · cases hcall
  rename_i p hp
  split at hcall
  · rename_i p' hinstance
    obtain ⟨-, rfl⟩ := EStateM.Result.ok.inj hcall
    unfold ProcessorController.onInstance at hinstance
    split at hinstance
    · cases hinstance
    rename_i i hi
    split at hinstance
    · rename_i i' hregister
      obtain ⟨-, rfl⟩ := EStateM.Result.ok.inj hinstance
      obtain rfl := register_ok_eq hregister
      exact ⟨c, p, i, hc, hp, hi, rfl⟩
    · cases hinstance
  · cases hcall

/-- A second registration is refused, and changes nothing. -/
theorem register_again {ps : ℕ → Except PyError (List ℕ)} {r : InstanceRef} {node₁ : ComputeNode}
    (h : registerLaunchedInstance ps pid node = .ok r node₁) :
    ∃ e, registerLaunchedInstance ps pid { pipeControllers := node₁.pipeControllers.map PipeController.settle }
      = .error e { pipeControllers := node₁.pipeControllers.map PipeController.settle } := by
  have hfind := (register_returned h).1
  obtain ⟨c, p, i, hc, hp, hi, rfl⟩ := register_ok_cases h
  -- the pipes differ in the state of one instance, and the tasks that have run
  let c' := c.withInstance r.key p r.n { i with state := .ready }
  have htable : ∀ item ∈ node.pipeControllers.entries,
      pidTable (if item.1 = r.pipe then c' else item.2).settle.processors.entries
        = pidTable item.2.processors.entries := by
    intro item hitem
    split
    · rename_i hname
      obtain ⟨_, d⟩ := item
      obtain rfl := hname
      obtain rfl := node.pipeControllers.value_unique (node.pipeControllers.get?_eq_some_iff.mp hc) hitem
      exact pidTable_withInstance hp hi rfl
    · rfl
  have hready : ∀ d, (r.pipe, d) ∈ node.pipeControllers.entries →
      ∃ j, (if r.pipe = r.pipe then c' else d).settle.instanceAt r.key r.n = some j ∧ ¬ j.isLaunched := by
    intro d hd
    refine ⟨{ i with state := .ready }, ?_, Bool.noConfusion⟩
    rw [if_pos rfl]
    show ((c.processors.set r.key _).get? r.key).bind _ = _
    rw [Dict.get?_set_self]
    exact List.getElem?_set_self (List.getElem?_eq_some_iff.mp hi).1
  obtain ⟨e, he⟩ := findLaunched_again _ htable hready hfind
  refine ⟨e, ?_⟩
  rw [registerLaunchedInstance, get_bind_apply]
  show (ofExcept (findLaunched ps pid ((node.pipeControllers.set r.pipe c').map PipeController.settle).entries)
    >>= _ : PyM ComputeNode InstanceRef) _ = _
  rw [Dict.entries_map_set _ _ _ (node.pipeControllers.mem_keys_of_get? hc), he]
  rfl

end ComputeNode

end Upipe
