import Mathlib.Data.List.TakeWhile
import Upipe.Node.Manager.Monitor

/-!
# Registration and attachment of a worker

A worker process makes itself known twice by its pid: `register_launched_instance` looks the pid up with
`get_instance_by_pid` in one pipe after the other, and `attach_proc` calls `connect_proc` on every pipe,
which looks it up with `is_my_process`. Both ask `psutil` for the children of each instance that comes in
front of the one they look for, and `psutil` raises for an instance whose process is gone.

`attachProc` ends where `ws_monitor` waits for the client; `detachProc` is the rest, from the moment that
the client disconnects.
-/

namespace Upipe

open Upipe.Common

/-! ## The two lookups -/

namespace WorkerController

/-- `connect_proc`, up to the wait for messages. -/
def connectProc (i : WorkerController) : WorkerController := { i with connected := true }

/-- The end of `ws_monitor` when the client disconnects. -/
def disconnectProc (i : WorkerController) : WorkerController := { i with connected := false }

end WorkerController

namespace ProcessorController

/-- `is_my_process`. -/
def isMyProcess (ps : ℕ → Except PyError (List ℕ)) (pid : ℕ) :
    List WorkerController → Except PyError Bool
  | [] => .ok false
  | i :: instances =>
      if i.pid = pid then .ok true
      else do
        if ← i.isChildProcess ps pid then pure true else isMyProcess ps pid instances

/-- `connect_proc`. It returns the position of the instance it has connected. -/
def connectProc (ps : ℕ → Except PyError (List ℕ)) (pid : ℕ) : PyM ProcessorController ℕ := do
  let p ← get
  match ← ofExcept (findByPid ps pid p.instances) with
  | some n =>
      set { p with instances := p.instances.modify n WorkerController.connectProc }
      pure n
  | none => throw ⟨.brokenPipeError, s!"PID {pid} was not found on processor {p.proc.id}"⟩

end ProcessorController

namespace PipeController

/-- The loop of `connect_proc` over the processors. -/
def connectProcLoop (ps : ℕ → Except PyError (List ℕ)) (pid : ℕ) :
    List String → PyM PipeController (String × ℕ)
  | [] => throw ⟨.brokenPipeError, s!"Can not connect process pid={pid}"⟩
  | key :: keys => do
      let c ← get
      let p ← ofExcept (c.processor key)
      if ← ofExcept (ProcessorController.isMyProcess ps pid p.instances) then do
        let n ← onProcessor key (ProcessorController.connectProc ps pid)
        pure (key, n)
      else connectProcLoop ps pid keys

/-- `connect_proc`. -/
def connectProc (ps : ℕ → Except PyError (List ℕ)) (pid : ℕ) : PyM PipeController (String × ℕ) := do
  let c ← get
  connectProcLoop ps pid c.processors.keys

/-- The instance at a position of the processor under `key`. -/
def instanceAt (c : PipeController) (key : String) (n : ℕ) : Option WorkerController :=
  (c.processors.get? key).bind fun p => p.instances[n]?

end PipeController

/-- An instance by its place in the node. -/
structure InstanceRef where
  pipe : String
  key : String
  n : ℕ
deriving DecidableEq

namespace ComputeNode

/-- The instance at a place. -/
def instanceAt (node : ComputeNode) (r : InstanceRef) : Option WorkerController :=
  (node.pipeControllers.get? r.pipe).bind fun c => c.instanceAt r.key r.n

/-- The loop of `register_launched_instance`. -/
def findLaunched (ps : ℕ → Except PyError (List ℕ)) (pid : ℕ) :
    List (String × PipeController) → Except PyError (Option InstanceRef)
  | [] => .ok none
  | (name, c) :: pipes => do
      match ← PipeController.getInstanceByPid ps pid c.processors.entries with
      | none => findLaunched ps pid pipes
      | some (key, n) =>
          match c.instanceAt key n with
          | none => throw ⟨.indexError, "list index out of range"⟩
          | some i =>
              if i.isLaunched then pure (some ⟨name, key, n⟩)
              else throw ⟨.brokenPipeError, s!"Instance already registered: '{i.name}' ({i.pid})"⟩

/-- `register_launched_instance`. It returns the place of the instance. -/
def registerLaunchedInstance (ps : ℕ → Except PyError (List ℕ)) (pid : ℕ) :
    PyM ComputeNode InstanceRef := do
  let node ← get
  match ← ofExcept (findLaunched ps pid node.pipeControllers.entries) with
  | none => throw ⟨.brokenPipeError, s!"Missing launched instance pid : {pid}"⟩
  | some r =>
      onPipe r.pipe (PipeController.onProcessor r.key
        (ProcessorController.onInstance r.n (WorkerController.register ps pid)))
      pure r

/-- The loop of `attach_proc`, up to the first wait for a client. It returns the place of the instance
that has been connected and the pipes that are left, or `none` at the end of the loop. -/
def attachFrom (ps : ℕ → Except PyError (List ℕ)) (pid : ℕ) :
    List String → PyM ComputeNode (Option (InstanceRef × List String))
  | [] => pure none
  | name :: names => do
      let (key, n) ← onPipe name (PipeController.connectProc ps pid)
      pure (some (⟨name, key, n⟩, names))

/-- `attach_proc`, up to the wait for the client. -/
def attachProc (ps : ℕ → Except PyError (List ℕ)) (pid : ℕ) :
    PyM ComputeNode (Option (InstanceRef × List String)) := do
  let node ← get
  attachFrom ps pid node.pipeControllers.keys

/-- The rest of `attach_proc`, when the client of the instance disconnects. -/
def detachProc (ps : ℕ → Except PyError (List ℕ)) (pid : ℕ) (r : InstanceRef) (names : List String) :
    PyM ComputeNode (Option (InstanceRef × List String)) := do
  onPipe r.pipe (PipeController.onProcessor r.key
    (ProcessorController.onInstance r.n (modify WorkerController.disconnectProc)))
  attachFrom ps pid names

end ComputeNode

/-! ## What is claimed of them -/

namespace WorkerController

/-- The process of the pid is the instance's own or descends from it. -/
def Owns (ps : ℕ → Except PyError (List ℕ)) (pid : ℕ) (i : WorkerController) : Prop :=
  i.pid = pid ∨ ∃ children, ps i.pid = .ok children ∧ pid ∈ children

instance (ps : ℕ → Except PyError (List ℕ)) (pid : ℕ) (i : WorkerController) :
    Decidable (i.Owns ps pid) :=
  match h : ps i.pid with
  | .ok children =>
      decidable_of_iff (i.pid = pid ∨ pid ∈ children) (by rw [Owns, h]; simp)
  | .error _ => decidable_of_iff (i.pid = pid) (by rw [Owns, h]; simp)

/-- `psutil` knows the process of the instance. -/
def Answers (ps : ℕ → Except PyError (List ℕ)) (i : WorkerController) : Prop :=
  ∃ children, ps i.pid = .ok children

end WorkerController

/-- The instances that a lookup visits in front of one. -/
def PipeController.instancesBefore (c : PipeController) (key : String) (n : ℕ) :
    List WorkerController :=
  (c.processors.entries.takeWhile fun item => item.1 ≠ key).flatMap (fun item => item.2.instances)
    ++ ((c.processors.get? key).elim [] fun p => p.instances.take n)

namespace ComputeNode

/-- The instances that a lookup visits in front of one, in its own pipe. -/
def instancesBefore (node : ComputeNode) (r : InstanceRef) : List WorkerController :=
  (node.pipeControllers.get? r.pipe).elim [] fun c => c.instancesBefore r.key r.n

/-- The instance at `r`, and no other, owns the pid. -/
structure OwnerOf (ps : ℕ → Except PyError (List ℕ)) (pid : ℕ) (r : InstanceRef)
    (node : ComputeNode) : Prop where
  owns : ∃ i, node.instanceAt r = some i ∧ i.Owns ps pid
  alone : ∀ r' j, node.instanceAt r' = some j → j.Owns ps pid → r' = r

/-- Registration finds the instance at `r`; attachment connects it and returns when its client
disconnects. -/
def RegistersAndAttaches (ps ps' : ℕ → Except PyError (List ℕ)) (pid : ℕ) (r : InstanceRef)
    (node : ComputeNode) : Prop :=
  ∃ node₁, registerLaunchedInstance ps pid node = .ok r node₁ ∧
    ∃ names node₂, attachProc ps' pid node₁ = .ok (some (r, names)) node₂ ∧
      (∃ i, node₂.instanceAt r = some i ∧ i.connected = true) ∧
      ∃ node₃, detachProc ps' pid r names node₂ = .ok none node₃

end ComputeNode

/-! ## The lookup in one processor -/

section Lookup

variable {ps : ℕ → Except PyError (List ℕ)} {pid : ℕ}

theorem WorkerController.isChildProcess_of_answers {i : WorkerController} (hnot : ¬ i.Owns ps pid)
    (h : i.Answers ps) : i.isChildProcess ps pid = .ok false := by
  obtain ⟨children, hps⟩ := h
  have hmem : pid ∉ children := fun hmem => hnot (Or.inr ⟨children, hps, hmem⟩)
  rw [isChildProcess, hps]
  exact congrArg Except.ok (decide_eq_false hmem)

theorem WorkerController.isChildProcess_of_gone {i : WorkerController} (h : ¬ i.Answers ps) :
    ∃ e, i.isChildProcess ps pid = .error e := by
  cases hps : ps i.pid with
  | ok children => exact absurd ⟨children, hps⟩ h
  | error e =>
    refine ⟨e, ?_⟩
    rw [isChildProcess, hps]
    rfl

/-- An instance whose process is gone is in the first part, or the first part answers. -/
theorem WorkerController.gone_append {front rest : List WorkerController}
    (h : ∃ j ∈ front ++ rest, ¬ j.Answers ps) :
    (∃ j ∈ front, ¬ j.Answers ps) ∨ (∀ j ∈ front, j.Answers ps) ∧ ∃ j ∈ rest, ¬ j.Answers ps := by
  by_cases hfront : ∀ j ∈ front, j.Answers ps
  · obtain ⟨j, hj, hgone⟩ := h
    rcases List.mem_append.mp hj with hj | hj
    · exact absurd (hfront j hj) hgone
    · exact Or.inr ⟨hfront, j, hj, hgone⟩
  · push Not at hfront
    exact Or.inl hfront

namespace ProcessorController

theorem isMyProcess_eq (instances : List WorkerController) :
    isMyProcess ps pid instances = (findByPid ps pid instances).map Option.isSome := by
  induction instances with
  | nil => rfl
  | cons i instances ih =>
    rw [isMyProcess, findByPid]
    split
    · rfl
    · cases i.isChildProcess ps pid with
      | error e => rfl
      | ok child =>
        cases child with
        | true => rfl
        | false =>
          show isMyProcess ps pid instances = _
          rw [ih]
          cases findByPid ps pid instances with
          | error e => rfl
          | ok found => cases found <;> rfl

/-- The lookup goes past instances that answer and do not own the pid. -/
theorem findByPid_append {front : List WorkerController} (rest : List WorkerController)
    (hnot : ∀ j ∈ front, ¬ j.Owns ps pid) (h : ∀ j ∈ front, j.Answers ps) :
    findByPid ps pid (front ++ rest)
      = (findByPid ps pid rest).map (Option.map (· + front.length)) := by
  induction front with
  | nil =>
    rw [List.nil_append]
    cases findByPid ps pid rest with
    | error e => rfl
    | ok found => cases found <;> rfl
  | cons j front ih =>
    have hj := hnot j List.mem_cons_self
    have hchild := WorkerController.isChildProcess_of_answers hj (h j List.mem_cons_self)
    rw [List.cons_append, findByPid, if_neg fun hpid => hj (Or.inl hpid), hchild]
    show (findByPid ps pid (front ++ rest) >>= _) = _
    rw [ih (fun k hk => hnot k (List.mem_cons_of_mem _ hk)) fun k hk => h k (List.mem_cons_of_mem _ hk)]
    cases findByPid ps pid rest with
    | error e => rfl
    | ok found => cases found <;> rfl

/-- The lookup ends at an instance whose process is gone. -/
theorem findByPid_gone {front : List WorkerController} (rest : List WorkerController)
    (hnot : ∀ j ∈ front, ¬ j.Owns ps pid) (h : ∃ j ∈ front, ¬ j.Answers ps) :
    ∃ e, findByPid ps pid (front ++ rest) = .error e := by
  induction front with
  | nil =>
    obtain ⟨_, hj, -⟩ := h
    cases hj
  | cons j front ih =>
    have hj := hnot j List.mem_cons_self
    rw [List.cons_append, findByPid, if_neg fun hpid => hj (Or.inl hpid)]
    by_cases hanswers : j.Answers ps
    · have hrest : ∃ k ∈ front, ¬ k.Answers ps := by
        obtain ⟨k, hk, hgone⟩ := h
        rcases List.mem_cons.mp hk with rfl | hk
        · exact absurd hanswers hgone
        · exact ⟨k, hk, hgone⟩
      obtain ⟨e, hcall⟩ := ih (fun k hk => hnot k (List.mem_cons_of_mem _ hk)) hrest
      refine ⟨e, ?_⟩
      rw [WorkerController.isChildProcess_of_answers hj hanswers]
      show (findByPid ps pid (front ++ rest) >>= _) = _
      rw [hcall]
      rfl
    · obtain ⟨e, hchild⟩ : ∃ e, j.isChildProcess ps pid = .error e :=
        WorkerController.isChildProcess_of_gone hanswers
      refine ⟨e, ?_⟩
      rw [hchild]
      rfl

theorem findByPid_owner {i : WorkerController} (rest : List WorkerController) (h : i.Owns ps pid) :
    findByPid ps pid (i :: rest) = .ok (some 0) := by
  rw [findByPid]
  split
  · rfl
  · rename_i hpid
    obtain ⟨children, hps, hmem⟩ := h.resolve_left hpid
    rw [WorkerController.isChildProcess, hps]
    show (if decide (pid ∈ children) = true then _ else _) = _
    rw [if_pos (decide_eq_true hmem)]
    rfl

/-- The lookup of an owner at position `n`. -/
theorem findByPid_at {instances : List WorkerController} {n : ℕ} {i : WorkerController}
    (hget : instances[n]? = some i) (howns : i.Owns ps pid)
    (hnot : ∀ j ∈ instances.take n, ¬ j.Owns ps pid) (h : ∀ j ∈ instances.take n, j.Answers ps) :
    findByPid ps pid instances = .ok (some n) := by
  obtain ⟨hn, hi⟩ := List.getElem?_eq_some_iff.mp hget
  have hsplit : instances = instances.take n ++ i :: instances.drop (n + 1) := by
    rw [← hi, ← List.drop_eq_getElem_cons hn, List.take_append_drop]
  have hlength : (instances.take n).length = n := List.length_take_of_le (Nat.le_of_lt hn)
  rw [hsplit, findByPid_append _ hnot h, findByPid_owner _ howns]
  show Except.ok (some (0 + _)) = _
  rw [Nat.zero_add, hlength]

theorem findByPid_gone_at {instances : List WorkerController} {n : ℕ}
    (hnot : ∀ j ∈ instances.take n, ¬ j.Owns ps pid) (h : ∃ j ∈ instances.take n, ¬ j.Answers ps) :
    ∃ e, findByPid ps pid instances = .error e := by
  have hgone := findByPid_gone (instances.drop n) hnot h
  rwa [List.take_append_drop] at hgone

/-- The lookup in a processor without the owner. -/
theorem findByPid_none {instances : List WorkerController} (hnot : ∀ j ∈ instances, ¬ j.Owns ps pid)
    (h : ∀ j ∈ instances, j.Answers ps) : findByPid ps pid instances = .ok none := by
  have happend := findByPid_append [] hnot h
  rwa [List.append_nil] at happend

theorem findByPid_none_gone {instances : List WorkerController}
    (hnot : ∀ j ∈ instances, ¬ j.Owns ps pid) (h : ∃ j ∈ instances, ¬ j.Answers ps) :
    ∃ e, findByPid ps pid instances = .error e := by
  have hgone := findByPid_gone [] hnot h
  rwa [List.append_nil] at hgone

end ProcessorController

/-! ## The lookup in one pipe -/

namespace PipeController

/-- The instances of some processors, in order. -/
def instancesOf (processors : List (String × ProcessorController)) : List WorkerController :=
  processors.flatMap fun item => item.2.instances

theorem getInstanceByPid_append {front : List (String × ProcessorController)}
    (rest : List (String × ProcessorController)) (hnot : ∀ j ∈ instancesOf front, ¬ j.Owns ps pid)
    (h : ∀ j ∈ instancesOf front, j.Answers ps) :
    getInstanceByPid ps pid (front ++ rest) = getInstanceByPid ps pid rest := by
  induction front with
  | nil => rfl
  | cons item front ih =>
    obtain ⟨key, p⟩ := item
    rw [instancesOf, List.flatMap_cons] at hnot h
    obtain ⟨hnot, hnot'⟩ := List.forall_mem_append.mp hnot
    obtain ⟨h, h'⟩ := List.forall_mem_append.mp h
    rw [List.cons_append, getInstanceByPid, ProcessorController.findByPid_none hnot h]
    exact ih hnot' h'

theorem getInstanceByPid_gone {front : List (String × ProcessorController)}
    (rest : List (String × ProcessorController)) (hnot : ∀ j ∈ instancesOf front, ¬ j.Owns ps pid)
    (h : ∃ j ∈ instancesOf front, ¬ j.Answers ps) :
    ∃ e, getInstanceByPid ps pid (front ++ rest) = .error e := by
  induction front with
  | nil =>
    obtain ⟨_, hj, -⟩ := h
    cases hj
  | cons item front ih =>
    obtain ⟨key, p⟩ := item
    rw [instancesOf, List.flatMap_cons] at hnot h
    obtain ⟨hnot, hnot'⟩ := List.forall_mem_append.mp hnot
    rw [List.cons_append, getInstanceByPid]
    rcases WorkerController.gone_append h with hgone | ⟨hanswer, hgone⟩
    · obtain ⟨e, hcall⟩ := ProcessorController.findByPid_none_gone hnot hgone
      rw [hcall]
      exact ⟨e, rfl⟩
    · rw [ProcessorController.findByPid_none hnot hanswer]
      exact ih hnot' hgone

theorem connectProcLoop_append {c : PipeController} {front : List (String × ProcessorController)}
    (keys : List String) (hget : ∀ item ∈ front, c.processors.get? item.1 = some item.2)
    (hnot : ∀ j ∈ instancesOf front, ¬ j.Owns ps pid) (h : ∀ j ∈ instancesOf front, j.Answers ps) :
    connectProcLoop ps pid (front.map Prod.fst ++ keys) c = connectProcLoop ps pid keys c := by
  induction front with
  | nil => rfl
  | cons item front ih =>
    obtain ⟨key, p⟩ := item
    rw [instancesOf, List.flatMap_cons] at hnot h
    obtain ⟨hnot, hnot'⟩ := List.forall_mem_append.mp hnot
    obtain ⟨h, h'⟩ := List.forall_mem_append.mp h
    have hp : c.processor key = .ok p := by rw [processor, hget (key, p) List.mem_cons_self]
    rw [List.map_cons, List.cons_append, connectProcLoop, get_bind_apply, hp]
    show (ofExcept (ProcessorController.isMyProcess ps pid p.instances) >>= _ : PyM _ _) c = _
    rw [ProcessorController.isMyProcess_eq, ProcessorController.findByPid_none hnot h]
    exact ih (fun item hitem => hget item (List.mem_cons_of_mem _ hitem)) hnot' h'

theorem connectProcLoop_gone {c : PipeController} {front : List (String × ProcessorController)}
    (keys : List String) (hget : ∀ item ∈ front, c.processors.get? item.1 = some item.2)
    (hnot : ∀ j ∈ instancesOf front, ¬ j.Owns ps pid) (h : ∃ j ∈ instancesOf front, ¬ j.Answers ps) :
    ∃ e, connectProcLoop ps pid (front.map Prod.fst ++ keys) c = .error e c := by
  induction front with
  | nil =>
    obtain ⟨_, hj, -⟩ := h
    cases hj
  | cons item front ih =>
    obtain ⟨key, p⟩ := item
    rw [instancesOf, List.flatMap_cons] at hnot h
    obtain ⟨hnot, hnot'⟩ := List.forall_mem_append.mp hnot
    have hp : c.processor key = .ok p := by rw [processor, hget (key, p) List.mem_cons_self]
    rw [List.map_cons, List.cons_append, connectProcLoop, get_bind_apply, hp]
    show ∃ e, (ofExcept (ProcessorController.isMyProcess ps pid p.instances) >>= _ : PyM _ _) c = _
    rw [ProcessorController.isMyProcess_eq]
    rcases WorkerController.gone_append h with hgone | ⟨hanswer, hgone⟩
    · obtain ⟨e, hcall⟩ := ProcessorController.findByPid_none_gone hnot hgone
      rw [hcall]
      exact ⟨e, rfl⟩
    · rw [ProcessorController.findByPid_none hnot hanswer]
      exact ih (fun item hitem => hget item (List.mem_cons_of_mem _ hitem)) hnot' hgone

section At

variable {c : PipeController} {key : String} {n : ℕ} {i : WorkerController} {p : ProcessorController}

/-- The processors in front of one. -/
def processorsBefore (c : PipeController) (key : String) : List (String × ProcessorController) :=
  c.processors.entries.takeWhile fun item => item.1 ≠ key

theorem instancesBefore_eq (hp : c.processors.get? key = some p) :
    c.instancesBefore key n = instancesOf (c.processorsBefore key) ++ p.instances.take n := by
  rw [instancesBefore, hp]
  rfl

theorem get?_of_mem_processorsBefore {item : String × ProcessorController}
    (h : item ∈ c.processorsBefore key) : c.processors.get? item.1 = some item.2 :=
  c.processors.get?_eq_some_iff.mpr (List.takeWhile_subset _ h)

theorem ne_of_mem_processorsBefore {item : String × ProcessorController}
    (h : item ∈ c.processorsBefore key) : item.1 ≠ key := by
  have himp := List.mem_takeWhile_imp
    (p := fun item : String × ProcessorController => decide (item.1 ≠ key)) h
  exact of_decide_eq_true himp

/-- The lookup finds the owner when everything in front of it answers. -/
theorem getInstanceByPid_at (hp : c.processors.get? key = some p) (hi : p.instances[n]? = some i)
    (howns : i.Owns ps pid) (hnot : ∀ j ∈ c.instancesBefore key n, ¬ j.Owns ps pid)
    (h : ∀ j ∈ c.instancesBefore key n, j.Answers ps) :
    getInstanceByPid ps pid c.processors.entries = .ok (some (key, n)) := by
  rw [instancesBefore_eq hp] at hnot h
  obtain ⟨hnot, hnot'⟩ := List.forall_mem_append.mp hnot
  obtain ⟨h, h'⟩ := List.forall_mem_append.mp h
  obtain ⟨rest, hsplit⟩ := c.processors.entries_split hp
  rw [hsplit]
  refine (getInstanceByPid_append _ hnot h).trans ?_
  rw [getInstanceByPid, ProcessorController.findByPid_at hi howns hnot' h']
  rfl

theorem getInstanceByPid_gone_at (hp : c.processors.get? key = some p)
    (hnot : ∀ j ∈ c.instancesBefore key n, ¬ j.Owns ps pid)
    (h : ∃ j ∈ c.instancesBefore key n, ¬ j.Answers ps) :
    ∃ e, getInstanceByPid ps pid c.processors.entries = .error e := by
  rw [instancesBefore_eq hp] at hnot h
  obtain ⟨hnot, hnot'⟩ := List.forall_mem_append.mp hnot
  obtain ⟨rest, hsplit⟩ := c.processors.entries_split hp
  rw [hsplit]
  rcases WorkerController.gone_append h with hgone | ⟨hfront, hgone⟩
  · exact getInstanceByPid_gone _ hnot hgone
  · obtain ⟨e, hcall⟩ := ProcessorController.findByPid_gone_at hnot' hgone
    refine ⟨e, (getInstanceByPid_append _ hnot hfront).trans ?_⟩
    rw [getInstanceByPid, hcall]
    rfl

theorem connectProc_at (hp : c.processors.get? key = some p) (hi : p.instances[n]? = some i)
    (howns : i.Owns ps pid) (hnot : ∀ j ∈ c.instancesBefore key n, ¬ j.Owns ps pid)
    (h : ∀ j ∈ c.instancesBefore key n, j.Answers ps) :
    connectProc ps pid c = .ok (key, n) (c.withProcessor key
      { p with instances := p.instances.modify n WorkerController.connectProc }) := by
  rw [instancesBefore_eq hp] at hnot h
  obtain ⟨hnot, hnot'⟩ := List.forall_mem_append.mp hnot
  obtain ⟨h, h'⟩ := List.forall_mem_append.mp h
  obtain ⟨rest, hsplit⟩ := c.processors.entries_split hp
  have hfind := ProcessorController.findByPid_at hi howns hnot' h'
  have hprocessor : c.processor key = .ok p := by rw [processor, hp]
  have hcall : ProcessorController.connectProc ps pid p
      = .ok n { p with instances := p.instances.modify n WorkerController.connectProc } := by
    rw [ProcessorController.connectProc, get_bind_apply, hfind]
    rfl
  have hconnect : onProcessor key (ProcessorController.connectProc ps pid) c
      = .ok n (c.withProcessor key
        { p with instances := p.instances.modify n WorkerController.connectProc }) := by
    have hwith : onProcessor key (ProcessorController.connectProc ps pid) (c.withProcessor key p) = _ :=
      onProcessor_withProcessor_ok hcall
    rwa [withProcessor_of_get? hp] at hwith
  rw [connectProc, get_bind_apply, Dict.keys, hsplit, List.map_append, List.map_cons]
  refine (connectProcLoop_append _ (fun _ => get?_of_mem_processorsBefore) hnot h).trans ?_
  rw [connectProcLoop, get_bind_apply, hprocessor]
  show (ofExcept (ProcessorController.isMyProcess ps pid p.instances) >>= _ : PyM _ _) c = _
  rw [ProcessorController.isMyProcess_eq, hfind]
  show (onProcessor key (ProcessorController.connectProc ps pid) >>= _ : PyM _ _) c = _
  rw [bind_ok hconnect]
  rfl

theorem connectProc_gone_at (hp : c.processors.get? key = some p)
    (hnot : ∀ j ∈ c.instancesBefore key n, ¬ j.Owns ps pid)
    (h : ∃ j ∈ c.instancesBefore key n, ¬ j.Answers ps) :
    ∃ e, connectProc ps pid c = .error e c := by
  rw [instancesBefore_eq hp] at hnot h
  obtain ⟨hnot, hnot'⟩ := List.forall_mem_append.mp hnot
  obtain ⟨rest, hsplit⟩ := c.processors.entries_split hp
  have hprocessor : c.processor key = .ok p := by rw [processor, hp]
  rw [connectProc, get_bind_apply, Dict.keys, hsplit, List.map_append, List.map_cons]
  rcases WorkerController.gone_append h with hgone | ⟨hfront, hgone⟩
  · exact connectProcLoop_gone _ (fun _ => get?_of_mem_processorsBefore) hnot hgone
  · obtain ⟨e, hcall⟩ := ProcessorController.findByPid_gone_at hnot' hgone
    refine ⟨e, (connectProcLoop_append _ (fun _ => get?_of_mem_processorsBefore) hnot hfront).trans ?_⟩
    rw [connectProcLoop, get_bind_apply, hprocessor]
    show (ofExcept (ProcessorController.isMyProcess ps pid p.instances) >>= _ : PyM _ _) c = _
    rw [ProcessorController.isMyProcess_eq, hcall]
    rfl

/-- Changing a processor leaves those in front of it. -/
theorem processorsBefore_withProcessor (hp : c.processors.get? key = some p) (p' : ProcessorController) :
    (c.withProcessor key p').processorsBefore key = c.processorsBefore key := by
  obtain ⟨rest, hsplit⟩ := c.processors.entries_split hp
  have hfront : (c.processorsBefore key).map (fun x => if x.1 = key then (key, p') else x)
      = c.processorsBefore key := by
    conv_rhs => rw [← List.map_id (c.processorsBefore key)]
    apply List.map_congr_left
    intro item hitem
    exact if_neg (ne_of_mem_processorsBefore hitem)
  have hentries : (c.withProcessor key p').processors.entries
      = c.processorsBefore key ++ (key, p') :: rest.map fun x => if x.1 = key then (key, p') else x := by
    rw [withProcessor, Dict.entries_set_of_mem _ _ (c.processors.mem_keys_of_get? hp), hsplit,
      List.map_append, List.map_cons, if_pos rfl]
    exact congrArg (· ++ _) hfront
  rw [processorsBefore, hentries, List.takeWhile_append_of_pos, List.takeWhile_cons_of_neg,
    List.append_nil]
  · simp
  · exact fun item hitem => decide_eq_true (ne_of_mem_processorsBefore hitem)

end At

end PipeController

/-! ## The node -/

namespace ComputeNode

variable {node : ComputeNode} {r : InstanceRef} {c : PipeController} {p : ProcessorController}
  {i : WorkerController}

/-- The pipe, the processor and the instance at a place. -/
theorem instanceAt_eq_some_iff : node.instanceAt r = some i ↔
    ∃ c p, node.pipeControllers.get? r.pipe = some c ∧ c.processors.get? r.key = some p ∧
      p.instances[r.n]? = some i := by
  unfold instanceAt PipeController.instanceAt
  simp only [Option.bind_eq_some_iff]
  constructor
  · rintro ⟨c, hc, p, hp, hi⟩
    exact ⟨c, p, hc, hp, hi⟩
  · rintro ⟨c, p, hc, hp, hi⟩
    exact ⟨c, hc, p, hp, hi⟩

/-- Whoever stands in front of the owner does not own the pid. -/
theorem OwnerOf.not_owns_before (h : node.OwnerOf ps pid r)
    (hc : node.pipeControllers.get? r.pipe = some c) :
    ∀ j ∈ c.instancesBefore r.key r.n, ¬ j.Owns ps pid := by
  obtain ⟨i, hat, -⟩ := h.owns
  obtain ⟨c', p, hc', hp, hi⟩ := instanceAt_eq_some_iff.mp hat
  obtain rfl := Option.some.inj (hc.symm.trans hc')
  intro j hj howns
  rw [PipeController.instancesBefore_eq hp] at hj
  rcases List.mem_append.mp hj with hj | hj
  · obtain ⟨item, hitem, hj⟩ := List.mem_flatMap.mp hj
    obtain ⟨m, hm⟩ := List.mem_iff_getElem?.mp hj
    have hitem' := PipeController.get?_of_mem_processorsBefore hitem
    have hplace : node.instanceAt ⟨r.pipe, item.1, m⟩ = some j :=
      instanceAt_eq_some_iff.mpr ⟨c, item.2, hc, hitem', hm⟩
    have heq := congrArg InstanceRef.key (h.alone _ j hplace howns)
    exact PipeController.ne_of_mem_processorsBefore hitem heq
  · obtain ⟨m, hm⟩ := List.mem_iff_getElem?.mp hj
    rw [List.getElem?_take] at hm
    split at hm
    · rename_i hlt
      have hplace : node.instanceAt ⟨r.pipe, r.key, m⟩ = some j :=
        instanceAt_eq_some_iff.mpr ⟨c, p, hc, hp, hm⟩
      have heq := congrArg InstanceRef.n (h.alone _ j hplace howns)
      exact Nat.ne_of_lt hlt heq
    · cases hm

/-- The node with another controller for one pipe. -/
def withPipe (node : ComputeNode) (name : String) (c : PipeController) : ComputeNode :=
  { node with pipeControllers := node.pipeControllers.set name c }

theorem onPipe_withPipe {α : Type} {m : PyM PipeController α} {a : α} {c c' : PipeController}
    {name : String} (h : m c = .ok a c') :
    onPipe name m (node.withPipe name c) = .ok a (node.withPipe name c') := by
  have hget : (node.withPipe name c).pipeControllers.get? name = some c :=
    node.pipeControllers.get?_set_self name c
  rw [onPipe_ok hget h, withPipe, withPipe, node.pipeControllers.set_set]

theorem withPipe_of_get? {name : String} {c : PipeController}
    (h : node.pipeControllers.get? name = some c) : node.withPipe name c = node := by
  rw [withPipe, node.pipeControllers.set_of_get? h]

theorem keys_of_onPipe {α : Type} {m : PyM PipeController α} {a : α} {name : String}
    {node' : ComputeNode} (h : onPipe name m node = .ok a node') :
    node'.pipeControllers.keys = node.pipeControllers.keys := by
  unfold onPipe at h
  split at h
  · cases h
  · rename_i c hc
    split at h
    · obtain ⟨-, rfl⟩ := EStateM.Result.ok.inj h
      exact Dict.keys_set_of_mem _ _ (node.pipeControllers.mem_keys_of_get? hc)
    · cases h

/-- `attach_proc` stands at the first pipe of its list. -/
theorem attachFrom_eq_ok_iff {names rest : List String} {node' : ComputeNode} :
    attachFrom ps pid names node = .ok (some (r, rest)) node' ↔
      names = r.pipe :: rest ∧ onPipe r.pipe (PipeController.connectProc ps pid) node
        = .ok (r.key, r.n) node' := by
  cases names with
  | nil => exact iff_of_false (fun h => nomatch h) (fun h => nomatch h.1)
  | cons name names =>
    rw [attachFrom]
    cases hcall : onPipe name (PipeController.connectProc ps pid) node with
    | error e node₁ =>
      rw [bind_error hcall]
      refine iff_of_false (fun h => nomatch h) ?_
      rintro ⟨hnames, hok⟩
      obtain ⟨rfl, -⟩ := List.cons.inj hnames
      rw [hcall] at hok
      cases hok
    | ok at' node₁ =>
      obtain ⟨key, n⟩ := at'
      rw [bind_ok hcall]
      constructor
      · intro h
        obtain ⟨hsome, rfl⟩ := EStateM.Result.ok.inj h
        obtain ⟨rfl, rfl⟩ := Prod.mk.inj (Option.some.inj hsome)
        exact ⟨rfl, hcall⟩
      · rintro ⟨hnames, hok⟩
        obtain ⟨rfl, rfl⟩ := List.cons.inj hnames
        obtain ⟨hat, rfl⟩ := EStateM.Result.ok.inj (hcall.symm.trans hok)
        obtain ⟨rfl, rfl⟩ := Prod.mk.inj hat
        rfl

/-- It ends only when no pipe is left. -/
theorem attachFrom_eq_none {names : List String} {node' : ComputeNode}
    (h : attachFrom ps pid names node = .ok none node') : names = [] := by
  cases names with
  | nil => rfl
  | cons name names =>
    rw [attachFrom] at h
    cases hcall : onPipe name (PipeController.connectProc ps pid) node with
    | error e node₁ =>
      rw [bind_error hcall] at h
      cases h
    | ok at' node₁ =>
      rw [bind_ok hcall] at h
      cases h

end ComputeNode

/-! ## Registration -/

theorem WorkerController.register_owner {i : WorkerController} (h : i.Owns ps pid) :
    register ps pid i = .ok () { i with state := .ready } := by
  rw [register, modify_bind_apply, get_bind_apply]
  split
  · rfl
  · rename_i hpid
    obtain ⟨children, hps, hmem⟩ := h.resolve_left hpid
    show (ofExcept (isChildProcess ps pid { i with state := .ready }) >>= _ : PyM _ _) _ = _
    rw [isChildProcess, hps]
    show (if decide (pid ∈ children) = true then _ else _ : PyM _ _) _ = _
    rw [if_pos (decide_eq_true hmem)]
    rfl

theorem ProcessorController.onInstance_ok {p : ProcessorController} {n : ℕ} {i i' : WorkerController}
    {m : PyM WorkerController Unit} (hi : p.instances[n]? = some i) (h : m i = .ok () i') :
    onInstance n m p = .ok () { p with instances := p.instances.set n i' } := by
  rw [onInstance, hi]
  simp only [h]

namespace PipeController

variable {c : PipeController} {key : String} {n : ℕ} {i : WorkerController} {p : ProcessorController}

/-- The controller with another instance at a position. -/
def withInstance (c : PipeController) (key : String) (p : ProcessorController) (n : ℕ)
    (i : WorkerController) : PipeController :=
  c.withProcessor key { p with instances := p.instances.set n i }

theorem onInstance_withInstance {i' : WorkerController} {m : PyM WorkerController Unit}
    (hp : c.processors.get? key = some p) (hi : p.instances[n]? = some i) (h : m i = .ok () i') :
    onProcessor key (ProcessorController.onInstance n m) c = .ok () (c.withInstance key p n i') := by
  have hwith : onProcessor key (ProcessorController.onInstance n m) (c.withProcessor key p) = _ :=
    onProcessor_withProcessor_ok (ProcessorController.onInstance_ok hi h)
  rwa [withProcessor_of_get? hp] at hwith

theorem instancesBefore_withInstance (hp : c.processors.get? key = some p) :
    (c.withInstance key p n i).instancesBefore key n = c.instancesBefore key n := by
  rw [withInstance, instancesBefore_eq (c.get?_withProcessor key _), processorsBefore_withProcessor hp,
    instancesBefore_eq hp]
  show _ ++ (p.instances.set n i).take n = _
  rw [List.take_set_of_le (Nat.le_refl n)]

end PipeController

namespace ComputeNode

variable {node : ComputeNode} {r : InstanceRef} {c : PipeController} {p : ProcessorController}
  {i : WorkerController}

theorem entries_of_keys (hkeys : node.pipeControllers.keys = [r.pipe])
    (hc : node.pipeControllers.get? r.pipe = some c) :
    node.pipeControllers.entries = [(r.pipe, c)] := by
  obtain ⟨item, hitem, -⟩ := List.map_eq_singleton_iff.mp hkeys
  have hmem := node.pipeControllers.get?_eq_some_iff.mp hc
  rw [hitem] at hmem
  rw [hitem, List.mem_singleton.mp hmem]

/-- The lookup ends in the pipe that has the pid. -/
theorem findLaunched_found {name key : String} {n : ℕ} {pipes : List (String × PipeController)}
    (hlookup : PipeController.getInstanceByPid ps pid c.processors.entries = .ok (some (key, n)))
    (hat : c.instanceAt key n = some i) : findLaunched ps pid ((name, c) :: pipes) =
      if i.isLaunched then .ok (some ⟨name, key, n⟩)
      else .error ⟨.brokenPipeError, s!"Instance already registered: '{i.name}' ({i.pid})"⟩ := by
  rw [findLaunched, hlookup]
  show (match c.instanceAt key n with | none => _ | some i => _) = _
  rw [hat]
  rfl

/-- The only pipe registers its instance when everything in front of it answers. -/
theorem register_ok (hkeys : node.pipeControllers.keys = [r.pipe])
    (hc : node.pipeControllers.get? r.pipe = some c) (hp : c.processors.get? r.key = some p)
    (hi : p.instances[r.n]? = some i) (howns : i.Owns ps pid) (hlaunched : i.isLaunched)
    (hnot : ∀ j ∈ c.instancesBefore r.key r.n, ¬ j.Owns ps pid)
    (h : ∀ j ∈ c.instancesBefore r.key r.n, j.Answers ps) :
    registerLaunchedInstance ps pid node
      = .ok r (node.withPipe r.pipe (c.withInstance r.key p r.n { i with state := .ready })) := by
  have hat : c.instanceAt r.key r.n = some i := by
    rw [PipeController.instanceAt, hp]
    exact hi
  have hfind : findLaunched ps pid node.pipeControllers.entries = .ok (some r) := by
    rw [entries_of_keys hkeys hc, findLaunched_found (PipeController.getInstanceByPid_at hp hi howns hnot h) hat,
      if_pos hlaunched]
  have hcall : onPipe r.pipe (PipeController.onProcessor r.key
        (ProcessorController.onInstance r.n (WorkerController.register ps pid))) (node.withPipe r.pipe c)
      = _ := onPipe_withPipe (PipeController.onInstance_withInstance hp hi
        (WorkerController.register_owner howns))
  rw [withPipe_of_get? hc] at hcall
  rw [registerLaunchedInstance, get_bind_apply, hfind]
  show (onPipe r.pipe _ >>= _ : PyM _ _) node = _
  rw [bind_ok hcall]
  rfl

theorem register_gone (hkeys : node.pipeControllers.keys = [r.pipe])
    (hc : node.pipeControllers.get? r.pipe = some c) (hp : c.processors.get? r.key = some p)
    (hnot : ∀ j ∈ c.instancesBefore r.key r.n, ¬ j.Owns ps pid)
    (h : ∃ j ∈ c.instancesBefore r.key r.n, ¬ j.Answers ps) :
    ∃ e, registerLaunchedInstance ps pid node = .error e node := by
  obtain ⟨e, hcall⟩ := PipeController.getInstanceByPid_gone_at hp hnot h
  refine ⟨e, ?_⟩
  rw [registerLaunchedInstance, get_bind_apply, entries_of_keys hkeys hc, findLaunched, hcall]
  rfl

theorem detachProc_eq_none {names : List String} {node' : ComputeNode}
    (h : detachProc ps pid r names node = .ok none node') : names = [] := by
  unfold detachProc at h
  cases hcall : onPipe r.pipe (PipeController.onProcessor r.key
      (ProcessorController.onInstance r.n (modify WorkerController.disconnectProc))) node with
  | error e node₁ =>
    rw [bind_error hcall] at h
    cases h
  | ok _ node₁ =>
    rw [bind_ok hcall] at h
    exact attachFrom_eq_none h

/-- Behind the only pipe `attach_proc` returns. -/
theorem detachProc_nil (hp : c.processors.get? r.key = some p) (hi : p.instances[r.n]? = some i) :
    ∃ node', detachProc ps pid r [] (node.withPipe r.pipe c) = .ok none node' := by
  have hleave : onPipe r.pipe (PipeController.onProcessor r.key (ProcessorController.onInstance r.n
      (modify WorkerController.disconnectProc))) (node.withPipe r.pipe c) = _ :=
    onPipe_withPipe (PipeController.onInstance_withInstance hp hi rfl)
  rw [detachProc, bind_ok hleave]
  exact ⟨_, rfl⟩

/-- A registration that returns has found the instance, and has registered it. -/
theorem register_returned {node₁ : ComputeNode} (h : registerLaunchedInstance ps pid node = .ok r node₁) :
    findLaunched ps pid node.pipeControllers.entries = .ok (some r) ∧
      onPipe r.pipe (PipeController.onProcessor r.key (ProcessorController.onInstance r.n
        (WorkerController.register ps pid))) node = .ok () node₁ := by
  rw [registerLaunchedInstance, get_bind_apply] at h
  cases hfind : findLaunched ps pid node.pipeControllers.entries with
  | error e =>
    rw [hfind] at h
    cases h
  | ok found =>
    rw [hfind] at h
    cases found with
    | none => cases h
    | some r' =>
      have hcall : (onPipe r'.pipe (PipeController.onProcessor r'.key (ProcessorController.onInstance r'.n
          (WorkerController.register ps pid))) >>= fun _ => pure r' : PyM _ _) node = .ok r node₁ := h
      cases hpipe : onPipe r'.pipe (PipeController.onProcessor r'.key
          (ProcessorController.onInstance r'.n (WorkerController.register ps pid))) node with
      | error e node₂ =>
        rw [bind_error hpipe] at hcall
        cases hcall
      | ok _ node₂ =>
        rw [bind_ok hpipe] at hcall
        obtain ⟨rfl, rfl⟩ := EStateM.Result.ok.inj hcall
        exact ⟨rfl, hpipe⟩

/-- Registration leaves the pipes that are loaded. -/
theorem keys_of_register {node₁ : ComputeNode} (h : registerLaunchedInstance ps pid node = .ok r node₁) :
    node₁.pipeControllers.keys = node.pipeControllers.keys := keys_of_onPipe (register_returned h).2

/-- In front of an instance that registers every process still exists. -/
theorem answers_of_register {node₁ : ComputeNode}
    (h : registerLaunchedInstance ps pid node = .ok r node₁)
    (hkeys : node.pipeControllers.keys = [r.pipe]) (hc : node.pipeControllers.get? r.pipe = some c)
    (hp : c.processors.get? r.key = some p)
    (hnot : ∀ j ∈ c.instancesBefore r.key r.n, ¬ j.Owns ps pid) :
    ∀ j ∈ c.instancesBefore r.key r.n, j.Answers ps := by
  by_contra hgone
  push Not at hgone
  obtain ⟨e, hcall⟩ := register_gone hkeys hc hp hnot hgone
  rw [hcall] at h
  cases h

/-- In front of an instance that attaches every process still exists. -/
theorem answers_of_attachProc {rest : List String} {node₁ : ComputeNode}
    (h : attachProc ps pid node = .ok (some (r, rest)) node₁)
    (hc : node.pipeControllers.get? r.pipe = some c) (hp : c.processors.get? r.key = some p)
    (hnot : ∀ j ∈ c.instancesBefore r.key r.n, ¬ j.Owns ps pid) :
    ∀ j ∈ c.instancesBefore r.key r.n, j.Answers ps := by
  by_contra hgone
  push Not at hgone
  obtain ⟨e, hcall⟩ := PipeController.connectProc_gone_at hp hnot hgone
  obtain ⟨c', hok⟩ := (onPipe_eq_ok_iff hc).mp ⟨_, (attachFrom_eq_ok_iff.mp h).2⟩
  rw [hcall] at hok
  cases hok

/-- The only pipe connects its instance when everything in front of it answers, and then returns. -/
theorem attachProc_ok (hkeys : (node.withPipe r.pipe c).pipeControllers.keys = [r.pipe])
    (hp : c.processors.get? r.key = some p) (hi : p.instances[r.n]? = some i) (howns : i.Owns ps pid)
    (hnot : ∀ j ∈ c.instancesBefore r.key r.n, ¬ j.Owns ps pid)
    (h : ∀ j ∈ c.instancesBefore r.key r.n, j.Answers ps) :
    ∃ node₂, attachProc ps pid (node.withPipe r.pipe c) = .ok (some (r, [])) node₂ ∧
      (∃ i, node₂.instanceAt r = some i ∧ i.connected = true) ∧
      ∃ node₃, detachProc ps pid r [] node₂ = .ok none node₃ := by
  have hcall := PipeController.connectProc_at hp hi howns hnot h
  have hi' : (p.instances.modify r.n WorkerController.connectProc)[r.n]? = some i.connectProc := by
    rw [List.getElem?_modify_eq, hi]
    rfl
  have hp' := c.get?_withProcessor r.key
    { p with instances := p.instances.modify r.n WorkerController.connectProc }
  have hc' := node.pipeControllers.get?_set_self r.pipe (c.withProcessor r.key
    { p with instances := p.instances.modify r.n WorkerController.connectProc })
  refine ⟨_, attachFrom_eq_ok_iff.mpr ⟨hkeys, onPipe_withPipe hcall⟩, ⟨i.connectProc, ?_, rfl⟩, ?_⟩
  · exact instanceAt_eq_some_iff.mpr ⟨_, _, hc', hp', hi'⟩
  · exact detachProc_nil hp' hi'

/-! ## Both together -/

/-- Registration and attachment agree exactly when the owner's pipe is the only one and the process of
every instance in front of the owner still exists. -/
theorem registers_and_attaches_iff {ps' : ℕ → Except PyError (List ℕ)}
    (howner : node.OwnerOf ps pid r) (howner' : node.OwnerOf ps' pid r)
    (hlaunched : ∀ i, node.instanceAt r = some i → i.isLaunched) :
    node.RegistersAndAttaches ps ps' pid r ↔ node.pipeControllers.keys = [r.pipe] ∧
      ∀ j ∈ node.instancesBefore r, j.Answers ps ∧ j.Answers ps' := by
  obtain ⟨i, hat, howns⟩ := howner.owns
  obtain ⟨c, p, hc, hp, hi⟩ := instanceAt_eq_some_iff.mp hat
  have howns' : i.Owns ps' pid := by
    obtain ⟨i', hat', howns'⟩ := howner'.owns
    obtain rfl := Option.some.inj (hat.symm.trans hat')
    exact howns'
  have hnot := howner.not_owns_before hc
  have hnot' := howner'.not_owns_before hc
  have hbefore : node.instancesBefore r = c.instancesBefore r.key r.n := by
    rw [instancesBefore, hc]
    rfl
  rw [hbefore]
  -- the pipe behind the registration
  have hp₁ := c.get?_withProcessor r.key
    { p with instances := p.instances.set r.n { i with state := .ready } }
  have hi₁ : (p.instances.set r.n { i with state := .ready })[r.n]? = some { i with state := .ready } :=
    List.getElem?_set_self (List.getElem?_eq_some_iff.mp hi).1
  have hbefore₁ := PipeController.instancesBefore_withInstance (n := r.n)
    (i := { i with state := .ready }) hp
  rw [← hbefore₁] at hnot'
  constructor
  · rintro ⟨node₁, hregister, names, node₂, hattach, -, node₃, hdetach⟩
    have hnames := (attachFrom_eq_ok_iff.mp hattach).1
    have hkeys : node.pipeControllers.keys = [r.pipe] := by
      rw [← keys_of_register hregister, hnames, detachProc_eq_none hdetach]
    have hanswers := answers_of_register hregister hkeys hc hp hnot
    have hready := register_ok hkeys hc hp hi howns (hlaunched i hat) hnot hanswers
    obtain ⟨-, rfl⟩ := EStateM.Result.ok.inj (hready.symm.trans hregister)
    have hc₁ := node.pipeControllers.get?_set_self r.pipe
      (c.withInstance r.key p r.n { i with state := .ready })
    have hanswers' := answers_of_attachProc hattach hc₁ hp₁ hnot'
    rw [hbefore₁] at hanswers'
    exact ⟨hkeys, fun j hj => ⟨hanswers j hj, hanswers' j hj⟩⟩
  · rintro ⟨hkeys, hanswers⟩
    have hready := register_ok hkeys hc hp hi howns (hlaunched i hat) hnot
      fun j hj => (hanswers j hj).1
    obtain ⟨node₂, hattach⟩ := attachProc_ok ((keys_of_register hready).trans hkeys) hp₁ hi₁ howns' hnot'
      fun j hj => (hanswers j (hbefore₁ ▸ hj)).2
    exact ⟨_, hready, [], node₂, hattach⟩

/-- To be the owner is a matter of the instances that are listed. -/
theorem ownerOf_of_forall (hat : node.instanceAt r = some i) (howns : i.Owns ps pid)
    (h : ∀ x ∈ node.pipeControllers.entries, ∀ y ∈ x.2.processors.entries,
      ∀ m < y.2.instances.length, ∀ j ∈ y.2.instances[m]?, j.Owns ps pid → ⟨x.1, y.1, m⟩ = r) :
    node.OwnerOf ps pid r where
  owns := ⟨i, hat, howns⟩
  alone r' j hat' howns' := by
    obtain ⟨c, p, hc, hp, hj⟩ := instanceAt_eq_some_iff.mp hat'
    exact h (r'.pipe, c) (node.pipeControllers.get?_eq_some_iff.mp hc) (r'.key, p)
      (c.processors.get?_eq_some_iff.mp hp) r'.n (List.getElem?_eq_some_iff.mp hj).1 j hj howns'

end ComputeNode

end Lookup

/-! ## One started pipe, alone and beside another -/

namespace ComputeNode

/-- A pipe of one processor whose instance has the pid 7. -/
def startedPipe : PipeController :=
  stateOf (PipeController.start (fun _ => (7, "")) (PipeController.load APIPipe.oneChild))

/-- A child of the instance registers in a node with this pipe only. -/
theorem registers_and_attaches_iff_single :
    RegistersAndAttaches (fun _ => .ok [8]) (fun _ => .ok [8]) 8 ⟨"main", "a", 0⟩
        ⟨Dict.empty.set "main" startedPipe⟩ ↔
      (Dict.empty.set "main" startedPipe).keys = ["main"] ∧
        ∀ j ∈ instancesBefore ⟨Dict.empty.set "main" startedPipe⟩ ⟨"main", "a", 0⟩,
          j.Answers (fun _ => .ok [8]) ∧ j.Answers (fun _ => .ok [8]) := by
  have hat : ((⟨Dict.empty.set "main" startedPipe⟩ : ComputeNode).instanceAt ⟨"main", "a", 0⟩).any
      (fun i => decide (i.Owns (fun _ => .ok [8]) 8 ∧ i.isLaunched)) = true := by decide +kernel
  obtain ⟨i, hi, hgood⟩ := (Option.any_eq_true _ _).mp hat
  obtain ⟨howns, hlaunched⟩ := of_decide_eq_true hgood
  have howner := ownerOf_of_forall hi howns (by decide +kernel)
  refine registers_and_attaches_iff howner howner ?_
  intro i' hi'
  obtain rfl := Option.some.inj (hi.symm.trans hi')
  exact hlaunched

/-- With a second pipe loaded in front, the instance registers, and then its attachment raises. -/
theorem attach_raises_beside_other_pipe :
    let node : ComputeNode :=
      ⟨(Dict.empty.set "other" (PipeController.load { APIPipe.loneRoot with
        id := "other", name := "other" })).set "main" startedPipe⟩
    node.OwnerOf (fun _ => .ok []) 7 ⟨"main", "a", 0⟩ ∧
      (∀ i, node.instanceAt ⟨"main", "a", 0⟩ = some i → i.isLaunched) ∧
      (∃ node₁, registerLaunchedInstance (fun _ => .ok []) 7 node = .ok ⟨"main", "a", 0⟩ node₁) ∧
      ¬ node.RegistersAndAttaches (fun _ => .ok []) (fun _ => .ok []) 7 ⟨"main", "a", 0⟩ := by
  intro node
  have hat : (node.instanceAt ⟨"main", "a", 0⟩).any
      (fun i => decide (i.Owns (fun _ => .ok []) 7 ∧ i.isLaunched)) = true := by decide +kernel
  obtain ⟨i, hi, hgood⟩ := (Option.any_eq_true _ _).mp hat
  obtain ⟨howns, hlaunched⟩ := of_decide_eq_true hgood
  refine ⟨ownerOf_of_forall hi howns (by decide +kernel), ?_,
    returned_eq_some_iff.mp (by decide +kernel), ?_⟩
  · intro i' hi'
    obtain rfl := Option.some.inj (hi.symm.trans hi')
    exact hlaunched
  · rintro ⟨node₁, hregister, names, node₂, hattach, -⟩
    have hkeys := (attachFrom_eq_ok_iff.mp hattach).1
    rw [keys_of_register hregister] at hkeys
    have hfirst : node.pipeControllers.keys.head? = some "other" := by decide +kernel
    rw [hkeys, List.head?_cons] at hfirst
    exact absurd hfirst (by decide)

end ComputeNode

end Upipe
