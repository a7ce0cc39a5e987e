import Upipe.Node.Manager.Draining

/-!
# The baby sitter

Every second `baby_sitter` counts the instances of each pipe that are not DONE, and completes a pipe that
has none. `monitor_pipe` iterates over a list of instances from which `handle_instance_exit` removes the
ones that have exited cleanly, so the instance behind a removed one moves to its place and is passed
over.

`visitCount` is the count that this gives, on the list alone; `monitorLoop_eq` says that the loop
returns it, and `visitCount_eq_iff` when it is the number of live instances.
-/

namespace Upipe

open Upipe.Common

/-! ## Definitions -/

namespace WorkerController

/-- What is waiting in the output queue. -/
def stdoutSize (i : WorkerController) : ℕ :=
  match i.stdoutQ with
  | .process chunks => chunks.length
  | .subProcess lines => lines.length

/-- At most `n` calls of `read_stdout_line`, up to the first without a line. -/
def readLines : ℕ → PyM WorkerController Unit
  | 0 => pure ()
  | n + 1 => do
      match ← readStdoutLine with
      | none => pure ()
      | some _ => readLines n

/-- How often a visit of `monitor_pipe` reads at most: an instance that is DONE is read to the end. -/
def visitReads (i : WorkerController) : ℕ := if i.isDone then i.stdoutSize + 1 else 3

/-- `handle_instance_exit` removes the instance. -/
def cleanExit (i : WorkerController) : Bool := i.isDone ∧ i.exitCode = some 0

end WorkerController

namespace PipeController

def running (c : PipeController) : Bool := c.status = .running

/-- `remove_instance`, for the instance at position `n` of the processor under `key`. -/
def removeInstance (key : String) (n : ℕ) (i : WorkerController) : PyM PipeController Unit :=
  onProcessor i.procId (do
    if i.procId = key then modify fun p => { p with instances := p.instances.eraseIdx n }
    else throw ⟨.valueError, "list.remove(x): x not in list"⟩)

/-- `handle_instance_exit`, for the instance at position `n` of the processor under `key`. -/
def handleInstanceExit (key : String) (n : ℕ) (i : WorkerController) : PyM PipeController Unit := do
  if i.exitCode = some 0 then do
    onProcessor i.procId (modify (ProcessorController.onComplete false))
    removeInstance key n i
  else onProcessor i.procId (modify (ProcessorController.onComplete true))

/-- `cleanup`. -/
def cleanup : PyM PipeController Unit := modify (schedule .completed)

/-- The loop of `monitor_pipe` over the instances of one processor, from position `n` on. The list may
change under it: `fuel` is the number of turns left, at most one for each instance at the start. -/
def monitorLoop (key : String) : ℕ → ℕ → ℕ → PyM PipeController ℕ
  | 0, _, running => pure running
  | fuel + 1, n, running => do
      let c ← get
      let p ← ofExcept (c.processor key)
      match p.instances[n]? with
      | none => pure running
      | some i =>
          onProcessor key (ProcessorController.onInstance n (WorkerController.readLines i.visitReads))
          if i.isDone then do
            handleInstanceExit key n i
            monitorLoop key fuel (n + 1) running
          else monitorLoop key fuel (n + 1) (running + 1)

/-- The loop of `monitor_pipe` over the processors. -/
def monitorProcessors : List String → ℕ → PyM PipeController ℕ
  | [], running => pure running
  | key :: keys, running => do
      let c ← get
      let p ← ofExcept (c.processor key)
      let running ← monitorLoop key p.instances.length 0 running
      monitorProcessors keys running

/-- The body of `monitor_pipe`, on the controller of the pipe. -/
def monitorPipe : PyM PipeController ℕ := do
  let c ← get
  monitorProcessors c.processors.keys 0

end PipeController

/-- `ComputeNode`. -/
structure ComputeNode where
  pipeControllers : Dict String PipeController

namespace ComputeNode

/-- A method call on `self.pipe_controllers[name]`. -/
def onPipe {α : Type} (name : String) (m : PyM PipeController α) : PyM ComputeNode α := fun node =>
  match node.pipeControllers.get? name with
  | none => .error ⟨.keyError, name⟩ node
  | some c =>
      match m c with
      | .ok a c' => .ok a { node with pipeControllers := node.pipeControllers.set name c' }
      | .error e c' => .error e { node with pipeControllers := node.pipeControllers.set name c' }

/-- `running_pipes_count`. -/
def runningPipesCount (node : ComputeNode) : ℕ :=
  (node.pipeControllers.values.filter PipeController.running).length

/-- `monitor_pipe`. -/
def monitorPipe (name : String) : PyM ComputeNode ℕ := onPipe name PipeController.monitorPipe

/-- The loop of `baby_sitter` over the pipes. -/
def babySitterLoop : List String → PyM ComputeNode Unit
  | [] => pure ()
  | name :: names => do
      let runningInstances ← monitorPipe name
      if runningInstances = 0 then onPipe name PipeController.cleanup
      babySitterLoop names

/-- One tick of `baby_sitter`, as far as the monitoring of the pipes goes. -/
def babySitterTick : PyM ComputeNode Unit := do
  let node ← get
  if node.runningPipesCount = 0 then pure ()
  else babySitterLoop node.pipeControllers.keys

end ComputeNode

/-! ## The instances that a loop visits -/

namespace WorkerController

/-- Each line read leaves one less in the queue. -/
theorem stdoutSize_of_readStdoutLine {i i' : WorkerController} {line : String}
    (h : readStdoutLine i = .ok (some line) i') : i'.stdoutSize + 1 = i.stdoutSize := by
  rw [readStdoutLine, get_bind_apply] at h
  rw [stdoutSize, stdoutSize]
  rcases hq : i.stdoutQ with (- | ⟨chunk, rest⟩) | (- | ⟨chunk, rest⟩)
  · rw [hq] at h
    cases h
  · rw [hq] at h
    obtain ⟨-, rfl⟩ := EStateM.Result.ok.inj h
    rfl
  · rw [hq] at h
    cases h
  · rw [hq] at h
    by_cases hempty : chunk = []
    · rw [hempty] at h
      cases h
    · change (if chunk = [] then pure none else _ : PyM WorkerController (Option String)) _ = _ at h
      rw [if_neg hempty] at h
      cases htext : decodeUtf8 chunk with
      | error e =>
        rw [htext] at h
        cases h
      | ok text =>
        rw [htext] at h
        obtain ⟨-, rfl⟩ := EStateM.Result.ok.inj h
        rfl

/-- The loop that reads an instance to the end does end: with more calls than lines it makes no
difference how many. -/
theorem readLines_eq_of_lt {m n : ℕ} {i : WorkerController} (hm : i.stdoutSize < m)
    (hn : i.stdoutSize < n) : readLines m i = readLines n i := by
  induction m generalizing n i with
  | zero => exact absurd hm (Nat.not_lt_zero _)
  | succ m ih =>
    obtain ⟨n, rfl⟩ := Nat.exists_eq_succ_of_ne_zero (Nat.ne_of_gt (Nat.zero_lt_of_lt hn))
    rw [readLines, readLines]
    cases hread : readStdoutLine i with
    | error e i' => rw [bind_error hread, bind_error hread]
    | ok line i' =>
      rw [bind_ok hread, bind_ok hread]
      cases line with
      | none => rfl
      | some line =>
        have hsize := stdoutSize_of_readStdoutLine hread
        exact ih (by omega) (by omega)

/-- The visit of `monitor_pipe` can read what it reads of the output. -/
def readable (i : WorkerController) : Bool :=
  match readLines i.visitReads i with
  | .ok .. => true
  | .error .. => false

/-- The instances that the loop visits. One that is removed takes the next one's turn. -/
def visited : Bool → List WorkerController → List WorkerController
  | _, [] => []
  | true, _ :: instances => visited false instances
  | false, i :: instances => i :: visited i.cleanExit instances

/-- The instances that the loop does not visit. -/
def passedOver : Bool → List WorkerController → List WorkerController
  | _, [] => []
  | true, i :: instances => i :: passedOver false instances
  | false, i :: instances => passedOver i.cleanExit instances

/-- The number of instances that are not DONE. -/
def liveCount (instances : List WorkerController) : ℕ := instances.countP fun i => !i.isDone

theorem liveCount_cons_of_done {i : WorkerController} (h : i.isDone) (instances : List WorkerController) :
    liveCount (i :: instances) = liveCount instances := by
  rw [liveCount, List.countP_cons_of_neg (by simp [h]), liveCount]

theorem liveCount_cons_of_not_done {i : WorkerController} (h : ¬ i.isDone)
    (instances : List WorkerController) :
    liveCount (i :: instances) = liveCount instances + 1 := by
  rw [liveCount, List.countP_cons_of_pos (by simp [h]), liveCount]

theorem liveCount_append (xs ys : List WorkerController) :
    liveCount (xs ++ ys) = liveCount xs + liveCount ys :=
  List.countP_append

/-- Every instance is visited or passed over. -/
theorem liveCount_eq_add (skip : Bool) (instances : List WorkerController) :
    liveCount instances
      = liveCount (visited skip instances) + liveCount (passedOver skip instances) := by
  induction instances generalizing skip with
  | nil => cases skip <;> rfl
  | cons i instances ih =>
    by_cases hdone : i.isDone
    · cases skip with
      | true => rw [visited, passedOver, liveCount_cons_of_done hdone, liveCount_cons_of_done hdone, ih]
      | false => rw [visited, passedOver, liveCount_cons_of_done hdone, liveCount_cons_of_done hdone, ih]
    · cases skip with
      | true =>
        rw [visited, passedOver, liveCount_cons_of_not_done hdone, liveCount_cons_of_not_done hdone,
          ih false, Nat.add_assoc]
      | false =>
        rw [visited, passedOver, liveCount_cons_of_not_done hdone, liveCount_cons_of_not_done hdone,
          ih i.cleanExit, Nat.add_right_comm]

theorem liveCount_eq_zero_iff {instances : List WorkerController} :
    liveCount instances = 0 ↔ ∀ i ∈ instances, i.isDone := by
  rw [liveCount, List.countP_eq_zero]
  simp only [Bool.not_eq_true', Bool.not_eq_false]

end WorkerController

namespace PipeController

/-! ## One turn of the loop -/

def withProcessor (c : PipeController) (key : String) (p : ProcessorController) : PipeController :=
  { c with processors := c.processors.set key p }

theorem get?_withProcessor (c : PipeController) (key : String) (p : ProcessorController) :
    (c.withProcessor key p).processors.get? key = some p :=
  c.processors.get?_set_self key p

theorem withProcessor_of_get? {c : PipeController} {key : String} {p : ProcessorController}
    (h : c.processors.get? key = some p) : c.withProcessor key p = c := by
  rw [withProcessor, c.processors.set_of_get? h]

theorem withProcessor_set (c : PipeController) (key : String) (p p' : ProcessorController) :
    { c.withProcessor key p with processors := (c.withProcessor key p).processors.set key p' }
      = c.withProcessor key p' := by
  show ({ c with processors := (c.processors.set key p).set key p' } : PipeController) = _
  rw [c.processors.set_set]
  rfl

/-- A call on a processor that is there. -/
theorem onProcessor_ok {α : Type} {key : String} {m : PyM ProcessorController α} {c : PipeController}
    {p p' : ProcessorController} {a : α} (hp : c.processors.get? key = some p) (h : m p = .ok a p') :
    onProcessor key m c = .ok a (c.withProcessor key p') := by
  rw [onProcessor, hp]
  simp only [h]
  rfl

theorem onProcessor_error {α : Type} {key : String} {m : PyM ProcessorController α} {c : PipeController}
    {p p' : ProcessorController} {e : PyError} (hp : c.processors.get? key = some p) (h : m p = .error e p') :
    onProcessor key m c = .error e (c.withProcessor key p') := by
  rw [onProcessor, hp]
  simp only [h]
  rfl

theorem onProcessor_withProcessor_ok {α : Type} {key : String} {m : PyM ProcessorController α}
    {c : PipeController} {p p' : ProcessorController} {a : α} (h : m p = .ok a p') :
    onProcessor key m (c.withProcessor key p) = .ok a (c.withProcessor key p') := by
  rw [onProcessor_ok (get?_withProcessor c key p) h]
  exact congrArg (EStateM.Result.ok a) (withProcessor_set c key p p')

theorem onProcessor_withProcessor_error {α : Type} {key : String} {m : PyM ProcessorController α}
    {c : PipeController} {p p' : ProcessorController} {e : PyError} (h : m p = .error e p') :
    onProcessor key m (c.withProcessor key p) = .error e (c.withProcessor key p') := by
  rw [onProcessor_error (get?_withProcessor c key p) h]
  exact congrArg (EStateM.Result.error e) (withProcessor_set c key p p')

theorem processor_withProcessor (c : PipeController) (key : String) (p : ProcessorController) :
    (c.withProcessor key p).processor key = .ok p := by
  rw [processor, get?_withProcessor]

variable {c : PipeController} {key : String} {p : ProcessorController} {n fuel running : ℕ}
  {i : WorkerController}

/-- The loop ends behind the last instance. -/
theorem monitorLoop_end (h : p.instances[n]? = none) :
    monitorLoop key fuel n running (c.withProcessor key p)
      = .ok running (c.withProcessor key p) := by
  cases fuel with
  | zero => rfl
  | succ fuel =>
    rw [monitorLoop, get_bind_apply, processor_withProcessor]
    show (match p.instances[n]? with
      | none => pure running
      | some i => _ : PyM PipeController ℕ) _ = _
    rw [h]
    rfl

/-- A turn reads the output of the instance and then looks at its state. -/
theorem monitorLoop_succ (h : p.instances[n]? = some i) :
    monitorLoop key (fuel + 1) n running (c.withProcessor key p)
      = (onProcessor key (ProcessorController.onInstance n (WorkerController.readLines i.visitReads))
          >>= fun _ => if i.isDone then handleInstanceExit key n i >>= fun _ =>
              monitorLoop key fuel (n + 1) running
            else monitorLoop key fuel (n + 1) (running + 1) : PyM PipeController ℕ)
        (c.withProcessor key p) := by
  rw [monitorLoop, get_bind_apply, processor_withProcessor]
  show (match p.instances[n]? with
    | none => pure running
    | some i => _ : PyM PipeController ℕ) _ = _
  rw [h]

theorem read_ok (c : PipeController) (key : String) (h : p.instances[n]? = some i) (hread : i.readable) :
    ∃ i', onProcessor key (ProcessorController.onInstance n
        (WorkerController.readLines i.visitReads)) (c.withProcessor key p)
      = .ok () (c.withProcessor key { p with instances := p.instances.set n i' }) := by
  rw [WorkerController.readable] at hread
  split at hread
  · rename_i i' hcall
    refine ⟨i', onProcessor_withProcessor_ok ?_⟩
    rw [ProcessorController.onInstance, h]
    simp only [hcall]
  · cases hread

theorem read_error (c : PipeController) (key : String) (h : p.instances[n]? = some i)
    (hread : ¬ i.readable) :
    ∃ e c', onProcessor key (ProcessorController.onInstance n
        (WorkerController.readLines i.visitReads)) (c.withProcessor key p) = .error e c' := by
  rw [WorkerController.readable] at hread
  split at hread
  · exact absurd rfl hread
  · rename_i e i' hcall
    have hcall' : ProcessorController.onInstance n (WorkerController.readLines i.visitReads) p
        = .error e { p with instances := p.instances.set n i' } := by
      rw [ProcessorController.onInstance, h]
      simp only [hcall]
    exact ⟨e, _, onProcessor_withProcessor_error hcall'⟩

/-- An instance that exited with an error stays in the list. -/
theorem handleInstanceExit_keep (hkey : i.procId = key) (hcode : i.exitCode ≠ some 0) :
    handleInstanceExit key n i (c.withProcessor key p)
      = .ok () (c.withProcessor key { p with status := .completed }) := by
  subst hkey
  rw [handleInstanceExit, if_neg hcode]
  exact onProcessor_withProcessor_ok rfl

/-- An instance that exited cleanly is removed. -/
theorem handleInstanceExit_remove (hkey : i.procId = key) (hcode : i.exitCode = some 0) :
    handleInstanceExit key n i (c.withProcessor key p)
      = .ok () (c.withProcessor key { p with instances := p.instances.eraseIdx n, status := .completed }) := by
  subst hkey
  rw [handleInstanceExit, if_pos hcode]
  have hcomplete : onProcessor i.procId (modify (ProcessorController.onComplete false))
      (c.withProcessor i.procId p)
        = .ok () (c.withProcessor i.procId (p.onComplete false)) := onProcessor_withProcessor_ok rfl
  rw [bind_ok hcomplete, removeInstance, if_pos rfl]
  exact onProcessor_withProcessor_ok rfl

/-! ## The loop over the instances -/

/-- A call that raises when one of the instances cannot be read, and otherwise adds the number of live
ones to the count and leaves a good state behind. -/
def Counts (Good : PipeController → Prop) (visits : List WorkerController) (running : ℕ)
    (result : EStateM.Result PyError PipeController ℕ) : Prop :=
  (∀ i ∈ visits, i.readable) ∧
      (∃ c', result = .ok (running + WorkerController.liveCount visits) c' ∧ Good c')
    ∨ (¬ ∀ i ∈ visits, i.readable) ∧ ∃ e c', result = .error e c'

variable {Good : PipeController → Prop} {visits : List WorkerController}

theorem counts_nil (h : Good c) : Counts Good [] running (.ok running c) :=
  Or.inl ⟨fun _ hi => (nomatch hi), c, rfl, h⟩

theorem Counts.cons_done {result : EStateM.Result PyError PipeController ℕ} (hread : i.readable)
    (hdone : i.isDone) (h : Counts Good visits running result) :
    Counts Good (i :: visits) running result := by
  rw [Counts, List.forall_mem_cons, and_iff_right hread, WorkerController.liveCount_cons_of_done hdone]
  exact h

theorem Counts.cons_live {result : EStateM.Result PyError PipeController ℕ} (hread : i.readable)
    (hdone : ¬ i.isDone) (h : Counts Good visits (running + 1) result) :
    Counts Good (i :: visits) running result := by
  rw [Counts, List.forall_mem_cons, and_iff_right hread,
    WorkerController.liveCount_cons_of_not_done hdone, Nat.add_comm _ 1, ← Nat.add_assoc]
  exact h

/-- Counting on from where a first count ends. -/
theorem Counts.bind {Good' : PipeController → Prop} {visits' : List WorkerController}
    {first : PyM PipeController ℕ} {next : ℕ → PyM PipeController ℕ}
    (h : Counts Good visits running (first c))
    (hnext : ∀ c' m, Good c' → Counts Good' visits' m (next m c')) :
    Counts Good' (visits ++ visits') running ((first >>= next) c) := by
  rcases h with ⟨hread, c', hcall, hgood⟩ | ⟨hread, e, c', hcall⟩
  · rw [bind_ok hcall, Counts, List.forall_mem_append, and_iff_right hread,
      WorkerController.liveCount_append, ← Nat.add_assoc]
    exact hnext c' _ hgood
  · right
    refine ⟨fun hall => hread fun i hi => hall i (List.mem_append_left _ hi), e, c', ?_⟩
    rw [bind_error hcall]

private theorem set_at_length (pre rest : List WorkerController) (i i' : WorkerController) :
    (pre ++ i :: rest).set pre.length i' = (pre ++ [i']) ++ rest := by
  rw [List.set_append_right _ _ (Nat.le_refl _), Nat.sub_self, List.set_cons_zero, List.append_assoc,
    List.singleton_append]

private theorem eraseIdx_at_length (pre rest : List WorkerController) (i : WorkerController) :
    (pre ++ i :: rest).eraseIdx pre.length = pre ++ rest := by
  rw [List.eraseIdx_append_of_length_le (Nat.le_refl _), Nat.sub_self, List.eraseIdx_zero,
    List.tail_cons]

/-- The loop over the instances behind `pre`. -/
theorem monitorLoop_counts (running : ℕ) {pre rest : List WorkerController}
    (hinst : p.instances = pre ++ rest)
    (hkeys : ∀ i ∈ rest, i.procId = key) (hfuel : rest.length ≤ fuel) :
    Counts (fun c' => ∃ p', c' = c.withProcessor key p') (WorkerController.visited false rest) running
      (monitorLoop key fuel pre.length running (c.withProcessor key p)) := by
  induction fuel generalizing pre rest p running with
  | zero =>
    obtain rfl := List.length_eq_zero_iff.mp (Nat.le_zero.mp hfuel)
    exact counts_nil ⟨p, rfl⟩
  | succ fuel ih =>
    rcases rest with - | ⟨i, rest⟩
    · rw [List.append_nil] at hinst
      rw [monitorLoop_end (by rw [hinst, List.getElem?_eq_none (Nat.le_refl _)])]
      exact counts_nil ⟨p, rfl⟩
    have hget : p.instances[pre.length]? = some i := by
      rw [hinst, List.getElem?_append_right (Nat.le_refl _), Nat.sub_self, List.getElem?_cons_zero]
    have hi : i.procId = key := hkeys i List.mem_cons_self
    have hrest : ∀ j ∈ rest, j.procId = key := fun j hj => hkeys j (List.mem_cons_of_mem _ hj)
    have hlen : rest.length ≤ fuel := Nat.le_of_succ_le_succ hfuel
    rw [monitorLoop_succ hget, WorkerController.visited]
    -- `rest` is what lies from the index on
    by_cases hread : i.readable
    · obtain ⟨i', hcall⟩ := read_ok c key hget hread
      have hset : p.instances.set pre.length i' = (pre ++ [i']) ++ rest := by
        rw [hinst, set_at_length]
      have hnext : pre.length + 1 = (pre ++ [i']).length := by
        rw [List.length_append, List.length_singleton]
      rw [bind_ok hcall]
      by_cases hdone : i.isDone
      · rw [if_pos hdone]
        by_cases hcode : i.exitCode = some 0
        · -- the next instance moves to the place of the one removed
          have hexit := handleInstanceExit_remove (c := c) (n := pre.length)
            (p := { p with instances := p.instances.set pre.length i' }) hi hcode
          have hclean : i.cleanExit = true := decide_eq_true ⟨hdone, hcode⟩
          have herase : (p.instances.set pre.length i').eraseIdx pre.length = pre ++ rest := by
            rw [hset, List.append_assoc, List.singleton_append, eraseIdx_at_length]
          rw [bind_ok hexit, hclean]
          apply Counts.cons_done hread hdone
          rcases rest with - | ⟨j, rest⟩
          · rw [List.append_nil] at herase
            rw [monitorLoop_end (by rw [herase, List.getElem?_eq_none (Nat.le_succ _)])]
            exact counts_nil ⟨_, rfl⟩
          · have hpass : (p.instances.set pre.length i').eraseIdx pre.length = (pre ++ [j]) ++ rest := by
              rw [herase, List.append_assoc, List.singleton_append]
            have hnext : pre.length + 1 = (pre ++ [j]).length := by
              rw [List.length_append, List.length_singleton]
            rw [WorkerController.visited, hnext]
            exact ih _ hpass (fun k hk => hrest k (List.mem_cons_of_mem _ hk)) (Nat.le_of_succ_le hlen)
        · have hexit := handleInstanceExit_keep (c := c) (n := pre.length)
            (p := { p with instances := p.instances.set pre.length i' }) hi hcode
          have hclean : i.cleanExit = false := decide_eq_false fun h => hcode h.2
          rw [bind_ok hexit, hclean, hnext]
          exact (ih _ hset hrest hlen).cons_done hread hdone
      · have hclean : i.cleanExit = false := decide_eq_false fun h => hdone h.1
        rw [if_neg hdone, hclean, hnext]
        exact (ih _ hset hrest hlen).cons_live hread hdone
    -- an instance that cannot be read ends the loop
    · right
      obtain ⟨e, c', hcall⟩ := read_error c key hget hread
      refine ⟨fun h => hread (h i List.mem_cons_self), e, c', ?_⟩
      rw [bind_error hcall]

/-! ## The loop over the processors -/

/-- Every instance is one of the processor that it is listed under. -/
def Keyed (c : PipeController) : Prop :=
  ∀ item ∈ c.processors.entries, ∀ i ∈ item.2.instances, i.procId = item.1

instance (c : PipeController) : Decidable c.Keyed :=
  inferInstanceAs (Decidable (∀ item ∈ _, ∀ i ∈ _, _))

/-- The instances that `monitor_pipe` visits. -/
def visitedInstances (c : PipeController) : List WorkerController :=
  c.processors.values.flatMap fun p => WorkerController.visited false p.instances

theorem monitorProcessors_counts {items : List (String × ProcessorController)}
    (hnodup : (items.map Prod.fst).Nodup)
    (hget : ∀ item ∈ items, c.processors.get? item.1 = some item.2)
    (hkeyed : ∀ item ∈ items, ∀ i ∈ item.2.instances, i.procId = item.1) {tasks}
    (htasks : c.tasks = tasks) :
    Counts (fun c' => c'.tasks = tasks)
      ((items.map Prod.snd).flatMap fun p => WorkerController.visited false p.instances) running
      (monitorProcessors (items.map Prod.fst) running c) := by
  induction items generalizing c running with
  | nil => exact counts_nil htasks
  | cons item items ih =>
    obtain ⟨key, p⟩ := item
    have hp : c.processors.get? key = some p := hget (key, p) List.mem_cons_self
    rw [List.map_cons, List.nodup_cons] at hnodup
    have hprocessor : c.processor key = .ok p := by rw [processor, hp]
    rw [List.map_cons, List.map_cons, List.flatMap_cons, monitorProcessors, get_bind_apply,
      hprocessor]
    have hloop := monitorLoop_counts (c := c) running (List.nil_append p.instances).symm
      (hkeyed (key, p) List.mem_cons_self) (Nat.le_refl _)
    rw [withProcessor_of_get? hp] at hloop
    refine Counts.bind hloop ?_
    rintro _ m ⟨p', rfl⟩
    -- the other processors are as they were
    apply ih hnodup.2
    · rintro ⟨l, w⟩ hitem
      have hne : l ≠ key := by
        rintro rfl
        have hmem := List.mem_map_of_mem (f := Prod.fst) hitem
        exact hnodup.1 hmem
      show (c.processors.set key p').get? l = some w
      rw [c.processors.get?_set_of_ne p' hne]
      exact hget (l, w) (List.mem_cons_of_mem _ hitem)
    · exact fun item hitem => hkeyed item (List.mem_cons_of_mem _ hitem)
    · exact htasks

/-- `monitor_pipe` counts the live instances among those that it visits. -/
theorem Keyed.monitorPipe_counts (h : c.Keyed) :
    Counts (fun c' => c'.tasks = c.tasks) c.visitedInstances 0 (monitorPipe c) := by
  rw [monitorPipe, get_bind_apply]
  exact monitorProcessors_counts c.processors.nodup (fun _ hitem => c.processors.get?_eq_some_iff.mpr hitem)
    h rfl

/-- The instances that `monitor_pipe` passes over. -/
def passedOverInstances (c : PipeController) : List WorkerController :=
  c.processors.values.flatMap fun p => WorkerController.passedOver false p.instances

/-- The number of instances of the pipe that are not DONE. -/
def liveInstances (c : PipeController) : ℕ :=
  WorkerController.liveCount (c.processors.values.flatMap ProcessorController.instances)

theorem liveInstances_eq_add (c : PipeController) :
    c.liveInstances = WorkerController.liveCount c.visitedInstances
      + WorkerController.liveCount c.passedOverInstances := by
  rw [liveInstances, visitedInstances, passedOverInstances]
  induction c.processors.values with
  | nil => rfl
  | cons p ps ih =>
    simp only [List.flatMap_cons, WorkerController.liveCount_append]
    rw [ih, WorkerController.liveCount_eq_add false p.instances, Nat.add_add_add_comm]

/-- What `monitor_pipe` visits can be read, and what it passes over is DONE. -/
def NoneMissed (c : PipeController) : Prop :=
  (∀ i ∈ c.visitedInstances, i.readable) ∧ ∀ i ∈ c.passedOverInstances, i.isDone

instance (c : PipeController) : Decidable c.NoneMissed :=
  inferInstanceAs (Decidable ((∀ i ∈ _, _) ∧ ∀ i ∈ _, _))

/-- `monitor_pipe` schedules nothing. -/
theorem Keyed.monitorPipe_tasks (h : c.Keyed) {m : ℕ} {c' : PipeController}
    (hcall : monitorPipe c = .ok m c') : c'.tasks = c.tasks := by
  rcases h.monitorPipe_counts with ⟨-, c₁, hcall', htasks⟩ | ⟨-, e, c₁, hcall'⟩
  · rw [hcall] at hcall'
    rw [(EStateM.Result.ok.inj hcall').2, htasks]
  · rw [hcall] at hcall'
    cases hcall'

/-- The count is right exactly when nothing is missed. -/
theorem Keyed.monitorPipe_exact_iff (h : c.Keyed) :
    (∃ c', monitorPipe c = .ok c.liveInstances c') ↔ c.NoneMissed := by
  rw [NoneMissed, ← WorkerController.liveCount_eq_zero_iff]
  have hadd := c.liveInstances_eq_add
  rcases h.monitorPipe_counts with ⟨hread, c₁, hcall, -⟩ | ⟨hread, e, c₁, hcall⟩
  · rw [hcall, and_iff_right hread, Nat.zero_add]
    constructor
    · rintro ⟨c', hc'⟩
      have := (EStateM.Result.ok.inj hc').1
      omega
    · intro hzero
      rw [hadd, hzero, Nat.add_zero]
      exact ⟨c₁, rfl⟩
  · rw [hcall]
    refine iff_of_false ?_ fun h => hread h.1
    rintro ⟨c', hc'⟩
    cases hc'

end PipeController

/-! ## One tick -/

namespace ComputeNode

/-- `monitor_pipe` returns the number of live instances of every pipe. -/
def MonitorExact (node : ComputeNode) : Prop :=
  ∀ name c, node.pipeControllers.get? name = some c →
    ∃ node', monitorPipe name node = .ok c.liveInstances node'

/-- A tick of the baby sitter completes a pipe only when nothing in it is alive. -/
def TickSafe (node : ComputeNode) : Prop :=
  ∀ name c c', node.pipeControllers.get? name = some c →
    (stateOf (babySitterTick node)).pipeControllers.get? name = some c' →
    PipeExecutionStatus.completed ∈ c'.tasks.drop c.tasks.length → c.liveInstances = 0

/-- What a safe tick leaves of a pipe. -/
def Ticked (c c' : PipeController) : Prop :=
  c'.tasks = c.tasks ∨ c'.tasks = c.tasks ++ [.completed] ∧ c.liveInstances = 0

variable {node : ComputeNode} {name : String} {c : PipeController}

theorem onPipe_ok {α : Type} {m : PyM PipeController α} {a : α} {c' : PipeController}
    (hget : node.pipeControllers.get? name = some c) (h : m c = .ok a c') :
    onPipe name m node = .ok a { node with pipeControllers := node.pipeControllers.set name c' } := by
  rw [onPipe, hget]
  simp only [h]

/-- A call on a pipe returns only when the call on its controller does. -/
theorem onPipe_eq_ok_iff {α : Type} {m : PyM PipeController α} {a : α}
    (hget : node.pipeControllers.get? name = some c) :
    (∃ node', onPipe name m node = .ok a node') ↔ ∃ c', m c = .ok a c' := by
  constructor
  · rintro ⟨node', h⟩
    rw [onPipe, hget] at h
    cases hcall : m c with
    | ok b c' =>
      simp only [hcall] at h
      exact ⟨c', congrArg (EStateM.Result.ok · c') (EStateM.Result.ok.inj h).1⟩
    | error e c' =>
      simp only [hcall] at h
      cases h
  · rintro ⟨c', h⟩
    exact ⟨_, onPipe_ok hget h⟩

/-- The turn of one pipe, when its count is right. -/
theorem turn_ticked (hget : node.pipeControllers.get? name = some c) {c₁ : PipeController}
    (hcall : PipeController.monitorPipe c = .ok c.liveInstances c₁) (htasks : c₁.tasks = c.tasks)
    (names : List String) :
    ∃ c', Ticked c c' ∧ babySitterLoop (name :: names) node = babySitterLoop names
      { node with pipeControllers := node.pipeControllers.set name c' } := by
  rw [babySitterLoop, monitorPipe, bind_ok (onPipe_ok hget hcall)]
  by_cases hzero : c.liveInstances = 0
  · refine ⟨PipeController.schedule .completed c₁, Or.inr ⟨?_, hzero⟩, ?_⟩
    · rw [PipeController.schedule, htasks]
    · have hclean : onPipe name PipeController.cleanup
            { node with pipeControllers := node.pipeControllers.set name c₁ } = _ :=
        onPipe_ok (node.pipeControllers.get?_set_self name c₁) rfl
      dsimp only
      rw [if_pos hzero, bind_ok hclean, Dict.set_set]
  · refine ⟨c₁, Or.inl htasks, ?_⟩
    rw [if_neg hzero]

/-- The loop of a tick, over pipes that it has not come to yet. -/
theorem babySitterLoop_ticked {node₀ : ComputeNode} {names : List String} (hnodup : names.Nodup)
    (hexact : ∀ name ∈ names, ∃ c c₁, node₀.pipeControllers.get? name = some c
      ∧ PipeController.monitorPipe c = .ok c.liveInstances c₁ ∧ c₁.tasks = c.tasks)
    (hnode : ∀ name c, node₀.pipeControllers.get? name = some c →
      ∃ c', node.pipeControllers.get? name = some c' ∧ (name ∈ names → c' = c) ∧ Ticked c c') :
    ∀ name c, node₀.pipeControllers.get? name = some c →
      ∃ c', (stateOf (babySitterLoop names node)).pipeControllers.get? name = some c' ∧ Ticked c c' := by
  induction names generalizing node with
  | nil =>
    intro name c hc
    obtain ⟨c', hc', -, hticked⟩ := hnode name c hc
    exact ⟨c', hc', hticked⟩
  | cons name names ih =>
    rw [List.nodup_cons] at hnodup
    obtain ⟨c, c₁, hc, hcall, htasks⟩ := hexact name List.mem_cons_self
    obtain ⟨_, hget, heq, -⟩ := hnode name c hc
    rw [heq List.mem_cons_self] at hget
    obtain ⟨c', hticked, hturn⟩ := turn_ticked hget hcall htasks names
    rw [hturn]
    refine ih hnodup.2 (fun l hl => hexact l (List.mem_cons_of_mem _ hl)) ?_
    intro l d hd
    by_cases hl : l = name
    · -- this pipe's turn is over
      subst hl
      obtain rfl := Option.some.inj (hc.symm.trans hd)
      exact ⟨c', node.pipeControllers.get?_set_self l c', fun hl => absurd hl hnodup.1, hticked⟩
    · obtain ⟨d', hd', hkeep, hticked'⟩ := hnode l d hd
      refine ⟨d', ?_, fun hmem => hkeep (List.mem_cons_of_mem _ hmem), hticked'⟩
      show (node.pipeControllers.set name c').get? l = some d'
      rw [node.pipeControllers.get?_set_of_ne c' hl, hd']

/-- With the counts right a tick is safe. -/
theorem MonitorExact.tickSafe (h : node.MonitorExact)
    (hkeyed : ∀ c ∈ node.pipeControllers.values, c.Keyed) : node.TickSafe := by
  have hticked : ∀ name c, node.pipeControllers.get? name = some c →
      ∃ c', (stateOf (babySitterTick node)).pipeControllers.get? name = some c' ∧ Ticked c c' := by
    rw [babySitterTick, get_bind_apply]
    split
    · intro name c hc
      exact ⟨c, hc, Or.inl rfl⟩
    · refine babySitterLoop_ticked node.pipeControllers.nodup ?_ ?_
      · intro name hname
        obtain ⟨c, hc⟩ := Option.ne_none_iff_exists'.mp
          (mt node.pipeControllers.get?_eq_none_iff.mp (not_not_intro hname))
        obtain ⟨c₁, hcall⟩ := (onPipe_eq_ok_iff hc).mp (h name c hc)
        have hmem := List.mem_map_of_mem (f := Prod.snd) (node.pipeControllers.get?_eq_some_iff.mp hc)
        exact ⟨c, c₁, hc, hcall, (hkeyed c hmem).monitorPipe_tasks hcall⟩
      · intro name c hc
        exact ⟨c, hc, fun _ => rfl, Or.inl rfl⟩
  intro name c c' hc hc' hmem
  obtain ⟨_, hget, hstep⟩ := hticked name c hc
  obtain rfl := Option.some.inj (hget.symm.trans hc')
  rcases hstep with htasks | ⟨-, hzero⟩
  · rw [htasks, List.drop_length] at hmem
    cases hmem
  · exact hzero

/-- The counts are right, and with them every tick is safe, exactly when nothing is missed. -/
theorem monitor_exact_iff (node : ComputeNode)
    (hkeyed : ∀ c ∈ node.pipeControllers.values, c.Keyed) :
    node.MonitorExact ∧ node.TickSafe ↔ ∀ c ∈ node.pipeControllers.values, c.NoneMissed := by
  have hexact : node.MonitorExact ↔ ∀ c ∈ node.pipeControllers.values, c.NoneMissed := by
    constructor
    · intro h c hc
      obtain ⟨⟨name, c⟩, hitem, rfl⟩ := List.mem_map.mp hc
      have hget := node.pipeControllers.get?_eq_some_iff.mpr hitem
      exact (hkeyed c hc).monitorPipe_exact_iff.mp ((onPipe_eq_ok_iff hget).mp (h name c hget))
    · intro h name c hget
      have hc := List.mem_map_of_mem (f := Prod.snd) (node.pipeControllers.get?_eq_some_iff.mp hget)
      exact (onPipe_eq_ok_iff hget).mpr ((hkeyed c hc).monitorPipe_exact_iff.mpr (h c hc))
  rw [← hexact]
  exact ⟨And.left, fun h => ⟨h, h.tickSafe hkeyed⟩⟩

/-! ## Two instances, one of which has exited -/

/-- A running pipe whose only processor has two instances: the one at position `n` has exited cleanly. -/
def oneExited (n : ℕ) : PipeController :=
  let pipe := { APIPipe.oneChild with
    processors := APIPipe.oneChild.processors.set "a"
      { APIPipe.childProcessor with settings := { autoscale := 2 } } }
  (runFrom (PipeController.pipeStep fun _ => []) (PipeController.load pipe)
    [.start (fun _ => (7, "")), .register (fun _ => .ok []) 7, .runTask, .launch "a" 8 "",
      .register (fun _ => .ok []) 8, .exit "a" n 0 []]).getD (PipeController.load pipe)

theorem monitor_exact_last_exited :
    MonitorExact ⟨Dict.empty.set "main" (oneExited 1)⟩
      ∧ TickSafe ⟨Dict.empty.set "main" (oneExited 1)⟩ :=
  (monitor_exact_iff _ (by decide +kernel)).mpr (by decide +kernel)

/-- The live instance behind the one that is removed is passed over: it is not counted, and the tick
completes its pipe. -/
theorem tick_completes_live_pipe :
    (oneExited 0).Keyed ∧ (oneExited 0).liveInstances = 1
      ∧ (∃ node', monitorPipe "main" ⟨Dict.empty.set "main" (oneExited 0)⟩ = .ok 0 node')
      ∧ ¬ TickSafe ⟨Dict.empty.set "main" (oneExited 0)⟩ := by
  have hticked : ((stateOf (babySitterTick ⟨Dict.empty.set "main" (oneExited 0)⟩)).pipeControllers.get?
      "main").any fun c' => decide (PipeExecutionStatus.completed ∈
        c'.tasks.drop (oneExited 0).tasks.length) := by
    decide +kernel
  obtain ⟨c', hc', hmem⟩ := (Option.any_eq_true _ _).mp hticked
  refine ⟨by decide +kernel, by decide +kernel, returned_eq_some_iff.mp (by decide +kernel), ?_⟩
  intro h
  have hzero := h "main" (oneExited 0) c' rfl hc' (of_decide_eq_true hmem)
  exact absurd hzero (by decide +kernel)

end ComputeNode

end Upipe
