import Mathlib.Data.Finset.Insert
import Upipe.Node.Manager.Isolation
import Upipe.Node.Manager.Monitor

/-!
# Loading a pipe

`load_pipe` opens the queues of a definition, its sink, and one control memory for each processor, and then
keeps the new controller. A queue uses the memory of its name if there is some; a control memory has to be
new. Nothing is given back when a step raises: `loadPipe_failed` says what is left, when nothing is left, and
when what is left changes the loads that follow.
-/

namespace Upipe

open Upipe.Common

/-! ## Shared memory -/

section Memory

variable (refuses : String → Bool)

/-- `SharedMemory(name, create=True)`, on the names that exist. The system refuses some names. -/
def createMemory (name : String) : PyM (Finset String) Unit := fun names =>
  if refuses name then .error ⟨.environmentError, s!"[Errno 22] Invalid argument: '/{name}'"⟩ names
  else if name ∈ names then .error ⟨.fileExistsError, s!"[Errno 17] File exists: '/{name}'"⟩ names
  else .ok () (insert name names)

/-- `MemQueue(q)`. Memory that exists is used. -/
def openQueue (q : APIQueue) : PyM (Finset String) QueueHandle := do
  let handle ← ofExcept (QueueHandle.open? q)
  tryCatch (createMemory refuses handle.memoryName) fun e =>
    if e.kind = .fileExistsError then pure () else throw e
  pure handle

/-- `processor_memory_name`. -/
def controlMemoryName (name : String) : String := "processor_control:" ++ name

/-- `ProcessorController(proc, queues)`. Memory that exists is an error. -/
def openProcessor (proc : APIProcessor) : PyM (Finset String) ProcessorController := do
  tryCatch (createMemory refuses (controlMemoryName proc.name)) fun e =>
    if e.kind = .fileExistsError then throw ⟨.memoryError, "Memory already allocated"⟩ else throw e
  pure { proc := proc, instances := [], status := .init }

/-- The loop of `load` over the queues. -/
def loadQueues : List (String × APIQueue) → Dict String QueueHandle →
    PyM (Finset String) (Dict String QueueHandle)
  | [], queues => pure queues
  | (qid, queue) :: items, queues => do
      let handle ← openQueue refuses queue
      loadQueues items (queues.set qid handle)

/-- The loop of `load` over the processors. -/
def loadProcessors : List (String × APIProcessor) → Dict String ProcessorController →
    PyM (Finset String) (Dict String ProcessorController)
  | [], processors => pure processors
  | (key, proc) :: items, processors => do
      let controller ← openProcessor refuses proc
      loadProcessors items (processors.set key controller)

/-- `load`. It returns the controller and its queues. -/
def PipeController.loadInto (pipe : APIPipe) :
    PyM (Finset String) (PipeController × Dict String QueueHandle) := do
  let queues ← loadQueues refuses pipe.queues.entries .empty
  let sink ← openQueue refuses pipe.sink
  let processors ← loadProcessors refuses pipe.processors.entries .empty
  pure
    ({ name := pipe.name, pipe := pipe, processors := processors, status := .ready, tasks := [], requested := [] },
      queues.set pipe.sink.id sink)

end Memory

/-- The node with the queues of each controller and the names of the shared memory on its machine. -/
structure LoadingNode where
  node : ComputeNode
  wiring : Dict String LoadedPipe
  memory : Finset String

namespace LoadingNode

/-- A body that allocates memory, on the node. -/
def onMemory {α : Type} (x : PyM (Finset String) α) : PyM LoadingNode α := fun s =>
  match x s.memory with
  | .ok a memory => .ok a { s with memory := memory }
  | .error e memory => .error e { s with memory := memory }

/-- `self.pipe_controllers[pipe_id] = p`. -/
def keep (id : String) (p : PipeController × Dict String QueueHandle) (s : LoadingNode) : LoadingNode where
  node := { pipeControllers := s.node.pipeControllers.set id p.1 }
  wiring := s.wiring.set id { pipe := p.1.pipe, queues := p.2 }
  memory := s.memory

/-- `load_pipe`. -/
def loadPipe (refuses : String → Bool) (pipe : APIPipe) : PyM LoadingNode Unit := do
  let s ← get
  if s.node.pipeControllers.contains pipe.id then
    throw ⟨.pipelineAlreadyExist, s!"Pipeline {pipe.id} already exist"⟩
  else do
    let p ← onMemory (PipeController.loadInto refuses pipe)
    modify (keep pipe.id p)

end LoadingNode

/-! ## What is claimed of them -/

section Traces

variable (refuses : String → Bool)

/-- The name of the memory of a queue. -/
def APIQueue.memoryName (q : APIQueue) : String := (QueueHandle.ofDef q).memoryName

/-- The queues that `load` opens, in order. -/
def APIPipe.opened (pipe : APIPipe) : List APIQueue := pipe.queues.values ++ [pipe.sink]

/-- Opening the queue takes no new name. -/
def HasMemory (memory : Finset String) (q : APIQueue) : Prop := 97 ≤ q.size ∧ q.memoryName ∈ memory

/-- Opening the queue raises. -/
def Blocked (q : APIQueue) : Prop := q.size < 97 ∨ refuses q.memoryName

/-- The load raises before it takes a new name. -/
inductive FailsFirst (pipe : APIPipe) (s : LoadingNode) : Prop where
  | loaded (h : pipe.id ∈ s.node.pipeControllers.keys)
  | queue (before after : List APIQueue) (q : APIQueue) (hsplit : pipe.opened = before ++ q :: after)
      (hbefore : ∀ r ∈ before, HasMemory s.memory r) (hq : Blocked refuses q)
  | processor (proc : APIProcessor) (rest : List APIProcessor) (hopened : ∀ q ∈ pipe.opened, HasMemory s.memory q)
      (hsplit : pipe.processors.values = proc :: rest)
      (hproc : controlMemoryName proc.name ∈ s.memory ∨ refuses (controlMemoryName proc.name))

/-- The load raises before it creates the control memory of a processor. -/
inductive FailsEarly (pipe : APIPipe) (s : LoadingNode) : Prop where
  | loaded (h : pipe.id ∈ s.node.pipeControllers.keys)
  | queue (q : APIQueue) (hopened : q ∈ pipe.opened) (hq : Blocked refuses q)
  | processor (proc : APIProcessor) (rest : List APIProcessor) (hsplit : pipe.processors.values = proc :: rest)
      (hproc : controlMemoryName proc.name ∈ s.memory ∨ refuses (controlMemoryName proc.name))

/-- The name of a memory that the definition asks for. -/
def OfPipe (pipe : APIPipe) (name : String) : Prop :=
  (∃ q ∈ pipe.opened, name = q.memoryName) ∨ ∃ proc ∈ pipe.processors.values, name = controlMemoryName proc.name

/-- What a load of the pipe leaves that raises. -/
structure FailedLoad (pipe : APIPipe) (s s' : LoadingNode) : Prop where
  node : s'.node = s.node
  wiring : s'.wiring = s.wiring
  memory : s.memory ⊆ s'.memory
  own : ∀ name ∈ s'.memory, name ∉ s.memory → OfPipe pipe name
  /-- The names are as before exactly when the load raised in front of the first new one. -/
  unchanged_iff : s'.memory = s.memory ↔ FailsFirst refuses pipe s
  /-- The loads that follow end as they would have exactly when no control memory was created. -/
  later_iff : (∀ pipe', answerOf (LoadingNode.loadPipe refuses pipe' s')
    = answerOf (LoadingNode.loadPipe refuses pipe' s)) ↔ FailsEarly refuses pipe s
  /-- The load raises again, and leaves nothing more. -/
  again : ∃ e, LoadingNode.loadPipe refuses pipe s' = .error e s'

/-! ## One step -/

variable {refuses : String → Bool} {memory : Finset String}

theorem openQueue_eq (q : APIQueue) : openQueue refuses q memory =
    if q.size < 97 then .error ⟨.memoryError, "Queue size must be at least 97"⟩ memory
    else if refuses q.memoryName then
      .error ⟨.environmentError, s!"[Errno 22] Invalid argument: '/{q.memoryName}'"⟩ memory
    else .ok (QueueHandle.ofDef q) (insert q.memoryName memory) := by
  rw [openQueue, QueueHandle.open?]
  split
  · rfl
  · show EStateM.bind (EStateM.tryCatch (createMemory refuses q.memoryName) _) _ memory = _
    rw [EStateM.bind, EStateM.tryCatch]
    by_cases hrefused : refuses q.memoryName
    · rw [createMemory, if_pos hrefused, if_pos hrefused]
      rfl
    · rw [createMemory, if_neg hrefused, if_neg hrefused]
      by_cases hmem : q.memoryName ∈ memory
      · rw [if_pos hmem, Finset.insert_eq_of_mem hmem]
        rfl
      · rw [if_neg hmem]
        rfl

theorem openQueue_blocked {q : APIQueue} (h : Blocked refuses q) (memory : Finset String) :
    ∃ e, openQueue refuses q memory = .error e memory := by
  rw [openQueue_eq]
  by_cases hsize : q.size < 97
  · rw [if_pos hsize]
    exact ⟨_, rfl⟩
  · rw [if_neg hsize, if_pos (h.resolve_left hsize)]
    exact ⟨_, rfl⟩

theorem openQueue_open {q : APIQueue} (h : ¬ Blocked refuses q) (memory : Finset String) :
    97 ≤ q.size ∧ openQueue refuses q memory = .ok (QueueHandle.ofDef q) (insert q.memoryName memory) := by
  obtain ⟨hsize, hrefused⟩ := not_or.mp h
  rw [openQueue_eq, if_neg hsize, if_neg hrefused]
  exact ⟨by omega, rfl⟩

theorem openProcessor_eq (proc : APIProcessor) : openProcessor refuses proc memory =
    if refuses (controlMemoryName proc.name) then
      .error ⟨.environmentError, s!"[Errno 22] Invalid argument: '/{controlMemoryName proc.name}'"⟩ memory
    else if controlMemoryName proc.name ∈ memory then .error ⟨.memoryError, "Memory already allocated"⟩ memory
    else .ok { proc := proc, instances := [], status := .init } (insert (controlMemoryName proc.name) memory) := by
  show EStateM.bind (EStateM.tryCatch (createMemory refuses (controlMemoryName proc.name)) _) _ memory = _
  rw [EStateM.bind, EStateM.tryCatch]
  by_cases hrefused : refuses (controlMemoryName proc.name)
  · rw [createMemory, if_pos hrefused, if_pos hrefused]
    rfl
  · rw [createMemory, if_neg hrefused, if_neg hrefused]
    by_cases hmem : controlMemoryName proc.name ∈ memory
    · rw [if_pos hmem, if_pos hmem]
      rfl
    · rw [if_neg hmem, if_neg hmem]
      rfl

theorem openProcessor_taken {proc : APIProcessor}
    (h : controlMemoryName proc.name ∈ memory ∨ refuses (controlMemoryName proc.name)) :
    ∃ e, openProcessor refuses proc memory = .error e memory := by
  rw [openProcessor_eq]
  split
  · exact ⟨_, rfl⟩
  · rename_i hrefused
    rw [if_pos (h.resolve_right hrefused)]
    exact ⟨_, rfl⟩

theorem openProcessor_new {proc : APIProcessor}
    (h : ¬ (controlMemoryName proc.name ∈ memory ∨ refuses (controlMemoryName proc.name))) :
    openProcessor refuses proc memory
      = .ok { proc := proc, instances := [], status := .init } (insert (controlMemoryName proc.name) memory) := by
  obtain ⟨hnew, hrefused⟩ := not_or.mp h
  rw [openProcessor_eq, if_neg hrefused, if_neg hnew]

/-! ## Names taken -/

/-- No name is gone, and every new one has the property. -/
def Takes (Q : String → Prop) (memory memory' : Finset String) : Prop :=
  memory ⊆ memory' ∧ ∀ name ∈ memory', name ∈ memory ∨ Q name

section Takes

variable {Q Q' : String → Prop} {memory' memory'' : Finset String} {name : String}

theorem Takes.refl (memory : Finset String) : Takes Q memory memory :=
  ⟨Finset.Subset.refl _, fun _ h => Or.inl h⟩

theorem Takes.trans (h : Takes Q memory memory') (h' : Takes Q memory' memory'') : Takes Q memory memory'' := by
  refine ⟨h.1.trans h'.1, fun name hname => ?_⟩
  rcases h'.2 name hname with hname | hnew
  · exact h.2 name hname
  · exact Or.inr hnew

theorem Takes.mono (h : Takes Q memory memory') (hQ : ∀ name, Q name → Q' name) : Takes Q' memory memory' :=
  ⟨h.1, fun name hname => (h.2 name hname).imp_right (hQ name)⟩

theorem takes_insert (h : Q name) : Takes Q memory (insert name memory) := by
  refine ⟨Finset.subset_insert _ _, fun name' hname' => ?_⟩
  rcases Finset.mem_insert.mp hname' with rfl | hold
  · exact Or.inr h
  · exact Or.inl hold

end Takes

/-- The names of the memory of the queues. -/
def OfQueues (queues : List APIQueue) (name : String) : Prop := ∃ q ∈ queues, name = q.memoryName

/-- The names of the control memory of the processors. -/
def OfProcessors (processors : List APIProcessor) (name : String) : Prop :=
  ∃ proc ∈ processors, name = controlMemoryName proc.name

/-! ## The loops -/

theorem loadQueues_append (xs ys : List (String × APIQueue)) (queues : Dict String QueueHandle) :
    loadQueues refuses (xs ++ ys) queues = (loadQueues refuses xs queues >>= loadQueues refuses ys) := by
  induction xs generalizing queues with
  | nil => rfl
  | cons item xs ih =>
    rw [List.cons_append, loadQueues, loadQueues, bind_assoc]
    exact bind_congr fun handle => ih (queues.set item.1 handle)

/-- The loop over the queues raises at the first that is blocked. -/
theorem loadQueues_cases (refuses : String → Bool) (memory : Finset String) (items : List (String × APIQueue))
    (queues : Dict String QueueHandle) :
    ∃ memory', Takes (OfQueues (items.map Prod.snd)) memory memory' ∧
      ((∃ opened, loadQueues refuses items queues memory = .ok opened memory' ∧
        ∀ q ∈ items.map Prod.snd, HasMemory memory' q ∧ ¬ Blocked refuses q) ∨
      ∃ e before q after, loadQueues refuses items queues memory = .error e memory' ∧
        items.map Prod.snd = before ++ q :: after ∧ (∀ r ∈ before, HasMemory memory' r) ∧ Blocked refuses q) := by
  induction items generalizing queues memory with
  | nil => exact ⟨memory, Takes.refl _, Or.inl ⟨queues, rfl, fun q hq => absurd hq List.not_mem_nil⟩⟩
  | cons item items ih =>
    obtain ⟨qid, queue⟩ := item
    rw [List.map_cons]
    by_cases hblocked : Blocked refuses queue
    · obtain ⟨e, he⟩ := openQueue_blocked hblocked memory
      have hnone : ∀ r ∈ ([] : List APIQueue), HasMemory memory r := fun r hr => absurd hr List.not_mem_nil
      refine ⟨memory, Takes.refl _, Or.inr ⟨e, [], queue, items.map Prod.snd, ?_, rfl, hnone, hblocked⟩⟩
      rw [loadQueues, bind_error he]
    · obtain ⟨hsize, hopen⟩ := openQueue_open hblocked memory
      have hfirst : Takes (OfQueues (queue :: items.map Prod.snd)) memory (insert queue.memoryName memory) :=
        takes_insert ⟨queue, List.mem_cons_self, rfl⟩
      obtain ⟨memory', htakes, hcases⟩ := ih (insert queue.memoryName memory)
        (queues.set qid (QueueHandle.ofDef queue))
      have hhas : HasMemory memory' queue := ⟨hsize, htakes.1 (Finset.mem_insert_self _ _)⟩
      rw [loadQueues, bind_ok hopen]
      refine ⟨memory', hfirst.trans (htakes.mono ?_), ?_⟩
      · rintro name ⟨q, hq, hname⟩
        exact ⟨q, List.mem_cons_of_mem _ hq, hname⟩
      · rcases hcases with ⟨opened, hrun, hall⟩ | ⟨e, before, q, after, hrun, hsplit, hbefore, hq⟩
        · exact Or.inl ⟨opened, hrun, List.forall_mem_cons.mpr ⟨⟨hhas, hblocked⟩, hall⟩⟩
        · refine Or.inr ⟨e, queue :: before, q, after, hrun, ?_, List.forall_mem_cons.mpr ⟨hhas, hbefore⟩, hq⟩
          rw [hsplit, List.cons_append]

/-- Queues that have their memory are opened without a trace, up to one that raises. -/
theorem loadQueues_error (items : List (String × APIQueue)) (queues : Dict String QueueHandle)
    {before after : List APIQueue} {q : APIQueue} (hsplit : items.map Prod.snd = before ++ q :: after)
    (hbefore : ∀ r ∈ before, HasMemory memory r) (hq : Blocked refuses q) :
    ∃ e, loadQueues refuses items queues memory = .error e memory := by
  induction before generalizing items queues with
  | nil =>
    obtain ⟨⟨qid, queue⟩, rest, rfl, rfl, -⟩ := List.map_eq_cons_iff.mp hsplit
    obtain ⟨e, he⟩ := openQueue_blocked hq memory
    refine ⟨e, ?_⟩
    rw [loadQueues, bind_error he]
  | cons r before ih =>
    obtain ⟨⟨qid, queue⟩, rest, rfl, rfl, hrest⟩ := List.map_eq_cons_iff.mp hsplit
    rw [List.forall_mem_cons] at hbefore
    rw [loadQueues]
    by_cases hblocked : Blocked refuses queue
    · obtain ⟨e, he⟩ := openQueue_blocked hblocked memory
      exact ⟨e, bind_error he⟩
    · rw [bind_ok (openQueue_open hblocked memory).2, Finset.insert_eq_of_mem hbefore.1.2]
      exact ih rest _ hrest hbefore.2

/-- Queues that all have their memory take no name. -/
theorem loadQueues_unchanged (refuses : String → Bool) (items : List (String × APIQueue))
    (queues : Dict String QueueHandle) (h : ∀ q ∈ items.map Prod.snd, HasMemory memory q) :
    stateOf (loadQueues refuses items queues memory) = memory := by
  induction items generalizing queues with
  | nil => rfl
  | cons item items ih =>
    obtain ⟨qid, queue⟩ := item
    rw [List.map_cons, List.forall_mem_cons] at h
    rw [loadQueues]
    by_cases hblocked : Blocked refuses queue
    · obtain ⟨e, he⟩ := openQueue_blocked hblocked memory
      rw [bind_error he]
      rfl
    · rw [bind_ok (openQueue_open hblocked memory).2, Finset.insert_eq_of_mem h.1.2]
      exact ih _ h.2

theorem loadProcessors_takes (refuses : String → Bool) (memory : Finset String)
    (items : List (String × APIProcessor)) (processors : Dict String ProcessorController) :
    Takes (OfProcessors (items.map Prod.snd)) memory (stateOf (loadProcessors refuses items processors memory)) := by
  induction items generalizing processors memory with
  | nil => exact Takes.refl _
  | cons item items ih =>
    obtain ⟨key, proc⟩ := item
    rw [loadProcessors, List.map_cons]
    by_cases htaken : controlMemoryName proc.name ∈ memory ∨ refuses (controlMemoryName proc.name)
    · obtain ⟨e, he⟩ := openProcessor_taken htaken
      rw [bind_error he]
      exact Takes.refl _
    · rw [bind_ok (openProcessor_new htaken)]
      have hfirst : Takes (OfProcessors (proc :: items.map Prod.snd)) memory
          (insert (controlMemoryName proc.name) memory) := takes_insert ⟨proc, List.mem_cons_self, rfl⟩
      refine hfirst.trans ((ih _ _).mono ?_)
      rintro name ⟨r, hr, hname⟩
      exact ⟨r, List.mem_cons_of_mem _ hr, hname⟩

/-! ## The whole load -/

variable {pipe : APIPipe} {s s' : LoadingNode}

/-- The queues that `load` opens, each under its key. -/
def APIPipe.openedItems (pipe : APIPipe) : List (String × APIQueue) :=
  pipe.queues.entries ++ [(pipe.sink.id, pipe.sink)]

theorem APIPipe.map_openedItems (pipe : APIPipe) : pipe.openedItems.map Prod.snd = pipe.opened := by
  rw [openedItems, List.map_append]
  rfl

/-- The sink is opened like the queue behind the last. -/
theorem loadInto_eq (pipe : APIPipe) : PipeController.loadInto refuses pipe =
    (loadQueues refuses pipe.openedItems .empty >>= fun queues =>
      loadProcessors refuses pipe.processors.entries .empty >>= fun processors =>
        pure
          ({ name := pipe.name, pipe := pipe, processors := processors, status := .ready, tasks := []
             requested := [] }, queues)) := by
  rw [PipeController.loadInto, APIPipe.openedItems, loadQueues_append, bind_assoc]
  refine bind_congr fun queues => ?_
  rw [loadQueues, bind_assoc]
  rfl

/-- Queues that are opened are those of the pipe without its memory. -/
theorem loadQueues_ok {items : List (String × APIQueue)} {queues opened : Dict String QueueHandle}
    {memory' : Finset String} (h : loadQueues refuses items queues memory = .ok opened memory') :
    LoadedPipe.openQueues items queues = .ok opened := by
  induction items generalizing queues memory with
  | nil =>
    cases h
    rfl
  | cons item items ih =>
    obtain ⟨qid, queue⟩ := item
    rw [loadQueues] at h
    by_cases hblocked : Blocked refuses queue
    · obtain ⟨e, he⟩ := openQueue_blocked hblocked memory
      rw [bind_error he] at h
      cases h
    · obtain ⟨hsize, hopen⟩ := openQueue_open hblocked memory
      rw [bind_ok hopen] at h
      rw [LoadedPipe.openQueues, QueueHandle.open?, if_neg (by omega)]
      exact ih h

theorem loadProcessors_ok {items : List (String × APIProcessor)} {processors loaded : Dict String ProcessorController}
    {memory' : Finset String} (h : loadProcessors refuses items processors memory = .ok loaded memory')
    (hnodup : (items.map Prod.fst).Nodup) (hnew : ∀ key ∈ items.map Prod.fst, key ∉ processors.keys) :
    loaded.entries = processors.entries
      ++ items.map fun item => (item.1, { proc := item.2, instances := [], status := .init }) := by
  induction items generalizing processors memory with
  | nil =>
    cases h
    rw [List.map_nil, List.append_nil]
  | cons item items ih =>
    obtain ⟨key, proc⟩ := item
    rw [loadProcessors] at h
    by_cases htaken : controlMemoryName proc.name ∈ memory ∨ refuses (controlMemoryName proc.name)
    · obtain ⟨e, he⟩ := openProcessor_taken htaken
      rw [bind_error he] at h
      cases h
    · rw [bind_ok (openProcessor_new htaken)] at h
      rw [List.map_cons, List.nodup_cons] at hnodup
      have hkey : key ∉ processors.keys := hnew key List.mem_cons_self
      rw [ih h hnodup.2 ?_, Dict.entries_set_of_not_mem _ _ hkey, List.append_assoc]
      · rfl
      · intro l hl
        rw [Dict.mem_keys_set]
        rintro (rfl | hmem)
        · exact hnodup.1 hl
        · exact hnew l (List.mem_cons_of_mem _ hl) hmem

/-- A load that returns makes the controller and the queues of the models without memory. -/
theorem loadInto_ok {c : PipeController} {queues : Dict String QueueHandle} {memory' : Finset String}
    (h : PipeController.loadInto refuses pipe memory = .ok (c, queues) memory') :
    c = PipeController.load pipe ∧ LoadedPipe.load pipe = .ok { pipe := pipe, queues := queues } := by
  rw [PipeController.loadInto] at h
  cases hqueues : loadQueues refuses pipe.queues.entries .empty memory with
  | error e queued =>
    rw [bind_error hqueues] at h
    cases h
  | ok opened queued =>
    rw [bind_ok hqueues] at h
    by_cases hblocked : Blocked refuses pipe.sink
    · obtain ⟨e, he⟩ := openQueue_blocked hblocked queued
      rw [bind_error he] at h
      cases h
    · obtain ⟨hsize, hsink⟩ := openQueue_open hblocked queued
      rw [bind_ok hsink] at h
      cases hprocessors : loadProcessors refuses pipe.processors.entries .empty
          (insert pipe.sink.memoryName queued) with
      | error e memory'' =>
        rw [bind_error hprocessors] at h
        cases h
      | ok processors memory'' =>
        rw [bind_ok hprocessors] at h
        cases h
        have hentries := loadProcessors_ok hprocessors pipe.processors.nodup fun _ _ => List.not_mem_nil
        refine ⟨?_, ?_⟩
        · rw [PipeController.load, PipeController.mk.injEq]
          exact ⟨rfl, rfl, Dict.ext hentries, rfl, rfl, rfl⟩
        · rw [LoadedPipe.load, loadQueues_ok hqueues, QueueHandle.open?, if_neg (by omega)]
          rfl

/-- A load of a pipe that is not there yet. -/
theorem loadPipe_new (h : pipe.id ∉ s.node.pipeControllers.keys) : LoadingNode.loadPipe refuses pipe s =
    match PipeController.loadInto refuses pipe s.memory with
    | .ok p memory => .ok () (LoadingNode.keep pipe.id p { s with memory := memory })
    | .error e memory => .error e { s with memory := memory } := by
  have hcontains : ¬ s.node.pipeControllers.contains pipe.id = true := fun hmem => h (of_decide_eq_true hmem)
  rw [LoadingNode.loadPipe, get_bind_apply, if_neg hcontains]
  show EStateM.bind (LoadingNode.onMemory _) _ s = _
  rw [EStateM.bind, LoadingNode.onMemory]
  cases PipeController.loadInto refuses pipe s.memory with
  | ok p memory => rfl
  | error e memory => rfl

/-- A load that returns is one in the model of the wiring. -/
theorem loadPipe_wiring (hkeys : s.wiring.keys = s.node.pipeControllers.keys)
    (h : LoadingNode.loadPipe refuses pipe s = .ok () s') :
    s'.wiring.keys = s'.node.pipeControllers.keys ∧ loadPipe s.wiring pipe = .ok s'.wiring := by
  by_cases hloaded : pipe.id ∈ s.node.pipeControllers.keys
  · have hcontains : s.node.pipeControllers.contains pipe.id = true := decide_eq_true hloaded
    rw [LoadingNode.loadPipe, get_bind_apply, if_pos hcontains] at h
    cases h
  · rw [loadPipe_new hloaded] at h
    cases hinto : PipeController.loadInto refuses pipe s.memory with
    | error e memory =>
      rw [hinto] at h
      cases h
    | ok p memory =>
      rw [hinto] at h
      cases h
      obtain ⟨c, queues⟩ := p
      obtain ⟨rfl, hload⟩ := loadInto_ok hinto
      have hnew : pipe.id ∉ s.wiring.keys := by rwa [hkeys]
      have hcontains : ¬ s.wiring.contains pipe.id = true := fun hmem => hnew (of_decide_eq_true hmem)
      refine ⟨?_, ?_⟩
      · show (s.wiring.set pipe.id _).keys = (s.node.pipeControllers.set pipe.id _).keys
        rw [Dict.keys, Dict.keys, Dict.entries_set_of_not_mem _ _ hnew, Dict.entries_set_of_not_mem _ _ hloaded,
          List.map_append, List.map_append, ← Dict.keys, ← Dict.keys, hkeys]
        rfl
      · rw [loadPipe, if_neg hcontains, hload]
        rfl

theorem loadPipe_loaded (refuses : String → Bool) (h : pipe.id ∈ s.node.pipeControllers.keys) :
    ∃ e, LoadingNode.loadPipe refuses pipe s = .error e s := by
  have hcontains : s.node.pipeControllers.contains pipe.id = true := decide_eq_true h
  rw [LoadingNode.loadPipe, get_bind_apply, if_pos hcontains]
  exact ⟨_, rfl⟩

/-- How a load of a pipe raises that is not there yet: at a queue, at the first processor, or later. -/
inductive Raises (refuses : String → Bool) (pipe : APIPipe) (memory memory' : Finset String) : Prop where
  | queue (before after : List APIQueue) (q : APIQueue) (htakes : Takes (OfQueues pipe.opened) memory memory')
      (hsplit : pipe.opened = before ++ q :: after) (hbefore : ∀ r ∈ before, HasMemory memory' r)
      (hq : Blocked refuses q)
  | first (proc : APIProcessor) (rest : List APIProcessor) (htakes : Takes (OfQueues pipe.opened) memory memory')
      (hopened : ∀ q ∈ pipe.opened, HasMemory memory' q) (hsplit : pipe.processors.values = proc :: rest)
      (hproc : controlMemoryName proc.name ∈ memory' ∨ refuses (controlMemoryName proc.name))
  | later (proc : APIProcessor) (rest : List APIProcessor) (queued : Finset String)
      (htakes : Takes (OfQueues pipe.opened) memory queued) (hopened : ∀ q ∈ pipe.opened, HasMemory memory' q)
      (hblocked : ∀ q ∈ pipe.opened, ¬ Blocked refuses q) (hsplit : pipe.processors.values = proc :: rest)
      (hnew : controlMemoryName proc.name ∉ queued) (hrefused : ¬ refuses (controlMemoryName proc.name))
      (hcreated : controlMemoryName proc.name ∈ memory')
      (htakes' : Takes (OfProcessors pipe.processors.values) queued memory')

/-- Processors that raise: the first at once, or a later one when the first has its control memory. -/
theorem loadProcessors_error {items : List (String × APIProcessor)} {processors : Dict String ProcessorController}
    {e : PyError} {memory' : Finset String} (h : loadProcessors refuses items processors memory = .error e memory') :
    ∃ proc rest, items.map Prod.snd = proc :: rest ∧
      ((controlMemoryName proc.name ∈ memory ∨ refuses (controlMemoryName proc.name)) ∧ memory' = memory ∨
        controlMemoryName proc.name ∉ memory ∧ ¬ refuses (controlMemoryName proc.name) ∧
          controlMemoryName proc.name ∈ memory') := by
  cases items with
  | nil => cases h
  | cons item items =>
    obtain ⟨key, proc⟩ := item
    refine ⟨proc, items.map Prod.snd, rfl, ?_⟩
    rw [loadProcessors] at h
    by_cases htaken : controlMemoryName proc.name ∈ memory ∨ refuses (controlMemoryName proc.name)
    · obtain ⟨e', he'⟩ := openProcessor_taken htaken
      rw [bind_error he'] at h
      cases h
      exact Or.inl ⟨htaken, rfl⟩
    · obtain ⟨hnew, hrefused⟩ := not_or.mp htaken
      rw [bind_ok (openProcessor_new htaken)] at h
      have hrest := loadProcessors_takes refuses (insert (controlMemoryName proc.name) memory) items
        (processors.set key { proc := proc, instances := [], status := .init })
      rw [h] at hrest
      exact Or.inr ⟨hnew, hrefused, hrest.1 (Finset.mem_insert_self _ _)⟩

theorem raises_of_loadInto {e : PyError} {memory' : Finset String}
    (h : PipeController.loadInto refuses pipe memory = .error e memory') : Raises refuses pipe memory memory' := by
  rw [loadInto_eq] at h
  obtain ⟨queued, htakes, hcases⟩ := loadQueues_cases refuses memory pipe.openedItems .empty
  rw [pipe.map_openedItems] at htakes hcases
  rcases hcases with ⟨opened, hrun, hall⟩ | ⟨e', before, q, after, hrun, hsplit, hbefore, hq⟩
  · rw [bind_ok hrun] at h
    have htakes' := loadProcessors_takes refuses queued pipe.processors.entries .empty
    cases hload : loadProcessors refuses pipe.processors.entries .empty queued with
    | ok processors memory'' =>
      rw [bind_ok hload] at h
      cases h
    | error e' memory'' =>
      rw [bind_error hload] at h
      cases h
      rw [hload] at htakes'
      change Takes (OfProcessors pipe.processors.values) queued memory' at htakes'
      have hopened : ∀ q ∈ pipe.opened, HasMemory memory' q :=
        fun q hq => ⟨(hall q hq).1.1, htakes'.1 (hall q hq).1.2⟩
      obtain ⟨proc, rest, hsplit, ⟨htaken, rfl⟩ | ⟨hnew, hrefused, hcreated⟩⟩ := loadProcessors_error hload
      · exact .first proc rest htakes hopened hsplit htaken
      · exact .later proc rest queued htakes hopened (fun q hq => (hall q hq).2) hsplit hnew hrefused hcreated htakes'
  · rw [bind_error hrun] at h
    cases h
    exact .queue before after q htakes hsplit hbefore hq

/-- A load that raises keeps no controller. -/
theorem loadPipe_error {e : PyError} (h : LoadingNode.loadPipe refuses pipe s = .error e s') :
    (pipe.id ∈ s.node.pipeControllers.keys ∧ s' = s) ∨
      (pipe.id ∉ s.node.pipeControllers.keys ∧ s'.node = s.node ∧ s'.wiring = s.wiring ∧
        Raises refuses pipe s.memory s'.memory) := by
  by_cases hloaded : pipe.id ∈ s.node.pipeControllers.keys
  · obtain ⟨e', he'⟩ := loadPipe_loaded refuses hloaded
    rw [he'] at h
    cases h
    exact Or.inl ⟨hloaded, rfl⟩
  · rw [loadPipe_new hloaded] at h
    cases hload : PipeController.loadInto refuses pipe s.memory with
    | ok p memory =>
      rw [hload] at h
      cases h
    | error e' memory =>
      rw [hload] at h
      cases h
      exact Or.inr ⟨hloaded, rfl, rfl, raises_of_loadInto hload⟩

/-- A load that raises would now raise before it takes a new name. -/
theorem failsFirst_after {e : PyError} (h : LoadingNode.loadPipe refuses pipe s = .error e s') :
    FailsFirst refuses pipe s' := by
  rcases loadPipe_error h with ⟨hloaded, rfl⟩ | ⟨-, -, -, hraises⟩
  · exact .loaded hloaded
  · cases hraises with
    | queue before after q _ hsplit hbefore hq => exact .queue before after q hsplit hbefore hq
    | first proc rest _ hopened hsplit hproc => exact .processor proc rest hopened hsplit hproc
    | later proc rest queued _ hopened _ hsplit _ _ hcreated _ =>
      exact .processor proc rest hopened hsplit (Or.inl hcreated)

/-- A load that raises before it takes a new name leaves everything. -/
theorem FailsFirst.error (h : FailsFirst refuses pipe s) : ∃ e, LoadingNode.loadPipe refuses pipe s = .error e s := by
  by_cases hloaded : pipe.id ∈ s.node.pipeControllers.keys
  · exact loadPipe_loaded refuses hloaded
  · have hinto : ∃ e, PipeController.loadInto refuses pipe s.memory = .error e s.memory := by
      rw [loadInto_eq]
      cases h with
      | loaded h => exact absurd h hloaded
      | queue before after q hsplit hbefore hq =>
        rw [← pipe.map_openedItems] at hsplit
        obtain ⟨e, he⟩ := loadQueues_error pipe.openedItems .empty hsplit hbefore hq
        exact ⟨e, bind_error he⟩
      | processor proc rest hopened hsplit hproc =>
        rw [← pipe.map_openedItems] at hopened
        have hunchanged := loadQueues_unchanged refuses pipe.openedItems .empty hopened
        cases hrun : loadQueues refuses pipe.openedItems .empty s.memory with
        | error e memory =>
          rw [hrun] at hunchanged
          obtain rfl : memory = s.memory := hunchanged
          exact ⟨e, bind_error hrun⟩
        | ok queues memory =>
          rw [hrun] at hunchanged
          obtain rfl : memory = s.memory := hunchanged
          obtain ⟨⟨key, first⟩, items, hitems, rfl, -⟩ := List.map_eq_cons_iff.mp hsplit
          obtain ⟨e, he⟩ := openProcessor_taken hproc
          refine ⟨e, ?_⟩
          rw [bind_ok hrun, hitems, loadProcessors]
          exact bind_error (bind_error he)
    obtain ⟨e, he⟩ := hinto
    rw [loadPipe_new hloaded, he]
    exact ⟨e, rfl⟩

/-! ## The loads that follow -/

/-- The same control memory exists. -/
def SameControls (memory memory' : Finset String) : Prop :=
  ∀ name, controlMemoryName name ∈ memory ↔ controlMemoryName name ∈ memory'

theorem memoryName_ne_controlMemoryName (q : APIQueue) (name : String) : q.memoryName ≠ controlMemoryName name := by
  intro h
  have hq : "Q_".toList.head? = some 'Q' := by decide
  have hp : "processor_control:".toList.head? = some 'p' := by decide +kernel
  have hname : "Q_" ++ q.id = "processor_control:" ++ name := h
  have hfirst := congrArg List.head? (congrArg String.toList hname)
  rw [String.toList_append, String.toList_append, List.head?_append, List.head?_append, hq, hp] at hfirst
  cases hfirst

theorem sameControls_insert {memory' : Finset String} (h : SameControls memory memory') (name : String) :
    SameControls (insert name memory) (insert name memory') := by
  intro name'
  rw [Finset.mem_insert, Finset.mem_insert, h name']

/-- Queues take no control memory. -/
theorem Takes.sameControls {queues : List APIQueue} {memory' : Finset String}
    (h : Takes (OfQueues queues) memory memory') : SameControls memory memory' := by
  intro name
  constructor
  · exact fun hmem => h.1 hmem
  · intro hmem
    rcases h.2 _ hmem with hmem | ⟨q, -, hname⟩
    · exact hmem
    · exact absurd hname.symm (memoryName_ne_controlMemoryName q name)

theorem respects_openQueue (q : APIQueue) : Respects SameControls (openQueue refuses q) := by
  intro memory memory' h
  by_cases hblocked : Blocked refuses q
  · rw [openQueue_eq, openQueue_eq]
    by_cases hsize : q.size < 97
    · rw [if_pos hsize, if_pos hsize]
      exact ⟨rfl, h⟩
    · rw [if_neg hsize, if_neg hsize, if_pos (hblocked.resolve_left hsize), if_pos (hblocked.resolve_left hsize)]
      exact ⟨rfl, h⟩
  · rw [(openQueue_open hblocked _).2, (openQueue_open hblocked _).2]
    exact ⟨rfl, sameControls_insert h _⟩

theorem respects_openProcessor (proc : APIProcessor) : Respects SameControls (openProcessor refuses proc) := by
  intro memory memory' h
  rw [openProcessor_eq, openProcessor_eq]
  by_cases hrefused : refuses (controlMemoryName proc.name)
  · rw [if_pos hrefused, if_pos hrefused]
    exact ⟨rfl, h⟩
  · rw [if_neg hrefused, if_neg hrefused]
    by_cases hmem : controlMemoryName proc.name ∈ memory
    · rw [if_pos hmem, if_pos ((h proc.name).mp hmem)]
      exact ⟨rfl, h⟩
    · rw [if_neg hmem, if_neg (mt (h proc.name).mpr hmem)]
      exact ⟨rfl, sameControls_insert h _⟩

theorem respects_loadQueues (items : List (String × APIQueue)) (queues : Dict String QueueHandle) :
    Respects SameControls (loadQueues refuses items queues) := by
  induction items generalizing queues with
  | nil => exact respects_pure queues
  | cons item items ih => exact (respects_openQueue item.2).bind fun handle => ih _

theorem respects_loadProcessors (items : List (String × APIProcessor)) (processors : Dict String ProcessorController) :
    Respects SameControls (loadProcessors refuses items processors) := by
  induction items generalizing processors with
  | nil => exact respects_pure processors
  | cons item items ih => exact (respects_openProcessor item.2).bind fun controller => ih _

/-- A load does not look at the memory of queues that exist. -/
theorem answerOf_loadPipe_congr (hnode : s'.node = s.node) (h : SameControls s.memory s'.memory) (pipe : APIPipe) :
    answerOf (LoadingNode.loadPipe refuses pipe s') = answerOf (LoadingNode.loadPipe refuses pipe s) := by
  by_cases hloaded : pipe.id ∈ s.node.pipeControllers.keys
  · have hcontains : s.node.pipeControllers.contains pipe.id = true := decide_eq_true hloaded
    rw [LoadingNode.loadPipe, get_bind_apply, get_bind_apply, hnode, if_pos hcontains]
    rfl
  · have hloaded' : pipe.id ∉ s'.node.pipeControllers.keys := by rwa [hnode]
    have hinto : Respects SameControls (PipeController.loadInto refuses pipe) := by
      rw [loadInto_eq]
      refine (respects_loadQueues _ _).bind fun queues => ?_
      exact (respects_loadProcessors _ _).bind fun processors => respects_pure _
    obtain ⟨hanswer, -⟩ := hinto s.memory s'.memory h
    rw [loadPipe_new hloaded, loadPipe_new hloaded']
    cases hs : PipeController.loadInto refuses pipe s.memory with
    | ok p memory =>
      cases hs' : PipeController.loadInto refuses pipe s'.memory with
      | ok p' memory' => rfl
      | error e' memory' =>
        rw [hs, hs'] at hanswer
        cases hanswer
    | error e memory =>
      cases hs' : PipeController.loadInto refuses pipe s'.memory with
      | ok p' memory' =>
        rw [hs, hs'] at hanswer
        cases hanswer
      | error e' memory' =>
        rw [hs, hs'] at hanswer
        cases hanswer
        rfl

/-- The pipe with its sink and one processor. -/
def APIPipe.only (pipe : APIPipe) (proc : APIProcessor) : APIPipe :=
  { pipe with queues := .empty, processors := Dict.empty.set proc.id proc }

/-- A processor whose control memory can be created can be loaded on its own. -/
theorem loadPipe_only {proc : APIProcessor} (hloaded : pipe.id ∉ s.node.pipeControllers.keys)
    (hsink : ¬ Blocked refuses pipe.sink) (hnew : controlMemoryName proc.name ∉ s.memory)
    (hrefused : ¬ refuses (controlMemoryName proc.name)) :
    ∃ s'', LoadingNode.loadPipe refuses (pipe.only proc) s = .ok () s'' := by
  have hqueues : openQueue refuses (pipe.only proc).sink s.memory
      = .ok (QueueHandle.ofDef pipe.sink) (insert pipe.sink.memoryName s.memory) := (openQueue_open hsink _).2
  have hnew' : controlMemoryName proc.name ∉ insert pipe.sink.memoryName s.memory := by
    rw [Finset.mem_insert, not_or]
    exact ⟨(memoryName_ne_controlMemoryName pipe.sink proc.name).symm, hnew⟩
  have hproc := openProcessor_new (not_or.mpr ⟨hnew', hrefused⟩)
  have hid : (pipe.only proc).id ∉ s.node.pipeControllers.keys := hloaded
  rw [loadPipe_new hid, PipeController.loadInto]
  have hentries : (pipe.only proc).processors.entries = [(proc.id, proc)] := rfl
  have hempty : (pipe.only proc).queues.entries = [] := rfl
  rw [hempty, hentries, bind_ok (show loadQueues refuses [] .empty s.memory = .ok .empty s.memory from rfl),
    bind_ok hqueues, loadProcessors, bind_assoc, bind_ok hproc]
  exact ⟨_, rfl⟩

/-- A created control memory is in the way of a load that would have been possible. -/
theorem exists_later_differs {proc : APIProcessor} (hloaded : pipe.id ∉ s.node.pipeControllers.keys)
    (hsink : ¬ Blocked refuses pipe.sink) (hnew : controlMemoryName proc.name ∉ s.memory)
    (hrefused : ¬ refuses (controlMemoryName proc.name)) (hhas : HasMemory s'.memory pipe.sink)
    (hcreated : controlMemoryName proc.name ∈ s'.memory) :
    ∃ pipe', answerOf (LoadingNode.loadPipe refuses pipe' s') ≠ answerOf (LoadingNode.loadPipe refuses pipe' s) := by
  refine ⟨pipe.only proc, ?_⟩
  obtain ⟨s'', hok⟩ := loadPipe_only hloaded hsink hnew hrefused
  have hfails : FailsFirst refuses (pipe.only proc) s' := by
    refine .processor proc [] ?_ rfl (Or.inl hcreated)
    intro q hq
    rw [List.mem_singleton.mp (show q ∈ [pipe.sink] from hq)]
    exact hhas
  obtain ⟨e, he⟩ := hfails.error
  rw [hok, he]
  intro h
  cases h

theorem Raises.takes {memory' : Finset String} (h : Raises refuses pipe memory memory') :
    Takes (OfPipe pipe) memory memory' := by
  cases h with
  | queue before after q htakes hsplit hbefore hq => exact htakes.mono fun name h => Or.inl h
  | first proc rest htakes hopened hsplit hproc => exact htakes.mono fun name h => Or.inl h
  | later proc rest queued htakes hopened hblocked hsplit hnew hrefused hcreated htakes' =>
    exact (htakes.mono fun name h => Or.inl h).trans (htakes'.mono fun name h => Or.inr h)

/-- The loads that follow are not changed exactly if no control memory was created. -/
theorem Raises.later_iff (hloaded : pipe.id ∉ s.node.pipeControllers.keys) (hnode : s'.node = s.node)
    (h : Raises refuses pipe s.memory s'.memory) :
    (∀ pipe', answerOf (LoadingNode.loadPipe refuses pipe' s') = answerOf (LoadingNode.loadPipe refuses pipe' s)) ↔
      FailsEarly refuses pipe s := by
  cases h with
  | queue before after q htakes hsplit hbefore hq =>
    refine iff_of_true (answerOf_loadPipe_congr hnode htakes.sameControls) (.queue q ?_ hq)
    rw [hsplit]
    exact List.mem_append_right _ List.mem_cons_self
  | first proc rest htakes hopened hsplit hproc =>
    refine iff_of_true (answerOf_loadPipe_congr hnode htakes.sameControls) (.processor proc rest hsplit ?_)
    exact hproc.imp_left (htakes.sameControls proc.name).mpr
  | later proc rest queued htakes hopened hblocked hsplit hnew hrefused hcreated htakes' =>
    have hsink : pipe.sink ∈ pipe.opened := List.mem_append_right _ List.mem_cons_self
    have hold : controlMemoryName proc.name ∉ s.memory := mt (htakes.sameControls proc.name).mp hnew
    refine iff_of_false ?_ ?_
    · obtain ⟨pipe', hne⟩ := exists_later_differs hloaded (hblocked _ hsink) hold hrefused (hopened _ hsink) hcreated
      exact fun hall => hne (hall pipe')
    · rintro (hmem | ⟨q, hq, hqblocked⟩ | ⟨proc', rest', hsplit', hproc⟩)
      · exact hloaded hmem
      · exact hblocked q hq hqblocked
      · rw [hsplit, List.cons.injEq] at hsplit'
        obtain ⟨rfl, -⟩ := hsplit'
        exact not_or.mpr ⟨hold, hrefused⟩ hproc

/-- What a load that raises leaves. -/
theorem loadPipe_failed {e : PyError} (h : LoadingNode.loadPipe refuses pipe s = .error e s') :
    FailedLoad refuses pipe s s' := by
  have hafter := failsFirst_after h
  rcases loadPipe_error h with ⟨hloaded, rfl⟩ | ⟨hloaded, hnode, hwiring, hraises⟩
  · exact
      { node := rfl
        wiring := rfl
        memory := Finset.Subset.refl _
        own := fun name hmem hnot => absurd hmem hnot
        unchanged_iff := iff_of_true rfl hafter
        later_iff := iff_of_true (fun _ => rfl) (.loaded hloaded)
        again := hafter.error }
  · refine
      { node := hnode
        wiring := hwiring
        memory := hraises.takes.1
        own := fun name hmem hnot => (hraises.takes.2 name hmem).resolve_left hnot
        unchanged_iff := ⟨fun hmemory => ?_, fun hfirst => ?_⟩
        later_iff := hraises.later_iff hloaded hnode
        again := hafter.error }
    · have hsame : s' = s := by
        cases s
        cases s'
        cases hnode
        cases hwiring
        cases hmemory
        rfl
      rwa [hsame] at hafter
    · obtain ⟨e', he'⟩ := hfirst.error
      rw [h] at he'
      cases he'
      rfl

end Traces

/-- A fresh node on a machine where the control memory of processor a is left over. -/
def leftOver : LoadingNode := { node := ⟨.empty⟩, wiring := .empty, memory := {controlMemoryName "a"} }

theorem loadPipe_failed_leftOver : ∃ e s',
    LoadingNode.loadPipe (fun _ => false) (twoStage "main" "a") leftOver = .error e s' ∧
      FailedLoad (fun _ => false) (twoStage "main" "a") leftOver s' := by
  have hrun : (raisedIn (LoadingNode.loadPipe (fun _ => false) (twoStage "main" "a") leftOver)).any
      (fun _ => true) = true := by
    decide +kernel
  obtain ⟨e, s', h, -⟩ := exists_error_of_any hrun
  exact ⟨e, s', h, loadPipe_failed h⟩

/-- The load takes three names before it raises, and the root alone can be loaded before it but not after it. -/
theorem failed_load_leaves_memory : ∃ e s',
    LoadingNode.loadPipe (fun _ => false) (twoStage "main" "a") leftOver = .error e s' ∧
      s'.memory = insert "processor_control:main" (insert "Q_pipe-sink" (insert "Q_main->a" leftOver.memory)) ∧
      s'.memory ≠ leftOver.memory ∧
      (answerOf (LoadingNode.loadPipe (fun _ => false)
        ((twoStage "main" "a").only { id := "main", name := "main" }) leftOver)).isOk = true ∧
      (answerOf (LoadingNode.loadPipe (fun _ => false)
        ((twoStage "main" "a").only { id := "main", name := "main" }) s')).isOk = false := by
  have hrun : (raisedIn (LoadingNode.loadPipe (fun _ => false) (twoStage "main" "a") leftOver)).any (fun s' =>
      decide (s'.memory = insert "processor_control:main" (insert "Q_pipe-sink" (insert "Q_main->a" leftOver.memory)) ∧
        s'.memory ≠ leftOver.memory ∧
        (answerOf (LoadingNode.loadPipe (fun _ => false)
          ((twoStage "main" "a").only { id := "main", name := "main" }) leftOver)).isOk = true ∧
        (answerOf (LoadingNode.loadPipe (fun _ => false)
          ((twoStage "main" "a").only { id := "main", name := "main" }) s')).isOk = false)) = true := by
    decide +kernel
  obtain ⟨e, s', h, hleft⟩ := exists_error_of_any hrun
  exact ⟨e, s', h, of_decide_eq_true hleft⟩

end Upipe
