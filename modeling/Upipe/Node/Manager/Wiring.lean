import Mathlib.Data.List.Pairwise
import Upipe.Types.Pipe

/-!
# The queues that a worker is told of

`get_proc_queues` answers a worker that registers with the queues of its processor. It runs over all
loaded pipes with one dictionary, and after each pipe it adds that pipe's sink when the dictionary has
no queue yet that leaves the processor. The list that it counts for this repeats the variable `q` of the
loop before it, which has no value as long as no pipe has had a queue at the processor.

The shared memory behind a queue is left out: nothing here reads it.
-/

namespace Upipe

open Upipe.Common

/-! ## The definition of a pipe -/

/-- A processor with its children. -/
inductive ProcNode where
  | node (proc : APIProcessor) (children : List ProcNode)

def ProcNode.proc : ProcNode → APIProcessor
  | .node proc _ => proc

namespace APIPipe

/-- The queue definition that `map_proc` makes for a child. -/
def childQueue (processor child : APIProcessor) : APIQueue where
  id := processor.id ++ "->" ++ child.id
  name := processor.id ++ "->" ++ child.id
  fromP := processor.id
  toP := child.id
  size := child.settings.inputBufferSize
  host := if child.settings.host = some "" then none else child.settings.host

mutual

/-- `map_proc`. -/
def mapProc (pipe : APIPipe) : ProcNode → APIPipe
  | .node proc children =>
      mapChildren { pipe with processors := pipe.processors.set proc.id proc } proc children

/-- The loop of `map_proc`. -/
def mapChildren (pipe : APIPipe) (proc : APIProcessor) : List ProcNode → APIPipe
  | [] => pipe
  | child :: children =>
      let queue := childQueue proc child.proc
      let pipe := mapProc { pipe with queues := pipe.queues.set queue.id queue } child
      mapChildren pipe proc children

end

/-- The definition that `pipe_def` starts from. The id of a root is the pipe's name. -/
def bare (root : APIProcessor) : APIPipe where
  id := root.id
  name := root.id
  root := root
  sink :=
    { id := sinkQueueId
      name := "pipe_sink_q"
      fromP := "*"
      toP := root.id
      size := root.settings.inputBufferSize }

/-- `pipe_def`. -/
def pipeDef (root : ProcNode) : APIPipe := mapProc (bare root.proc) root

/-- What every `pipe_def` has: queues under their ids between processors of the pipe, and a sink that
none of them is. -/
structure IsPipeDef (pipe : APIPipe) : Prop where
  root_id : pipe.root.id = pipe.id
  root_mem : pipe.root.id ∈ pipe.processors.keys
  keyed : ∀ item ∈ pipe.queues.entries, item.2.id = item.1
  ends_mem : ∀ q ∈ pipe.queues.values, q.fromP ∈ pipe.processors.keys ∧ q.toP ∈ pipe.processors.keys
  sink_id : pipe.sink.id = sinkQueueId
  sink_fromP : pipe.sink.fromP = "*"
  sink_toP : pipe.sink.toP = pipe.root.id
  sink_new : sinkQueueId ∉ pipe.queues.keys

end APIPipe

/-! ## Loaded pipes -/

/-- The attributes of a `MemQueue` object that its constructor takes from the definition. -/
structure QueueHandle where
  qid : String
  name : String
  fromP : String
  toP : String
  size : ℤ
  host : Option String
deriving DecidableEq

namespace QueueHandle

/-- The object for a definition. -/
def ofDef (q : APIQueue) : QueueHandle where
  qid := q.id
  name := q.fromP ++ " -> " ++ q.toP ++ " (" ++ q.id ++ ")"
  fromP := q.fromP
  toP := q.toP
  size := q.size
  host := q.host

/-- `MemQueue(q)`. -/
def open? (q : APIQueue) : Except PyError QueueHandle :=
  if q.size < 97 then .error ⟨.memoryError, "Queue size must be at least 97"⟩ else .ok (ofDef q)

/-- `queue_def`. -/
def queueDef (q : QueueHandle) : APIQueue where
  id := q.qid
  name := q.name
  fromP := q.fromP
  toP := q.toP
  size := q.size
  host := q.host

end QueueHandle

/-- The part of a `PipeController` that the wiring reads. -/
structure LoadedPipe where
  pipe : APIPipe
  queues : Dict String QueueHandle

namespace LoadedPipe

/-- The loop of `load` over the queues. -/
def openQueues : List (String × APIQueue) → Dict String QueueHandle →
    Except PyError (Dict String QueueHandle)
  | [], queues => .ok queues
  | (qid, queue) :: items, queues => do
      let handle ← QueueHandle.open? queue
      openQueues items (queues.set qid handle)

/-- `load`, as far as the queues go. -/
def load (pipe : APIPipe) : Except PyError LoadedPipe := do
  let queues ← openQueues pipe.queues.entries .empty
  let sink ← QueueHandle.open? pipe.sink
  pure { pipe := pipe, queues := queues.set pipe.sink.id sink }

/-- `get_proc_queues` of one pipe. -/
def getProcQueues (c : LoadedPipe) (procId : String) : List APIQueue :=
  (c.queues.values.filter fun q => q.fromP = procId ∨ q.toP = procId).map QueueHandle.queueDef

end LoadedPipe

/-- `load_pipe` of the node, on its `pipe_controllers`. -/
def loadPipe (controllers : Dict String LoadedPipe) (pipe : APIPipe) :
    Except PyError (Dict String LoadedPipe) :=
  if controllers.contains pipe.id then
    .error ⟨.pipelineAlreadyExist, s!"Pipeline {pipe.id} already exist"⟩
  else do
    let c ← LoadedPipe.load pipe
    pure (controllers.set pipe.id c)

/-- The pipes loaded one after the other into a fresh node. -/
def loadPipes (pipes : List APIPipe) : Except PyError (Dict String LoadedPipe) :=
  pipes.foldlM loadPipe .empty

/-- The sink as a queue that leaves the processor. -/
def procSink (pipe : APIPipe) (procId : String) : APIQueue where
  id := pipe.sink.id
  name := pipe.sink.id
  fromP := procId
  toP := pipe.id
  size := pipe.sink.size
  host := none

/-- What `get_proc_queues` carries from pipe to pipe: the answer so far, and the value of `q`. -/
structure Collecting where
  queues : Dict String APIQueue
  q : Option APIQueue

/-- The loop over the queues of one pipe. -/
def Collecting.join (s : Collecting) (pipeQueues : List APIQueue) : Collecting where
  queues := pipeQueues.foldl (fun queues q => queues.set q.id q) s.queues
  q := pipeQueues.getLast?.or s.q

/-- `q` is read before the loop has set it. -/
def unboundQ : PyError :=
  ⟨.nameError, "free variable 'q' referenced before assignment in enclosing scope"⟩

/-- The queues that leave the processor. -/
def leaving (procId : String) (queues : Dict String APIQueue) : List APIQueue :=
  queues.values.filter fun queue => queue.fromP = procId

/-- The list that `out_q_cout` is the length of. -/
def outQs (procId : String) (s : Collecting) : Except PyError (List APIQueue) :=
  (leaving procId s.queues).mapM fun _ =>
    match s.q with
    | some q => .ok q
    | none => .error unboundQ

/-- The turn of one pipe in `get_proc_queues` of the node. -/
def addProcQueues (procId : String) (s : Collecting) (c : LoadedPipe) : Except PyError Collecting := do
  let s := s.join (c.getProcQueues procId)
  let outs ← outQs procId s
  if outs.length = 0 then
    let sink := procSink c.pipe procId
    pure { s with queues := s.queues.set sink.id sink }
  else pure s

/-- `get_proc_queues` of the node. -/
def getProcQueues (controllers : Dict String LoadedPipe) (procId : String) :
    Except PyError (Dict String APIQueue) := do
  let s ← controllers.values.foldlM (addProcQueues procId) ⟨.empty, none⟩
  pure s.queues

/-! ## What the answer should be -/

/-- A queue of the pipe leaves the processor. -/
def HasOutgoing (pipe : APIPipe) (procId : String) : Prop :=
  ∃ q ∈ pipe.queues.values, q.fromP = procId

instance (pipe : APIPipe) (procId : String) : Decidable (HasOutgoing pipe procId) :=
  inferInstanceAs (Decidable (∃ q ∈ pipe.queues.values, q.fromP = procId))

/-- The processor is at one end of the queue. -/
def Touches (procId : String) (q : APIQueue) : Prop := q.fromP = procId ∨ q.toP = procId

instance (procId : String) (q : APIQueue) : Decidable (Touches procId q) :=
  inferInstanceAs (Decidable (_ ∨ _))

/-- Some queue of the pipe is at the processor. -/
def AtQueue (pipe : APIPipe) (procId : String) : Prop := ∃ q ∈ pipe.queues.values, Touches procId q

instance (pipe : APIPipe) (procId : String) : Decidable (AtQueue pipe procId) :=
  inferInstanceAs (Decidable (∃ q ∈ pipe.queues.values, Touches procId q))

/-- The definition that the node gives of a queue. -/
def openedDef (q : APIQueue) : APIQueue := (QueueHandle.ofDef q).queueDef

/-- The queues of the pipe at the processor, its sink when no queue leaves the processor, and nothing
else. -/
structure Wired (pipe : APIPipe) (procId : String) (queues : Dict String APIQueue) : Prop where
  own : ∀ q ∈ pipe.queues.values, Touches procId q → queues.get? q.id = some (openedDef q)
  sink : ¬ HasOutgoing pipe procId → ∃ q, queues.get? pipe.sink.id = some q ∧ q.id = pipe.sink.id ∧
    q.fromP = procId ∧ q.toP = pipe.id ∧ q.size = pipe.sink.size
  only : ∀ key q, queues.get? key = some q →
    (∃ q₀ ∈ pipe.queues.values, Touches procId q₀ ∧ key = q₀.id) ∨
      (key = pipe.sink.id ∧ ¬ HasOutgoing pipe procId)

/-- The order of loading that suits a processor of the pipe. A processor that is named like the far end
of every sink takes the last sink, any other the first. With other pipes behind it, some queue of this
one has to be at the processor, as `map_proc` sees to it. -/
def LoadedInFront (pipes : List APIPipe) (pipe : APIPipe) (procId : String) : Prop :=
  if procId = "*" then pipes.getLast? = some pipe ∧ ¬ HasOutgoing pipe procId
  else pipes.head? = some pipe ∧ (pipes.length = 1 ∨ AtQueue pipe procId)

/-! ## A pipe definition is one -/

namespace APIPipe

/-- No queue of two processors has the id of a sink. -/
theorem childQueue_id_ne (processor child : APIProcessor) :
    (childQueue processor child).id ≠ sinkQueueId := by
  intro h
  have hmem : '>' ∈ (childQueue processor child).id.toList := by
    simp [childQueue, String.toList_append]
  rw [h] at hmem
  exact absurd hmem (by decide)

/-- The queues of a pipe that is being built: their ends are there, or `Due` says they come. -/
structure Building (Due : String → Prop) (pipe : APIPipe) : Prop where
  keyed : ∀ item ∈ pipe.queues.entries, item.2.id = item.1
  new : sinkQueueId ∉ pipe.queues.keys
  ends : ∀ q ∈ pipe.queues.values,
    (q.fromP ∈ pipe.processors.keys ∨ Due q.fromP) ∧ (q.toP ∈ pipe.processors.keys ∨ Due q.toP)

mutual

theorem Building.mapProc {Due : String → Prop} {pipe : APIPipe} : ∀ (node : ProcNode),
    Building (fun id => id = node.proc.id ∨ Due id) pipe →
      Building Due (pipe.mapProc node) ∧ node.proc.id ∈ (pipe.mapProc node).processors.keys ∧
        ∀ id ∈ pipe.processors.keys, id ∈ (pipe.mapProc node).processors.keys
  | .node proc children, h => by
    have hdone : Building Due { pipe with processors := pipe.processors.set proc.id proc } := by
      refine { keyed := h.keyed, new := h.new, ends := ?_ }
      intro q hq
      obtain ⟨hfrom, hto⟩ := h.ends q hq
      simp only [Dict.mem_keys_set]
      refine ⟨?_, ?_⟩
      · rcases hfrom with hfrom | hfrom | hfrom
        · exact Or.inl (Or.inr hfrom)
        · exact Or.inl (Or.inl hfrom)
        · exact Or.inr hfrom
      · rcases hto with hto | hto | hto
        · exact Or.inl (Or.inr hto)
        · exact Or.inl (Or.inl hto)
        · exact Or.inr hto
    obtain ⟨hbuilding, hkeys⟩ := hdone.mapChildren proc (Dict.mem_keys_set _ |>.mpr (Or.inl rfl)) children
    refine ⟨hbuilding, hkeys _ (Dict.mem_keys_set _ |>.mpr (Or.inl rfl)), ?_⟩
    exact fun id hid => hkeys id (Dict.mem_keys_set _ |>.mpr (Or.inr hid))

theorem Building.mapChildren {Due : String → Prop} {pipe : APIPipe} (h : Building Due pipe)
    (proc : APIProcessor) (hproc : proc.id ∈ pipe.processors.keys) : ∀ children : List ProcNode,
    Building Due (pipe.mapChildren proc children) ∧
      ∀ id ∈ pipe.processors.keys, id ∈ (pipe.mapChildren proc children).processors.keys
  | [] => ⟨h, fun _ hid => hid⟩
  | child :: children => by
    -- the child is due as long as only its queue is there
    have hqueue : Building (fun id => id = child.proc.id ∨ Due id)
        { pipe with queues := pipe.queues.set (childQueue proc child.proc).id (childQueue proc child.proc) } := by
      refine { keyed := ?_, new := ?_, ends := ?_ }
      · rintro ⟨key, q⟩ hitem
        rcases (Dict.mem_entries_set _).mp hitem with ⟨rfl, rfl⟩ | ⟨-, hitem⟩
        · rfl
        · exact h.keyed (key, q) hitem
      · rw [Dict.mem_keys_set]
        rintro (heq | hmem)
        · exact childQueue_id_ne proc child.proc heq.symm
        · exact h.new hmem
      · intro q hq
        rcases Dict.mem_values_of_mem_set _ hq with rfl | hq
        · exact ⟨Or.inl hproc, Or.inr (Or.inl rfl)⟩
        · obtain ⟨hfrom, hto⟩ := h.ends q hq
          exact ⟨hfrom.imp_right Or.inr, hto.imp_right Or.inr⟩
    obtain ⟨hchild, -, hkeys⟩ := hqueue.mapProc child
    obtain ⟨hrest, hkeys'⟩ := hchild.mapChildren proc (hkeys _ hproc) children
    exact ⟨hrest, fun id hid => hkeys' id (hkeys id hid)⟩

end

mutual

/-- `map_proc` leaves the root and the sink. -/
theorem mapProc_frame (pipe : APIPipe) : ∀ node : ProcNode,
    (pipe.mapProc node).id = pipe.id ∧ (pipe.mapProc node).root = pipe.root ∧
      (pipe.mapProc node).sink = pipe.sink
  | .node proc children =>
      mapChildren_frame { pipe with processors := pipe.processors.set proc.id proc } proc children

theorem mapChildren_frame (pipe : APIPipe) (proc : APIProcessor) : ∀ children : List ProcNode,
    (pipe.mapChildren proc children).id = pipe.id ∧ (pipe.mapChildren proc children).root = pipe.root ∧
      (pipe.mapChildren proc children).sink = pipe.sink
  | [] => ⟨rfl, rfl, rfl⟩
  | child :: children => by
    obtain ⟨hid, hroot, hsink⟩ := mapProc_frame
      { pipe with queues := pipe.queues.set (childQueue proc child.proc).id (childQueue proc child.proc) }
      child
    obtain ⟨hid', hroot', hsink'⟩ := mapChildren_frame (mapProc { pipe with
      queues := pipe.queues.set (childQueue proc child.proc).id (childQueue proc child.proc) } child)
      proc children
    exact ⟨hid'.trans hid, hroot'.trans hroot, hsink'.trans hsink⟩

end

theorem building_bare (root : APIProcessor) :
    Building (fun id => id = root.id ∨ False) (bare root) where
  keyed item hitem := by cases hitem
  new := by simp [bare, Dict.empty, Dict.keys]
  ends q hq := by cases hq

/-- Every `pipe_def` is as the node expects it. -/
theorem isPipeDef_pipeDef (root : ProcNode) : (pipeDef root).IsPipeDef := by
  obtain ⟨hid, hroot, hsink⟩ := mapProc_frame (bare root.proc) root
  obtain ⟨hbuilding, hmem, -⟩ := Building.mapProc root (building_bare root.proc)
  refine
    { root_id := ?_, root_mem := ?_, keyed := hbuilding.keyed, ends_mem := ?_, sink_id := ?_
      sink_fromP := ?_, sink_toP := ?_, sink_new := hbuilding.new }
  · exact (congrArg APIProcessor.id hroot).trans hid.symm
  · rw [pipeDef, hroot]
    exact hmem
  · intro q hq
    obtain ⟨hfrom, hto⟩ := hbuilding.ends q hq
    exact ⟨hfrom.resolve_right not_false, hto.resolve_right not_false⟩
  · exact congrArg APIQueue.id hsink
  · exact congrArg APIQueue.fromP hsink
  · rw [pipeDef, hsink, hroot]
    rfl

end APIPipe

/-! ## The queues of a loaded pipe -/

section Loaded

variable {pipe : APIPipe} {procId : String}

theorem open?_ok {q : APIQueue} {handle : QueueHandle} (h : QueueHandle.open? q = .ok handle) :
    handle = .ofDef q := by
  unfold QueueHandle.open? at h
  split at h
  · cases h
  · exact (Except.ok.inj h).symm

theorem openQueues_entries {items : List (String × APIQueue)} {queues opened : Dict String QueueHandle}
    (h : LoadedPipe.openQueues items queues = .ok opened) (hnodup : (items.map Prod.fst).Nodup)
    (hnew : ∀ key ∈ items.map Prod.fst, key ∉ queues.keys) :
    opened.entries = queues.entries ++ items.map fun item => (item.1, QueueHandle.ofDef item.2) := by
  induction items generalizing queues with
  | nil =>
    rw [List.map_nil, List.append_nil]
    exact congrArg Dict.entries (Except.ok.inj h).symm
  | cons item items ih =>
    obtain ⟨key, q⟩ := item
    obtain ⟨handle, hopen, h⟩ := except_bind_eq_ok_iff.mp h
    rw [open?_ok hopen] at h
    rw [List.map_cons, List.nodup_cons] at hnodup
    have hkey : key ∉ queues.keys := hnew key List.mem_cons_self
    rw [ih h hnodup.2 ?_, Dict.entries_set_of_not_mem _ _ hkey, List.append_assoc]
    · rfl
    · intro l hl
      rw [Dict.mem_keys_set]
      rintro (rfl | hmem)
      · exact hnodup.1 hl
      · exact hnew l (List.mem_cons_of_mem _ hl) hmem

/-- A loaded pipe has its queues and, behind them, its sink. -/
theorem APIPipe.IsPipeDef.load_values (hdef : pipe.IsPipeDef) {c : LoadedPipe}
    (h : LoadedPipe.load pipe = .ok c) :
    c.pipe = pipe ∧ c.queues.values = (pipe.queues.values ++ [pipe.sink]).map QueueHandle.ofDef := by
  obtain ⟨queues, hqueues, h⟩ := except_bind_eq_ok_iff.mp h
  obtain ⟨sink, hsink, h⟩ := except_bind_eq_ok_iff.mp h
  obtain rfl := Except.ok.inj h
  have hentries := openQueues_entries hqueues pipe.queues.nodup (fun _ _ => List.not_mem_nil)
  have hnew : pipe.sink.id ∉ queues.keys := by
    rw [hdef.sink_id, Dict.keys, hentries]
    show sinkQueueId ∉ ([] ++ pipe.queues.entries.map _).map Prod.fst
    rw [List.nil_append, List.map_map]
    exact hdef.sink_new
  refine ⟨rfl, ?_⟩
  rw [open?_ok hsink, Dict.values, Dict.entries_set_of_not_mem _ _ hnew, hentries]
  show ([] ++ pipe.queues.entries.map _ ++ _).map Prod.snd = _
  rw [List.nil_append, Dict.values, List.map_append, List.map_append, List.map_map, List.map_map]
  rfl

/-- The answer of one pipe. -/
theorem APIPipe.IsPipeDef.getProcQueues_eq (hdef : pipe.IsPipeDef) {c : LoadedPipe}
    (h : LoadedPipe.load pipe = .ok c) (procId : String) :
    c.getProcQueues procId
      = ((pipe.queues.values ++ [pipe.sink]).filter fun q => Touches procId q).map openedDef := by
  rw [LoadedPipe.getProcQueues, (hdef.load_values h).2, List.filter_map, List.map_map]
  rfl

end Loaded

/-! ## Setting several queues -/

/-- `for q in qs: queues[q.id] = q`. -/
def setAll (queues : Dict String APIQueue) (qs : List APIQueue) : Dict String APIQueue :=
  qs.foldl (fun queues q => queues.set q.id q) queues

theorem get?_setAll_of_ne {queues : Dict String APIQueue} {qs : List APIQueue} {key : String}
    (h : ∀ q ∈ qs, q.id ≠ key) : (setAll queues qs).get? key = queues.get? key := by
  induction qs generalizing queues with
  | nil => rfl
  | cons q qs ih =>
    have hq : key ≠ q.id := (h q List.mem_cons_self).symm
    rw [setAll, List.foldl_cons]
    refine (ih fun r hr => h r (List.mem_cons_of_mem _ hr)).trans ?_
    exact queues.get?_set_of_ne q hq

theorem get?_setAll_of_mem {queues : Dict String APIQueue} {qs : List APIQueue} {q : APIQueue}
    (hnodup : (qs.map APIQueue.id).Nodup) (h : q ∈ qs) : (setAll queues qs).get? q.id = some q := by
  induction qs generalizing queues with
  | nil => cases h
  | cons r qs ih =>
    rw [List.map_cons, List.nodup_cons] at hnodup
    rw [setAll, List.foldl_cons]
    rcases List.mem_cons.mp h with rfl | hq
    · have hother : ∀ r ∈ qs, r.id ≠ q.id := by
        intro r hr heq
        exact hnodup.1 (heq ▸ List.mem_map_of_mem hr)
      refine (get?_setAll_of_ne hother).trans ?_
      exact queues.get?_set_self q.id q
    · exact ih hnodup.2 hq

/-! ## One turn -/

section Turn

variable {procId : String} {pipe : APIPipe} {c : LoadedPipe} {before : List APIPipe}
  {queues : Dict String APIQueue}

/-- What is under the id of the sinks after the pipes of the list. -/
def sinkAfter (procId : String) (pipes : List APIPipe) : Option APIQueue :=
  if procId = "*" then pipes.getLast?.map fun pipe => openedDef pipe.sink
  else pipes.head?.bind fun pipe => if HasOutgoing pipe procId then none else some (procSink pipe procId)

/-- What the loop of `get_proc_queues` has collected from the pipes of the list. -/
structure Collected (procId : String) (pipes : List APIPipe) (queues : Dict String APIQueue) :
    Prop where
  own : ∀ pipe ∈ pipes, ∀ q ∈ pipe.queues.values, Touches procId q →
    queues.get? q.id = some (openedDef q)
  only : ∀ key q, queues.get? key = some q → key = sinkQueueId ∨
    ∃ pipe ∈ pipes, ∃ q₀ ∈ pipe.queues.values, Touches procId q₀ ∧ key = q₀.id ∧ q = openedDef q₀
  sink : queues.get? sinkQueueId = sinkAfter procId pipes

theorem APIPipe.IsPipeDef.mem_of_touches (hdef : pipe.IsPipeDef) {q : APIQueue}
    (hq : q ∈ pipe.queues.values) (h : Touches procId q) : procId ∈ pipe.processors.keys := by
  obtain ⟨hfrom, hto⟩ := hdef.ends_mem q hq
  rcases h with rfl | rfl
  · exact hfrom
  · exact hto

theorem APIPipe.IsPipeDef.id_ne_sink (hdef : pipe.IsPipeDef) {q : APIQueue}
    (hq : q ∈ pipe.queues.values) : q.id ≠ sinkQueueId := by
  obtain ⟨⟨key, q⟩, hitem, rfl⟩ := List.mem_map.mp hq
  rintro heq
  have hkey := List.mem_map_of_mem (f := Prod.fst) hitem
  rw [← hdef.keyed _ hitem, heq] at hkey
  exact hdef.sink_new hkey

/-- A processor that is not the root is at the sink only by its name. -/
theorem APIPipe.IsPipeDef.touches_sink_iff (hdef : pipe.IsPipeDef) (hroot : procId ≠ pipe.root.id) :
    Touches procId pipe.sink ↔ procId = "*" := by
  unfold Touches
  rw [hdef.sink_fromP, hdef.sink_toP, or_iff_left hroot.symm]
  exact eq_comm

theorem APIPipe.IsPipeDef.mem_answer_iff (hdef : pipe.IsPipeDef) (hload : LoadedPipe.load pipe = .ok c)
    (hroot : procId ≠ pipe.root.id) {q : APIQueue} :
    q ∈ c.getProcQueues procId ↔ (∃ q₀ ∈ pipe.queues.values, Touches procId q₀ ∧ openedDef q₀ = q) ∨
      (procId = "*" ∧ openedDef pipe.sink = q) := by
  rw [hdef.getProcQueues_eq hload procId, List.mem_map]
  simp only [List.mem_filter, List.mem_append, List.mem_singleton, decide_eq_true_eq]
  constructor
  · rintro ⟨q₀, ⟨hq₀ | rfl, htouch⟩, rfl⟩
    · exact Or.inl ⟨q₀, hq₀, htouch, rfl⟩
    · exact Or.inr ⟨(hdef.touches_sink_iff hroot).mp htouch, rfl⟩
  · rintro (⟨q₀, hq₀, htouch, rfl⟩ | ⟨hstar, rfl⟩)
    · exact ⟨q₀, ⟨Or.inl hq₀, htouch⟩, rfl⟩
    · exact ⟨pipe.sink, ⟨Or.inr rfl, (hdef.touches_sink_iff hroot).mpr hstar⟩, rfl⟩

theorem APIPipe.IsPipeDef.answer_eq_nil_iff (hdef : pipe.IsPipeDef)
    (hload : LoadedPipe.load pipe = .ok c) (hroot : procId ≠ pipe.root.id) :
    c.getProcQueues procId = [] ↔ procId ≠ "*" ∧ ¬ AtQueue pipe procId := by
  rw [List.eq_nil_iff_forall_not_mem]
  simp only [hdef.mem_answer_iff hload hroot]
  constructor
  · intro h
    refine ⟨fun hstar => h _ (Or.inr ⟨hstar, rfl⟩), ?_⟩
    rintro ⟨q, hq, htouch⟩
    exact h _ (Or.inl ⟨q, hq, htouch, rfl⟩)
  · rintro ⟨hstar, hat⟩ q (⟨q₀, hq₀, htouch, -⟩ | ⟨heq, -⟩)
    · exact hat ⟨q₀, hq₀, htouch⟩
    · exact hstar heq

theorem APIPipe.IsPipeDef.answer_nodup (hdef : pipe.IsPipeDef)
    (hload : LoadedPipe.load pipe = .ok c) : ((c.getProcQueues procId).map APIQueue.id).Nodup := by
  rw [hdef.getProcQueues_eq hload procId, List.map_map]
  have hids : ((pipe.queues.values ++ [pipe.sink]).map APIQueue.id).Nodup := by
    have hvalues : pipe.queues.values.map APIQueue.id = pipe.queues.keys := by
      rw [Dict.values, Dict.keys, List.map_map]
      exact List.map_congr_left hdef.keyed
    rw [List.map_append, hvalues, List.map_singleton, hdef.sink_id, List.nodup_append]
    refine ⟨pipe.queues.nodup, List.nodup_singleton _, ?_⟩
    rintro key hkey _ hsink rfl
    exact hdef.sink_new (List.mem_singleton.mp hsink ▸ hkey)
  exact hids.sublist (List.filter_sublist.map _)

/-- The queues of a pipe have joined those of the pipes before, and its sink has not been added yet. -/
structure Joined (procId : String) (before : List APIPipe) (pipe : APIPipe)
    (queues joined : Dict String APIQueue) : Prop where
  own : ∀ x ∈ before ++ [pipe], ∀ q ∈ x.queues.values, Touches procId q →
    joined.get? q.id = some (openedDef q)
  only : ∀ key q, joined.get? key = some q → key = sinkQueueId ∨
    ∃ x ∈ before ++ [pipe], ∃ q₀ ∈ x.queues.values, Touches procId q₀ ∧ key = q₀.id ∧ q = openedDef q₀
  sink : joined.get? sinkQueueId
    = if procId = "*" then some (openedDef pipe.sink) else queues.get? sinkQueueId

/-- The queues of a pipe join those that are there. -/
theorem Collected.setAll (h : Collected procId before queues) (hdef : pipe.IsPipeDef)
    (hload : LoadedPipe.load pipe = .ok c) (hroot : procId ≠ pipe.root.id)
    (hbefore : ∀ x ∈ before, x.IsPipeDef)
    (hother : ∀ x ∈ before, procId ∈ x.processors.keys → procId ∉ pipe.processors.keys) :
    Joined procId before pipe queues (Upipe.setAll queues (c.getProcQueues procId)) := by
  have hmem {q : APIQueue} := hdef.mem_answer_iff hload hroot (q := q)
  have hnodup : ((c.getProcQueues procId).map APIQueue.id).Nodup := hdef.answer_nodup hload
  refine ⟨?_, ?_, ?_⟩
  · intro x hx q hq htouch
    rcases List.mem_append.mp hx with hx | hx
    · -- this pipe has no queue at the processor, only perhaps its sink
      refine (get?_setAll_of_ne ?_).trans (h.own x hx q hq htouch)
      intro r hr
      rcases hmem.mp hr with ⟨q₀, hq₀, htouch₀, -⟩ | ⟨-, rfl⟩
      · exact absurd (hdef.mem_of_touches hq₀ htouch₀)
          (hother x hx ((hbefore x hx).mem_of_touches hq htouch))
      · exact fun heq => (hbefore x hx).id_ne_sink hq (heq.symm.trans hdef.sink_id)
    · rw [List.mem_singleton.mp hx] at hq
      exact get?_setAll_of_mem hnodup (hmem.mpr (Or.inl ⟨q, hq, htouch, rfl⟩))
  · intro key q hget
    by_cases hin : ∃ r ∈ c.getProcQueues procId, r.id = key
    · obtain ⟨r, hr, rfl⟩ := hin
      obtain rfl := Option.some.inj ((get?_setAll_of_mem hnodup hr).symm.trans hget)
      rcases hmem.mp hr with ⟨q₀, hq₀, htouch, rfl⟩ | ⟨-, rfl⟩
      · exact Or.inr ⟨pipe, List.mem_append_right _ List.mem_cons_self, q₀, hq₀, htouch, rfl, rfl⟩
      · exact Or.inl hdef.sink_id
    · rw [get?_setAll_of_ne fun r hr heq => hin ⟨r, hr, heq⟩] at hget
      rcases h.only key q hget with hkey | ⟨x, hx, hrest⟩
      · exact Or.inl hkey
      · exact Or.inr ⟨x, List.mem_append_left _ hx, hrest⟩
  · split
    · rename_i hstar
      have hget : (Upipe.setAll queues (c.getProcQueues procId)).get? (openedDef pipe.sink).id = _ :=
        get?_setAll_of_mem hnodup (hmem.mpr (Or.inr ⟨hstar, rfl⟩))
      have hid : (openedDef pipe.sink).id = sinkQueueId := hdef.sink_id
      rwa [hid] at hget
    · rename_i hstar
      apply get?_setAll_of_ne
      intro r hr
      rcases hmem.mp hr with ⟨q₀, hq₀, -, rfl⟩ | ⟨heq, -⟩
      · exact fun heq => hdef.id_ne_sink hq₀ heq
      · exact absurd heq hstar

/-- The count of outgoing queues is zero when no queue leaves the processor. -/
theorem length_leaving_eq_zero_iff {queues : Dict String APIQueue} :
    (leaving procId queues).length = 0 ↔ ∀ key q, queues.get? key = some q → q.fromP ≠ procId := by
  rw [List.length_eq_zero_iff, leaving, List.filter_eq_nil_iff]
  constructor
  · intro h key q hget heq
    have hq := List.mem_map_of_mem (f := Prod.snd) (queues.get?_eq_some_iff.mp hget)
    exact h q hq (decide_eq_true heq)
  · intro h q hq heq
    obtain ⟨⟨key, q⟩, hitem, rfl⟩ := List.mem_map.mp hq
    exact h key q (queues.get?_eq_some_iff.mpr hitem) (of_decide_eq_true heq)

theorem outQs_of_some (procId : String) {s : Collecting} {q : APIQueue} (hq : s.q = some q) :
    ∃ outs, outQs procId s = .ok outs ∧ outs.length = (leaving procId s.queues).length := by
  rw [outQs, hq]
  induction leaving procId s.queues with
  | nil => exact ⟨[], rfl, rfl⟩
  | cons r rs ih =>
    obtain ⟨outs, houts, hlength⟩ := ih
    refine ⟨q :: outs, ?_, congrArg (· + 1) hlength⟩
    rw [List.mapM_cons, houts]
    rfl

/-- As long as `q` has no value, nothing must leave the processor. -/
theorem outQs_of_none {s : Collecting} (hq : s.q = none) : outQs procId s =
    if (leaving procId s.queues).length = 0 then .ok [] else .error unboundQ := by
  rw [outQs, hq]
  cases leaving procId s.queues with
  | nil => rfl
  | cons r rs =>
    rw [List.mapM_cons]
    rfl

theorem outQs_length {s : Collecting} {outs : List APIQueue} (h : outQs procId s = .ok outs) :
    outs.length = (leaving procId s.queues).length := by
  cases hq : s.q with
  | some q =>
    obtain ⟨outs', houts, hlength⟩ := outQs_of_some procId hq
    obtain rfl := Except.ok.inj (h.symm.trans houts)
    exact hlength
  | none =>
    rw [outQs_of_none hq] at h
    split at h
    · rename_i hzero
      obtain rfl := Except.ok.inj h
      exact hzero.symm
    · cases h

/-- What a turn that raises nothing leaves behind. -/
theorem addProcQueues_ok {s s' : Collecting} (h : addProcQueues procId s c = .ok s') :
    s'.queues =
      if (leaving procId (setAll s.queues (c.getProcQueues procId))).length = 0 then
        (setAll s.queues (c.getProcQueues procId)).set (procSink c.pipe procId).id (procSink c.pipe procId)
      else setAll s.queues (c.getProcQueues procId) := by
  obtain ⟨outs, houts, h⟩ := except_bind_eq_ok_iff.mp h
  rw [outQs_length houts] at h
  split at h
  · rename_i hzero
    obtain rfl := Except.ok.inj h
    exact (if_pos hzero).symm
  · rename_i hcount
    obtain rfl := Except.ok.inj h
    exact (if_neg hcount).symm

theorem Collecting.join_nil (s : Collecting) : s.join [] = s := rfl

theorem Collecting.isSome_join {s : Collecting} {qs : List APIQueue} (h : qs ≠ [] ∨ s.q.isSome) :
    (s.join qs).q.isSome := by
  rw [Collecting.join]
  rcases h with h | h
  · rw [List.getLast?_eq_getLast_of_ne_nil h]
    rfl
  · rw [Option.isSome_or, h, Bool.or_true]

/-- A turn raises nothing when `q` has a value behind its first loop, and keeps the value. -/
theorem exists_addProcQueues {s : Collecting} (h : c.getProcQueues procId ≠ [] ∨ s.q.isSome) :
    ∃ s', addProcQueues procId s c = .ok s' ∧ s'.q.isSome := by
  have hsome := Collecting.isSome_join h
  obtain ⟨q, hq⟩ := Option.isSome_iff_exists.mp hsome
  obtain ⟨outs, houts, -⟩ := outQs_of_some procId hq
  rw [addProcQueues, houts]
  by_cases hzero : outs.length = 0
  · exact ⟨_, if_pos hzero, hsome⟩
  · exact ⟨_, if_neg hzero, hsome⟩

/-- From then on no turn raises. -/
theorem exists_foldlM_addProcQueues {cs : List LoadedPipe} {s : Collecting} (h : s.q.isSome) :
    ∃ s', cs.foldlM (addProcQueues procId) s = .ok s' := by
  induction cs generalizing s with
  | nil => exact ⟨s, rfl⟩
  | cons c cs ih =>
    obtain ⟨s₁, hturn, h₁⟩ : ∃ s₁, addProcQueues procId s c = .ok s₁ ∧ s₁.q.isSome :=
      exists_addProcQueues (Or.inr h)
    rw [List.foldlM_cons, hturn]
    exact ih h₁

/-- A first pipe without a queue at the processor leaves only its sink. -/
theorem addProcQueues_first (hnil : c.getProcQueues procId = []) :
    addProcQueues procId ⟨.empty, none⟩ c
      = .ok ⟨Dict.empty.set (procSink c.pipe procId).id (procSink c.pipe procId), none⟩ := by
  rw [addProcQueues, hnil]
  rfl

/-- A second one without a queue there reads `q` for that sink. -/
theorem addProcQueues_second {sink : APIQueue} (hnil : c.getProcQueues procId = [])
    (hfrom : sink.fromP = procId) :
    addProcQueues procId ⟨Dict.empty.set sink.id sink, none⟩ c = .error unboundQ := by
  have hcount : (leaving procId (Dict.empty.set sink.id sink)).length ≠ 0 := by
    rw [Ne, length_leaving_eq_zero_iff]
    exact fun h => h sink.id sink (Dict.get?_set_self _ _ _) hfrom
  rw [addProcQueues, hnil, Collecting.join_nil, outQs_of_none rfl, if_neg hcount]
  rfl

/-- The turns raise nothing unless the first two find no queue at the processor. -/
theorem exists_foldlM_iff {cs : List LoadedPipe} :
    (∃ s, cs.foldlM (addProcQueues procId) ⟨.empty, none⟩ = .ok s) ↔
      cs.length ≤ 1 ∨ ∃ c ∈ cs.take 2, c.getProcQueues procId ≠ [] := by
  cases cs with
  | nil => exact iff_of_true ⟨_, rfl⟩ (Or.inl (Nat.zero_le _))
  | cons c cs =>
    rw [List.foldlM_cons]
    by_cases hc : c.getProcQueues procId = []
    · rw [addProcQueues_first hc]
      cases cs with
      | nil => exact iff_of_true ⟨_, rfl⟩ (Or.inl (Nat.le_refl _))
      | cons d cs =>
        show (∃ s, (d :: cs).foldlM (addProcQueues procId) _ = .ok s) ↔ _
        rw [List.foldlM_cons]
        by_cases hd : d.getProcQueues procId = []
        · rw [addProcQueues_second hd rfl]
          exact iff_of_false (fun ⟨_, h⟩ => nomatch h) (by simp [hc, hd])
        · obtain ⟨s, hturn, hq⟩ := exists_addProcQueues (Or.inl hd)
          rw [hturn]
          have hmem : d ∈ (c :: d :: cs).take 2 := List.mem_cons_of_mem _ List.mem_cons_self
          exact iff_of_true (exists_foldlM_addProcQueues hq) (Or.inr ⟨d, hmem, hd⟩)
    · obtain ⟨s, hturn, hq⟩ := exists_addProcQueues (Or.inl hc)
      rw [hturn]
      exact iff_of_true (exists_foldlM_addProcQueues hq) (Or.inr ⟨c, List.mem_cons_self, hc⟩)

/-- Without a queue that leaves the processor this is the first pipe, and the processor is a leaf of it. -/
theorem Joined.first_leaf {joined : Dict String APIQueue} (hjoined : Joined procId before pipe queues joined)
    (h : Collected procId before queues) (hdef : pipe.IsPipeDef)
    (hzero : ∀ key q, joined.get? key = some q → q.fromP ≠ procId) :
    procId ≠ "*" ∧ before = [] ∧ ¬ HasOutgoing pipe procId := by
  have hsink := hjoined.sink
  have hstar : procId ≠ "*" := by
    rintro rfl
    rw [if_pos rfl] at hsink
    exact hzero _ _ hsink hdef.sink_fromP
  rw [if_neg hstar, h.sink, sinkAfter, if_neg hstar] at hsink
  have hleaf : ∀ x ∈ before ++ [pipe], ¬ HasOutgoing x procId := by
    rintro x hx ⟨q, hq, hfrom⟩
    exact hzero _ _ (hjoined.own x hx q hq (Or.inl hfrom)) hfrom
  refine ⟨hstar, ?_, hleaf pipe (List.mem_append_right _ List.mem_cons_self)⟩
  cases before with
  | nil => rfl
  | cons x before =>
    rw [List.head?_cons, Option.bind_some, if_neg (hleaf x List.mem_cons_self)] at hsink
    exact absurd rfl (hzero _ _ hsink)

/-- Some queue leaves the processor in the first pipe, unless it is at the sink by its name. -/
theorem Joined.hasOutgoing {joined : Dict String APIQueue} (hjoined : Joined procId [] pipe queues joined)
    (h : Collected procId [] queues) (hstar : procId ≠ "*")
    (hcount : ¬ ∀ key q, joined.get? key = some q → q.fromP ≠ procId) : HasOutgoing pipe procId := by
  by_contra hleaf
  refine hcount ?_
  rintro key q hget hfrom
  rcases hjoined.only key q hget with rfl | ⟨x, hx, q₀, hq₀, -, -, rfl⟩
  · have hsink := hjoined.sink
    rw [if_neg hstar, h.sink, sinkAfter, if_neg hstar, hget] at hsink
    cases hsink
  · rw [List.nil_append, List.mem_singleton] at hx
    exact hleaf ⟨q₀, hx ▸ hq₀, hfrom⟩

theorem Collected.turn {s s' : Collecting} (h : Collected procId before s.queues) (hdef : pipe.IsPipeDef)
    (hload : LoadedPipe.load pipe = .ok c) (hroot : procId ≠ pipe.root.id)
    (hbefore : ∀ x ∈ before, x.IsPipeDef)
    (hother : ∀ x ∈ before, procId ∈ x.processors.keys → procId ∉ pipe.processors.keys)
    (hturn : addProcQueues procId s c = .ok s') : Collected procId (before ++ [pipe]) s'.queues := by
  have hjoined := h.setAll hdef hload hroot hbefore hother
  obtain ⟨hpipe, -⟩ := hdef.load_values hload
  rw [addProcQueues_ok hturn, hpipe]
  revert hjoined
  generalize Upipe.setAll s.queues (c.getProcQueues procId) = joined
  intro hjoined
  have hid : (procSink pipe procId).id = sinkQueueId := hdef.sink_id
  split
  · rename_i hzero
    obtain ⟨hstar, rfl, hleaf⟩ := hjoined.first_leaf h hdef (length_leaving_eq_zero_iff.mp hzero)
    rw [hid]
    refine { own := ?_, only := ?_, sink := ?_ }
    · intro x hx q hq htouch
      have hdef' : x.IsPipeDef := List.mem_singleton.mp hx ▸ hdef
      rw [Dict.get?_set_of_ne _ _ (hdef'.id_ne_sink hq)]
      exact hjoined.own x hx q hq htouch
    · intro key q hget
      by_cases hkey : key = sinkQueueId
      · exact Or.inl hkey
      · rw [Dict.get?_set_of_ne _ _ hkey] at hget
        exact hjoined.only key q hget
    · rw [Dict.get?_set_self, List.nil_append, sinkAfter, if_neg hstar, List.head?_cons,
        Option.bind_some, if_neg hleaf]
  · rename_i hcount
    refine { own := hjoined.own, only := hjoined.only, sink := ?_ }
    rw [hjoined.sink, sinkAfter]
    split
    · rw [List.getLast?_append_of_ne_nil _ (List.cons_ne_nil _ _)]
      rfl
    · rename_i hstar
      rw [h.sink, sinkAfter, if_neg hstar]
      cases before with
      | cons x before => rfl
      | nil =>
        have hout := hjoined.hasOutgoing h hstar fun hzero => hcount (length_leaving_eq_zero_iff.mpr hzero)
        exact (if_pos hout).symm

end Turn

/-! ## The whole answer -/

section Answer

variable {procId : String} {pipes : List APIPipe} {pipe : APIPipe}

/-- No processor is in two pipes. -/
def Apart (x y : APIPipe) : Prop := ∀ id ∈ x.processors.keys, id ∉ y.processors.keys

instance (x y : APIPipe) : Decidable (Apart x y) :=
  inferInstanceAs (Decidable (∀ id ∈ x.processors.keys, id ∉ y.processors.keys))

theorem eq_of_apart (hapart : pipes.Pairwise Apart) {x y : APIPipe} (hx : x ∈ pipes) (hy : y ∈ pipes)
    {id : String} (hxid : id ∈ x.processors.keys) (hyid : id ∈ y.processors.keys) : x = y := by
  have hsymm : Std.Symm Apart := ⟨fun x y h id hy hx => h id hx hy⟩
  by_contra hne
  exact hapart.forall hx hy hne id hxid hyid

/-- A pipe is known by its id, which is its root's. -/
theorem eq_of_id (hapart : pipes.Pairwise Apart) (hdefs : ∀ x ∈ pipes, x.IsPipeDef) {x y : APIPipe}
    (hx : x ∈ pipes) (hy : y ∈ pipes) (hid : x.id = y.id) : x = y := by
  have hroot : x.root.id = y.root.id := by
    rw [(hdefs x hx).root_id, hid, (hdefs y hy).root_id]
  refine eq_of_apart hapart hx hy (hdefs x hx).root_mem ?_
  rw [hroot]
  exact (hdefs y hy).root_mem

/-- What is loaded, in the order of loading. -/
theorem loadPipes_values {controllers loaded : Dict String LoadedPipe}
    (h : pipes.foldlM loadPipe controllers = .ok loaded) : ∃ cs,
      loaded.values = controllers.values ++ cs ∧
        List.Forall₂ (fun pipe c => LoadedPipe.load pipe = .ok c) pipes cs := by
  induction pipes generalizing controllers with
  | nil =>
    obtain rfl := Except.ok.inj h
    exact ⟨[], (List.append_nil _).symm, List.Forall₂.nil⟩
  | cons pipe pipes ih =>
    rw [List.foldlM_cons] at h
    obtain ⟨controllers', hpipe, h⟩ := except_bind_eq_ok_iff.mp h
    unfold loadPipe at hpipe
    split at hpipe
    · cases hpipe
    · rename_i hnew
      obtain ⟨c, hload, hpipe⟩ := except_bind_eq_ok_iff.mp hpipe
      obtain rfl := Except.ok.inj hpipe
      obtain ⟨cs, hvalues, hloads⟩ := ih h
      refine ⟨c :: cs, ?_, List.Forall₂.cons hload hloads⟩
      have hkey : pipe.id ∉ controllers.keys := fun hmem => hnew (decide_eq_true hmem)
      rw [hvalues, Dict.values, Dict.entries_set_of_not_mem _ _ hkey, List.map_append, List.append_assoc]
      rfl

/-- The loop over the pipes. -/
theorem Collected.foldlM {before : List APIPipe} {s s' : Collecting} {cs : List LoadedPipe}
    (h : Collected procId before s.queues)
    (hloads : List.Forall₂ (fun pipe c => LoadedPipe.load pipe = .ok c) pipes cs)
    (hdefs : ∀ x ∈ before ++ pipes, x.IsPipeDef) (hapart : (before ++ pipes).Pairwise Apart)
    (hroot : ∀ x ∈ before ++ pipes, procId ≠ x.root.id)
    (hfold : cs.foldlM (addProcQueues procId) s = .ok s') : Collected procId (before ++ pipes) s'.queues := by
  induction hloads generalizing before s with
  | nil =>
    obtain rfl := Except.ok.inj hfold
    rwa [List.append_nil]
  | @cons pipe c pipes cs hload _ ih =>
    rw [List.foldlM_cons] at hfold
    obtain ⟨s₁, hturn, hfold⟩ := except_bind_eq_ok_iff.mp hfold
    have hpipe : pipe ∈ before ++ pipe :: pipes := List.mem_append_right _ List.mem_cons_self
    have hcollected : Collected procId (before ++ [pipe]) s₁.queues := by
      refine h.turn (hdefs pipe hpipe) hload (hroot pipe hpipe) ?_ ?_ hturn
      · exact fun x hx => hdefs x (List.mem_append_left _ hx)
      · intro x hx hmem
        exact (List.pairwise_append.mp hapart).2.2 x hx pipe List.mem_cons_self procId hmem
    rw [List.append_cons] at hdefs hapart hroot ⊢
    exact ih hcollected hdefs hapart hroot hfold

theorem ne_root_id (hdefs : ∀ x ∈ pipes, x.IsPipeDef) (hapart : pipes.Pairwise Apart)
    (hpipe : pipe ∈ pipes) (hmem : procId ∈ pipe.processors.keys) (hroot : procId ≠ pipe.root.id) :
    ∀ x ∈ pipes, procId ≠ x.root.id := by
  rintro x hx rfl
  obtain rfl := eq_of_apart hapart hx hpipe (hdefs x hx).root_mem hmem
  exact hroot rfl

/-- The call raises only over two pipes in front that both have no queue at the processor: the sink of
the first makes the turn of the second read `q`. -/
theorem getProcQueues_ok_iff {controllers : Dict String LoadedPipe}
    (hload : loadPipes pipes = .ok controllers) (hdefs : ∀ x ∈ pipes, x.IsPipeDef)
    (hroots : ∀ x ∈ pipes, procId ≠ x.root.id) :
    (∃ queues, getProcQueues controllers procId = .ok queues) ↔
      procId = "*" ∨ pipes.length ≤ 1 ∨ ∃ x ∈ pipes.take 2, AtQueue x procId := by
  obtain ⟨cs, hvalues, hloads⟩ := loadPipes_values hload
  have hok : (∃ queues, getProcQueues controllers procId = .ok queues) ↔
      ∃ s, cs.foldlM (addProcQueues procId) ⟨.empty, none⟩ = .ok s := by
    rw [getProcQueues, hvalues]
    constructor
    · rintro ⟨queues, h⟩
      obtain ⟨s, hs, -⟩ := except_bind_eq_ok_iff.mp h
      exact ⟨s, hs⟩
    · rintro ⟨s, hs⟩
      exact ⟨s.queues, except_bind_eq_ok_iff.mpr ⟨s, hs, rfl⟩⟩
  have hjoins : ∀ {x c}, x ∈ pipes → LoadedPipe.load x = .ok c →
      (c.getProcQueues procId ≠ [] ↔ procId = "*" ∨ AtQueue x procId) := by
    intro x c hx hc
    rw [Ne, (hdefs x hx).answer_eq_nil_iff hc (hroots x hx), not_and_or, not_not, not_not]
  rw [hok, exists_foldlM_iff, ← hloads.length_eq]
  cases hloads with
  | nil => simp
  | cons hfirst hrest =>
    cases hrest with
    | nil => simp
    | cons hsecond _ =>
      have hfirst := hjoins List.mem_cons_self hfirst
      have hsecond := hjoins (List.mem_cons_of_mem _ List.mem_cons_self) hsecond
      simp only [List.take_succ_cons, List.take_zero, List.exists_mem_cons_iff, hfirst, hsecond, List.not_mem_nil,
        false_and, exists_false]
      by_cases hstar : procId = "*"
      · simp [hstar]
      · simp [hstar]

/-- The answer for a processor of a loaded pipe that is not its root. -/
theorem collected_getProcQueues {controllers : Dict String LoadedPipe} {queues : Dict String APIQueue}
    (hload : loadPipes pipes = .ok controllers) (hdefs : ∀ x ∈ pipes, x.IsPipeDef)
    (hapart : pipes.Pairwise Apart) (hpipe : pipe ∈ pipes) (hmem : procId ∈ pipe.processors.keys)
    (hroot : procId ≠ pipe.root.id) (hget : getProcQueues controllers procId = .ok queues) :
    Collected procId pipes queues := by
  obtain ⟨cs, hvalues, hloads⟩ := loadPipes_values hload
  have hstart : Collected procId [] (⟨.empty, none⟩ : Collecting).queues :=
    { own := fun x hx => nomatch hx
      only := fun key q hget => nomatch hget
      sink := by
        unfold sinkAfter
        split <;> rfl }
  have hroots := ne_root_id hdefs hapart hpipe hmem hroot
  unfold getProcQueues at hget
  rw [hvalues] at hget
  obtain ⟨s, hfold, hget⟩ := except_bind_eq_ok_iff.mp hget
  obtain rfl := Except.ok.inj hget
  exact hstart.foldlM hloads hdefs hapart hroots hfold

/-- A sink that is told of is that of a leaf, and ends at the pipe. -/
theorem Wired.leaf_of_sink {queues : Dict String APIQueue} {q : APIQueue} (h : Wired pipe procId queues)
    (hdef : pipe.IsPipeDef) (hget : queues.get? pipe.sink.id = some q) :
    ¬ HasOutgoing pipe procId ∧ q.toP = pipe.id := by
  have hout : ¬ HasOutgoing pipe procId := by
    rcases h.only _ q hget with ⟨q₀, hq₀, -, hid⟩ | ⟨-, hout⟩
    · exact absurd (hid.symm.trans hdef.sink_id) (hdef.id_ne_sink hq₀)
    · exact hout
  obtain ⟨r, hr, -, -, hto, -⟩ := h.sink hout
  obtain rfl := Option.some.inj (hget.symm.trans hr)
  exact ⟨hout, hto⟩

/-- The sink of the pipe that was loaded in front is the one that was collected. -/
theorem LoadedInFront.wired {queues : Dict String APIQueue} (h : LoadedInFront pipes pipe procId)
    (hcollected : Collected procId pipes queues) (hdefs : ∀ x ∈ pipes, x.IsPipeDef)
    (hapart : pipes.Pairwise Apart) (hpipe : pipe ∈ pipes) (hmem : procId ∈ pipe.processors.keys) :
    Wired pipe procId queues := by
  have hdef := hdefs pipe hpipe
  have hsink := hcollected.sink
  rw [← hdef.sink_id] at hsink
  unfold LoadedInFront at h
  refine { own := hcollected.own pipe hpipe, sink := ?_, only := ?_ }
  · intro hout
    split at h
    · rename_i hstar
      rw [sinkAfter, if_pos hstar, h.1, Option.map_some] at hsink
      exact ⟨_, hsink, rfl, hdef.sink_fromP.trans hstar.symm, hdef.sink_toP.trans hdef.root_id, rfl⟩
    · rename_i hstar
      rw [sinkAfter, if_neg hstar, h.1, Option.bind_some, if_neg hout] at hsink
      exact ⟨_, hsink, rfl, rfl, rfl, rfl⟩
  · intro key q hget
    rcases hcollected.only key q hget with rfl | ⟨x, hx, q₀, hq₀, htouch, hkey, -⟩
    · refine Or.inr ⟨hdef.sink_id.symm, ?_⟩
      split at h
      · exact h.2
      · rename_i hstar
        intro hout
        rw [sinkAfter, if_neg hstar, h.1, Option.bind_some, if_pos hout, hdef.sink_id, hget] at hsink
        cases hsink
    · obtain rfl := eq_of_apart hapart hx hpipe ((hdefs x hx).mem_of_touches hq₀ htouch) hmem
      exact Or.inl ⟨q₀, hq₀, htouch, hkey⟩

/-- Nothing is raised when the pipe of the processor was loaded in front. -/
theorem LoadedInFront.exists_getProcQueues {controllers : Dict String LoadedPipe}
    (h : LoadedInFront pipes pipe procId) (hload : loadPipes pipes = .ok controllers)
    (hdefs : ∀ x ∈ pipes, x.IsPipeDef) (hroots : ∀ x ∈ pipes, procId ≠ x.root.id) :
    ∃ queues, getProcQueues controllers procId = .ok queues := by
  rw [getProcQueues_ok_iff hload hdefs hroots]
  unfold LoadedInFront at h
  split at h
  · rename_i hstar
    exact Or.inl hstar
  · obtain ⟨hhead, hlength | hat⟩ := h
    · exact Or.inr (Or.inl (Nat.le_of_eq hlength))
    · obtain ⟨rest, rfl⟩ := List.head?_eq_some_iff.mp hhead
      exact Or.inr (Or.inr ⟨pipe, List.mem_cons_self, hat⟩)

/-- Where the processor is told right, its pipe is the one whose sink was collected. -/
theorem Wired.front {queues : Dict String APIQueue} (h : Wired pipe procId queues)
    (hcollected : Collected procId pipes queues) (hdefs : ∀ x ∈ pipes, x.IsPipeDef)
    (hapart : pipes.Pairwise Apart) (hpipe : pipe ∈ pipes) (hmem : procId ∈ pipe.processors.keys) :
    if procId = "*" then pipes.getLast? = some pipe ∧ ¬ HasOutgoing pipe procId
    else pipes.head? = some pipe := by
  have hdef := hdefs pipe hpipe
  have hsink := hcollected.sink
  rw [← hdef.sink_id] at hsink
  obtain ⟨first, rest, rfl⟩ := List.exists_cons_of_ne_nil (List.ne_nil_of_mem hpipe)
  split
  · rename_i hstar
    obtain ⟨last, hlast⟩ := Option.ne_none_iff_exists'.mp
      (mt List.getLast?_eq_none_iff.mp (List.cons_ne_nil first rest))
    rw [sinkAfter, if_pos hstar, hlast, Option.map_some] at hsink
    obtain ⟨hout, hto⟩ := h.leaf_of_sink hdef hsink
    have hlastmem := List.mem_of_getLast? hlast
    have hlastdef := hdefs last hlastmem
    have hid : last.id = pipe.id := (hlastdef.sink_toP.trans hlastdef.root_id).symm.trans hto
    rw [hlast, eq_of_id hapart hdefs hlastmem hpipe hid]
    exact ⟨rfl, hout⟩
  · rename_i hstar
    have hfirst : first ∈ first :: rest := List.mem_cons_self
    rw [sinkAfter, if_neg hstar, List.head?_cons, Option.bind_some] at hsink
    rw [List.head?_cons]
    by_cases hout : HasOutgoing first procId
    · obtain ⟨q, hq, hfrom⟩ := hout
      rw [eq_of_apart hapart hfirst hpipe ((hdefs first hfirst).mem_of_touches hq (Or.inl hfrom)) hmem]
    · rw [if_neg hout] at hsink
      rw [eq_of_id hapart hdefs hfirst hpipe (h.leaf_of_sink hdef hsink).2]

/-- The processor is told of the queues of its own pipe, and of no others, exactly when its pipe was
loaded in front of the other pipes. -/
theorem queue_wiring_iff {controllers : Dict String LoadedPipe}
    (hload : loadPipes pipes = .ok controllers) (hdefs : ∀ x ∈ pipes, x.IsPipeDef)
    (hapart : pipes.Pairwise Apart) (hpipe : pipe ∈ pipes) (hmem : procId ∈ pipe.processors.keys)
    (hroot : procId ≠ pipe.root.id) :
    (∃ queues, getProcQueues controllers procId = .ok queues ∧ Wired pipe procId queues) ↔
      LoadedInFront pipes pipe procId := by
  have hroots := ne_root_id hdefs hapart hpipe hmem hroot
  constructor
  · rintro ⟨queues, hget, h⟩
    have hcollected := collected_getProcQueues hload hdefs hapart hpipe hmem hroot hget
    have hfront := h.front hcollected hdefs hapart hpipe hmem
    unfold LoadedInFront
    split
    · rename_i hstar
      rwa [if_pos hstar] at hfront
    · rename_i hstar
      rw [if_neg hstar] at hfront
      refine ⟨hfront, ?_⟩
      -- the pipe that has a queue at the processor is the one of the processor
      rcases (getProcQueues_ok_iff hload hdefs hroots).mp ⟨queues, hget⟩ with heq | hlength | ⟨x, hx, hat⟩
      · exact absurd heq hstar
      · exact Or.inl (Nat.le_antisymm hlength (List.length_pos_of_mem hpipe))
      · obtain ⟨q, hq, htouch⟩ := hat
        have hx := List.mem_of_mem_take hx
        rw [← eq_of_apart hapart hx hpipe ((hdefs x hx).mem_of_touches hq htouch) hmem]
        exact Or.inr ⟨q, hq, htouch⟩
  · intro hfront
    obtain ⟨queues, hget⟩ := hfront.exists_getProcQueues hload hdefs hroots
    have hcollected := collected_getProcQueues hload hdefs hapart hpipe hmem hroot hget
    exact ⟨queues, hget, hfront.wired hcollected hdefs hapart hpipe hmem⟩

end Answer

/-! ## Several pipes -/

/-- A pipe with one processor behind its root. -/
def twoStage (name proc : String) : APIPipe :=
  APIPipe.pipeDef (.node { id := name, name := name } [.node { id := proc, name := proc } []])

theorem isPipeDef_twoStage (name proc : String) : (twoStage name proc).IsPipeDef :=
  APIPipe.isPipeDef_pipeDef _

theorem queue_wiring_iff_single : ∃ controllers, loadPipes [twoStage "main" "a"] = .ok controllers ∧
    ((∃ queues, getProcQueues controllers "a" = .ok queues ∧ Wired (twoStage "main" "a") "a" queues) ↔
      LoadedInFront [twoStage "main" "a"] (twoStage "main" "a") "a") := by
  have hrun : (loadPipes [twoStage "main" "a"]).toOption.any (fun _ => true) = true := by
    decide +kernel
  obtain ⟨controllers, hload, -⟩ := exists_ok_of_any hrun
  refine ⟨controllers, hload, queue_wiring_iff hload ?_ (by decide +kernel) List.mem_cons_self
    (by decide +kernel) (by decide +kernel)⟩
  intro x hx
  rw [List.mem_singleton.mp hx]
  exact isPipeDef_twoStage _ _

/-- The leaf of the pipe that is loaded second is given the sink of the first. -/
theorem second_pipe_given_other_sink : ∃ controllers,
    loadPipes [twoStage "other" "a", twoStage "main" "b"] = .ok controllers ∧
      (∀ x ∈ [twoStage "other" "a", twoStage "main" "b"], x.IsPipeDef) ∧
      [twoStage "other" "a", twoStage "main" "b"].Pairwise Apart ∧
      "b" ∈ (twoStage "main" "b").processors.keys ∧ "b" ≠ (twoStage "main" "b").root.id ∧
      ¬ ∃ queues, getProcQueues controllers "b" = .ok queues ∧ Wired (twoStage "main" "b") "b" queues := by
  have hrun : (loadPipes [twoStage "other" "a", twoStage "main" "b"]).toOption.any (fun controllers =>
      (getProcQueues controllers "b").toOption.any fun queues =>
        decide ((queues.get? (twoStage "main" "b").sink.id).map APIQueue.toP = some "other")) = true := by
    decide +kernel
  obtain ⟨controllers, hload, hsink⟩ := exists_ok_of_any hrun
  refine ⟨controllers, hload, ?_, by decide +kernel, by decide +kernel, by decide +kernel, ?_⟩
  · intro x hx
    rcases List.mem_pair.mp hx with rfl | rfl
    · exact isPipeDef_twoStage _ _
    · exact isPipeDef_twoStage _ _
  · rintro ⟨queues, hqueues, h⟩
    rw [hqueues] at hsink
    obtain ⟨q, hget, -, -, hto, -⟩ := h.sink (by decide +kernel)
    have hother : (queues.get? (twoStage "main" "b").sink.id).map APIQueue.toP = some "other" :=
      of_decide_eq_true hsink
    rw [hget, Option.map_some, hto] at hother
    exact absurd hother (by decide +kernel)

/-- In the third pipe nobody is told anything: the call raises. -/
example : (loadPipes [twoStage "first" "a", twoStage "second" "b", twoStage "main" "c"]).toOption.any
    (fun controllers =>
      match getProcQueues controllers "c" with
      | .ok _ => false
      | .error e => decide (e = unboundQ)) = true := by
  decide +kernel

end Upipe
