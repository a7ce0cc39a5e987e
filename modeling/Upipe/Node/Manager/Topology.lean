import Upipe.Entities.Pipe.Graph
import Upipe.Node.Manager.Wiring

/-!
# The queues between the processes

A script declares a graph of processors, `pipe_def` writes it down, the node loads the definition, and every worker
asks the node for its queues and keeps those that name its own id. No step of this looks at the graph again: what
connects two workers in the end is that both have opened a queue of one id. The processes come out connected as the
processors were (`ProcessorGraph.workers_connected`).
-/

namespace Upipe

open Upipe.Common

/-! ## The processes -/

/-- The queues that `_load_to_server` opens for the pipe process itself. -/
def APIPipe.outQsDefs (pipe : APIPipe) (pipeId : String) : List APIQueue :=
  pipe.queues.values.filter fun q => q.fromP = pipeId

namespace ProcessorGraph

variable (g : ProcessorGraph) (rt : PyRuntime)

/-- The definition, as the node gives it, of the queue of an edge. -/
def Links (a b : ℕ) (q : APIQueue) : Prop := ∃ q₀, g.IsQueueOf rt a b q₀ ∧ q = openedDef q₀

/-- The worker of a processor reads the queues of the edges into it and writes those of the edges out of it, each
once. It writes into the sink exactly when there are none of the latter. -/
structure Connected (pipe : APIPipe) (a : ℕ) (w : RegisteredWorker) : Prop where
  inQs : ∀ q, q ∈ w.inQs ↔ ∃ b, g.Reaches b ∧ g.Edge b a ∧ g.Links rt b a q
  outQs : ∀ q, q ∈ w.outQs ↔ ∃ b, g.Edge a b ∧ g.Links rt a b q
  inQs_nodup : (w.inQs.map APIQueue.id).Nodup
  outQs_nodup : (w.outQs.map APIQueue.id).Nodup
  sinkQ_isSome : w.sinkQ.isSome ↔ ∀ b, ¬ g.Edge a b
  sinkQ_eq : ∀ q, w.sinkQ = some q → q.id = sinkQueueId ∧ q.size = pipe.sink.size

end ProcessorGraph

/-! ## Attaching new queues -/

namespace RegisteredWorker

variable {rt : PyRuntime} {w : RegisteredWorker} {id : String} {qs : List APIQueue}

/-- The loop over new queues. -/
theorem addQs_eq (hid : w.id rt = .ok id) (hnew : ∀ q ∈ qs, w.qExist q = false)
    (hnodup : (qs.map APIQueue.id).Nodup) :
    addQs rt qs w = .ok () (qs.foldl (fun w q => w.added id q) w) := by
  induction qs generalizing w with
  | nil => rfl
  | cons q qs ih =>
    rw [List.forall_mem_cons] at hnew
    rw [List.map_cons, List.nodup_cons] at hnodup
    refine (bind_ok (addQ_new hid hnew.1)).trans ?_
    rw [List.foldl_cons]
    refine ih (id_added.trans hid) (fun q' hq' => ?_) hnodup.2
    rw [qExist_added fun heq => hnodup.1 (heq ▸ List.mem_map_of_mem hq')]
    exact hnew.2 q' hq'

theorem inQs_foldl_added : (qs.foldl (fun w q => w.added id q) w).inQs =
    w.inQs ++ qs.filter fun q => q.id ≠ sinkQueueId ∧ q.toP = id := by
  induction qs generalizing w with
  | nil => simp
  | cons q qs ih =>
    rw [List.foldl_cons, ih, added]
    by_cases hsink : q.id = sinkQueueId
    · simp [hsink]
    · by_cases hto : q.toP = id
      · simp [hsink, hto]
      · simp [hsink, hto]

theorem outQs_foldl_added : (qs.foldl (fun w q => w.added id q) w).outQs =
    w.outQs ++ qs.filter fun q => q.id ≠ sinkQueueId ∧ q.fromP = id := by
  induction qs generalizing w with
  | nil => simp
  | cons q qs ih =>
    rw [List.foldl_cons, ih, added]
    by_cases hsink : q.id = sinkQueueId
    · simp [hsink]
    · by_cases hfrom : q.fromP = id
      · simp [hsink, hfrom]
      · simp [hsink, hfrom]

/-- The sink is the last queue with the sink's id. -/
theorem sinkQ_foldl_added : (qs.foldl (fun w q => w.added id q) w).sinkQ =
    ((qs.filter fun q => q.id = sinkQueueId).getLast?.or w.sinkQ) := by
  induction qs generalizing w with
  | nil => rfl
  | cons q qs ih =>
    rw [List.foldl_cons, ih, added]
    by_cases hsink : q.id = sinkQueueId
    · simp only [hsink, if_true, decide_true, List.filter_cons_of_pos, List.getLast?_cons]
      cases (qs.filter fun q => q.id = sinkQueueId).getLast? with
      | none => rfl
      | some r => rfl
    · simp [hsink]

end RegisteredWorker

/-! ## The answer of the node -/

section Answer

variable {procId : String} {pipe : APIPipe} {others : List APIPipe} {controllers : Dict String LoadedPipe}
  {queues : Dict String APIQueue}

/-- The worker of a processor of the pipe in front gets an answer. -/
theorem exists_getProcQueues (hload : loadPipes (pipe :: others) = .ok controllers)
    (hdefs : ∀ x ∈ pipe :: others, x.IsPipeDef) (hapart : (pipe :: others).Pairwise Apart)
    (hmem : procId ∈ pipe.processors.keys) (hroot : procId ≠ pipe.root.id) (hat : AtQueue pipe procId) :
    ∃ queues, getProcQueues controllers procId = .ok queues :=
  (getProcQueues_ok_iff hload hdefs (ne_root_id hdefs hapart List.mem_cons_self hmem hroot)).mpr
    (Or.inr (Or.inr ⟨pipe, List.mem_cons_self, hat⟩))

/-- What the worker of a processor of the pipe in front is told. -/
theorem mem_getProcQueues_iff (hload : loadPipes (pipe :: others) = .ok controllers)
    (hdefs : ∀ x ∈ pipe :: others, x.IsPipeDef) (hapart : (pipe :: others).Pairwise Apart)
    (hmem : procId ∈ pipe.processors.keys) (hroot : procId ≠ pipe.root.id) (hstar : procId ≠ "*")
    (htold : getProcQueues controllers procId = .ok queues) {key : String} {q : APIQueue} :
    queues.get? key = some q ↔
      (∃ q₀ ∈ pipe.queues.values, Touches procId q₀ ∧ key = q₀.id ∧ q = openedDef q₀) ∨
        (key = sinkQueueId ∧ ¬ HasOutgoing pipe procId ∧ q = procSink pipe procId) := by
  have hpipe : pipe ∈ pipe :: others := List.mem_cons_self
  have hcollected := collected_getProcQueues hload hdefs hapart hpipe hmem hroot htold
  have hsink := hcollected.sink
  rw [sinkAfter, if_neg hstar, List.head?_cons, Option.bind_some] at hsink
  constructor
  · intro hget
    rcases hcollected.only key q hget with rfl | ⟨x, hx, q₀, hq₀, htouch, rfl, rfl⟩
    · right
      rw [hget] at hsink
      split at hsink
      · cases hsink
      · rename_i hout
        exact ⟨rfl, hout, Option.some.inj hsink⟩
    · obtain rfl := eq_of_apart hapart hx hpipe ((hdefs x hx).mem_of_touches hq₀ htouch) hmem
      exact Or.inl ⟨q₀, hq₀, htouch, rfl, rfl⟩
  · rintro (⟨q₀, hq₀, htouch, rfl, rfl⟩ | ⟨rfl, hout, rfl⟩)
    · exact hcollected.own pipe hpipe q₀ hq₀ htouch
    · rw [hsink, if_neg hout]

/-- The node gives each queue under its own id. -/
theorem getProcQueues_nodup (hload : loadPipes (pipe :: others) = .ok controllers)
    (hdefs : ∀ x ∈ pipe :: others, x.IsPipeDef) (hapart : (pipe :: others).Pairwise Apart)
    (hmem : procId ∈ pipe.processors.keys) (hroot : procId ≠ pipe.root.id) (hstar : procId ≠ "*")
    (htold : getProcQueues controllers procId = .ok queues) : (queues.values.map APIQueue.id).Nodup := by
  have hids : queues.values.map APIQueue.id = queues.keys := by
    rw [Dict.values, Dict.keys, List.map_map]
    apply List.map_congr_left
    rintro ⟨key, q⟩ hitem
    have hget := (Dict.get?_eq_some_iff _).mpr hitem
    rcases (mem_getProcQueues_iff hload hdefs hapart hmem hroot hstar htold).mp hget with
      ⟨q₀, -, -, rfl, rfl⟩ | ⟨rfl, -, rfl⟩
    · rfl
    · exact (hdefs pipe List.mem_cons_self).sink_id
  rw [hids]
  exact queues.nodup

theorem mem_values_getProcQueues_iff (hload : loadPipes (pipe :: others) = .ok controllers)
    (hdefs : ∀ x ∈ pipe :: others, x.IsPipeDef) (hapart : (pipe :: others).Pairwise Apart)
    (hmem : procId ∈ pipe.processors.keys) (hroot : procId ≠ pipe.root.id) (hstar : procId ≠ "*")
    (htold : getProcQueues controllers procId = .ok queues) {q : APIQueue} :
    q ∈ queues.values ↔
      (∃ q₀ ∈ pipe.queues.values, Touches procId q₀ ∧ q = openedDef q₀) ∨
        (¬ HasOutgoing pipe procId ∧ q = procSink pipe procId) := by
  have hget : ∀ {key : String} {q : APIQueue}, queues.get? key = some q ↔ _ :=
    mem_getProcQueues_iff hload hdefs hapart hmem hroot hstar htold
  constructor
  · intro hq
    obtain ⟨⟨key, q⟩, hitem, rfl⟩ := List.mem_map.mp hq
    rcases hget.mp ((Dict.get?_eq_some_iff _).mpr hitem) with ⟨q₀, hq₀, htouch, -, heq⟩ | ⟨-, hout, heq⟩
    · exact Or.inl ⟨q₀, hq₀, htouch, heq⟩
    · exact Or.inr ⟨hout, heq⟩
  · intro hq
    have hitem : ∃ key, queues.get? key = some q := by
      rcases hq with ⟨q₀, hq₀, htouch, rfl⟩ | ⟨hout, rfl⟩
      · exact ⟨q₀.id, hget.mpr (Or.inl ⟨q₀, hq₀, htouch, rfl, rfl⟩)⟩
      · exact ⟨sinkQueueId, hget.mpr (Or.inr ⟨rfl, hout, rfl⟩)⟩
    obtain ⟨key, hkey⟩ := hitem
    exact List.mem_map_of_mem (f := Prod.snd) ((Dict.get?_eq_some_iff _).mp hkey)

end Answer

/-! ## The graph and its definition -/

namespace ProcessorGraph

variable {g : ProcessorGraph} {rt : PyRuntime}

section Defined

variable {t : ProcNode}

/-- A queue is at a processor when it is that of an edge into it or out of it. -/
theorem IsQueueOf.ends_iff {a b c : ℕ} {q : APIQueue} {id : String} (hq : g.IsQueueOf rt a b q)
    (hids : g.DistinctIds rt) (ha : g.Reaches a) (hedge : g.Edge a b) (hc : g.Reaches c)
    (hid : (g.object c).id rt = .ok id) :
    (q.fromP = id ↔ a = c) ∧ (q.toP = id ↔ b = c) := by
  refine ⟨⟨?_, ?_⟩, ⟨?_, ?_⟩⟩
  · rintro rfl
    exact hids a c _ ha hc hq.fromP_eq hid
  · rintro rfl
    exact Except.ok.inj (hq.fromP_eq.symm.trans hid)
  · rintro rfl
    exact hids b c _ (ha.tail hedge) hc hq.toP_eq hid
  · rintro rfl
    exact Except.ok.inj (hq.toP_eq.symm.trans hid)

/-- The children of the pipe are fed by the pipe process. -/
theorem WellBuilt.mem_outQsDefs_iff (h : g.WellBuilt rt) (ht : g.Unfolds rt 0 t)
    (hnames : g.FreeNames) (hids : g.DistinctIds rt) {q : APIQueue} :
    q ∈ (APIPipe.pipeDef t).outQsDefs (g.object 0).name ↔ ∃ b, g.Edge 0 b ∧ g.IsQueueOf rt 0 b q := by
  have hroot : (g.object 0).id rt = .ok (g.object 0).name := by
    show entityId rt _ (g.object 0).config = _
    rw [h.pipe_config, entityId_empty]
  rw [APIPipe.outQsDefs, List.mem_filter, h.mem_queues_iff ht hnames hids, decide_eq_true_eq]
  constructor
  · rintro ⟨⟨a, b, ha, hedge, hq⟩, hfrom⟩
    obtain rfl := (hq.ends_iff hids ha hedge .refl hroot).1.mp hfrom
    exact ⟨b, hedge, hq⟩
  · rintro ⟨b, hedge, hq⟩
    exact ⟨⟨0, b, .refl, hedge, hq⟩, (hq.ends_iff hids .refl hedge .refl hroot).1.mpr rfl⟩

end Defined

/-! ## The workers -/

section Workers

variable {pipe : APIPipe} {a : ℕ} {id : String} {qs : List APIQueue}

/-- Who is told of the queues at his processor, attaches those of its edges. -/
theorem connected_of_told (hdef : pipe.IsPipeDef)
    (hqueues : ∀ q, q ∈ pipe.queues.values ↔ ∃ a b, g.Reaches a ∧ g.Edge a b ∧ g.IsQueueOf rt a b q)
    (hexists : ∀ a b, g.Edge a b → ∃ q, g.IsQueueOf rt a b q)
    (hids : g.DistinctIds rt) (ha : g.Reaches a) (hid : (g.object a).id rt = .ok id)
    (htold : ∀ q, q ∈ qs ↔ (∃ q₀ ∈ pipe.queues.values, Touches id q₀ ∧ q = openedDef q₀) ∨
      (¬ HasOutgoing pipe id ∧ q = procSink pipe id))
    (hnodup : (qs.map APIQueue.id).Nodup) {w : RegisteredWorker} (hin : w.inQs = []) (hout : w.outQs = [])
    (hsink : w.sinkQ = none) : g.Connected rt pipe a (qs.foldl (fun w q => w.added id q) w) := by
  have hends {b c : ℕ} {q : APIQueue} (hb : g.Reaches b) (hedge : g.Edge b c) (hq : g.IsQueueOf rt b c q) :=
    hq.ends_iff hids hb hedge ha hid
  have hleaf : HasOutgoing pipe id ↔ ∃ b, g.Edge a b := by
    constructor
    · rintro ⟨q, hq, hfrom⟩
      obtain ⟨b, c, hb, hedge, hq⟩ := (hqueues q).mp hq
      obtain rfl := (hends hb hedge hq).1.mp hfrom
      exact ⟨c, hedge⟩
    · rintro ⟨b, hedge⟩
      obtain ⟨q, hq⟩ := hexists a b hedge
      exact ⟨q, (hqueues q).mpr ⟨a, b, ha, hedge, hq⟩, (hends ha hedge hq).1.mpr rfl⟩
  -- of what was told, only the sink has the id of a sink
  have hnot : ∀ q₀ ∈ pipe.queues.values, (openedDef q₀).id ≠ sinkQueueId :=
    fun q₀ hq₀ => hdef.id_ne_sink (q := q₀) hq₀
  have hprocSink : (procSink pipe id).id = sinkQueueId := hdef.sink_id
  refine
    { inQs := ?_, outQs := ?_, inQs_nodup := ?_, outQs_nodup := ?_, sinkQ_isSome := ?_, sinkQ_eq := ?_ }
  · intro q
    rw [RegisteredWorker.inQs_foldl_added, hin, List.nil_append, List.mem_filter, htold, decide_eq_true_eq]
    constructor
    · rintro ⟨⟨q₀, hq₀, -, rfl⟩ | ⟨-, rfl⟩, hne, hto⟩
      · obtain ⟨b, c, hb, hedge, hq⟩ := (hqueues q₀).mp hq₀
        obtain rfl := (hends hb hedge hq).2.mp hto
        exact ⟨b, hb, hedge, q₀, hq, rfl⟩
      · exact absurd hprocSink hne
    · rintro ⟨b, hb, hedge, q₀, hq, rfl⟩
      have hto : q₀.toP = id := (hends hb hedge hq).2.mpr rfl
      have hq₀ := (hqueues q₀).mpr ⟨b, a, hb, hedge, hq⟩
      exact ⟨Or.inl ⟨q₀, hq₀, Or.inr hto, rfl⟩, hnot q₀ hq₀, hto⟩
  · intro q
    rw [RegisteredWorker.outQs_foldl_added, hout, List.nil_append, List.mem_filter, htold, decide_eq_true_eq]
    constructor
    · rintro ⟨⟨q₀, hq₀, -, rfl⟩ | ⟨-, rfl⟩, hne, hfrom⟩
      · obtain ⟨b, c, hb, hedge, hq⟩ := (hqueues q₀).mp hq₀
        obtain rfl := (hends hb hedge hq).1.mp hfrom
        exact ⟨c, hedge, q₀, hq, rfl⟩
      · exact absurd hprocSink hne
    · rintro ⟨b, hedge, q₀, hq, rfl⟩
      have hfrom : q₀.fromP = id := (hends ha hedge hq).1.mpr rfl
      have hq₀ := (hqueues q₀).mpr ⟨a, b, ha, hedge, hq⟩
      exact ⟨Or.inl ⟨q₀, hq₀, Or.inl hfrom, rfl⟩, hnot q₀ hq₀, hfrom⟩
  · rw [RegisteredWorker.inQs_foldl_added, hin, List.nil_append]
    exact hnodup.sublist (List.filter_sublist.map _)
  · rw [RegisteredWorker.outQs_foldl_added, hout, List.nil_append]
    exact hnodup.sublist (List.filter_sublist.map _)
  · rw [RegisteredWorker.sinkQ_foldl_added, hsink, Option.or_none, List.getLast?_isSome, ← not_exists, ← hleaf]
    constructor
    · intro hne hhas
      obtain ⟨q, hq⟩ := List.exists_mem_of_ne_nil _ hne
      obtain ⟨hq, hqid⟩ := List.mem_filter.mp hq
      rcases (htold q).mp hq with ⟨q₀, hq₀, -, rfl⟩ | ⟨hno, -⟩
      · exact hnot q₀ hq₀ (of_decide_eq_true hqid)
      · exact hno hhas
    · intro hno
      have hq := (htold (procSink pipe id)).mpr (Or.inr ⟨hno, rfl⟩)
      exact List.ne_nil_of_mem (List.mem_filter.mpr ⟨hq, decide_eq_true hprocSink⟩)
  · intro q hq
    rw [RegisteredWorker.sinkQ_foldl_added, hsink, Option.or_none] at hq
    obtain ⟨hq, hqid⟩ := List.mem_filter.mp (List.mem_of_getLast? hq)
    rcases (htold q).mp hq with ⟨q₀, hq₀, -, rfl⟩ | ⟨-, rfl⟩
    · exact absurd (of_decide_eq_true hqid) (hnot q₀ hq₀)
    · exact ⟨hprocSink, rfl⟩

/-- A worker that registers with the id of its processor. -/
theorem register_connected (hdef : pipe.IsPipeDef)
    (hqueues : ∀ q, q ∈ pipe.queues.values ↔ ∃ a b, g.Reaches a ∧ g.Edge a b ∧ g.IsQueueOf rt a b q)
    (hexists : ∀ a b, g.Edge a b → ∃ q, g.IsQueueOf rt a b q)
    (hids : g.DistinctIds rt) (ha : g.Reaches a) (hid : (g.object a).id rt = .ok id) {name : String} {config : PyVal}
    (hworkerId : entityId rt name (RegisteredWorker.takenConfig config) = .ok id)
    (htold : ∀ q, q ∈ qs ↔ (∃ q₀ ∈ pipe.queues.values, Touches id q₀ ∧ q = openedDef q₀) ∨
      (¬ HasOutgoing pipe id ∧ q = procSink pipe id))
    (hnodup : (qs.map APIQueue.id).Nodup) :
    ∃ w, RegisteredWorker.register rt config qs (.init name) = .ok true w ∧ g.Connected rt pipe a w := by
  let start : RegisteredWorker := { RegisteredWorker.init name with config := RegisteredWorker.takenConfig config }
  have hadd := RegisteredWorker.addQs_eq (w := start) hworkerId (fun _ _ => rfl) hnodup
  have hconnected := connected_of_told (w := start) hdef hqueues hexists hids ha hid htold hnodup rfl rfl rfl
  refine ⟨{ qs.foldl (fun w q => w.added id q) start with registered := true }, ?_, ?_⟩
  · rw [RegisteredWorker.register_init, hadd, stateOf_ok]
  · exact ⟨hconnected.inQs, hconnected.outQs, hconnected.inQs_nodup, hconnected.outQs_nodup, hconnected.sinkQ_isSome,
      hconnected.sinkQ_eq⟩

/-- The edge to a processor that is reached brings a queue. -/
theorem atQueue_of_reaches
    (hqueues : ∀ q, q ∈ pipe.queues.values ↔ ∃ a b, g.Reaches a ∧ g.Edge a b ∧ g.IsQueueOf rt a b q)
    (hexists : ∀ a b, g.Edge a b → ∃ q, g.IsQueueOf rt a b q)
    (ha : g.Reaches a) (hne : a ≠ 0) (hid : (g.object a).id rt = .ok id) : AtQueue pipe id := by
  rcases Relation.ReflTransGen.cases_tail ha with heq | ⟨b, hb, hedge⟩
  · exact absurd heq hne
  · obtain ⟨q, hq⟩ := hexists b a hedge
    have hto : q.toP = id := Except.ok.inj (hq.toP_eq.symm.trans hid)
    exact ⟨q, (hqueues q).mpr ⟨b, a, hb, hedge, hq⟩, Or.inr hto⟩

/-- Two workers have a queue in common, from the one to the other, when there is an edge between their processors. -/
theorem Connected.shares_iff (hids : g.DistinctIds rt) (hexists : ∀ a b, g.Edge a b → ∃ q, g.IsQueueOf rt a b q)
    {b : ℕ} {v w : RegisteredWorker} (hv : g.Connected rt pipe a v) (hw : g.Connected rt pipe b w)
    (ha : g.Reaches a) (hb : g.Reaches b) : (∃ q ∈ v.outQs, q ∈ w.inQs) ↔ g.Edge a b := by
  constructor
  · rintro ⟨q, hout, hin⟩
    obtain ⟨c, hedge, q₀, hq₀, rfl⟩ := (hv.outQs q).mp hout
    obtain ⟨d, hd, hedge', q₁, hq₁, heq⟩ := (hw.inQs _).mp hin
    have hto : (openedDef q₀).toP = (openedDef q₁).toP := congrArg APIQueue.toP heq
    obtain rfl : c = b := hids c b _ (ha.tail hedge) hb hq₀.toP_eq (hq₁.toP_eq.trans (congrArg _ hto.symm))
    exact hedge
  · intro hedge
    obtain ⟨q, hq⟩ := hexists a b hedge
    exact ⟨openedDef q, (hv.outQs _).mpr ⟨b, hedge, q, hq, rfl⟩, (hw.inQs _).mpr ⟨a, ha, hedge, q, hq, rfl⟩⟩

end Workers

/-- A pipe that is declared as an acyclic graph and loaded in front comes out connected as declared: the pipe process
writes into the queues of its children, and the worker of every processor, once registered, reads and writes exactly the
queues of its edges. Two workers have a queue in common when there is an edge. -/
theorem workers_connected {name : String} {interpreter : Option String} {events : List BuildEvent}
    (hbuilt : runFrom (buildStep rt) (ofPipe name interpreter) events = some g)
    (hacyclic : ∀ a, g.Reaches a → ¬ Relation.TransGen g.Edge a a)
    (hnames : g.FreeNames) (hids : g.DistinctIds rt)
    (hrecognised : ∀ a, g.Reaches a → a ≠ 0 → (g.object a).Recognised rt)
    (hstar : ∀ a, g.Reaches a → (g.object a).id rt ≠ .ok "*") :
    ∃ pipe, (∃ enough, ∀ fuel ≥ enough, g.pipeDef rt fuel = some (.ok pipe)) ∧ pipe.IsPipeDef ∧
      (∀ q, q ∈ pipe.outQsDefs (g.object 0).name ↔ ∃ b, g.Edge 0 b ∧ g.IsQueueOf rt 0 b q) ∧
      ∀ others controllers, loadPipes (pipe :: others) = .ok controllers → (∀ x ∈ others, x.IsPipeDef) →
        (pipe :: others).Pairwise Apart → ∃ worker : ℕ → RegisteredWorker,
          (∀ a, g.Reaches a → a ≠ 0 → ∃ id config queues, (g.object a).id rt = .ok id ∧
            receivedConfig rt (g.object a).config = .ok config ∧ getProcQueues controllers id = .ok queues ∧
            RegisteredWorker.register rt config queues.values (.init (g.object a).name) = .ok true (worker a) ∧
            g.Connected rt pipe a (worker a)) ∧
          ∀ a b, g.Reaches a → a ≠ 0 → g.Reaches b → b ≠ 0 →
            ((∃ q ∈ (worker a).outQs, q ∈ (worker b).inQs) ↔ g.Edge a b) := by
  have h : g.WellBuilt rt := wellBuilt_of_run hbuilt
  obtain ⟨t, ht⟩ := h.exists_unfolds hacyclic
  have hdef : (APIPipe.pipeDef t).IsPipeDef := APIPipe.isPipeDef_pipeDef t
  have hqueues (q : APIQueue) := h.mem_queues_iff ht hnames hids (q := q)
  have hexists : ∀ a b, g.Edge a b → ∃ q, g.IsQueueOf rt a b q := by
    intro a b _
    obtain ⟨proc, hproc⟩ := h.defined a
    obtain ⟨child, hchild⟩ := h.defined b
    exact ⟨_, queueDef_eq_ok_iff.mp (h.queueDef_eq hproc hchild)⟩
  refine ⟨APIPipe.pipeDef t, ⟨depth t, fun fuel hfuel => h.pipeDef_of_unfolds ht hfuel⟩, hdef,
    fun q => h.mem_outQsDefs_iff ht hnames hids, ?_⟩
  intro others controllers hload hothers hapart
  have hdefs : ∀ x ∈ APIPipe.pipeDef t :: others, x.IsPipeDef := List.forall_mem_cons.mpr ⟨hdef, hothers⟩
  have hworker : ∀ a, ∃ w : RegisteredWorker, g.Reaches a → a ≠ 0 → ∃ id config queues,
      (g.object a).id rt = .ok id ∧ receivedConfig rt (g.object a).config = .ok config ∧
      getProcQueues controllers id = .ok queues ∧
      RegisteredWorker.register rt config queues.values (.init (g.object a).name) = .ok true w ∧
      g.Connected rt (APIPipe.pipeDef t) a w := by
    intro a
    by_cases hskip : g.Reaches a ∧ a ≠ 0
    · obtain ⟨ha, hne⟩ := hskip
      obtain ⟨config, id, hconfig, hid, hworkerId⟩ := recognised_iff_ids.mp (hrecognised a ha hne)
      have hid' : (g.object a).id rt = .ok id := hid
      have hroot : id ≠ (APIPipe.pipeDef t).root.id := by
        intro heq
        have hpipe : (g.object 0).id rt = .ok (APIPipe.pipeDef t).root.id := by
          rw [APIPipe.pipeDef, (APIPipe.mapProc_frame (APIPipe.bare t.proc) t).2.1]
          exact (processorDef_eq_ok_iff.mp ht.proc_eq).1
        exact hne (hids a 0 id ha .refl hid' (heq ▸ hpipe))
      have hstar' : id ≠ "*" := fun heq => hstar a ha (heq ▸ hid')
      have hmem := h.mem_processors ht ha hid'
      have hat : AtQueue (APIPipe.pipeDef t) id := atQueue_of_reaches hqueues hexists ha hne hid'
      obtain ⟨queues, hqueues'⟩ := exists_getProcQueues hload hdefs hapart hmem hroot hat
      have hnodup := getProcQueues_nodup hload hdefs hapart hmem hroot hstar' hqueues'
      have htold (q : APIQueue) := mem_values_getProcQueues_iff hload hdefs hapart hmem hroot hstar' hqueues' (q := q)
      obtain ⟨w, hregister, hconnected⟩ :=
        register_connected hdef hqueues hexists hids ha hid' hworkerId htold hnodup
      exact ⟨w, fun _ _ => ⟨id, config, queues, hid', hconfig, hqueues', hregister, hconnected⟩⟩
    · exact ⟨.init "", fun ha hne => absurd ⟨ha, hne⟩ hskip⟩
  choose worker hworker using hworker
  refine ⟨worker, hworker, ?_⟩
  intro a b ha ha0 hb hb0
  obtain ⟨-, -, -, -, -, -, -, hv⟩ := hworker a ha ha0
  obtain ⟨-, -, -, -, -, -, -, hw⟩ := hworker b hb hb0
  exact Connected.shares_iff hids hexists hv hw ha hb

/-! ## A shared processor -/

/-- The tree of all paths in `shared`. -/
def sharedTree : ProcNode :=
  let b : ProcNode := .node { id := "b", name := "b" } []
  .node { id := "main", name := "main" } [.node { id := "a", name := "a" } [b], b]

theorem unfolds_sharedTree : Unfolds plainRuntime shared 0 sharedTree := by
  have hmain : (shared.object 0).processorDef plainRuntime = .ok { id := "main", name := "main" } := by decide +kernel
  have ha : (shared.object 1).processorDef plainRuntime = .ok { id := "a", name := "a" } := by decide +kernel
  have hb : (shared.object 2).processorDef plainRuntime = .ok { id := "b", name := "b" } := by decide +kernel
  exact ⟨hmain, ⟨ha, ⟨hb, trivial⟩, trivial⟩, ⟨hb, trivial⟩, trivial⟩

theorem workers_connected_shared : ∃ pipe controllers,
    (∃ enough, ∀ fuel ≥ enough, shared.pipeDef plainRuntime fuel = some (.ok pipe)) ∧
      loadPipes [pipe] = .ok controllers ∧ ∃ worker : ℕ → RegisteredWorker,
        (∃ q ∈ (worker 1).outQs, q ∈ (worker 2).inQs) ∧ (worker 2).sinkQ.isSome ∧ (worker 1).sinkQ = none := by
  have hbuilt : shared.WellBuilt plainRuntime := wellBuilt_of_run shared_built
  have hplain : ∀ a < 3, (shared.object a).id plainRuntime = .ok (shared.object a).name ∧
      (shared.object a).config = .dict [] ∧ (shared.object a).name ≠ "*" := by decide +kernel
  have hreceived : receivedConfig plainRuntime (.dict []) = .ok (.dict []) := by decide +kernel
  obtain ⟨pipe, ⟨enough, hpipe⟩, -, -, hconnected⟩ := workers_connected shared_built (fun a => shared_acyclic)
    shared_freeNames shared_distinctIds
    (fun a ha _ => recognised_iff_ids.mpr ⟨.dict [], (shared.object a).name, by
      rw [(hplain a (ha.lt hbuilt)).2.1]
      exact hreceived, (hplain a (ha.lt hbuilt)).1, rfl⟩)
    (fun a ha => by
      rw [(hplain a (ha.lt hbuilt)).1]
      exact fun heq => (hplain a (ha.lt hbuilt)).2.2 (Except.ok.inj heq))
  obtain rfl : pipe = APIPipe.pipeDef sharedTree := by
    have hdef := hbuilt.pipeDef_of_unfolds unfolds_sharedTree (le_max_right enough (depth sharedTree))
    exact Except.ok.inj (Option.some.inj ((hpipe _ (le_max_left _ _)).symm.trans hdef))
  have hrun : (loadPipes [APIPipe.pipeDef sharedTree]).toOption.any (fun _ => true) = true := by
    decide +kernel
  obtain ⟨controllers, hload, -⟩ := exists_ok_of_any hrun
  obtain ⟨worker, hworker, hshares⟩ := hconnected [] controllers hload (fun x hx => nomatch hx)
    (List.pairwise_singleton _ _)
  have hedges : 1 ∈ (shared.object 0).children ∧ 2 ∈ (shared.object 0).children ∧ 2 ∈ (shared.object 1).children := by
    decide
  have hone : shared.Reaches 1 := .single hedges.1
  have htwo : shared.Reaches 2 := .single hedges.2.1
  obtain ⟨-, -, -, -, -, -, -, hw₁⟩ := hworker 1 hone (by decide)
  obtain ⟨-, -, -, -, -, -, -, hw₂⟩ := hworker 2 htwo (by decide)
  refine ⟨_, controllers, ⟨enough, hpipe⟩, hload, worker, ?_, ?_, ?_⟩
  · exact (hshares 1 2 hone (by decide) htwo (by decide)).mpr hedges.2.2
  · exact hw₂.sinkQ_isSome.mpr fun b => List.not_mem_nil
  · rw [← Option.not_isSome_iff_eq_none, hw₁.sinkQ_isSome]
    exact fun hleaf => hleaf 2 hedges.2.2

end ProcessorGraph

end Upipe
