import Upipe.Entities.Pipe.Network
import Upipe.Node.Manager.Topology

/-!
# The meaning of a declared pipe

A script declares a graph of processors, each with a function. What this graph means is plain: what comes of a
processor is what it is given, and what its function makes of all that comes of the processors above it
(`ProcessorGraph.Means`). On the way from there to the running pipe the graph is written down as a definition, the node
loads the definition and tells every worker of its queues, and the workers pass frames through shared memory.

`ProcessorGraph.pipe_means` says that this changes nothing. Whatever the number of the workers and the order of their
steps, at no time has more come through a queue than what comes of its processor, and no more through the sink than what
comes of the processors at the end; when nothing is left to do, it is just that.
-/

namespace Upipe

open Upipe.Common

/-! ## The programs of a loaded pipe -/

/-- A pipe that a node has loaded in front of others. All its queues are on this host, and some queue is at every
processor but the root. -/
structure Deployment where
  pipe : APIPipe
  others : List APIPipe
  controllers : Dict String LoadedPipe
  load : loadPipes (pipe :: others) = .ok controllers
  isPipeDef : ∀ x ∈ pipe :: others, x.IsPipeDef
  apart : (pipe :: others).Pairwise Apart
  noStar : "*" ∉ pipe.processors.keys
  fed : ∀ id ∈ pipe.processors.keys, id ≠ pipe.root.id → AtQueue pipe id
  isLocal : ∀ q ∈ pipe.sink :: pipe.queues.values, q.host.getD "" = ""

namespace Deployment

variable (d : Deployment) {id : String}

theorem def_pipe : d.pipe.IsPipeDef := d.isPipeDef d.pipe List.mem_cons_self

/-- The queues that the node names to a worker of the processor. -/
def told (id : String) : List APIQueue := (getProcQueues d.controllers id).toOption.elim [] Dict.values

/-- The node does not raise instead. -/
theorem exists_told (hid : id ∈ d.pipe.processors.keys) (hroot : id ≠ d.pipe.root.id) :
    ∃ queues, getProcQueues d.controllers id = .ok queues ∧ d.told id = queues.values := by
  obtain ⟨queues, hqueues⟩ := exists_getProcQueues d.load d.isPipeDef d.apart hid hroot (d.fed id hid hroot)
  refine ⟨queues, hqueues, ?_⟩
  rw [told, hqueues]
  rfl

theorem told_iff (hid : id ∈ d.pipe.processors.keys) (hroot : id ≠ d.pipe.root.id) {q : APIQueue} :
    q ∈ d.told id ↔ (∃ q₀ ∈ d.pipe.queues.values, Touches id q₀ ∧ q = openedDef q₀) ∨
      (¬ HasOutgoing d.pipe id ∧ q = procSink d.pipe id) := by
  obtain ⟨queues, hqueues, htold⟩ := d.exists_told hid hroot
  rw [htold]
  exact mem_values_getProcQueues_iff d.load d.isPipeDef d.apart hid hroot (fun h => d.noStar (h ▸ hid)) hqueues

theorem nodup_told (hid : id ∈ d.pipe.processors.keys) (hroot : id ≠ d.pipe.root.id) :
    ((d.told id).map APIQueue.id).Nodup := by
  obtain ⟨queues, hqueues, htold⟩ := d.exists_told hid hroot
  rw [htold]
  exact getProcQueues_nodup d.load d.isPipeDef d.apart hid hroot (fun h => d.noStar (h ▸ hid)) hqueues

theorem isLocal_told (hid : id ∈ d.pipe.processors.keys) (hroot : id ≠ d.pipe.root.id) :
    ∀ q ∈ d.told id, q.host.getD "" = "" := by
  intro q hq
  rcases (d.told_iff hid hroot).mp hq with ⟨q₀, hq₀, -, rfl⟩ | ⟨-, rfl⟩
  · exact d.isLocal q₀ (List.mem_cons_of_mem _ hq₀)
  · rfl

/-- The queues of the definition have different ids. -/
theorem nodup_queues : (d.pipe.queues.values.map APIQueue.id).Nodup := by
  have hids : d.pipe.queues.values.map APIQueue.id = d.pipe.queues.keys := by
    rw [Dict.values, Dict.keys, List.map_map]
    exact List.map_congr_left d.def_pipe.keyed
  rw [hids]
  exact d.pipe.queues.nodup

theorem eq_of_id {q q' : APIQueue} (hq : q ∈ d.pipe.queues.values) (hq' : q' ∈ d.pipe.queues.values)
    (h : q.id = q'.id) : q = q' := List.inj_on_of_nodup_map d.nodup_queues hq hq' h

/-- The program of a processor, whose workers know themselves by its id. That of the root is the pipe process. -/
def station (handle : String → PyVal → Except PyError (List EmitData)) (id : String)
    (hid : id ∈ d.pipe.processors.keys) : Station :=
  if hroot : id = d.pipe.root.id then .pipe id d.pipe.sink d.pipe.queues.values d.nodup_queues d.isLocal
  else .worker id (d.told id) (handle id) (d.nodup_told hid hroot) (d.isLocal_told hid hroot)

/-- The programs of all processors, and the reader of the sink. -/
def stations (handle : String → PyVal → Except PyError (List EmitData)) (take : DataFrame → Except PyError Unit) :
    List Station :=
  d.pipe.processors.keys.attach.map (fun id => d.station handle id.1 id.2) ++
    [.sinkReader d.pipe.sink take (d.isLocal _ List.mem_cons_self)]

end Deployment

/-! ## What the programs read and write -/

/-- A worker opens the queue at this end. -/
def OpensAt (id : String) (q : APIQueue) : QueueEnd → Prop
  | .input => q.id ≠ sinkQueueId ∧ q.toP = id
  | .output => q.id ≠ sinkQueueId ∧ q.fromP = id
  | .sink => q.id = sinkQueueId

theorem mem_endsOf {id : String} {q q' : APIQueue} {at_ : QueueEnd} :
    (at_, q') ∈ endsOf id q ↔ q' = q ∧ OpensAt id q at_ := by
  unfold endsOf OpensAt
  by_cases hsink : q.id = sinkQueueId
  · cases at_ <;> simp [hsink]
  · by_cases hto : q.toP = id <;> by_cases hfrom : q.fromP = id <;> cases at_ <;> simp [hsink, hto, hfrom]

theorem mem_idsAt {at_ : QueueEnd} {qid : String} {ends : List (QueueEnd × APIQueue)} :
    qid ∈ idsAt at_ ends ↔ ∃ q, (at_, q) ∈ ends ∧ q.id = qid := by
  simp [idsAt]

theorem mem_idsAt_endsOf {at_ : QueueEnd} {id qid : String} {queues : List APIQueue} :
    qid ∈ idsAt at_ (queues.flatMap (endsOf id)) ↔ ∃ q ∈ queues, OpensAt id q at_ ∧ q.id = qid := by
  rw [mem_idsAt]
  constructor
  · rintro ⟨q, hmem, hid⟩
    obtain ⟨q', hq', hmem⟩ := List.mem_flatMap.mp hmem
    obtain ⟨rfl, hopens⟩ := mem_endsOf.mp hmem
    exact ⟨q, hq', hopens, hid⟩
  · rintro ⟨q, hq, hopens, hid⟩
    exact ⟨q, List.mem_flatMap.mpr ⟨q, hq, mem_endsOf.mpr ⟨rfl, hopens⟩⟩, hid⟩

namespace Deployment

variable (d : Deployment) {handle : String → PyVal → Except PyError (List EmitData)}
  {take : DataFrame → Except PyError Unit} {id qid : String}

theorem id_ne_sink {q : APIQueue} (hq : q ∈ d.pipe.queues.values) : q.id ≠ sinkQueueId := d.def_pipe.id_ne_sink hq

/-- A processor reads the queues that lead to it. -/
theorem mem_inputs_iff (hid : id ∈ d.pipe.processors.keys) : qid ∈ (d.station handle id hid).inputs ↔
    id ≠ d.pipe.root.id ∧ ∃ q ∈ d.pipe.queues.values, q.toP = id ∧ q.id = qid := by
  unfold station
  split_ifs with hroot
  · simp [Station.inputs, Station.pipe, mem_idsAt, hroot]
  · show qid ∈ idsAt .input ((d.told id).flatMap (endsOf id)) ↔ _
    rw [mem_idsAt_endsOf]
    constructor
    · rintro ⟨q, hq, ⟨hne, hto⟩, rfl⟩
      rcases (d.told_iff hid hroot).mp hq with ⟨q₀, hq₀, -, rfl⟩ | ⟨-, rfl⟩
      · exact ⟨hroot, q₀, hq₀, hto, rfl⟩
      · exact absurd d.def_pipe.sink_id hne
    · rintro ⟨-, q, hq, hto, rfl⟩
      have hne : q.id ≠ sinkQueueId := d.id_ne_sink hq
      exact ⟨openedDef q, (d.told_iff hid hroot).mpr (Or.inl ⟨q, hq, Or.inr hto, rfl⟩), ⟨hne, hto⟩, rfl⟩

/-- The queues that lead on from a processor are its outputs. -/
theorem mem_idsAt_output_iff (hid : id ∈ d.pipe.processors.keys) :
    qid ∈ idsAt .output (d.station handle id hid).ends ↔ ∃ q ∈ d.pipe.queues.values, q.fromP = id ∧ q.id = qid := by
  unfold station
  split_ifs with hroot
  · simp only [Station.pipe, mem_idsAt, List.mem_cons, List.mem_map, List.mem_filter]
    constructor
    · rintro ⟨q, hq | ⟨q', ⟨hq', hfrom⟩, hq⟩, rfl⟩
      · cases hq
      · obtain ⟨-, rfl⟩ := Prod.mk.inj hq
        exact ⟨q', hq', of_decide_eq_true hfrom, rfl⟩
    · rintro ⟨q, hq, hfrom, rfl⟩
      exact ⟨q, Or.inr ⟨q, ⟨hq, decide_eq_true hfrom⟩, rfl⟩, rfl⟩
  · show qid ∈ idsAt .output ((d.told id).flatMap (endsOf id)) ↔ _
    rw [mem_idsAt_endsOf]
    constructor
    · rintro ⟨q, hq, ⟨hne, hfrom⟩, rfl⟩
      rcases (d.told_iff hid hroot).mp hq with ⟨q₀, hq₀, -, rfl⟩ | ⟨-, rfl⟩
      · exact ⟨q₀, hq₀, hfrom, rfl⟩
      · exact absurd d.def_pipe.sink_id hne
    · rintro ⟨q, hq, hfrom, rfl⟩
      have hne : q.id ≠ sinkQueueId := d.id_ne_sink hq
      exact ⟨openedDef q, (d.told_iff hid hroot).mpr (Or.inl ⟨q, hq, Or.inl hfrom, rfl⟩), ⟨hne, hfrom⟩, rfl⟩

/-- A processor without such queues has opened the sink. -/
theorem mem_idsAt_sink_iff (hid : id ∈ d.pipe.processors.keys) (hleaf : ¬ HasOutgoing d.pipe id) :
    qid ∈ idsAt .sink (d.station handle id hid).ends ↔ qid = sinkQueueId := by
  unfold station
  split_ifs with hroot
  · simp [Station.pipe, mem_idsAt, d.def_pipe.sink_id, eq_comm]
  · show qid ∈ idsAt .sink ((d.told id).flatMap (endsOf id)) ↔ _
    rw [mem_idsAt_endsOf]
    constructor
    · rintro ⟨q, -, hsink, rfl⟩
      exact hsink
    · rintro rfl
      exact ⟨procSink d.pipe id, (d.told_iff hid hroot).mpr (Or.inr ⟨hleaf, rfl⟩), d.def_pipe.sink_id,
        d.def_pipe.sink_id⟩

/-- A processor writes the queues that lead on from it, or the sink when there are none. -/
theorem mem_outputs_iff (hid : id ∈ d.pipe.processors.keys) : qid ∈ (d.station handle id hid).outputs ↔
    (∃ q ∈ d.pipe.queues.values, q.fromP = id ∧ q.id = qid) ∨ (¬ HasOutgoing d.pipe id ∧ qid = sinkQueueId) := by
  have hleaf : idsAt .output (d.station handle id hid).ends = [] ↔ ¬ HasOutgoing d.pipe id := by
    rw [List.eq_nil_iff_forall_not_mem]
    constructor
    · rintro hnone ⟨q, hq, hfrom⟩
      exact hnone q.id ((d.mem_idsAt_output_iff hid).mpr ⟨q, hq, hfrom, rfl⟩)
    · intro hno qid hmem
      obtain ⟨q, hq, hfrom, -⟩ := (d.mem_idsAt_output_iff hid).mp hmem
      exact hno ⟨q, hq, hfrom⟩
  unfold Station.outputs
  split_ifs with hnone
  · rw [d.mem_idsAt_sink_iff hid (hleaf.mp hnone)]
    constructor
    · exact fun hqid => Or.inr ⟨hleaf.mp hnone, hqid⟩
    · rintro (⟨q, hq, hfrom, -⟩ | ⟨-, hqid⟩)
      · exact absurd ⟨q, hq, hfrom⟩ (hleaf.mp hnone)
      · exact hqid
  · rw [d.mem_idsAt_output_iff hid]
    exact ⟨Or.inl, fun h => h.resolve_right fun hno => hnone (hleaf.mpr hno.1)⟩

/-- No queue is read for two processors. -/
theorem oneReader : OneReader (d.stations handle take) := by
  refine List.nodup_flatMap.mpr ⟨fun p _ => p.nodup_inputs, ?_⟩
  rw [stations, List.pairwise_append]
  refine ⟨?_, List.pairwise_singleton _ _, ?_⟩
  · rw [List.pairwise_map]
    refine List.Pairwise.imp (R := fun a b => a ≠ b) ?_ (List.nodup_attach.mpr d.pipe.processors.nodup)
    rintro ⟨a, ha⟩ ⟨b, hb⟩ hne qid hqa hqb
    obtain ⟨-, q, hq, rfl, rfl⟩ := (d.mem_inputs_iff ha).mp hqa
    obtain ⟨-, q', hq', rfl, heq⟩ := (d.mem_inputs_iff hb).mp hqb
    exact hne (Subtype.ext (congrArg APIQueue.toP (d.eq_of_id hq hq' heq.symm)))
  · intro p hp p' hp' qid hqid hqid'
    obtain ⟨⟨id, hid⟩, -, rfl⟩ := List.mem_map.mp hp
    rw [List.mem_singleton.mp hp'] at hqid'
    obtain ⟨-, q, hq, -, rfl⟩ := (d.mem_inputs_iff hid).mp hqid
    have hsink : q.id = d.pipe.sink.id := by simpa [Station.inputs, Station.sinkReader, mem_idsAt, eq_comm] using hqid'
    exact d.id_ne_sink hq (hsink.trans d.def_pipe.sink_id)

end Deployment

/-! ## The flow of a definition -/

/-- What the loop of a worker makes of a frame. -/
def workerMakes (c : Codec) (handle : PyVal → Except PyError (List EmitData)) (frame : DataFrame) : List DataFrame :=
  let sending : Except PyError (List EmitData) := do
    let data ← frame.data
    if data = .none then pure [] else handle data
  match sending with
  | .error _ => []
  | .ok sending => sending.filterMap (carried c (currentIdOf frame))

/-- The processors that a processor gets frames from. -/
def APIPipe.sources (pipe : APIPipe) (id : String) : List String :=
  (pipe.queues.values.filter fun q => q.toP = id).map APIQueue.fromP

/-- The processor puts frames on the queue. -/
def APIPipe.Writes (pipe : APIPipe) (id qid : String) : Prop :=
  (∃ q ∈ pipe.queues.values, q.fromP = id ∧ q.id = qid) ∨ (¬ HasOutgoing pipe id ∧ qid = sinkQueueId)

instance (pipe : APIPipe) (id qid : String) : Decidable (pipe.Writes id qid) := inferInstanceAs (Decidable (_ ∨ _))

/-- What goes through a queue, when `out` is what comes of each processor. -/
def APIPipe.flow (pipe : APIPipe) (out : String → Multiset DataFrame) (qid : String) : Multiset DataFrame :=
  (pipe.processors.keys.map fun id => if pipe.Writes id qid then out id else 0).sum

namespace Deployment

variable (d : Deployment) (c : Codec) (handle : String → PyVal → Except PyError (List EmitData))
  {take : DataFrame → Except PyError Unit} {id qid : String} {out : String → Multiset DataFrame}

/-- What a processor makes of a frame. No frame comes to the root. -/
def makes (id : String) (frame : DataFrame) : Multiset DataFrame :=
  if id = d.pipe.root.id then 0 else workerMakes c (handle id) frame

/-- What the workers of a processor were given at their start. -/
def givenTo (s : Network) (id : String) : Multiset DataFrame :=
  (s.workers.map fun w => if w.station = d.pipe.processors.keys.idxOf id then
    (w.given.filterMap (carried c .none) : Multiset DataFrame) else 0).sum

variable {c handle}

/-- Through a queue of the definition goes what comes of the processor that it leads from. -/
theorem flow_id {q : APIQueue} (hq : q ∈ d.pipe.queues.values) : d.pipe.flow out q.id = out q.fromP := by
  have hmem := (d.def_pipe.ends_mem q hq).1
  have hwrites : ∀ id, d.pipe.Writes id q.id ↔ id = q.fromP := by
    intro id
    constructor
    · rintro (⟨q', hq', rfl, heq⟩ | ⟨-, hsink⟩)
      · rw [d.eq_of_id hq' hq heq]
      · exact absurd hsink (d.id_ne_sink hq)
    · rintro rfl
      exact Or.inl ⟨q, hq, rfl, rfl⟩
  simp only [APIPipe.flow, hwrites]
  have hone : d.pipe.processors.keys.count q.fromP = 1 := List.count_eq_one_of_mem d.pipe.processors.nodup hmem
  rw [List.sum_map_eq_nsmul_single q.fromP, hone, one_nsmul, if_pos rfl]
  exact fun id hid _ => if_neg hid

/-- What a program puts on a queue is what comes of its processor. -/
theorem puts_station (hid : id ∈ d.pipe.processors.keys) :
    ((d.station handle id hid).node c).puts (d.pipe.flow out) qid =
      if d.pipe.Writes id qid then ((d.pipe.sources id).map out).sum.bind (d.makes c handle id) else 0 := by
  have houtputs : qid ∈ ((d.station handle id hid).node c).outputs ↔ d.pipe.Writes id qid := d.mem_outputs_iff hid
  unfold FlowNode.puts
  simp only [houtputs]
  congr 1
  by_cases hroot : id = d.pipe.root.id
  · have hinputs : (d.station handle id hid).inputs = [] := by
      rw [List.eq_nil_iff_forall_not_mem]
      exact fun qid hqid => ((d.mem_inputs_iff hid).mp hqid).1 hroot
    have hmakes : d.makes c handle id = fun _ => 0 := funext fun _ => if_pos hroot
    have hnode : ((d.station handle id hid).node c).inputs = [] := hinputs
    rw [hmakes, Multiset.bind_zero, hnode]
    exact Multiset.zero_bind _
  · have hperm : (d.station handle id hid).inputs.Perm
        ((d.pipe.queues.values.filter fun q => q.toP = id).map APIQueue.id) := by
      refine (List.perm_ext_iff_of_nodup (Station.nodup_inputs _)
        (d.nodup_queues.sublist (List.filter_sublist.map _))).mpr fun qid => ?_
      rw [d.mem_inputs_iff hid, List.mem_map]
      simp [hroot, and_assoc]
    have hmakes : ((d.station handle id hid).node c).makes = d.makes c handle id := by
      funext frame
      rw [makes, if_neg hroot, station, dif_neg hroot]
      rfl
    have hnode : ((d.station handle id hid).node c).inputs = (d.station handle id hid).inputs := rfl
    rw [hmakes, hnode, (hperm.map _).sum_eq, List.map_map, APIPipe.sources, List.map_map]
    congr 1
    refine congrArg List.sum (List.map_congr_left fun q hq => ?_)
    exact d.flow_id (List.mem_of_mem_filter hq)

theorem getElem?_stations (n : ℕ) : (d.stations handle take)[n]? =
    if h : n < d.pipe.processors.keys.length then
      some (d.station handle d.pipe.processors.keys[n] (List.getElem_mem h))
    else if n = d.pipe.processors.keys.length then
      some (.sinkReader d.pipe.sink take (d.isLocal _ List.mem_cons_self))
    else none := by
  rw [stations]
  split_ifs with hlt heq
  · rw [List.getElem?_append_left (by simpa using hlt)]
    simp [hlt]
  · simp [heq]
  · rw [List.getElem?_eq_none]
    simp
    omega

/-- What a worker was given counts for its processor. -/
theorem elim_stations (n : ℕ) (given : Multiset DataFrame) :
    ((d.stations handle take)[n]?.elim 0 fun p => if qid ∈ p.outputs then given else 0) =
      (d.pipe.processors.keys.map fun id =>
        if d.pipe.Writes id qid then (if n = d.pipe.processors.keys.idxOf id then given else 0) else 0).sum := by
  rw [getElem?_stations]
  by_cases hlt : n < d.pipe.processors.keys.length
  · have hone : d.pipe.processors.keys.count d.pipe.processors.keys[n] = 1 :=
      List.count_eq_one_of_mem d.pipe.processors.nodup (List.getElem_mem hlt)
    have hidx : d.pipe.processors.keys.idxOf d.pipe.processors.keys[n] = n :=
      List.Nodup.idxOf_getElem d.pipe.processors.nodup n hlt
    have houtputs : qid ∈ (d.station handle d.pipe.processors.keys[n] (List.getElem_mem hlt)).outputs ↔
        d.pipe.Writes d.pipe.processors.keys[n] qid := d.mem_outputs_iff _
    rw [dif_pos hlt, List.sum_map_eq_nsmul_single d.pipe.processors.keys[n], hone, one_nsmul, if_pos hidx.symm,
      Option.elim_some]
    · simp only [houtputs]
    · intro id hne hid
      have hother : n ≠ d.pipe.processors.keys.idxOf id := by
        rintro rfl
        exact hne (List.getElem_idxOf hlt).symm
      simp [hother]
  -- the reader of the sink sends nothing
  · have hnone : ∀ id ∈ d.pipe.processors.keys, n ≠ d.pipe.processors.keys.idxOf id := by
      intro id hid
      have := List.idxOf_lt_length_iff.mpr hid
      omega
    rw [dif_neg hlt, List.sum_eq_zero]
    · split_ifs <;> simp [Station.outputs, Station.sinkReader, idsAt]
    · simp only [List.mem_map]
      rintro _ ⟨id, hid, rfl⟩
      simp [hnone id hid]

theorem given_stations (s : Network) : s.given c (d.stations handle take) qid =
    (d.pipe.processors.keys.map fun id => if d.pipe.Writes id qid then d.givenTo c s id else 0).sum := by
  unfold Network.given givenTo
  induction s.workers with
  | nil => simp
  | cons w workers ih =>
    rw [List.map_cons, List.sum_cons, ih, elim_stations, ← List.sum_map_add]
    refine congrArg List.sum (List.map_congr_left fun id _ => ?_)
    split_ifs <;> simp [*]

/-- What comes of the processors is a flow. -/
theorem isFlow {s : Network}
    (hout : IsProduced d.pipe.sources (d.makes c handle) (d.givenTo c s) {id | id ∈ d.pipe.processors.keys} out) :
    IsFlow ((d.stations handle take).map (Station.node c)) (s.given c (d.stations handle take)) (d.pipe.flow out) := by
  intro qid
  have hputs : (((d.stations handle take).map (Station.node c)).map fun n => n.puts (d.pipe.flow out) qid).sum =
      (d.pipe.processors.keys.map fun id => if d.pipe.Writes id qid then
        ((d.pipe.sources id).map out).sum.bind (d.makes c handle id) else 0).sum := by
    have hsink : ((Station.sinkReader d.pipe.sink take (d.isLocal _ List.mem_cons_self)).node c).puts
        (d.pipe.flow out) qid = 0 := if_neg List.not_mem_nil
    simp only [stations, List.map_append, List.map_map, List.sum_append, List.map_singleton, List.sum_singleton,
      Function.comp_def, hsink, add_zero, puts_station]
    exact congrArg List.sum (List.attach_map_val (f := fun id => if d.pipe.Writes id qid then
      ((d.pipe.sources id).map out).sum.bind (d.makes c handle id) else 0))
  rw [arriving, given_stations, hputs, ← List.sum_map_add]
  refine congrArg List.sum (List.map_congr_left fun id hid => ?_)
  split_ifs
  · exact hout id hid
  · rfl

theorem get?_id {q : APIQueue} (hq : q ∈ d.pipe.queues.values) : d.pipe.queues.get? q.id = some q := by
  obtain ⟨⟨key, q⟩, hitem, rfl⟩ := List.mem_map.mp hq
  obtain rfl : q.id = key := d.def_pipe.keyed _ hitem
  exact (Dict.get?_eq_some_iff _).mpr hitem

/-- The queues can be ranked like the processors. The sink is behind all of them. -/
theorem exists_ranked {rank : String → ℕ} (hrank : ∀ q ∈ d.pipe.queues.values, rank q.fromP < rank q.toP) :
    ∃ rank, Ranked ((d.stations handle take).map (Station.node c)) rank := by
  let last := (d.pipe.processors.keys.map rank).sum + 1
  refine ⟨fun qid => (d.pipe.queues.get? qid).elim last fun q => rank q.toP, fun n hn qid hqid qid' hqid' => ?_⟩
  obtain ⟨p, hp, rfl⟩ := List.mem_map.mp hn
  rcases List.mem_append.mp hp with hp | hp
  · obtain ⟨⟨id, hid⟩, -, rfl⟩ := List.mem_map.mp hp
    obtain ⟨-, q, hq, rfl, rfl⟩ := (d.mem_inputs_iff hid).mp hqid
    rcases (d.mem_outputs_iff hid).mp hqid' with ⟨q', hq', hfrom, rfl⟩ | ⟨-, rfl⟩
    · simp only [d.get?_id hq, d.get?_id hq', Option.elim_some]
      exact hfrom ▸ hrank q' hq'
    · simp only [d.get?_id hq, (Dict.get?_eq_none_iff _).mpr d.def_pipe.sink_new, Option.elim_some, Option.elim_none]
      exact Nat.lt_succ_of_le (List.le_sum_of_mem (List.mem_map_of_mem hid))
  · rw [List.mem_singleton.mp hp] at hqid'
    exact absurd hqid' List.not_mem_nil

/-- What has come through the queues in a run is at most what comes of the processors, and in the end just that. -/
theorem through_le {rank : String → ℕ} (hrank : ∀ q ∈ d.pipe.queues.values, rank q.fromP < rank q.toP)
    {refuses : String → Bool} {events : List NetEvent} {s : Network}
    (hroom : Along (netStep refuses c (d.stations handle take)) (NetRoom refuses c) .start events)
    (hrun : runFrom (netStep refuses c (d.stations handle take)) .start events = some s)
    (hout : IsProduced d.pipe.sources (d.makes c handle) (d.givenTo c s) {id | id ∈ d.pipe.processors.keys} out) :
    (∀ qid, s.through qid ≤ d.pipe.flow out qid) ∧ (s.Drained → s.through = d.pipe.flow out) := by
  have hsound := sound_of_run hroom hrun
  obtain ⟨_, hranked⟩ : ∃ rank, Ranked ((d.stations handle take).map (Station.node c)) rank := d.exists_ranked hrank
  refine ⟨fun qid => ?_, fun hdrained => ?_⟩
  · exact (hsound.isSubflow d.oneReader).le (d.isFlow hout) hranked qid
  · exact (hsound.isFlow d.oneReader hdrained).unique (d.isFlow hout) hranked

end Deployment

/-! ## The meaning of the graph -/

namespace ProcessorGraph

variable (g : ProcessorGraph) (rt : PyRuntime)

open Classical in
/-- The processors of the pipe that a processor was added to. -/
noncomputable def above (a : ℕ) : List ℕ := (List.range g.count).filter fun b => g.Reaches b ∧ g.Edge b a

open Classical in
/-- The processors of the pipe that nothing was added to. -/
noncomputable def ends : List ℕ := (List.range g.count).filter fun a => g.Reaches a ∧ ∀ b, ¬ g.Edge a b

/-- What comes of every processor is what it is given, and what it makes of all that comes of those above it. -/
def Means (make : ℕ → DataFrame → Multiset DataFrame) (given out : ℕ → Multiset DataFrame) : Prop :=
  IsProduced g.above make given {a | g.Reaches a} out

/-- The id of a processor. -/
def idOf (a : ℕ) : String := ((g.object a).id rt).toOption.getD ""

variable {g rt}

theorem mem_above {a b : ℕ} (h : g.WellBuilt rt) : b ∈ g.above a ↔ g.Reaches b ∧ g.Edge b a := by
  simp only [above, List.mem_filter, List.mem_range, decide_eq_true_eq, and_iff_right_iff_imp]
  exact fun hb => hb.1.lt h

theorem mem_ends {a : ℕ} (h : g.WellBuilt rt) : a ∈ g.ends ↔ g.Reaches a ∧ ∀ b, ¬ g.Edge a b := by
  simp only [ends, List.mem_filter, List.mem_range, decide_eq_true_eq, and_iff_right_iff_imp]
  exact fun ha => ha.1.lt h

theorem WellBuilt.id_eq (h : g.WellBuilt rt) (a : ℕ) : (g.object a).id rt = .ok (g.idOf rt a) := by
  obtain ⟨proc, hproc⟩ := h.defined a
  have hid : (g.object a).id rt = .ok proc.id := (processorDef_eq_ok_iff.mp hproc).1
  rw [idOf, hid]
  rfl

/-- Without cycles every processor comes behind those above it. -/
theorem WellBuilt.exists_rank (h : g.WellBuilt rt) (hacyclic : ∀ a, g.Reaches a → ¬ Relation.TransGen g.Edge a a) :
    ∃ rank : ℕ → ℕ, ∀ a ∈ {a | g.Reaches a}, ∀ b ∈ g.above a, b ∈ {a | g.Reaches a} ∧ rank b < rank a := by
  have hfin : {a | g.Reaches a}.Finite := (Set.finite_lt_nat g.count).subset fun a ha => Reaches.lt h ha
  obtain ⟨rank, hrank⟩ := Upipe.Common.exists_rank hfin hacyclic
  refine ⟨rank, fun a _ b hb => ?_⟩
  obtain ⟨hreach, hedge⟩ := (mem_above h).mp hb
  exact ⟨hreach, hrank b hreach a hedge⟩

/-- Such a graph has one meaning. -/
theorem exists_means (h : g.WellBuilt rt) (hacyclic : ∀ a, g.Reaches a → ¬ Relation.TransGen g.Edge a a)
    (make : ℕ → DataFrame → Multiset DataFrame) (given : ℕ → Multiset DataFrame) : ∃ out, g.Means make given out ∧
      ∀ out', g.Means make given out' → ∀ a, g.Reaches a → out' a = out a := by
  obtain ⟨rank, hrank⟩ := h.exists_rank hacyclic
  have hout : g.Means make given _ := isProduced_produced hrank
  exact ⟨_, hout, fun out' hout' a ha => hout'.unique hout hrank ha⟩

/-! ## The definition means what the graph means -/

section Defined

variable {pipe : APIPipe}

/-- The definition has the processors and the queues of the graph. -/
structure Describes (g : ProcessorGraph) (rt : PyRuntime) (pipe : APIPipe) : Prop where
  root : pipe.root.id = g.idOf rt 0
  keys : ∀ id, id ∈ pipe.processors.keys ↔ ∃ a, g.Reaches a ∧ g.idOf rt a = id
  values : ∀ q, q ∈ pipe.queues.values ↔ ∃ a b, g.Reaches a ∧ g.Edge a b ∧ g.IsQueueOf rt a b q
  exists_queue : ∀ a b, g.Edge a b → ∃ q, g.IsQueueOf rt a b q

theorem WellBuilt.describes_pipeDef (h : g.WellBuilt rt) {t : ProcNode} (ht : g.Unfolds rt 0 t) (hnames : g.FreeNames)
    (hids : g.DistinctIds rt) : g.Describes rt (APIPipe.pipeDef t) where
  root := by
    rw [APIPipe.pipeDef, (APIPipe.mapProc_frame (APIPipe.bare t.proc) t).2.1]
    exact Except.ok.inj ((processorDef_eq_ok_iff.mp ht.proc_eq).1.symm.trans (h.id_eq 0))
  keys id := by
    have hsound : g.Sound rt (APIPipe.pipeDef t) := by
      apply h.sound_mapProc t _ .refl ht
      exact ⟨fun item hitem => absurd hitem List.not_mem_nil, fun item hitem => absurd hitem List.not_mem_nil⟩
    constructor
    · intro hid
      obtain ⟨⟨id, proc⟩, hitem, rfl⟩ := List.mem_map.mp hid
      obtain ⟨a, ha, hproc, hkey⟩ := hsound.processors _ hitem
      exact ⟨a, ha, (Except.ok.inj ((h.id_eq a).symm.trans (processorDef_eq_ok_iff.mp hproc).1)).trans hkey⟩
    · rintro ⟨a, ha, rfl⟩
      exact h.mem_processors ht ha (h.id_eq a)
  values q := h.mem_queues_iff ht hnames hids
  exists_queue a b _ := by
    obtain ⟨proc, hproc⟩ := h.defined a
    obtain ⟨child, hchild⟩ := h.defined b
    exact ⟨_, queueDef_eq_ok_iff.mp (h.queueDef_eq hproc hchild)⟩

/-- Some queue is at every processor but the root. -/
theorem Describes.fed (hpipe : g.Describes rt pipe) (h : g.WellBuilt rt) :
    ∀ id ∈ pipe.processors.keys, id ≠ pipe.root.id → AtQueue pipe id := by
  intro id hid hroot
  obtain ⟨a, ha, rfl⟩ := (hpipe.keys _).mp hid
  have hne : a ≠ 0 := by
    rintro rfl
    exact hroot hpipe.root.symm
  exact atQueue_of_reaches hpipe.values hpipe.exists_queue ha hne (h.id_eq a)

/-- The processors at the end of the graph are those that write the sink. -/
theorem Describes.hasOutgoing_iff (hpipe : g.Describes rt pipe) (h : g.WellBuilt rt) (hids : g.DistinctIds rt)
    {a : ℕ} (ha : g.Reaches a) : HasOutgoing pipe (g.idOf rt a) ↔ ∃ b, g.Edge a b := by
  constructor
  · rintro ⟨q, hq, hfrom⟩
    obtain ⟨a', b, ha', hedge, hq⟩ := (hpipe.values _).mp hq
    obtain rfl := (hq.ends_iff hids ha' hedge ha (h.id_eq a)).1.mp hfrom
    exact ⟨b, hedge⟩
  · rintro ⟨b, hedge⟩
    obtain ⟨q, hq⟩ := hpipe.exists_queue a b hedge
    exact ⟨q, (hpipe.values _).mpr ⟨a, b, ha, hedge, hq⟩, (hq.ends_iff hids ha hedge ha (h.id_eq a)).1.mpr rfl⟩

variable {ref : String → ℕ}

/-- The sources of a processor in the definition are the processors above it. -/
theorem Describes.sources_perm (hpipe : g.Describes rt pipe) (h : g.WellBuilt rt) (hids : g.DistinctIds rt)
    (hnodup : (pipe.queues.values.map APIQueue.id).Nodup) (href : ∀ a, g.Reaches a → ref (g.idOf rt a) = a) {a : ℕ}
    (ha : g.Reaches a) : ((pipe.sources (g.idOf rt a)).map ref).Perm (g.above a) := by
  have hends {b c : ℕ} {q : APIQueue} (hb : g.Reaches b) (hedge : g.Edge b c) (hq : g.IsQueueOf rt b c q) :=
    hq.ends_iff hids hb hedge ha (h.id_eq a)
  have hfrom {b c : ℕ} {q : APIQueue} (hb : g.Reaches b) (hq : g.IsQueueOf rt b c q) : ref q.fromP = b := by
    rw [← Except.ok.inj ((h.id_eq b).symm.trans hq.fromP_eq)]
    exact href b hb
  have hnodup' : ((pipe.sources (g.idOf rt a)).map ref).Nodup := by
    rw [APIPipe.sources, List.map_map]
    refine (List.Nodup.of_map _ hnodup |>.filter _).map_on ?_
    intro q hq q' hq' heq
    obtain ⟨hq, hto⟩ := List.mem_filter.mp hq
    obtain ⟨hq', hto'⟩ := List.mem_filter.mp hq'
    obtain ⟨b, c, hb, hedge, hqueue⟩ := (hpipe.values _).mp hq
    obtain ⟨b', c', hb', hedge', hqueue'⟩ := (hpipe.values _).mp hq'
    obtain rfl := (hends hb hedge hqueue).2.mp (of_decide_eq_true hto)
    obtain rfl := (hends hb' hedge' hqueue').2.mp (of_decide_eq_true hto')
    obtain rfl : b = b' := (hfrom hb hqueue).symm.trans (heq.trans (hfrom hb' hqueue'))
    exact Except.ok.inj ((queueDef_eq_ok_iff.mpr hqueue).symm.trans (queueDef_eq_ok_iff.mpr hqueue'))
  refine (List.perm_ext_iff_of_nodup hnodup' (List.nodup_range.filter _)).mpr fun b => ?_
  show b ∈ _ ↔ b ∈ g.above a
  rw [mem_above h, APIPipe.sources, List.map_map, List.mem_map]
  constructor
  · rintro ⟨q, hq, rfl⟩
    obtain ⟨hq, hto⟩ := List.mem_filter.mp hq
    obtain ⟨b, c, hb, hedge, hqueue⟩ := (hpipe.values _).mp hq
    obtain rfl := (hends hb hedge hqueue).2.mp (of_decide_eq_true hto)
    rw [Function.comp_apply, hfrom hb hqueue]
    exact ⟨hb, hedge⟩
  · rintro ⟨hb, hedge⟩
    obtain ⟨q, hq⟩ := hpipe.exists_queue b a hedge
    have hto : q.toP = g.idOf rt a := (hends hb hedge hq).2.mpr rfl
    exact ⟨q, List.mem_filter.mpr ⟨(hpipe.values _).mpr ⟨b, a, hb, hedge, hq⟩, decide_eq_true hto⟩, hfrom hb hq⟩

/-- The processors at the end are the ones without a queue out of them. -/
theorem Describes.flow_sink (hpipe : g.Describes rt pipe) (h : g.WellBuilt rt) (hids : g.DistinctIds rt)
    (hsink : ∀ q ∈ pipe.queues.values, q.id ≠ sinkQueueId) (href : ∀ a, g.Reaches a → ref (g.idOf rt a) = a)
    (hkeys : pipe.processors.keys.Nodup) (out : ℕ → Multiset DataFrame) :
    pipe.flow (fun id => out (ref id)) sinkQueueId = (g.ends.map out).sum := by
  have hwrites : ∀ id, pipe.Writes id sinkQueueId ↔ ¬ HasOutgoing pipe id := by
    intro id
    constructor
    · rintro (⟨q, hq, -, hid⟩ | ⟨hno, -⟩)
      · exact absurd hid (hsink q hq)
      · exact hno
    · exact fun hno => Or.inr ⟨hno, rfl⟩
  have hperm : ((pipe.processors.keys.filter fun id => ¬ HasOutgoing pipe id).map ref).Perm g.ends := by
    refine (List.perm_ext_iff_of_nodup ((hkeys.filter _).map_on ?_) (List.nodup_range.filter _)).mpr fun a => ?_
    · intro id hid id' hid' heq
      obtain ⟨a, ha, rfl⟩ := (hpipe.keys _).mp (List.mem_of_mem_filter hid)
      obtain ⟨a', ha', rfl⟩ := (hpipe.keys _).mp (List.mem_of_mem_filter hid')
      rw [href a ha, href a' ha'] at heq
      rw [heq]
    · show a ∈ _ ↔ a ∈ g.ends
      rw [mem_ends h, List.mem_map]
      constructor
      · rintro ⟨id, hid, rfl⟩
        obtain ⟨hid, hno⟩ := List.mem_filter.mp hid
        obtain ⟨a, ha, rfl⟩ := (hpipe.keys _).mp hid
        rw [href a ha]
        exact ⟨ha, not_exists.mp fun hedge => of_decide_eq_true hno ((hpipe.hasOutgoing_iff h hids ha).mpr hedge)⟩
      · rintro ⟨ha, hend⟩
        have hno : ¬ HasOutgoing pipe (g.idOf rt a) := fun hout =>
          not_exists.mpr hend ((hpipe.hasOutgoing_iff h hids ha).mp hout)
        exact ⟨g.idOf rt a, List.mem_filter.mpr ⟨(hpipe.keys _).mpr ⟨a, ha, rfl⟩, decide_eq_true hno⟩, href a ha⟩
  simp only [APIPipe.flow, hwrites]
  rw [List.sum_map_ite, List.map_const', List.sum_replicate, nsmul_zero, add_zero, ← (hperm.map out).sum_eq,
    List.map_map]
  rfl

/-- What comes of the processors of the graph comes of those of the definition. -/
theorem Describes.isProduced {d : Deployment} (hpipe : g.Describes rt d.pipe) (h : g.WellBuilt rt)
    (hids : g.DistinctIds rt) (hacyclic : ∀ a, g.Reaches a → ¬ Relation.TransGen g.Edge a a)
    (href : ∀ a, g.Reaches a → ref (g.idOf rt a) = a) {c : Codec}
    {handle : String → PyVal → Except PyError (List EmitData)} {given : String → Multiset DataFrame}
    {out : ℕ → Multiset DataFrame}
    (hout : g.Means (fun a frame => workerMakes c (handle (g.idOf rt a)) frame) (fun a => given (g.idOf rt a)) out) :
    IsProduced d.pipe.sources (d.makes c handle) given {id | id ∈ d.pipe.processors.keys} fun id => out (ref id) := by
  intro id hid
  obtain ⟨a, ha, rfl⟩ := (hpipe.keys _).mp hid
  have hsources : (d.pipe.sources (g.idOf rt a)).map (fun id => out (ref id)) =
      ((d.pipe.sources (g.idOf rt a)).map ref).map out := List.map_map.symm
  show out (ref (g.idOf rt a)) = _
  rw [href a ha, hout a ha, hsources, ((hpipe.sources_perm h hids d.nodup_queues href ha).map out).sum_eq]
  congr 1
  by_cases hroot : g.idOf rt a = d.pipe.root.id
  · -- nothing is above the pipe
    obtain rfl : a = 0 := hids a 0 _ ha .refl (h.id_eq a) (by rw [hroot, hpipe.root]; exact h.id_eq 0)
    have hnone : g.above 0 = [] := by
      rw [List.eq_nil_iff_forall_not_mem]
      intro b hb
      obtain ⟨hreach, hedge⟩ := (mem_above h).mp hb
      exact hacyclic 0 .refl (Relation.TransGen.tail' hreach hedge)
    rw [hnone]
    rfl
  · have hmakes : d.makes c handle (g.idOf rt a) = fun frame => ↑(workerMakes c (handle (g.idOf rt a)) frame) :=
      funext fun _ => if_neg hroot
    rw [hmakes]

/-- The processors of the definition can be ranked like those of the graph. -/
theorem Describes.exists_rank (hpipe : g.Describes rt pipe) (h : g.WellBuilt rt)
    (hacyclic : ∀ a, g.Reaches a → ¬ Relation.TransGen g.Edge a a) (href : ∀ a, g.Reaches a → ref (g.idOf rt a) = a) :
    ∃ rank : String → ℕ, ∀ q ∈ pipe.queues.values, rank q.fromP < rank q.toP := by
  obtain ⟨rank, hrank⟩ := h.exists_rank hacyclic
  refine ⟨fun id => rank (ref id), fun q hq => ?_⟩
  obtain ⟨a, b, ha, hedge, hq⟩ := (hpipe.values q).mp hq
  have hfrom : q.fromP = g.idOf rt a := Except.ok.inj (hq.fromP_eq.symm.trans (h.id_eq a))
  have hto : q.toP = g.idOf rt b := Except.ok.inj (hq.toP_eq.symm.trans (h.id_eq b))
  show rank (ref q.fromP) < rank (ref q.toP)
  rw [hfrom, hto, href a ha, href b (ha.tail hedge)]
  exact (hrank b (ha.tail hedge) a ((mem_above h).mpr ⟨ha, hedge⟩)).2

end Defined

/-- The processor of an id. -/
theorem WellBuilt.exists_ref (h : g.WellBuilt rt) (hids : g.DistinctIds rt) :
    ∃ ref : String → ℕ, ∀ a, g.Reaches a → ref (g.idOf rt a) = a := by
  have hinj : Set.InjOn (g.idOf rt) {a | g.Reaches a} := fun a ha b hb heq =>
    hids a b _ ha hb (h.id_eq a) (heq ▸ h.id_eq b)
  exact ⟨Function.invFunOn (g.idOf rt) {a | g.Reaches a}, fun a ha => hinj.leftInvOn_invFunOn ha⟩

/-! ## The pipe does what the graph means -/

variable (g rt) in
/-- How what has come through the queues compares with what comes of the processors that they lead from, and what has
come through the sink with what comes of the processors at the end. -/
def Carries (r : Multiset DataFrame → Multiset DataFrame → Prop) (s : Network) (out : ℕ → Multiset DataFrame) : Prop :=
  (∀ a b q, g.Reaches a → g.Edge a b → g.IsQueueOf rt a b q → r (s.through q.id) (out a)) ∧
    r (s.through sinkQueueId) (g.ends.map out).sum

/-- The second processor drops every frame. -/
def chainScript : List BuildEvent :=
  let settings : APIProcSettings := { inputBufferSize := 400 }
  [.create { name := "a", config := .dict [], settings := settings },
    .create { name := "b", config := .dict [], settings := settings },
    .create { name := "c", config := .dict [], settings := settings }, .add 0 1, .add 1 2, .add 2 3]

/-- The objects of this script. -/
def chain : ProcessorGraph :=
  (runFrom (buildStep plainRuntime) (ofPipe "main" none) chainScript).getD (ofPipe "main" none)

theorem chain_built : runFrom (buildStep plainRuntime) (ofPipe "main" none) chainScript = some chain := rfl

theorem chain_acyclic {a : ℕ} (ha : chain.Reaches a) : ¬ Relation.TransGen chain.Edge a a := by
  have hbuilt : chain.WellBuilt plainRuntime := wellBuilt_of_run chain_built
  have hup : ∀ a < 4, ∀ b ∈ (chain.object a).children, a < b := by decide
  have hbelow : ∀ b, Relation.TransGen chain.Edge a b → a < b ∧ b < 4 := by
    intro b hab
    induction hab with
    | single hedge => exact ⟨hup _ (ha.lt hbuilt) _ hedge, hbuilt.children_lt _ _ hedge⟩
    | tail _ hedge ih => exact ⟨ih.1.trans (hup _ ih.2 _ hedge), hbuilt.children_lt _ _ hedge⟩
  exact fun hcycle => Nat.lt_irrefl a (hbelow a hcycle).1

theorem chain_freeNames : chain.FreeNames := by
  have hbuilt : chain.WellBuilt plainRuntime := wellBuilt_of_run chain_built
  have hnames : ∀ a < 4, FreeOfArrow (chain.object a).name := by decide +kernel
  exact fun a ha => hnames a (ha.lt hbuilt)

theorem chain_distinctIds : chain.DistinctIds plainRuntime := by
  have hbuilt : chain.WellBuilt plainRuntime := wellBuilt_of_run chain_built
  have hids : ∀ a < 4, ∀ b < 4, (chain.object a).id plainRuntime = (chain.object b).id plainRuntime → a = b := by
    decide +kernel
  exact fun a b id ha hb hida hidb => hids a (ha.lt hbuilt) b (hb.lt hbuilt) (hida.trans hidb.symm)

def chainTree : ProcNode :=
  let settings : APIProcSettings := { inputBufferSize := 400 }
  .node { id := "main", name := "main" } [.node { id := "a", name := "a", settings := settings }
    [.node { id := "b", name := "b", settings := settings } [.node { id := "c", name := "c", settings := settings } []]]]

theorem unfolds_chainTree : Unfolds plainRuntime chain 0 chainTree := by
  have hdefs : (chain.object 0).processorDef plainRuntime = .ok { id := "main", name := "main" } ∧
      ∀ x ∈ [(1, "a"), (2, "b"), (3, "c")], (chain.object x.1).processorDef plainRuntime =
        .ok { id := x.2, name := x.2, settings := { inputBufferSize := 400 } } := by
    decide +kernel
  obtain ⟨hmain, hdefs⟩ := hdefs
  exact ⟨hmain, ⟨hdefs (1, "a") (by decide), ⟨hdefs (2, "b") (by decide), ⟨hdefs (3, "c") (by decide), trivial⟩,
    trivial⟩, trivial⟩, trivial⟩

def chainControllers : Dict String LoadedPipe := (loadPipes [APIPipe.pipeDef chainTree]).toOption.getD .empty

/-- A node has loaded the pipe. -/
def chainDeployment : Deployment where
  pipe := APIPipe.pipeDef chainTree
  others := []
  controllers := chainControllers
  load := by
    have hrun : (loadPipes [APIPipe.pipeDef chainTree]).toOption.any (fun _ => true) = true := by decide +kernel
    obtain ⟨controllers, hload, -⟩ := exists_ok_of_any hrun
    rw [chainControllers, hload]
    rfl
  isPipeDef := List.forall_mem_singleton.mpr (APIPipe.isPipeDef_pipeDef chainTree)
  apart := List.pairwise_singleton _ _
  noStar := by decide +kernel
  fed := by decide +kernel
  isLocal := by decide +kernel

def chainHandle (id : String) (data : PyVal) : Except PyError (List EmitData) :=
  if id = "b" then .ok [] else .ok [.value data]

def chainStations : List Station := chainDeployment.stations chainHandle fun _ => .ok ()

/-- A worker of the first processor has a frame of its own, and one of the second takes it. -/
def chainRun : List NetEvent :=
  [.launch 1 [.frame PipeLine.taggedFrame], .launch 2 []] ++ [0, 1, 0, 1, 0, 0, 1, 1].map (.step · (.go 0))

end ProcessorGraph

end Upipe
