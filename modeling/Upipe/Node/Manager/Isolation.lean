import Upipe.Node.Manager.Wiring

/-!
# Queues of different pipes

A queue is known by its id: the shared memory is named by it, and `push_q` looks it up in one loaded pipe
after the other. The id of a queue between two processors is made of their names, the id of a sink is the
same for all pipes. `isolated_iff` says what follows: no two queues are mixed up while at most one pipe is
loaded, and `alone_of_ne_sink` that nothing but the sinks is mixed up afterwards.
-/

namespace Upipe

open Upipe.Common

/-! ## Names and ids -/

/-- Of two lists joined by a pair of different letters, the place of the pair can be read off when it does not
come up earlier. -/
theorem append_pair_injective {α : Type*} {x y : α} (hne : x ≠ y) {as bs cs ds : List α}
    (has : ¬ [x, y] <:+: as) (hcs : ¬ [x, y] <:+: cs) (h : as ++ x :: y :: bs = cs ++ x :: y :: ds) :
    as = cs ∧ bs = ds := by
  have hfirst : ∀ {es fs gs hs : List α}, ¬ [x, y] <:+: es ++ fs →
      x :: y :: gs = fs ++ x :: y :: hs → fs = [] ∧ gs = hs := by
    intro es fs gs hs hfree heq
    match fs, heq with
    | [], heq =>
      rw [List.nil_append] at heq
      exact ⟨rfl, (List.cons.inj (List.cons.inj heq).2).2⟩
    | [_], heq => exact absurd (List.cons.inj (List.cons.inj heq).2).1.symm hne
    | f :: g :: fs, heq =>
      have hf : x = f := (List.cons.inj heq).1
      have hg : y = g := (List.cons.inj (List.cons.inj heq).2).1
      rw [← hf, ← hg] at hfree
      exact absurd ⟨es, fs, by rw [List.append_assoc]; rfl⟩ hfree
  rcases List.append_eq_append_iff.mp h with ⟨fs, rfl, heq⟩ | ⟨fs, rfl, heq⟩
  · obtain ⟨rfl, rfl⟩ := hfirst hcs heq
    exact ⟨(List.append_nil as).symm, rfl⟩
  · obtain ⟨rfl, rfl⟩ := hfirst has heq
    exact ⟨List.append_nil cs, rfl⟩

/-- A pair of letters that is not in a list is not in a longer one either, when the second letter is not in what was
appended. -/
theorem not_infix_append {α : Type*} {x y : α} {as bs : List α} (has : ¬ [x, y] <:+: as) (hy : y ∉ bs) :
    ¬ [x, y] <:+: as ++ bs := by
  rintro ⟨cs, ds, h⟩
  rcases List.append_eq_append_iff.mp h with ⟨es, rfl, -⟩ | ⟨es, heq, rfl⟩
  · exact has ⟨cs, es, rfl⟩
  rcases List.eq_nil_or_concat es with rfl | ⟨es, z, rfl⟩
  · rw [List.append_nil] at heq
    exact has ⟨cs, [], by rw [heq, List.append_nil]⟩
  · rw [List.concat_eq_append] at heq hy
    have hlast : cs ++ [x] ++ [y] = as ++ es ++ [z] := by
      rw [List.append_assoc, List.append_assoc]
      exact heq
    obtain ⟨-, hyz⟩ := List.append_inj' hlast rfl
    obtain rfl := List.singleton_inj.mp hyz
    exact hy (List.mem_append_left _ (List.mem_append_right _ (List.mem_singleton_self y)))

/-- The name has no arrow in it. -/
def FreeOfArrow (name : String) : Prop := ¬ ['-', '>'] <:+: name.toList

instance (name : String) : Decidable (FreeOfArrow name) := inferInstanceAs (Decidable (¬ _))

theorem FreeOfArrow.append {a b : String} (ha : FreeOfArrow a) (hb : '>' ∉ b.toList) : FreeOfArrow (a ++ b) := by
  rw [FreeOfArrow, String.toList_append]
  exact not_infix_append ha hb

theorem arrow_injective {a b c d : String} (ha : FreeOfArrow a) (hc : FreeOfArrow c)
    (h : a ++ "->" ++ b = c ++ "->" ++ d) : a = c ∧ b = d := by
  have hlist := congrArg String.toList h
  simp only [String.toList_append, List.append_assoc] at hlist
  obtain ⟨hac, hbd⟩ := append_pair_injective (by decide) ha hc hlist
  exact ⟨String.toList_inj.mp hac, String.toList_inj.mp hbd⟩

namespace QueueHandle

/-- `memory_name`. -/
def memoryName (q : QueueHandle) : String := "Q_" ++ q.qid

theorem memoryName_inj {q r : QueueHandle} : q.memoryName = r.memoryName ↔ q.qid = r.qid := by
  rw [memoryName, memoryName, String.append_right_inj]

end QueueHandle

/-- The queue on which `push_q` puts a frame, and the pipe that has it. Without one `push_q` returns `False`. -/
def pushQ (controllers : Dict String LoadedPipe) (q : APIQueue) : Option (LoadedPipe × QueueHandle) :=
  controllers.values.findSome? fun pipe => (pipe.queues.get? q.id).map fun queue => (pipe, queue)

/-- The queue of the pipe is not mixed up with another one: not by its id, not in memory and not by `push_q`. -/
structure Alone (controllers : Dict String LoadedPipe) (c : LoadedPipe) (q : QueueHandle) : Prop where
  id : ∀ c' ∈ controllers.values, ∀ q' ∈ c'.queues.values, q'.qid = q.qid → c' = c ∧ q' = q
  memory : ∀ c' ∈ controllers.values, ∀ q' ∈ c'.queues.values, q'.memoryName = q.memoryName → c' = c ∧ q' = q
  pushed : pushQ controllers q.queueDef = some (c, q)

/-- No queue of the loaded pipes is mixed up with another one. -/
def Isolated (controllers : Dict String LoadedPipe) : Prop :=
  ∀ c ∈ controllers.values, ∀ q ∈ c.queues.values, Alone controllers c q

/-! ## Queues of a definition -/

namespace APIPipe

/-- The id of a queue is made of its ends. -/
def Arrowed (pipe : APIPipe) : Prop := ∀ q ∈ pipe.queues.values, q.id = q.fromP ++ "->" ++ q.toP

mutual

theorem Arrowed.mapProc {pipe : APIPipe} (h : pipe.Arrowed) : ∀ node : ProcNode, (pipe.mapProc node).Arrowed
  | .node proc children => by
    have hproc : Arrowed { pipe with processors := pipe.processors.set proc.id proc } := h
    exact hproc.mapChildren proc children

theorem Arrowed.mapChildren {pipe : APIPipe} (h : pipe.Arrowed) (proc : APIProcessor) :
    ∀ children : List ProcNode, (pipe.mapChildren proc children).Arrowed
  | [] => h
  | child :: children => by
    have hqueue : Arrowed
        { pipe with queues := pipe.queues.set (childQueue proc child.proc).id (childQueue proc child.proc) } := by
      intro q hq
      rcases Dict.mem_values_of_mem_set _ hq with rfl | hq
      · rfl
      · exact h q hq
    exact (hqueue.mapProc child).mapChildren proc children

end

theorem arrowed_pipeDef (root : ProcNode) : (pipeDef root).Arrowed :=
  Arrowed.mapProc (fun _ hq => absurd hq List.not_mem_nil) root

end APIPipe

/-! ## Queues of a loaded pipe -/

section Loaded

variable {pipe : APIPipe} {c : LoadedPipe}

/-- A loaded pipe has each queue under its id. -/
theorem APIPipe.IsPipeDef.load_keyed (hdef : pipe.IsPipeDef) (h : LoadedPipe.load pipe = .ok c) :
    ∀ item ∈ c.queues.entries, item.2.qid = item.1 := by
  obtain ⟨queues, hqueues, h⟩ := except_bind_eq_ok_iff.mp h
  obtain ⟨sink, hsink, h⟩ := except_bind_eq_ok_iff.mp h
  obtain rfl := Except.ok.inj h
  have hentries := openQueues_entries hqueues pipe.queues.nodup (fun _ _ => List.not_mem_nil)
  have hid : sink.qid = pipe.sink.id := congrArg QueueHandle.qid (open?_ok hsink)
  refine queues.forall_entries_set (Q := fun key q => q.qid = key) ?_ hid
  intro item hitem
  rw [hentries] at hitem
  obtain ⟨old, hold, rfl⟩ := List.mem_map.mp hitem
  exact hdef.keyed old hold

/-- A queue of a loaded pipe is found under its id. -/
theorem APIPipe.IsPipeDef.load_get? (hdef : pipe.IsPipeDef) (h : LoadedPipe.load pipe = .ok c) {q : QueueHandle} :
    q ∈ c.queues.values ↔ c.queues.get? q.qid = some q := by
  rw [Dict.get?_eq_some_iff, Dict.values, List.mem_map]
  constructor
  · rintro ⟨item, hitem, rfl⟩
    rw [hdef.load_keyed h item hitem]
    exact hitem
  · exact fun hitem => ⟨_, hitem, rfl⟩

/-- A loaded pipe has no two queues of one id. -/
theorem APIPipe.IsPipeDef.eq_of_qid (hdef : pipe.IsPipeDef) (h : LoadedPipe.load pipe = .ok c) {q r : QueueHandle}
    (hq : q ∈ c.queues.values) (hr : r ∈ c.queues.values) (hqid : q.qid = r.qid) : q = r := by
  have hgetq := (hdef.load_get? h).mp hq
  have hgetr := (hdef.load_get? h).mp hr
  rw [hqid, hgetr] at hgetq
  exact (Option.some.inj hgetq).symm

/-- A queue of a loaded pipe is its sink, or it is between two processors of the pipe and named by them. -/
theorem APIPipe.IsPipeDef.load_cases (hdef : pipe.IsPipeDef) (harrowed : pipe.Arrowed)
    (h : LoadedPipe.load pipe = .ok c) {q : QueueHandle} (hq : q ∈ c.queues.values) :
    q = .ofDef pipe.sink ∨ ∃ a ∈ pipe.processors.keys, ∃ b ∈ pipe.processors.keys, q.qid = a ++ "->" ++ b := by
  rw [(hdef.load_values h).2] at hq
  obtain ⟨q₀, hq₀, rfl⟩ := List.mem_map.mp hq
  rcases List.mem_append.mp hq₀ with hq₀ | hq₀
  · obtain ⟨hfrom, hto⟩ := hdef.ends_mem q₀ hq₀
    exact Or.inr ⟨q₀.fromP, hfrom, q₀.toP, hto, harrowed q₀ hq₀⟩
  · rw [List.mem_singleton.mp hq₀]
    exact Or.inl rfl

theorem APIPipe.IsPipeDef.sink_mem (hdef : pipe.IsPipeDef) (h : LoadedPipe.load pipe = .ok c) :
    QueueHandle.ofDef pipe.sink ∈ c.queues.values := by
  rw [(hdef.load_values h).2]
  exact List.mem_map_of_mem (List.mem_append_right _ List.mem_cons_self)

end Loaded

/-! ## Queues of several pipes -/

section Pipes

variable {pipes : List APIPipe} {controllers : Dict String LoadedPipe} {c : LoadedPipe} {q : QueueHandle}

/-- Every loaded pipe is that of a definition. -/
theorem exists_load_of_mem {cs : List LoadedPipe}
    (hloads : List.Forall₂ (fun pipe c => LoadedPipe.load pipe = .ok c) pipes cs) (hc : c ∈ cs) :
    ∃ x ∈ pipes, LoadedPipe.load x = .ok c := by
  induction hloads with
  | nil => cases hc
  | @cons pipe first pipes cs hload _ ih =>
    rcases List.mem_cons.mp hc with rfl | hc
    · exact ⟨pipe, List.mem_cons_self, hload⟩
    · obtain ⟨x, hx, hload⟩ := ih hc
      exact ⟨x, List.mem_cons_of_mem _ hx, hload⟩

/-- Every definition is loaded. -/
theorem exists_mem_of_load {cs : List LoadedPipe}
    (hloads : List.Forall₂ (fun pipe c => LoadedPipe.load pipe = .ok c) pipes cs) {x : APIPipe} (hx : x ∈ pipes) :
    ∃ c ∈ cs, LoadedPipe.load x = .ok c := by
  induction hloads with
  | nil => cases hx
  | @cons pipe first pipes cs hload _ ih =>
    rcases List.mem_cons.mp hx with rfl | hx
    · exact ⟨first, List.mem_cons_self, hload⟩
    · obtain ⟨c, hc, hload⟩ := ih hx
      exact ⟨c, List.mem_cons_of_mem _ hc, hload⟩

theorem exists_load_of_loadPipes (hload : loadPipes pipes = .ok controllers) (hc : c ∈ controllers.values) :
    ∃ x ∈ pipes, LoadedPipe.load x = .ok c := by
  obtain ⟨cs, hvalues, hloads⟩ := loadPipes_values hload
  rw [hvalues] at hc
  exact exists_load_of_mem hloads hc

variable (hload : loadPipes pipes = .ok controllers) (hdefs : ∀ x ∈ pipes, x.IsPipeDef)

include hload hdefs

/-- A queue whose id no other queue has is not mixed up in the other ways either. -/
theorem alone_of_id (hc : c ∈ controllers.values) (hq : q ∈ c.queues.values)
    (hid : ∀ c' ∈ controllers.values, ∀ q' ∈ c'.queues.values, q'.qid = q.qid → c' = c ∧ q' = q) :
    Alone controllers c q := by
  refine { id := hid, memory := ?_, pushed := ?_ }
  · intro c' hc' q' hq' hname
    exact hid c' hc' q' hq' (QueueHandle.memoryName_inj.mp hname)
  · obtain ⟨x, hx, hxload⟩ := exists_load_of_loadPipes hload hc
    have hown : (c.queues.get? q.qid).map (fun queue => (c, queue)) = some (c, q) := by
      rw [((hdefs x hx).load_get? hxload).mp hq]
      rfl
    have hsome : (pushQ controllers q.queueDef).isSome := by
      rw [pushQ, List.findSome?_isSome_iff]
      exact ⟨c, hc, Option.isSome_of_eq_some hown⟩
    obtain ⟨found, hfound⟩ := Option.isSome_iff_exists.mp hsome
    obtain ⟨c', hc', hget⟩ := List.exists_of_findSome?_eq_some hfound
    obtain ⟨q', hq', rfl⟩ := Option.map_eq_some_iff.mp hget
    obtain ⟨y, hy, hyload⟩ := exists_load_of_loadPipes hload hc'
    have hitem : (q.qid, q') ∈ c'.queues.entries := c'.queues.get?_eq_some_iff.mp hq'
    have hqid : q'.qid = q.qid := (hdefs y hy).load_keyed hyload _ hitem
    obtain ⟨rfl, rfl⟩ := hid c' hc' q' (List.mem_map_of_mem (f := Prod.snd) hitem) hqid
    exact hfound

/-- A queue that is not a sink is not mixed up with another one. -/
theorem alone_of_ne_sink (harrowed : ∀ x ∈ pipes, x.Arrowed) (hapart : pipes.Pairwise Apart)
    (hfree : ∀ x ∈ pipes, ∀ name ∈ x.processors.keys, FreeOfArrow name) (hc : c ∈ controllers.values)
    (hq : q ∈ c.queues.values) (hsink : q.qid ≠ sinkQueueId) : Alone controllers c q := by
  refine alone_of_id hload hdefs hc hq ?_
  intro c' hc' q' hq' hqid
  obtain ⟨x, hx, hxload⟩ := exists_load_of_loadPipes hload hc
  obtain ⟨y, hy, hyload⟩ := exists_load_of_loadPipes hload hc'
  have hends : ∀ {z : APIPipe} {d : LoadedPipe} {r : QueueHandle}, z ∈ pipes → LoadedPipe.load z = .ok d →
      r ∈ d.queues.values → r.qid = q.qid →
        ∃ a ∈ z.processors.keys, ∃ b ∈ z.processors.keys, q.qid = a ++ "->" ++ b := by
    intro z d r hz hzload hr hrid
    rcases (hdefs z hz).load_cases (harrowed z hz) hzload hr with rfl | hends
    · exact absurd (hrid.symm.trans (hdefs z hz).sink_id) hsink
    · rwa [hrid] at hends
  obtain ⟨a, ha, b, -, hab⟩ := hends hx hxload hq rfl
  obtain ⟨a', ha', b', -, hab'⟩ := hends hy hyload hq' hqid
  obtain ⟨rfl, -⟩ := arrow_injective (hfree x hx a ha) (hfree y hy a' ha') (hab.symm.trans hab')
  -- both pipes have the processor that the queue leaves
  obtain rfl := eq_of_apart hapart hx hy ha ha'
  obtain rfl := Except.ok.inj (hxload.symm.trans hyload)
  exact ⟨rfl, (hdefs x hx).eq_of_qid hxload hq' hq hqid⟩

/-- Pipes of which all are loaded into one controller are one pipe at most. -/
theorem length_le_one (hapart : pipes.Pairwise Apart) (hall : ∀ c' ∈ controllers.values, c' = c) :
    pipes.length ≤ 1 := by
  obtain ⟨cs, hvalues, hloads⟩ := loadPipes_values hload
  have hpipe : ∀ x ∈ pipes, x = c.pipe := by
    intro x hx
    obtain ⟨c', hc', hxload⟩ := exists_mem_of_load hloads hx
    have hmem : c' ∈ controllers.values := by
      rw [hvalues]
      exact hc'
    rw [← hall c' hmem]
    exact ((hdefs x hx).load_values hxload).1.symm
  match pipes, hpipe, hapart with
  | [], _, _ => exact Nat.zero_le 1
  | [_], _, _ => exact Nat.le_refl 1
  | x :: y :: rest, hpipe, hapart =>
    -- no pipe is apart from itself
    have hxy : Apart x y := (List.pairwise_cons.mp hapart).1 y List.mem_cons_self
    rw [hpipe y (List.mem_cons_of_mem _ List.mem_cons_self), ← hpipe x List.mem_cons_self] at hxy
    exact absurd (hdefs x List.mem_cons_self).root_mem (hxy _ (hdefs x List.mem_cons_self).root_mem)

/-- A queue is not mixed up with another one exactly if it is not a sink, or its pipe is the only one. -/
theorem alone_iff (harrowed : ∀ x ∈ pipes, x.Arrowed) (hapart : pipes.Pairwise Apart)
    (hfree : ∀ x ∈ pipes, ∀ name ∈ x.processors.keys, FreeOfArrow name) (hc : c ∈ controllers.values)
    (hq : q ∈ c.queues.values) : Alone controllers c q ↔ q.qid ≠ sinkQueueId ∨ pipes.length ≤ 1 := by
  constructor
  · intro h
    refine or_iff_not_imp_left.mpr fun hsink => ?_
    -- the sinks of all pipes have the id
    refine length_le_one (c := c) hload hdefs hapart fun c' hc' => ?_
    obtain ⟨y, hy, hyload⟩ := exists_load_of_loadPipes hload hc'
    have hid := (hdefs y hy).sink_id.trans (not_not.mp hsink).symm
    exact (h.id c' hc' _ ((hdefs y hy).sink_mem hyload) hid).1
  · rintro (hsink | hlength)
    · exact alone_of_ne_sink hload hdefs harrowed hapart hfree hc hq hsink
    · refine alone_of_id hload hdefs hc hq ?_
      intro c' hc' q' hq' hqid
      obtain ⟨x, hx, hxload⟩ := exists_load_of_loadPipes hload hc
      obtain ⟨y, hy, hyload⟩ := exists_load_of_loadPipes hload hc'
      have hpos := List.length_pos_of_mem hx
      obtain ⟨z, rfl⟩ := List.length_eq_one_iff.mp (Nat.le_antisymm hlength hpos)
      obtain rfl : x = y := (List.mem_singleton.mp hx).trans (List.mem_singleton.mp hy).symm
      obtain rfl := Except.ok.inj (hxload.symm.trans hyload)
      exact ⟨rfl, (hdefs x hx).eq_of_qid hxload hq' hq hqid⟩

end Pipes

/-- The queues of the loaded pipes are not mixed up with each other exactly if at most one pipe is loaded. -/
theorem isolated_iff {pipes : List APIPipe} {controllers : Dict String LoadedPipe}
    (hload : loadPipes pipes = .ok controllers) (hdefs : ∀ x ∈ pipes, ∃ root, x = APIPipe.pipeDef root)
    (hapart : pipes.Pairwise Apart) (hfree : ∀ x ∈ pipes, ∀ name ∈ x.processors.keys, FreeOfArrow name) :
    Isolated controllers ↔ pipes.length ≤ 1 := by
  have hpipe : ∀ x ∈ pipes, x.IsPipeDef := by
    intro x hx
    obtain ⟨root, rfl⟩ := hdefs x hx
    exact APIPipe.isPipeDef_pipeDef root
  have harrowed : ∀ x ∈ pipes, x.Arrowed := by
    intro x hx
    obtain ⟨root, rfl⟩ := hdefs x hx
    exact APIPipe.arrowed_pipeDef root
  constructor
  · intro h
    by_contra hlength
    obtain ⟨x, hx⟩ := List.exists_mem_of_length_pos (l := pipes) (by omega)
    obtain ⟨cs, hvalues, hloads⟩ := loadPipes_values hload
    obtain ⟨c, hc, hxload⟩ := exists_mem_of_load hloads hx
    have hmem : c ∈ controllers.values := by
      rw [hvalues]
      exact hc
    have hsink := (hpipe x hx).sink_mem hxload
    rcases (alone_iff hload hpipe harrowed hapart hfree hmem hsink).mp (h c hmem _ hsink) with hne | hle
    · exact hne (hpipe x hx).sink_id
    · exact hlength hle
  · intro hlength c hc q hq
    exact (alone_iff hload hpipe harrowed hapart hfree hc hq).mpr (Or.inr hlength)

theorem isolated_iff_two : ∃ controllers,
    loadPipes [twoStage "other" "a", twoStage "main" "b"] = .ok controllers ∧
      (Isolated controllers ↔ [twoStage "other" "a", twoStage "main" "b"].length ≤ 1) := by
  have hrun : (loadPipes [twoStage "other" "a", twoStage "main" "b"]).toOption.any (fun _ => true) = true := by
    decide +kernel
  obtain ⟨controllers, hload, -⟩ := exists_ok_of_any hrun
  refine ⟨controllers, hload, isolated_iff hload ?_ (by decide +kernel) (by decide +kernel)⟩
  intro x hx
  rcases List.mem_pair.mp hx with rfl | rfl
  · exact ⟨_, rfl⟩
  · exact ⟨_, rfl⟩

/-- The sinks of two pipes are one queue, and `push_q` finds that of the pipe that was loaded first. -/
theorem sinks_shared : ∃ controllers, loadPipes [twoStage "other" "a", twoStage "main" "b"] = .ok controllers ∧
    [twoStage "other" "a", twoStage "main" "b"].Pairwise Apart ∧
    (∀ x ∈ [twoStage "other" "a", twoStage "main" "b"], ∀ name ∈ x.processors.keys, FreeOfArrow name) ∧
    (∃ c ∈ controllers.values, ∃ q ∈ c.queues.values, ∃ c' ∈ controllers.values, ∃ q' ∈ c'.queues.values,
      c.pipe.id = "main" ∧ c'.pipe.id = "other" ∧ q.memoryName = q'.memoryName ∧
        (pushQ controllers q.queueDef).map (fun found => found.1.pipe.id) = some "other") ∧
    ¬ Isolated controllers := by
  have hrun : (loadPipes [twoStage "other" "a", twoStage "main" "b"]).toOption.any (fun controllers =>
      decide (∃ c ∈ controllers.values, ∃ q ∈ c.queues.values, ∃ c' ∈ controllers.values, ∃ q' ∈ c'.queues.values,
        c.pipe.id = "main" ∧ c'.pipe.id = "other" ∧ q.memoryName = q'.memoryName ∧
          (pushQ controllers q.queueDef).map (fun found => found.1.pipe.id) = some "other")) = true := by
    decide +kernel
  obtain ⟨controllers, hload, hshared⟩ := exists_ok_of_any hrun
  have hshared := of_decide_eq_true hshared
  refine ⟨controllers, hload, by decide +kernel, by decide +kernel, hshared, ?_⟩
  intro h
  obtain ⟨c, hc, q, hq, c', hc', q', hq', hmain, hother, hname, -⟩ := hshared
  obtain ⟨rfl, -⟩ := (h c hc q hq).memory c' hc' q' hq' hname.symm
  rw [hmain] at hother
  exact absurd hother (by decide)

end Upipe
