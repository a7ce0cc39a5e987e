import Upipe.Entities.Pipe.Graph

/-!
# The pipe in the viewer

The viewer gets the definition of a pipe from the node and draws it as a tree: `treeData` starts from the pipe and
looks the queues through for those that leave a processor. The definition is a flat one, a dictionary of processors and
one of queues, in which a processor below several others is written once. `treeData_eq` says that the tree of the
viewer is nevertheless the one that the script has built, a processor once for each path to it and children in the order
in which they were added.

Of a node the type is left out, which is that of the processor, or of the pipe.
-/

namespace Upipe

open Upipe.Common

/-! ## Definitions -/

/-- A node of the tree that is drawn. -/
inductive TreeNode where
  | node (id : String) (value : ℕ) (level : String) (children : List TreeNode)

namespace APIPipe

/-- The loop of `scan` over the queues. `visit` scans a child. -/
def scanQueues (pipe : APIPipe) (visit : String → Option (Except PyError (List TreeNode))) (id : String) :
    List APIQueue → Option (Except PyError (List TreeNode))
  | [] => some (.ok [])
  | q :: queues =>
      if q.fromP = id then
        match pipe.processors.get? q.toP with
        | none => some (.error ⟨.typeError, "Cannot read properties of undefined (reading 'id')"⟩)
        | some child =>
            match visit child.id with
            | some (.ok below) =>
                match scanQueues pipe visit id queues with
                | some (.ok rest) => some (.ok (.node child.id 15 "red" below :: rest))
                | stopped => stopped
            | stopped => stopped
      else scanQueues pipe visit id queues

/-- `scan`, with at most `fuel` calls inside each other: the children that it gives to the node. `none` is a recursion
that goes deeper. -/
def scan (pipe : APIPipe) : ℕ → String → Option (Except PyError (List TreeNode))
  | 0, _ => none
  | fuel + 1, id => pipe.scanQueues (pipe.scan fuel) id pipe.queues.values

/-- `treeData`. -/
def treeData (pipe : APIPipe) (fuel : ℕ) : Option (Except PyError TreeNode) :=
  match pipe.scan fuel pipe.id with
  | none => none
  | some (.error e) => some (.error e)
  | some (.ok children) => some (.ok (.node pipe.id 10 "red" children))

/-- `entryProcs`. -/
def entryProcs (pipe : APIPipe) : List APIProcessor :=
  (pipe.processors.entries.filter fun item => ¬ ∃ q ∈ pipe.queues.values, q.toP = item.1).map Prod.snd

end APIPipe

namespace ProcNode

def children : ProcNode → List ProcNode
  | .node _ children => children

mutual

/-- The tree to draw for a tree of processors. -/
def drawn : ProcNode → TreeNode
  | .node proc children => .node proc.id 15 "red" (drawnAll children)

def drawnAll : List ProcNode → List TreeNode
  | [] => []
  | t :: ts => drawn t :: drawnAll ts

end

end ProcNode

/-- The queues that leave a processor, in the order of the dictionary. -/
def outOf (queues : Dict String APIQueue) (id : String) : List APIQueue := queues.values.filter fun q => q.fromP = id

/-! ## Setting a queue -/

section Set

variable {queues : Dict String APIQueue} {q : APIQueue} {id : String}

theorem mem_outOf {q' : APIQueue} : q' ∈ outOf queues id ↔ q' ∈ queues.values ∧ q'.fromP = id := by
  rw [outOf, List.mem_filter, decide_eq_true_eq]

/-- A new queue comes behind those that leave its processor. -/
theorem outOf_set_self (h : q.id ∉ queues.keys) : outOf (queues.set q.id q) q.fromP = outOf queues q.fromP ++ [q] := by
  rw [outOf, Dict.values, Dict.entries_set_of_not_mem _ _ h, List.map_append, List.filter_append]
  simp [outOf, Dict.values]

theorem outOf_set_of_ne (h : q.id ∉ queues.keys) (hne : q.fromP ≠ id) :
    outOf (queues.set q.id q) id = outOf queues id := by
  rw [outOf, Dict.values, Dict.entries_set_of_not_mem _ _ h, List.map_append, List.filter_append]
  simp [outOf, Dict.values, hne]

end Set

/-! ## What the walk of the pipe process has written -/

namespace APIPipe

/-- The definition with the queue from one processor to another. -/
def withChild (pipe : APIPipe) (p child : APIProcessor) : APIPipe :=
  { pipe with queues := pipe.queues.set (childQueue p child).id (childQueue p child) }

theorem mapChildren_cons (pipe : APIPipe) (p : APIProcessor) (t : ProcNode) (ts : List ProcNode) :
    pipe.mapChildren p (t :: ts) = ((pipe.withChild p t.proc).mapProc t).mapChildren p ts := by
  rw [mapChildren]
  rfl

end APIPipe

namespace ProcessorGraph

section Walk

variable (g : ProcessorGraph) (rt : PyRuntime) (proc : ℕ → APIProcessor)

/-- The graph is acyclic and its processors, with their definitions `proc`, are told apart by their ids. -/
structure Tellable : Prop where
  built : g.WellBuilt rt
  defs : ∀ a, (g.object a).processorDef rt = .ok (proc a)
  acyclic : ∀ a, g.Reaches a → ¬ Relation.TransGen g.Edge a a
  names : g.FreeNames
  ids : g.DistinctIds rt
  children_nodup : ∀ a, (g.object a).children.Nodup

/-- The queues out of the processor are those to its children, in their order. -/
def Written (queues : Dict String APIQueue) (a : ℕ) : Prop :=
  outOf queues (proc a).id = (g.object a).children.map fun b => APIPipe.childQueue (proc a) (proc b)

/-- The processor and all below it are written. -/
def Done (queues : Dict String APIQueue) (a : ℕ) : Prop :=
  ∀ b, Relation.ReflTransGen g.Edge a b → g.Written proc queues b

/-- The walk has not come to the processor, or it has left it. -/
def Settled (queues : Dict String APIQueue) (a : ℕ) : Prop := outOf queues (proc a).id = [] ∨ g.Done proc queues a

variable {g rt proc} {queues queues' : Dict String APIQueue} {a b : ℕ}

theorem Tellable.eq_of_id (h : g.Tellable rt proc) (ha : g.Reaches a) (hb : g.Reaches b)
    (hid : (proc a).id = (proc b).id) : a = b := by
  refine h.ids a b (proc b).id ha hb ?_ (processorDef_eq_ok_iff.mp (h.defs b)).1
  rw [← hid]
  exact (processorDef_eq_ok_iff.mp (h.defs a)).1

/-- No processor below a child is the parent. -/
theorem Tellable.id_ne (h : g.Tellable rt proc) (ha : g.Reaches a) (hedge : g.Edge a b) {d : ℕ}
    (hd : Relation.ReflTransGen g.Edge b d) : (proc d).id ≠ (proc a).id := by
  intro hid
  obtain rfl := h.eq_of_id ((ha.tail hedge).trans hd) ha hid
  exact h.acyclic d ha (Relation.TransGen.head' hedge hd)

theorem Done.congr (h : g.Done proc queues a)
    (hsame : ∀ d, Relation.ReflTransGen g.Edge a d → outOf queues' (proc d).id = outOf queues (proc d).id) :
    g.Done proc queues' a := by
  intro d hd
  rw [Written, hsame d hd]
  exact h d hd

theorem Settled.congr (h : g.Settled proc queues a)
    (hsame : ∀ d, Relation.ReflTransGen g.Edge a d → outOf queues' (proc d).id = outOf queues (proc d).id) :
    g.Settled proc queues' a := by
  rcases h with hnil | hdone
  · left
    rw [hsame a .refl]
    exact hnil
  · exact Or.inr (hdone.congr hsame)

/-- What is done stays done when another processor gets done. -/
theorem Tellable.done_after (h : g.Tellable rt proc) {c : ℕ} (hc : g.Reaches c) (hcdone : g.Done proc queues' c)
    (hframe : ∀ id, (∀ d, Relation.ReflTransGen g.Edge c d → (proc d).id ≠ id) → outOf queues' id = outOf queues id)
    (ha : g.Reaches a) (hdone : g.Done proc queues a) : g.Done proc queues' a := by
  intro d hd
  by_cases hbelow : ∃ e, Relation.ReflTransGen g.Edge c e ∧ (proc e).id = (proc d).id
  · obtain ⟨e, he, hid⟩ := hbelow
    obtain rfl := h.eq_of_id (hc.trans he) (ha.trans hd) hid
    exact hcdone e he
  · rw [Written, hframe _ fun e he hid => hbelow ⟨e, he, hid⟩]
    exact hdone d hd

theorem Tellable.settled_after (h : g.Tellable rt proc) {c : ℕ} (hc : g.Reaches c) (hcdone : g.Done proc queues' c)
    (hframe : ∀ id, (∀ d, Relation.ReflTransGen g.Edge c d → (proc d).id ≠ id) → outOf queues' id = outOf queues id)
    (ha : g.Reaches a) (hsettled : g.Settled proc queues a) : g.Settled proc queues' a := by
  rcases hsettled with hnil | hdone
  · by_cases hbelow : ∃ e, Relation.ReflTransGen g.Edge c e ∧ (proc e).id = (proc a).id
    · obtain ⟨e, he, hid⟩ := hbelow
      obtain rfl := h.eq_of_id (hc.trans he) ha hid
      exact Or.inr fun d hd => hcdone d (he.trans hd)
    · left
      rw [hframe _ fun e he hid => hbelow ⟨e, he, hid⟩]
      exact hnil
  · exact Or.inr (h.done_after hc hcdone hframe ha hdone)

mutual

/-- A second visit changes nothing about the queues. -/
theorem queues_mapProc_of_done (hdefs : ∀ a, (g.object a).processorDef rt = .ok (proc a)) : ∀ (t : ProcNode) {a : ℕ}
    {pipe : APIPipe}, g.Unfolds rt a t → (∀ item ∈ pipe.queues.entries, item.2.id = item.1) →
    g.Done proc pipe.queues a → (pipe.mapProc t).queues = pipe.queues
  | .node p children, a, pipe, hunfolds, hkeyed, hdone => by
      obtain rfl := Except.ok.inj (hunfolds.1.symm.trans (hdefs a))
      rw [APIPipe.mapProc]
      refine queues_mapChildren_of_done hdefs children hunfolds.2 hkeyed ?_
      intro b hedge
      refine ⟨?_, fun d hd => hdone d (hd.head hedge)⟩
      have hwritten : outOf pipe.queues (proc a).id = _ := hdone a .refl
      have hmem : APIPipe.childQueue (proc a) (proc b) ∈ outOf pipe.queues (proc a).id := by
        rw [hwritten]
        exact List.mem_map_of_mem hedge
      exact (mem_outOf.mp hmem).1

theorem queues_mapChildren_of_done (hdefs : ∀ a, (g.object a).processorDef rt = .ok (proc a)) :
    ∀ (ts : List ProcNode) {bs : List ℕ} {p : APIProcessor} {pipe : APIPipe}, g.UnfoldsAll rt bs ts →
    (∀ item ∈ pipe.queues.entries, item.2.id = item.1) →
    (∀ b ∈ bs, APIPipe.childQueue p (proc b) ∈ pipe.queues.values ∧ g.Done proc pipe.queues b) →
    (pipe.mapChildren p ts).queues = pipe.queues
  | [], bs, p, pipe, hunfolds, hkeyed, hdone => rfl
  | t :: ts, bs, p, pipe, hunfolds, hkeyed, hdone => by
      cases bs with
      | nil => exact hunfolds.elim
      | cons b bs =>
        obtain ⟨⟨hmem, hbelow⟩, hrest⟩ := List.forall_mem_cons.mp hdone
        have hproc : t.proc = proc b := Except.ok.inj (hunfolds.1.proc_eq.symm.trans (hdefs b))
        have hset : (pipe.withChild p t.proc).queues = pipe.queues := by
          rw [hproc]
          obtain ⟨⟨key, q⟩, hitem, rfl⟩ := List.mem_map.mp hmem
          apply Dict.set_of_get?
          rw [Dict.get?_eq_some_iff, hkeyed _ hitem]
          exact hitem
        have hchild : ((pipe.withChild p t.proc).mapProc t).queues = pipe.queues :=
          (queues_mapProc_of_done hdefs t hunfolds.1 (by rwa [hset]) (by rwa [hset])).trans hset
        rw [APIPipe.mapChildren_cons,
          queues_mapChildren_of_done hdefs ts hunfolds.2 (by rwa [hchild]) (by rwa [hchild]), hchild]

end

/-- The queue to a child that the walk has not come to is new, and comes behind those to the children before it. -/
theorem Tellable.outOf_withChild (h : g.Tellable rt proc) {pipe : APIPipe} (hsound : g.Sound rt pipe) (ha : g.Reaches a)
    {visited : List ℕ} {rest : List ℕ} (hchildren : (g.object a).children = visited ++ b :: rest)
    (hout : outOf pipe.queues (proc a).id = visited.map fun b => APIPipe.childQueue (proc a) (proc b)) :
    outOf (pipe.withChild (proc a) (proc b)).queues (proc a).id =
        (visited ++ [b]).map (fun b => APIPipe.childQueue (proc a) (proc b)) ∧
      (∀ id, (proc a).id ≠ id →
        outOf (pipe.withChild (proc a) (proc b)).queues id = outOf pipe.queues id) ∧
      g.Sound rt (pipe.withChild (proc a) (proc b)) := by
  set q := APIPipe.childQueue (proc a) (proc b) with hq
  have hedge : g.Edge a b := by
    rw [Edge, hchildren]
    exact List.mem_append_right _ List.mem_cons_self
  have hqueue : g.IsQueueOf rt a b q := queueDef_eq_ok_iff.mp (h.built.queueDef_eq (h.defs a) (h.defs b))
  have hnew : q.id ∉ pipe.queues.keys := by
    intro hkey
    have hget : pipe.queues.get? q.id = some q := by
      apply Dict.get?_of_forall_entries _ hsound.queues _ hkey
      rintro q' ⟨a', b', ha', hedge', hq', hid⟩
      obtain ⟨rfl, rfl⟩ := edge_of_id_eq h.names h.ids ha' hedge' hq' ha hedge hqueue hid
      exact Except.ok.inj ((queueDef_eq_ok_iff.mpr hq').symm.trans (queueDef_eq_ok_iff.mpr hqueue))
    have hmem : q ∈ outOf pipe.queues (proc a).id :=
      mem_outOf.mpr ⟨List.mem_map_of_mem (f := Prod.snd) ((Dict.get?_eq_some_iff _).mp hget), rfl⟩
    rw [hout] at hmem
    obtain ⟨c, hc, hsame⟩ := List.mem_map.mp hmem
    have hedge' : g.Edge a c := by
      rw [Edge, hchildren]
      exact List.mem_append_left _ hc
    obtain rfl := h.eq_of_id (ha.tail hedge') (ha.tail hedge) (congrArg APIQueue.toP hsame)
    have hnodup := h.children_nodup a
    rw [hchildren] at hnodup
    exact (List.nodup_append.mp hnodup).2.2 c hc c List.mem_cons_self rfl
  refine ⟨?_, ?_, ?_⟩
  · rw [List.map_append, ← hout]
    exact outOf_set_self hnew
  · exact fun id hne => outOf_set_of_ne hnew hne
  · exact ⟨hsound.processors, pipe.queues.forall_entries_set hsound.queues ⟨a, b, ha, hedge, hqueue, rfl⟩⟩

mutual

/-- A visit gets the processor done, and leaves the queues out of others alone. -/
theorem Tellable.done_mapProc (h : g.Tellable rt proc) : ∀ (t : ProcNode) {a : ℕ} {pipe : APIPipe},
    g.Unfolds rt a t → g.Reaches a → g.Sound rt pipe →
    (∀ d, Relation.ReflTransGen g.Edge a d → g.Settled proc pipe.queues d) →
    g.Done proc (pipe.mapProc t).queues a ∧
      ∀ id, (∀ d, Relation.ReflTransGen g.Edge a d → (proc d).id ≠ id) →
        outOf (pipe.mapProc t).queues id = outOf pipe.queues id
  | .node p children, a, pipe, hunfolds, ha, hsound, hsettled => by
      rcases hsettled a .refl with hnil | hdone
      · obtain rfl := Except.ok.inj (hunfolds.1.symm.trans (h.defs a))
        rw [APIPipe.mapProc]
        have hsound' : g.Sound rt { pipe with processors := pipe.processors.set (proc a).id (proc a) } :=
          ⟨pipe.processors.forall_entries_set hsound.processors ⟨a, ha, hunfolds.1, rfl⟩, hsound.queues⟩
        have hchildren : (g.object a).children = [] ++ (g.object a).children := rfl
        exact h.done_mapChildren children hunfolds.2 ha hsound' hchildren hnil
          (fun c hc => nomatch hc) fun b hedge d hd => hsettled d (hd.head hedge)
      · have hsame : (pipe.mapProc (.node p children)).queues = pipe.queues := by
          refine queues_mapProc_of_done h.defs _ hunfolds (fun item hitem => ?_) hdone
          obtain ⟨-, -, -, -, -, hid⟩ := hsound.queues item hitem
          exact hid
        rw [hsame]
        exact ⟨hdone, fun _ _ => rfl⟩

theorem Tellable.done_mapChildren (h : g.Tellable rt proc) : ∀ (ts : List ProcNode) {bs visited : List ℕ} {a : ℕ}
    {pipe : APIPipe}, g.UnfoldsAll rt bs ts → g.Reaches a → g.Sound rt pipe →
    (g.object a).children = visited ++ bs →
    outOf pipe.queues (proc a).id = visited.map (fun b => APIPipe.childQueue (proc a) (proc b)) →
    (∀ c ∈ visited, g.Done proc pipe.queues c) →
    (∀ b, g.Edge a b → ∀ d, Relation.ReflTransGen g.Edge b d → g.Settled proc pipe.queues d) →
    g.Done proc (pipe.mapChildren (proc a) ts).queues a ∧
      ∀ id, (∀ d, Relation.ReflTransGen g.Edge a d → (proc d).id ≠ id) →
        outOf (pipe.mapChildren (proc a) ts).queues id = outOf pipe.queues id
  | [], bs, visited, a, pipe, hunfolds, ha, hsound, hchildren, hout, hdone, hsettled => by
      cases bs with
      | nil =>
        rw [List.append_nil] at hchildren
        refine ⟨fun d hd => ?_, fun _ _ => rfl⟩
        rcases hd.cases_head with rfl | ⟨c, hedge, hcd⟩
        · rw [Written, hchildren]
          exact hout
        · exact hdone c (hchildren ▸ hedge) d hcd
      | cons b bs => exact hunfolds.elim
  | t :: ts, bs, visited, a, pipe, hunfolds, ha, hsound, hchildren, hout, hdone, hsettled => by
      cases bs with
      | nil => exact hunfolds.elim
      | cons b bs =>
        have hedge : g.Edge a b := by
          rw [Edge, hchildren]
          exact List.mem_append_right _ List.mem_cons_self
        have hb : g.Reaches b := ha.tail hedge
        have hproc : t.proc = proc b := Except.ok.inj (hunfolds.1.proc_eq.symm.trans (h.defs b))
        obtain ⟨hout₁, hother₁, hsound₁⟩ := h.outOf_withChild hsound ha hchildren hout
        rw [APIPipe.mapChildren_cons, hproc]
        generalize pipe.withChild (proc a) (proc b) = pipe₁ at hout₁ hother₁ hsound₁ ⊢
        -- the new queue leaves none of the processors below
        have hsame₁ : ∀ c, g.Edge a c → ∀ d, Relation.ReflTransGen g.Edge c d →
            outOf pipe₁.queues (proc d).id = outOf pipe.queues (proc d).id :=
          fun c hac d hcd => hother₁ _ (h.id_ne ha hac hcd).symm
        have hsettled₁ : ∀ c, g.Edge a c → ∀ d, Relation.ReflTransGen g.Edge c d → g.Settled proc pipe₁.queues d :=
          fun c hac d hcd => (hsettled c hac d hcd).congr fun e hde => hsame₁ c hac e (hcd.trans hde)
        obtain ⟨hdone₂, hframe₂⟩ := h.done_mapProc t hunfolds.1 hb hsound₁ (hsettled₁ b hedge)
        have hsound₂ := h.built.sound_mapProc t hsound₁ hb hunfolds.1
        have hout₂ : outOf (pipe₁.mapProc t).queues (proc a).id = _ :=
          (hframe₂ _ fun d hd => h.id_ne ha hedge hd).trans hout₁
        have hvisited₂ : ∀ c ∈ visited ++ [b], g.Done proc (pipe₁.mapProc t).queues c := by
          intro c hc
          rcases List.mem_append.mp hc with hc | hc
          · have hac : g.Edge a c := by
              rw [Edge, hchildren]
              exact List.mem_append_left _ hc
            exact h.done_after hb hdone₂ hframe₂ (ha.tail hac) ((hdone c hc).congr (hsame₁ c hac))
          · rw [List.mem_singleton.mp hc]
            exact hdone₂
        have hsettled₂ : ∀ c, g.Edge a c → ∀ d, Relation.ReflTransGen g.Edge c d →
            g.Settled proc (pipe₁.mapProc t).queues d := fun c hac d hcd =>
          h.settled_after hb hdone₂ hframe₂ ((ha.tail hac).trans hcd) (hsettled₁ c hac d hcd)
        obtain ⟨hdone₃, hframe₃⟩ := h.done_mapChildren ts hunfolds.2 ha hsound₂
          (by rw [hchildren, List.append_assoc, List.singleton_append]) hout₂ hvisited₂ hsettled₂
        refine ⟨hdone₃, fun id hid => ?_⟩
        rw [hframe₃ id hid, hframe₂ id fun d hd => hid d (hd.head hedge), hother₁ id (hid a .refl)]

end

end Walk

/-! ## The children of a processor -/

section Built

variable {g : ProcessorGraph} {rt : PyRuntime}

/-- No two children of a processor have one name. -/
def NamedApart (g : ProcessorGraph) : Prop :=
  ∀ a, ((g.object a).children.map fun b => (g.object b).name).Nodup

theorem NamedApart.create (h : g.NamedApart) (hbuilt : g.WellBuilt rt) (args : ProcessorArgs) :
    (g.create args).NamedApart := by
  intro a
  by_cases ha : a = g.count
  · have hobject : (g.create args).object a = .init args := by
      rw [ha]
      exact Function.update_self ..
    rw [hobject]
    exact List.nodup_nil
  · have hobject : (g.create args).object a = g.object a := Function.update_of_ne ha ..
    rw [hobject]
    -- a child is an object from before
    have hnames : ((g.object a).children.map fun b => ((g.create args).object b).name) =
        (g.object a).children.map fun b => (g.object b).name := by
      apply List.map_congr_left
      intro b hb
      have hobject : (g.create args).object b = g.object b :=
        Function.update_of_ne (Nat.ne_of_lt (hbuilt.children_lt a b hb)) ..
      rw [hobject]
    rw [hnames]
    exact h a

theorem NamedApart.add (h : g.NamedApart) (a b : ℕ) : (g.add a b).NamedApart := by
  have hnames : ∀ c, ((g.add a b).object c).name = (g.object c).name := fun c =>
    congrArg (fun args => args.name) (object_add a b c).1
  intro c
  rw [List.map_congr_left fun d _ => hnames d]
  unfold ProcessorGraph.add
  cases hchild : g.getChild a (g.object b).name with
  | some _ => exact h c
  | none =>
    by_cases hc : c = a
    · subst hc
      dsimp only
      rw [Function.update_self, List.map_append, List.map_singleton, List.nodup_append]
      refine ⟨h c, List.nodup_singleton _, ?_⟩
      rintro name hname _ hb rfl
      obtain ⟨d, hd, rfl⟩ := List.mem_map.mp hname
      rw [getChild, List.find?_eq_none] at hchild
      exact hchild d hd (decide_eq_true (List.mem_singleton.mp hb))
    · dsimp only
      rw [Function.update_of_ne hc]
      exact h c

theorem namedApart_of_run {name : String} {interpreter : Option String} {events : List BuildEvent}
    (hrun : runFrom (buildStep rt) (ofPipe name interpreter) events = some g) : g.NamedApart := by
  have hkeep : ∀ (g : ProcessorGraph) e g', g.WellBuilt rt ∧ g.NamedApart → buildStep rt g e = some g' →
      g'.WellBuilt rt ∧ g'.NamedApart := by
    rintro g e g' ⟨hbuilt, hapart⟩ hstep
    refine ⟨hbuilt.step hstep, ?_⟩
    cases e with
    | create args =>
      rw [buildStep] at hstep
      cases hargs : args.processorDef rt with
      | ok proc =>
        rw [hargs] at hstep
        obtain rfl := Option.some.inj hstep
        exact hapart.create hbuilt args
      | error e =>
        rw [hargs] at hstep
        obtain rfl := Option.some.inj hstep
        exact hapart
    | add a b =>
      rw [buildStep] at hstep
      split at hstep
      · obtain rfl := Option.some.inj hstep
        exact hapart.add a b
      · cases hstep
  exact (runFrom_invariant hkeep ⟨wellBuilt_ofPipe name interpreter, fun _ => List.nodup_nil⟩ hrun).2

theorem tellable_of_run {name : String} {interpreter : Option String} {events : List BuildEvent}
    (hrun : runFrom (buildStep rt) (ofPipe name interpreter) events = some g)
    (hacyclic : ∀ a, g.Reaches a → ¬ Relation.TransGen g.Edge a a) (hnames : g.FreeNames)
    (hids : g.DistinctIds rt) : ∃ proc, g.Tellable rt proc := by
  have hbuilt : g.WellBuilt rt := wellBuilt_of_run hrun
  choose proc hproc using hbuilt.defined
  exact ⟨proc, hbuilt, hproc, hacyclic, hnames, hids, fun a => (namedApart_of_run hrun a).of_map⟩

end Built

/-! ## What the viewer reads -/

section Scan

variable {g : ProcessorGraph} {rt : PyRuntime} {proc : ℕ → APIProcessor} {pipe : APIPipe}

/-- The loop of `scan` passes over the queues that leave other processors. -/
theorem scanQueues_filter (visit : String → Option (Except PyError (List TreeNode))) (id : String)
    (queues : List APIQueue) :
    pipe.scanQueues visit id queues = pipe.scanQueues visit id (queues.filter fun q => q.fromP = id) := by
  induction queues with
  | nil => rfl
  | cons q queues ih =>
    by_cases hfrom : q.fromP = id
    · have hfilter : (q :: queues).filter (fun q => q.fromP = id) = q :: queues.filter fun q => q.fromP = id :=
        List.filter_cons_of_pos (p := fun q : APIQueue => decide (q.fromP = id)) (decide_eq_true hfrom)
      rw [hfilter, APIPipe.scanQueues, APIPipe.scanQueues, ih]
    · have hfilter : (q :: queues).filter (fun q => q.fromP = id) = queues.filter fun q => q.fromP = id :=
        List.filter_cons_of_neg (p := fun q : APIQueue => decide (q.fromP = id)) (by simpa using hfrom)
      rw [hfilter, APIPipe.scanQueues, if_neg hfrom, ih]

mutual

/-- Below a processor that is done the viewer finds its tree. -/
theorem Tellable.scan_eq (h : g.Tellable rt proc) : ∀ (t : ProcNode) {a fuel : ℕ}, g.Unfolds rt a t →
    g.Done proc pipe.queues a →
    (∀ b, Relation.ReflTransGen g.Edge a b → pipe.processors.get? (proc b).id = some (proc b)) → depth t ≤ fuel →
    pipe.scan fuel (proc a).id = some (.ok (ProcNode.drawnAll t.children))
  | .node p children, a, fuel, hunfolds, hdone, hprocs, hdepth => by
      cases fuel with
      | zero =>
        rw [depth] at hdepth
        omega
      | succ fuel =>
        rw [depth] at hdepth
        have hwritten : pipe.queues.values.filter (fun q => q.fromP = (proc a).id) = _ := hdone a .refl
        rw [APIPipe.scan, scanQueues_filter, hwritten]
        exact h.scanQueues_eq children hunfolds.2 (fun b hedge d hd => hdone d (hd.head hedge))
          (fun b hedge d hd => hprocs d (hd.head hedge)) (by omega)

theorem Tellable.scanQueues_eq (h : g.Tellable rt proc) : ∀ (ts : List ProcNode) {bs : List ℕ} {a fuel : ℕ},
    g.UnfoldsAll rt bs ts → (∀ b ∈ bs, g.Done proc pipe.queues b) →
    (∀ b ∈ bs, ∀ d, Relation.ReflTransGen g.Edge b d → pipe.processors.get? (proc d).id = some (proc d)) →
    depthAll ts ≤ fuel →
    pipe.scanQueues (pipe.scan fuel) (proc a).id (bs.map fun b => APIPipe.childQueue (proc a) (proc b)) =
      some (.ok (ProcNode.drawnAll ts))
  | [], bs, a, fuel, hunfolds, hdone, hprocs, hdepth => by
      cases bs with
      | nil => rfl
      | cons b bs => exact hunfolds.elim
  | t :: ts, bs, a, fuel, hunfolds, hdone, hprocs, hdepth => by
      cases bs with
      | nil => exact hunfolds.elim
      | cons b bs =>
        rw [List.forall_mem_cons] at hdone hprocs
        rw [depthAll] at hdepth
        have hproc : t.proc = proc b := Except.ok.inj (hunfolds.1.proc_eq.symm.trans (h.defs b))
        have hchild : pipe.processors.get? (APIPipe.childQueue (proc a) (proc b)).toP = some (proc b) := hprocs.1 b .refl
        have hbelow := h.scan_eq t hunfolds.1 hdone.1 hprocs.1 (le_trans (le_max_left _ _) hdepth)
        have hrest := h.scanQueues_eq ts (a := a) hunfolds.2 hdone.2 hprocs.2 (le_trans (le_max_right _ _) hdepth)
        have hfrom : (APIPipe.childQueue (proc a) (proc b)).fromP = (proc a).id := rfl
        rw [List.map_cons, APIPipe.scanQueues, if_pos hfrom, hchild]
        dsimp only
        rw [hbelow, hrest, ← hproc]
        cases t
        rfl

end

end Scan

/-! ## The tree and the entries -/

section Viewed

variable {g : ProcessorGraph} {rt : PyRuntime} {name : String} {interpreter : Option String} {events : List BuildEvent}

/-- The viewer draws the pipe as it was declared: the tree that it rebuilds from the definition has each processor
once for each path to it, and the children in the order in which they were added. -/
theorem treeData_eq (hbuilt : runFrom (buildStep rt) (ofPipe name interpreter) events = some g)
    (hacyclic : ∀ a, g.Reaches a → ¬ Relation.TransGen g.Edge a a) (hnames : g.FreeNames) (hids : g.DistinctIds rt) :
    ∃ pipe t, (∃ enough, ∀ fuel ≥ enough, g.pipeDef rt fuel = some (.ok pipe)) ∧ g.Unfolds rt 0 t ∧
      ∃ enough, ∀ fuel ≥ enough,
        pipe.treeData fuel = some (.ok (.node pipe.id 10 "red" (ProcNode.drawnAll t.children))) := by
  obtain ⟨proc, h⟩ := tellable_of_run hbuilt hacyclic hnames hids
  obtain ⟨t, ht⟩ := h.built.exists_unfolds hacyclic
  have hsound : g.Sound rt (APIPipe.bare t.proc) :=
    ⟨fun item hitem => absurd hitem List.not_mem_nil, fun item hitem => absurd hitem List.not_mem_nil⟩
  have hdone : g.Done proc (APIPipe.pipeDef t).queues 0 :=
    (h.done_mapProc t ht .refl hsound fun _ _ => Or.inl rfl).1
  have hprocs : ∀ b, g.Reaches b → (APIPipe.pipeDef t).processors.get? (proc b).id = some (proc b) := by
    intro b hb
    have hsound' : g.Sound rt (APIPipe.pipeDef t) := h.built.sound_mapProc t hsound .refl ht
    apply Dict.get?_of_forall_entries _ hsound'.processors _ ((h.built.has_mapProc t ht hb).processor _ (h.defs b))
    rintro p ⟨a, ha, hp, hid⟩
    obtain rfl := Except.ok.inj (hp.symm.trans (h.defs a))
    rw [h.eq_of_id ha hb hid]
  have hroot : (APIPipe.pipeDef t).id = (proc 0).id := by
    rw [APIPipe.pipeDef, (APIPipe.mapProc_frame (APIPipe.bare t.proc) t).1]
    exact congrArg APIProcessor.id (Except.ok.inj (ht.proc_eq.symm.trans (h.defs 0)))
  refine ⟨APIPipe.pipeDef t, t, ⟨depth t, fun fuel hfuel => h.built.pipeDef_of_unfolds ht hfuel⟩, ht, depth t, ?_⟩
  intro fuel hfuel
  rw [APIPipe.treeData, hroot, h.scan_eq t ht hdone hprocs hfuel]

theorem treeData_eq_shared : ∃ pipe t, (∃ enough, ∀ fuel ≥ enough, shared.pipeDef plainRuntime fuel = some (.ok pipe)) ∧
    shared.Unfolds plainRuntime 0 t ∧ ∃ enough, ∀ fuel ≥ enough,
      pipe.treeData fuel = some (.ok (.node pipe.id 10 "red" (ProcNode.drawnAll t.children))) :=
  treeData_eq shared_built (fun _ => shared_acyclic) shared_freeNames shared_distinctIds

/-- A list without repetitions in which one element has a property. -/
private theorem filter_eq_singleton {α : Type} {xs : List α} {x : α} {p : α → Bool} (hnodup : xs.Nodup) (hx : x ∈ xs)
    (hp : ∀ y ∈ xs, p y = true ↔ y = x) : xs.filter p = [x] := by
  rw [← List.perm_singleton, List.perm_ext_iff_of_nodup (hnodup.filter p) (List.nodup_singleton x)]
  intro y
  rw [List.mem_filter, List.mem_singleton]
  constructor
  · exact fun h => (hp y h.1).mp h.2
  · rintro rfl
    exact ⟨hx, (hp _ hx).mpr rfl⟩

/-- The one processor that the viewer finds no queue into is the pipe itself. -/
theorem entryProcs_eq (hbuilt : runFrom (buildStep rt) (ofPipe name interpreter) events = some g)
    (hacyclic : ∀ a, g.Reaches a → ¬ Relation.TransGen g.Edge a a) (hnames : g.FreeNames) (hids : g.DistinctIds rt) :
    ∃ pipe, (∃ enough, ∀ fuel ≥ enough, g.pipeDef rt fuel = some (.ok pipe)) ∧ pipe.entryProcs = [pipe.root] := by
  obtain ⟨proc, h⟩ := tellable_of_run hbuilt hacyclic hnames hids
  obtain ⟨t, ht⟩ := h.built.exists_unfolds hacyclic
  have hsound : g.Sound rt (APIPipe.pipeDef t) := by
    apply h.built.sound_mapProc t _ .refl ht
    exact ⟨fun item hitem => absurd hitem List.not_mem_nil, fun item hitem => absurd hitem List.not_mem_nil⟩
  have hroot : (APIPipe.pipeDef t).root = proc 0 := by
    rw [APIPipe.pipeDef, (APIPipe.mapProc_frame (APIPipe.bare t.proc) t).2.1]
    exact Except.ok.inj (ht.proc_eq.symm.trans (h.defs 0))
  -- an entry is that of a processor, and a queue leads to every processor that is a child
  have hentry : ∀ item ∈ (APIPipe.pipeDef t).processors.entries,
      (¬ ∃ q ∈ (APIPipe.pipeDef t).queues.values, q.toP = item.1) ↔ item = ((proc 0).id, proc 0) := by
    rintro ⟨key, p⟩ hitem
    obtain ⟨a, ha, hp, hid⟩ := hsound.processors _ hitem
    obtain rfl : p = proc a := Except.ok.inj (hp.symm.trans (h.defs a))
    obtain rfl : (proc a).id = key := hid
    constructor
    · intro hnone
      rcases Relation.ReflTransGen.cases_tail ha with rfl | ⟨b, hb, hedge⟩
      · rfl
      · have hq := queueDef_eq_ok_iff.mp (h.built.queueDef_eq (h.defs b) (h.defs a))
        exact absurd ⟨_, (h.built.mem_queues_iff ht hnames hids).mpr ⟨b, a, hb, hedge, hq⟩, rfl⟩ hnone
    · rintro heq ⟨q, hq, hto⟩
      obtain ⟨b, c, hb, hedge, hqueue⟩ := (h.built.mem_queues_iff ht hnames hids).mp hq
      have hid : (proc c).id = (proc 0).id := by
        have hc := hqueue.toP_eq
        rw [hto, congrArg Prod.fst heq] at hc
        exact Except.ok.inj ((processorDef_eq_ok_iff.mp (h.defs c)).1.symm.trans hc)
      obtain rfl := h.eq_of_id (hb.tail hedge) .refl hid
      exact hacyclic 0 .refl (Relation.TransGen.tail' hb hedge)
  have hmem : ((proc 0).id, proc 0) ∈ (APIPipe.pipeDef t).processors.entries := by
    obtain ⟨⟨key, p⟩, hitem, hkey⟩ := List.mem_map.mp ((h.built.has_mapProc t ht .refl).processor _ (h.defs 0))
    obtain ⟨a, ha, hp, hid⟩ := hsound.processors _ hitem
    obtain rfl : p = proc a := Except.ok.inj (hp.symm.trans (h.defs a))
    obtain rfl : key = (proc 0).id := hkey
    obtain rfl := h.eq_of_id ha .refl hid
    exact hitem
  refine ⟨APIPipe.pipeDef t, ⟨depth t, fun fuel hfuel => h.built.pipeDef_of_unfolds ht hfuel⟩, ?_⟩
  have hnodup : (APIPipe.pipeDef t).processors.entries.Nodup := (APIPipe.pipeDef t).processors.nodup.of_map
  rw [APIPipe.entryProcs, filter_eq_singleton hnodup hmem, hroot]
  · rfl
  · intro item hitem
    rw [decide_eq_true_eq]
    exact hentry item hitem

theorem entryProcs_eq_shared : ∃ pipe, (∃ enough, ∀ fuel ≥ enough, shared.pipeDef plainRuntime fuel = some (.ok pipe)) ∧
    pipe.entryProcs = [pipe.root] :=
  entryProcs_eq shared_built (fun _ => shared_acyclic) shared_freeNames shared_distinctIds

end Viewed

end ProcessorGraph

end Upipe
