import Mathlib.Data.Fintype.EquivFin
import Mathlib.Order.Interval.Finset.Nat
import Upipe.Common.Runs
import Upipe.Entities.Worker.Identity
import Upipe.Node.Manager.Isolation

/-!
# The definition of a pipe

A pipe is declared by linking `Processor` objects with `add`; an object can be below several others. `pipe_def` walks
down from the pipe and visits such an object once for each path to it, so that its walk is the one over the tree of
all paths (`mapProc_of_unfolds`). What it writes on a second visit is what it has written on the first.
-/

namespace Upipe

open Upipe.Common

/-! ## Acyclic relations -/

/-- What passes from the successors to an element holds of a whole finite part without cycles. -/
theorem acyclic_induction {α : Type*} {r : α → α → Prop} {s : Set α} (hfin : s.Finite)
    (hclosed : ∀ a ∈ s, ∀ b, r a b → b ∈ s) (hacyclic : ∀ a ∈ s, ¬ Relation.TransGen r a a) {Q : α → Prop}
    (hstep : ∀ a ∈ s, (∀ b, r a b → Q b) → Q a) : ∀ a ∈ s, Q a := by
  have : Finite s := hfin.to_subtype
  let below (y x : s) : Prop := Relation.TransGen r x.1 y.1
  have : IsTrans s below := ⟨fun _ _ _ hxy hyz => hyz.trans hxy⟩
  have : Std.Irrefl below := ⟨fun x => hacyclic x.1 x.2⟩
  have hwf : WellFounded below := Finite.wellFounded_of_trans_of_irrefl below
  have hall : ∀ x : s, Q x.1 := by
    intro x
    induction x using hwf.induction with
    | h x ih =>
      apply hstep x.1 x.2
      intro b hedge
      exact ih ⟨b, hclosed x.1 x.2 b hedge⟩ (.single hedge)
  exact fun a ha => hall ⟨a, ha⟩

/-! ## Processor objects -/

/-- The arguments of `Processor`, with the entry, the function and the interpreter as `__init__` leaves them. -/
structure ProcessorArgs extends Processor where
  entry : Option String := none
  function : Option String := none
  interpreter : Option String := none
  settings : APIProcSettings := {}

/-- A `Processor` object. Its children are references. -/
structure ProcessorObject extends ProcessorArgs where
  inputBufferSize : ℤ
  children : List ℕ

/-- `__init__`. -/
def ProcessorObject.init (args : ProcessorArgs) : ProcessorObject where
  toProcessorArgs := args
  inputBufferSize := args.settings.inputBufferSize
  children := []

/-- The objects of a script. Reference 0 is the pipe, and `count` references are taken. -/
structure ProcessorGraph where
  object : ℕ → ProcessorObject
  count : ℕ

variable (rt : PyRuntime)

/-- `processor_def`. -/
def ProcessorArgs.processorDef (p : ProcessorArgs) : Except PyError APIProcessor := do
  let id ← p.id rt
  pure
    { id := id
      name := p.name
      entry := p.entry
      function := p.function
      interpreter := p.interpreter
      settings := p.settings
      config := p.config }

namespace ProcessorGraph

/-- `Pipe(name)`. Without a configuration `Processor.id` is the name, as `Pipe.id` is. -/
def ofPipe (name : String) (interpreter : Option String) : ProcessorGraph where
  object _ := .init { name := name, config := .dict [], interpreter := interpreter }
  count := 1

variable (g : ProcessorGraph)

/-- `get_child`. -/
def getChild (a : ℕ) (name : String) : Option ℕ :=
  (g.object a).children.find? fun b => (g.object b).name = name

/-- `add`. A child under a name that is taken is refused. -/
def add (a b : ℕ) : ProcessorGraph :=
  match g.getChild a (g.object b).name with
  | some _ => g
  | none =>
      let p := { g.object a with children := (g.object a).children ++ [b] }
      { g with object := Function.update g.object a p }

/-- `Processor(..)`. -/
def create (args : ProcessorArgs) : ProcessorGraph where
  object := Function.update g.object g.count (.init args)
  count := g.count + 1

/-- What a script does to declare a pipe. -/
inductive BuildEvent where
  | create (args : ProcessorArgs)
  | add (processor child : ℕ)

/-- One call. A constructor whose configuration has no text raises. -/
def buildStep (g : ProcessorGraph) : BuildEvent → Option ProcessorGraph
  | .create args =>
      match args.processorDef rt with
      | .ok _ => some (g.create args)
      | .error _ => some g
  | .add a b => if a < g.count ∧ b < g.count then some (g.add a b) else none

/-! ## The walk -/

/-- The queue definition that `map_proc` makes for a child. -/
def queueDef (a b : ℕ) : Except PyError APIQueue := do
  let processorId ← (g.object a).id rt
  let childId ← (g.object b).id rt
  let childDef ← (g.object b).processorDef rt
  pure
    { id := processorId ++ "->" ++ childId
      name := processorId ++ "->" ++ childId
      fromP := processorId
      toP := childId
      size := (g.object b).inputBufferSize
      host := if childDef.settings.host = some "" then none else childDef.settings.host }

/-- The loop of `map_proc` over the children, each of which `visit` writes into the definition. -/
def mapChildren (visit : ℕ → APIPipe → Option (Except PyError APIPipe)) (a : ℕ) :
    List ℕ → APIPipe → Option (Except PyError APIPipe)
  | [], pipe => some (.ok pipe)
  | b :: children, pipe =>
      match g.queueDef rt a b with
      | .error e => some (.error e)
      | .ok q =>
          match visit b { pipe with queues := pipe.queues.set q.id q } with
          | some (.ok pipe) => mapChildren visit a children pipe
          | stopped => stopped

/-- `map_proc`, with at most `fuel` calls inside each other. `none` is a recursion that goes deeper. -/
def mapProc : ℕ → ℕ → APIPipe → Option (Except PyError APIPipe)
  | 0, _, _ => none
  | fuel + 1, a, pipe =>
      match (g.object a).processorDef rt with
      | .error e => some (.error e)
      | .ok proc =>
          g.mapChildren rt (mapProc fuel) a (g.object a).children
            { pipe with processors := pipe.processors.set proc.id proc }

/-- `pipe_def`. -/
def pipeDef (fuel : ℕ) : Option (Except PyError APIPipe) :=
  match (g.object 0).processorDef rt with
  | .error e => some (.error e)
  | .ok root =>
      g.mapProc rt fuel 0
        { id := (g.object 0).name
          name := (g.object 0).name
          root := root
          sink :=
            { id := sinkQueueId
              name := "pipe_sink_q"
              fromP := "*"
              toP := root.id
              size := (g.object 0).inputBufferSize } }

/-! ## The declared graph -/

/-- `b` was added to `a`. -/
def Edge (a b : ℕ) : Prop := b ∈ (g.object a).children

/-- The processor is the pipe or below it. -/
def Reaches (a : ℕ) : Prop := Relation.ReflTransGen g.Edge 0 a

/-- No name has an arrow in it. -/
def FreeNames : Prop := ∀ a, g.Reaches a → FreeOfArrow (g.object a).name

/-- No two processors have one id. -/
def DistinctIds : Prop :=
  ∀ a b id, g.Reaches a → g.Reaches b → (g.object a).id rt = .ok id → (g.object b).id rt = .ok id → a = b

/-- The queue of an edge: its ends are the ids of the two processors, the buffer size and the host are the child's. -/
structure IsQueueOf (a b : ℕ) (q : APIQueue) : Prop where
  fromP_eq : (g.object a).id rt = .ok q.fromP
  toP_eq : (g.object b).id rt = .ok q.toP
  id_eq : q.id = q.fromP ++ "->" ++ q.toP
  name_eq : q.name = q.id
  size_eq : q.size = (g.object b).inputBufferSize
  host_eq : q.host = if (g.object b).settings.host = some "" then none else (g.object b).settings.host

/-- The definition has the processors that can be reached from the pipe, under their ids, and one queue for each edge
between them. -/
structure IsDeclared (pipe : APIPipe) : Prop where
  root : (g.object 0).processorDef rt = .ok pipe.root
  processors : ∀ id proc, pipe.processors.get? id = some proc ↔
    ∃ a, g.Reaches a ∧ (g.object a).processorDef rt = .ok proc ∧ proc.id = id
  exists_processor : ∀ a, g.Reaches a → ∃ proc, (g.object a).processorDef rt = .ok proc
  queues : ∀ id q, pipe.queues.get? id = some q ↔
    ∃ a b, g.Reaches a ∧ g.Edge a b ∧ g.IsQueueOf rt a b q ∧ q.id = id
  exists_queue : ∀ a b, g.Reaches a → g.Edge a b → ∃ q, g.IsQueueOf rt a b q
  one_queue : ∀ {a b a' b' q q'}, g.Reaches a → g.Edge a b → g.IsQueueOf rt a b q → g.Reaches a' → g.Edge a' b' →
    g.IsQueueOf rt a' b' q' → q.id = q'.id → a = a' ∧ b = b'

/-! ## What a script builds -/

/-- What every script keeps. -/
structure WellBuilt : Prop where
  count_pos : 0 < g.count
  pipe_config : (g.object 0).config = .dict []
  children_lt : ∀ a, ∀ b ∈ (g.object a).children, b < g.count
  defined : ∀ a, ∃ proc, (g.object a).processorDef rt = .ok proc
  buffer_eq : ∀ a, (g.object a).inputBufferSize = (g.object a).settings.inputBufferSize

variable {rt g}

/-- `add` changes nothing about a processor but its children. -/
theorem object_add (a b c : ℕ) : ((g.add a b).object c).toProcessorArgs = (g.object c).toProcessorArgs ∧
    ((g.add a b).object c).inputBufferSize = (g.object c).inputBufferSize ∧
      ∀ d ∈ ((g.add a b).object c).children, d ∈ (g.object c).children ∨ d = b := by
  unfold add
  cases g.getChild a (g.object b).name with
  | some _ => exact ⟨rfl, rfl, fun d hd => Or.inl hd⟩
  | none =>
    dsimp only
    by_cases hc : c = a
    · subst hc
      rw [Function.update_self]
      refine ⟨rfl, rfl, fun d hd => ?_⟩
      exact (List.mem_append.mp hd).imp_right List.mem_singleton.mp
    · rw [Function.update_of_ne hc]
      exact ⟨rfl, rfl, fun d hd => Or.inl hd⟩

theorem count_add (a b : ℕ) : (g.add a b).count = g.count := by
  unfold add
  split
  · rfl
  · rfl

theorem wellBuilt_ofPipe (name : String) (interpreter : Option String) : (ofPipe name interpreter).WellBuilt rt where
  count_pos := Nat.one_pos
  pipe_config := rfl
  children_lt _ _ hb := absurd hb List.not_mem_nil
  defined _ := ⟨_, rfl⟩
  buffer_eq _ := rfl

theorem WellBuilt.create (h : g.WellBuilt rt) {args : ProcessorArgs} {proc : APIProcessor}
    (hargs : args.processorDef rt = .ok proc) : (g.create args).WellBuilt rt := by
  have hobject : ∀ a, (g.create args).object a = .init args ∨ (g.create args).object a = g.object a := by
    intro a
    by_cases ha : a = g.count
    · subst ha
      exact Or.inl (Function.update_self ..)
    · exact Or.inr (Function.update_of_ne ha ..)
  have hpipe : (g.create args).object 0 = g.object 0 := Function.update_of_ne (Nat.ne_of_lt h.count_pos) ..
  refine { count_pos := Nat.succ_pos _, pipe_config := ?_, children_lt := ?_, defined := ?_, buffer_eq := ?_ }
  · rw [hpipe]
    exact h.pipe_config
  · intro a b hb
    rcases hobject a with heq | heq
    · rw [heq] at hb
      exact absurd hb List.not_mem_nil
    · rw [heq] at hb
      exact Nat.lt_succ_of_lt (h.children_lt a b hb)
  · intro a
    rcases hobject a with heq | heq
    · rw [heq]
      exact ⟨proc, hargs⟩
    · rw [heq]
      exact h.defined a
  · intro a
    rcases hobject a with heq | heq
    · rw [heq]
      rfl
    · rw [heq]
      exact h.buffer_eq a

theorem WellBuilt.add (h : g.WellBuilt rt) {a b : ℕ} (hb : b < g.count) : (g.add a b).WellBuilt rt := by
  refine { count_pos := ?_, pipe_config := ?_, children_lt := ?_, defined := ?_, buffer_eq := ?_ }
  · rw [count_add]
    exact h.count_pos
  · rw [(object_add a b 0).1]
    exact h.pipe_config
  · intro c d hd
    rw [count_add]
    rcases (object_add a b c).2.2 d hd with hd | rfl
    · exact h.children_lt c d hd
    · exact hb
  · intro c
    rw [(object_add a b c).1]
    exact h.defined c
  · intro c
    rw [(object_add a b c).2.1, (object_add a b c).1]
    exact h.buffer_eq c

theorem WellBuilt.step {g' : ProcessorGraph} (h : g.WellBuilt rt) {event : BuildEvent}
    (hstep : buildStep rt g event = some g') : g'.WellBuilt rt := by
  cases event with
  | create args =>
    rw [buildStep] at hstep
    cases hargs : args.processorDef rt with
    | ok proc =>
      rw [hargs] at hstep
      obtain rfl := Option.some.inj hstep
      exact h.create hargs
    | error e =>
      rw [hargs] at hstep
      obtain rfl := Option.some.inj hstep
      exact h
  | add a b =>
    rw [buildStep] at hstep
    split at hstep
    · rename_i hlt
      obtain rfl := Option.some.inj hstep
      exact h.add hlt.2
    · cases hstep

theorem wellBuilt_of_run {name : String} {interpreter : Option String} {events : List BuildEvent}
    (hrun : runFrom (buildStep rt) (ofPipe name interpreter) events = some g) : g.WellBuilt rt :=
  runFrom_invariant (fun _ _ _ h hstep => h.step hstep) (wellBuilt_ofPipe name interpreter) hrun

/-! ## Ids -/

/-- An id is the name, or the name with a digest behind it. -/
theorem entityId_cases {name id : String} {config : PyVal} (h : entityId rt name config = .ok id) :
    id = name ∨ ∃ text, id = name ++ ":" ++ md5 text := by
  unfold entityId Upipe.configHash at h
  simp only [except_bind_eq_ok_iff] at h
  obtain ⟨hash, ⟨size, -, hhash⟩, h⟩ := h
  by_cases hempty : size = 0
  · rw [if_pos hempty] at hhash
    obtain rfl := except_pure_eq_ok_iff.mp hhash
    exact Or.inl (except_pure_eq_ok_iff.mp h)
  · rw [if_neg hempty] at hhash
    obtain ⟨text, -, rfl⟩ := except_bind_pure_eq_ok_iff.mp hhash
    have hid := except_pure_eq_ok_iff.mp h
    split at hid
    · exact Or.inl hid
    · exact Or.inr ⟨_, hid⟩

/-- An id has no arrow in it, when the name has none. -/
theorem freeOfArrow_entityId {name id : String} {config : PyVal} (hname : FreeOfArrow name)
    (h : entityId rt name config = .ok id) : FreeOfArrow id := by
  rcases entityId_cases h with rfl | ⟨text, rfl⟩
  · exact hname
  rw [String.append_assoc]
  refine hname.append ?_
  rw [String.toList_append, List.mem_append]
  rintro (hcolon | hdigest)
  · exact absurd hcolon (by decide)
  · obtain ⟨n, hn, hdigit⟩ := mem_md5 hdigest
    have hdigits : ∀ n < 16, '>' ≠ n.digitChar := by decide
    exact hdigits n hn hdigit

theorem processorDef_eq_ok_iff {p : ProcessorArgs} {proc : APIProcessor} : p.processorDef rt = .ok proc ↔
    p.id rt = .ok proc.id ∧ proc = APIProcessor.mk proc.id p.name p.entry p.function p.interpreter p.settings p.config := by
  rw [ProcessorArgs.processorDef, except_bind_pure_eq_ok_iff]
  constructor
  · rintro ⟨id, hid, rfl⟩
    exact ⟨hid, rfl⟩
  · rintro ⟨hid, heq⟩
    exact ⟨_, hid, heq⟩

/-- What `map_proc` makes for a child is the queue of the edge. -/
theorem queueDef_eq_ok_iff {a b : ℕ} {q : APIQueue} : g.queueDef rt a b = .ok q ↔ g.IsQueueOf rt a b q := by
  unfold queueDef
  simp only [except_bind_eq_ok_iff, except_pure_eq_ok_iff]
  constructor
  · rintro ⟨aid, haid, bid, hbid, child, hchild, rfl⟩
    have hsettings := congrArg APIProcessor.settings (processorDef_eq_ok_iff.mp hchild).2
    exact ⟨haid, hbid, rfl, rfl, rfl, by rw [hsettings]⟩
  · rintro ⟨haid, hbid, hid, hname, hsize, hhost⟩
    refine ⟨_, haid, _, hbid, _, except_bind_pure_eq_ok_iff.mpr ⟨_, hbid, rfl⟩, ?_⟩
    cases q
    simp only at hid hname hsize hhost
    rw [hid] at hname
    rw [hid, hname, hsize, hhost]

/-- It is also the one between the two definitions. -/
theorem WellBuilt.queueDef_eq (h : g.WellBuilt rt) {a b : ℕ} {proc child : APIProcessor}
    (ha : (g.object a).processorDef rt = .ok proc) (hb : (g.object b).processorDef rt = .ok child) :
    g.queueDef rt a b = .ok (APIPipe.childQueue proc child) := by
  have hsettings := congrArg APIProcessor.settings (processorDef_eq_ok_iff.mp hb).2
  rw [queueDef_eq_ok_iff]
  refine ⟨(processorDef_eq_ok_iff.mp ha).1, (processorDef_eq_ok_iff.mp hb).1, rfl, rfl, ?_, ?_⟩
  · rw [h.buffer_eq, APIPipe.childQueue, hsettings]
  · rw [APIPipe.childQueue, hsettings]

/-! ## The tree of all paths -/

variable (rt g)

mutual

/-- The tree below a processor, a processor once for each path to it. -/
def Unfolds : ℕ → ProcNode → Prop
  | a, .node proc children => (g.object a).processorDef rt = .ok proc ∧ UnfoldsAll (g.object a).children children

def UnfoldsAll : List ℕ → List ProcNode → Prop
  | [], [] => True
  | b :: bs, t :: ts => Unfolds b t ∧ UnfoldsAll bs ts
  | [], _ :: _ => False
  | _ :: _, [] => False

end

variable {rt g}

theorem exists_unfoldsAll {bs : List ℕ} (h : ∀ b ∈ bs, ∃ t, g.Unfolds rt b t) : ∃ ts, g.UnfoldsAll rt bs ts := by
  induction bs with
  | nil => exact ⟨[], trivial⟩
  | cons b bs ih =>
    obtain ⟨⟨t, ht⟩, hrest⟩ := List.forall_mem_cons.mp h
    obtain ⟨ts, hts⟩ := ih hrest
    exact ⟨t :: ts, ht, hts⟩

theorem Reaches.lt (h : g.WellBuilt rt) {a : ℕ} (ha : g.Reaches a) : a < g.count := by
  cases ha with
  | refl => exact h.count_pos
  | tail _ hedge => exact h.children_lt _ _ hedge

/-- An acyclic graph has a tree. -/
theorem WellBuilt.exists_unfolds (h : g.WellBuilt rt) (hacyclic : ∀ a, g.Reaches a → ¬ Relation.TransGen g.Edge a a) :
    ∃ t, g.Unfolds rt 0 t := by
  have hfin : {a | g.Reaches a}.Finite := (Set.finite_lt_nat g.count).subset fun a ha => ha.lt h
  have hclosed : ∀ a ∈ {a | g.Reaches a}, ∀ b, g.Edge a b → b ∈ {a | g.Reaches a} := fun a ha b hedge => ha.tail hedge
  have hstep : ∀ a ∈ {a | g.Reaches a}, (∀ b, g.Edge a b → ∃ t, g.Unfolds rt b t) → ∃ t, g.Unfolds rt a t := by
    intro a _ hchildren
    obtain ⟨proc, hproc⟩ := h.defined a
    obtain ⟨ts, hts⟩ := exists_unfoldsAll hchildren
    exact ⟨.node proc ts, hproc, hts⟩
  exact acyclic_induction (Q := fun a => ∃ t, g.Unfolds rt a t) hfin hclosed hacyclic hstep 0 .refl

mutual

/-- The calls inside each other that a walk over the tree takes. -/
def depth : ProcNode → ℕ
  | .node _ children => depthAll children + 1

def depthAll : List ProcNode → ℕ
  | [] => 0
  | t :: ts => max (depth t) (depthAll ts)

end

theorem Unfolds.proc_eq {a : ℕ} : ∀ {t : ProcNode}, g.Unfolds rt a t → (g.object a).processorDef rt = .ok t.proc
  | .node _ _, h => h.1

mutual

/-- The walk over the objects is the one over the tree. -/
theorem WellBuilt.mapProc_of_unfolds (h : g.WellBuilt rt) : ∀ (t : ProcNode) {a fuel : ℕ} {pipe : APIPipe},
    g.Unfolds rt a t → depth t ≤ fuel → g.mapProc rt fuel a pipe = some (.ok (pipe.mapProc t))
  | .node proc children, a, fuel, pipe, hunfolds, hdepth => by
      cases fuel with
      | zero =>
        rw [depth] at hdepth
        omega
      | succ fuel =>
        rw [depth] at hdepth
        rw [mapProc, hunfolds.1, APIPipe.mapProc]
        exact h.mapChildren_of_unfolds children hunfolds.1 hunfolds.2 (by omega)

theorem WellBuilt.mapChildren_of_unfolds (h : g.WellBuilt rt) : ∀ (ts : List ProcNode) {bs : List ℕ} {a fuel : ℕ}
    {proc : APIProcessor} {pipe : APIPipe}, (g.object a).processorDef rt = .ok proc → g.UnfoldsAll rt bs ts →
    depthAll ts ≤ fuel → g.mapChildren rt (g.mapProc rt fuel) a bs pipe = some (.ok (pipe.mapChildren proc ts))
  | [], bs, a, fuel, proc, pipe, hproc, hunfolds, hdepth => by
      cases bs with
      | nil => rw [mapChildren, APIPipe.mapChildren]
      | cons b bs => exact hunfolds.elim
  | t :: ts, bs, a, fuel, proc, pipe, hproc, hunfolds, hdepth => by
      cases bs with
      | nil => exact hunfolds.elim
      | cons b bs =>
        obtain ⟨ht, hts⟩ := hunfolds
        rw [depthAll] at hdepth
        rw [mapChildren, h.queueDef_eq hproc ht.proc_eq]
        dsimp only
        rw [h.mapProc_of_unfolds t ht (by omega), APIPipe.mapChildren]
        exact h.mapChildren_of_unfolds ts hproc hts (by omega)

end

/-! ## What the walk writes -/

/-- The keys of the one definition are keys of the other. -/
def Grows (pipe pipe' : APIPipe) : Prop :=
  pipe.processors.keys ⊆ pipe'.processors.keys ∧ pipe.queues.keys ⊆ pipe'.queues.keys

mutual

/-- The walk takes no key away. -/
theorem grows_mapProc : ∀ (t : ProcNode) (pipe : APIPipe), Grows pipe (pipe.mapProc t)
  | .node proc children, pipe => by
      obtain ⟨hprocessors, hqueues⟩ :=
        grows_mapChildren children { pipe with processors := pipe.processors.set proc.id proc } proc
      exact ⟨fun key hkey => hprocessors (pipe.processors.mem_keys_set.mpr (Or.inr hkey)), hqueues⟩

theorem grows_mapChildren : ∀ (ts : List ProcNode) (pipe : APIPipe) (proc : APIProcessor),
    Grows pipe (pipe.mapChildren proc ts)
  | [], pipe, proc => ⟨fun _ hkey => hkey, fun _ hkey => hkey⟩
  | t :: ts, pipe, proc => by
      let q := APIPipe.childQueue proc t.proc
      obtain ⟨hprocessors, hqueues⟩ := grows_mapProc t { pipe with queues := pipe.queues.set q.id q }
      obtain ⟨hprocessors', hqueues'⟩ :=
        grows_mapChildren ts (APIPipe.mapProc { pipe with queues := pipe.queues.set q.id q } t) proc
      refine ⟨fun key hkey => hprocessors' (hprocessors hkey), fun key hkey => ?_⟩
      exact hqueues' (hqueues (pipe.queues.mem_keys_set.mpr (Or.inr hkey)))

end

variable (rt g)

/-- The definition of a processor below the pipe, under its id. -/
def DeclaredProcessor (id : String) (proc : APIProcessor) : Prop :=
  ∃ a, g.Reaches a ∧ (g.object a).processorDef rt = .ok proc ∧ proc.id = id

/-- The queue of an edge below the pipe, under its id. -/
def DeclaredQueue (id : String) (q : APIQueue) : Prop :=
  ∃ a b, g.Reaches a ∧ g.Edge a b ∧ g.IsQueueOf rt a b q ∧ q.id = id

/-- What the definition has is declared. -/
structure Sound (pipe : APIPipe) : Prop where
  processors : ∀ item ∈ pipe.processors.entries, g.DeclaredProcessor rt item.1 item.2
  queues : ∀ item ∈ pipe.queues.entries, g.DeclaredQueue rt item.1 item.2

/-- The definition has the processor and the queues to its children. -/
structure Has (pipe : APIPipe) (a : ℕ) : Prop where
  processor : ∀ proc, (g.object a).processorDef rt = .ok proc → proc.id ∈ pipe.processors.keys
  queues : ∀ b q, g.Edge a b → g.queueDef rt a b = .ok q → q.id ∈ pipe.queues.keys

variable {rt g}

theorem Has.mono {pipe pipe' : APIPipe} {a : ℕ} (h : g.Has rt pipe a) (hgrows : Grows pipe pipe') : g.Has rt pipe' a where
  processor proc hproc := hgrows.1 (h.processor proc hproc)
  queues b q hedge hq := hgrows.2 (h.queues b q hedge hq)

mutual

/-- The walk writes what is declared. -/
theorem WellBuilt.sound_mapProc (h : g.WellBuilt rt) : ∀ (t : ProcNode) {a : ℕ} {pipe : APIPipe},
    g.Sound rt pipe → g.Reaches a → g.Unfolds rt a t → g.Sound rt (pipe.mapProc t)
  | .node proc children, a, pipe, hsound, ha, hunfolds => by
      rw [APIPipe.mapProc]
      have hnew : g.DeclaredProcessor rt proc.id proc := ⟨a, ha, hunfolds.1, rfl⟩
      apply h.sound_mapChildren children _ ha hunfolds.1 hunfolds.2 fun b hb => hb
      exact ⟨pipe.processors.forall_entries_set hsound.processors hnew, hsound.queues⟩

theorem WellBuilt.sound_mapChildren (h : g.WellBuilt rt) : ∀ (ts : List ProcNode) {bs : List ℕ} {a : ℕ}
    {proc : APIProcessor} {pipe : APIPipe}, g.Sound rt pipe → g.Reaches a → (g.object a).processorDef rt = .ok proc →
    g.UnfoldsAll rt bs ts → (∀ b ∈ bs, g.Edge a b) → g.Sound rt (pipe.mapChildren proc ts)
  | [], bs, a, proc, pipe, hsound, ha, hproc, hunfolds, hedges => hsound
  | t :: ts, bs, a, proc, pipe, hsound, ha, hproc, hunfolds, hedges => by
      cases bs with
      | nil => exact hunfolds.elim
      | cons b bs =>
        obtain ⟨hedge, hedges⟩ := List.forall_mem_cons.mp hedges
        have hqueue : g.IsQueueOf rt a b (APIPipe.childQueue proc t.proc) :=
          queueDef_eq_ok_iff.mp (h.queueDef_eq hproc hunfolds.1.proc_eq)
        have hnew : g.DeclaredQueue rt (APIPipe.childQueue proc t.proc).id (APIPipe.childQueue proc t.proc) :=
          ⟨a, b, ha, hedge, hqueue, rfl⟩
        rw [APIPipe.mapChildren]
        apply h.sound_mapChildren ts _ ha hproc hunfolds.2 hedges
        apply h.sound_mapProc t _ (ha.tail hedge) hunfolds.1
        exact ⟨hsound.processors, pipe.queues.forall_entries_set hsound.queues hnew⟩

end

mutual

/-- The walk writes everything below a processor. -/
theorem WellBuilt.has_mapProc (h : g.WellBuilt rt) : ∀ (t : ProcNode) {a b : ℕ} {pipe : APIPipe},
    g.Unfolds rt a t → Relation.ReflTransGen g.Edge a b → g.Has rt (pipe.mapProc t) b
  | .node proc children, a, b, pipe, hunfolds, hab => by
      rw [APIPipe.mapProc]
      obtain ⟨hqueues, hbelow⟩ := h.has_mapChildren children hunfolds.1 hunfolds.2
      rcases hab.cases_head with rfl | ⟨c, hedge, hcb⟩
      · refine ⟨fun proc' hproc' => ?_, hqueues⟩
        obtain rfl := Except.ok.inj (hunfolds.1.symm.trans hproc')
        exact (grows_mapChildren _ _ _).1 (pipe.processors.mem_keys_set.mpr (Or.inl rfl))
      · exact hbelow c hedge b hcb

theorem WellBuilt.has_mapChildren (h : g.WellBuilt rt) : ∀ (ts : List ProcNode) {bs : List ℕ} {a : ℕ}
    {proc : APIProcessor} {pipe : APIPipe}, (g.object a).processorDef rt = .ok proc → g.UnfoldsAll rt bs ts →
    (∀ b q, b ∈ bs → g.queueDef rt a b = .ok q → q.id ∈ (pipe.mapChildren proc ts).queues.keys) ∧
      ∀ c ∈ bs, ∀ b, Relation.ReflTransGen g.Edge c b → g.Has rt (pipe.mapChildren proc ts) b
  | [], bs, a, proc, pipe, hproc, hunfolds => by
      cases bs with
      | nil => exact ⟨fun b q hb => absurd hb List.not_mem_nil, fun c hc => absurd hc List.not_mem_nil⟩
      | cons b bs => exact hunfolds.elim
  | t :: ts, bs, a, proc, pipe, hproc, hunfolds => by
      cases bs with
      | nil => exact hunfolds.elim
      | cons b bs =>
        obtain ⟨ht, hts⟩ := hunfolds
        rw [APIPipe.mapChildren]
        obtain ⟨hqueues, hbelow⟩ := h.has_mapChildren ts hproc hts
        refine ⟨fun c q hc hq => ?_, fun c hc d hcd => ?_⟩
        · rcases List.mem_cons.mp hc with rfl | hc
          · -- the queue was set before the child was visited
            obtain rfl := Except.ok.inj ((h.queueDef_eq hproc ht.proc_eq).symm.trans hq)
            apply (grows_mapChildren _ _ _).2
            apply (grows_mapProc _ _).2
            exact pipe.queues.mem_keys_set.mpr (Or.inl rfl)
          · exact hqueues c q hc hq
        · rcases List.mem_cons.mp hc with rfl | hc
          · exact (h.has_mapProc t ht hcd).mono (grows_mapChildren _ _ _)
          · exact hbelow c hc d hcd

end

/-! ## The definition -/

/-- The walk over the whole pipe starts from the definition that the tree's walk starts from. -/
theorem WellBuilt.pipeDef_of_unfolds (h : g.WellBuilt rt) {t : ProcNode} {fuel : ℕ} (ht : g.Unfolds rt 0 t)
    (hdepth : depth t ≤ fuel) : g.pipeDef rt fuel = some (.ok (APIPipe.pipeDef t)) := by
  have hid : (g.object 0).name = t.proc.id := by
    have hpipe : entityId rt (g.object 0).name (g.object 0).config = .ok t.proc.id :=
      (processorDef_eq_ok_iff.mp ht.proc_eq).1
    rw [h.pipe_config, entityId_empty] at hpipe
    exact Except.ok.inj hpipe
  have hsize : (g.object 0).inputBufferSize = t.proc.settings.inputBufferSize := by
    rw [h.buffer_eq, congrArg APIProcessor.settings (processorDef_eq_ok_iff.mp ht.proc_eq).2]
  rw [pipeDef, ht.proc_eq]
  dsimp only
  rw [h.mapProc_of_unfolds t ht hdepth, hid, hsize]
  rfl

/-- Queues under one id are queues of one edge. -/
theorem edge_of_id_eq (hnames : ∀ a, g.Reaches a → FreeOfArrow (g.object a).name)
    (hids : ∀ a b id, g.Reaches a → g.Reaches b → (g.object a).id rt = .ok id → (g.object b).id rt = .ok id → a = b)
    {a b a' b' : ℕ} {q q' : APIQueue} (ha : g.Reaches a) (hedge : g.Edge a b) (hq : g.IsQueueOf rt a b q)
    (ha' : g.Reaches a') (hedge' : g.Edge a' b') (hq' : g.IsQueueOf rt a' b' q') (hid : q.id = q'.id) :
    a = a' ∧ b = b' := by
  rw [hq.id_eq, hq'.id_eq] at hid
  have hfree : FreeOfArrow q.fromP := freeOfArrow_entityId (hnames a ha) hq.fromP_eq
  have hfree' : FreeOfArrow q'.fromP := freeOfArrow_entityId (hnames a' ha') hq'.fromP_eq
  obtain ⟨hfrom, hto⟩ := arrow_injective hfree hfree' hid
  refine ⟨hids a a' _ ha ha' hq.fromP_eq ?_, hids b b' _ (ha.tail hedge) (ha'.tail hedge') hq.toP_eq ?_⟩
  · rw [hfrom]
    exact hq'.fromP_eq
  · rw [hto]
    exact hq'.toP_eq

/-- The queues of the definition are those of the edges. -/
theorem WellBuilt.mem_queues_iff (h : g.WellBuilt rt) {t : ProcNode} (ht : g.Unfolds rt 0 t)
    (hnames : g.FreeNames) (hids : g.DistinctIds rt) {q : APIQueue} :
    q ∈ (APIPipe.pipeDef t).queues.values ↔ ∃ a b, g.Reaches a ∧ g.Edge a b ∧ g.IsQueueOf rt a b q := by
  have hsound : g.Sound rt (APIPipe.pipeDef t) := by
    apply h.sound_mapProc t _ .refl ht
    exact ⟨fun item hitem => absurd hitem List.not_mem_nil, fun item hitem => absurd hitem List.not_mem_nil⟩
  constructor
  · intro hq
    obtain ⟨⟨key, q⟩, hitem, rfl⟩ := List.mem_map.mp hq
    obtain ⟨a, b, ha, hedge, hqueue, -⟩ := hsound.queues _ hitem
    exact ⟨a, b, ha, hedge, hqueue⟩
  · rintro ⟨a, b, ha, hedge, hq⟩
    have hkey : q.id ∈ (APIPipe.pipeDef t).queues.keys :=
      (h.has_mapProc t ht ha).queues b q hedge (queueDef_eq_ok_iff.mpr hq)
    have hget : (APIPipe.pipeDef t).queues.get? q.id = some q := by
      apply Dict.get?_of_forall_entries _ hsound.queues _ hkey
      rintro q' ⟨a', b', ha', hedge', hq', hid⟩
      obtain ⟨rfl, rfl⟩ := edge_of_id_eq hnames hids ha' hedge' hq' ha hedge hq hid
      exact Except.ok.inj ((queueDef_eq_ok_iff.mpr hq').symm.trans (queueDef_eq_ok_iff.mpr hq))
    exact List.mem_map_of_mem (f := Prod.snd) ((Dict.get?_eq_some_iff _).mp hget)

theorem WellBuilt.mem_processors (h : g.WellBuilt rt) {t : ProcNode} (ht : g.Unfolds rt 0 t) {a : ℕ} {id : String}
    (ha : g.Reaches a) (hid : (g.object a).id rt = .ok id) : id ∈ (APIPipe.pipeDef t).processors.keys := by
  obtain ⟨proc, hproc⟩ := h.defined a
  obtain rfl := Except.ok.inj ((processorDef_eq_ok_iff.mp hproc).1.symm.trans hid)
  exact (h.has_mapProc t ht ha).processor proc hproc

/-- `pipe_def` of an acyclic graph ends, with the definition of exactly this graph. -/
theorem pipeDef_isDeclared {name : String} {interpreter : Option String} {events : List BuildEvent}
    (hbuilt : runFrom (buildStep rt) (ofPipe name interpreter) events = some g)
    (hacyclic : ∀ a, g.Reaches a → ¬ Relation.TransGen g.Edge a a)
    (hnames : ∀ a, g.Reaches a → FreeOfArrow (g.object a).name)
    (hids : ∀ a b id, g.Reaches a → g.Reaches b → (g.object a).id rt = .ok id → (g.object b).id rt = .ok id → a = b) :
    ∃ pipe, (∃ enough, ∀ fuel ≥ enough, g.pipeDef rt fuel = some (.ok pipe)) ∧ g.IsDeclared rt pipe := by
  have h : g.WellBuilt rt := wellBuilt_of_run hbuilt
  obtain ⟨t, ht⟩ := h.exists_unfolds hacyclic
  have hsound : g.Sound rt (APIPipe.pipeDef t) := by
    apply h.sound_mapProc t _ .refl ht
    exact ⟨fun item hitem => absurd hitem List.not_mem_nil, fun item hitem => absurd hitem List.not_mem_nil⟩
  have hhas : ∀ a, g.Reaches a → g.Has rt (APIPipe.pipeDef t) a := fun a ha => h.has_mapProc t ht ha
  have hroot : (APIPipe.pipeDef t).root = t.proc := (APIPipe.mapProc_frame (APIPipe.bare t.proc) t).2.1
  refine ⟨APIPipe.pipeDef t, ⟨depth t, fun fuel hfuel => h.pipeDef_of_unfolds ht hfuel⟩, ?_⟩
  refine
    { root := ?_, processors := ?_, exists_processor := fun a _ => h.defined a, queues := ?_, exists_queue := ?_
      one_queue := edge_of_id_eq hnames hids }
  · rw [hroot]
    exact ht.proc_eq
  -- every entry comes from an object of the graph, and no other object has its key
  · intro id proc
    constructor
    · intro hget
      exact hsound.processors _ ((APIPipe.pipeDef t).processors.get?_eq_some_iff.mp hget)
    · rintro ⟨a, ha, hproc, rfl⟩
      apply Dict.get?_of_forall_entries _ hsound.processors _ ((hhas a ha).processor proc hproc)
      rintro proc' ⟨a', ha', hproc', hid⟩
      obtain rfl : a' = a := by
        apply hids a' a proc.id ha' ha _ (processorDef_eq_ok_iff.mp hproc).1
        rw [← hid]
        exact (processorDef_eq_ok_iff.mp hproc').1
      exact Except.ok.inj (hproc'.symm.trans hproc)
  -- the name of a queue gives back its two ends, so an entry is the one of its own edge
  · intro id q
    constructor
    · intro hget
      exact hsound.queues _ ((APIPipe.pipeDef t).queues.get?_eq_some_iff.mp hget)
    · rintro ⟨a, b, ha, hedge, hq, rfl⟩
      apply Dict.get?_of_forall_entries _ hsound.queues _ ((hhas a ha).queues b q hedge (queueDef_eq_ok_iff.mpr hq))
      rintro q' ⟨a', b', ha', hedge', hq', hid⟩
      obtain ⟨rfl, rfl⟩ := edge_of_id_eq hnames hids ha' hedge' hq' ha hedge hq hid
      exact Except.ok.inj ((queueDef_eq_ok_iff.mpr hq').symm.trans (queueDef_eq_ok_iff.mpr hq))
  · intro a b _ _
    obtain ⟨proc, hproc⟩ := h.defined a
    obtain ⟨child, hchild⟩ := h.defined b
    exact ⟨_, queueDef_eq_ok_iff.mp (h.queueDef_eq hproc hchild)⟩

/-! ## A shared processor -/

/-- The pipe has `a` and `b` below it, and `b` is below `a` too. -/
def sharedScript : List BuildEvent :=
  [.create { name := "a", config := .dict [] }, .create { name := "b", config := .dict [] },
    .add 0 1, .add 0 2, .add 1 2]

/-- The objects of this script. -/
def shared : ProcessorGraph :=
  (runFrom (buildStep plainRuntime) (ofPipe "main" none) sharedScript).getD (ofPipe "main" none)

theorem shared_built : runFrom (buildStep plainRuntime) (ofPipe "main" none) sharedScript = some shared := rfl

theorem shared_acyclic {a : ℕ} (ha : shared.Reaches a) : ¬ Relation.TransGen shared.Edge a a := by
  have hbuilt : shared.WellBuilt plainRuntime := wellBuilt_of_run shared_built
  have hup : ∀ a < 3, ∀ b ∈ (shared.object a).children, a < b := by decide
  have hbelow : ∀ b, Relation.TransGen shared.Edge a b → a < b ∧ b < 3 := by
    intro b hab
    induction hab with
    | single hedge => exact ⟨hup _ (ha.lt hbuilt) _ hedge, hbuilt.children_lt _ _ hedge⟩
    | tail _ hedge ih => exact ⟨ih.1.trans (hup _ ih.2 _ hedge), hbuilt.children_lt _ _ hedge⟩
  exact fun hcycle => Nat.lt_irrefl a (hbelow a hcycle).1

theorem shared_freeNames : shared.FreeNames := by
  have hbuilt : shared.WellBuilt plainRuntime := wellBuilt_of_run shared_built
  have hnames : ∀ a < 3, FreeOfArrow (shared.object a).name := by decide +kernel
  exact fun a ha => hnames a (ha.lt hbuilt)

theorem shared_distinctIds : shared.DistinctIds plainRuntime := by
  have hbuilt : shared.WellBuilt plainRuntime := wellBuilt_of_run shared_built
  have hids : ∀ a < 3, ∀ b < 3, (shared.object a).id plainRuntime = (shared.object b).id plainRuntime → a = b := by
    decide +kernel
  exact fun a b id ha hb hida hidb => hids a (ha.lt hbuilt) b (hb.lt hbuilt) (hida.trans hidb.symm)

theorem pipeDef_isDeclared_shared : runFrom (buildStep plainRuntime) (ofPipe "main" none) sharedScript = some shared ∧
    ∃ pipe, (∃ enough, ∀ fuel ≥ enough, shared.pipeDef plainRuntime fuel = some (.ok pipe)) ∧
      shared.IsDeclared plainRuntime pipe := by
  have hbuilt : shared.WellBuilt plainRuntime := wellBuilt_of_run shared_built
  have hnames : ∀ a < 3, FreeOfArrow (shared.object a).name := by decide +kernel
  have hids : ∀ a < 3, ∀ b < 3, (shared.object a).id plainRuntime = (shared.object b).id plainRuntime → a = b := by
    decide +kernel
  refine ⟨shared_built, pipeDef_isDeclared shared_built (fun a => shared_acyclic) ?_ ?_⟩
  · exact fun a ha => hnames a (ha.lt hbuilt)
  · exact fun a b id ha hb hida hidb => hids a (ha.lt hbuilt) b (hb.lt hbuilt) (hida.trans hidb.symm)

end ProcessorGraph

end Upipe
