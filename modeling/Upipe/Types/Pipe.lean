import Mathlib.Logic.Relation
import Upipe.Common.Python
import Upipe.Types.Entities

/-!
# The drain order of a pipe

`drain_list` walks the pipe breadth first from its root, moving a processor to the end of the list each
time it is found again. `_get_processor_children` looks up the end of the queue that the walk comes from,
so that the only child it ever finds is the processor itself: the walk of a pipe with a queue that leaves
the root never ends (`drainLoop_of_leaves`).
-/

namespace Upipe

open Upipe.Common

namespace APIPipe

/-! ## The walk -/

/-- `self.processors[key]`. -/
def processor (p : APIPipe) (key : String) : Except PyError APIProcessor :=
  match p.processors.get? key with
  | some proc => .ok proc
  | none => .error ⟨.keyError, key⟩

/-- `_get_processor_children`. -/
def getProcessorChildren (p : APIPipe) (proc : APIProcessor) : Except PyError (List APIProcessor) :=
  (p.queues.values.filter fun q => q.fromP = proc.id).mapM fun q => p.processor q.fromP

/-- The loop of `drain_list` over the children of one processor. -/
def visitChildren (root : APIProcessor) :
    List APIProcessor → List APIProcessor → List APIProcessor → List APIProcessor × List APIProcessor
  | [], queue, drain => (queue, drain)
  | child :: children, queue, drain =>
      let drain := if child ∈ drain then drain.erase child else drain
      let drain := if child ≠ root then drain ++ [child] else drain
      visitChildren root children (queue ++ [child]) drain

/-- The loop of `drain_list` while the queue is not empty, for at most `fuel` turns. `none` is a loop
that is still running. -/
def drainLoop (p : APIPipe) :
    ℕ → List APIProcessor → List APIProcessor → Option (Except PyError (List APIProcessor))
  | _, [], drain => some (.ok drain)
  | 0, _ :: _, _ => none
  | fuel + 1, next :: queue, drain =>
      match p.getProcessorChildren next with
      | .error e => some (.error e)
      | .ok children =>
          let (queue, drain) := visitChildren p.root children queue drain
          drainLoop p fuel queue drain

/-- `drain_list`. -/
def drainList (p : APIPipe) (fuel : ℕ) : Option (Except PyError (List APIProcessor)) :=
  p.drainLoop fuel [p.root] []

/-! ## Pipes as graphs -/

/-- A queue leads from the one processor to the other. -/
def Feeds (p : APIPipe) (a b : String) : Prop := ∃ q ∈ p.queues.values, q.fromP = a ∧ q.toP = b

/-- The queues of the pipe form an acyclic graph over its processors, all of them reachable from the
root. -/
structure IsDag (p : APIPipe) : Prop where
  keyed : ∀ item ∈ p.processors.entries, item.2.id = item.1
  root_mem : p.processors.get? p.root.id = some p.root
  ends_mem : ∀ q ∈ p.queues.values, q.fromP ∈ p.processors.keys ∧ q.toP ∈ p.processors.keys
  acyclic : ∀ a, ¬ Relation.TransGen p.Feeds a a
  reachable : ∀ a ∈ p.processors.keys, Relation.ReflTransGen p.Feeds p.root.id a

/-- Every processor but the root, once each, and none before a processor that feeds it. -/
structure DrainOrder (p : APIPipe) (order : List APIProcessor) : Prop where
  nodup : order.Nodup
  mem_iff : ∀ proc, proc ∈ order ↔ proc ∈ p.processors.values ∧ proc ≠ p.root
  upstream_first : order.Pairwise fun a b => ¬ p.Feeds b.id a.id

/-! ## A pipe without queues out of its root -/

variable {p : APIPipe}

theorem getProcessorChildren_eq_nil {proc : APIProcessor}
    (h : ∀ q ∈ p.queues.values, q.fromP ≠ proc.id) : p.getProcessorChildren proc = .ok [] := by
  have hnone : (p.queues.values.filter fun q => q.fromP = proc.id) = [] := by
    rw [List.filter_eq_nil_iff]
    intro q hq hfrom
    exact h q hq (of_decide_eq_true hfrom)
  rw [getProcessorChildren, hnone]
  rfl

/-- Such a pipe has no processor but its root. -/
theorem IsDag.eq_root (h : p.IsDag) (hroot : ∀ q ∈ p.queues.values, q.fromP ≠ p.root.id)
    {proc : APIProcessor} (hproc : proc ∈ p.processors.values) : proc = p.root := by
  obtain ⟨⟨key, proc'⟩, hmem, rfl⟩ := List.mem_map.mp hproc
  have hid : proc'.id = key := h.keyed _ hmem
  have hkey : key ∈ p.processors.keys := List.mem_map_of_mem (f := Prod.fst) hmem
  rcases Relation.ReflTransGen.cases_head (h.reachable key hkey) with heq | ⟨b, ⟨q, hq, hfrom, -⟩, -⟩
  · rw [← heq] at hmem
    exact p.processors.value_unique hmem (p.processors.get?_eq_some_iff.mp h.root_mem)
  · exact absurd hfrom (hroot q hq)

theorem drainList_of_no_queue (hroot : ∀ q ∈ p.queues.values, q.fromP ≠ p.root.id) :
    p.drainList 1 = some (.ok []) := by
  rw [drainList, drainLoop, getProcessorChildren_eq_nil hroot]
  rfl

theorem IsDag.drainOrder_nil (h : p.IsDag) (hroot : ∀ q ∈ p.queues.values, q.fromP ≠ p.root.id) :
    p.DrainOrder [] where
  nodup := List.nodup_nil
  mem_iff proc := by
    constructor
    · intro hmem
      cases hmem
    · rintro ⟨hmem, hne⟩
      exact absurd (h.eq_root hroot hmem) hne
  upstream_first := List.Pairwise.nil

/-! ## A queue that leaves the root -/

private theorem mapM_eq_replicate {β γ : Type} {f : β → Except PyError γ} {c : γ} {xs : List β}
    (h : ∀ x ∈ xs, f x = .ok c) : xs.mapM f = .ok (List.replicate xs.length c) := by
  induction xs with
  | nil => rfl
  | cons x xs ih =>
    rw [List.mapM_cons, h x List.mem_cons_self, ih (fun y hy => h y (List.mem_cons_of_mem x hy))]
    rfl

/-- A processor in the table is its own only child, once for each queue that leaves it. -/
theorem getProcessorChildren_eq_replicate {proc : APIProcessor}
    (h : p.processors.get? proc.id = some proc) :
    p.getProcessorChildren proc
      = .ok (List.replicate (p.queues.values.filter fun q => q.fromP = proc.id).length proc) := by
  rw [getProcessorChildren]
  apply mapM_eq_replicate
  intro q hq
  have hfrom : q.fromP = proc.id := of_decide_eq_true (List.mem_filter.mp hq).2
  rw [processor, hfrom, h]

/-- Finding the root again puts it back in the queue and changes nothing else. -/
theorem visitChildren_root (root : APIProcessor) (m : ℕ) (queue : List APIProcessor) :
    visitChildren root (List.replicate m root) queue [] = (queue ++ List.replicate m root, []) := by
  induction m generalizing queue with
  | zero => rw [List.replicate_zero, visitChildren, List.append_nil]
  | succ m ih =>
    rw [List.replicate_succ, visitChildren, if_neg List.not_mem_nil, if_neg (not_not_intro rfl),
      ih, List.append_assoc, List.singleton_append]

/-- A queue of copies of the root stays one, with at least as many of them. -/
theorem drainLoop_of_leaves (hmem : p.processors.get? p.root.id = some p.root) {q : APIQueue}
    (hq : q ∈ p.queues.values) (hfrom : q.fromP = p.root.id) (fuel n : ℕ) :
    p.drainLoop fuel (List.replicate (n + 1) p.root) [] = none := by
  induction fuel generalizing n with
  | zero => rw [List.replicate_succ, drainLoop]
  | succ fuel ih =>
    have hpos : 0 < (p.queues.values.filter fun q => q.fromP = p.root.id).length := by
      rw [List.length_pos_iff_exists_mem]
      exact ⟨q, List.mem_filter.mpr ⟨hq, decide_eq_true hfrom⟩⟩
    obtain ⟨m, hm⟩ := Nat.exists_eq_succ_of_ne_zero (Nat.ne_of_gt hpos)
    rw [List.replicate_succ, drainLoop, getProcessorChildren_eq_replicate hmem, hm]
    dsimp only
    rw [visitChildren_root, ← List.replicate_add]
    exact ih (n + m)

/-- `drain_list` returns a drain order exactly when no queue leaves the root. -/
theorem drainList_ordered_iff (h : p.IsDag) :
    (∃ fuel order, p.drainList fuel = some (.ok order) ∧ p.DrainOrder order)
      ↔ ∀ q ∈ p.queues.values, q.fromP ≠ p.root.id := by
  constructor
  · rintro ⟨fuel, order, hrun, -⟩ q hq hfrom
    have hnone : p.drainList fuel = none := drainLoop_of_leaves h.root_mem hq hfrom fuel 0
    rw [hnone] at hrun
    cases hrun
  · intro hroot
    exact ⟨1, [], drainList_of_no_queue hroot, h.drainOrder_nil hroot⟩

/-! ## The tree of a pipe -/

/-- `PipeNode`. -/
inductive PipeNode where
  | node (processor : APIProcessor) (children : List PipeNode)

/-- The loop of `map_tree` over the children. -/
def mapTreeAll (visit : APIProcessor → Option (Except PyError PipeNode)) :
    List APIProcessor → Option (Except PyError (List PipeNode))
  | [] => some (.ok [])
  | child :: children =>
      match visit child with
      | none => none
      | some (.error e) => some (.error e)
      | some (.ok node) =>
          match mapTreeAll visit children with
          | some (.ok nodes) => some (.ok (node :: nodes))
          | stopped => stopped

/-- `map_tree`, with at most `fuel` calls inside each other. `none` is a recursion that goes deeper. -/
def mapTree (p : APIPipe) : ℕ → APIProcessor → Option (Except PyError PipeNode)
  | 0, _ => none
  | fuel + 1, proc =>
      match p.getProcessorChildren proc with
      | .error e => some (.error e)
      | .ok children =>
          match mapTreeAll (p.mapTree fuel) children with
          | none => none
          | some (.error e) => some (.error e)
          | some (.ok nodes) => some (.ok (.node proc nodes))

/-- `processor_tree`. -/
def processorTree (p : APIPipe) (fuel : ℕ) : Option (Except PyError PipeNode) := p.mapTree fuel p.root

/-- A processor that is its own child has no tree. -/
theorem mapTree_of_leaves (hmem : p.processors.get? p.root.id = some p.root) {q : APIQueue}
    (hq : q ∈ p.queues.values) (hfrom : q.fromP = p.root.id) (fuel : ℕ) : p.mapTree fuel p.root = none := by
  induction fuel with
  | zero => rfl
  | succ fuel ih =>
    have hpos : 0 < (p.queues.values.filter fun q => q.fromP = p.root.id).length := by
      rw [List.length_pos_iff_exists_mem]
      exact ⟨q, List.mem_filter.mpr ⟨hq, decide_eq_true hfrom⟩⟩
    obtain ⟨m, hm⟩ := Nat.exists_eq_succ_of_ne_zero (Nat.ne_of_gt hpos)
    rw [mapTree, getProcessorChildren_eq_replicate hmem, hm, List.replicate_succ]
    dsimp only
    rw [mapTreeAll, ih]

/-- `processor_tree` returns exactly when no queue leaves the root, and then gives the root alone. -/
theorem processorTree_ends_iff (h : p.IsDag) : (∃ fuel result, p.processorTree fuel = some result) ↔
    ∀ fuel > 0, p.processorTree fuel = some (.ok (.node p.root [])) := by
  constructor
  · rintro ⟨fuel, result, hrun⟩ fuel' hpos
    have hroot : ∀ q ∈ p.queues.values, q.fromP ≠ p.root.id := by
      intro q hq hfrom
      rw [processorTree, mapTree_of_leaves h.root_mem hq hfrom] at hrun
      cases hrun
    obtain ⟨fuel', rfl⟩ := Nat.exists_eq_succ_of_ne_zero (Nat.ne_of_gt hpos)
    rw [processorTree, mapTree, getProcessorChildren_eq_nil hroot]
    rfl
  · exact fun hall => ⟨1, _, hall 1 Nat.one_pos⟩

/-! ## Two pipes -/

def mainProcessor : APIProcessor := { id := "main", name := "main" }

def childProcessor : APIProcessor := { id := "a", name := "a", entry := some "a.py" }

def sinkOf (name : String) : APIQueue :=
  { id := sinkQueueId, name := sinkQueueId, fromP := "", toP := name, size := 4096 }

/-- A pipe with nothing below its root. -/
def loneRoot : APIPipe where
  id := "main"
  name := "main"
  root := mainProcessor
  sink := sinkOf "main"
  processors := Dict.empty.set "main" mainProcessor

theorem loneRoot_isDag : loneRoot.IsDag where
  keyed := by decide
  root_mem := by decide
  ends_mem q hq := nomatch hq
  acyclic a h := by
    obtain ⟨b, -, q, hq, -⟩ := Relation.TransGen.tail'_iff.mp h
    cases hq
  reachable a ha := by
    rw [List.mem_singleton.mp ha]
    exact Relation.ReflTransGen.refl

theorem drainList_loneRoot :
    ∃ fuel order, loneRoot.drainList fuel = some (.ok order) ∧ loneRoot.DrainOrder order :=
  (drainList_ordered_iff loneRoot_isDag).mpr (fun _ hq => nomatch hq)

/-- A pipe with one processor below its root. -/
def oneChild : APIPipe :=
  { loneRoot with
    processors := (Dict.empty.set "main" mainProcessor).set "a" childProcessor
    queues := Dict.empty.set "main->a"
      { id := "main->a", name := "main->a", fromP := "main", toP := "a", size := 4096 } }

theorem feeds_oneChild {a b : String} (h : oneChild.Feeds a b) : a = "main" ∧ b = "a" := by
  obtain ⟨q, hq, rfl, rfl⟩ := h
  rw [List.mem_singleton.mp hq]
  exact ⟨rfl, rfl⟩

theorem oneChild_isDag : oneChild.IsDag where
  keyed := by decide
  root_mem := by decide
  ends_mem := by decide
  acyclic := by
    intro a h
    -- a cycle would leave `main` and come back to it
    obtain ⟨b, hstep, hrest⟩ := Relation.TransGen.head'_iff.mp h
    obtain ⟨rfl, rfl⟩ := feeds_oneChild hstep
    rcases Relation.ReflTransGen.cases_head hrest with heq | ⟨b, hstep', -⟩
    · exact absurd heq (by decide)
    · exact absurd (feeds_oneChild hstep').1 (by decide)
  reachable := by
    have hedge : oneChild.Feeds "main" "a" := ⟨_, List.mem_singleton.mpr rfl, rfl, rfl⟩
    intro a ha
    rcases List.mem_cons.mp ha with rfl | ha
    · exact Relation.ReflTransGen.refl
    · rw [List.mem_singleton.mp ha]
      exact Relation.ReflTransGen.single hedge

theorem oneChild_drainOrder : oneChild.DrainOrder [childProcessor] where
  nodup := List.nodup_singleton _
  mem_iff proc := by
    rw [List.mem_singleton]
    constructor
    · rintro rfl
      exact ⟨by decide, by decide⟩
    · rintro ⟨hmem, hne⟩
      rcases List.mem_cons.mp hmem with rfl | hmem
      · exact absurd rfl hne
      · exact List.mem_singleton.mp hmem
  upstream_first := List.pairwise_singleton _ _

/-- The smallest pipe that does anything is an acyclic graph, and its drain list is never returned. -/
theorem drainList_oneChild_diverges :
    oneChild.IsDag ∧ ∀ fuel, oneChild.drainList fuel = none := by
  refine ⟨oneChild_isDag, fun fuel => ?_⟩
  exact drainLoop_of_leaves (p := oneChild) (by decide) (List.mem_singleton.mpr rfl) rfl fuel 0

end APIPipe

end Upipe
