import Mathlib.Algebra.BigOperators.Fin
import Mathlib.Algebra.Order.BigOperators.Group.List
import Mathlib.Data.Set.Card
import Mathlib.Logic.Relation
import Mathlib.Data.Multiset.Bind

/-!
# What flows through a network

Nodes take what comes through their inputs and put what they make of it on each of their outputs. `IsFlow` says that
what comes through every edge was given to it or put there by a node, `IsSubflow` that it is at most that. When the
edges can be ranked, so that no node leads back, there is one flow only (`IsFlow.unique`), and whatever has come
through at some time is part of it (`IsSubflow.le`).

Several actors may do the work of one node, each with a part of what comes through. `isSubflow_of_actors` and
`isFlow_of_actors` are the rules to go from what each of them has received and sent to what comes through the network.

`IsProduced` says the same of the nodes of a graph: what comes of each is what it is given and what it makes of all that
comes of its sources. In a graph without cycles there is just one such thing, and `produced` computes it.
-/

namespace Upipe.Common

variable {κ α : Type*}

section Tagged

variable [DecidableEq κ]

/-- What has gone through one edge. -/
def on (q : κ) (xs : List (κ × α)) : List α := (xs.filter fun x => x.1 = q).map Prod.snd

@[simp] theorem on_nil (q : κ) : on q ([] : List (κ × α)) = [] := rfl

@[simp] theorem on_append (q : κ) (xs ys : List (κ × α)) : on q (xs ++ ys) = on q xs ++ on q ys := by
  simp [on]

theorem on_singleton (q p : κ) (x : α) : on q [(p, x)] = if p = q then [x] else [] := by
  by_cases h : p = q <;> simp [on, h]

theorem on_eq_nil {q : κ} {qs : List κ} (hq : q ∉ qs) {xs : List (κ × α)} (hxs : ∀ x ∈ xs, x.1 ∈ qs) :
    on q xs = [] := by
  have hfilter : xs.filter (fun x => x.1 = q) = [] := by
    rw [List.filter_eq_nil_iff]
    intro x hx heq
    exact hq (of_decide_eq_true heq ▸ hxs x hx)
  rw [on, hfilter, List.map_nil]

/-- What has gone through all the edges of a list. -/
theorem sum_on {qs : List κ} (hqs : qs.Nodup) {xs : List (κ × α)} (hxs : ∀ x ∈ xs, x.1 ∈ qs) :
    (qs.map fun q => (on q xs : Multiset α)).sum = (xs.map Prod.snd : Multiset α) := by
  induction xs with
  | nil => exact List.sum_eq_zero (by simp)
  | cons x xs ih =>
    obtain ⟨hx, hxs⟩ := List.forall_mem_cons.mp hxs
    have hone : (qs.map fun q => (on q [x] : Multiset α)).sum = {x.2} := by
      rw [List.sum_map_eq_nsmul_single x.1, List.count_eq_one_of_mem hqs hx, one_nsmul, on_singleton, if_pos rfl]
      · rfl
      · intro q hq _
        rw [on_singleton, if_neg hq.symm]
        rfl
    have hsplit (q : κ) : (on q (x :: xs) : Multiset α) = on q [x] + on q xs := by
      rw [Multiset.coe_add, ← on_append, List.singleton_append]
    simp only [hsplit]
    rw [List.sum_map_add, hone, ih hxs]
    rfl

end Tagged

/-- What a node makes of each value that comes through one of its inputs goes to each of its outputs. -/
structure FlowNode (κ α : Type*) where
  inputs : List κ
  outputs : List κ
  makes : α → Multiset α

section Flow

variable [DecidableEq κ]

/-- What a node puts on an edge. -/
def FlowNode.puts (n : FlowNode κ α) (through : κ → Multiset α) (q : κ) : Multiset α :=
  if q ∈ n.outputs then (n.inputs.map through).sum.bind n.makes else 0

/-- What is given to an edge, and what the nodes put there. -/
def arriving (nodes : List (FlowNode κ α)) (given through : κ → Multiset α) (q : κ) : Multiset α :=
  given q + (nodes.map fun n => n.puts through q).sum

/-- All that arrives comes through. -/
def IsFlow (nodes : List (FlowNode κ α)) (given through : κ → Multiset α) : Prop :=
  ∀ q, through q = arriving nodes given through q

/-- Nothing comes through that has not arrived. -/
def IsSubflow (nodes : List (FlowNode κ α)) (given through : κ → Multiset α) : Prop :=
  ∀ q, through q ≤ arriving nodes given through q

/-- Every node leads on. -/
def Ranked (nodes : List (FlowNode κ α)) (rank : κ → ℕ) : Prop :=
  ∀ n ∈ nodes, ∀ q ∈ n.inputs, ∀ q' ∈ n.outputs, rank q < rank q'

variable {nodes : List (FlowNode κ α)} {given through through' : κ → Multiset α} {rank : κ → ℕ}

theorem bind_le_bind {β : Type*} {s t : Multiset α} (h : s ≤ t) (f : α → Multiset β) : s.bind f ≤ t.bind f := by
  obtain ⟨u, rfl⟩ := Multiset.le_iff_exists_add.mp h
  rw [Multiset.add_bind]
  exact Multiset.le_add_right _ _

/-- A node puts more on an edge when more comes through its inputs. -/
theorem FlowNode.puts_le_puts {n : FlowNode κ α} (q : κ)
    (h : q ∈ n.outputs → ∀ q' ∈ n.inputs, through q' ≤ through' q') :
    n.puts through q ≤ n.puts through' q := by
  unfold puts
  split_ifs with hq
  · exact bind_le_bind (List.sum_le_sum (h hq)) n.makes
  · exact le_rfl

/-- What has come through is part of the flow. -/
theorem IsSubflow.le (h : IsSubflow nodes given through) (hflow : IsFlow nodes given through')
    (hrank : Ranked nodes rank) (q : κ) : through q ≤ through' q := by
  -- along the rank: what arrives at an edge came through edges of a smaller one
  induction hk : rank q using Nat.strong_induction_on generalizing q with
  | _ k ih =>
    calc through q ≤ arriving nodes given through q := h q
      _ ≤ arriving nodes given through' q := by
          refine add_le_add le_rfl (List.sum_le_sum fun n hn => n.puts_le_puts q fun hq q' hq' => ?_)
          exact ih _ (hk ▸ hrank n hn q' hq' q hq) q' rfl
      _ = through' q := (hflow q).symm

theorem IsFlow.subflow (h : IsFlow nodes given through) : IsSubflow nodes given through := fun q => (h q).le

/-- There is at most one flow. -/
theorem IsFlow.unique (h : IsFlow nodes given through) (h' : IsFlow nodes given through') (hrank : Ranked nodes rank) :
    through = through' :=
  funext fun q => le_antisymm (h.subflow.le h' hrank q) (h'.subflow.le h hrank q)

/-! ## Actors -/

/-- An actor of a node: what it is given, what it has received through each edge and what it has sent. -/
structure FlowActor (κ α : Type*) where
  node : ℕ
  given : Multiset α
  received : κ → Multiset α
  sent : κ → Multiset α

/-- What an actor is given goes to each output of its node. -/
def FlowActor.gives (nodes : List (FlowNode κ α)) (a : FlowActor κ α) (q : κ) : Multiset α :=
  nodes[a.node]?.elim 0 fun n => if q ∈ n.outputs then a.given else 0

/-- What an actor makes of what it has received goes there, too. -/
def FlowActor.puts (nodes : List (FlowNode κ α)) (a : FlowActor κ α) (q : κ) : Multiset α :=
  nodes[a.node]?.elim 0 fun n => n.puts a.received q

/-- The actor reads from its own node only. -/
structure FlowActor.Reads (nodes : List (FlowNode κ α)) (a : FlowActor κ α) : Prop where
  node : a.node < nodes.length
  others : ∀ m n, nodes[m]? = some n → m ≠ a.node → ∀ q ∈ n.inputs, a.received q = 0

variable {actors : List (FlowActor κ α)}

/-- A node makes of two parts what it makes of each. -/
theorem FlowNode.puts_add (n : FlowNode κ α) (f g : κ → Multiset α) (q : κ) :
    n.puts (fun q' => f q' + g q') q = n.puts f q + n.puts g q := by
  unfold puts
  split_ifs
  · rw [List.sum_map_add, Multiset.add_bind]
  · rw [add_zero]

theorem FlowNode.puts_eq_zero {n : FlowNode κ α} (h : ∀ q ∈ n.inputs, through q = 0) (q : κ) : n.puts through q = 0 := by
  have hsum : (n.inputs.map through).sum = 0 := by
    apply List.sum_eq_zero
    simpa using h
  rw [puts, hsum, Multiset.zero_bind, ite_self]

theorem FlowNode.puts_sum (n : FlowNode κ α) (actors : List (FlowActor κ α)) (q : κ) :
    n.puts (fun q' => (actors.map fun a => a.received q').sum) q = (actors.map fun a => n.puts a.received q).sum := by
  induction actors with
  | nil => exact n.puts_eq_zero (fun _ _ => rfl) q
  | cons a actors ih =>
    simp only [List.map_cons, List.sum_cons]
    rw [n.puts_add, ih]

/-- Of all nodes an actor works for its own. -/
theorem FlowActor.Reads.sum_puts {a : FlowActor κ α} (h : a.Reads nodes) (q : κ) :
    (nodes.map fun n => n.puts a.received q).sum = a.puts nodes q := by
  rw [puts, List.getElem?_eq_getElem h.node, ← Fin.sum_univ_fun_getElem]
  refine Finset.sum_eq_single (⟨a.node, h.node⟩ : Fin nodes.length) (fun m _ hm => ?_) fun hnot => ?_
  · apply FlowNode.puts_eq_zero
    exact h.others m _ (List.getElem?_eq_getElem m.2) fun heq => hm (Fin.ext heq)
  · exact absurd (Finset.mem_univ _) hnot

/-- What arrives when the actors are given something and receive all that comes through. -/
theorem arriving_actors (hreads : ∀ a ∈ actors, a.Reads nodes) (q : κ) :
    arriving nodes (fun q => (actors.map fun a => a.gives nodes q).sum)
      (fun q => (actors.map fun a => a.received q).sum) q =
      (actors.map fun a => a.gives nodes q + a.puts nodes q).sum := by
  have hswap : (nodes.map fun n => (actors.map fun a => n.puts a.received q).sum).sum =
      (actors.map fun a => (nodes.map fun n => n.puts a.received q).sum).sum :=
    Multiset.sum_map_sum_map (nodes : Multiset (FlowNode κ α)) (actors : Multiset (FlowActor κ α))
  have hputs : (actors.map fun a => (nodes.map fun n => n.puts a.received q).sum) =
      actors.map fun a => a.puts nodes q := List.map_congr_left fun a ha => (hreads a ha).sum_puts q
  simp only [arriving, FlowNode.puts_sum]
  rw [hswap, hputs, List.sum_map_add]

/-- Actors that receive at most what has been sent, and send at most what they have made. -/
theorem isSubflow_of_actors (hreads : ∀ a ∈ actors, a.Reads nodes)
    (hsent : ∀ a ∈ actors, ∀ q, a.sent q ≤ a.gives nodes q + a.puts nodes q)
    (hcarried : ∀ q, (actors.map fun a => a.received q).sum ≤ (actors.map fun a => a.sent q).sum) :
    IsSubflow nodes (fun q => (actors.map fun a => a.gives nodes q).sum)
      (fun q => (actors.map fun a => a.received q).sum) := by
  intro q
  rw [arriving_actors hreads]
  exact (hcarried q).trans (List.sum_le_sum fun a ha => hsent a ha q)

/-- Actors that receive all that has been sent, and send all that they have made. -/
theorem isFlow_of_actors (hreads : ∀ a ∈ actors, a.Reads nodes)
    (hsent : ∀ a ∈ actors, ∀ q, a.sent q = a.gives nodes q + a.puts nodes q)
    (hcarried : ∀ q, (actors.map fun a => a.received q).sum = (actors.map fun a => a.sent q).sum) :
    IsFlow nodes (fun q => (actors.map fun a => a.gives nodes q).sum)
      (fun q => (actors.map fun a => a.received q).sum) := by
  intro q
  rw [arriving_actors hreads]
  exact (hcarried q).trans (congrArg List.sum (List.map_congr_left fun a ha => hsent a ha q))

end Flow

/-! ## Graphs -/

section Graph

variable {ν : Type*} (sources : ν → List ν) (make : ν → α → Multiset α) (given : ν → Multiset α)

/-- What comes of a node when values pass at most so many nodes. -/
def produced : ℕ → ν → Multiset α
  | 0, _ => 0
  | n + 1, a => given a + ((sources a).map (produced n)).sum.bind (make a)

/-- What comes of each node is what it is given and what it makes of what comes of its sources. -/
def IsProduced (s : Set ν) (out : ν → Multiset α) : Prop :=
  ∀ a ∈ s, out a = given a + ((sources a).map out).sum.bind (make a)

variable {sources make given} {s : Set ν} {rank : ν → ℕ} {out out' : ν → Multiset α}

/-- More steps make no difference. -/
theorem produced_eq (hrank : ∀ a ∈ s, ∀ b ∈ sources a, b ∈ s ∧ rank b < rank a) :
    ∀ {n m : ℕ} {a : ν}, a ∈ s → rank a < n → rank a < m →
      produced sources make given n a = produced sources make given m a
  | n + 1, m + 1, a, ha, hn, hm => by
    have hsources :
        (sources a).map (produced sources make given n) = (sources a).map (produced sources make given m) := by
      apply List.map_congr_left
      intro b hb
      obtain ⟨hbs, hlt⟩ := hrank a ha b hb
      exact produced_eq hrank hbs (by omega) (by omega)
    rw [produced, produced, hsources]

theorem isProduced_produced (hrank : ∀ a ∈ s, ∀ b ∈ sources a, b ∈ s ∧ rank b < rank a) :
    IsProduced sources make given s fun a => produced sources make given (rank a + 1) a := by
  intro a ha
  have hsources : (sources a).map (produced sources make given (rank a)) =
      (sources a).map fun b => produced sources make given (rank b + 1) b := by
    apply List.map_congr_left
    intro b hb
    obtain ⟨hbs, hlt⟩ := hrank a ha b hb
    exact produced_eq hrank hbs hlt (Nat.lt_succ_self _)
  show produced sources make given (rank a + 1) a = _
  rw [produced, hsources]

theorem IsProduced.unique (h : IsProduced sources make given s out) (h' : IsProduced sources make given s out')
    (hrank : ∀ a ∈ s, ∀ b ∈ sources a, b ∈ s ∧ rank b < rank a) {a : ν} (ha : a ∈ s) : out a = out' a := by
  induction hk : rank a using Nat.strong_induction_on generalizing a with
  | _ k ih =>
    have hsources : (sources a).map out = (sources a).map out' := by
      apply List.map_congr_left
      intro b hb
      obtain ⟨hbs, hlt⟩ := hrank a ha b hb
      exact ih _ (hk ▸ hlt) hbs rfl
    rw [h a ha, h' a ha, hsources]

/-- The nodes of a finite part without cycles can be ranked. -/
theorem exists_rank {r : ν → ν → Prop} (hfin : s.Finite) (hacyclic : ∀ a ∈ s, ¬ Relation.TransGen r a a) :
    ∃ rank : ν → ℕ, ∀ a ∈ s, ∀ b, r a b → rank a < rank b := by
  -- the rank of a node is the number of nodes that lead to it
  refine ⟨fun a => {x ∈ s | Relation.TransGen r x a}.ncard, fun a ha b hab => ?_⟩
  apply Set.ncard_lt_ncard _ (hfin.subset fun x hx => hx.1)
  refine ⟨fun x hx => ⟨hx.1, hx.2.tail hab⟩, fun hsub => hacyclic a ha ?_⟩
  exact (hsub ⟨ha, .single hab⟩).2

end Graph

end Upipe.Common
