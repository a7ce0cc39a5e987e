import Upipe.Common.Python

/-!
# A line of stages

Each stage makes a list of results of every element that it takes, puts them one by one into a queue, and only
then takes the next element from the queue before it. The stages work side by side. `flow` is what they come
to one after the other, on lists: the whole history of each queue, and what leaves the last one.

`Steps.flow` says that no interleaving changes that. `exists_steps_drained` says that the line can always be
emptied, even when an element is only given to a queue that is empty.
-/

namespace Upipe.Common

/-- A stage with the queue behind it. `held` are the results that are not in the queue yet, and `entered` is a
ghost: all elements that ever came into the queue, oldest first. -/
structure Stage (ε σ α : Type) where
  work : σ → α → Except ε (σ × List α)
  state : σ
  held : List α
  queue : List α
  entered : List α

variable {ε σ α : Type}

/-- What a stage makes of the elements of a list. -/
def runWork (work : σ → α → Except ε (σ × List α)) : σ → List α → Except ε (List α)
  | _, [] => .ok []
  | state, x :: xs => do
      let (state', results) ← work state x
      let rest ← runWork work state' xs
      pure (results ++ rest)

namespace Line

/-- The history that each queue comes to have, and what leaves the line, when `xs` still come in. -/
def flow : List (Stage ε σ α) → List α → Except ε (List (List α) × List α)
  | [], xs => .ok ([], xs)
  | s :: ss, xs => do
      let results ← runWork s.work s.state xs
      let (histories, out) ← flow ss (s.queue ++ (s.held ++ results))
      pure ((s.entered ++ (s.held ++ results)) :: histories, out)

/-- One step: a stage gives its next result to its queue, takes an element from the queue before it, or an
element leaves the last queue. -/
inductive Step (Open : List α → Prop) :
    List (Stage ε σ α) → List α → List (Stage ε σ α) → Prop
  | give {s : Stage ε σ α} {x : α} {held : List α} {ss : List (Stage ε σ α)} (hheld : s.held = x :: held)
      (hopen : Open s.queue) :
      Step Open (s :: ss) []
        ({ s with held := held, queue := s.queue ++ [x], entered := s.entered ++ [x] } :: ss)
  | take {s t : Stage ε σ α} {x : α} {queue results : List α} {state : σ} {ss : List (Stage ε σ α)}
      (hqueue : s.queue = x :: queue) (hheld : t.held = []) (hwork : t.work t.state x = .ok (state, results)) :
      Step Open (s :: t :: ss) []
        ({ s with queue := queue } :: { t with state := state, held := results } :: ss)
  | leave {s : Stage ε σ α} {x : α} {queue : List α} (hqueue : s.queue = x :: queue) :
      Step Open [s] [x] [{ s with queue := queue }]
  | behind {s : Stage ε σ α} {ss ss' : List (Stage ε σ α)} {out : List α} (h : Step Open ss out ss') :
      Step Open (s :: ss) out (s :: ss')

/-- Steps one after the other, with all that leaves the line. -/
inductive Steps (Open : List α → Prop) :
    List (Stage ε σ α) → List α → List (Stage ε σ α) → Prop
  | refl (ss : List (Stage ε σ α)) : Steps Open ss [] ss
  | head {ss ss' ss'' : List (Stage ε σ α)} {out out' : List α} (h : Step Open ss out ss')
      (rest : Steps Open ss' out' ss'') : Steps Open ss (out ++ out') ss''

/-- Nothing is left in the line. -/
def Drained (ss : List (Stage ε σ α)) : Prop := ∀ s ∈ ss, s.held = [] ∧ s.queue = []

variable {Open : List α → Prop} {ss ss' ss'' : List (Stage ε σ α)} {s : Stage ε σ α}
  {xs out out' : List α} {histories : List (List α)}

/-! ## The flow -/

theorem runWork_cons_eq_ok_iff {work : σ → α → Except ε (σ × List α)} {state : σ} {x : α} {ys : List α} :
    runWork work state (x :: xs) = .ok ys ↔
      ∃ state' results rest, work state x = .ok (state', results) ∧ runWork work state' xs = .ok rest ∧
        ys = results ++ rest := by
  simp only [runWork, except_bind_eq_ok_iff, except_pure_eq_ok_iff, Prod.exists]
  constructor
  · rintro ⟨state', results, hwork, rest, hrest, hys⟩
    exact ⟨state', results, rest, hwork, hrest, hys⟩
  · rintro ⟨state', results, rest, hwork, hrest, hys⟩
    exact ⟨state', results, hwork, rest, hrest, hys⟩

theorem flow_cons_eq_ok_iff :
    flow (s :: ss) xs = .ok (histories, out) ↔
      ∃ results rest, runWork s.work s.state xs = .ok results ∧
        flow ss (s.queue ++ (s.held ++ results)) = .ok (rest, out) ∧
        histories = (s.entered ++ (s.held ++ results)) :: rest := by
  simp only [flow, except_bind_eq_ok_iff, except_pure_eq_ok_iff, Prod.exists, Prod.mk.injEq]
  constructor
  · rintro ⟨results, hwork, rest, out', hrest, rfl, rfl⟩
    exact ⟨results, rest, hwork, hrest, rfl⟩
  · rintro ⟨results, rest, hwork, hrest, rfl⟩
    exact ⟨results, hwork, rest, out, hrest, rfl, rfl⟩

/-- Where the element in front of a queue goes: the next stage makes something of it. -/
theorem work_of_flow {x : α} {held : List α}
    (h : flow (s :: ss) (x :: xs) = .ok (histories, out)) (hheld : s.held = held) :
    ∃ state' results, s.work s.state x = .ok (state', results) ∧
      flow ({ s with state := state', held := held ++ results } :: ss) xs = .ok (histories, out) := by
  obtain ⟨all, rest, hall, hrest, rfl⟩ := flow_cons_eq_ok_iff.mp h
  obtain ⟨state', results, later, hwork, hlater, rfl⟩ := runWork_cons_eq_ok_iff.mp hall
  refine ⟨state', results, hwork, flow_cons_eq_ok_iff.mpr ⟨later, rest, hlater, ?_, ?_⟩⟩
  · rw [List.append_assoc, ← hheld]
    exact hrest
  · rw [List.append_assoc, ← hheld]

/-- A step changes no history, and what leaves the line does so in front of the rest. -/
theorem Step.flow (h : Step Open ss out ss') (hflow : flow ss xs = .ok (histories, out')) :
    ∃ left, out' = out ++ left ∧ Line.flow ss' xs = .ok (histories, left) := by
  induction h generalizing xs histories out' with
  | give hheld hopen =>
    obtain ⟨results, rest, hresults, hrest, rfl⟩ := flow_cons_eq_ok_iff.mp hflow
    refine ⟨out', rfl, flow_cons_eq_ok_iff.mpr ⟨results, rest, hresults, ?_, ?_⟩⟩
    · rw [hheld] at hrest
      rw [List.append_assoc]
      exact hrest
    · rw [hheld, List.append_assoc]
      rfl
  | take hqueue hheld hwork =>
    obtain ⟨results, rest, hresults, hrest, rfl⟩ := flow_cons_eq_ok_iff.mp hflow
    rw [hqueue, List.cons_append] at hrest
    obtain ⟨state', made, hwork', hrest'⟩ := work_of_flow hrest hheld
    rw [hwork, Except.ok.injEq, Prod.mk.injEq] at hwork'
    obtain ⟨rfl, rfl⟩ := hwork'
    exact ⟨out', rfl, flow_cons_eq_ok_iff.mpr ⟨results, rest, hresults, hrest', rfl⟩⟩
  | leave hqueue =>
    obtain ⟨results, rest, hresults, hrest, rfl⟩ := flow_cons_eq_ok_iff.mp hflow
    rw [hqueue] at hrest
    obtain ⟨rfl, rfl⟩ := Prod.mk.inj (Except.ok.inj hrest)
    exact ⟨_, rfl, flow_cons_eq_ok_iff.mpr ⟨results, [], hresults, rfl, rfl⟩⟩
  | behind _ ih =>
    obtain ⟨results, rest, hresults, hrest, rfl⟩ := flow_cons_eq_ok_iff.mp hflow
    obtain ⟨left, hleft, hrest'⟩ := ih hrest
    exact ⟨left, hleft, flow_cons_eq_ok_iff.mpr ⟨results, rest, hresults, hrest', rfl⟩⟩

theorem Steps.flow (h : Steps Open ss out ss') (hflow : Line.flow ss xs = .ok (histories, out')) :
    ∃ left, out' = out ++ left ∧ Line.flow ss' xs = .ok (histories, left) := by
  induction h generalizing out' with
  | refl ss => exact ⟨out', rfl, hflow⟩
  | head hstep _ ih =>
    obtain ⟨left, rfl, hflow'⟩ := hstep.flow hflow
    obtain ⟨left', rfl, hflow''⟩ := ih hflow'
    exact ⟨left', (List.append_assoc ..).symm, hflow''⟩

/-- Nothing leaves an empty line into which nothing comes. -/
theorem flow_of_drained (h : Drained ss) (hflow : flow ss [] = .ok (histories, out)) : out = [] := by
  induction ss generalizing histories with
  | nil => exact (Prod.mk.inj (Except.ok.inj hflow)).2.symm
  | cons s ss ih =>
    obtain ⟨results, rest, hresults, hrest, -⟩ := flow_cons_eq_ok_iff.mp hflow
    obtain rfl := Except.ok.inj hresults
    obtain ⟨hheld, hqueue⟩ := h s List.mem_cons_self
    rw [hheld, hqueue] at hrest
    exact ih (fun t ht => h t (List.mem_cons_of_mem _ ht)) hrest

/-! ## Emptying the line -/

theorem Steps.trans (h : Steps Open ss out ss') (h' : Steps Open ss' out' ss'') :
    Steps Open ss (out ++ out') ss'' := by
  induction h with
  | refl => exact h'
  | head hstep _ ih =>
    rw [List.append_assoc]
    exact .head hstep (ih h')

theorem Step.steps (h : Step Open ss out ss') : Steps Open ss out ss' := by
  have := Steps.head h (Steps.refl ss')
  rwa [List.append_nil] at this

theorem Steps.behind (s : Stage ε σ α) (h : Steps Open ss out ss') :
    Steps Open (s :: ss) out (s :: ss') := by
  induction h with
  | refl ss => exact .refl (s :: ss)
  | head hstep _ ih => exact .head (.behind hstep) ih

theorem Drained.cons (h : Drained ss) (hheld : s.held = []) (hqueue : s.queue = []) : Drained (s :: ss) := by
  intro t ht
  rcases List.mem_cons.mp ht with rfl | ht
  · exact ⟨hheld, hqueue⟩
  · exact h t ht

theorem Step.length_eq (h : Step Open ss out ss') : ss'.length = ss.length := by
  induction h with
  | give | take | leave => rfl
  | behind _ ih => exact congrArg (· + 1) ih

theorem Steps.length_eq (h : Steps Open ss out ss') : ss'.length = ss.length := by
  induction h with
  | refl => rfl
  | head hstep _ ih => exact ih.trans hstep.length_eq

/-- The element in front of a queue is taken, when the stages behind the queue are empty. -/
theorem exists_step_of_queue {x : α} {queue : List α} (hqueue : s.queue = x :: queue) (hdrained : Drained ss)
    (hflow : flow (s :: ss) xs = .ok (histories, out)) :
    ∃ left ss', Step Open (s :: ss) left ({ s with queue := queue } :: ss') := by
  cases ss with
  | nil => exact ⟨[x], [], .leave hqueue⟩
  | cons t ss =>
    obtain ⟨results, rest, -, hrest, -⟩ := flow_cons_eq_ok_iff.mp hflow
    rw [hqueue, List.cons_append] at hrest
    have hheld : t.held = [] := (hdrained t List.mem_cons_self).1
    obtain ⟨state, made, hwork, -⟩ := work_of_flow hrest hheld
    exact ⟨[], _, .take hqueue hheld hwork⟩

/-- A line can be emptied when the stages behind its first queue can, as often as it takes. -/
private theorem exists_steps_drained_cons (hopen : Open []) {n : ℕ}
    (ih : ∀ {ss : List (Stage ε σ α)} {xs out : List α} {histories : List (List α)}, ss.length = n →
      flow ss xs = .ok (histories, out) → ∃ left ss', Steps Open ss left ss' ∧ Drained ss')
    (hlen : ss.length = n) (hflow : flow (s :: ss) xs = .ok (histories, out)) :
    ∃ left ss', Steps Open (s :: ss) left ss' ∧ Drained ss' := by
  -- a result costs two steps, an element of the queue one
  induction hm : 2 * s.held.length + s.queue.length using Nat.strongRecOn generalizing s ss histories out with
  | _ m again =>
    obtain ⟨results, rest, -, hrest, -⟩ := flow_cons_eq_ok_iff.mp hflow
    obtain ⟨left₁, ss₁, hsteps₁, hdrained⟩ := ih hlen hrest
    obtain ⟨out₁, rfl, hflow₁⟩ := (hsteps₁.behind s).flow hflow
    have hlen₁ : ss₁.length = n := hsteps₁.length_eq.trans hlen
    have hgoOn : ∀ {left s' ss₂}, Step Open (s :: ss₁) left (s' :: ss₂) →
        2 * s'.held.length + s'.queue.length < m → ∃ left ss', Steps Open (s :: ss) left ss' ∧ Drained ss' := by
      intro left s' ss₂ hstep hless
      obtain ⟨out₂, rfl, hflow₂⟩ := hstep.flow hflow₁
      have hlen₂ : ss₂.length = n := (Nat.succ.inj hstep.length_eq).trans hlen₁
      obtain ⟨left₃, ss₃, hsteps₃, hdrained₃⟩ := again _ hless hlen₂ hflow₂ rfl
      exact ⟨_, ss₃, (hsteps₁.behind s).trans (.head hstep hsteps₃), hdrained₃⟩
    cases hqueue : s.queue with
    | cons x queue =>
      obtain ⟨left, ss₂, hstep⟩ := exists_step_of_queue hqueue hdrained hflow₁
      refine hgoOn hstep ?_
      rw [hqueue, List.length_cons] at hm
      dsimp only
      omega
    | nil =>
      cases hheld : s.held with
      | cons x held =>
        refine hgoOn (.give hheld (hqueue ▸ hopen)) ?_
        rw [hheld, hqueue, List.length_cons] at hm
        dsimp only
        rw [hqueue, List.length_append]
        simp only [List.length_nil, List.length_singleton] at hm ⊢
        omega
      | nil => exact ⟨left₁, s :: ss₁, hsteps₁.behind s, hdrained.cons hheld hqueue⟩

/-- Wherever its elements are, a line whose work raises nothing can be emptied, even when its stages give to
empty queues only; and all that leaves it then is what `flow` says. -/
theorem exists_steps_drained (hopen : Open []) (hflow : flow ss [] = .ok (histories, out)) :
    ∃ ss', Steps Open ss out ss' ∧ Drained ss' := by
  have hsome : ∀ n, ∀ {ss : List (Stage ε σ α)} {xs out : List α} {histories : List (List α)}, ss.length = n →
      flow ss xs = .ok (histories, out) → ∃ left ss', Steps Open ss left ss' ∧ Drained ss' := by
    intro n
    induction n with
    | zero =>
      intro ss xs out histories hlen _
      rw [List.eq_nil_of_length_eq_zero hlen]
      exact ⟨[], [], .refl [], fun s hs => nomatch hs⟩
    | succ n ih =>
      intro ss xs out histories hlen hflow
      obtain ⟨s, ss, rfl⟩ := List.exists_cons_of_length_eq_add_one hlen
      exact exists_steps_drained_cons hopen ih (Nat.succ.inj hlen) hflow
  obtain ⟨left, ss', hsteps, hdrained⟩ := hsome _ rfl hflow
  obtain ⟨rest, rfl, hflow'⟩ := hsteps.flow hflow
  rw [flow_of_drained hdrained hflow', List.append_nil]
  exact ⟨ss', hsteps, hdrained⟩

end Line

end Upipe.Common
