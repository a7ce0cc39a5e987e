import Upipe.Entities.MemQueue.Holds
import Upipe.Entities.Worker.Defs

/-!
# Is `emit` all or nothing?

`AllOrNothing` is the contract of `emit`: `True` means that every output queue took the frame, `False`
that none did and that the call was not counted. The loop stops at the first queue that refuses, after
the queues before it have taken the frame and after the counter has gone up, so the contract holds
exactly when no queue gets to refuse (`emit_allOrNothing_iff`).
-/

namespace Upipe.Worker

open Upipe.Common MemQueue

variable (c : Codec) (putQ : MemQueue → DataFrame → Except PyError Bool) (clock : String → UInt64)

/-- The queue took the frame exactly once: `q'` is what one accepted `put` leaves. -/
def Took (frame : DataFrame) (q q' : MemQueue) : Prop :=
  q.put (frame.toByteArr c) (clock q.qid) = .ok true q'

/-- The contract of `emit` for one call. A call that raises promises nothing. -/
def AllOrNothing (data : EmitData) (w : Worker) : Prop :=
  match w.stampedFrame c data, emit c putQ clock data w with
  | .ok frame, .ok true w' => List.Forall₂ (Took c clock frame) w.outQs w'.outQs
  | _, .ok false w' => w'.outQs = w.outQs ∧ w'.processedCounter = w.processedCounter
  | _, _ => True

/-- No queue gets to refuse: each one passes the frame through the tests of `put`, up to the end of the
list or to the first `put` that raises, because the frame has no encoding or a counter is exhausted. -/
def NoneRefuses (df : Except PyError Bytes) : List MemQueue → Prop
  | [] => True
  | q :: qs =>
      match q.putTest df with
      | .ok none => False
      | .ok (some _) => q.Exhausted ∨ NoneRefuses df qs
      | .error _ => True

/-- The condition of `NoneRefuses` for the frame that the worker sends, if there is one. -/
def Deliverable (data : EmitData) (w : Worker) : Prop :=
  match w.stampedFrame c data with
  | .ok frame => NoneRefuses (frame.toByteArr c) w.outQs
  | .error _ => True

variable {c putQ clock}

/-! ## The loop -/

/-- A loop that has seen a refusal touches no further queue. -/
theorem broadcast_false (frame : DataFrame) (qs : List MemQueue) :
    broadcast c putQ clock frame qs false = .ok false qs := by
  induction qs with
  | nil => rfl
  | cons q qs ih =>
    rw [broadcast, ih]
    rfl

theorem enqueue_local {frame : DataFrame} {q : MemQueue} (h : ¬ Remote q) :
    enqueue c putQ clock frame q = q.put (frame.toByteArr c) (clock q.qid) := by
  rw [enqueue, if_neg h]

/-- The three ways a `put` on a well-formed queue can end, by the tests alone. -/
theorem put_ends {q : MemQueue} (h : WellFormed q) (df : Except PyError Bytes) (now : UInt64) :
    (q.putTest df = .ok none ∧ q.put df now = .ok false q) ∨
      (∃ body, q.putTest df = .ok (some body) ∧ ¬ q.Exhausted ∧ ∃ q', q.put df now = .ok true q') ∨
      ((∃ body, q.putTest df = .ok (some body) ∧ q.Exhausted) ∨ ∃ e, q.putTest df = .error e) ∧
        ∃ e q', q.put df now = .error e q' := by
  rw [put_eq_putTest]
  rcases htest : q.putTest df with e | (_ | body)
  · exact Or.inr (Or.inr ⟨Or.inr ⟨e, rfl⟩, e, q, rfl⟩)
  · exact Or.inl ⟨rfl, rfl⟩
  · obtain ⟨-, -, hfit⟩ := putTest_eq_some htest
    rcases h.putLocked_ends hfit now with ⟨hleft, hput⟩ | ⟨hexh, e, q', -, hput⟩
    · exact Or.inr (Or.inl ⟨body, rfl, hleft, hput⟩)
    · exact Or.inr (Or.inr ⟨Or.inl ⟨body, rfl, hexh⟩, e, q', hput⟩)

/-- What the loop does to a list of local queues, in both directions of `NoneRefuses`. -/
theorem broadcast_ends {frame : DataFrame} {qs : List MemQueue} (hwf : ∀ q ∈ qs, WellFormed q)
    (hlocal : ∀ q ∈ qs, ¬ Remote q) :
    (NoneRefuses (frame.toByteArr c) qs ∧
        ((∃ qs', broadcast c putQ clock frame qs true = .ok true qs' ∧
            List.Forall₂ (Took c clock frame) qs qs') ∨
          ∃ e qs', broadcast c putQ clock frame qs true = .error e qs')) ∨
      (¬ NoneRefuses (frame.toByteArr c) qs ∧
        ∃ qs', broadcast c putQ clock frame qs true = .ok false qs') := by
  induction qs with
  | nil => exact Or.inl ⟨trivial, Or.inl ⟨[], rfl, List.Forall₂.nil⟩⟩
  | cons q qs ih =>
    have htail := ih (fun q' h => hwf q' (List.mem_cons_of_mem q h))
      (fun q' h => hlocal q' (List.mem_cons_of_mem q h))
    rw [broadcast, NoneRefuses, enqueue_local (hlocal q List.mem_cons_self)]
    rcases put_ends (hwf q List.mem_cons_self) (frame.toByteArr c) (clock q.qid) with
      ⟨htest, hput⟩ | ⟨body, htest, hleft, q', hput⟩ | ⟨hraise, e, q', hput⟩
    · -- a refusal
      rw [htest, hput]
      refine Or.inr ⟨id, q :: qs, ?_⟩
      show consState q (broadcast c putQ clock frame qs false) = _
      rw [broadcast_false]
      rfl
    · -- the queue takes the frame, and the rest of the loop decides
      rw [htest, hput]
      rcases htail with ⟨hnone, ⟨qs', hrest, htook⟩ | ⟨e, qs', hrest⟩⟩ | ⟨hrefuse, qs', hrest⟩
      · refine Or.inl ⟨Or.inr hnone, Or.inl ⟨q' :: qs', ?_, List.Forall₂.cons hput htook⟩⟩
        show consState q' (broadcast c putQ clock frame qs true) = _
        rw [hrest]
        rfl
      · refine Or.inl ⟨Or.inr hnone, Or.inr ⟨e, q' :: qs', ?_⟩⟩
        show consState q' (broadcast c putQ clock frame qs true) = _
        rw [hrest]
        rfl
      · refine Or.inr ⟨fun h => h.elim hleft hrefuse, q' :: qs', ?_⟩
        show consState q' (broadcast c putQ clock frame qs true) = _
        rw [hrest]
        rfl
    · -- a raise ends the call
      rw [hput]
      refine Or.inl ⟨?_, Or.inr ⟨e, q' :: qs, rfl⟩⟩
      rcases hraise with ⟨body, htest, hexh⟩ | ⟨e', htest⟩
      · rw [htest]
        exact Or.inl hexh
      · rw [htest]
        exact trivial

/-! ## One call -/

/-- A worker whose output queues are well formed and on this host. -/
structure Ready (w : Worker) : Prop where
  outQs_ne_nil : w.outQs ≠ []
  wellFormed : ∀ q ∈ w.outQs, WellFormed q
  isLocal : ∀ q ∈ w.outQs, ¬ Remote q

/-- `emit` on a worker with output queues is the loop over them, with the counter one higher. -/
theorem emit_eq_broadcast {w : Worker} (hne : w.outQs ≠ []) {data : EmitData} {frame : DataFrame}
    (hframe : w.stampedFrame c data = .ok frame) :
    emit c putQ clock data w = match broadcast c putQ clock frame w.outQs true with
      | .ok success qs =>
          .ok success { w with outQs := qs, processedCounter := w.processedCounter + 1 }
      | .error e qs => .error e { w with outQs := qs, processedCounter := w.processedCounter + 1 } := by
  rw [emit, hframe]
  obtain ⟨q, qs, hqs⟩ := List.exists_cons_of_ne_nil hne
  dsimp only
  split
  · rename_i h _
    exact absurd h hne
  · rename_i h _
    exact absurd h hne
  · rfl

variable (putQ clock) in
/-- When no queue refuses, `emit` returns `True` with the frame on every queue, or it raises. -/
theorem Ready.emit_of_deliverable {w : Worker} (h : Ready w) {data : EmitData}
    (hd : Deliverable c data w) :
    (∃ frame w', w.stampedFrame c data = .ok frame ∧ emit c putQ clock data w = .ok true w' ∧
        List.Forall₂ (Took c clock frame) w.outQs w'.outQs) ∨
      ∃ e w', emit c putQ clock data w = .error e w' := by
  cases hframe : w.stampedFrame c data with
  | error e =>
    refine Or.inr ⟨e, w, ?_⟩
    rw [emit, hframe]
  | ok frame =>
    rw [Deliverable, hframe] at hd
    rw [emit_eq_broadcast h.outQs_ne_nil hframe]
    rcases broadcast_ends h.wellFormed h.isLocal with ⟨-, ⟨qs', hloop, htook⟩ | ⟨e, qs', hloop⟩⟩ |
      ⟨hrefuse, -⟩
    · exact Or.inl ⟨frame, _, rfl, by rw [hloop], htook⟩
    · exact Or.inr ⟨e, _, by rw [hloop]⟩
    · exact absurd hd hrefuse

variable (putQ clock) in
/-- When a queue refuses, `emit` returns `False` and counts the call all the same. -/
theorem Ready.emit_of_not_deliverable {w : Worker} (h : Ready w) {data : EmitData}
    (hd : ¬ Deliverable c data w) :
    ∃ w', emit c putQ clock data w = .ok false w' ∧
      w'.processedCounter = w.processedCounter + 1 := by
  cases hframe : w.stampedFrame c data with
  | error e =>
    rw [Deliverable, hframe] at hd
    exact absurd trivial hd
  | ok frame =>
    rw [Deliverable, hframe] at hd
    rw [emit_eq_broadcast h.outQs_ne_nil hframe]
    rcases broadcast_ends h.wellFormed h.isLocal with ⟨hnone, -⟩ | ⟨-, qs', hloop⟩
    · exact absurd hnone hd
    · exact ⟨_, by rw [hloop], rfl⟩

/-! ## Retrying -/

variable (c putQ clock) in
/-- The workers at the start of each attempt of `while not emit(data)`. Between two attempts other
processes may change the queues, but not how many there are. -/
inductive Retries (data : EmitData) : List Worker → Prop
  | last {w w' : Worker} (h : emit c putQ clock data w = .ok true w') : Retries data [w]
  | again {w w' next : Worker} {later : List Worker} (h : emit c putQ clock data w = .ok false w')
      (hlen : next.outQs.length = w'.outQs.length) (rest : Retries data (next :: later)) :
      Retries data (w :: next :: later)

variable (c putQ clock) in
/-- Which of the queues take the frame in one pass of the loop. -/
def takers (frame : DataFrame) : List MemQueue → List Bool
  | [] => []
  | q :: qs =>
      match enqueue c putQ clock frame q with
      | .ok true _ => true :: takers frame qs
      | _ => false :: qs.map fun _ => false

variable (c putQ clock) in
/-- How often the queue at position `i` takes the frame over all attempts. -/
def deliveries (data : EmitData) (i : ℕ) (attempts : List Worker) : ℕ :=
  (attempts.map fun w =>
    match w.stampedFrame c data with
    | .ok frame => if (takers c putQ clock frame w.outQs)[i]? = some true then 1 else 0
    | .error _ => 0).sum

/-- In a pass that every queue takes, every queue is a taker. -/
theorem takers_of_forall₂ {frame : DataFrame} {qs qs' : List MemQueue}
    (hlocal : ∀ q ∈ qs, ¬ Remote q) (h : List.Forall₂ (Took c clock frame) qs qs') :
    takers c putQ clock frame qs = qs.map fun _ => true := by
  induction h with
  | nil => rfl
  | cons hput _ ih =>
    rw [takers, enqueue_local (hlocal _ List.mem_cons_self), hput,
      ih (fun q hq => hlocal q (List.mem_cons_of_mem _ hq))]
    rfl

/-- A caller that retries gets the frame to every queue exactly once, if every attempt finds all queues
willing. -/
theorem Ready.deliveries_eq_one {data : EmitData} {w : Worker} {later : List Worker}
    (hready : ∀ a ∈ w :: later, Ready a) (hd : ∀ a ∈ w :: later, Deliverable c data a)
    (hretry : Retries c putQ clock data (w :: later)) {i : ℕ} (hi : i < w.outQs.length) :
    deliveries c putQ clock data i (w :: later) = 1 := by
  have hw := hready w List.mem_cons_self
  have hends := hw.emit_of_deliverable putQ clock (hd w List.mem_cons_self)
  cases hretry with
  | last h =>
    rcases hends with ⟨frame, w', hframe, hemit, htook⟩ | ⟨e, w', hemit⟩
    · rw [deliveries, List.map_singleton, List.sum_singleton, hframe]
      dsimp only
      rw [takers_of_forall₂ hw.isLocal htook, List.getElem?_map, List.getElem?_eq_getElem hi]
      rfl
    · rw [h] at hemit
      cases hemit
  | again h _ _ =>
    rcases hends with ⟨_, w', -, hemit, -⟩ | ⟨e, w', hemit⟩
    · rw [h] at hemit
      cases hemit
    · rw [h] at hemit
      cases hemit

/-- For a worker with local output queues `emit` keeps its contract exactly when no queue gets to refuse
the frame; and a retry loop whose attempts all meet this delivers the frame once to every queue. -/
theorem emit_allOrNothing_iff {w : Worker} (hw : Ready w) (data : EmitData) :
    (AllOrNothing c putQ clock data w ↔ Deliverable c data w) ∧
      ∀ later, (∀ a ∈ w :: later, Ready a ∧ Deliverable c data a) →
        Retries c putQ clock data (w :: later) →
          ∀ i < w.outQs.length, deliveries c putQ clock data i (w :: later) = 1 := by
  refine ⟨?_, ?_⟩
  · by_cases hd : Deliverable c data w
    · refine iff_of_true ?_ hd
      rcases hw.emit_of_deliverable putQ clock hd with
        ⟨frame, w', hframe, hemit, htook⟩ | ⟨e, w', hemit⟩
      · rw [AllOrNothing, hframe, hemit]
        exact htook
      · rw [AllOrNothing, hemit]
        cases w.stampedFrame c data <;> exact trivial
    · refine iff_of_false ?_ hd
      obtain ⟨w', hemit, hcount⟩ := hw.emit_of_not_deliverable putQ clock hd
      intro h
      rw [AllOrNothing, hemit] at h
      have hsame : w'.processedCounter = w.processedCounter := by
        cases hframe : w.stampedFrame c data <;> rw [hframe] at h <;> exact h.2
      omega
  · intro later hall hretry i hi
    exact Ready.deliveries_eq_one (fun a ha => (hall a ha).1) (fun a ha => (hall a ha).2) hretry hi

instance decNoneRefuses (df : Except PyError Bytes) : ∀ qs, Decidable (NoneRefuses df qs)
  | [] => isTrue trivial
  | q :: qs =>
      have := decNoneRefuses df qs
      match h : q.putTest df with
      | .ok none => isFalse (by rw [NoneRefuses, h]; exact id)
      | .ok (some _) =>
          decidable_of_iff (q.Exhausted ∨ NoneRefuses df qs) (by rw [NoneRefuses, h])
      | .error _ => isTrue (by rw [NoneRefuses, h]; exact trivial)

instance (data : EmitData) (w : Worker) : Decidable (Deliverable c data w) :=
  match h : w.stampedFrame c data with
  | .ok frame =>
      decidable_of_iff (NoneRefuses (frame.toByteArr c) w.outQs) (by rw [Deliverable, h])
  | .error _ => isTrue (by rw [Deliverable, h]; exact trivial)

/-- A worker that is not handling an execution, with these output queues. -/
def withOutQs (qs : List MemQueue) : Worker where
  outQs := qs
  sinkQ := none
  processedCounter := 0
  currentPipeExecutionId := .none

theorem ready_pair {q r : MemQueue} (hq : WellFormed q) (hr : WellFormed r) (hql : ¬ Remote q)
    (hrl : ¬ Remote r) : Ready (withOutQs [q, r]) where
  outQs_ne_nil := List.cons_ne_nil _ _
  wellFormed := by
    rintro x (_ | ⟨_, _ | ⟨_, h⟩⟩)
    exacts [hq, hr, nomatch h]
  isLocal := by
    rintro x (_ | ⟨_, _ | ⟨_, h⟩⟩)
    exacts [hql, hrl, nomatch h]

/-- A decidable fact about two fresh queues. -/
theorem of_create_pair (P : MemQueue → MemQueue → Prop) [∀ q r, Decidable (P q r)] {a b : APIQueue}
    {q r : MemQueue} (hq : create a = .ok q) (hr : create b = .ok r)
    (h : (create a).toOption.all (fun q => (create b).toOption.all fun r => decide (P q r)) = true) :
    P q r := by
  rw [hq, hr] at h
  exact of_decide_eq_true h

/-- A call on two roomy queues keeps the contract, and needs no retry. -/
theorem emit_two_roomy_queues :
    ∃ q r, create (queueOfSize 200) = .ok q ∧ create (queueOfSize 130) = .ok r ∧
      AllOrNothing Codec.emptyObjects (fun _ _ => .ok false) (fun _ => 0) (.value (.int 5))
        (withOutQs [q, r]) ∧
      ∀ i < 2, deliveries Codec.emptyObjects (fun _ _ => .ok false) (fun _ => 0) (.value (.int 5)) i
        [withOutQs [q, r]] = 1 := by
  obtain ⟨q, hq, hholds, -⟩ := create_holds (queueOfSize 200) (by decide) (by decide)
  obtain ⟨r, hr, hholds', -⟩ := create_holds (queueOfSize 130) (by decide) (by decide)
  have hready : Ready (withOutQs [q, r]) :=
    ready_pair hholds.toStores.wellFormed hholds'.toStores.wellFormed
      (of_create (fun q => ¬ Remote q) hq (by decide +kernel))
      (of_create (fun q => ¬ Remote q) hr (by decide +kernel))
  have hd : Deliverable Codec.emptyObjects (.value (.int 5)) (withOutQs [q, r]) :=
    of_create_pair (fun q r => Deliverable Codec.emptyObjects (.value (.int 5)) (withOutQs [q, r]))
      hq hr (by decide +kernel)
  have hemit := of_create_pair (fun q r =>
    (match emit Codec.emptyObjects (fun _ _ => .ok false) (fun _ => 0) (.value (.int 5))
      (withOutQs [q, r]) with | .ok success _ => success | .error _ _ => false) = true)
      hq hr (by decide +kernel)
  obtain ⟨hiff, hretry⟩ := emit_allOrNothing_iff (c := Codec.emptyObjects) hready (.value (.int 5))
  refine ⟨q, r, hq, hr, hiff.mpr hd, ?_⟩
  split at hemit
  · rename_i success w' h
    subst hemit
    refine hretry [] ?_ (Retries.last h)
    intro a ha
    rw [List.mem_singleton.mp ha]
    exact ⟨hready, hd⟩
  · cases hemit

/-- The second queue is too small for the frame: the first one keeps its copy, `emit` returns `False`,
and the counter has gone up. -/
theorem emit_partial_broadcast :
    ∃ q r, create (queueOfSize 200) = .ok q ∧ create (queueOfSize 97) = .ok r ∧
      Ready (withOutQs [q, r]) ∧
      ¬ AllOrNothing Codec.emptyObjects (fun _ _ => .ok false) (fun _ => 0) (.value (.int 5))
        (withOutQs [q, r]) := by
  obtain ⟨q, hq, hholds, -⟩ := create_holds (queueOfSize 200) (by decide) (by decide)
  obtain ⟨r, hr, hholds', -⟩ := create_holds (queueOfSize 97) (by decide) (by decide)
  refine ⟨q, r, hq, hr, ready_pair hholds.toStores.wellFormed hholds'.toStores.wellFormed
    (of_create (fun q => ¬ Remote q) hq (by decide +kernel))
    (of_create (fun q => ¬ Remote q) hr (by decide +kernel)), ?_⟩
  -- the call returns `False`, and the first queue is not what it was
  obtain ⟨hreturned, hchanged⟩ := of_create_pair (fun q r =>
    returned (emit Codec.emptyObjects (fun _ _ => .ok false) (fun _ => 0) (.value (.int 5))
        (withOutQs [q, r])) = some false ∧
      (stateOf (emit Codec.emptyObjects (fun _ _ => .ok false) (fun _ => 0) (.value (.int 5))
        (withOutQs [q, r]))).outQs ≠ [q, r]) hq hr (by decide +kernel)
  obtain ⟨w', h⟩ := returned_eq_some_iff.mp hreturned
  rw [h] at hchanged
  intro hcontract
  rw [AllOrNothing, h] at hcontract
  cases hframe : (withOutQs [q, r]).stampedFrame Codec.emptyObjects (.value (.int 5)) with
  | error e =>
    rw [hframe] at hcontract
    exact hchanged hcontract.1
  | ok frame =>
    rw [hframe] at hcontract
    exact hchanged hcontract.1

end Upipe.Worker
