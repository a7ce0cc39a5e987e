import Upipe.Common.Runs
import Upipe.Entities.MemQueue.Holds

/-!
# Competing consumers

Any number of consumers empty one queue. A `get` is two steps: the pending test, without a lock, and then,
after the wait for the read lock, the locked body. A consumer may find the queue drained by others when it
gets the lock: the bytes of every taken frame are zeros, and a zero is no `CREATED`.

`consumers_share` says of every run that the frames leave the queue once each, in order.
-/

namespace Upipe.MemQueue

open Upipe.Common

/-! ## The queue -/

/-- The address of the byte `n` bytes behind `exe_index` on the ring. -/
def addressAt (q : MemQueue) (n : ℕ) : ℕ :=
  qControlSize + (q.exeIndex - qControlSize + n) % q.data.length

/-- From `exe_index` to `alloc_index` lie the intact and counted `frames`, zeros in the rest of the data area,
of which at least one byte is free. On a queue of `2 ^ 32` bytes or more, every address that `exe_index`
gets to has to fit its four bytes. -/
structure Consumable (q : MemQueue) (frames : List Frame) : Prop extends Lies q frames where
  intact : ∀ f ∈ frames, f.Intact
  free : used frames < q.size - qControlSize
  counted : q.allocCounter = q.exeCounter + frames.length
  indexable : ∀ passed left, frames = passed ++ left → q.addressAt (used passed) < 256 ^ 4

variable {q q' : MemQueue} {frames : List Frame} {f : Frame}

theorem Holds.consumable (h : Holds q frames) : Consumable q frames where
  toLies := h.toStores.lies
  intact := h.intact
  free := h.free
  counted := h.counted
  indexable passed left _ := by
    have hmod : (q.exeIndex - qControlSize + used passed) % q.data.length < q.data.length :=
      Nat.mod_lt _ (Nat.zero_lt_of_lt h.laid.head_lt)
    have hdata := h.length_data
    have := h.size_lt
    have := h.size_ge
    rw [addressAt]
    omega

section Locked

variable {α : Type} {fromByteArr : Bytes → Except PyError α}

/-- On a drained queue the locked body finds nothing and changes nothing. -/
theorem Consumable.getLocked_nil (h : Consumable q []) (now : UInt64) :
    getLocked fromByteArr now q = .ok none q :=
  MemQueue.getLocked_nil fromByteArr h.toLies now

/-- Otherwise it takes the frame in front. -/
theorem Consumable.getLocked_cons (h : Consumable q (f :: frames)) {a : α}
    (hd : fromByteArr f.body = .ok a) (now : UInt64) :
    ∃ q', getLocked fromByteArr now q = .ok (some a) q' ∧ Consumable q' frames := by
  have hf := h.intact f List.mem_cons_self
  have hcounted := h.counted
  have hfree := h.free
  have halloc : q.allocCounter < 256 ^ 4 := getInt_lt ..
  rw [List.length_cons] at hcounted
  rw [used_cons] at hfree
  have hnext : q.addressBehind f < 256 ^ 4 := by
    have := h.indexable [f] frames rfl
    rwa [used_cons, used_nil] at this
  obtain ⟨q₁, hl₁, hc₁, hexe₁, heq⟩ := MemQueue.getLocked_cons fromByteArr h.toLies hf.watermark_eq hnext now
  have hcount₁ : q₁.exeCounter = q.exeCounter := hc₁.getInt (by decide) (Or.inr (by decide))
  obtain ⟨q₂, hfinish, hc₂, hcount₂⟩ :=
    finishGet_ok fromByteArr hl₁.control_le hd (by omega) q.exeIndex now
  have hl₂ := hl₁.sameOff (hc₂.mono (by decide) (by decide))
  have hexe₂ : q₂.exeIndex = q.addressBehind f := (hc₂.getInt (Or.inl (by decide))).trans hexe₁
  have hsize₂ : q₂.size = q.size := hc₂.size.trans hc₁.size
  have hdata₂ : q₂.data.length = q.data.length := by
    rw [hl₂.length_data, h.length_data, hsize₂]
  refine ⟨q₂, ?_, ?_⟩
  · rw [heq, show f.crc = _ from hf.crcOk]
    exact hfinish
  · exact {
      toLies := hl₂
      intact := fun g hg => h.intact g (List.mem_cons_of_mem f hg)
      free := by omega
      counted := by
        have halloc₂ : q₂.allocCounter = q.allocCounter :=
          (hc₂.getInt (Or.inl (by decide))).trans (hc₁.getInt (by decide) (Or.inr (by decide)))
        omega
      indexable := by
        intro passed left hsplit
        -- the way behind the frame is the rest of the old way
        have hold := h.indexable (f :: passed) left (by rw [hsplit]; rfl)
        rw [addressAt, used_cons] at hold
        rw [addressAt, hexe₂, addressBehind, Nat.add_sub_cancel_left, hdata₂, Nat.mod_add_mod,
          Nat.add_assoc]
        exact hold }

end Locked

/-! ## The system -/

/-- The queue, the consumers that passed the pending test and wait for the read lock, and the answers of the
calls that ended, oldest first. -/
structure Consumers (Consumer α : Type) where
  mem : MemQueue
  waiting : List Consumer
  answers : List (Consumer × Except PyError (Option α))

/-- One step of one consumer. An index selects one of those that wait. -/
inductive ConsumerEvent (Consumer : Type) where
  | test (c : Consumer)
  | body (i : ℕ) (now : UInt64)

variable {Consumer α : Type}

/-- No consumer has called yet. -/
def Consumers.start (q : MemQueue) : Consumers Consumer α := ⟨q, [], []⟩

/-- The two steps of `get`. -/
def consumerStep (fromByteArr : Bytes → Except PyError α) (s : Consumers Consumer α) :
    ConsumerEvent Consumer → Option (Consumers Consumer α)
  | .test c =>
      if s.mem.pendingCounter = 0 then some { s with answers := s.answers ++ [(c, .ok none)] }
      else some { s with waiting := s.waiting ++ [c] }
  | .body i now =>
      match s.waiting[i]? with
      | some c =>
          let result := getLocked fromByteArr now s.mem
          some { mem := stateOf result, waiting := s.waiting.eraseIdx i,
                 answers := s.answers ++ [(c, answerOf result)] }
      | none => none

/-- With nobody in between, the two steps are `get`. -/
theorem get_eq_steps (fromByteArr : Bytes → Except PyError α) (s : Consumers Consumer α) (c : Consumer)
    (now : UInt64) :
    runFrom (consumerStep fromByteArr) s
        (if s.mem.pendingCounter = 0 then [.test c] else [.test c, .body s.waiting.length now])
      = some { s with
          mem := stateOf (get fromByteArr now s.mem)
          answers := s.answers ++ [(c, answerOf (get fromByteArr now s.mem))] } := by
  rw [get, get_bind_apply]
  by_cases hpending : s.mem.pendingCounter = 0
  · rw [if_pos hpending, if_pos hpending, runFrom, consumerStep, if_pos hpending]
    rfl
  · rw [if_neg hpending, if_neg hpending, runFrom, consumerStep, if_neg hpending, Option.bind_some,
      runFrom, consumerStep]
    dsimp only
    rw [List.getElem?_concat_length, Option.bind_some, runFrom,
      List.eraseIdx_append_of_length_le (Nat.le_refl _), Nat.sub_self, List.eraseIdx_zero, List.tail_cons,
      List.append_nil]

/-! ## Every run -/

/-- The frames that were handed out, in the order of the answers. -/
def handedOut (answers : List (Consumer × Except PyError (Option α))) : List α :=
  answers.filterMap fun answer => answer.2.toOption.join

theorem handedOut_concat (answers : List (Consumer × Except PyError (Option α))) (c : Consumer)
    (answer : Except PyError (Option α)) :
    handedOut (answers ++ [(c, answer)]) = handedOut answers ++ answer.toOption.join.toList := by
  rw [handedOut, List.filterMap_append, ← handedOut]
  cases h : answer.toOption.join <;> simp [h]

/-- What the next locked body answers, when `left` is left. -/
def NextBody (fromByteArr : Bytes → Except PyError α) (q : MemQueue) (left : List Frame) : Prop :=
  ∀ now, match left with
    | [] => getLocked fromByteArr now q = .ok none q
    | f :: _ => ∃ a q', fromByteArr f.body = .ok a ∧ getLocked fromByteArr now q = .ok (some a) q'

/-- Of the frames `frames`, the consumers have got `taken` and the queue holds `left`. -/
structure Shares (fromByteArr : Bytes → Except PyError α) (frames : List Frame)
    (s : Consumers Consumer α) (taken left : List Frame) : Prop where
  split : frames = taken ++ left
  consumable : Consumable s.mem left
  no_exception : ∀ answer ∈ s.answers, answer.2.isOk
  in_order : (handedOut s.answers).map .ok = taken.map fun f => fromByteArr f.body

variable {fromByteArr : Bytes → Except PyError α} {s s' : Consumers Consumer α} {taken left : List Frame}

/-- An answer without a frame, with the queue as it was. -/
theorem Shares.none (h : Shares fromByteArr frames s taken left) {mem : MemQueue}
    (hmem : mem = s.mem) (waiting : List Consumer) (c : Consumer) :
    Shares fromByteArr frames ⟨mem, waiting, s.answers ++ [(c, .ok none)]⟩ taken left where
  split := h.split
  consumable := hmem ▸ h.consumable
  no_exception answer hanswer := by
    rcases List.mem_append.mp hanswer with hanswer | hanswer
    · exact h.no_exception answer hanswer
    · rw [List.mem_singleton.mp hanswer]
      rfl
  in_order := by
    have := h.in_order
    rw [handedOut_concat]
    simpa [Except.toOption] using this

/-- An answer with the frame that was in front. -/
theorem Shares.some (h : Shares fromByteArr frames s taken (f :: left)) {a : α}
    (hd : fromByteArr f.body = .ok a) (hq : Consumable q left) (waiting : List Consumer) (c : Consumer) :
    Shares fromByteArr frames ⟨q, waiting, s.answers ++ [(c, .ok (some a))]⟩ (taken ++ [f]) left where
  split := by
    rw [h.split, List.append_assoc]
    rfl
  consumable := hq
  no_exception answer hanswer := by
    rcases List.mem_append.mp hanswer with hanswer | hanswer
    · exact h.no_exception answer hanswer
    · rw [List.mem_singleton.mp hanswer]
      rfl
  in_order := by
    have := h.in_order
    rw [handedOut_concat, List.map_append, List.map_append, this, List.map_singleton, hd]
    rfl

section Decodes

variable (hdecodes : ∀ f ∈ frames, (fromByteArr f.body).isOk)

include hdecodes

theorem Shares.decodes (h : Shares fromByteArr frames s taken (f :: left)) :
    ∃ a, fromByteArr f.body = .ok a := by
  have hok := hdecodes f (by
    rw [h.split]
    exact List.mem_append_right _ List.mem_cons_self)
  cases hbody : fromByteArr f.body with
  | ok a => exact ⟨a, rfl⟩
  | error e =>
    rw [hbody] at hok
    cases hok

theorem Shares.step (h : Shares fromByteArr frames s taken left) {e : ConsumerEvent Consumer}
    (hstep : consumerStep fromByteArr s e = Option.some s') :
    ∃ taken' left', Shares fromByteArr frames s' taken' left' := by
  cases e with
  | test c =>
    rw [consumerStep] at hstep
    split at hstep <;> cases hstep
    · exact ⟨taken, left, h.none rfl s.waiting c⟩
    · exact ⟨taken, left, { h with }⟩
  | body i now =>
    rw [consumerStep] at hstep
    split at hstep
    · rename_i c hi
      cases hstep
      cases left with
      | nil =>
        rw [h.consumable.getLocked_nil now]
        exact ⟨taken, [], h.none rfl (s.waiting.eraseIdx i) c⟩
      | cons f left =>
        obtain ⟨a, ha⟩ := h.decodes hdecodes
        obtain ⟨q, hget, hq⟩ := h.consumable.getLocked_cons ha now
        rw [hget]
        exact ⟨taken ++ [f], left, h.some ha hq (s.waiting.eraseIdx i) c⟩
    · cases hstep

theorem Shares.nextBody (h : Shares fromByteArr frames s taken left) :
    NextBody fromByteArr s.mem left := by
  intro now
  cases left with
  | nil => exact h.consumable.getLocked_nil now
  | cons f left =>
    obtain ⟨a, ha⟩ := h.decodes hdecodes
    obtain ⟨q, hget, -⟩ := h.consumable.getLocked_cons ha now
    exact ⟨a, q, ha, hget⟩

/-- From every queue of intact frames that decode, with a byte free, and for every interleaving of any
number of consumers: no call raises, the frames that were handed out are the first ones, each once and in
order, the queue holds the others, and the next locked body gets the first of these, or nothing from a
queue that it leaves alone. -/
theorem consumers_share (hq : Consumable q frames) {events : List (ConsumerEvent Consumer)}
    (hrun : runFrom (consumerStep fromByteArr) (Consumers.start q) events = Option.some s) :
    ∃ taken left, Shares fromByteArr frames s taken left ∧ NextBody fromByteArr s.mem left := by
  have hstart : Shares fromByteArr frames (Consumers.start q : Consumers Consumer α) [] frames :=
    { split := rfl
      consumable := hq
      no_exception := fun _ hanswer => absurd hanswer List.not_mem_nil
      in_order := rfl }
  have hend : ∃ taken left, Shares fromByteArr frames s taken left := by
    refine @runFrom_invariant _ _ _ (fun s => ∃ taken left, Shares fromByteArr frames s taken left) ?_ _ _
      ⟨[], frames, hstart⟩ _ hrun
    rintro s e s' ⟨taken, left, h⟩ hstep
    exact h.step hdecodes hstep
  obtain ⟨taken, left, h⟩ := hend
  exact ⟨taken, left, h, h.nextBody hdecodes⟩

end Decodes

/-- Two consumers see the one frame of a queue of 200 bytes, and a third call finds it drained. -/
theorem consumers_share_one_frame :
    ∃ q f s, Consumable q [f] ∧
      runFrom (consumerStep (Except.ok : Bytes → Except PyError Bytes)) (Consumers.start q)
        [.test true, .test false, .body 1 5000, .body 0 7, .test true] = some s ∧
      ∃ taken left, Shares Except.ok [f] s taken left ∧ NextBody Except.ok s.mem left := by
  obtain ⟨q, hq, hholds, hsize, hac, hfc⟩ := create_holds (queueOfSize 200) (by decide) (by decide)
  obtain ⟨q', hsize', hput, hholds', -⟩ := hholds.put_ok 0
    (of_create (fun q => ¬ q.overCapacity) hq (by decide +kernel))
    (of_create (fun q => (frameSize [1, 2] : ℤ) < q.freeSpace) hq (by decide +kernel))
    (by omega) (by omega)
  have hrun := of_create (fun q =>
    (runFrom (consumerStep (Except.ok : Bytes → Except PyError Bytes))
      (Consumers.start (stateOf (q.put (.ok [1, 2]) 0)))
      [.test true, .test false, .body 1 5000, .body 0 7, .test true]).isSome = true) hq (by decide +kernel)
  rw [hput, stateOf_ok] at hrun
  obtain ⟨s, hs⟩ := Option.isSome_iff_exists.mp hrun
  exact ⟨q', _, s, hholds'.consumable, hs, consumers_share (fun _ _ => rfl) hholds'.consumable hs⟩

end Upipe.MemQueue
