import Upipe.Entities.MemQueue.Fifo

/-!
# How long the counters last

`alloc_counter`, `exe_counter` and the frame counter of each producer's object are written with
`to_bytes(4, ..)`, which raises where an integer of four bytes would wrap. `put` counts a frame last: the
put that finds `alloc_counter` at its end has written its frame and moved `alloc_index` when it raises.

`countersSurvive_iff` says which runs of puts into a queue with room and of gets from a queue with frames
go well: those of fewer than `2 ^ 32` puts.
-/

namespace Upipe.MemQueue

open Upipe.Common

/-- The queue and the frame counters of the producers' objects. -/
structure Writers (Producer : Type) where
  mem : MemQueue
  frameNumbers : Producer → ℕ

/-- One call on the queue. -/
inductive Use (Producer : Type) where
  | put (p : Producer) (body : Bytes) (now : UInt64)
  | get (now : UInt64)

section Run

variable {Producer α : Type}

namespace Writers

/-- The queue as one producer's object sees it. -/
def handle (s : Writers Producer) (p : Producer) : MemQueue :=
  { s.mem with frameCounter := s.frameNumbers p }

/-- The queue after a `put` by one producer's object. -/
def after [DecidableEq Producer] (s : Writers Producer) (p : Producer) (q : MemQueue) :
    Writers Producer where
  mem := q
  frameNumbers := Function.update s.frameNumbers p q.frameCounter

/-- The objects of the producers are new. -/
def start (q : MemQueue) : Writers Producer := ⟨q, fun _ => 0⟩

end Writers

/-- A queue of the given size that stores the bodies `pending` has room for one more: at most 90% of its
size is in use, and the frame fits the rest of the data area. -/
def RoomFor (size : ℕ) (pending : List Bytes) (body : Bytes) : Prop :=
  10 * storedSize pending ≤ 9 * size ∧ storedSize pending + frameSize body ≤ size - qControlSize

instance (size : ℕ) (pending : List Bytes) (body : Bytes) : Decidable (RoomFor size pending body) :=
  inferInstanceAs (Decidable (_ ∧ _))

variable (fromByteArr : Bytes → Except PyError α)

/-- Every put comes to a queue with room and with a body that decodes, and every get to a queue that is not
empty. -/
def Legal (size : ℕ) : List Bytes → List (Use Producer) → Prop
  | _, [] => True
  | pending, .put _ body _ :: uses =>
      RoomFor size pending body ∧ (fromByteArr body).isOk ∧ Legal size (pending ++ [body]) uses
  | pending, .get _ :: uses => pending ≠ [] ∧ Legal size pending.tail uses

/-- Every put of the run returns `True`, every get the oldest frame, and `pending_counter` is the number of
frames in every state. -/
def CountersSurvive [DecidableEq Producer] : List Bytes → Writers Producer → List (Use Producer) → Prop
  | pending, s, [] => s.mem.pendingCounter = pending.length
  | pending, s, .put p body now :: uses => s.mem.pendingCounter = pending.length ∧
      match (s.handle p).put (.ok body) now with
      | .ok accepted q => accepted = true ∧ CountersSurvive (pending ++ [body]) (s.after p q) uses
      | .error _ _ => False
  | pending, s, .get now :: uses => s.mem.pendingCounter = pending.length ∧
      match MemQueue.get fromByteArr now s.mem with
      | .ok frame q => (∃ body ∈ pending.head?, ∃ a, fromByteArr body = .ok a ∧ frame = some a) ∧
          CountersSurvive pending.tail { s with mem := q } uses
      | .error _ _ => False

/-- The number of puts. -/
def puts : List (Use Producer) → ℕ
  | [] => 0
  | .put .. :: uses => puts uses + 1
  | .get _ :: uses => puts uses

instance decLegal (size : ℕ) : ∀ (pending : List Bytes) (uses : List (Use Producer)),
    Decidable (Legal fromByteArr size pending uses)
  | _, [] => isTrue trivial
  | pending, .put _ body _ :: uses =>
      have := decLegal size (pending ++ [body]) uses
      inferInstanceAs (Decidable (_ ∧ _ ∧ _))
  | pending, .get _ :: uses =>
      have := decLegal size pending.tail uses
      inferInstanceAs (Decidable (_ ∧ _))

/-! ## One call -/

variable {fromByteArr} {s : Writers Producer} {frames : List Frame} {body : Bytes}

/-- An object of a producer carries what the queue carries. -/
theorem Carries.handle (h : Carries s.mem frames) (p : Producer) : Carries (s.handle p) frames where
  toStores := h.toStores.congr rfl rfl rfl rfl rfl
  intact := h.intact
  counted := h.counted

/-- The put that finds the allocation counter at its end raises, with the frame on the queue and not
counted. -/
theorem Carries.put_overflow {q : MemQueue} (h : Carries q frames) (now : UInt64)
    (hover : ¬ q.overCapacity) (hroom : used frames + frameSize body ≤ q.size - qControlSize)
    (hnum : q.frameCounter < 256 ^ 4) (hfull : q.allocCounter + 1 = 256 ^ 4) :
    ∃ e q' hsize, q.put (.ok body) now = .error e q' ∧ e.kind = .overflowError ∧
      Pushed q frames (Frame.ofBody body q.frameCounter hsize) q' ∧ q'.allocCounter = q.allocCounter := by
  have hsize := h.frameSize_lt_of_room hroom
  have hout := putLocked_outcome h.toStores now hroom hsize
  rw [put_admitted now hover (h.fitsFree_of_room hroom)]
  revert hout
  generalize putLocked body now q = r
  rintro (⟨hnum', -⟩ | ⟨hk, pushed, -, hcounter, -⟩ | @⟨q', -, -, hcounter⟩)
  · omega
  · exact ⟨_, _, hsize, rfl, hk, pushed, hcounter⟩
  · have hlt : q'.allocCounter < 256 ^ 4 := getInt_lt ..
    omega

/-- The room of the abstract queue is that of the real one. -/
theorem Carries.admits {q : MemQueue} (h : Carries q frames)
    (hroom : RoomFor q.size (frames.map Frame.body) body) :
    ¬ q.overCapacity ∧ used frames + frameSize body ≤ q.size - qControlSize := by
  obtain ⟨hcapacity, hfit⟩ := hroom
  rw [← used_eq_storedSize] at hcapacity hfit
  rw [h.overCapacity_iff_of_room hfit]
  exact ⟨by omega, hfit⟩

/-! ## A whole run -/

/-- What every call of a run keeps: no producer has written more frames than are counted, and every body
decodes. -/
structure Writers.Lasting (fromByteArr : Bytes → Except PyError α) (s : Writers Producer)
    (frames : List Frame) : Prop extends Carries s.mem frames where
  numbers_le : ∀ p, s.frameNumbers p ≤ s.mem.allocCounter
  decodes : ∀ f ∈ frames, (fromByteArr f.body).isOk

theorem Writers.Lasting.put [DecidableEq Producer] (h : s.Lasting fromByteArr frames) {p : Producer}
    {q : MemQueue} {hsize : frameSize body < 256 ^ 4} (hdecodes : (fromByteArr body).isOk)
    (hpushed : Pushed (s.handle p) frames (Frame.ofBody body (s.frameNumbers p) hsize) q)
    (hcarries : Carries q (frames ++ [Frame.ofBody body (s.frameNumbers p) hsize]))
    (hcounter : q.allocCounter = s.mem.allocCounter + 1) :
    (s.after p q).Lasting fromByteArr (frames ++ [Frame.ofBody body (s.frameNumbers p) hsize]) where
  toCarries := hcarries
  numbers_le p' := by
    have hle := h.numbers_le p'
    have hp := h.numbers_le p
    have hnumber : q.frameCounter = s.frameNumbers p + 1 := hpushed.ctl.frameCounter
    show Function.update s.frameNumbers p q.frameCounter p' ≤ q.allocCounter
    rw [Function.update_apply]
    split <;> omega
  decodes f hf := by
    rcases List.mem_append.mp hf with hf | hf
    · exact h.decodes f hf
    · rw [List.mem_singleton.mp hf, Frame.body_ofBody]
      exact hdecodes

theorem Writers.Lasting.get {f : Frame} {q : MemQueue} (h : s.Lasting fromByteArr (f :: frames))
    (hpopped : Popped s.mem frames q) (hcarries : Carries q frames) :
    ({ s with mem := q } : Writers Producer).Lasting fromByteArr frames where
  toCarries := hcarries
  numbers_le p := by
    have hle := h.numbers_le p
    have hcounter := hpopped.allocCounter_eq
    show s.frameNumbers p ≤ q.allocCounter
    omega
  decodes g hg := h.decodes g (List.mem_cons_of_mem f hg)

/-- A put into a queue with room, while the allocation counter lasts. -/
theorem Writers.Lasting.put_next [DecidableEq Producer] (h : s.Lasting fromByteArr frames) (p : Producer)
    (now : UInt64) (hroom : RoomFor s.mem.size (frames.map Frame.body) body)
    (hdecodes : (fromByteArr body).isOk) (hlast : s.mem.allocCounter + 1 < 256 ^ 4) :
    ∃ q frame, (s.handle p).put (.ok body) now = .ok true q ∧
      (s.after p q).Lasting fromByteArr (frames ++ [frame]) ∧ frame.body = body ∧
      q.size = s.mem.size ∧ q.allocCounter = s.mem.allocCounter + 1 := by
  obtain ⟨hover, hfit⟩ := (h.toCarries.handle p).admits hroom
  have hnum : (s.handle p).frameCounter < 256 ^ 4 :=
    Nat.lt_of_le_of_lt (h.numbers_le p) (Nat.lt_of_succ_lt hlast)
  obtain ⟨q, hsize, hput, pushed, hcarries, hcounter⟩ :=
    (h.toCarries.handle p).put_ok now hover hfit hnum hlast
  exact ⟨q, _, hput, h.put hdecodes pushed hcarries hcounter, Frame.body_ofBody .., pushed.ctl.size, hcounter⟩

/-- A put into a queue with room raises when the allocation counter is at its end: the frame is written, and the
counter cannot take it. -/
theorem Writers.Lasting.put_raises (h : s.Lasting fromByteArr frames) (p : Producer) (now : UInt64)
    (hroom : RoomFor s.mem.size (frames.map Frame.body) body) (hlast : ¬ s.mem.allocCounter + 1 < 256 ^ 4) :
    ∃ e q, (s.handle p).put (.ok body) now = .error e q := by
  obtain ⟨hover, hfit⟩ := (h.toCarries.handle p).admits hroom
  have hlt : s.mem.allocCounter < 256 ^ 4 := getInt_lt ..
  have hnum : (s.handle p).frameCounter < 256 ^ 4 := Nat.lt_of_le_of_lt (h.numbers_le p) hlt
  have hfull : (s.handle p).allocCounter + 1 = 256 ^ 4 := by
    show s.mem.allocCounter + 1 = _
    omega
  obtain ⟨e, q, -, hput, -⟩ := (h.toCarries.handle p).put_overflow now hover hfit hnum hfull
  exact ⟨e, q, hput⟩

/-- A get from a queue that is not empty. -/
theorem Writers.Lasting.get_next {f : Frame} (h : s.Lasting fromByteArr (f :: frames)) (now : UInt64) :
    ∃ q a, MemQueue.get fromByteArr now s.mem = .ok (some a) q ∧ fromByteArr f.body = .ok a ∧
      ({ s with mem := q } : Writers Producer).Lasting fromByteArr frames ∧
      q.size = s.mem.size ∧ q.allocCounter = s.mem.allocCounter := by
  have hdecodes := h.decodes f List.mem_cons_self
  cases ha : fromByteArr f.body with
  | error e =>
    rw [ha] at hdecodes
    cases hdecodes
  | ok a =>
    obtain ⟨q, hget, popped, hcarries⟩ := h.toCarries.get_ok fromByteArr now ha
    exact ⟨q, a, hget, rfl, h.get popped hcarries, popped.ctl.size, popped.allocCounter_eq⟩

/-- From any state that a run keeps, the rest of the run goes well exactly when the allocation counter
lasts for it. -/
theorem Writers.Lasting.survive_iff [DecidableEq Producer] (h : s.Lasting fromByteArr frames)
    {uses : List (Use Producer)} (hlegal : Legal fromByteArr s.mem.size (frames.map Frame.body) uses) :
    CountersSurvive fromByteArr (frames.map Frame.body) s uses ↔
      s.mem.allocCounter + puts uses < 256 ^ 4 := by
  induction uses generalizing s frames with
  | nil =>
    have hlt : s.mem.allocCounter < 256 ^ 4 := getInt_lt ..
    have hpending := h.pendingCounter_eq
    rw [CountersSurvive, puts, List.length_map]
    exact iff_of_true hpending hlt
  | cons use uses ih =>
    have hpending : s.mem.pendingCounter = (frames.map Frame.body).length := by
      rw [List.length_map]
      exact h.pendingCounter_eq
    cases use with
    | put p body now =>
      obtain ⟨hroom, hdecodes, hrest⟩ := hlegal
      rw [CountersSurvive, puts, and_iff_right hpending]
      by_cases hlast : s.mem.allocCounter + 1 < 256 ^ 4
      · obtain ⟨q, frame, hput, hnext, rfl, hsize, hcounter⟩ := h.put_next p now hroom hdecodes hlast
        have hsize' : (s.after p q).mem.size = s.mem.size := hsize
        have hrun := ih hnext (by
          rw [hsize', List.map_append, List.map_singleton]
          exact hrest)
        rw [List.map_append, List.map_singleton] at hrun
        rw [hput]
        show true = true ∧ CountersSurvive fromByteArr _ (s.after p q) uses ↔ _
        rw [and_iff_right rfl, hrun]
        show q.allocCounter + puts uses < _ ↔ _
        rw [hcounter, Nat.add_right_comm, Nat.add_assoc]
      -- the counter is at its last value: this `put` raises
      · obtain ⟨e, q, hput⟩ := h.put_raises p now hroom hlast
        rw [hput]
        exact iff_of_false id (by omega)
    | get now =>
      obtain ⟨hne, hrest⟩ := hlegal
      cases frames with
      | nil => exact absurd rfl hne
      | cons f frames =>
        obtain ⟨q, a, hget, ha, hnext, hsize, hcounter⟩ := h.get_next now
        have hrun := ih hnext (show Legal fromByteArr q.size _ uses from hsize ▸ hrest)
        rw [CountersSurvive, puts, and_iff_right hpending, hget]
        show _ ∧ CountersSurvive fromByteArr (frames.map Frame.body) _ uses ↔ _
        rw [hrun, and_iff_right ⟨f.body, rfl, a, ha, rfl⟩]
        show q.allocCounter + puts uses < _ ↔ _
        rw [hcounter]

/-- A fresh queue has all its counters at zero. -/
theorem lasting_start {api : APIQueue} (hge : 97 ≤ api.size) (hlt : api.size < 2 ^ 32) {q : MemQueue}
    (hq : create api = .ok q) :
    (Writers.start q : Writers Producer).Lasting fromByteArr [] ∧ q.allocCounter = 0 := by
  obtain ⟨q', hq', hholds, -, hac, -⟩ := create_holds api hge (by omega)
  rw [hq, Except.ok.injEq] at hq'
  subst hq'
  refine ⟨?_, hac⟩
  exact { toCarries := hholds.carries
          numbers_le := fun _ => Nat.zero_le _
          decodes := fun f hf => nomatch hf }

/-- From a fresh queue, with any number of producers, a run of puts into a queue with room and of gets from
a queue with frames goes well exactly when it has fewer than `2 ^ 32` puts. -/
theorem countersSurvive_iff [DecidableEq Producer] {api : APIQueue} (hge : 97 ≤ api.size)
    (hlt : api.size < 2 ^ 32) {q : MemQueue} (hq : create api = .ok q) {uses : List (Use Producer)}
    (hlegal : Legal fromByteArr q.size [] uses) :
    CountersSurvive fromByteArr [] (Writers.start q) uses ↔ puts uses < 2 ^ 32 := by
  have hstart : (Writers.start q : Writers Producer).Lasting fromByteArr [] ∧ q.allocCounter = 0 :=
    lasting_start hge hlt hq
  obtain ⟨hlasting, hzero⟩ := hstart
  have hrun := hlasting.survive_iff hlegal
  have hzero' : (Writers.start q : Writers Producer).mem.allocCounter = 0 := hzero
  rwa [hzero', Nat.zero_add] at hrun

end Run

/-- Two producers and three frames through a queue of 200 bytes. -/
theorem countersSurvive_two_producers :
    ∃ q, create (queueOfSize 200) = .ok q ∧
      CountersSurvive (fun arr => .ok arr) [] (Writers.start q)
        [.put true [1, 2] 0, .put false [] 5000, .get 7, .put true [3] 7, .get 7, .get 7] := by
  obtain ⟨q, hq, -⟩ := create_holds (queueOfSize 200) (by decide) (by decide)
  refine ⟨q, hq, (countersSurvive_iff (by decide) (by decide) hq ?_).mpr (by decide)⟩
  exact of_create (fun q => Legal (fun arr => .ok arr) q.size [] _) hq (by decide +kernel)

/-- One producer puts a frame of one byte and waits until it is taken, `n` times. -/
def alternating : ℕ → List (Use Unit)
  | 0 => []
  | n + 1 => .put () [0] 0 :: .get 0 :: alternating n

theorem puts_alternating (n : ℕ) : puts (alternating n) = n := by
  induction n with
  | zero => rfl
  | succ n ih =>
    show puts (alternating n) + 1 = n + 1
    rw [ih]

theorem legal_alternating {size : ℕ} (h : 97 ≤ size) (n : ℕ) :
    Legal (fun arr => .ok arr) size [] (alternating n) := by
  induction n with
  | zero => exact trivial
  | succ n ih =>
    have hroom : RoomFor size [] [0] := by
      rw [RoomFor, storedSize, List.map_nil, List.sum_nil, frameSize, frameHeaderSize, qControlSize,
        List.length_singleton]
      omega
    exact ⟨hroom, rfl, List.cons_ne_nil _ _, ih⟩

/-- The smallest queue and `2 ^ 32` frames, one at a time. -/
theorem counters_end :
    ∃ q, create (queueOfSize 97) = .ok q ∧
      Legal (fun arr => .ok arr) q.size [] (alternating (2 ^ 32)) ∧
      ¬ CountersSurvive (fun arr => .ok arr) [] (Writers.start q) (alternating (2 ^ 32)) := by
  obtain ⟨q, hq, -⟩ := create_holds (queueOfSize 97) (by decide) (by decide)
  have hsize : 97 ≤ q.size := of_create (fun q => 97 ≤ q.size) hq (by decide +kernel)
  have hlegal := legal_alternating hsize (2 ^ 32)
  have hstart : (Writers.start q : Writers Unit).Lasting (fun arr => .ok arr) [] ∧ q.allocCounter = 0 :=
    lasting_start (by decide) (by decide) hq
  obtain ⟨hlasting, hzero⟩ := hstart
  refine ⟨q, hq, hlegal, ?_⟩
  have hzero' : (Writers.start q : Writers Unit).mem.allocCounter = 0 := hzero
  intro hsurvive
  have hlt := (hlasting.survive_iff hlegal).mp hsurvive
  rw [hzero', puts_alternating] at hlt
  omega

end Upipe.MemQueue
