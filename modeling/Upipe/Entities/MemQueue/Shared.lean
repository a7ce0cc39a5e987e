import Upipe.Common.Runs
import Upipe.Entities.MemQueue.Holds

/-!
# Many producers and consumers

Several processes share one queue. A `put` is two steps: the capacity and size tests, then, after the
wait for the write lock, the locked write. A `get` is the pending test, then the locked read. Each step
is atomic; between them any other process may take steps.

The tests of `put` are not repeated under the lock, so space that two producers were both promised is
written twice. `writes_safe` gives the condition under which no write goes wrong: every admitted frame
must fit beside the unread frames and the frames that were admitted before it and are still waiting.
-/

namespace Upipe.MemQueue

open Upipe.Common

/-! ## The system -/

/-- The queue and the calls in flight. `frameNumbers` are the producers' own frame counters, `waiting`
the admitted puts that wait for the write lock, `checked` the gets that wait for the read lock. `unread`
is a ghost: the frames written and not yet read. -/
structure Shared (Producer Consumer : Type) where
  mem : MemQueue
  frameNumbers : Producer → ℕ
  waiting : List (Producer × Bytes)
  checked : List Consumer
  unread : List Frame

/-- One atomic step of one process. An index selects one of the calls that wait for a lock. -/
inductive Event (Producer Consumer : Type) where
  | test (p : Producer) (df : Except PyError Bytes)
  | write (i : ℕ) (now : UInt64)
  | writeTimeout (i : ℕ)
  | check (c : Consumer)
  | read (i : ℕ) (now : UInt64)
  | readTimeout (i : ℕ)

/-- The frame that `putLocked` writes: none when a field of its header overflows. -/
def writtenFrame (body : Bytes) (num : ℕ) : List Frame :=
  if h : frameSize body < 256 ^ 4 then
    if num < 256 ^ 4 then [Frame.ofBody body num h] else []
  else []

section Shared

variable {Producer Consumer α : Type}

/-- The queue as one producer's object sees it. -/
def Shared.handle (s : Shared Producer Consumer) (p : Producer) : MemQueue :=
  { s.mem with frameCounter := s.frameNumbers p }

/-- The bytes that the waiting puts were promised. -/
def Shared.promised (s : Shared Producer Consumer) : ℕ :=
  (s.waiting.map fun w => frameSize w.2).sum

/-- The atomic steps. -/
def sharedStep [DecidableEq Producer] (fromByteArr : Bytes → Except PyError α)
    (s : Shared Producer Consumer) : Event Producer Consumer → Option (Shared Producer Consumer)
  | .test p df =>
      match s.mem.putTest df with
      | .ok (some body) => some { s with waiting := s.waiting ++ [(p, body)] }
      | _ => some s
  | .write i now =>
      match s.waiting[i]? with
      | some (p, body) =>
          let mem := stateOf (putLocked body now (s.handle p))
          some { s with
            mem := mem
            frameNumbers := Function.update s.frameNumbers p mem.frameCounter
            waiting := s.waiting.eraseIdx i
            unread := s.unread ++ writtenFrame body (s.frameNumbers p) }
      | none => none
  | .writeTimeout i =>
      if i < s.waiting.length then some { s with waiting := s.waiting.eraseIdx i } else none
  | .check c =>
      if s.mem.pendingCounter = 0 then some s else some { s with checked := s.checked ++ [c] }
  | .read i now =>
      if i < s.checked.length then
        some { s with
          mem := stateOf (getLocked fromByteArr now s.mem)
          checked := s.checked.eraseIdx i
          unread := s.unread.tail }
      else none
  | .readTimeout i =>
      if i < s.checked.length then some { s with checked := s.checked.eraseIdx i } else none

/-- The system on a queue, with no call in flight. -/
def Shared.start (q : MemQueue) (frameNumbers : Producer → ℕ) : Shared Producer Consumer where
  mem := q
  frameNumbers := frameNumbers
  waiting := []
  checked := []
  unread := []

/-- What is promised of a locked write: the frame fits the free space, and every unread frame is still
in its place afterwards. -/
def WriteSafe [DecidableEq Producer] (fromByteArr : Bytes → Except PyError α)
    (s : Shared Producer Consumer) : Event Producer Consumer → Prop
  | .write i now => ∀ p body, s.waiting[i]? = some (p, body) → s.mem.fitsFree body ∧
      ∀ s', sharedStep fromByteArr s (.write i now) = some s' →
        Stores s'.mem (s.unread ++ writtenFrame body (s.frameNumbers p)) ∧
          s'.mem.exeIndex = s.mem.exeIndex
  | _ => True

/-- A frame is admitted only when the data area has room for the unread frames, the frames that are
waiting to be written, and this one. -/
def RoomForAll (s : Shared Producer Consumer) : Event Producer Consumer → Prop
  | .test _ df =>
      match s.mem.putTest df with
      | .ok (some body) => used s.unread + s.promised + frameSize body ≤ s.mem.size - qControlSize
      | _ => True
  | _ => True

instance (s : Shared Producer Consumer) : ∀ e, Decidable (RoomForAll s e)
  | .test _ df =>
      match h : s.mem.putTest df with
      | .ok (some body) =>
          decidable_of_iff
            (used s.unread + s.promised + frameSize body ≤ s.mem.size - qControlSize)
            (by rw [RoomForAll, h])
      | .ok none => isTrue (by rw [RoomForAll, h]; trivial)
      | .error _ => isTrue (by rw [RoomForAll, h]; trivial)
  | .write .. | .writeTimeout _ | .check _ | .read .. | .readTimeout _ => isTrue trivial

/-- The invariant of a run in which there was always room. -/
structure Shared.Sound (s : Shared Producer Consumer) : Prop where
  stores : Stores s.mem s.unread
  watermarked : ∀ f ∈ s.unread, f.watermark = waterMark
  room : used s.unread + s.promised ≤ s.mem.size - qControlSize

/-! ## Every step keeps the invariant -/

private theorem sum_eraseIdx {β : Type} (f : β → ℕ) {xs : List β} {i : ℕ} {x : β}
    (h : xs[i]? = some x) : (xs.map f).sum = f x + ((xs.eraseIdx i).map f).sum := by
  obtain ⟨hi, hx⟩ := List.getElem?_eq_some_iff.mp h
  have hsplit : xs = xs.take i ++ x :: xs.drop (i + 1) := by
    rw [← hx, List.cons_getElem_drop_succ, List.take_append_drop]
  rw [List.eraseIdx_eq_take_drop_succ]
  conv_lhs => rw [hsplit]
  simp only [List.map_append, List.map_cons, List.sum_append, List.sum_cons]
  omega

private theorem sum_eraseIdx_le {β : Type} (f : β → ℕ) (xs : List β) (i : ℕ) :
    ((xs.eraseIdx i).map f).sum ≤ (xs.map f).sum := by
  cases h : xs[i]? with
  | none => rw [List.eraseIdx_of_length_le (List.getElem?_eq_none_iff.mp h)]
  | some x =>
    rw [sum_eraseIdx f h]
    exact Nat.le_add_left _ _

private theorem used_writtenFrame_le (body : Bytes) (num : ℕ) :
    used (writtenFrame body num) ≤ frameSize body := by
  rw [writtenFrame]
  split
  · split
    · rw [used_cons, used_nil, Frame.raw_ofBody, length_frameBytes]
      exact Nat.le_refl _
    · exact Nat.zero_le _
  · exact Nat.zero_le _

private theorem watermark_writtenFrame {body : Bytes} {num : ℕ} {f : Frame}
    (hf : f ∈ writtenFrame body num) : f.watermark = waterMark := by
  rw [writtenFrame] at hf
  split at hf
  · split at hf
    · rw [List.mem_singleton.mp hf, Frame.watermark_ofBody]
    · cases hf
  · cases hf

/-- A locked write, with room for its frame, stores the frame behind the others. -/
theorem putLocked_stores {q : MemQueue} {frames : List Frame} {body : Bytes} (h : Stores q frames)
    (now : UInt64) (hfit : used frames + frameSize body ≤ q.size - qControlSize) :
    Stores (stateOf (putLocked body now q)) (frames ++ writtenFrame body q.frameCounter) ∧
      (stateOf (putLocked body now q)).exeIndex = q.exeIndex ∧
      (stateOf (putLocked body now q)).size = q.size := by
  have hsize : frameSize body < 256 ^ 4 := by
    have := h.size_lt
    omega
  have hout := putLocked_outcome h now hfit hsize
  revert hout
  generalize putLocked body now q = r
  rw [writtenFrame, dif_pos hsize]
  intro hout
  have hpushed {q' : MemQueue} (hp : Pushed q frames (Frame.ofBody body q.frameCounter hsize) q')
      (hnum : q.frameCounter < 256 ^ 4) :
      Stores q' (frames ++ if q.frameCounter < 256 ^ 4 then [Frame.ofBody body q.frameCounter hsize]
        else []) ∧ q'.exeIndex = q.exeIndex ∧ q'.size = q.size := by
    rw [if_pos hnum]
    exact ⟨hp.stores, hp.exeIndex_eq, hp.ctl.size⟩
  cases hout with
  | numOverflow hnum _ =>
    rw [if_neg (by omega), List.append_nil]
    exact ⟨h, rfl, rfl⟩
  | counterOverflow _ pushed _ _ hnum => exact hpushed pushed hnum
  | accepted hnum pushed _ => exact hpushed pushed hnum

variable {fromByteArr : Bytes → Except PyError α} {s s' : Shared Producer Consumer}

/-- The object of one producer stores what the queue stores. -/
theorem Shared.Sound.handle (h : s.Sound) (p : Producer) : Stores (s.handle p) s.unread :=
  h.stores.congr rfl rfl rfl rfl rfl

/-- There is room for every waiting frame beside the unread ones. -/
theorem Shared.Sound.room_of_waiting (h : s.Sound) {i : ℕ} {p : Producer} {body : Bytes}
    (hi : s.waiting[i]? = some (p, body)) :
    used s.unread + frameSize body + ((s.waiting.eraseIdx i).map fun w => frameSize w.2).sum
      ≤ s.mem.size - qControlSize := by
  have hroom := h.room
  have hsum : s.promised = frameSize body
      + ((s.waiting.eraseIdx i).map fun w => frameSize w.2).sum := sum_eraseIdx _ hi
  omega

/-- A step that only drops a waiting call keeps the invariant. -/
private theorem Shared.Sound.drop (h : s.Sound) {waiting : List (Producer × Bytes)}
    {checked : List Consumer}
    (hle : (waiting.map fun w => frameSize w.2).sum ≤ s.promised) :
    ({ s with waiting := waiting, checked := checked } : Shared Producer Consumer).Sound where
  stores := h.stores
  watermarked := h.watermarked
  room := Nat.le_trans (Nat.add_le_add_left hle _) h.room

variable [DecidableEq Producer]

/-- The guard has counted a new frame with those that wait already. -/
theorem Shared.Sound.test (h : s.Sound) {p : Producer} {df : Except PyError Bytes} (hroom : RoomForAll s (.test p df))
    (hstep : sharedStep fromByteArr s (.test p df) = some s') : s'.Sound := by
  rw [sharedStep] at hstep
  split at hstep
  · rename_i body htest
    cases hstep
    refine { stores := h.stores, watermarked := h.watermarked, room := ?_ }
    rw [RoomForAll, htest] at hroom
    show used s.unread + ((s.waiting ++ [(p, body)]).map fun w => frameSize w.2).sum ≤ _
    rw [List.map_append, List.sum_append, List.map_singleton, List.sum_singleton, ← Nat.add_assoc]
    exact hroom
  · cases hstep
    exact h

/-- A frame takes what was promised to it. -/
theorem Shared.Sound.write (h : s.Sound) {i : ℕ} {now : UInt64}
    (hstep : sharedStep fromByteArr s (.write i now) = some s') : s'.Sound := by
  rw [sharedStep] at hstep
  split at hstep
  · rename_i p body hi
    cases hstep
    have hfits := h.room_of_waiting hi
    obtain ⟨hstores, -, hsize⟩ := putLocked_stores (h.handle p) now
      (show used s.unread + frameSize body ≤ s.mem.size - qControlSize by omega)
    refine { stores := hstores, watermarked := ?_, room := ?_ }
    · intro f hf
      rcases List.mem_append.mp hf with hf | hf
      · exact h.watermarked f hf
      · exact watermark_writtenFrame hf
    · have hused := used_writtenFrame_le body (s.frameNumbers p)
      show used (s.unread ++ writtenFrame body (s.frameNumbers p))
        + ((s.waiting.eraseIdx i).map fun w => frameSize w.2).sum ≤ _ - qControlSize
      rw [hsize, used_append]
      show _ ≤ s.mem.size - qControlSize
      omega
  · cases hstep

/-- A read gives room back, or finds nothing. -/
theorem Shared.Sound.read (h : s.Sound) {i : ℕ} {now : UInt64}
    (hstep : sharedStep fromByteArr s (.read i now) = some s') : s'.Sound := by
  rw [sharedStep] at hstep
  split at hstep
  · cases hstep
    obtain ⟨hstores, hattrs⟩ := getLocked_stores fromByteArr h.stores h.watermarked now
    refine { stores := hstores, watermarked := ?_, room := ?_ }
    · exact fun f hf => h.watermarked f (List.mem_of_mem_tail hf)
    · have hused := used_tail_le s.unread
      have := h.room
      show used s.unread.tail + s.promised ≤ _ - qControlSize
      rw [hattrs]
      show _ ≤ s.mem.size - qControlSize
      omega
  · cases hstep

theorem Shared.Sound.step (h : s.Sound) {e : Event Producer Consumer} (hroom : RoomForAll s e)
    (hstep : sharedStep fromByteArr s e = some s') : s'.Sound := by
  cases e with
  | test p df => exact h.test hroom hstep
  | write i now => exact h.write hstep
  | writeTimeout i =>
    rw [sharedStep] at hstep
    split at hstep
    · cases hstep
      exact h.drop (sum_eraseIdx_le _ _ _)
    · cases hstep
  | check c =>
    rw [sharedStep] at hstep
    split at hstep
    · cases hstep
      exact h
    · cases hstep
      exact h.drop (Nat.le_refl _)
  | read i now => exact h.read hstep
  | readTimeout i =>
    rw [sharedStep] at hstep
    split at hstep
    · cases hstep
      exact h.drop (Nat.le_refl _)
    · cases hstep

/-- Under the invariant every locked write is safe. -/
theorem Shared.Sound.writeSafe (h : s.Sound) (e : Event Producer Consumer) :
    WriteSafe fromByteArr s e := by
  cases e with
  | write i now =>
    intro p body hi
    have hfits := h.room_of_waiting hi
    have hpos : 0 < frameSize body := by
      rw [frameSize, frameHeaderSize]
      omega
    have hroom : used s.unread + frameSize body ≤ s.mem.size - qControlSize := by omega
    refine ⟨?_, ?_⟩
    · rw [fitsFree, freeSpace_of_lt h.stores (by omega)]
      omega
    · intro s' hstep
      rw [sharedStep, hi] at hstep
      cases hstep
      obtain ⟨hstores, hexe, -⟩ := putLocked_stores (h.handle p) now hroom
      exact ⟨hstores, hexe⟩
  | test | writeTimeout | check | read | readTimeout => exact trivial

/-- From a fresh queue, in every run in which a frame is admitted only while there is room for it, the
unread frames and the frames still waiting to be written, every locked write is safe. -/
theorem writes_safe {api : APIQueue} (hge : 97 ≤ api.size) (hlt : api.size < 2 ^ 32) {q : MemQueue}
    (hq : create api = .ok q) (frameNumbers : Producer → ℕ) {events : List (Event Producer Consumer)}
    (hroom : Along (sharedStep fromByteArr) RoomForAll (Shared.start q frameNumbers) events) :
    Along (sharedStep fromByteArr) (WriteSafe fromByteArr) (Shared.start q frameNumbers) events := by
  obtain ⟨q', hq', hholds, -⟩ := create_holds api hge (by omega)
  rw [hq, Except.ok.injEq] at hq'
  subst hq'
  refine Along.of_invariant Shared.Sound ?_ ?_ ?_ hroom
  · exact fun s e s' h hguard hstep => h.step hguard hstep
  · exact fun s e h _ => h.writeSafe e
  · exact { stores := hholds.toStores, watermarked := fun f hf => (nomatch hf), room := Nat.zero_le _ }

end Shared

/-- Two producers with one byte each on a queue with room for both, and a consumer. -/
theorem writes_safe_two_producers :
    ∃ q, create (queueOfSize 200) = .ok q ∧
      Along (sharedStep (Except.ok : Bytes → Except PyError Bytes)) (WriteSafe Except.ok)
        (Shared.start q (fun _ : Bool => 0))
        [.test true (.ok [1]), .test false (.ok [2]), .write 1 0, .check (), .write 0 5000, .read 0 7] := by
  obtain ⟨q, hq, -⟩ := create_holds (queueOfSize 200) (by decide) (by decide)
  refine ⟨q, hq, writes_safe (by decide) (by decide) hq (fun _ => 0) ?_⟩
  exact of_create (fun q => Along _ RoomForAll (Shared.start q _) _) hq (by decide +kernel)

/-- Two producers with frames of 40 bytes on a queue with 66 bytes free: both are admitted, and the
second write finds 26 bytes. -/
theorem both_admitted_second_unsafe :
    ∃ q, create (queueOfSize 130) = .ok q ∧
      ¬ Along (sharedStep (Except.ok : Bytes → Except PyError Bytes)) (WriteSafe Except.ok)
        (Shared.start q (fun _ : Bool => 0) : Shared Bool Unit)
        ([.test true (.ok (List.replicate 8 1)), .test false (.ok (List.replicate 8 2)),
          .write 0 0] ++ [.write 0 0]) := by
  obtain ⟨q, hq, -⟩ := create_holds (queueOfSize 130) (by decide) (by decide)
  refine ⟨q, hq, ?_⟩
  intro hsafe
  have hend := of_create (fun q =>
    (runFrom (sharedStep (Except.ok : Bytes → Except PyError Bytes))
      (Shared.start q (fun _ : Bool => 0) : Shared Bool Unit)
      [.test true (.ok (List.replicate 8 1)), .test false (.ok (List.replicate 8 2)),
        .write 0 0]).any (fun t => decide (t.waiting[0]? = some (false, List.replicate 8 2) ∧
          ¬ t.mem.fitsFree (List.replicate 8 2))) = true) hq (by decide +kernel)
  obtain ⟨t, hrun, ht⟩ := (Option.any_eq_true _ _).mp hend
  obtain ⟨hwaiting, hfit⟩ := of_decide_eq_true ht
  exact hfit (hsafe.last hrun false (List.replicate 8 2) hwaiting).1

end Upipe.MemQueue
