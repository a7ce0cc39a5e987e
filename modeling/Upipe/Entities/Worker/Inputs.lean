import Upipe.Entities.MemQueue.Carries
import Upipe.Entities.MemQueue.Consumers
import Upipe.Entities.Worker.Defs

/-!
# The worker's input side

`get` asks the input queues one after the other for a frame and starts at `consumer_next_q_index`, which goes up by
one with every frame, whichever queue the frame came from. In `n` calls that got a frame each of the `n` queues is
asked first once, and a queue that has a frame for whoever asks gives it then (`no_input_starves`).

A call is several steps: the pending test of a queue, and after the wait for its read lock the locked body. In between
producers and other consumers write to the memory of the queues.
-/

namespace Upipe

open Upipe.Common

/-! ## Definitions -/

/-- Where the worker is in `get`: at the test of the `i`-th queue of the loop, or waiting for the lock of that. -/
inductive GetCall where
  | idle
  | test (i : ℕ)
  | lock (i : ℕ)
  | exited
deriving DecidableEq

/-- How many queues the call has asked in vain. -/
def GetCall.passed : GetCall → ℕ
  | .test i | .lock i => i
  | .idle | .exited => 0

/-- The attributes of `Worker` that `get` reads or changes, and the answers of its calls, oldest first. `supplied` is a
ghost: the queues whose `get` returned a frame, oldest first. -/
structure WorkerInputs where
  inQs : List MemQueue
  consumerNextQIndex : ℕ
  currentPipeExecutionId : PyVal
  receivedCounter : ℕ
  requestTermination : Bool
  call : GetCall
  answers : List (Except PyError PyVal)
  supplied : List ℕ

/-- What happens to a worker: the steps of its calls, writes of others to the memory of a queue, and the message that
requests its termination. -/
inductive InputEvent where
  | call
  | test
  | body (now : UInt64)
  | timeout
  | memory (n : ℕ) (buf : Bytes)
  | requestTermination

namespace WorkerInputs

/-- `next_index`. -/
def nextIndex (w : WorkerInputs) (i : ℕ) : ℕ := (w.consumerNextQIndex + i) % w.inQs.length

/-- The end of a call. -/
def answer (result : Except PyError PyVal) (w : WorkerInputs) : WorkerInputs :=
  { w with call := .idle, answers := w.answers ++ [result] }

/-- What `get` does with the frame of a queue. -/
def receive (n : ℕ) (frame : DataFrame) (w : WorkerInputs) : WorkerInputs :=
  { w with
    consumerNextQIndex := w.consumerNextQIndex + 1
    currentPipeExecutionId := if frame.pipeExecutionId.truthy then frame.pipeExecutionId else .none
    receivedCounter := w.receivedCounter + 1
    supplied := w.supplied ++ [n] }.answer frame.data

/-- What follows the locked body on a queue. -/
def afterBody (w : WorkerInputs) (i : ℕ) : EStateM.Result PyError MemQueue (Option DataFrame) → WorkerInputs
  | .ok (some frame) q => { w with inQs := w.inQs.set (w.nextIndex i) q }.receive (w.nextIndex i) frame
  | .ok none q => { w with inQs := w.inQs.set (w.nextIndex i) q, call := .test (i + 1) }
  | .error e q => { w with inQs := w.inQs.set (w.nextIndex i) q }.answer (.error e)

variable (c : Codec)

/-- One step. `test` behind the last queue is the end of the loop: `terminate`, which exits, or `return None`. -/
def inputStep (w : WorkerInputs) : InputEvent → Option WorkerInputs
  | .call => if w.call = .idle then some { w with call := .test 0 } else none
  | .test =>
      match w.call with
      | .test i =>
          if i < w.inQs.length then
            (w.inQs[w.nextIndex i]?).map fun q =>
              if q.pendingCounter = 0 then { w with call := .test (i + 1) } else { w with call := .lock i }
          else if w.requestTermination then some { w with call := .exited }
          else some (w.answer (.ok .none))
      | _ => none
  | .body now =>
      match w.call with
      | .lock i => (w.inQs[w.nextIndex i]?).map fun q =>
          w.afterBody i (MemQueue.getLocked (DataFrame.fromByteArr c) now q)
      | _ => none
  | .timeout =>
      match w.call with
      | .lock _ => some (w.answer (.error ⟨.timeoutError, ""⟩))
      | _ => none
  | .memory n buf => some { w with inQs := w.inQs.modify n fun q => { q with buf := buf } }
  | .requestTermination => some { w with requestTermination := true }

end WorkerInputs

/-- The queue is not empty, and a `get` that has its lock returns a frame. -/
def MemQueue.Readable (c : Codec) (q : MemQueue) : Prop :=
  q.pendingCounter ≠ 0 ∧
    ∀ now, ∃ frame q', MemQueue.getLocked (DataFrame.fromByteArr c) now q = .ok (some frame) q'

/-- The `j`-th input queue is not empty and can be read. -/
def WorkerInputs.Readable (c : Codec) (j : ℕ) (w : WorkerInputs) : Prop :=
  ∃ q, w.inQs[j]? = some q ∧ q.Readable c

/-- A queue with an intact frame in front that decodes. -/
theorem MemQueue.Consumable.readable {c : Codec} {q : MemQueue} {f : MemQueue.Frame} {frames : List MemQueue.Frame}
    (h : MemQueue.Consumable q (f :: frames)) {frame : DataFrame} (hd : DataFrame.fromByteArr c f.body = .ok frame) :
    q.Readable c := by
  constructor
  · have hcounted := h.counted
    rw [List.length_cons] at hcounted
    rw [pendingCounter]
    omega
  · intro now
    obtain ⟨q', hcall, -⟩ := h.getLocked_cons hd now
    exact ⟨frame, q', hcall⟩

/-! ## The rotation -/

/-- Of `n` numbers in a row one has any given remainder. -/
theorem exists_add_mod_eq {n j : ℕ} (hj : j < n) (start : ℕ) : ∃ k < n, (start + k) % n = j := by
  have hpos : 0 < n := Nat.zero_lt_of_lt hj
  refine ⟨(j + (n - start % n)) % n, Nat.mod_lt _ hpos, ?_⟩
  have hstart := Nat.div_add_mod start n
  have hlt := Nat.mod_lt start hpos
  have hsum : start + (j + (n - start % n)) = j + n * (start / n + 1) := by
    rw [Nat.mul_add]
    omega
  rw [Nat.add_mod_mod, hsum, Nat.add_mul_mod_self_left, Nat.mod_eq_of_lt hj]

namespace WorkerInputs

/-- The calls since `s` have got the frames of `window`, started one queue further each time, and got one from the
`j`-th queue if they started there. The call that runs has not asked that queue in vain. -/
structure Rotates (s : WorkerInputs) (j : ℕ) (window : List ℕ) (w : WorkerInputs) : Prop where
  length_eq : w.inQs.length = s.inQs.length
  supplied_eq : w.supplied = s.supplied ++ window
  next_eq : w.consumerNextQIndex = s.consumerNextQIndex + window.length
  served : ∀ k < window.length, (s.consumerNextQIndex + k) % s.inQs.length = j → j ∈ window
  passed : ∀ m < w.call.passed, w.nextIndex m ≠ j

variable {c : Codec} {s w w' : WorkerInputs} {j : ℕ} {window : List ℕ} {e : InputEvent}

theorem rotates_self (h : s.call = .idle) : Rotates s j [] s where
  length_eq := rfl
  supplied_eq := (List.append_nil _).symm
  next_eq := rfl
  served k hk := absurd hk (Nat.not_lt_zero k)
  passed m hm := by
    rw [h] at hm
    exact absurd hm (Nat.not_lt_zero m)

/-- A change that takes no frame and passes no queue but those. -/
theorem Rotates.of_eq (h : Rotates s j window w) (hlength : w'.inQs.length = w.inQs.length)
    (hsupplied : w'.supplied = w.supplied) (hnext : w'.consumerNextQIndex = w.consumerNextQIndex)
    (hpassed : ∀ m < w'.call.passed, w.nextIndex m ≠ j) : Rotates s j window w' where
  length_eq := hlength.trans h.length_eq
  supplied_eq := hsupplied.trans h.supplied_eq
  next_eq := hnext.trans h.next_eq
  served := h.served
  passed m hm := by
    rw [nextIndex, hnext, hlength]
    exact hpassed m hm

/-- The call that runs goes on behind a queue that is not the `j`-th. -/
theorem Rotates.pass (h : Rotates s j window w) {i : ℕ} (hi : w.call.passed = i) (hne : w.nextIndex i ≠ j) :
    ∀ m < i + 1, w.nextIndex m ≠ j := by
  intro m hm
  rcases Nat.lt_succ_iff_lt_or_eq.mp hm with hlt | rfl
  · exact h.passed m (hi ▸ hlt)
  · exact hne

/-- A call that gets a frame gets it from the `j`-th queue if it started there. -/
theorem Rotates.receive (h : Rotates s j window w) {i : ℕ} (hi : w.call.passed = i) (q : MemQueue) (frame : DataFrame) :
    Rotates s j (window ++ [w.nextIndex i])
      ({ w with inQs := w.inQs.set (w.nextIndex i) q }.receive (w.nextIndex i) frame) where
  length_eq := (List.length_set ..).trans h.length_eq
  supplied_eq := by
    show w.supplied ++ [w.nextIndex i] = _
    rw [h.supplied_eq, List.append_assoc]
  next_eq := by
    show w.consumerNextQIndex + 1 = _
    rw [h.next_eq, List.length_append]
    rfl
  served k hk hstart := by
    rw [List.length_append, List.length_singleton] at hk
    rcases Nat.lt_succ_iff_lt_or_eq.mp hk with hlt | rfl
    · exact List.mem_append_left _ (h.served k hlt hstart)
    · -- the call that ends here started at the queue, so it did not pass it
      have hzero : w.nextIndex 0 = j := by
        rw [nextIndex, Nat.add_zero, h.next_eq, h.length_eq]
        exact hstart
      cases i with
      | zero => exact List.mem_append_right _ (List.mem_singleton.mpr hzero.symm)
      | succ i => exact absurd hzero (h.passed 0 (hi ▸ Nat.succ_pos i))
  passed m hm := absurd hm (Nat.not_lt_zero m)

/-- A test that the `j`-th queue is in front of finds it not empty. -/
theorem Rotates.test (h : Rotates s j window w) (hread : w.Readable c j) (hstep : inputStep c w .test = some w') :
    Rotates s j window w' := by
  obtain ⟨r, hr, hpending, -⟩ := hread
  rw [inputStep] at hstep
  split at hstep
  · rename_i i hcall
    have hi : w.call.passed = i := by rw [hcall]; rfl
    split at hstep
    · obtain ⟨q, hq, rfl⟩ := Option.map_eq_some_iff.mp hstep
      split
      · rename_i hempty
        refine h.of_eq rfl rfl rfl (h.pass hi fun heq => ?_)
        rw [heq, hr] at hq
        exact hpending (Option.some.inj hq ▸ hempty)
      · exact h.of_eq rfl rfl rfl fun m hm => h.passed m (hi ▸ hm)
    · split at hstep
      · obtain rfl := Option.some.inj hstep
        exact h.of_eq rfl rfl rfl fun m hm => absurd hm (Nat.not_lt_zero m)
      · obtain rfl := Option.some.inj hstep
        exact h.of_eq rfl rfl rfl fun m hm => absurd hm (Nat.not_lt_zero m)
  · cases hstep

/-- A `get` from the `j`-th queue returns a frame. -/
theorem Rotates.body (h : Rotates s j window w) (hread : w.Readable c j) {now : UInt64}
    (hstep : inputStep c w (.body now) = some w') : ∃ window', Rotates s j window' w' := by
  obtain ⟨r, hr, -, hbody⟩ := hread
  rw [inputStep] at hstep
  split at hstep
  · rename_i i hcall
    have hi : w.call.passed = i := by rw [hcall]; rfl
    obtain ⟨q, hq, rfl⟩ := Option.map_eq_some_iff.mp hstep
    cases hresult : MemQueue.getLocked (DataFrame.fromByteArr c) now q with
    | error e q' =>
      exact ⟨window, h.of_eq (List.length_set ..) rfl rfl fun m hm => absurd hm (Nat.not_lt_zero m)⟩
    | ok got q' =>
      cases got with
      | some frame => exact ⟨_, h.receive hi q' frame⟩
      | none =>
        refine ⟨window, h.of_eq (List.length_set ..) rfl rfl (h.pass hi fun heq => ?_)⟩
        -- the queue would have returned a frame
        rw [heq, hr] at hq
        obtain rfl := Option.some.inj hq
        obtain ⟨frame, q'', hsome⟩ := hbody now
        rw [hsome] at hresult
        cases hresult
  · cases hstep

/-- Every step keeps the rotation while the queue can be read. -/
theorem Rotates.step (h : Rotates s j window w) (hread : w.Readable c j) (hstep : inputStep c w e = some w') :
    ∃ window', Rotates s j window' w' := by
  cases e with
  | call =>
    rw [inputStep] at hstep
    split at hstep
    · obtain rfl := Option.some.inj hstep
      exact ⟨window, h.of_eq rfl rfl rfl fun m hm => absurd hm (Nat.not_lt_zero m)⟩
    · cases hstep
  | test => exact ⟨window, h.test hread hstep⟩
  | body now => exact h.body hread hstep
  | timeout =>
    rw [inputStep] at hstep
    split at hstep
    · obtain rfl := Option.some.inj hstep
      exact ⟨window, h.of_eq rfl rfl rfl fun m hm => absurd hm (Nat.not_lt_zero m)⟩
    · cases hstep
  | memory n buf =>
    obtain rfl := Option.some.inj hstep
    exact ⟨window, h.of_eq (List.length_modify ..) rfl rfl h.passed⟩
  | requestTermination =>
    obtain rfl := Option.some.inj hstep
    exact ⟨window, h.of_eq rfl rfl rfl h.passed⟩

/-- No input queue starves: of as many calls that get a frame as there are input queues, one gets it from a queue
that can be read all the time. -/
theorem no_input_starves {t : WorkerInputs} {events : List InputEvent} (hpos : 0 < s.inQs.length)
    (hidle : s.call = .idle) (hrun : runFrom (inputStep c) s events = some t)
    (hread : Along (inputStep c) (fun w _ => w.Readable c j) s events)
    (hframes : s.supplied.length + s.inQs.length ≤ t.supplied.length) : j ∈ t.supplied.drop s.supplied.length := by
  have hrotates : ∃ window, Rotates s j window t := by
    apply Along.invariant _ ⟨[], rotates_self hidle⟩ hread hrun
    rintro w e w' ⟨window, hw⟩ hreadable hstep
    exact hw.step hreadable hstep
  obtain ⟨window, h⟩ := hrotates
  rw [h.supplied_eq, List.length_append] at hframes
  rw [h.supplied_eq, List.drop_left]
  have hj : j < s.inQs.length := by
    cases events with
    | nil =>
      obtain rfl := Option.some.inj hrun
      have hnil := List.append_right_eq_self.mp h.supplied_eq.symm
      rw [hnil, List.length_nil] at hframes
      omega
    | cons e events =>
      obtain ⟨q, hq, -⟩ := hread.1
      exact (List.getElem?_eq_some_iff.mp hq).1
  obtain ⟨k, hk, hstart⟩ := exists_add_mod_eq hj s.consumerNextQIndex
  exact h.served k (by omega) hstart

/-! ## Two input queues -/

/-- A worker with the same queue as its first and its second input. -/
def twoInputs (q : MemQueue) : WorkerInputs where
  inQs := [q, q]
  consumerNextQIndex := 0
  currentPipeExecutionId := .none
  receivedCounter := 0
  requestTermination := false
  call := .idle
  answers := []
  supplied := []

/-- Two calls that each get a frame from the queue that they ask first. -/
def twoCalls : List InputEvent := [.call, .test, .body 0, .call, .test, .body 0]

/-- A call that gets a frame from the queue that it asks first. -/
theorem firstAsked_steps {q q' : MemQueue} {frame : DataFrame} (hidle : w.call = .idle)
    (hq : w.inQs[w.nextIndex 0]? = some q) (hpending : q.pendingCounter ≠ 0)
    (hbody : MemQueue.getLocked (DataFrame.fromByteArr c) 0 q = .ok (some frame) q') :
    inputStep c w .call = some { w with call := .test 0 } ∧
      inputStep c { w with call := .test 0 } .test = some { w with call := .lock 0 } ∧
      inputStep c { w with call := .lock 0 } (.body 0)
        = some ({ w with call := .lock 0 }.afterBody 0 (.ok (some frame) q')) := by
  have hlt : w.nextIndex 0 < w.inQs.length := (List.getElem?_eq_some_iff.mp hq).1
  refine ⟨if_pos hidle, ?_, ?_⟩
  · show (if 0 < w.inQs.length then (w.inQs[w.nextIndex 0]?).map _ else _) = _
    rw [if_pos (Nat.zero_lt_of_lt hlt), hq, Option.map_some, if_neg hpending]
  · show (w.inQs[w.nextIndex 0]?).map _ = _
    rw [hq, Option.map_some, hbody]

theorem twoInputs_run {q : MemQueue} (hread : q.Readable c) :
    ∃ t, runFrom (inputStep c) (twoInputs q) twoCalls = some t ∧ t.supplied = [0, 1] ∧
      Along (inputStep c) (fun w _ => w.Readable c 1) (twoInputs q) twoCalls := by
  obtain ⟨frame, q', hbody⟩ := hread.2 0
  obtain ⟨hcall, htest, hget⟩ := firstAsked_steps (w := twoInputs q) rfl rfl hread.1 hbody
  obtain ⟨hcall', htest', hget'⟩ := firstAsked_steps
    (w := { twoInputs q with call := .lock 0 }.afterBody 0 (.ok (some frame) q')) rfl rfl hread.1 hbody
  have hsecond : ∀ {w : WorkerInputs}, w.inQs[1]? = some q → w.Readable c 1 := fun h => ⟨q, h, hread⟩
  refine ⟨{ { twoInputs q with call := .lock 0 }.afterBody 0 (.ok (some frame) q') with call := .lock 0 }.afterBody 0
    (.ok (some frame) q'), ?_, rfl, ?_⟩
  · rw [twoCalls, runFrom, hcall, Option.bind_some, runFrom, htest, Option.bind_some, runFrom, hget, Option.bind_some,
      runFrom, hcall', Option.bind_some, runFrom, htest', Option.bind_some, runFrom, hget', Option.bind_some, runFrom]
  · exact .cons (hsecond rfl) hcall <| .cons (hsecond rfl) htest <| .cons (hsecond rfl) hget <|
      .cons (hsecond rfl) hcall' <| .cons (hsecond rfl) htest' <| .cons (hsecond rfl) hget' trivial

/-- Two calls on two queues of 400 bytes with a frame each. -/
theorem no_input_starves_two_queues :
    ∃ q t, q.Readable Codec.emptyObjects ∧
      runFrom (inputStep Codec.emptyObjects) (twoInputs q) twoCalls = some t ∧
      1 ∈ t.supplied.drop (twoInputs q).supplied.length := by
  obtain ⟨body, hencode, hdecode⟩ := DataFrame.fromByteArr_toByteArr_lastFrame
  have hlength : body.length ≤ 100 := by
    have hshort : (DataFrame.lastFrame.toByteArr Codec.emptyObjects).toOption.any
        (fun body => decide (body.length ≤ 100)) = true := by decide +kernel
    rw [hencode] at hshort
    exact of_decide_eq_true hshort
  obtain ⟨q, hq, hholds, hsize, halloc, hcounter⟩ :=
    MemQueue.create_holds (MemQueue.queueOfSize 400) (by decide) (by decide)
  have hroom : (MemQueue.frameSize body : ℤ) < q.freeSpace := by
    have hfree := MemQueue.of_create (fun q => 300 < q.freeSpace) hq (by decide +kernel)
    rw [MemQueue.frameSize, MemQueue.frameHeaderSize]
    omega
  obtain ⟨q', hbytes, hput, hholds', -⟩ := hholds.put_ok 0
    (MemQueue.of_create (fun q => ¬ q.overCapacity) hq (by decide +kernel)) hroom (by omega) (by omega)
  have hfront : (MemQueue.Frame.ofBody body q.frameCounter hbytes).body = body := MemQueue.Frame.body_ofBody hbytes
  have hread : q'.Readable Codec.emptyObjects := hholds'.consumable.readable (hfront ▸ hdecode)
  obtain ⟨t, hrun, hsupplied, halong⟩ := twoInputs_run hread
  refine ⟨q', t, hread, hrun, no_input_starves Nat.two_pos rfl hrun halong ?_⟩
  rw [hsupplied]
  exact Nat.le_refl 2

end WorkerInputs

end Upipe
