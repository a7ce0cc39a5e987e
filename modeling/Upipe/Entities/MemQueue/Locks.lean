import Upipe.Common.Runs
import Upipe.Entities.MemQueue.Holds

/-!
# The locks of a queue

A lock is the existence of a named shared-memory segment: `acquire_lock` creates it, and whoever finds
the name taken sleeps and tries again. The names are one namespace for all processes of the host. What
`release_read_lock` and `release_write_lock` give back is the mapping of the segment, with `close`; the
name stays until somebody unlinks it, and nobody does.

The system has any number of `MemQueue` objects on one queue, one for each process that uses it, and the
calls of `put` and `get` in flight on them. A call runs without a break up to its first attempt at the
lock; every attempt is a step of its own, and so is the locked body with the release behind it.
-/

namespace Upipe.MemQueue

open Upipe.Common

/-! ## Named segments -/

/-- `SharedMemory(name, create=True)`, on the names that exist. -/
def createSegment (name : String) (segments : List String) : Except PyError (List String) :=
  if name ∈ segments then .error ⟨.fileExistsError, name⟩ else .ok (name :: segments)

/-- `SharedMemory.close`: the mapping goes, the name stays. -/
def closeSegment (_name : String) (segments : List String) : List String := segments

theorem createSegment_eq_ok_iff {name : String} {segments created : List String} :
    createSegment name segments = .ok created ↔ name ∉ segments ∧ name :: segments = created := by
  unfold createSegment
  split
  · rename_i h
    exact iff_of_false (fun he => nomatch he) (fun hc => hc.1 h)
  · rename_i h
    rw [Except.ok.injEq, and_iff_right h]

/-- The two locks. -/
inductive Lock where
  | read | write
deriving DecidableEq, Repr

/-- `memory_name`. -/
def memoryName (qid : String) : String := "Q_" ++ qid

/-- `r_lock_memory_name` and `w_lock_memory_name`. -/
def lockMemoryName (qid : String) : Lock → String
  | .read => memoryName qid ++ "_rlock"
  | .write => memoryName qid ++ "_wlock"

theorem lockMemoryName_injective (qid : String) : Function.Injective (lockMemoryName qid) := by
  intro a b h
  cases a <;> cases b
  case read.read | write.write => rfl
  all_goals
    have hcut := (String.append_right_inj _).mp h
    exact absurd hcut (by decide)

theorem lockMemoryName_ne_memoryName (qid : String) (lock : Lock) :
    lockMemoryName qid lock ≠ memoryName qid := by
  intro h
  have hlength := congrArg String.length h
  cases lock <;> simp [lockMemoryName, String.length_append] at hlength

/-! ## The system -/

/-- What one `MemQueue` object keeps for itself: its frame counter, and the segments `r_lock_mem` and
`w_lock_mem` by name. -/
structure LocalPart where
  frameCounter : ℕ
  rLockMem : Option String
  wLockMem : Option String

namespace LocalPart

/-- `self.r_lock_mem` or `self.w_lock_mem`. -/
def lockMem (o : LocalPart) : Lock → Option String
  | .read => o.rLockMem
  | .write => o.wLockMem

def setLockMem (o : LocalPart) (mem : Option String) : Lock → LocalPart
  | .read => { o with rLockMem := mem }
  | .write => { o with wLockMem := mem }

end LocalPart

/-- A call that passed the tests in front of its lock. -/
inductive LockedCall where
  | put (body : Bytes)
  | get
deriving DecidableEq

def LockedCall.lock : LockedCall → Lock
  | .put _ => .write
  | .get => .read

/-- A call in flight. It has made `attempts` attempts at its lock in vain, and `inside` says that it has
got it. -/
structure InFlight (Object : Type) where
  object : Object
  call : LockedCall
  attempts : ℕ
  inside : Bool

/-- One queue with its objects. `segments` are the names that exist on the host. -/
structure LockSystem (Object : Type) where
  qid : String
  mem : MemQueue
  segments : List String
  objects : Object → LocalPart
  calls : List (InFlight Object)

/-- A step. `put` and `get` are calls, up to their first attempt or their end; an index selects a call
in flight. -/
inductive LockEvent (Object : Type) where
  | put (o : Object) (df : Except PyError Bytes)
  | get (o : Object)
  | attempt (i : ℕ)
  | timeout (i : ℕ)
  | finish (i : ℕ) (now : UInt64)

section System

variable {Object α : Type} [DecidableEq Object]

namespace LockSystem

/-- The queue as one object sees it. -/
def handle (s : LockSystem Object) (o : Object) : MemQueue :=
  { s.mem with frameCounter := (s.objects o).frameCounter }

/-- `release_read_lock` and `release_write_lock` on one object. -/
def release (s : LockSystem Object) (o : Object) (lock : Lock) : LockSystem Object :=
  match (s.objects o).lockMem lock with
  | none => s
  | some name =>
      { s with
        segments := closeSegment name s.segments
        objects := Function.update s.objects o ((s.objects o).setLockMem none lock) }

/-- One attempt of `acquire_lock`. -/
def tryAcquire (s : LockSystem Object) (lock : Lock) : Except PyError (List String) :=
  createSegment (lockMemoryName s.qid lock) s.segments

/-- The locked body of a call. -/
def runLocked (fromByteArr : Bytes → Except PyError α) (s : LockSystem Object) (o : Object)
    (now : UInt64) : LockedCall → LockSystem Object
  | .put body =>
      let mem := stateOf (putLocked body now (s.handle o))
      { s with
        mem := mem
        objects := Function.update s.objects o
          { s.objects o with frameCounter := mem.frameCounter } }
  | .get => { s with mem := stateOf (getLocked fromByteArr now s.mem) }

/-- A queue that the constructor has just made, with no call in flight. -/
def start (q : MemQueue) : LockSystem Object where
  qid := q.qid
  mem := q
  segments := [memoryName q.qid]
  objects := fun _ => { frameCounter := 0, rLockMem := none, wLockMem := none }
  calls := []

/-- No call is between its acquire and its release. -/
def NoneInside (s : LockSystem Object) : Prop := ∀ c ∈ s.calls, c.inside = false

instance (s : LockSystem Object) : Decidable s.NoneInside :=
  inferInstanceAs (Decidable (∀ c ∈ s.calls, c.inside = false))

/-- How many calls are inside one lock. -/
def holders (s : LockSystem Object) (lock : Lock) : ℕ :=
  s.calls.countP fun c => c.inside && c.call.lock = lock

/-- A new `acquire_lock` succeeds at its first attempt. -/
def Obtainable (s : LockSystem Object) (lock : Lock) : Prop :=
  ∃ segments, s.tryAcquire lock = .ok segments

end LockSystem

/-- The steps. A call that times out has made an attempt in vain, and it releases like one that ends. -/
def lockStep (fromByteArr : Bytes → Except PyError α) (s : LockSystem Object) :
    LockEvent Object → Option (LockSystem Object)
  | .put o df =>
      match s.mem.putTest df with
      | .ok (some body) => some { s with calls := s.calls ++ [⟨o, .put body, 0, false⟩] }
      | _ => some s
  | .get o =>
      if s.mem.pendingCounter = 0 then some (s.release o .read)
      else some { s with calls := s.calls ++ [⟨o, .get, 0, false⟩] }
  | .attempt i =>
      match s.calls[i]? with
      | some c =>
          if c.inside then none
          else
            match s.tryAcquire c.call.lock with
            | .ok segments =>
                some { s with
                  segments := segments
                  objects := Function.update s.objects c.object ((s.objects c.object).setLockMem
                    (some (lockMemoryName s.qid c.call.lock)) c.call.lock)
                  calls := s.calls.set i { c with inside := true } }
            | .error _ => some { s with calls := s.calls.set i { c with attempts := c.attempts + 1 } }
      | none => none
  | .timeout i =>
      match s.calls[i]? with
      | some c =>
          if c.inside = false ∧ 0 < c.attempts then
            some { s.release c.object c.call.lock with calls := s.calls.eraseIdx i }
          else none
      | none => none
  | .finish i now =>
      match s.calls[i]? with
      | some c =>
          if c.inside then
            let s' := s.runLocked fromByteArr c.object now c.call
            some { s'.release c.object c.call.lock with calls := s.calls.eraseIdx i }
          else none
      | none => none

/-- The step does not end a call that has got its lock. -/
def KeepsInside (_s : LockSystem Object) : LockEvent Object → Prop
  | .finish _ _ => False
  | _ => True

end System

/-! ## What a step does to the names and the calls -/

section Move

variable {Object : Type}

/-- A lock is obtainable when its name does not exist. -/
theorem LockSystem.obtainable_iff (s : LockSystem Object) (lock : Lock) :
    s.Obtainable lock ↔ lockMemoryName s.qid lock ∉ s.segments := by
  unfold Obtainable tryAcquire
  simp only [createSegment_eq_ok_iff]
  constructor
  · rintro ⟨_, hfree, -⟩
    exact hfree
  · intro hfree
    exact ⟨_, hfree, rfl⟩

/-- The names and the calls after a step. -/
inductive LockMove (s : LockSystem Object) :
    LockEvent Object → List String → List (InFlight Object) → Prop where
  | rest {e : LockEvent Object} (hkeeps : KeepsInside s e) : LockMove s e s.segments s.calls
  | enter {e : LockEvent Object} {c : InFlight Object} (hkeeps : KeepsInside s e)
      (hinside : c.inside = false) : LockMove s e s.segments (s.calls ++ [c])
  | acquire {i : ℕ} {c : InFlight Object} (hi : s.calls[i]? = some c) (hinside : c.inside = false)
      (hfree : lockMemoryName s.qid c.call.lock ∉ s.segments) :
      LockMove s (.attempt i) (lockMemoryName s.qid c.call.lock :: s.segments)
        (s.calls.set i { c with inside := true })
  | wait {i : ℕ} {c : InFlight Object} (hi : s.calls[i]? = some c) (hinside : c.inside = false) :
      LockMove s (.attempt i) s.segments (s.calls.set i { c with attempts := c.attempts + 1 })
  | leave {i : ℕ} {c : InFlight Object} (hi : s.calls[i]? = some c) (hinside : c.inside = false) :
      LockMove s (.timeout i) s.segments (s.calls.eraseIdx i)
  | finish {i : ℕ} {now : UInt64} {c : InFlight Object} (hi : s.calls[i]? = some c)
      (hinside : c.inside = true) : LockMove s (.finish i now) s.segments (s.calls.eraseIdx i)

variable {s : LockSystem Object} {e : LockEvent Object}

/-- A name that exists goes on existing. -/
theorem LockMove.segments_subset {segments : List String} {calls : List (InFlight Object)}
    (h : LockMove s e segments calls) {name : String} (hname : name ∈ s.segments) :
    name ∈ segments := by
  cases h with
  | acquire => exact List.mem_cons_of_mem _ hname
  | _ => exact hname

/-! ## The invariants -/

/-- A call inside has made the segment of its lock. -/
def LockSystem.Held (s : LockSystem Object) : Prop :=
  ∀ c ∈ s.calls, c.inside = true → lockMemoryName s.qid c.call.lock ∈ s.segments

/-- A segment that some lock is named by has a call inside. -/
def LockSystem.InUse (s : LockSystem Object) : Prop :=
  ∀ lock, lockMemoryName s.qid lock ∈ s.segments →
    ∃ c ∈ s.calls, c.inside = true ∧ c.call.lock = lock

/-- At most one call is inside each lock. -/
def LockSystem.Exclusive (s : LockSystem Object) : Prop := ∀ lock, s.holders lock ≤ 1

/-- The segment of some lock exists. -/
def LockSystem.Taken (s : LockSystem Object) : Prop := ∃ lock, lockMemoryName s.qid lock ∈ s.segments

/-- Replacing or removing a call that was not inside leaves the calls that were. -/
private theorem mem_of_inside {calls calls' : List (InFlight Object)} {i : ℕ} {c c' : InFlight Object}
    (hi : calls[i]? = some c) (hinside : c.inside = false) (hc' : c' ∈ calls)
    (hc'inside : c'.inside = true)
    (hcalls : calls' = calls.eraseIdx i ∨ ∃ d, calls' = calls.set i d) : c' ∈ calls' := by
  obtain ⟨j, hj⟩ := List.mem_iff_getElem?.mp hc'
  have hne : i ≠ j := by
    rintro rfl
    rw [hi, Option.some.injEq] at hj
    rw [← hj, hinside] at hc'inside
    cases hc'inside
  rcases hcalls with rfl | ⟨d, rfl⟩
  · exact List.mem_eraseIdx_iff_getElem?.mpr ⟨j, hne.symm, hj⟩
  · refine List.mem_iff_getElem?.mpr ⟨j, ?_⟩
    rw [List.getElem?_set_ne hne, hj]

/-- A call that waited enters its lock, which nobody held. -/
private theorem holders_acquire {i : ℕ} {c : InFlight Object} (hheld : s.Held)
    (hi : s.calls[i]? = some c)
    (hfree : lockMemoryName s.qid c.call.lock ∉ s.segments) :
    (s.calls.set i { c with inside := true }).countP (fun d => d.inside && d.call.lock = c.call.lock)
      ≤ 1 := by
  have hnone : s.calls.countP (fun d => d.inside && d.call.lock = c.call.lock) = 0 := by
    rw [List.countP_eq_zero]
    intro d hd hin
    rw [Bool.and_eq_true, decide_eq_true_iff] at hin
    exact hfree (hin.2 ▸ hheld d hd hin.1)
  rw [List.countP_set (List.getElem?_eq_some_iff.mp hi).1, hnone]
  split <;> split <;> omega

/-- A call that is not inside counts for no lock. -/
private theorem countP_set_of_waiting {i : ℕ} {c d : InFlight Object} {calls : List (InFlight Object)}
    {p : InFlight Object → Bool} (hi : calls[i]? = some c) (hd : p d = false) :
    (calls.set i d).countP p ≤ calls.countP p := by
  rw [List.countP_set (List.getElem?_eq_some_iff.mp hi).1, hd]
  simp

end Move

section Step

variable {Object α : Type} [DecidableEq Object]

namespace LockSystem

theorem release_segments (s : LockSystem Object) (o : Object) (lock : Lock) :
    (s.release o lock).segments = s.segments := by
  unfold release
  cases (s.objects o).lockMem lock <;> rfl

theorem release_calls (s : LockSystem Object) (o : Object) (lock : Lock) :
    (s.release o lock).calls = s.calls := by
  unfold release
  cases (s.objects o).lockMem lock <;> rfl

theorem release_qid (s : LockSystem Object) (o : Object) (lock : Lock) :
    (s.release o lock).qid = s.qid := by
  unfold release
  cases (s.objects o).lockMem lock <;> rfl

theorem runLocked_segments (fromByteArr : Bytes → Except PyError α) (s : LockSystem Object)
    (o : Object) (now : UInt64) (call : LockedCall) :
    (s.runLocked fromByteArr o now call).segments = s.segments := by
  cases call <;> rfl

theorem runLocked_qid (fromByteArr : Bytes → Except PyError α) (s : LockSystem Object)
    (o : Object) (now : UInt64) (call : LockedCall) :
    (s.runLocked fromByteArr o now call).qid = s.qid := by
  cases call <;> rfl

end LockSystem

variable {fromByteArr : Bytes → Except PyError α} {s s' t : LockSystem Object} {e : LockEvent Object}

theorem lockStep_move (h : lockStep fromByteArr s e = some s') :
    s'.qid = s.qid ∧ LockMove s e s'.segments s'.calls := by
  cases e with
  | put o df =>
    rw [lockStep] at h
    split at h
    · cases h
      exact ⟨rfl, .enter trivial rfl⟩
    · cases h
      exact ⟨rfl, .rest trivial⟩
  | get o =>
    rw [lockStep] at h
    split at h
    · cases h
      rw [s.release_segments, s.release_calls]
      exact ⟨s.release_qid o .read, .rest trivial⟩
    · cases h
      exact ⟨rfl, .enter trivial rfl⟩
  | attempt i =>
    rw [lockStep] at h
    split at h
    · rename_i c hi
      split at h
      · cases h
      · rename_i hinside
        -- the lock is taken by creating its segment, which fails as long as there is one
        have hinside := Bool.eq_false_iff.mpr hinside
        split at h
        · rename_i segments htry
          obtain ⟨hfree, rfl⟩ := createSegment_eq_ok_iff.mp htry
          cases h
          exact ⟨rfl, .acquire hi hinside hfree⟩
        · cases h
          exact ⟨rfl, .wait hi hinside⟩
    · cases h
  | timeout i =>
    rw [lockStep] at h
    split at h
    · rename_i c hi
      split at h
      · rename_i hlate
        cases h
        refine ⟨s.release_qid _ _, ?_⟩
        show LockMove s _ (s.release _ _).segments _
        rw [s.release_segments]
        exact .leave hi hlate.1
      · cases h
    · cases h
  | finish i now =>
    rw [lockStep] at h
    split at h
    · rename_i c hi
      split at h
      · rename_i hinside
        cases h
        refine ⟨?_, ?_⟩
        · show (LockSystem.release _ _ _).qid = _
          rw [LockSystem.release_qid, s.runLocked_qid]
        · show LockMove s _ (LockSystem.release _ _ _).segments _
          rw [LockSystem.release_segments, s.runLocked_segments]
          exact .finish hi hinside
      · cases h
    · cases h

theorem LockSystem.Held.step (h : s.Held) (hstep : lockStep fromByteArr s e = some s') : s'.Held := by
  obtain ⟨hqid, hmove⟩ := lockStep_move hstep
  unfold LockSystem.Held
  rw [hqid]
  revert hmove
  generalize s'.segments = segments, s'.calls = calls
  intro hmove c hc hinside
  by_cases hold : c ∈ s.calls
  · exact hmove.segments_subset (h c hold hinside)
  · revert hc
    cases hmove with
    | rest => exact fun hc => absurd hc hold
    | enter _ hnew =>
      intro hc
      rcases List.mem_append.mp hc with hc | hc
      · exact absurd hc hold
      · rw [List.mem_singleton.mp hc, hnew] at hinside
        cases hinside
    | acquire =>
      intro hc
      rcases List.mem_or_eq_of_mem_set hc with hc | rfl
      · exact absurd hc hold
      · exact List.mem_cons_self
    | wait _ hnew =>
      intro hc
      rcases List.mem_or_eq_of_mem_set hc with hc | rfl
      · exact absurd hc hold
      · exact absurd (hnew.symm.trans hinside) Bool.false_ne_true
    | leave => exact fun hc => absurd (List.mem_of_mem_eraseIdx hc) hold
    | finish => exact fun hc => absurd (List.mem_of_mem_eraseIdx hc) hold

theorem LockSystem.InUse.step (h : s.InUse) (hkeeps : KeepsInside s e)
    (hstep : lockStep fromByteArr s e = some s') : s'.InUse := by
  obtain ⟨hqid, hmove⟩ := lockStep_move hstep
  unfold LockSystem.InUse
  rw [hqid]
  revert hmove
  generalize s'.segments = segments, s'.calls = calls
  intro hmove lock
  cases hmove with
  | rest => exact h lock
  | enter =>
    intro hname
    obtain ⟨c, hc, hinside⟩ := h lock hname
    exact ⟨c, List.mem_append_left _ hc, hinside⟩
  | @acquire i c hi hnew =>
    intro hname
    rcases List.mem_cons.mp hname with hlock | hname
    · -- the lock that the step has taken
      refine ⟨{ c with inside := true }, ?_, rfl, (lockMemoryName_injective _ hlock).symm⟩
      exact List.mem_set (List.getElem?_eq_some_iff.mp hi).1 _
    · obtain ⟨c', hc', hinside, hlock⟩ := h lock hname
      exact ⟨c', mem_of_inside hi hnew hc' hinside (.inr ⟨_, rfl⟩), hinside, hlock⟩
  | wait hi hnew =>
    intro hname
    obtain ⟨c', hc', hinside, hlock⟩ := h lock hname
    exact ⟨c', mem_of_inside hi hnew hc' hinside (.inr ⟨_, rfl⟩), hinside, hlock⟩
  | leave hi hnew =>
    intro hname
    obtain ⟨c', hc', hinside, hlock⟩ := h lock hname
    exact ⟨c', mem_of_inside hi hnew hc' hinside (.inl rfl), hinside, hlock⟩
  | finish => exact absurd hkeeps id

theorem LockSystem.Exclusive.step (h : s.Exclusive) (hheld : s.Held)
    (hstep : lockStep fromByteArr s e = some s') : s'.Exclusive := by
  obtain ⟨-, hmove⟩ := lockStep_move hstep
  unfold LockSystem.Exclusive LockSystem.holders
  revert hmove
  generalize s'.segments = segments, s'.calls = calls
  intro hmove lock
  cases hmove with
  | rest => exact h lock
  | enter _ hnew =>
    rw [List.countP_append, List.countP_singleton, hnew]
    exact h lock
  | @acquire i c hi hnew hfree =>
    by_cases hlock : c.call.lock = lock
    · subst hlock
      exact holders_acquire hheld hi hfree
    · refine Nat.le_trans (countP_set_of_waiting hi ?_) (h lock)
      simp [hlock]
  | wait hi hnew =>
    refine Nat.le_trans (countP_set_of_waiting hi ?_) (h lock)
    simp [hnew]
  | leave => exact Nat.le_trans (List.eraseIdx_sublist _ _).countP_le (h lock)
  | finish => exact Nat.le_trans (List.eraseIdx_sublist _ _).countP_le (h lock)

/-- The locks exclude: no two calls are ever inside the same lock. -/
theorem locks_exclude (q : MemQueue) {events : List (LockEvent Object)}
    (hrun : runFrom (lockStep fromByteArr) (LockSystem.start q) events = some t) : t.Exclusive := by
  have hkeep (s : LockSystem Object) (e : LockEvent Object) (s' : LockSystem Object)
      (h : s.Held ∧ s.Exclusive) (hstep : lockStep fromByteArr s e = some s') :
      s'.Held ∧ s'.Exclusive := ⟨h.1.step hstep, h.2.step h.1 hstep⟩
  refine (runFrom_invariant hkeep ⟨?_, ?_⟩ hrun).2
  · exact fun c hc => nomatch hc
  · exact fun lock => Nat.zero_le 1

theorem LockSystem.Taken.step (h : s.Taken) (hstep : lockStep fromByteArr s e = some s') :
    s'.Taken := by
  obtain ⟨lock, hname⟩ := h
  obtain ⟨hqid, hmove⟩ := lockStep_move hstep
  exact ⟨lock, hqid ▸ hmove.segments_subset hname⟩

theorem LockSystem.taken_of_finish (h : s.Held) (hends : ¬ KeepsInside s e)
    (hstep : lockStep fromByteArr s e = some s') : s'.Taken := by
  obtain ⟨hqid, hmove⟩ := lockStep_move hstep
  unfold LockSystem.Taken
  rw [hqid]
  revert hmove
  generalize s'.segments = segments, s'.calls = calls
  intro hmove
  cases hmove with
  | finish hi hinside => exact ⟨_, h _ (List.mem_of_getElem? hi) hinside⟩
  | rest hkeeps => exact absurd hkeeps hends
  | enter hkeeps => exact absurd hkeeps hends
  | acquire | wait | leave => exact absurd trivial hends

/-! ## When the locks are given back -/

/-- In every state that a run from a fresh queue reaches and in which no call is between its acquire and
its release, both locks can be had at the first attempt exactly when no call that had got its lock has
ended. -/
theorem locks_given_back_iff (q : MemQueue) {events : List (LockEvent Object)}
    (hrun : runFrom (lockStep fromByteArr) (LockSystem.start q) events = some t)
    (hnone : t.NoneInside) :
    (∀ lock, t.Obtainable lock) ↔
      Along (lockStep fromByteArr) KeepsInside (LockSystem.start q) events := by
  simp only [LockSystem.obtainable_iff]
  constructor
  · intro hfree
    refine Along.of_lasting LockSystem.Held LockSystem.Taken ?_ ?_ ?_ ?_ hrun ?_
    · exact fun s e s' h hstep => h.step hstep
    · exact fun s e s' h hends hstep => LockSystem.taken_of_finish h hends hstep
    · exact fun s e s' h hstep => h.step hstep
    · exact fun c hc => nomatch hc
    · rintro ⟨lock, hname⟩
      exact hfree lock hname
  · intro hkeeps lock hname
    have hinUse : t.InUse := by
      refine hkeeps.invariant ?_ ?_ hrun
      · exact fun s e s' h hguard hstep => h.step hguard hstep
      · intro lock hname
        exact absurd (List.mem_singleton.mp hname) (lockMemoryName_ne_memoryName q.qid lock)
    obtain ⟨c, hc, hinside, -⟩ := hinUse lock hname
    rw [hnone c hc] at hinside
    cases hinside

/-- Once a call that had got its lock has ended, some lock can not be had again. -/
theorem taken_for_ever {events : List (LockEvent Object)} (h : s.Taken)
    (hrun : runFrom (lockStep fromByteArr) s events = some t) : ∃ lock, ¬ t.Obtainable lock := by
  have htaken : t.Taken := by
    apply runFrom_invariant ?_ h hrun
    exact fun s e s' h hstep => h.step hstep
  obtain ⟨lock, hname⟩ := htaken
  refine ⟨lock, ?_⟩
  rw [LockSystem.obtainable_iff]
  exact not_not_intro hname

end Step

/-- An object whose put waits for its first attempt, and whose get found nothing pending. -/
theorem locks_given_back_iff_waiting_put :
    ∃ q, create (queueOfSize 200) = .ok q ∧
      ∃ t, runFrom (lockStep (Except.ok : Bytes → Except PyError Bytes))
          (LockSystem.start q : LockSystem Unit) [.put () (.ok [1]), .get ()] = some t ∧
        ((∀ lock, t.Obtainable lock) ↔
          Along (lockStep (Except.ok : Bytes → Except PyError Bytes)) KeepsInside
            (LockSystem.start q : LockSystem Unit) [.put () (.ok [1]), .get ()]) := by
  obtain ⟨q, hq, -⟩ := create_holds (queueOfSize 200) (by decide) (by decide)
  have hend := of_create (fun q =>
    (runFrom (lockStep (Except.ok : Bytes → Except PyError Bytes))
      (LockSystem.start q : LockSystem Unit) [.put () (.ok [1]), .get ()]).any
        (fun t => decide t.NoneInside) = true) hq (by decide +kernel)
  obtain ⟨t, hrun, ht⟩ := (Option.any_eq_true _ _).mp hend
  exact ⟨q, hq, t, hrun, locks_given_back_iff q hrun (of_decide_eq_true ht)⟩

/-- One put that went through: no call is left, and the write lock can not be had again. -/
theorem write_lock_lost_after_put :
    ∃ q, create (queueOfSize 200) = .ok q ∧
      ∃ t, runFrom (lockStep (Except.ok : Bytes → Except PyError Bytes))
          (LockSystem.start q : LockSystem Unit)
          [.put () (.ok [1]), .attempt 0, .finish 0 0] = some t ∧
        t.NoneInside ∧ ¬ t.Obtainable .write := by
  obtain ⟨q, hq, -⟩ := create_holds (queueOfSize 200) (by decide) (by decide)
  have hend := of_create (fun q =>
    (runFrom (lockStep (Except.ok : Bytes → Except PyError Bytes))
      (LockSystem.start q : LockSystem Unit) [.put () (.ok [1]), .attempt 0, .finish 0 0]).any
        (fun t => decide (t.NoneInside ∧ lockMemoryName t.qid .write ∈ t.segments)) = true)
    hq (by decide +kernel)
  obtain ⟨t, hrun, ht⟩ := (Option.any_eq_true _ _).mp hend
  obtain ⟨hnone, htaken⟩ := of_decide_eq_true ht
  refine ⟨q, hq, t, hrun, hnone, ?_⟩
  rw [LockSystem.obtainable_iff]
  exact not_not_intro htaken

end Upipe.MemQueue
