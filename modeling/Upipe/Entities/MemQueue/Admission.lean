import Upipe.Entities.MemQueue.Holds

/-!
# The two admission tests

`space_available` compares the frame with the free space. `put` does so too, after it has compared the used
part of the whole buffer with 90%, and it has four integers to write into four bytes each.

`admission_agrees_iff` says for every queue that can be reached, of any size, when the two give one answer.
-/

namespace Upipe.MemQueue

open Upipe.Common

/-- A queue object that some run leads to. Other processes may come in between the tests and the locked part
of a `put`, so all that is sure of its frame in the locked part is that it fits the data area; between the
test and the locked part of a `get` nothing is sure. The object may be that of any producer. -/
inductive Reachable : MemQueue → Prop
  | created {api : APIQueue} {q : MemQueue} (h : create api = .ok q) : Reachable q
  | object {q : MemQueue} (n : ℕ) (h : Reachable q) : Reachable { q with frameCounter := n }
  | written {q : MemQueue} {body : Bytes} (now : UInt64) (h : Reachable q)
      (hfit : frameSize body ≤ q.size - qControlSize) : Reachable (stateOf (putLocked body now q))
  | read {q : MemQueue} {α : Type} (fromByteArr : Bytes → Except PyError α) (now : UInt64)
      (h : Reachable q) : Reachable (stateOf (getLocked fromByteArr now q))

variable {q q' : MemQueue} {body : Bytes}

/-! ## What every call keeps -/

theorem InBounds.of_create {api : APIQueue} (hq : create api = .ok q) : InBounds q := by
  have hge : 97 ≤ api.size := by
    by_contra hlt
    rw [create, if_pos (by simp only [qControlSize, frameHeaderSize]; omega)] at hq
    cases hq
  obtain ⟨q', hq', hs, hexe, halloc, -⟩ := create_sets api hge
  rw [hq, Except.ok.injEq] at hq'
  subst hq'
  have hsize : q.size = api.size.toNat := hs.size
  have hc : qControlSize = 64 := rfl
  have hh : frameHeaderSize = 32 := rfl
  refine ⟨?_, ?_, ?_, ?_, ?_, ?_⟩
  · omega
  · rw [hs.length_eq, hsize]
    exact List.length_replicate ..
  all_goals omega

/-- A store behind the control bytes leaves them alone, whether it returns or raises. -/
theorem store_sameCtl {lo hi : ℤ} {v : Bytes} (h : qControlSize ≤ q.buf.length) (hlo : qControlSize ≤ lo) :
    SameCtl qControlSize 0 q (stateOf (store lo hi v q)) := by
  have hindex : qControlSize ≤ sliceIndex lo q.buf.length := by
    rw [sliceIndex, if_neg (by omega)]
    omega
  have hle : sliceIndex lo q.buf.length ≤ q.buf.length := by
    rw [sliceIndex, if_neg (by omega)]
    omega
  rw [store]
  split
  · rename_i hv
    rw [pySlice, length_slice] at hv
    rw [stateOf_ok, patch_eq_withData hindex (by omega)]
    refine withData_sameCtl h ?_
    rw [length_patch]
    rw [length_data]
    omega
  · exact ⟨rfl, rfl, fun _ _ _ _ => rfl⟩

/-- Clearing leaves the control bytes alone. It returns only when the frame goes at most once around. -/
theorem InBounds.clear (h : InBounds q) (n : ℕ) :
    SameCtl qControlSize 0 q (stateOf (clearExecutedFrame n q)) ∧
      ∀ q', clearExecutedFrame n q = .ok () q' → q.exeIndex + n + qControlSize ≤ 2 * q.size := by
  have hbuf := h.buf_length
  have hge := h.exe_ge
  have hle := h.exe_le
  have hc : qControlSize = 64 := rfl
  have hs : dataStartPoint = 64 := rfl
  have hsize := h.size_ge
  by_cases hfit : q.exeIndex + n < q.size
  · rw [clearExecutedFrame, get_bind_apply, if_pos hfit]
    exact ⟨store_sameCtl h.control_le (by omega), fun _ _ => by omega⟩
  · rw [clearExecutedFrame_wrap hle (by omega)]
    have hfirst : SameCtl qControlSize 0 q
        (stateOf (store q.exeIndex q.buf.length (List.replicate (q.size - q.exeIndex) 0) q)) :=
      store_sameCtl h.control_le (by omega)
    cases hstore : store q.exeIndex q.buf.length (List.replicate (q.size - q.exeIndex) 0) q with
    | error e q₁ =>
      rw [hstore] at hfirst
      rw [bind_error hstore]
      exact ⟨hfirst, fun _ he => by cases he⟩
    | ok _ q₁ =>
      rw [hstore, stateOf_ok] at hfirst
      have hlen : q₁.buf.length = q.buf.length := hfirst.length_eq
      rw [bind_ok hstore]
      refine ⟨hfirst.trans (store_sameCtl (by omega) (by omega)), ?_⟩
      intro q' hok
      rw [store] at hok
      split at hok
      · rename_i hv
        -- the second part of the frame is in front of `exe_index`
        rw [List.length_replicate, pySlice, length_slice, sliceIndex, if_neg (by omega), sliceIndex,
          if_neg (by omega)] at hv
        omega
      · cases hok

/-- A setter keeps the bounds when it is not for an index. -/
theorem keeps_setInt {address len : ℕ} {v : ℤ} (hd : 34 ≤ address ∨ address + len ≤ 26)
    (hfield : address + len ≤ qControlSize) : Keeps InBounds (setInt address len v) := by
  intro q h
  have := h.control_le
  exact h.sameCtl (setInt_sameOff v (by omega)).sameCtl hd

/-- `exe_index` moves to at most the end of the data area, or its setter raises. -/
theorem InBounds.advance (h : InBounds q) {n : ℕ} (hn : q.exeIndex + n + qControlSize ≤ 2 * q.size) :
    InBounds (stateOf (updateExecutionIndex n q)) := by
  have hge := h.exe_ge
  have hle := h.exe_le
  have hs : dataStartPoint = qControlSize := rfl
  have hc : qControlSize = 64 := rfl
  have := h.control_le
  have hset : ∀ v : ℕ, qControlSize ≤ v → v ≤ q.size → InBounds (stateOf (setInt exePointer 4 (v : ℤ) q)) := by
    intro v hv hv'
    rcases Nat.lt_or_ge v (256 ^ 4) with hlt | hlt
    · have hfield : exePointer + 4 ≤ q.buf.length := by
        simp only [exePointer]
        omega
      have hsame := withInt_sameOff (q := q) exePointer 4 v hfield
      have halloc : (q.withInt exePointer 4 v).allocIndex = q.allocIndex :=
        hsame.getInt (Or.inl (by decide))
      have hexe : (q.withInt exePointer 4 v).exeIndex = v := getInt_withInt hfield hlt
      rw [setInt_ok hfield hlt, stateOf_ok]
      exact {
        size_ge := h.size_ge
        buf_length := hsame.length_eq.trans h.buf_length
        exe_ge := by rw [hexe]; exact hv
        exe_le := by rw [hexe]; exact hv'
        alloc_ge := halloc ▸ h.alloc_ge
        alloc_lt := by rw [halloc]; exact h.alloc_lt }
    · rw [setInt_overflow hlt]
      exact h
  rw [updateExecutionIndex, get_bind_apply]
  split
  · exact hset _ (by omega) (by omega)
  · refine hset _ (Nat.le_add_right _ _) ?_
    rcases Nat.lt_or_ge (q.exeIndex + n) (2 * q.size) with hlt | hlt
    · rw [Nat.mod_eq_sub_mod (by omega), Nat.mod_eq_of_lt (by omega)]
      omega
    · omega

section Get

variable {α : Type} (fromByteArr : Bytes → Except PyError α)

theorem keeps_finishGet (expected frameData : Bytes) (start : ℕ) (now : UInt64) :
    Keeps InBounds (finishGet fromByteArr expected frameData start now) := by
  have hdfps : Keeps InBounds (updateDfps now) := by
    intro q h
    obtain ⟨q', hu, hs⟩ := updateDfps_ok h.control_le now
    rw [hu]
    exact h.sameCtl hs.sameCtl (Or.inl (by decide))
  rw [finishGet]
  refine (keeps_ofExcept _).bind fun actual => ?_
  split
  · exact keeps_get_bind fun q h => h
  · refine (keeps_ofExcept _).bind fun frame => hdfps.bind fun _ => keeps_get_bind fun q h => ?_
    exact ((keeps_setInt (Or.inl (by decide)) (by decide)).bind fun _ => keeps_pure _) q h

theorem keeps_getLocked (now : UInt64) : Keeps InBounds (getLocked fromByteArr now) := by
  intro q h
  by_cases hcreated : Created q.readFrameHeader
  swap
  · rw [stateOf_getLocked_of_not_created fromByteArr hcreated]
    exact h
  rw [getLocked_of_created fromByteArr hcreated]
  split
  · exact h
  generalize declaredSize q.readFrameHeader = n
  cases hdata : q.readFrameData ((n : ℤ) - frameHeaderSize) with
  | error e =>
    rw [bind_error (ofExcept_error _ q)]
    exact h
  | ok frameData =>
    rw [bind_ok (ofExcept_ok _ q)]
    obtain ⟨hctl, hround⟩ := h.clear n
    cases hclear : clearExecutedFrame n q with
    | error e q₁ =>
      rw [hclear] at hctl
      rw [bind_error hclear]
      exact h.sameCtl hctl (Or.inr (by decide))
    | ok _ q₁ =>
      rw [hclear, stateOf_ok] at hctl
      have hn := hround q₁ hclear
      have hexe : q₁.exeIndex = q.exeIndex := hctl.getInt (by decide) (Or.inr (Nat.zero_le _))
      have hadvance := (h.sameCtl hctl (Or.inr (by decide))).advance (n := n) (by
        rw [hexe, hctl.size]
        exact hn)
      rw [bind_ok hclear]
      cases hupdate : updateExecutionIndex n q₁ with
      | error e q₂ =>
        rw [hupdate] at hadvance
        rw [bind_error hupdate]
        exact hadvance
      | ok _ q₂ =>
        rw [hupdate] at hadvance
        rw [bind_ok hupdate]
        exact keeps_finishGet fromByteArr _ _ _ now q₂ hadvance

end Get

theorem Reachable.inBounds (h : Reachable q) : InBounds q := by
  induction h with
  | created hq => exact .of_create hq
  | object n _ ih => exact ⟨ih.size_ge, ih.buf_length, ih.exe_ge, ih.exe_le, ih.alloc_ge, ih.alloc_lt⟩
  | written now _ hfit ih => exact (ih.putLocked_ends hfit now).1
  | read fromByteArr now _ ih => exact keeps_getLocked fromByteArr now _ ih

/-- Whole calls lead from one reachable queue to another. -/
theorem Reachable.put (h : Reachable q) (df : Except PyError Bytes) (now : UInt64) :
    Reachable (stateOf (q.put df now)) := by
  rw [put_eq_putTest]
  split
  · rename_i body htest
    obtain ⟨-, -, hfit⟩ := putTest_eq_some htest
    exact h.written now (h.inBounds.frameSize_le hfit)
  · exact h
  · exact h

theorem Reachable.get {α : Type} (h : Reachable q) (fromByteArr : Bytes → Except PyError α) (now : UInt64) :
    Reachable (stateOf (MemQueue.get fromByteArr now q)) := by
  rw [MemQueue.get, get_bind_apply]
  split
  · exact h
  · exact h.read fromByteArr now

/-! ## The two tests -/

theorem spaceAvailable_eq_true_iff (df : Except PyError Bytes) :
    q.spaceAvailable df = .ok true ↔ ∃ body, df = .ok body ∧ q.fitsFree body := by
  cases df with
  | error e => exact iff_of_false (fun h => nomatch h) (fun ⟨_, h, _⟩ => nomatch h)
  | ok body =>
    change (if (frameSize body : ℤ) > q.freeSpace then .ok false else .ok true : Except PyError Bool) = _ ↔ _
    by_cases hfit : q.fitsFree body
    · rw [if_neg (Int.not_lt.mpr hfit)]
      exact iff_of_true rfl ⟨body, rfl, hfit⟩
    · rw [if_pos (Int.not_le.mp hfit)]
      refine iff_of_false (fun h => nomatch h) ?_
      rintro ⟨body', hbody, hfit'⟩
      cases hbody
      exact hfit hfit'

theorem InBounds.put_eq_true_iff (h : InBounds q) (df : Except PyError Bytes) (now : UInt64) :
    (∃ q', q.put df now = .ok true q') ↔
      ∃ body, df = .ok body ∧ q.fitsFree body ∧ ¬ q.overCapacity ∧ ¬ q.Overflows (frameSize body) := by
  rw [put_eq_putTest]
  cases htest : q.putTest df with
  | error e =>
    refine iff_of_false (fun ⟨_, h⟩ => nomatch h) ?_
    rintro ⟨body, rfl, hfit, hover, -⟩
    rw [putTest_of_fits hover hfit] at htest
    cases htest
  | ok result =>
    cases result with
    | none =>
      refine iff_of_false (fun ⟨_, h⟩ => nomatch h) ?_
      rintro ⟨body, rfl, hfit, hover, -⟩
      rw [putTest_of_fits hover hfit] at htest
      cases htest
    | some body =>
      obtain ⟨hover, rfl, hfit⟩ := putTest_eq_some htest
      dsimp only
      rcases (h.putLocked_ends (h.frameSize_le hfit) now).2 with ⟨hnone, hput⟩ | ⟨hsome, e, q', -, hput⟩
      · exact iff_of_true hput ⟨body, rfl, hfit, hover, hnone⟩
      · rw [hput]
        refine iff_of_false (fun ⟨_, h⟩ => nomatch h) ?_
        rintro ⟨body', hbody, -, -, hnone⟩
        cases hbody
        exact hnone hsome

/-- On every queue that can be reached, `space_available` and `put` give one answer unless the frame fits the
free space while the queue is over its capacity, or while an integer of the frame overflows. -/
theorem admission_agrees_iff (h : Reachable q) (df : Except PyError Bytes) (now : UInt64) :
    (q.spaceAvailable df = .ok true ↔ ∃ q', q.put df now = .ok true q') ↔
      ¬ ∃ body, df = .ok body ∧ q.fitsFree body ∧ (q.overCapacity ∨ q.Overflows (frameSize body)) := by
  rw [spaceAvailable_eq_true_iff, h.inBounds.put_eq_true_iff df now]
  constructor
  · rintro hiff ⟨body, rfl, hfit, hbad⟩
    obtain ⟨body', hbody, -, hover, hnone⟩ := hiff.mp ⟨body, rfl, hfit⟩
    cases hbody
    exact hbad.elim hover hnone
  · intro hgood
    constructor
    · rintro ⟨body, rfl, hfit⟩
      have hboth : ¬ (q.overCapacity ∨ q.Overflows (frameSize body)) :=
        fun hbad => hgood ⟨body, rfl, hfit, hbad⟩
      exact ⟨body, rfl, hfit, not_or.mp hboth⟩
    · rintro ⟨body, hbody, hfit, -⟩
      exact ⟨body, hbody, hfit⟩

/-- A frame of one byte on a fresh queue of 200 bytes. -/
theorem admission_agrees_one_byte :
    ∃ q, create (queueOfSize 200) = .ok q ∧
      (q.spaceAvailable (.ok [1]) = .ok true ↔ ∃ q', q.put (.ok [1]) 0 = .ok true q') := by
  obtain ⟨q, hq, -⟩ := create_holds (queueOfSize 200) (by decide) (by decide)
  refine ⟨q, hq, (admission_agrees_iff (.created hq) (.ok [1]) 0).mpr ?_⟩
  rintro ⟨body, hbody, -, hbad⟩
  cases hbody
  exact of_create (fun q => ¬ (q.overCapacity ∨ q.Overflows (frameSize [1]))) hq (by decide +kernel) hbad

/-- A queue of 1000 bytes with one frame of 901 bytes. There are 35 bytes left for a frame of 33, and the
queue is over 90%. -/
theorem space_available_refused :
    ∃ q, Reachable q ∧ q.spaceAvailable (.ok [1]) = .ok true ∧ q.put (.ok [1]) 0 = .ok false q := by
  obtain ⟨q₀, hq₀, hholds, hsize₀, halloc, hnum⟩ :=
    create_holds (queueOfSize 1000) (by decide) (by decide)
  have hsize : q₀.size = 1000 := hsize₀
  have hframe : frameSize (List.replicate 869 0) = 901 := by
    rw [frameSize, List.length_replicate, frameHeaderSize]
  obtain ⟨q, hlt, hput, pushed, hq, -⟩ := hholds.carries.put_ok 0
    (of_create (fun q => ¬ q.overCapacity) hq₀ (by decide +kernel))
    (show used [] + frameSize (List.replicate 869 0) ≤ q₀.size - qControlSize by
      rw [hframe, hsize, used_nil]; decide) (by omega) (by omega)
  have hreach := (Reachable.created hq₀).put (.ok (List.replicate 869 0)) 0
  rw [hput, stateOf_ok] at hreach
  have hsize' : q.size = 1000 := pushed.ctl.size.trans hsize
  have hused : used ([] ++ [Frame.ofBody (List.replicate 869 0) q₀.frameCounter hlt]) = 901 := by
    rw [used_append, used_cons, used_nil, Frame.raw_ofBody, length_frameBytes, hframe]
  have hfree : q.freeSpace = 35 := by
    rw [freeSpace_of_lt hq.toStores (by rw [hused, hsize']; decide), hused, hsize']
    rfl
  have hover : q.overCapacity := by
    rw [overCapacity, hfree, hsize']
    decide
  have hfit : q.fitsFree [1] := by
    rw [fitsFree, hfree]
    decide
  exact ⟨q, hreach, (spaceAvailable_eq_true_iff _).mpr ⟨[1], rfl, hfit⟩, put_refused 0 (Or.inl hover)⟩

end Upipe.MemQueue
