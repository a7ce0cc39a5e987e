import Upipe.Entities.MemQueue.Holds
import Upipe.Entities.MemQueue.Longer

/-!
# `get` through a longer mapping

`get` leaves the end of a slice open where it reads up to the end of the queue and where it clears up to it:
through a longer mapping such a read is too long, and such an assignment raises. `attached_agrees_iff` says on
which queues `put` and `get` behave through the two mappings alike.
-/

namespace Upipe.MemQueue

open Upipe.Common

variable {q q' : MemQueue} {extra : Bytes}

/-! ## Clearing -/

/-- `exe_index` is the end of the data area, and a frame of size `n` does not fit the data area: clearing it
raises before it changes anything. -/
def Stuck (q : MemQueue) (n : ℕ) : Prop := q.exeIndex = q.size ∧ q.size < dataStartPoint + n

instance (q : MemQueue) (n : ℕ) : Decidable (q.Stuck n) := inferInstanceAs (Decidable (_ ∧ _))

/-- Byte `i` of the data area is zero. -/
structure ZeroAt (i : ℕ) (q : MemQueue) : Prop where
  control_le : qControlSize ≤ q.buf.length
  zero : q.data[i]? = some 0

section Clear

variable {i n : ℕ}

theorem keeps_zeroAt_setInt {address len : ℕ} (v : ℤ) (h : address + len ≤ qControlSize) :
    Keeps (ZeroAt i) (setInt address len v) := by
  intro q hq
  have hs := setInt_sameOff v (Nat.le_trans h hq.control_le)
  exact ⟨hs.length_eq ▸ hq.control_le, (hs.data h) ▸ hq.zero⟩

theorem keeps_zeroAt_advance (n : ℕ) : Keeps (ZeroAt i) (updateExecutionIndex n) := by
  rw [updateExecutionIndex]
  refine keeps_get_bind fun q hq => ?_
  split
  · exact keeps_zeroAt_setInt _ (by decide) q hq
  · exact keeps_zeroAt_setInt _ (by decide) q hq

theorem keeps_zeroAt_finishGet {α : Type} (fromByteArr : Bytes → Except PyError α)
    (expected frameData : Bytes) (start : ℕ) (now : UInt64) :
    Keeps (ZeroAt i) (finishGet fromByteArr expected frameData start now) := by
  have hdfps : Keeps (ZeroAt i) (updateDfps now) := by
    intro q hq
    obtain ⟨q', hu, hs⟩ := updateDfps_ok hq.control_le now
    rw [hu]
    exact ⟨hs.length_eq ▸ hq.control_le, (hs.data (by decide)) ▸ hq.zero⟩
  rw [finishGet]
  refine (keeps_ofExcept _).bind fun actual => ?_
  split
  · exact keeps_get_bind fun q hq => hq
  · refine (keeps_ofExcept _).bind fun frame => hdfps.bind fun _ => keeps_get_bind fun q hq => ?_
    exact ((keeps_zeroAt_setInt _ (by decide)).bind fun _ => keeps_pure _) q hq

/-- Writing zeros leaves a zero byte zero, whether the store returns or raises. -/
theorem keeps_zeroAt_store (hi : ℤ) (m : ℕ) :
    Keeps (ZeroAt i) (store dataStartPoint hi (List.replicate m 0)) := by
  intro q hq
  have hcontrol := hq.control_le
  have hs : dataStartPoint = qControlSize := rfl
  have hindex : sliceIndex (dataStartPoint : ℤ) q.buf.length = qControlSize := by
    rw [sliceIndex_of_nonneg (by omega) (by omega), Int.toNat_natCast, hs]
  have hle : sliceIndex hi q.buf.length ≤ q.buf.length := by
    rw [sliceIndex]
    split <;> omega
  rw [store]
  split
  · rename_i hv
    rw [pySlice, length_slice, hindex] at hv
    have hdata := length_data q
    rw [stateOf_ok, hindex, patch_eq_withData (Nat.le_refl _) (by omega), Nat.sub_self]
    have hfit : 0 + (List.replicate m (0 : UInt8)).length ≤ q.data.length := by omega
    refine ⟨?_, ?_⟩
    · rw [(withData_sameCtl hcontrol (length_patch hfit)).length_eq]
      exact hcontrol
    · rw [data_withData hcontrol, getElem?_patch hfit, if_neg (Nat.not_lt_zero i)]
      split
      · rename_i hlt
        rw [List.length_replicate] at hlt
        rw [List.getElem?_replicate, if_pos (by omega)]
      · exact hq.zero
  · exact hq

/-- Clearing up to the end of the buffer zeroes the byte at `exe_index`. -/
theorem InBounds.clear_zero (h : InBounds q) (hlt : q.exeIndex < q.size) (hcross : q.size ≤ q.exeIndex + n) :
    ZeroAt (q.exeIndex - qControlSize) (stateOf (clearExecutedFrame n q)) := by
  have hbuf := h.buf_length
  have hge := h.exe_ge
  have hdata := length_data q
  have hzeros : (List.replicate (q.size - q.exeIndex) (0 : UInt8)).length = q.size - q.exeIndex :=
    List.length_replicate ..
  have hfit : q.exeIndex - qControlSize + (List.replicate (q.size - q.exeIndex) (0 : UInt8)).length
      ≤ q.data.length := by omega
  rw [clearExecutedFrame_wrap h.exe_le hcross, bind_ok (store_data rfl hge (by omega) (by omega))]
  apply keeps_zeroAt_store
  refine ⟨?_, ?_⟩
  · rw [(withData_sameCtl h.control_le (length_patch hfit)).length_eq]
    exact h.control_le
  · rw [data_withData h.control_le, getElem?_patch hfit, if_neg (Nat.lt_irrefl _), if_pos (by omega),
      Nat.sub_self, List.getElem?_replicate, if_pos (by omega)]

/-- From the end of the data area clearing starts over at its beginning. -/
theorem InBounds.clear_at_end (h : InBounds q) (hend : q.exeIndex = q.size) (n : ℕ) :
    clearExecutedFrame n q = store dataStartPoint (dataStartPoint + n) (List.replicate n 0) q := by
  have hbuf := h.buf_length
  have hnothing : store q.exeIndex q.buf.length [] q = .ok () q := by
    rw [store_ok (by omega) (by omega) (by rw [List.length_nil]; omega), patch, List.append_nil,
      List.length_nil, Nat.add_zero, List.take_append_drop]
  rw [clearExecutedFrame_wrap h.exe_le (by omega), hend, Nat.sub_self, List.replicate_zero, ← hend,
    bind_ok hnothing]
  congr 1
  omega

theorem InBounds.clear_stuck (h : InBounds q) (hstuck : q.Stuck n) :
    ∃ e, e.kind = .valueError ∧ clearExecutedFrame n q = .error e q := by
  obtain ⟨hend, hlt⟩ := hstuck
  have hbuf := h.buf_length
  have hcontrol := h.control_le
  have hs : dataStartPoint = qControlSize := rfl
  rw [h.clear_at_end hend, store, if_neg]
  · exact ⟨_, rfl, rfl⟩
  · rw [pySlice, length_slice, List.length_replicate, sliceIndex, if_neg (by omega), sliceIndex,
      if_neg (by omega)]
    omega

theorem InBounds.clear_zero_at_end (h : InBounds q) (hend : q.exeIndex = q.size)
    (hfit : dataStartPoint + n ≤ q.size) (hn : 0 < n) : ZeroAt 0 (stateOf (clearExecutedFrame n q)) := by
  have hbuf := h.buf_length
  have hdata := length_data q
  have hs : dataStartPoint = qControlSize := rfl
  have hzeros : (List.replicate n (0 : UInt8)).length = n := List.length_replicate ..
  have hroom : 0 + (List.replicate n (0 : UInt8)).length ≤ q.data.length := by omega
  rw [h.clear_at_end hend, store_data (p := dataStartPoint) rfl (Nat.le_of_eq hs.symm) (by omega) (by omega),
    hs, Nat.sub_self]
  refine ⟨?_, ?_⟩
  · rw [stateOf_ok, (withData_sameCtl h.control_le (length_patch hroom)).length_eq]
    exact h.control_le
  · rw [stateOf_ok, data_withData h.control_le, getElem?_patch hroom, if_neg (Nat.lt_irrefl 0),
      if_pos (by omega), List.getElem?_replicate, if_pos (by omega)]

/-- Through a longer mapping, clearing up to the end raises. -/
theorem InBounds.clear_longer (h : InBounds q) (hextra : extra ≠ []) (hcross : q.size ≤ q.exeIndex + n) :
    ∃ e, e.kind = .valueError ∧ clearExecutedFrame n (q.longer extra) = .error e (q.longer extra) := by
  have hexe : (q.longer extra).exeIndex = q.exeIndex := exeIndex_longer h.control_le
  have hbuf := h.buf_length
  have hle := h.exe_le
  have hpos := List.length_pos_of_ne_nil hextra
  have hlen : (q.longer extra).buf.length = q.buf.length + extra.length := List.length_append
  have hstore : store (q.longer extra).exeIndex (q.longer extra).buf.length
      (List.replicate ((q.longer extra).size - (q.longer extra).exeIndex) 0) (q.longer extra)
        = .error ⟨.valueError, "memoryview assignment: lvalue and rvalue have different structures"⟩
          (q.longer extra) := by
    rw [store, if_neg]
    rw [pySlice_of_le (by omega) (by omega) (by omega) (by omega), length_slice, List.length_replicate, hexe,
      size_longer]
    omega
  rw [clearExecutedFrame_wrap (by rw [hexe]; exact hle) (by rw [hexe]; exact hcross), bind_error hstore]
  exact ⟨_, rfl, rfl⟩

end Clear

/-! ## What a header says -/

/-- The ways `get` takes a header. -/
inductive Verdict where
  | nothing | noWatermark | badSize | frame
deriving DecidableEq

def verdict (header : Bytes) : Verdict :=
  if ¬ Created header then .nothing
  else if ¬ Marked header then .noWatermark
  else if declaredSize header < frameHeaderSize then .badSize
  else .frame

/-- Two headers whose frames end in one way when neither can be cleared. -/
def Verdict.Alike : Verdict → Verdict → Prop
  | .nothing, v => v = .nothing
  | .noWatermark, v => v = .noWatermark
  | .badSize, v | .frame, v => v = .badSize ∨ v = .frame

instance : ∀ v v' : Verdict, Decidable (v.Alike v')
  | .nothing, v | .noWatermark, v => inferInstanceAs (Decidable (v = _))
  | .badSize, v | .frame, v => inferInstanceAs (Decidable (v = _ ∨ v = _))

/-- A call that ends without a change: with `None`, or with an exception of the given class. -/
def Untouched {α : Type} (q : MemQueue) (result : EStateM.Result PyError MemQueue (Option α)) :
    Option PyErrorKind → Prop
  | none => result = .ok none q
  | some kind => ∃ e : PyError, e.kind = kind ∧ result = .error e q

/-- How a call ends that cannot clear its frame. -/
def Verdict.ends : Verdict → Option PyErrorKind
  | .nothing => none
  | .noWatermark => some .brokenPipeError
  | .badSize | .frame => some .valueError

theorem Verdict.alike_iff (v v' : Verdict) : v.Alike v' ↔ v.ends = v'.ends := by
  cases v <;> cases v' <;> decide

section Get

variable {α : Type} (fromByteArr : Bytes → Except PyError α) (now : UInt64)

/-- A frame that cannot be taken. -/
theorem getLocked_untouched (hne : q.readFrameHeader ≠ [])
    (h : verdict q.readFrameHeader ≠ .frame) :
    Untouched q (getLocked fromByteArr now q) (verdict q.readFrameHeader).ends := by
  by_cases hcreated : Created q.readFrameHeader
  swap
  · have hstatus : ∃ s, byteAt q.readFrameHeader frameStatusOffset = .ok s ∧ s ≠ frameCreated := by
      obtain ⟨b, rest, hheader⟩ := List.exists_cons_of_ne_nil hne
      rw [hheader] at hcreated ⊢
      exact ⟨b, rfl, fun hb => hcreated (hb ▸ rfl)⟩
    obtain ⟨s, hs, hsne⟩ := hstatus
    rw [verdict, if_pos hcreated]
    show getLocked fromByteArr now q = .ok none q
    rw [getLocked, get_bind_apply, hs, bind_ok (ofExcept_ok _ q), if_pos hsne]
    rfl
  rw [verdict, if_neg (not_not_intro hcreated)] at h ⊢
  rw [getLocked_of_created fromByteArr hcreated]
  by_cases hmarked : Marked q.readFrameHeader
  swap
  · rw [if_pos hmarked, if_pos hmarked]
    exact ⟨_, rfl, rfl⟩
  rw [if_neg (not_not_intro hmarked)] at h ⊢
  rw [if_neg (not_not_intro hmarked)]
  by_cases hsize : declaredSize q.readFrameHeader < frameHeaderSize
  swap
  · exact absurd (if_neg hsize) h
  have hdata : q.readFrameData ((declaredSize q.readFrameHeader : ℤ) - frameHeaderSize)
      = .error ⟨.valueError, "negative count"⟩ := by
    rw [readFrameData, byteArray, if_pos (by omega)]
    rfl
  rw [if_pos hsize, hdata, bind_error (ofExcept_error _ q)]
  exact ⟨_, rfl, rfl⟩

theorem created_of_frame {header : Bytes} (h : verdict header = .frame) : Created header := by
  by_contra hcreated
  rw [verdict, if_pos hcreated] at h
  cases h

/-- A frame that can be taken is cleared first. -/
theorem getLocked_frame (h : verdict q.readFrameHeader = .frame) :
    frameHeaderSize ≤ declaredSize q.readFrameHeader ∧
      ∃ frameData, q.readFrameData ((declaredSize q.readFrameHeader : ℤ) - frameHeaderSize) = .ok frameData ∧
        getLocked fromByteArr now q
          = (clearExecutedFrame (declaredSize q.readFrameHeader) >>= fun _ =>
              updateExecutionIndex (declaredSize q.readFrameHeader) >>= fun _ =>
              finishGet fromByteArr (slice q.readFrameHeader frameCrc32Offset (frameCrc32Offset + 4)) frameData
                q.exeIndex now) q := by
  rw [verdict] at h
  split at h
  · cases h
  rename_i hcreated
  split at h
  · cases h
  rename_i hmarked
  split at h
  · cases h
  rename_i hsize
  refine ⟨Nat.not_lt.mp hsize, ?_⟩
  have hdata : ∃ frameData,
      q.readFrameData ((declaredSize q.readFrameHeader : ℤ) - frameHeaderSize) = .ok frameData := by
    rw [readFrameData, byteArray, if_neg (by omega)]
    dsimp only [bind, Except.bind]
    split <;> exact ⟨_, rfl⟩
  obtain ⟨frameData, hdata⟩ := hdata
  refine ⟨frameData, hdata, ?_⟩
  rw [getLocked_of_created fromByteArr (not_not.mp hcreated), if_neg hmarked, hdata,
    bind_ok (ofExcept_ok _ q)]

/-- Where clearing raises before it changes anything, so does the call. -/
theorem getLocked_untouched_of_clear (hne : q.readFrameHeader ≠ [])
    (hclear : verdict q.readFrameHeader = .frame →
      ∃ e, e.kind = .valueError ∧ clearExecutedFrame (declaredSize q.readFrameHeader) q = .error e q) :
    Untouched q (getLocked fromByteArr now q) (verdict q.readFrameHeader).ends := by
  by_cases h : verdict q.readFrameHeader = .frame
  · obtain ⟨-, frameData, -, heq⟩ := getLocked_frame fromByteArr now h
    obtain ⟨e, hk, hclear⟩ := hclear h
    rw [heq, bind_error hclear, h]
    exact ⟨e, hk, rfl⟩
  · exact getLocked_untouched fromByteArr now hne h

/-- A frame whose first byte is cleared changes the queue. -/
theorem getLocked_changes {i : ℕ} (h : verdict q.readFrameHeader = .frame)
    (hbyte : q.data[i]? = some frameCreated)
    (hzero : ZeroAt i (stateOf (clearExecutedFrame (declaredSize q.readFrameHeader) q))) :
    stateOf (getLocked fromByteArr now q) ≠ q := by
  obtain ⟨-, frameData, -, heq⟩ := getLocked_frame fromByteArr now h
  have hend : ZeroAt i (stateOf (getLocked fromByteArr now q)) := by
    rw [heq]
    cases hclear : clearExecutedFrame (declaredSize q.readFrameHeader) q with
    | error e q₁ =>
      rw [hclear] at hzero
      rw [bind_error hclear]
      exact hzero
    | ok _ q₁ =>
      rw [bind_ok hclear]
      rw [hclear] at hzero
      exact ((keeps_zeroAt_advance _).bind fun _ => keeps_zeroAt_finishGet fromByteArr _ _ _ now) q₁ hzero
  intro hsame
  rw [hsame] at hend
  have hboth := hbyte.symm.trans hend.zero
  cases hboth

end Get

/-! ## The header through both mappings -/

/-- The header begins at `exe_index`, from the end of the data area at its beginning. -/
theorem InBounds.header_head (h : InBounds q) :
    q.readFrameHeader[0]? = q.data[if q.exeIndex < q.size then q.exeIndex - qControlSize else 0]? := by
  have hbuf := h.buf_length
  have hge := h.exe_ge
  have hle := h.exe_le
  have hsize := h.size_ge
  have hs : dataStartPoint = qControlSize := rfl
  have hh : frameHeaderSize = 32 := rfl
  rw [readFrameHeader, MemQueue.data, List.getElem?_drop]
  by_cases hfit : q.exeIndex + frameHeaderSize < q.size
  · rw [if_pos hfit, if_pos (by omega), pySlice_of_le (by omega) (by omega) (by omega) (by omega),
      getElem?_slice, if_pos (by omega)]
    congr 1
    omega
  rw [if_neg hfit, pySlice_of_le (by omega) (by omega) (by omega) (by omega), Int.toNat_natCast,
    Int.toNat_natCast, slice_to_end]
  by_cases hlt : q.exeIndex < q.size
  · rw [if_pos hlt, List.getElem?_append_left (by rw [List.length_drop]; omega), List.getElem?_drop]
    congr 1
    omega
  · rw [if_neg hlt, List.drop_eq_nil_of_le (by omega), List.nil_append,
      pySlice_of_le (by omega) (by omega) (by omega) (by omega), getElem?_slice, if_pos (by omega)]
    congr 1

theorem InBounds.header_ne_nil (h : InBounds q) : q.readFrameHeader ≠ [] := by
  intro hnil
  have hhead := h.header_head
  have hdata := length_data q
  have hbuf := h.buf_length
  have hge := h.exe_ge
  have hsize := h.size_ge
  rw [hnil, List.getElem?_nil, eq_comm, List.getElem?_eq_none_iff] at hhead
  split at hhead <;> omega

/-- Through a longer mapping there is always a byte to read. -/
theorem InBounds.header_longer_ne_nil (h : InBounds q) (hextra : extra ≠ []) :
    (q.longer extra).readFrameHeader ≠ [] := by
  have hbuf := h.buf_length
  have hle := h.exe_le
  have hh : frameHeaderSize = 32 := rfl
  have hpos := List.length_pos_of_ne_nil hextra
  have hlen : (q.longer extra).buf.length = q.buf.length + extra.length := List.length_append
  have hexe : (q.longer extra).exeIndex = q.exeIndex := exeIndex_longer h.control_le
  intro hnil
  have hlength := congrArg List.length hnil
  rw [readFrameHeader, hexe, size_longer, List.length_nil] at hlength
  split at hlength
  · rw [pySlice_of_le (by omega) (by omega) (by omega) (by omega), length_slice] at hlength
    omega
  · rw [List.length_append, pySlice_of_le (by omega) (by omega) (by omega) (by omega), length_slice]
      at hlength
    omega

/-- A header in front of the end is the same. -/
theorem InBounds.header_longer (h : InBounds q) (hfit : q.exeIndex + frameHeaderSize < q.size) :
    (q.longer extra).readFrameHeader = q.readFrameHeader := by
  have hbuf := h.buf_length
  rw [readFrameHeader, readFrameHeader, exeIndex_longer h.control_le, size_longer, if_pos hfit, if_pos hfit,
    buf_longer, pySlice_longer (by omega) (by omega) (by omega) (by omega)]

/-! ## Both calls -/

/-- The call through the longer mapping ends like the call through the exact one: with the same value or the
same class of exception, the same changes to the queue, and the bytes behind it as they were. -/
def Agrees {α : Type} (extra : Bytes) :
    EStateM.Result PyError MemQueue α → EStateM.Result PyError MemQueue α → Prop
  | .ok a q, .ok a' q' => a' = a ∧ q' = q.longer extra
  | .error e q, .error e' q' => e'.kind = e.kind ∧ q' = q.longer extra
  | _, _ => False

/-- What has to be so for `get` with a frame pending. In front of the end of the buffer: the frame, if there is
one to take, ends in front of it too. Where the header reaches the end: no frame can be taken through either
mapping, and the two headers are alike in that. -/
def Undisturbed (q : MemQueue) (extra : Bytes) : Prop :=
  let header := q.readFrameHeader
  if q.exeIndex + frameHeaderSize < q.size then
    verdict header = .frame → q.exeIndex + declaredSize header < q.size
  else
    (verdict header = .frame → q.Stuck (declaredSize header)) ∧
      (verdict header).Alike (verdict (q.longer extra).readFrameHeader)

instance (q : MemQueue) (extra : Bytes) : Decidable (q.Undisturbed extra) :=
  inferInstanceAs (Decidable (if q.exeIndex + frameHeaderSize < q.size then
    verdict q.readFrameHeader = .frame → q.exeIndex + declaredSize q.readFrameHeader < q.size
  else
    (verdict q.readFrameHeader = .frame → q.Stuck (declaredSize q.readFrameHeader)) ∧
      (verdict q.readFrameHeader).Alike (verdict (q.longer extra).readFrameHeader)))

section Agrees

variable {α : Type}

theorem Same.agrees {x : PyM MemQueue α} (h : Same extra q x) :
    Agrees extra (x q) (x (q.longer extra)) := by
  rw [h.eq]
  cases x q with
  | ok a s => exact ⟨rfl, rfl⟩
  | error e s => exact ⟨rfl, rfl⟩

theorem agrees_nil (result : EStateM.Result PyError MemQueue α) : Agrees [] result result := by
  cases result with
  | ok a s => exact ⟨rfl, (longer_nil s).symm⟩
  | error e s => exact ⟨rfl, (longer_nil s).symm⟩

theorem Agrees.stateOf_eq {r r' : EStateM.Result PyError MemQueue α} (h : Agrees extra r r') :
    stateOf r' = (stateOf r).longer extra := by
  cases r <;> cases r'
  case ok.ok | error.error => exact h.2
  all_goals cases h

/-- Two calls without a change agree when they end in one way. -/
theorem Untouched.agrees_iff {r r' : EStateM.Result PyError MemQueue (Option α)}
    {kind kind' : Option PyErrorKind} (h : Untouched q r kind)
    (h' : Untouched (q.longer extra) r' kind') : Agrees extra r r' ↔ kind = kind' := by
  cases kind with
  | none =>
    cases kind' with
    | none =>
      rw [show r = _ from h, show r' = _ from h']
      exact iff_of_true ⟨rfl, rfl⟩ rfl
    | some k' =>
      obtain ⟨e, -, he⟩ := h'
      rw [show r = _ from h, he]
      exact iff_of_false id (fun hk => nomatch hk)
  | some k =>
    obtain ⟨e, hk, he⟩ := h
    cases kind' with
    | none =>
      rw [he, show r' = _ from h']
      exact iff_of_false id (fun hk => nomatch hk)
    | some k' =>
      obtain ⟨e', hk', he'⟩ := h'
      rw [he, he', Option.some.injEq, ← hk, ← hk']
      exact ⟨fun hagree => hagree.1.symm, fun hkind => ⟨hkind.symm, rfl⟩⟩

/-- A call that ends without a change does not agree with one that changes the queue. -/
theorem Untouched.not_agrees {r r' : EStateM.Result PyError MemQueue (Option α)}
    {kind : Option PyErrorKind} (h : Untouched (q.longer extra) r' kind) (hr : stateOf r ≠ q) :
    ¬ Agrees extra r r' := by
  intro hagree
  have hstate : stateOf r' = q.longer extra := by
    cases kind with
    | none => rw [show r' = _ from h, stateOf_ok]
    | some k =>
      obtain ⟨e, -, he⟩ := h
      rw [he]
      rfl
  exact hr (longer_injective (hagree.stateOf_eq.symm.trans hstate))

variable (fromByteArr : Bytes → Except PyError α)

theorem same_updateExecutionIndex (h : qControlSize ≤ q.buf.length) (n : ℕ) :
    Same extra q (updateExecutionIndex n) := by
  have hfield : exePointer + 4 ≤ q.buf.length := Nat.le_trans (by decide) h
  rw [updateExecutionIndex]
  refine same_get_bind (by rw [exeIndex_longer h, size_longer]) ?_
  split
  · exact same_setInt hfield
  · exact same_setInt hfield

theorem same_finishGet (h : qControlSize ≤ q.buf.length) (expected frameData : Bytes) (start : ℕ)
    (now : UInt64) : Same extra q (finishGet fromByteArr expected frameData start now) := by
  have hcrc : toBytes (crc32 frameData).toNat 4 = .ok (leBytes 4 (crc32 frameData).toNat) :=
    toBytes_natCast (crc32 frameData).toNat_lt
  rw [finishGet, hcrc]
  refine (same_ofExcept _).bind fun _ q₁ he h₁ => ?_
  split
  · exact same_get_bind (by rw [exeCounter_longer (by omega)]) (same_throw _)
  · refine (same_ofExcept _).bind fun frame q₂ _ h₂ => ?_
    refine (same_updateDfps (by omega) now).bind fun _ q₃ _ h₃ => ?_
    refine same_get_bind (by rw [exeCounter_longer (by omega)]) ?_
    refine (same_setInt ?_).bind fun _ q₄ _ _ => same_pure _
    rw [h₃, h₂, h₁]
    exact Nat.le_trans (by decide) h

/-- A frame in front of the end is taken through the longer mapping as through the exact one. -/
theorem same_getLocked (h : InBounds q) (hframe : verdict q.readFrameHeader = .frame)
    (hend : q.exeIndex + declaredSize q.readFrameHeader < q.size) (now : UInt64) :
    Agrees extra (getLocked fromByteArr now q) (getLocked fromByteArr now (q.longer extra)) := by
  have hbuf := h.buf_length
  have hcontrol := h.control_le
  have hexe : (q.longer extra).exeIndex = q.exeIndex := exeIndex_longer hcontrol
  obtain ⟨hsize, frameData, hdata, heq⟩ := getLocked_frame fromByteArr now hframe
  have hheader : (q.longer extra).readFrameHeader = q.readFrameHeader := h.header_longer (by omega)
  obtain ⟨-, frameData', hdata', heq'⟩ :=
    getLocked_frame fromByteArr now (q := q.longer extra) (by rw [hheader]; exact hframe)
  rw [hheader] at hdata' heq'
  generalize declaredSize q.readFrameHeader = n at *
  have hsame : frameData' = frameData := by
    have hpointer : q.frameDataPointer = q.exeIndex + frameHeaderSize := by
      rw [frameDataPointer, if_neg (by omega)]
    have hpointer' : (q.longer extra).frameDataPointer = q.exeIndex + frameHeaderSize := by
      rw [frameDataPointer, hexe, size_longer, if_neg (by omega)]
    rw [readFrameData, byteArray, if_neg (by omega), hpointer] at hdata
    rw [readFrameData, byteArray, if_neg (by omega), hpointer'] at hdata'
    dsimp only [bind, Except.bind] at hdata hdata'
    rw [if_pos (by omega)] at hdata
    rw [size_longer, if_pos (by omega), buf_longer,
      pySlice_longer (by omega) (by omega) (by omega) (by omega)] at hdata'
    exact (Except.ok.inj (hdata'.symm.trans hdata))
  rw [heq, heq', hsame, hexe]
  refine Same.agrees (Same.bind ?_ fun _ q₁ _ h₁ => Same.bind ?_ fun _ q₂ _ h₂ => ?_)
  · rw [clearExecutedFrame]
    refine same_get_bind (by rw [hexe, size_longer, if_pos hend, if_pos hend]) ?_
    rw [if_pos hend]
    exact same_store (by omega) (by omega) (by omega) (by omega)
  · exact same_updateExecutionIndex (by omega) n
  · exact same_finishGet fromByteArr (by omega) _ _ _ now

/-- A frame of this queue that crosses the end and is cleared leaves a zero where its status was. -/
theorem getLocked_changes_of_cross (h : InBounds q) (now : UInt64) (hframe : verdict q.readFrameHeader = .frame)
    (hcross : q.size ≤ q.exeIndex + declaredSize q.readFrameHeader)
    (hstuck : ¬ q.Stuck (declaredSize q.readFrameHeader)) : stateOf (getLocked fromByteArr now q) ≠ q := by
  have hhead := h.header_head
  have hcreated : q.readFrameHeader[0]? = some frameCreated := created_of_frame hframe
  rw [hcreated, eq_comm] at hhead
  by_cases hlt : q.exeIndex < q.size
  · rw [if_pos hlt] at hhead
    exact getLocked_changes fromByteArr now hframe hhead (h.clear_zero hlt hcross)
  · have hend : q.exeIndex = q.size := Nat.le_antisymm h.exe_le (Nat.not_lt.mp hlt)
    rw [if_neg hlt] at hhead
    have hsize := (getLocked_frame fromByteArr now hframe).1
    have hfit : dataStartPoint + declaredSize q.readFrameHeader ≤ q.size :=
      Nat.not_lt.mp fun hover => hstuck ⟨hend, hover⟩
    exact getLocked_changes fromByteArr now hframe hhead
      (h.clear_zero_at_end hend hfit (Nat.lt_of_lt_of_le (by decide) hsize))

/-- With a frame pending and bytes behind the queue, the locked bodies agree exactly when the call is
undisturbed. -/
theorem getLocked_agrees_iff (h : InBounds q) (hextra : extra ≠ []) (now : UInt64) :
    Agrees extra (getLocked fromByteArr now q) (getLocked fromByteArr now (q.longer extra)) ↔
      q.Undisturbed extra := by
  have hexe : (q.longer extra).exeIndex = q.exeIndex := exeIndex_longer h.control_le
  have hne := h.header_ne_nil
  have hne' := h.header_longer_ne_nil hextra
  rw [Undisturbed]
  by_cases hfit : q.exeIndex + frameHeaderSize < q.size
  · rw [if_pos hfit]
    have hheader : (q.longer extra).readFrameHeader = q.readFrameHeader := h.header_longer hfit
    by_cases hframe : verdict q.readFrameHeader = .frame
    · rw [forall_prop_of_true hframe]
      rcases Nat.lt_or_ge (q.exeIndex + declaredSize q.readFrameHeader) q.size with hend | hcross
      · exact iff_of_true (same_getLocked fromByteArr h hframe hend now) hend
      · -- the frame crosses the end: cleared here, an exception there
        have hlonger := getLocked_untouched_of_clear fromByteArr now hne' fun _ => by
          rw [hheader]
          exact h.clear_longer hextra hcross
        have hnot : ¬ q.Stuck (declaredSize q.readFrameHeader) := by
          intro hstuck
          have hend := hstuck.1
          omega
        have hchanges := getLocked_changes_of_cross fromByteArr h now hframe hcross hnot
        exact iff_of_false (hlonger.not_agrees hchanges) (Nat.not_lt.mpr hcross)
    · have hlonger := getLocked_untouched fromByteArr now (q := q.longer extra) hne' (by rwa [hheader])
      have hhere := getLocked_untouched fromByteArr now hne hframe
      rw [hheader] at hlonger
      exact iff_of_true ((hhere.agrees_iff hlonger).mpr rfl) fun hf => absurd hf hframe
  · rw [if_neg hfit, Verdict.alike_iff]
    have hlonger := getLocked_untouched_of_clear fromByteArr now hne' fun hframe' => by
      have hsize := (getLocked_frame fromByteArr now hframe').1
      exact h.clear_longer hextra (by omega)
    by_cases hstuck : verdict q.readFrameHeader = .frame → q.Stuck (declaredSize q.readFrameHeader)
    · have hhere := getLocked_untouched_of_clear fromByteArr now hne fun hframe =>
        h.clear_stuck (hstuck hframe)
      rw [hhere.agrees_iff hlonger, and_iff_right hstuck]
    · obtain ⟨hframe, hnot⟩ := Classical.not_imp.mp hstuck
      have hsize := (getLocked_frame fromByteArr now hframe).1
      have hchanges := getLocked_changes_of_cross fromByteArr h now hframe (by omega) hnot
      exact iff_of_false (hlonger.not_agrees hchanges) fun hboth => hstuck hboth.1

end Agrees

/-- On every queue, `put` agrees through the two mappings, and `get` does exactly when there are no bytes behind
the queue, no frame is pending, or the call is undisturbed. -/
theorem attached_agrees_iff {α : Type} (h : InBounds q) (extra : Bytes)
    (fromByteArr : Bytes → Except PyError α) (df : Except PyError Bytes) (now : UInt64) :
    (Agrees extra (q.put df now) ((q.longer extra).put df now) ∧
        Agrees extra (get fromByteArr now q) (get fromByteArr now (q.longer extra))) ↔
      extra = [] ∨ q.pendingCounter = 0 ∨ q.Undisturbed extra := by
  rw [and_iff_right (same_put h df now).agrees]
  by_cases hextra : extra = []
  · subst hextra
    rw [longer_nil]
    exact iff_of_true (agrees_nil _) (Or.inl rfl)
  rw [or_iff_right hextra, get, get_bind_apply, get_bind_apply, pendingCounter_longer h.control_le]
  by_cases hpending : q.pendingCounter = 0
  · rw [if_pos hpending]
    exact iff_of_true ⟨rfl, rfl⟩ (Or.inl hpending)
  · rw [if_neg hpending, or_iff_right hpending]
    exact getLocked_agrees_iff fromByteArr h hextra now

/-- On a queue that stores frames with their watermarks, `get` is undisturbed when the frame in front ends in
front of the end of the buffer. -/
theorem Stores.undisturbed_iff {f : Frame} {frames : List Frame} (h : Stores q (f :: frames))
    (hw : f.watermark = waterMark) : q.Undisturbed extra ↔ q.exeIndex + f.raw.length < q.size := by
  obtain ⟨hcreated, hmarked, hsize, -⟩ := header_cons h.lies
  have hle := f.header_le
  have hlt := h.exe_lt
  have hframe : verdict q.readFrameHeader = .frame := by
    rw [verdict, if_neg (not_not_intro hcreated), if_neg (not_not_intro (hmarked.mpr hw)), if_neg (by omega)]
  rw [Undisturbed]
  rw [hsize]
  by_cases hfit : q.exeIndex + frameHeaderSize < q.size
  · rw [if_pos hfit, forall_prop_of_true hframe]
  · rw [if_neg hfit]
    refine iff_of_false ?_ (by omega)
    rintro ⟨hstuck, -⟩
    have := (hstuck hframe).1
    omega

/-- One frame of two bytes on a queue of 200, with three bytes behind it. -/
theorem attached_agrees_three_bytes :
    ∃ q₀ q, create (queueOfSize 200) = .ok q₀ ∧ q₀.put (.ok [1, 2]) 0 = .ok true q ∧
      Agrees [9, 9, 9] (q.put (.ok [3]) 5) ((q.longer [9, 9, 9]).put (.ok [3]) 5) ∧
      Agrees [9, 9, 9] (get (Except.ok : Bytes → Except PyError Bytes) 5 q)
        (get Except.ok 5 (q.longer [9, 9, 9])) := by
  obtain ⟨q₀, hq₀, hholds, hsize, hac, hfc⟩ := create_holds (queueOfSize 200) (by decide) (by decide)
  obtain ⟨q, hlt, hput, hq, -⟩ := hholds.put_ok 0
    (of_create (fun q => ¬ q.overCapacity) hq₀ (by decide +kernel))
    (of_create (fun q => (frameSize [1, 2] : ℤ) < q.freeSpace) hq₀ (by decide +kernel))
    (by omega) (by omega)
  refine ⟨q₀, q, hq₀, hput, (attached_agrees_iff hq.toStores.wellFormed.inBounds _ Except.ok _ 5).mpr ?_⟩
  have hquiet := of_create (fun q => (stateOf (q.put (.ok [1, 2]) 0)).Undisturbed [9, 9, 9]) hq₀
    (by decide +kernel)
  rw [hput] at hquiet
  exact Or.inr (Or.inr hquiet)

/-- The smallest queue with a frame that ends where the queue does, and one byte behind it: `get` takes the
frame through the exact mapping, and through the longer one it raises and changes nothing. -/
theorem attached_get_raises :
    ∃ q₀ q, create (queueOfSize 97) = .ok q₀ ∧ q₀.put (.ok [7]) 0 = .ok true q ∧ InBounds q ∧
      stateOf (get (Except.ok : Bytes → Except PyError Bytes) 5 (q.longer [0])) = q.longer [0] ∧
      ¬ Agrees [0] (get (Except.ok : Bytes → Except PyError Bytes) 5 q) (get Except.ok 5 (q.longer [0])) := by
  obtain ⟨q₀, hq₀, hholds, hsize, hac, hfc⟩ := create_holds (queueOfSize 97) (by decide) (by decide)
  have hsize' : q₀.size = 97 := hsize
  obtain ⟨q, hlt, hput, -, hq, -⟩ := hholds.carries.put_ok 0
    (of_create (fun q => ¬ q.overCapacity) hq₀ (by decide +kernel))
    (show used [] + frameSize [7] ≤ q₀.size - qControlSize by rw [hsize', used_nil]; decide) (by omega)
    (by omega)
  obtain ⟨q', hget, -⟩ := hq.get_ok (Except.ok : Bytes → Except PyError Bytes) 5 rfl
  obtain ⟨hnothing, hkept⟩ := of_create (fun q =>
    returned (get (Except.ok : Bytes → Except PyError Bytes) 5
        ((stateOf (q.put (.ok [7]) 0)).longer [0])) = none ∧
      stateOf (get (Except.ok : Bytes → Except PyError Bytes) 5
        ((stateOf (q.put (.ok [7]) 0)).longer [0])) = (stateOf (q.put (.ok [7]) 0)).longer [0]) hq₀
    (by decide +kernel)
  rw [hput, stateOf_ok] at hnothing hkept
  refine ⟨q₀, q, hq₀, hput, hq.toStores.wellFormed.inBounds, hkept, ?_⟩
  intro hagree
  rw [hget] at hagree
  cases hlonger : get (Except.ok : Bytes → Except PyError Bytes) 5 (q.longer [0]) with
  | ok a q'' =>
    rw [hlonger] at hnothing
    cases hnothing
  | error e q'' =>
    rw [hlonger] at hagree
    exact hagree

end Upipe.MemQueue
