import Upipe.Common.Slice

/-!
# The Python runtime under the model

Exceptions, the state-and-exception monad a method body runs in (an exception keeps the changes made
before it), the fallible conversions between integers and bytes, and CRC-32.
-/

namespace Upipe.Common

/-- A byte string. -/
abbrev Bytes := List UInt8

/-- The exception classes that the modelled code raises or lets through. -/
inductive PyErrorKind where
  | assertionError | attributeError | brokenPipeError | environmentError | fileExistsError
  | indexError | invalidStateError | keyError | lookupError | memoryError | nameError | noSuchProcess
  | notImplementedError | overflowError | pipelineAlreadyExist | processLookupError | timeoutError | typeError
  | unicodeDecodeError | valueError
deriving DecidableEq, Repr

/-- A raised exception: its class and its text. -/
structure PyError where
  kind : PyErrorKind
  text : String := ""
deriving DecidableEq, Repr

/-- A method body over an object of type `σ`. -/
abbrev PyM (σ : Type) := EStateM PyError σ

section Monad

variable {ε σ α β : Type}

/-- A computation in two parts returns when both do. -/
theorem except_bind_eq_ok_iff {x : Except ε α} {f : α → Except ε β} {b : β} :
    x >>= f = .ok b ↔ ∃ a, x = .ok a ∧ f a = .ok b := by
  cases x with
  | error e => exact iff_of_false (fun h => nomatch h) (fun ⟨_, h, _⟩ => nomatch h)
  | ok a =>
    constructor
    · intro h
      exact ⟨a, rfl, h⟩
    · rintro ⟨a', ha, h⟩
      cases ha
      exact h

theorem except_pure_eq_ok_iff {a b : α} : (pure a : Except ε α) = .ok b ↔ b = a :=
  ⟨fun h => (Except.ok.inj h).symm, fun h => h ▸ rfl⟩

/-- A computation whose result goes through a function. -/
theorem except_bind_pure_eq_ok_iff {x : Except ε α} {f : α → β} {b : β} :
    (x >>= fun a => pure (f a)) = .ok b ↔ ∃ a, x = .ok a ∧ b = f a := by
  simp only [except_bind_eq_ok_iff, except_pure_eq_ok_iff]

theorem except_map_eq_ok_iff {x : Except ε α} {f : α → β} {b : β} :
    x.map f = .ok b ↔ ∃ a, x = .ok a ∧ b = f a :=
  except_bind_pure_eq_ok_iff

/-- A list of computations returns when each of them does. -/
theorem forall₂_of_mapM_eq_ok {f : α → Except ε β} {xs : List α} {ys : List β} (h : xs.mapM f = .ok ys) :
    List.Forall₂ (fun x y => f x = .ok y) xs ys := by
  induction xs generalizing ys with
  | nil =>
    rw [List.mapM_nil, except_pure_eq_ok_iff] at h
    exact h ▸ .nil
  | cons x xs ih =>
    rw [List.mapM_cons] at h
    simp only [except_bind_eq_ok_iff, except_pure_eq_ok_iff] at h
    obtain ⟨y, hy, rest, hrest, rfl⟩ := h
    exact .cons hy (ih hrest)

/-- A computation that was evaluated to a result. -/
theorem exists_ok_of_any {x : Except ε α} {p : α → Bool} (h : x.toOption.any p = true) :
    ∃ a, x = .ok a ∧ p a = true := by
  cases x with
  | error e => cases h
  | ok a => exact ⟨a, rfl, h⟩

@[simp] theorem ofExcept_ok (a : α) (s : σ) :
    (ofExcept (.ok a : Except ε α) : EStateM ε σ α) s = .ok a s := rfl

@[simp] theorem ofExcept_error (e : ε) (s : σ) :
    (ofExcept (.error e : Except ε α) : EStateM ε σ α) s = .error e s := rfl

/-- A body goes on after a part that returns. -/
theorem bind_ok {x : EStateM ε σ α} {f : α → EStateM ε σ β} {s s' : σ} {a : α}
    (h : x s = .ok a s') : (x >>= f) s = f a s' := by
  show EStateM.bind x f s = _
  rw [EStateM.bind, h]

/-- A body ends with the first exception, which keeps the changes made so far. -/
theorem bind_error {x : EStateM ε σ α} {f : α → EStateM ε σ β} {s s' : σ} {e : ε}
    (h : x s = .error e s') : (x >>= f) s = .error e s' := by
  show EStateM.bind x f s = _
  rw [EStateM.bind, h]

/-- Two bodies that go on alike end alike when their first parts do. -/
theorem bind_congr_first {x y : EStateM ε σ α} (f : α → EStateM ε σ β) {s t : σ} (h : x s = y t) :
    (x >>= f) s = (y >>= f) t := by
  show EStateM.bind x f s = EStateM.bind y f t
  rw [EStateM.bind, EStateM.bind, h]

/-- What is left of a body after reading the object. -/
@[simp] theorem get_bind_apply (f : σ → EStateM ε σ β) (s : σ) : (get >>= f) s = f s s := rfl

@[simp] theorem modify_bind_apply (g : σ → σ) (f : PUnit → EStateM ε σ β) (s : σ) :
    (modify g >>= f) s = f () (g s) := rfl

/-- The object a call leaves behind, whether it returns or raises. -/
def stateOf : EStateM.Result ε σ α → σ
  | .ok _ s => s
  | .error _ s => s

@[simp] theorem stateOf_ok (a : α) (s : σ) : stateOf (.ok a s : EStateM.Result ε σ α) = s := rfl

/-- What the caller of a call sees: its value or its exception. -/
def answerOf : EStateM.Result ε σ α → Except ε α
  | .ok a _ => .ok a
  | .error e _ => .error e

@[simp] theorem answerOf_ok (a : α) (s : σ) : answerOf (.ok a s : EStateM.Result ε σ α) = .ok a := rfl

theorem answerOf_bind_pure (x : EStateM ε σ α) (f : α → β) (s : σ) :
    answerOf ((x >>= fun a => pure (f a)) s) = (answerOf (x s)).map f := by
  cases hx : x s with
  | ok a s' =>
    rw [bind_ok hx]
    rfl
  | error e s' =>
    rw [bind_error hx]
    rfl

/-- The same end, with the object seen through `g`. -/
def mapState (g : σ → σ) : EStateM.Result ε σ α → EStateM.Result ε σ α
  | .ok a s => .ok a (g s)
  | .error e s => .error e (g s)

/-- What a call returns, if it does. -/
def returned : EStateM.Result ε σ α → Option α
  | .ok a _ => some a
  | .error .. => none

theorem returned_eq_some_iff {result : EStateM.Result ε σ α} {a : α} :
    returned result = some a ↔ ∃ s, result = .ok a s := by
  cases result with
  | ok b s => simp [returned]
  | error e s => simp [returned]

/-- What a call leaves behind that raises. -/
def raisedIn : EStateM.Result ε σ α → Option σ
  | .ok .. => none
  | .error _ s => some s

/-- A call that was evaluated to an exception. -/
theorem exists_error_of_any {x : EStateM.Result ε σ α} {p : σ → Bool} (h : (raisedIn x).any p = true) :
    ∃ e s, x = .error e s ∧ p s = true := by
  cases x with
  | ok a s => cases h
  | error e s => exact ⟨e, s, rfl, h⟩

/-- A body keeps `P` of the object, whether it returns or raises. -/
def Keeps (P : σ → Prop) (x : EStateM ε σ α) : Prop := ∀ s, P s → P (stateOf (x s))

theorem Keeps.bind {P : σ → Prop} {x : EStateM ε σ α} {f : α → EStateM ε σ β} (hx : Keeps P x)
    (hf : ∀ a, Keeps P (f a)) : Keeps P (x >>= f) := by
  intro s hs
  have hx' := hx s hs
  cases h : x s with
  | ok a s' =>
    rw [h] at hx'
    rw [bind_ok h]
    exact hf a s' hx'
  | error e s' =>
    rw [h] at hx'
    rw [bind_error h]
    exact hx'

/-- To keep `P` after reading the object is to keep it with the object read. -/
theorem keeps_get_bind {P : σ → Prop} {f : σ → EStateM ε σ β}
    (h : ∀ s, P s → P (stateOf (f s s))) : Keeps P (get >>= f) := h

theorem keeps_pure {P : σ → Prop} (a : α) : Keeps P (pure a : EStateM ε σ α) := fun _ hs => hs

theorem keeps_throw {P : σ → Prop} (e : ε) : Keeps P (throw e : EStateM ε σ α) := fun _ hs => hs

theorem keeps_modify {P : σ → Prop} {f : σ → σ} (h : ∀ s, P s → P (f s)) :
    Keeps P (modify f : EStateM ε σ PUnit) := h

theorem keeps_ofExcept {P : σ → Prop} (x : Except ε α) :
    Keeps P (ofExcept x : EStateM ε σ α) := by
  intro s hs
  cases x with
  | ok a => exact hs
  | error e => exact hs

/-- A body gives the same answer for two objects that `R` relates, and leaves them related. -/
def Respects (R : σ → σ → Prop) (x : EStateM ε σ α) : Prop :=
  ∀ s t, R s t → answerOf (x s) = answerOf (x t) ∧ R (stateOf (x s)) (stateOf (x t))

theorem respects_pure {R : σ → σ → Prop} (a : α) : Respects R (pure a : EStateM ε σ α) :=
  fun _ _ h => ⟨rfl, h⟩

theorem Respects.bind {R : σ → σ → Prop} {x : EStateM ε σ α} {f : α → EStateM ε σ β} (hx : Respects R x)
    (hf : ∀ a, Respects R (f a)) : Respects R (x >>= f) := by
  intro s t hst
  obtain ⟨hanswer, hstate⟩ := hx s t hst
  cases hs : x s with
  | ok a s' =>
    cases ht : x t with
    | ok b t' =>
      rw [hs, ht] at hanswer hstate
      cases hanswer
      rw [bind_ok hs, bind_ok ht]
      exact hf a s' t' hstate
    | error e t' =>
      rw [hs, ht] at hanswer
      cases hanswer
  | error e s' =>
    cases ht : x t with
    | ok b t' =>
      rw [hs, ht] at hanswer
      cases hanswer
    | error e' t' =>
      rw [hs, ht] at hanswer hstate
      cases hanswer
      rw [bind_error hs, bind_error ht]
      exact ⟨rfl, hstate⟩

end Monad

/-! ## Integers, bytes, byte arrays -/

/-- `int.to_bytes(len, "little")`. -/
def toBytes (v : ℤ) (len : ℕ) : Except PyError Bytes :=
  if v < 0 then .error ⟨.overflowError, "can't convert negative int to unsigned"⟩
  else if v.toNat < 256 ^ len then .ok (leBytes len v.toNat)
  else .error ⟨.overflowError, "int too big to convert"⟩

theorem toBytes_natCast {v len : ℕ} (h : v < 256 ^ len) :
    toBytes (v : ℤ) len = .ok (leBytes len v) := by
  rw [toBytes, if_neg (by omega), Int.toNat_natCast, if_pos h]

theorem toBytes_eq_ok_iff {v len : ℕ} {bytes : Bytes} :
    toBytes (v : ℤ) len = .ok bytes ↔ v < 256 ^ len ∧ leBytes len v = bytes := by
  rcases Nat.lt_or_ge v (256 ^ len) with h | h
  · rw [toBytes_natCast h, Except.ok.injEq, and_iff_right h]
  · rw [toBytes, if_neg (by omega), Int.toNat_natCast, if_neg (Nat.not_lt.mpr h)]
    exact iff_of_false (fun he => nomatch he) (fun hb => Nat.not_lt.mpr h hb.1)

theorem toBytes_too_big {v len : ℕ} (h : 256 ^ len ≤ v) :
    toBytes (v : ℤ) len = .error ⟨.overflowError, "int too big to convert"⟩ := by
  rw [toBytes, if_neg (by omega), Int.toNat_natCast, if_neg (Nat.not_lt.mpr h)]

/-- `arr[i] = n` takes a value of one byte. -/
def toByte (n : ℕ) : Except PyError UInt8 :=
  if n < 256 then .ok (UInt8.ofNat n)
  else .error ⟨.valueError, "byte must be in range(0, 256)"⟩

theorem toByte_eq_ok_iff {n : ℕ} {b : UInt8} : toByte n = .ok b ↔ n < 256 ∧ UInt8.ofNat n = b := by
  rw [toByte]
  split
  · rename_i h
    rw [Except.ok.injEq, and_iff_right h]
  · rename_i h
    exact iff_of_false (fun he => nomatch he) (fun hb => h hb.1)

/-- `bytearray(n)`. -/
def byteArray (n : ℤ) : Except PyError Bytes :=
  if n < 0 then .error ⟨.valueError, "negative count"⟩ else .ok (List.replicate n.toNat 0)

/-- `arr[i]` on a byte string. -/
def byteAt (arr : Bytes) (i : ℕ) : Except PyError UInt8 :=
  match arr[i]? with
  | some b => .ok b
  | none => .error ⟨.indexError, "index out of range"⟩

/-! ## Text -/

/-- `s.encode("utf-8")`. -/
def encodeUtf8 (s : String) : Bytes := s.toByteArray.data.toList

/-- `arr.decode("utf-8")`. -/
def decodeUtf8 (arr : Bytes) : Except PyError String :=
  match String.fromUTF8? ⟨arr.toArray⟩ with
  | some s => .ok s
  | none => .error ⟨.unicodeDecodeError, "'utf-8' codec can't decode bytes"⟩

theorem decodeUtf8_encodeUtf8 (s : String) : decodeUtf8 (encodeUtf8 s) = .ok s := by
  have hbytes : (⟨(encodeUtf8 s).toArray⟩ : ByteArray) = s.toByteArray := by rw [encodeUtf8]
  rw [decodeUtf8, hbytes, String.fromUTF8?, dif_pos s.isValidUTF8]
  rfl

/-- Only the empty text has an empty encoding. -/
theorem encodeUtf8_eq_nil_iff (s : String) : encodeUtf8 s = [] ↔ s = "" := by
  constructor
  · intro h
    have hdecode := decodeUtf8_encodeUtf8 s
    rw [h, show decodeUtf8 [] = .ok "" by decide +kernel] at hdecode
    exact (Except.ok.inj hdecode).symm
  · rintro rfl
    decide

/-! ## CRC-32 -/

/-- One shift of the reflected CRC-32 register. -/
def crc32Bit (c : UInt32) : UInt32 := if c &&& 1 = 1 then (c >>> 1) ^^^ 0xEDB88320 else c >>> 1

/-- Feed one byte into the CRC-32 register. -/
def crc32Byte (c : UInt32) (b : UInt8) : UInt32 :=
  crc32Bit (crc32Bit (crc32Bit (crc32Bit (crc32Bit (crc32Bit (crc32Bit (crc32Bit
    (c ^^^ b.toUInt32))))))))

/-- `binascii.crc32`. -/
def crc32 (arr : Bytes) : UInt32 := arr.foldl crc32Byte 0xFFFFFFFF ^^^ 0xFFFFFFFF

/-- The check value of CRC-32: the sum of the digits one to nine. -/
example : crc32 [0x31, 0x32, 0x33, 0x34, 0x35, 0x36, 0x37, 0x38, 0x39] = 0xCBF43926 := by
  decide +kernel

end Upipe.Common
