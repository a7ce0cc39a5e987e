import Upipe.Common.Runs
import Upipe.Entities.DataFrame.Codec

/-!
# The registered data types

`register_data_type` puts a handler into the table under a type id that is given, or under the next one of a counter.
A given id is looked up in the table first; an id from the counter is not. A registered handler is replaced exactly
when the counter comes to an id that has one.
-/

namespace Upipe

open Upipe.Common

/-! ## The table -/

/-- A data model: what `construct` makes of it, which handles the values of the type. -/
structure DataModel where
  construct : Except PyError TypeHandler

/-- `NEXT_CUSTOM_TYPE_ID` and `type_handlers`. -/
structure TypeRegistry where
  nextCustomTypeId : ℕ
  typeHandlers : List (Option TypeHandler)
  length_eq : typeHandlers.length = maxTypeId

namespace TypeRegistry

/-- The module's variables before a type is registered. -/
def unregistered : TypeRegistry where
  nextCustomTypeId := DType.customTypeStart.value
  typeHandlers := List.replicate maxTypeId none
  length_eq := List.length_replicate

variable (r : TypeRegistry)

/-- The handler in a place of the table. -/
def handlerAt (k : ℕ) : Option TypeHandler := r.typeHandlers[k]?.join

/-- The handler in a place of the table is set. -/
def store (k : ℕ) (handler : TypeHandler) : TypeRegistry where
  nextCustomTypeId := r.nextCustomTypeId
  typeHandlers := r.typeHandlers.set k (some handler)
  length_eq := List.length_set.trans r.length_eq

/-- The counter goes on. -/
def advance : TypeRegistry := { r with nextCustomTypeId := r.nextCustomTypeId + 1 }

/-- `type_handlers[d_type]`. -/
def getHandler (dType : ℤ) : PyM TypeRegistry (Option TypeHandler) := do
  match itemIndex dType maxTypeId with
  | some k => return (← get).handlerAt k
  | none => throw ⟨.indexError, "list index out of range"⟩

/-- `type_handlers[d_type] = handler`. -/
def setHandler (dType : ℤ) (handler : TypeHandler) : PyM TypeRegistry Unit :=
  match itemIndex dType maxTypeId with
  | some k => modify fun r => r.store k handler
  | none => throw ⟨.indexError, "list assignment index out of range"⟩

/-- `_allocate_new_type`. -/
def allocateNewType : PyM TypeRegistry ℕ := do
  let newType := (← get).nextCustomTypeId
  modify advance
  if maxTypeId < newType then throw ⟨.indexError, "Max type definition list reached"⟩
  return newType

/-- `TypeHandler(type_id, model_definition)`. -/
def newHandler (typeId : ℤ) (modelDefinition : DataModel) : Except PyError TypeHandler :=
  if maxTypeId < typeId then .error ⟨.indexError, "Custom type id must be between 100 to 200"⟩
  else modelDefinition.construct

/-- A given type id: `None` and zero are none. -/
def givenId (dType : Option ℤ) : Option ℤ := dType.filter fun t => t ≠ 0

/-- The end of `register_data_type`, when the type id is known. -/
def putHandler (dModel : DataModel) (dType : ℤ) : PyM TypeRegistry Unit := do
  let handler ← ofExcept (newHandler dType dModel)
  setHandler dType handler

/-- The check of a given type id. -/
def checkFree (t : ℤ) : PyM TypeRegistry Unit := do
  if (← getHandler t).isSome then throw ⟨.fileExistsError, s!"type id {t} already registered"⟩

/-- `register_data_type`. -/
def registerDataType (dModel : DataModel) (dType : Option ℤ) : PyM TypeRegistry Unit :=
  match givenId dType with
  | some t => do
      checkFree t
      putHandler dModel t
  | none => do
      let t ← allocateNewType
      putHandler dModel t

/-- `_register_builtin_types`. -/
def registerBuiltinTypes (base : DataModel) : PyM TypeRegistry Unit := do
  registerDataType base (some DType.ndArr.value)
  registerDataType base (some DType.unknown.value)

/-- The module's variables after the import, with the base type's pickling as `base`. -/
def imported (base : TypeHandler) : TypeRegistry := stateOf (registerBuiltinTypes ⟨.ok base⟩ unregistered)

/-- The codec starts from the table of the import. -/
theorem typeHandlers_imported (base : TypeHandler) : (imported base).typeHandlers = builtinHandlers base := rfl

/-! ## Handlers in the table -/

variable {r : TypeRegistry}

theorem handlerAt_of_le {k : ℕ} (h : maxTypeId ≤ k) : r.handlerAt k = none := by
  rw [← r.length_eq] at h
  rw [handlerAt, List.getElem?_eq_none h]
  rfl

@[simp] theorem handlerAt_advance (k : ℕ) : r.advance.handlerAt k = r.handlerAt k := rfl

theorem handlerAt_store_self {k : ℕ} (h : k < maxTypeId) (handler : TypeHandler) :
    (r.store k handler).handlerAt k = some handler := by
  rw [← r.length_eq] at h
  rw [handlerAt, store, List.getElem?_set_self h]
  rfl

theorem handlerAt_store_of_ne {k l : ℕ} (h : k ≠ l) (handler : TypeHandler) :
    (r.store k handler).handlerAt l = r.handlerAt l := by
  rw [handlerAt, store, List.getElem?_set_ne h, handlerAt]

/-! ## One call -/

/-- With the model's handler at hand and an id in the table, the handler is put there. -/
theorem putHandler_ok {dModel : DataModel} {t : ℤ} {k : ℕ} {handler : TypeHandler}
    (hk : itemIndex t maxTypeId = some k) (hle : t ≤ maxTypeId) (hconstruct : dModel.construct = .ok handler) :
    putHandler dModel t r = .ok () (r.store k handler) := by
  rw [putHandler, newHandler, if_neg (Int.not_lt.mpr hle), hconstruct, bind_ok (ofExcept_ok handler r), setHandler, hk]
  rfl

/-- Otherwise the call raises, and nothing is put into the table. -/
theorem putHandler_error {dModel : DataModel} {t : ℤ}
    (h : itemIndex t maxTypeId = none ∨ ∃ e, dModel.construct = .error e) : ∃ e, putHandler dModel t r = .error e r := by
  rw [putHandler]
  cases hnew : newHandler t dModel with
  | error e => exact ⟨e, bind_error (ofExcept_error e r)⟩
  | ok handler =>
    rcases h with hnone | ⟨e, hconstruct⟩
    · rw [bind_ok (ofExcept_ok handler r), setHandler, hnone]
      exact ⟨_, rfl⟩
    · rw [newHandler, hconstruct] at hnew
      split at hnew <;> cases hnew

/-- A type id is accepted when its place is free. -/
theorem checkFree_cases (t : ℤ) : (∃ e, checkFree t r = .error e r) ∨
    ∃ k, itemIndex t maxTypeId = some k ∧ r.handlerAt k = none ∧ checkFree t r = .ok () r := by
  cases hk : itemIndex t maxTypeId with
  | none =>
    left
    have hget : getHandler t r = .error ⟨.indexError, "list index out of range"⟩ r := by
      rw [getHandler, hk]
      rfl
    exact ⟨_, bind_error hget⟩
  | some k =>
    have hget : getHandler t r = .ok (r.handlerAt k) r := by
      rw [getHandler, hk]
      rfl
    cases hold : r.handlerAt k with
    | some handler =>
      left
      rw [checkFree, bind_ok hget, hold]
      exact ⟨_, rfl⟩
    | none =>
      right
      refine ⟨k, rfl, hold, ?_⟩
      rw [checkFree, bind_ok hget, hold]
      rfl

/-- A call with a type id puts the model's handler into a free place, or raises and changes nothing. -/
theorem registerDataType_given {dModel : DataModel} {dType : Option ℤ} {t : ℤ} (ht : givenId dType = some t) :
    (∃ e, registerDataType dModel dType r = .error e r) ∨
      ∃ k handler, dModel.construct = .ok handler ∧ k < maxTypeId ∧ r.handlerAt k = none ∧
        registerDataType dModel dType r = .ok () (r.store k handler) := by
  have hcall : registerDataType dModel dType = checkFree t >>= fun _ => putHandler dModel t := by
    rw [registerDataType, ht]
  rw [hcall]
  rcases checkFree_cases (r := r) t with ⟨e, hcheck⟩ | ⟨k, hk, hfree, hcheck⟩
  · exact Or.inl ⟨e, bind_error hcheck⟩
  rw [bind_ok hcheck]
  obtain ⟨hlt, hle⟩ := itemIndex_lt hk
  cases hconstruct : dModel.construct with
  | error e => exact Or.inl (putHandler_error (Or.inr ⟨e, hconstruct⟩))
  | ok handler => exact Or.inr ⟨k, handler, rfl, hlt, hfree, putHandler_ok hk hle hconstruct⟩

/-- `_allocate_new_type`. -/
theorem allocateNewType_apply (r : TypeRegistry) :
    allocateNewType r = if maxTypeId < r.nextCustomTypeId
      then .error ⟨.indexError, "Max type definition list reached"⟩ r.advance
      else .ok r.nextCustomTypeId r.advance := by
  show (if maxTypeId < r.nextCustomTypeId then _ else _ : PyM TypeRegistry ℕ) r.advance = _
  split
  · rfl
  · rfl

theorem registerDataType_none {dModel : DataModel} {dType : Option ℤ} (ht : givenId dType = none) :
    registerDataType dModel dType = allocateNewType >>= fun t => putHandler dModel t := by
  rw [registerDataType, ht]

/-- A call without a type id puts the model's handler where the counter stands, whatever is there. -/
theorem registerDataType_automatic {dModel : DataModel} {dType : Option ℤ} {handler : TypeHandler}
    (ht : givenId dType = none) (hconstruct : dModel.construct = .ok handler) (hnext : r.nextCustomTypeId < maxTypeId) :
    registerDataType dModel dType r = .ok () (r.advance.store r.nextCustomTypeId handler) := by
  have hallocate : allocateNewType r = .ok r.nextCustomTypeId r.advance := by
    rw [allocateNewType_apply, if_neg (by omega)]
  have hplace : itemIndex r.nextCustomTypeId maxTypeId = some r.nextCustomTypeId := by
    rw [itemIndex_natCast, if_pos hnext]
  rw [registerDataType_none ht, bind_ok hallocate]
  exact putHandler_ok hplace (by omega) hconstruct

/-- With a model that cannot be constructed, or with the counter behind the table, it raises. -/
theorem registerDataType_automatic_error {dModel : DataModel} {dType : Option ℤ} (ht : givenId dType = none)
    (h : maxTypeId ≤ r.nextCustomTypeId ∨ ∃ e, dModel.construct = .error e) :
    ∃ e, registerDataType dModel dType r = .error e r.advance := by
  rw [registerDataType_none ht]
  by_cases hover : maxTypeId < r.nextCustomTypeId
  · have hallocate : allocateNewType r = .error ⟨.indexError, "Max type definition list reached"⟩ r.advance := by
      rw [allocateNewType_apply, if_pos hover]
    exact ⟨_, bind_error hallocate⟩
  · have hallocate : allocateNewType r = .ok r.nextCustomTypeId r.advance := by
      rw [allocateNewType_apply, if_neg hover]
    rw [bind_ok hallocate]
    refine putHandler_error (h.imp_left fun hle => ?_)
    rw [itemIndex_natCast, if_neg (by omega)]

/-! ## Runs -/

/-- A call of `register_data_type`. -/
structure RegisterCall where
  dModel : DataModel
  dType : Option ℤ

/-- What the call does. -/
def RegisterCall.body (call : RegisterCall) : PyM TypeRegistry Unit := registerDataType call.dModel call.dType

/-- One call after the other; the caller of a call that raises goes on. -/
def registryStep (r : TypeRegistry) (call : RegisterCall) : Option TypeRegistry := some (stateOf (call.body r))

/-- The call keeps the table: every handler stays in its place, a call that returns has put its handler into a free
place, and one that raises has put none. -/
structure KeepsTable (r : TypeRegistry) (call : RegisterCall) : Prop where
  kept : ∀ k handler, r.handlerAt k = some handler → (stateOf (call.body r)).handlerAt k = some handler
  stored : ∀ r', call.body r = .ok () r' → ∃ k handler, call.dModel.construct = .ok handler ∧
    r.handlerAt k = none ∧ r'.handlerAt k = some handler
  raised : ∀ e r', call.body r = .error e r' → r'.typeHandlers = r.typeHandlers

/-- When the call is one without a type id and its model can be constructed, the counter stands at a free place. -/
def FindsFree (r : TypeRegistry) (call : RegisterCall) : Prop :=
  givenId call.dType = none → (∃ handler, call.dModel.construct = .ok handler) → r.handlerAt r.nextCustomTypeId = none

theorem keepsTable_of_error {call : RegisterCall} {e : PyError} {r' : TypeRegistry} (h : call.body r = .error e r')
    (hsame : r'.typeHandlers = r.typeHandlers) : r.KeepsTable call where
  kept k handler hold := by
    rw [h]
    exact (congrArg (fun handlers : List (Option TypeHandler) => handlers[k]?.join) hsame).trans hold
  stored r'' hok := by
    rw [h] at hok
    cases hok
  raised e' r'' herror := by
    rw [h] at herror
    cases herror
    exact hsame

theorem keepsTable_of_store {call : RegisterCall} {k : ℕ} {handler : TypeHandler} {r' : TypeRegistry}
    (hconstruct : call.dModel.construct = .ok handler) (hlt : k < maxTypeId) (hfree : r.handlerAt k = none)
    (hsame : r'.typeHandlers = r.typeHandlers) (h : call.body r = .ok () (r'.store k handler)) :
    r.KeepsTable call where
  kept l handler' hold := by
    have hne : k ≠ l := by
      rintro rfl
      rw [hfree] at hold
      cases hold
    rw [h]
    refine (handlerAt_store_of_ne hne handler).trans ?_
    exact (congrArg (fun handlers : List (Option TypeHandler) => handlers[l]?.join) hsame).trans hold
  stored r'' hok := by
    rw [h] at hok
    cases hok
    exact ⟨k, handler, hconstruct, hfree, handlerAt_store_self hlt handler⟩
  raised e r'' herror := by
    rw [h] at herror
    cases herror

/-- One call keeps the table exactly when the counter finds a free place. -/
theorem keepsTable_iff_findsFree (r : TypeRegistry) (call : RegisterCall) : r.KeepsTable call ↔ r.FindsFree call := by
  cases ht : givenId call.dType with
  | some t =>
    refine iff_of_true ?_ fun hnone _ => ?_
    · rcases registerDataType_given ht with ⟨e, h⟩ | ⟨k, handler, hconstruct, hlt, hfree, h⟩
      · exact keepsTable_of_error h rfl
      · exact keepsTable_of_store hconstruct hlt hfree rfl h
    · rw [ht] at hnone
      cases hnone
  | none =>
    by_cases hraises : maxTypeId ≤ r.nextCustomTypeId ∨ ∃ e, call.dModel.construct = .error e
    · obtain ⟨e, h⟩ := registerDataType_automatic_error ht hraises
      refine iff_of_true (keepsTable_of_error h rfl) fun _ ⟨handler, hconstruct⟩ => ?_
      rcases hraises with hle | ⟨e', herror⟩
      · exact handlerAt_of_le hle
      · rw [hconstruct] at herror
        cases herror
    · obtain ⟨hle, hok⟩ := not_or.mp hraises
      have hnext : r.nextCustomTypeId < maxTypeId := Nat.lt_of_not_le hle
      obtain ⟨handler, hconstruct⟩ : ∃ handler, call.dModel.construct = .ok handler := by
        cases hconstruct : call.dModel.construct with
        | error e => exact absurd ⟨e, hconstruct⟩ hok
        | ok handler => exact ⟨handler, rfl⟩
      have h : call.body r = .ok () (r.advance.store r.nextCustomTypeId handler) :=
        registerDataType_automatic ht hconstruct hnext
      have hsame : r.advance.typeHandlers = r.typeHandlers := rfl
      constructor
      · rintro hkeeps - -
        obtain ⟨k, handler', -, hfree, hstored⟩ := hkeeps.stored _ h
        -- the place that was free and has a handler now is the one the handler was put into
        by_contra hheld
        have hne : r.nextCustomTypeId ≠ k := by
          rintro rfl
          exact hheld hfree
        rw [handlerAt_store_of_ne hne, handlerAt_advance, hfree] at hstored
        cases hstored
      · intro hfinds
        exact keepsTable_of_store hconstruct hnext (hfinds ht ⟨handler, hconstruct⟩) hsame h

/-- A handler stays in its place to the end of a run whose calls keep the table. -/
theorem handlerAt_of_run {calls : List RegisterCall} {t : TypeRegistry} {k : ℕ} {handler : TypeHandler}
    (hkeeps : Along registryStep KeepsTable r calls) (hrun : runFrom registryStep r calls = some t)
    (h : r.handlerAt k = some handler) : t.handlerAt k = some handler := by
  have hstays : ∀ s call s', s.handlerAt k = some handler → s.KeepsTable call → registryStep s call = some s' →
      s'.handlerAt k = some handler := by
    intro s call s' hold hcall hstep
    obtain rfl := Option.some.inj hstep
    exact hcall.kept k handler hold
  exact Along.invariant hstays h hkeeps hrun

/-- From the import on, no call replaces a registered handler exactly when the counter finds a free place at every
call without a type id. -/
theorem never_replaced_iff (base : TypeHandler) (calls : List RegisterCall) :
    Along registryStep KeepsTable (imported base) calls ↔ Along registryStep FindsFree (imported base) calls :=
  Along.iff_of_invariant (fun _ => True) (fun _ _ _ _ _ => trivial) (fun s call _ => keepsTable_iff_findsFree s call)
    trivial

/-! ## The counter at a given type id -/

/-- A model whose values are written as one byte. -/
def byteModel (b : UInt8) : DataModel where
  construct := .ok ⟨fun _ => .ok [b], fun _ => .ok .none⟩

/-- A type registered under the first custom id is replaced by the next one without an id. -/
theorem given_id_replaced :
    ¬ Along registryStep KeepsTable (imported ⟨fun _ => .ok [], fun _ => .ok .none⟩)
      [⟨byteModel 1, some 100⟩, ⟨byteModel 2, none⟩] := by
  rintro ⟨-, hrest⟩
  have hkeeps := (hrest _ rfl).1
  have hfree := (keepsTable_iff_findsFree _ _).mp hkeeps rfl ⟨_, rfl⟩
  cases hfree

end TypeRegistry

end Upipe
