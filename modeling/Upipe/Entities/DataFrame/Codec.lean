import Upipe.Common.PyVal
import Upipe.Common.Python

/-!
# Value codec

`data_to_byte_arr` and `data_from_byte_arr`: how a single value becomes bytes and comes back, under a
data type that is either a `DType` member or the id of a registered custom type. A list is written as
one record per element: the element's type, the length of its payload in four bytes, the payload.

`json` and the table of registered types are taken from the surroundings, as the fields of `Codec`.
-/

namespace Upipe

open Upipe.Common

/-! ## Data types -/

/-- `DType`. -/
inductive DType where
  | u8 | u16 | u32 | u64 | str | json | array | tuple | ndArr | customTypeStart | customTypeEnd
  | unknown
deriving DecidableEq, Repr

namespace DType

/-- The integer behind a member. -/
def value : DType → ℕ
  | .u8 => 1
  | .u16 => 2
  | .u32 => 3
  | .u64 => 4
  | .str => 5
  | .json => 6
  | .array => 7
  | .tuple => 8
  | .ndArr => 9
  | .customTypeStart => 100
  | .customTypeEnd => 200
  | .unknown => 230

/-- `DType(n)`. -/
def ofValue : ℕ → Except PyError DType
  | 1 => .ok .u8
  | 2 => .ok .u16
  | 3 => .ok .u32
  | 4 => .ok .u64
  | 5 => .ok .str
  | 6 => .ok .json
  | 7 => .ok .array
  | 8 => .ok .tuple
  | 9 => .ok .ndArr
  | 100 => .ok .customTypeStart
  | 200 => .ok .customTypeEnd
  | 230 => .ok .unknown
  | n => .error ⟨.valueError, s!"{n} is not a valid DType"⟩

theorem ofValue_value (t : DType) : ofValue t.value = .ok t := by cases t <;> rfl

theorem value_lt (t : DType) : t.value < 256 := by cases t <;> decide

end DType

/-- The two functions of a registered type. -/
structure TypeHandler where
  toByteArray : PyVal → Except PyError Bytes
  fromByteArray : Bytes → Except PyError PyVal

/-- What the codec takes from its surroundings: `json.dumps`, `json.loads` and `type_handlers`. -/
structure Codec where
  dumps : PyVal → Except PyError String
  loads : String → Except PyError PyVal
  typeHandlers : List (Option TypeHandler)

/-- `MAX_TYPE_ID`, the length of the table. -/
def maxTypeId : ℕ := 255

/-- `type_handlers` after `_register_builtin_types`, with the base type's pickling as `base`. -/
def builtinHandlers (base : TypeHandler) : List (Option TypeHandler) :=
  ((List.replicate maxTypeId none).set DType.ndArr.value (some base)).set DType.unknown.value
    (some base)

namespace Codec

variable (c : Codec)

/-- `is_jsonable`. -/
def isJsonable (x : PyVal) : Except PyError Bool :=
  match c.dumps x with
  | .ok _ => .ok true
  | .error e =>
      if e.kind = .typeError ∨ e.kind = .overflowError then .ok false else .error e

/-- `get_data_type`. A boolean is an `int`. -/
def getDataType : PyVal → Except PyError DType
  | .bool _ | .int _ => .ok .u32
  | .str _ => .ok .str
  | .list _ => .ok .array
  | .tuple _ => .ok .tuple
  | .ndarray _ => .ok .ndArr
  | data => do
      let jsonable ← c.isJsonable data
      pure (if jsonable then .json else .unknown)

/-- `type_handlers[d_type]`. -/
def handlerOf (dType : ℕ) : Except PyError (Option TypeHandler) :=
  match c.typeHandlers[dType]? with
  | some handler => .ok handler
  | none => .error ⟨.indexError, "list index out of range"⟩

/-- `int_size`. -/
def intSize (dType : ℕ) : Except PyError ℕ :=
  if dType = DType.u8.value then .ok 1
  else if dType = DType.u16.value then .ok 2
  else if dType = DType.u32.value then .ok 4
  else if dType = DType.u64.value then .ok 8
  else .error ⟨.valueError, "Data type has no fixed size"⟩

/-- `data.to_bytes(int_size(d_type), "little")`. -/
def intToByteArr (data : PyVal) (dType : ℕ) : Except PyError Bytes :=
  match data with
  | .int n => do toBytes n (← intSize dType)
  | .bool b => do toBytes b.toNat (← intSize dType)
  | _ => .error ⟨.attributeError, "object has no attribute 'to_bytes'"⟩

/-- The header of a list element: its type and the size of its payload. -/
def datumHeader (datumType : DType) (datumSize : ℕ) : Except PyError Bytes := do
  let typeBytes ← toBytes datumType.value 1
  let sizeBytes ← toBytes datumSize 4
  pure (typeBytes ++ sizeBytes)

/-- The records of the characters of a string, for the loop over a string. -/
def charsToByteArr : List Char → Except PyError Bytes
  | [] => .ok []
  | ch :: chars => do
      let datum := encodeUtf8 ch.toString
      let header ← datumHeader .str datum.length
      let rest ← charsToByteArr chars
      pure (header ++ datum ++ rest)

/-! ## Encoding -/

mutual

/-- `data_to_byte_arr`. -/
def dataToByteArr (data : PyVal) (dType : ℕ) : Except PyError Bytes :=
  if dType = DType.json.value then do
    let text ← c.dumps data
    pure (encodeUtf8 text)
  else if dType = DType.str.value then
    match data with
    | .str s => pure (encodeUtf8 s)
    | _ => .error ⟨.attributeError, "object has no attribute 'encode'"⟩
  else if dType = DType.tuple.value then do
    let text ← c.dumps data
    pure (encodeUtf8 text)
  else if dType = DType.array.value then
    match data with
    | .list xs => datumsToByteArr xs
    | .tuple xs => datumsToByteArr xs
    | .dict items => keysToByteArr items
    | .str s => charsToByteArr s.toList
    | _ => .error ⟨.typeError, "object is not iterable"⟩
  else do
    match ← c.handlerOf dType with
    | some handler => handler.toByteArray data
    | none => intToByteArr data dType

/-- The loop of `data_to_byte_arr` over the elements of a list. -/
def datumsToByteArr : List PyVal → Except PyError Bytes
  | [] => .ok []
  | datum :: data => do
      let datumType ← c.getDataType datum
      let datumByteArray ← dataToByteArr datum datumType.value
      let header ← datumHeader datumType datumByteArray.length
      let rest ← datumsToByteArr data
      pure (header ++ datumByteArray ++ rest)

/-- The same loop over a dictionary, whose elements are its keys. -/
def keysToByteArr : List (PyVal × PyVal) → Except PyError Bytes
  | [] => .ok []
  | (key, _) :: items => do
      let datumType ← c.getDataType key
      let datumByteArray ← dataToByteArr key datumType.value
      let header ← datumHeader datumType datumByteArray.length
      let rest ← keysToByteArr items
      pure (header ++ datumByteArray ++ rest)

end

/-! ## Decoding -/

/-- `tuple(v)`. -/
def toTuple : PyVal → Except PyError PyVal
  | .list xs | .tuple xs => .ok (.tuple xs)
  | .str s => .ok (.tuple (s.toList.map fun ch => .str ch.toString))
  | .dict items => .ok (.tuple (items.map Prod.fst))
  | _ => .error ⟨.typeError, "object is not iterable"⟩

mutual

/-- `data_from_byte_arr`. -/
def dataFromByteArr (arr : Bytes) (dType : ℕ) : Except PyError PyVal :=
  if dType = DType.u8.value ∨ dType = DType.u16.value ∨ dType = DType.u32.value
      ∨ dType = DType.u64.value then
    pure (.int (leValue arr))
  else if dType = DType.json.value then do
    c.loads (← decodeUtf8 arr)
  else if dType = DType.tuple.value then do
    toTuple (← c.loads (← decodeUtf8 arr))
  else if dType = DType.str.value then do
    pure (.str (← decodeUtf8 arr))
  else if dType = DType.array.value then do
    pure (.list (← datumsFromByteArr arr 0))
  else do
    match ← c.handlerOf dType with
    | some handler => handler.fromByteArray arr
    | none => .error ⟨.lookupError, s!"No matching data type was registered:{dType} "⟩
termination_by 2 * arr.length + 1

/-- The loop of `data_from_byte_arr` over an encoded list, from `index` on. -/
def datumsFromByteArr (arr : Bytes) (index : ℕ) : Except PyError (List PyVal) :=
  -- five bytes are the header of an element
  if h : index + 5 < arr.length then do
    let datumType ← DType.ofValue arr[index].toNat
    let datumSize := leValue (slice arr (index + 1) (index + 5))
    let datum ← dataFromByteArr (slice arr (index + 5) (index + 5 + datumSize)) datumType.value
    let rest ← datumsFromByteArr arr (index + 5 + datumSize)
    pure (datum :: rest)
  else pure []
termination_by 2 * arr.length - index
decreasing_by
  all_goals
    try rw [length_slice]
    omega

end

end Codec

end Upipe
