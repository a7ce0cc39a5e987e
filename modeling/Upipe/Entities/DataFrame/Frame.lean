import Upipe.Common.Dict
import Upipe.Entities.DataFrame.Lists

/-!
# Data frames

A `DataFrame` is an ordered dictionary of fields, each under its own key. On the wire it is a count byte
and then, for every field, four bytes of size and the field's own encoding; a field is its type, the
size of its key, the key, four bytes of size and the encoded value.

`fromByteArr_toByteArr` is the round trip of the whole format over any value codec that inverts on the
values at hand.
-/

namespace Upipe

open Upipe.Common

/-! ## Fields -/

/-- `DataField`. -/
structure DataField where
  key : String
  value : PyVal
  dType : ℕ
deriving DecidableEq

namespace DataField

variable (c : Codec)

/-- `DataField(key, value)`, with the type that fits the value. -/
def ofValue (key : String) (value : PyVal) : Except PyError DataField := do
  let dType ← c.getDataType value
  pure { key := key, value := value, dType := dType.value }

/-- `byte_arr`. -/
def byteArr (f : DataField) : Except PyError Bytes := do
  let typeByte ← toByte f.dType
  let keyBytes := encodeUtf8 f.key
  let keySize ← toByte keyBytes.length
  let valueBytes ← c.dataToByteArr f.value f.dType
  let valueSize ← toBytes valueBytes.length 4
  pure ([typeByte, keySize] ++ keyBytes ++ valueSize ++ valueBytes)

/-- `DataField.from_byte_arr`. -/
def fromByteArr (arr : Bytes) : Except PyError DataField := do
  let dType ← DType.ofValue (← byteAt arr 0).toNat
  let keySize := (← byteAt arr 1).toNat
  let keyStart := 2
  let keyBytes := slice arr keyStart (keyStart + keySize)
  let key ← decodeUtf8 keyBytes
  let keyEnd := keyStart + keySize
  let valueSize := leValue (slice arr keyEnd (keyEnd + 4))
  let valueStart := keyEnd + 4
  let valueBytes := slice arr valueStart (valueStart + valueSize)
  let value ← c.dataFromByteArr valueBytes dType.value
  pure { key := key, value := value, dType := dType.value }

/-- The value of the field survives its own codec. -/
def Inverts (f : DataField) : Prop :=
  ∀ bytes, c.dataToByteArr f.value f.dType = .ok bytes →
    c.dataFromByteArr bytes f.dType = .ok f.value

end DataField

/-! ## Frames -/

/-- `DataFrame`: its fields in insertion order, each stored under its own key. -/
@[ext] structure DataFrame where
  fields : Dict String DataField
  keyed : ∀ item ∈ fields.entries, item.2.key = item.1

namespace DataFrame

/-- `reserved_keys`. -/
def reservedKeys : List String := ["d", "pid", "last"]

/-- `MAX_FIELD_LIMIT`. -/
def maxFieldLimit : ℕ := 255

/-- A frame without fields. -/
def empty : DataFrame := ⟨.empty, fun _ h => nomatch h⟩

/-- `self.fields[field.key] = field`. -/
def setField (frame : DataFrame) (field : DataField) : DataFrame where
  fields := frame.fields.set field.key field
  keyed := by
    rintro ⟨key, f⟩ hmem
    rcases (frame.fields.mem_entries_set).mp hmem with ⟨rfl, rfl⟩ | ⟨-, hold⟩
    · rfl
    · exact frame.keyed _ hold

/-- `fields_number`. -/
def fieldsNumber (frame : DataFrame) : ℕ := frame.fields.size

/-- `_add_field`. The limit is compared before the field is added. -/
def addFieldRaw (frame : DataFrame) (field : DataField) (allowReserve : Bool) :
    Except PyError DataFrame :=
  if field.key ∈ reservedKeys ∧ allowReserve = false then
    .error ⟨.keyError, s!"{field.key} is a reserved field key name"⟩
  else if frame.fields.size > maxFieldLimit then
    .error ⟨.keyError, s!"Maximum frame fields limit reached: {frame.fields.size} "⟩
  else .ok (frame.setField field)

variable (c : Codec)

/-- `DataFrame(data)`. -/
def ofData (data : PyVal) : Except PyError DataFrame :=
  if data = .none then .ok empty
  else do
    let field ← DataField.ofValue c "d" data
    pure (empty.setField field)

/-- `add_field`. -/
def addField (frame : DataFrame) (key : String) (value : PyVal) : Except PyError DataFrame := do
  let field ← DataField.ofValue c key value
  frame.addFieldRaw field false

/-- `set_pipe_exe_id`, with the identifier given. -/
def setPipeExeId (frame : DataFrame) (id : PyVal) : Except PyError DataFrame := do
  let field ← DataField.ofValue c "pid" id
  pure (frame.setField field)

/-- `data`: the default field, else the first field that is not reserved. -/
def data (frame : DataFrame) : Except PyError PyVal :=
  if frame.fieldsNumber = 0 then .error ⟨.valueError, "Trying to access empty frame data"⟩
  else
    match frame.fields.get? "d" with
    | some field => .ok field.value
    | none =>
        match frame.fields.entries.find? (fun item => item.1 ∉ reservedKeys) with
        | some item => .ok item.2.value
        | none => .error ⟨.valueError, "Not supported"⟩

/-- `last`. -/
def last (frame : DataFrame) : PyVal := ((frame.fields.get? "last").map DataField.value).getD .none

/-- The setter of `last`. -/
def setLast (frame : DataFrame) (flag : Bool) : DataFrame :=
  if flag then frame.setField { key := "last", value := .int 1, dType := DType.u8.value }
  else
    { fields := frame.fields.erase "last"
      keyed := fun item hmem => frame.keyed item (List.mem_filter.mp hmem).1 }

/-- `pipe_execution_id`. -/
def pipeExecutionId (frame : DataFrame) : PyVal :=
  ((frame.fields.get? "pid").map DataField.value).getD .none

/-- `encode_field_to_byte_arr`. -/
def encodeFieldToByteArr (f : DataField) : Except PyError Bytes := do
  let fieldBytes ← f.byteArr c
  let fieldSize ← toBytes fieldBytes.length 4
  pure (fieldSize ++ fieldBytes)

/-- The loop of `to_byte_arr` over the fields. -/
def fieldsToByteArr : List (String × DataField) → Except PyError Bytes
  | [] => .ok []
  | (_, f) :: items => do
      let arr ← encodeFieldToByteArr c f
      let rest ← fieldsToByteArr items
      pure (arr ++ rest)

/-- `to_byte_arr`. -/
def toByteArr (frame : DataFrame) : Except PyError Bytes := do
  let count ← toByte frame.fieldsNumber
  let fields ← fieldsToByteArr c frame.fields.entries
  pure (count :: fields)

/-- The loop of `from_byte_arr`, from `nextFieldIndex` on. -/
def fieldsFromByteArr (arr : Bytes) (frame : DataFrame) (nextFieldIndex : ℕ) :
    Except PyError DataFrame :=
  if nextFieldIndex < arr.length then do
    let fieldStart := nextFieldIndex + 4
    let fieldSize := leValue (slice arr nextFieldIndex fieldStart)
    let f ← DataField.fromByteArr c (slice arr fieldStart (fieldStart + fieldSize))
    let frame ← frame.addFieldRaw f true
    fieldsFromByteArr arr frame (nextFieldIndex + 4 + fieldSize)
  else .ok frame
termination_by arr.length - nextFieldIndex

/-- `DataFrame.from_byte_arr`. The count byte must be there but is not used. -/
def fromByteArr (arr : Bytes) : Except PyError DataFrame := do
  let _fieldsNum ← byteAt arr 0
  fieldsFromByteArr c arr empty 1

end DataFrame

/-! ## One field -/

variable {c : Codec}

/-- The bytes of a field, and the bounds that its three sizes meet. -/
theorem DataField.byteArr_eq {f : DataField} {arr : Bytes} (h : f.byteArr c = .ok arr) :
    ∃ bytes, c.dataToByteArr f.value f.dType = .ok bytes ∧ f.dType < 256 ∧
      (encodeUtf8 f.key).length < 256 ∧ bytes.length < 256 ^ 4 ∧
      arr = UInt8.ofNat f.dType :: UInt8.ofNat (encodeUtf8 f.key).length ::
        (encodeUtf8 f.key ++ (leBytes 4 bytes.length ++ bytes)) := by
  simp only [byteArr, except_bind_eq_ok_iff, toByte_eq_ok_iff, toBytes_eq_ok_iff] at h
  obtain ⟨_, ⟨htype, rfl⟩, _, ⟨hkey, rfl⟩, bytes, hdata, _, ⟨hsize, rfl⟩, harr⟩ := h
  refine ⟨bytes, hdata, htype, hkey, hsize, ?_⟩
  rw [← Except.ok.inj harr]
  simp only [List.append_assoc, List.cons_append, List.nil_append]

/-- A field comes back from its bytes. -/
theorem DataField.fromByteArr_byteArr {f : DataField} {arr : Bytes} (h : f.byteArr c = .ok arr)
    (htype : ∃ t : DType, f.dType = t.value) (hinv : f.Inverts c) :
    DataField.fromByteArr c arr = .ok f := by
  obtain ⟨t, ht⟩ := htype
  obtain ⟨bytes, hdata, hlt, hkey, hsize, rfl⟩ := DataField.byteArr_eq h
  set key := encodeUtf8 f.key with hkeydef
  set value := leBytes 4 bytes.length ++ bytes with hvalue
  have hkeySlice : slice (UInt8.ofNat f.dType :: UInt8.ofNat key.length :: (key ++ value)) 2
      (2 + key.length) = key := by
    rw [slice_eq_take_drop]
    exact List.take_left
  have hbehind : ∀ n, slice (UInt8.ofNat f.dType :: UInt8.ofNat key.length :: (key ++ value))
      (2 + key.length) (2 + key.length + n) = value.take n := by
    intro n
    rw [slice_eq_take_drop, Nat.add_comm 2, List.drop_succ_cons, List.drop_succ_cons, List.drop_left]
  have hsizeSlice : leValue (slice (UInt8.ofNat f.dType :: UInt8.ofNat key.length :: (key ++ value))
      (2 + key.length) (2 + key.length + 4)) = bytes.length := by
    rw [hbehind, hvalue, List.take_left' (length_leBytes 4 _), leValue_leBytes hsize]
  have hvalueSlice : slice (UInt8.ofNat f.dType :: UInt8.ofNat key.length :: (key ++ value))
      (2 + key.length + 4) (2 + key.length + 4 + bytes.length) = bytes := by
    rw [slice_eq_take_drop, Nat.add_comm 2, Nat.add_right_comm, List.drop_succ_cons,
      List.drop_succ_cons, List.drop_append, List.drop_eq_nil_of_le (by omega), List.nil_append,
      Nat.add_sub_cancel_left, hvalue, List.drop_left' (length_leBytes 4 _)]
    exact List.take_length
  have hofNat : ∀ n, n < 256 → (UInt8.ofNat n).toNat = n := fun n hn => by
    rw [UInt8.toNat_ofNat', Nat.mod_eq_of_lt hn]
  have h0 : byteAt (UInt8.ofNat f.dType :: UInt8.ofNat key.length :: (key ++ value)) 0
      = .ok (UInt8.ofNat f.dType) := rfl
  have h1 : byteAt (UInt8.ofNat f.dType :: UInt8.ofNat key.length :: (key ++ value)) 1
      = .ok (UInt8.ofNat key.length) := rfl
  simp only [fromByteArr, except_bind_eq_ok_iff, h0, h1, Except.ok.injEq, exists_eq_left']
  refine ⟨t, ?_, f.key, ?_, f.value, ?_, ?_⟩
  · rw [hofNat _ hlt, ht, DType.ofValue_value]
  · rw [hofNat _ hkey, hkeySlice, hkeydef, decodeUtf8_encodeUtf8]
  · rw [hofNat _ hkey, hsizeSlice, hvalueSlice, ← ht]
    exact hinv bytes hdata
  · rw [← ht]
    rfl

/-- Integers of four bytes, strings, JSON objects and lists of these survive as field values, unless a
list inside ends in a blank. -/
theorem DataField.inverts_of_endsWell {key : String} {v : PyVal} (h : c.Listable v)
    (hwell : Codec.EndsWell v) (hint : c.handlerOf DType.u32.value = .ok none) :
    DataField.Inverts c { key := key, value := v, dType := (Codec.typeOf v).value } := by
  intro bytes hbytes
  have hfit := Codec.fits_of_dataToByteArr h hbytes hint
  have hpayload := Codec.dataToByteArr_eq hint h hfit
  have hback := Codec.dataFromByteArr_payload h hfit
  rw [(Codec.readBack_eq_self_iff h).mpr hwell] at hback
  rw [hbytes] at hpayload
  rwa [← Except.ok.inj hpayload] at hback

/-- The field that marks a last frame survives. -/
theorem DataField.inverts_last (hint : c.handlerOf DType.u8.value = .ok none) :
    DataField.Inverts c { key := "last", value := .int 1, dType := DType.u8.value } := by
  intro bytes hbytes
  rw [Codec.dataToByteArr] at hbytes
  · change (c.handlerOf DType.u8.value >>= _) = _ at hbytes
    rw [hint] at hbytes
    cases hbytes
    rw [Codec.dataFromByteArr]
    rfl
  all_goals
    intro _ hne
    cases hne

/-! ## The whole frame -/

namespace DataFrame

theorem encodeFieldToByteArr_eq {f : DataField} {arr : Bytes}
    (h : encodeFieldToByteArr c f = .ok arr) :
    ∃ bytes, f.byteArr c = .ok bytes ∧ bytes.length < 256 ^ 4 ∧
      arr = leBytes 4 bytes.length ++ bytes := by
  simp only [encodeFieldToByteArr, except_bind_eq_ok_iff, toBytes_eq_ok_iff] at h
  obtain ⟨bytes, hbytes, _, ⟨hsize, rfl⟩, harr⟩ := h
  exact ⟨bytes, hbytes, hsize, (Except.ok.inj harr).symm⟩

/-- A field with a new key goes to the end of the frame, while there is room. -/
theorem addFieldRaw_new {frame : DataFrame} {f : DataField} (hkey : f.key ∉ frame.fields.keys)
    (hroom : frame.fields.size ≤ maxFieldLimit) :
    ∃ frame', frame.addFieldRaw f true = .ok frame' ∧
      frame'.fields.entries = frame.fields.entries ++ [(f.key, f)] := by
  refine ⟨frame.setField f, ?_, frame.fields.entries_set_of_not_mem f hkey⟩
  rw [addFieldRaw, if_neg (by simp), if_neg (by omega)]

/-- One turn of the decoder's loop: the bytes of one field in the middle of an array. -/
theorem fieldsFromByteArr_step {frame frame' : DataFrame} {f : DataField} {before bytes rest : Bytes}
    (hsize : bytes.length < 256 ^ 4) (hfield : DataField.fromByteArr c bytes = .ok f)
    (hadd : frame.addFieldRaw f true = .ok frame') :
    fieldsFromByteArr c (before ++ (leBytes 4 bytes.length ++ bytes ++ rest)) frame before.length
      = fieldsFromByteArr c (before ++ (leBytes 4 bytes.length ++ bytes ++ rest)) frame'
          (before.length + 4 + bytes.length) := by
  have hlen : (leBytes 4 bytes.length ++ bytes).length = 4 + bytes.length := by
    rw [List.length_append, length_leBytes]
  have hsizeSlice : slice (before ++ (leBytes 4 bytes.length ++ bytes ++ rest)) before.length
      (before.length + 4) = leBytes 4 bytes.length := by
    rw [slice_append_right (by omega), slice_append_left (by omega), Nat.sub_self,
      Nat.add_sub_cancel_left, slice_zero]
    exact List.take_left' (length_leBytes 4 _)
  have hfieldSlice : slice (before ++ (leBytes 4 bytes.length ++ bytes ++ rest)) (before.length + 4)
      (before.length + 4 + bytes.length) = bytes := by
    rw [slice_append_right (by omega), slice_append_left (by omega), Nat.add_sub_cancel_left,
      Nat.add_assoc, Nat.add_sub_cancel_left, slice_eq_take_drop,
      List.drop_left' (length_leBytes 4 _)]
    exact List.take_length
  conv_lhs => rw [fieldsFromByteArr]
  rw [if_pos (by rw [List.length_append, List.length_append, hlen]; omega)]
  dsimp only
  rw [hsizeSlice, leValue_leBytes hsize, hfieldSlice, hfield]
  show (frame.addFieldRaw f true >>= _) = _
  rw [hadd]
  rfl

/-- The decoder's loop in the middle of a frame: with the first fields of `frame` read into `done`, the
remaining bytes complete it. -/
theorem fieldsFromByteArr_fieldsToByteArr {frame : DataFrame}
    (hcount : frame.fieldsNumber ≤ maxFieldLimit)
    (htypes : ∀ f ∈ frame.fields.values, ∃ t : DType, f.dType = t.value)
    (hinv : ∀ f ∈ frame.fields.values, f.Inverts c) :
    ∀ {items : List (String × DataField)} {done : DataFrame} {before arr : Bytes},
      frame.fields.entries = done.fields.entries ++ items →
      fieldsToByteArr c items = .ok arr →
      fieldsFromByteArr c (before ++ arr) done before.length = .ok frame := by
  intro items
  induction items with
  | nil =>
    intro done before arr hitems harr
    cases harr
    rw [List.append_nil] at hitems
    have hdone : done = frame := DataFrame.ext (Dict.ext hitems.symm)
    rw [List.append_nil, fieldsFromByteArr, if_neg (Nat.lt_irrefl _), hdone]
  | cons item items ih =>
    obtain ⟨key, f⟩ := item
    intro done before arr hitems harr
    simp only [fieldsToByteArr, except_bind_eq_ok_iff] at harr
    obtain ⟨_, hfield, rest, hrest, harr⟩ := harr
    obtain ⟨bytes, hbytes, hsize, rfl⟩ := encodeFieldToByteArr_eq hfield
    cases harr
    have hmem : (key, f) ∈ frame.fields.entries := by
      rw [hitems]
      exact List.mem_append_right _ List.mem_cons_self
    have hvalues : f ∈ frame.fields.values := List.mem_map_of_mem (f := Prod.snd) hmem
    have hkey : f.key = key := frame.keyed _ hmem
    -- the keys of a dictionary are distinct, so this one is not among those already read
    have hnew : f.key ∉ done.fields.keys := by
      have hnodup := frame.fields.nodup
      rw [hitems, List.map_append, List.nodup_append] at hnodup
      intro hold
      exact hnodup.2.2 _ hold key (List.mem_map_of_mem (f := Prod.fst) List.mem_cons_self) hkey
    have hroom : done.fields.size ≤ maxFieldLimit := by
      rw [fieldsNumber, Dict.size, hitems, List.length_append] at hcount
      exact Nat.le_trans (Nat.le_add_right _ _) hcount
    obtain ⟨done', hadd, hentries⟩ := addFieldRaw_new hnew hroom
    have hdecode := DataField.fromByteArr_byteArr hbytes (htypes f hvalues) (hinv f hvalues)
    rw [fieldsFromByteArr_step hsize hdecode hadd]
    have hnext := @ih done' (before ++ (leBytes 4 bytes.length ++ bytes)) rest
      (by rw [hentries, hkey, List.append_assoc, hitems]; rfl) hrest
    rwa [List.append_assoc, List.length_append, List.length_append, length_leBytes,
      ← Nat.add_assoc] at hnext

/-- What `to_byte_arr` returns, `from_byte_arr` turns back into the same frame, whenever the fields have
`DType` members as types and their values survive their own codecs. -/
theorem fromByteArr_toByteArr {frame : DataFrame} {arr : Bytes} (harr : frame.toByteArr c = .ok arr)
    (htypes : ∀ f ∈ frame.fields.values, ∃ t : DType, f.dType = t.value)
    (hinv : ∀ f ∈ frame.fields.values, f.Inverts c) :
    fromByteArr c arr = .ok frame := by
  simp only [toByteArr, except_bind_eq_ok_iff, toByte_eq_ok_iff] at harr
  obtain ⟨_, ⟨hcount, rfl⟩, fields, hfields, harr⟩ := harr
  cases harr
  show fieldsFromByteArr c ([UInt8.ofNat frame.fieldsNumber] ++ fields) empty 1 = _
  exact fieldsFromByteArr_fieldsToByteArr (Nat.le_of_lt_succ hcount) htypes hinv rfl hfields

/-- A last frame of an execution, with a list under a user's key. -/
def lastFrame : DataFrame :=
  ((empty.setField { key := "k", value := .list [.int 300, .str "a"], dType := 7 }).setField
    { key := "pid", value := .str "e1", dType := 5 }).setLast true

theorem fromByteArr_toByteArr_lastFrame :
    ∃ arr, lastFrame.toByteArr Codec.emptyObjects = .ok arr ∧
      fromByteArr Codec.emptyObjects arr = .ok lastFrame := by
  have hfields : lastFrame.fields.values =
      [{ key := "k", value := .list [.int 300, .str "a"], dType := (Codec.typeOf (.list [])).value },
        { key := "pid", value := .str "e1", dType := (Codec.typeOf (.str "e1")).value },
        { key := "last", value := .int 1, dType := DType.u8.value }] := by decide
  refine ⟨_, rfl, fromByteArr_toByteArr rfl ?_ ?_⟩
  · rw [hfields]
    simp only [List.mem_cons, List.not_mem_nil, or_false, forall_eq_or_imp, forall_eq]
    exact ⟨⟨_, rfl⟩, ⟨_, rfl⟩, ⟨_, rfl⟩⟩
  · rw [hfields]
    simp only [List.mem_cons, List.not_mem_nil, or_false, forall_eq_or_imp, forall_eq]
    refine ⟨DataField.inverts_of_endsWell ?_ ?_ rfl, DataField.inverts_of_endsWell trivial trivial rfl,
      DataField.inverts_last rfl⟩
    · simp [Codec.Listable, Codec.AllListable]
    · simp [Codec.EndsWell, Codec.AllEndWell, Codec.Blank]

end DataFrame

end Upipe
