import Upipe.Entities.DataFrame.Frame

/-!
# What can be sent

`add_field` and the setters take any value and compare the number of fields before they add one. The limits
come back in `to_byte_arr`: a count of one byte, a key size of one byte, integers and sizes of four.
`toByteArr_ok_iff` says which of the frames that a sequence of calls builds can be sent.
-/

namespace Upipe

open Upipe.Common

/-! ## Values -/

namespace Codec

mutual

/-- Integers, strings and lists of these. -/
def Plain : PyVal → Prop
  | .int _ | .str _ => True
  | .list xs => AllPlain xs
  | _ => False

def AllPlain : List PyVal → Prop
  | [] => True
  | x :: xs => Plain x ∧ AllPlain xs

end

mutual

/-- Every integer inside fits four bytes without a sign. -/
def InRange : PyVal → Prop
  | .int n => 0 ≤ n ∧ n < 256 ^ 4
  | .list xs => AllInRange xs
  | _ => True

def AllInRange : List PyVal → Prop
  | [] => True
  | x :: xs => InRange x ∧ AllInRange xs

end

variable {c : Codec}

theorem getDataType_plain {v : PyVal} (h : Plain v) : c.getDataType v = .ok (typeOf v) := by
  cases v with
  | int n => rfl
  | str s => rfl
  | list xs => rfl
  | none | bool | float | tuple | dict | ndarray | object => exact h.elim

mutual

theorem listable_of_plain : ∀ {v : PyVal}, Plain v → InRange v → Listable c v
  | .int _, _, hrange => hrange
  | .str _, _, _ => trivial
  | .list _, h, hrange => allListable_of_allPlain h hrange

theorem allListable_of_allPlain : ∀ {xs : List PyVal}, AllPlain xs → AllInRange xs → AllListable c xs
  | [], _, _ => trivial
  | _ :: _, h, hrange => ⟨listable_of_plain h.1 hrange.1, allListable_of_allPlain h.2 hrange.2⟩

end

mutual

/-- A value with an integer out of range is not encoded. -/
theorem inRange_of_dataToByteArr (hint : c.handlerOf DType.u32.value = .ok none) :
    ∀ {v : PyVal}, Plain v → ∀ {arr : Bytes}, c.dataToByteArr v (typeOf v).value = .ok arr → InRange v
  | .int n, _, arr, hok => by
      rw [dataToByteArr, typeOf, hint] at hok
      · change toBytes n 4 = .ok arr at hok
        rw [toBytes] at hok
        split at hok
        · cases hok
        split at hok
        · rename_i hneg hlt
          exact ⟨by omega, by omega⟩
        · cases hok
      all_goals
        intro _ hne
        cases hne
  | .str _, _, _, _ => trivial
  | .list xs, h, arr, hok => by
      rw [dataToByteArr] at hok
      exact allInRange_of_datumsToByteArr hint h hok

theorem allInRange_of_datumsToByteArr (hint : c.handlerOf DType.u32.value = .ok none) :
    ∀ {xs : List PyVal}, AllPlain xs → ∀ {arr : Bytes}, c.datumsToByteArr xs = .ok arr → AllInRange xs
  | [], _, _, _ => trivial
  | x :: xs, h, arr, hok => by
      obtain ⟨hx, hxs⟩ := h
      simp only [datumsToByteArr, except_bind_eq_ok_iff, getDataType_plain hx, Except.ok.injEq] at hok
      obtain ⟨_, rfl, _, hdata, _, -, _, hrest, -⟩ := hok
      exact ⟨inRange_of_dataToByteArr hint hx hdata, allInRange_of_datumsToByteArr hint hxs hrest⟩

end

/-- A value is encoded, as its payload, exactly when its integers and the elements of its lists fit. -/
theorem dataToByteArr_ok_iff (hint : c.handlerOf DType.u32.value = .ok none) {v : PyVal} (h : Plain v)
    {arr : Bytes} :
    c.dataToByteArr v (typeOf v).value = .ok arr ↔ InRange v ∧ Fits c v ∧ arr = payload c v := by
  constructor
  · intro hok
    have hrange := inRange_of_dataToByteArr hint h hok
    have hlist : Listable c v := listable_of_plain h hrange
    have hfits := fits_of_dataToByteArr hlist hok hint
    rw [dataToByteArr_eq hint hlist hfits, Except.ok.injEq] at hok
    exact ⟨hrange, hfits, hok.symm⟩
  · rintro ⟨hrange, hfits, rfl⟩
    exact dataToByteArr_eq hint (listable_of_plain h hrange) hfits

end Codec

/-! ## Fields -/

/-- The field fits its headers: the key size one byte, the integers and all sizes four. -/
structure DataField.Sendable (c : Codec) (f : DataField) : Prop where
  key_lt : (encodeUtf8 f.key).length < 256
  inRange : Codec.InRange f.value
  fits : Codec.Fits c f.value
  size_lt : 2 + (encodeUtf8 f.key).length + 4 + (Codec.payload c f.value).length < 256 ^ 4

namespace DataFrame

/-- The field that marks a last frame. -/
def lastField : DataField := { key := "last", value := .int 1, dType := DType.u8.value }

/-- A field as `DataField` makes it of a plain value, or the mark of a last frame. -/
def Buildable (f : DataField) : Prop :=
  (Codec.Plain f.value ∧ f.dType = (Codec.typeOf f.value).value) ∨ f = lastField

variable {c : Codec}

/-- The encoding of a field, from its encoded value. -/
theorem encodeFieldToByteArr_ok_iff {f : DataField} (htype : f.dType < 256) :
    (∃ arr, encodeFieldToByteArr c f = .ok arr) ↔
      ∃ bytes, c.dataToByteArr f.value f.dType = .ok bytes ∧ (encodeUtf8 f.key).length < 256 ∧
        2 + (encodeUtf8 f.key).length + 4 + bytes.length < 256 ^ 4 := by
  constructor
  · rintro ⟨arr, harr⟩
    obtain ⟨bytes, hbytes, hsize, -⟩ := encodeFieldToByteArr_eq harr
    obtain ⟨data, hdata, -, hkey, -, rfl⟩ := DataField.byteArr_eq hbytes
    refine ⟨data, hdata, hkey, ?_⟩
    simp only [List.length_cons, List.length_append, length_leBytes] at hsize
    omega
  · rintro ⟨data, hdata, hkey, hsize⟩
    have hbytes : f.byteArr c = .ok ([UInt8.ofNat f.dType, UInt8.ofNat (encodeUtf8 f.key).length]
        ++ encodeUtf8 f.key ++ leBytes 4 data.length ++ data) := by
      rw [DataField.byteArr, toByte_eq_ok_iff.mpr ⟨htype, rfl⟩]
      show (toByte (encodeUtf8 f.key).length >>= _) = _
      rw [toByte_eq_ok_iff.mpr ⟨hkey, rfl⟩]
      show (c.dataToByteArr f.value f.dType >>= _) = _
      rw [hdata]
      show (toBytes data.length 4 >>= _) = _
      rw [toBytes_natCast (by omega)]
      rfl
    obtain ⟨bytes, hbytes, hlength⟩ : ∃ bytes, f.byteArr c = .ok bytes ∧ bytes.length < 256 ^ 4 := by
      refine ⟨_, hbytes, ?_⟩
      simp only [List.length_cons, List.length_append, List.length_nil, length_leBytes]
      omega
    refine ⟨leBytes 4 bytes.length ++ bytes, ?_⟩
    rw [encodeFieldToByteArr, hbytes]
    show (toBytes bytes.length 4 >>= _) = _
    rw [toBytes_natCast hlength]
    rfl

section Types

variable (hint : c.handlerOf DType.u32.value = .ok none) (hmark : c.handlerOf DType.u8.value = .ok none)

include hint hmark

theorem encodeFieldToByteArr_sendable_iff {f : DataField} (h : Buildable f) :
    (∃ arr, encodeFieldToByteArr c f = .ok arr) ↔ f.Sendable c := by
  rcases h with ⟨hplain, htype⟩ | rfl
  · rw [encodeFieldToByteArr_ok_iff (htype ▸ (Codec.typeOf f.value).value_lt), htype]
    simp only [Codec.dataToByteArr_ok_iff hint hplain]
    constructor
    · rintro ⟨_, ⟨hrange, hfits, rfl⟩, hkey, hsize⟩
      exact ⟨hkey, hrange, hfits, hsize⟩
    · intro h
      exact ⟨_, ⟨h.inRange, h.fits, rfl⟩, h.key_lt, h.size_lt⟩
  · have hdata : c.dataToByteArr lastField.value lastField.dType = .ok [1] := by
      rw [lastField, Codec.dataToByteArr]
      · show (c.handlerOf DType.u8.value >>= _) = _
        rw [hmark]
        rfl
      all_goals
        intro _ hne
        cases hne
    refine iff_of_true ((encodeFieldToByteArr_ok_iff (by decide)).mpr ⟨[1], hdata, by decide, by decide⟩) ?_
    exact ⟨by decide, ⟨by decide, by decide⟩, trivial, by
      rw [lastField, Codec.payload, length_leBytes]
      decide⟩

theorem fieldsToByteArr_ok_iff {items : List (String × DataField)} (h : ∀ item ∈ items, Buildable item.2) :
    (∃ arr, fieldsToByteArr c items = .ok arr) ↔ ∀ item ∈ items, item.2.Sendable c := by
  induction items with
  | nil => exact iff_of_true ⟨[], rfl⟩ fun _ hitem => absurd hitem List.not_mem_nil
  | cons item items ih =>
    obtain ⟨key, f⟩ := item
    have hhead := encodeFieldToByteArr_sendable_iff hint hmark (h _ List.mem_cons_self)
    have hrest := ih fun item hitem => h item (List.mem_cons_of_mem _ hitem)
    rw [List.forall_mem_cons, ← hhead, ← hrest]
    simp only [fieldsToByteArr, except_bind_eq_ok_iff, except_pure_eq_ok_iff]
    constructor
    · rintro ⟨_, arr, harr, rest, hrest, -⟩
      exact ⟨⟨arr, harr⟩, rest, hrest⟩
    · rintro ⟨⟨arr, harr⟩, rest, hrest⟩
      exact ⟨_, arr, harr, rest, hrest, rfl⟩

end Types

/-! ## Calls -/

/-- A call that changes a frame. -/
inductive Change where
  | addField (key : String) (value : PyVal)
  | setLast (flag : Bool)
  | setPipeExeId (id : PyVal)

/-- The frame after a call. -/
def Change.apply (c : Codec) (frame : DataFrame) : Change → Except PyError DataFrame
  | .addField key value => frame.addField c key value
  | .setLast flag => .ok (frame.setLast flag)
  | .setPipeExeId id => frame.setPipeExeId c id

/-- The frame after a sequence of calls that all succeed. -/
def changed (c : Codec) : DataFrame → List Change → Except PyError DataFrame
  | frame, [] => .ok frame
  | frame, change :: changes => do
      let frame ← change.apply c frame
      changed c frame changes

/-- `DataFrame(data)` and then the calls. -/
def built (c : Codec) (data : PyVal) (changes : List Change) : Except PyError DataFrame := do
  let frame ← ofData c data
  changed c frame changes

/-- The call is made with a plain value. -/
def Change.Plain : Change → Prop
  | .addField _ value => Codec.Plain value
  | .setLast _ => True
  | .setPipeExeId id => Codec.Plain id

/-- Every field of the frame is one that the calls make. -/
def Built (frame : DataFrame) : Prop := ∀ item ∈ frame.fields.entries, Buildable item.2

/-- The frame fits its headers. -/
structure Sendable (c : Codec) (frame : DataFrame) : Prop where
  count_le : frame.fieldsNumber ≤ 255
  fields : ∀ item ∈ frame.fields.entries, item.2.Sendable c

theorem Built.setField {frame : DataFrame} (h : frame.Built) {f : DataField} (hf : Buildable f) :
    (frame.setField f).Built := by
  rintro ⟨key, g⟩ hitem
  rcases (frame.fields.mem_entries_set).mp hitem with ⟨rfl, rfl⟩ | ⟨-, hold⟩
  · exact hf
  · exact h _ hold

theorem ofValue_buildable {key : String} {v : PyVal} (h : Codec.Plain v) {f : DataField}
    (hf : DataField.ofValue c key v = .ok f) : Buildable f := by
  simp only [DataField.ofValue, Codec.getDataType_plain h, except_bind_eq_ok_iff, Except.ok.injEq,
    except_pure_eq_ok_iff] at hf
  obtain ⟨_, rfl, rfl⟩ := hf
  exact Or.inl ⟨h, rfl⟩

theorem Built.apply {frame frame' : DataFrame} (h : frame.Built) {change : Change} (hplain : change.Plain)
    (happly : change.apply c frame = .ok frame') : frame'.Built := by
  cases change with
  | addField key value =>
    simp only [Change.apply, addField, except_bind_eq_ok_iff] at happly
    obtain ⟨f, hf, hadd⟩ := happly
    rw [addFieldRaw] at hadd
    split at hadd
    · cases hadd
    split at hadd
    · cases hadd
    cases hadd
    exact h.setField (ofValue_buildable hplain hf)
  | setLast flag =>
    cases happly
    cases flag with
    | true => exact h.setField (Or.inr rfl)
    | false =>
      intro item hitem
      exact h item (List.mem_filter.mp hitem).1
  | setPipeExeId id =>
    simp only [Change.apply, setPipeExeId, except_bind_eq_ok_iff, except_pure_eq_ok_iff] at happly
    obtain ⟨f, hf, rfl⟩ := happly
    exact h.setField (ofValue_buildable hplain hf)

theorem Built.changed {changes : List Change} {frame frame' : DataFrame} (h : frame.Built)
    (hplain : ∀ change ∈ changes, change.Plain) (hchanged : changed c frame changes = .ok frame') :
    frame'.Built := by
  induction changes generalizing frame with
  | nil =>
    cases hchanged
    exact h
  | cons change changes ih =>
    simp only [DataFrame.changed, except_bind_eq_ok_iff] at hchanged
    obtain ⟨next, hnext, hrest⟩ := hchanged
    exact ih (h.apply (hplain change List.mem_cons_self) hnext)
      (fun change hmem => hplain change (List.mem_cons_of_mem _ hmem)) hrest

theorem built_of_built {data : PyVal} (hdata : data = .none ∨ Codec.Plain data) {changes : List Change}
    (hplain : ∀ change ∈ changes, change.Plain) {frame : DataFrame}
    (h : built c data changes = .ok frame) : frame.Built := by
  simp only [built, except_bind_eq_ok_iff] at h
  obtain ⟨first, hfirst, hchanged⟩ := h
  have hempty : empty.Built := fun item hitem => absurd hitem List.not_mem_nil
  refine Built.changed ?_ hplain hchanged
  rw [ofData] at hfirst
  split at hfirst
  · cases hfirst
    exact hempty
  · rename_i hsome
    simp only [except_bind_eq_ok_iff, except_pure_eq_ok_iff] at hfirst
    obtain ⟨f, hf, rfl⟩ := hfirst
    exact hempty.setField (ofValue_buildable (hdata.resolve_left hsome) hf)

/-- Of the frames that successful calls build from integers, strings and lists of these, `to_byte_arr` returns
for those that fit their headers. -/
theorem toByteArr_ok_iff (hint : c.handlerOf DType.u32.value = .ok none)
    (hmark : c.handlerOf DType.u8.value = .ok none) {data : PyVal}
    (hdata : data = .none ∨ Codec.Plain data) {changes : List Change}
    (hplain : ∀ change ∈ changes, change.Plain) {frame : DataFrame}
    (h : built c data changes = .ok frame) :
    (∃ arr, frame.toByteArr c = .ok arr) ↔ frame.Sendable c := by
  have hfields := fieldsToByteArr_ok_iff hint hmark (built_of_built hdata hplain h)
  simp only [toByteArr, except_bind_eq_ok_iff, toByte_eq_ok_iff, except_pure_eq_ok_iff]
  constructor
  · rintro ⟨_, _, ⟨hcount, -⟩, arr, harr, -⟩
    exact ⟨Nat.le_of_lt_succ hcount, hfields.mp ⟨arr, harr⟩⟩
  · intro hsendable
    obtain ⟨arr, harr⟩ := hfields.mpr hsendable.fields
    exact ⟨_, _, ⟨Nat.lt_succ_of_le hsendable.count_le, rfl⟩, arr, harr, rfl⟩

/-- A frame without default data, with a list under a user's key, and both setters. -/
theorem toByteArr_ok_lastFrame :
    ∃ frame, built Codec.emptyObjects .none
        [.addField "k" (.list [.int 300, .str "a"]), .setPipeExeId (.str "e1"), .setLast true] = .ok frame ∧
      ((∃ arr, frame.toByteArr Codec.emptyObjects = .ok arr) ↔ frame.Sendable Codec.emptyObjects) := by
  have hplain : ∀ change ∈ [Change.addField "k" (.list [.int 300, .str "a"]), .setPipeExeId (.str "e1"),
      .setLast true], change.Plain := by
    simp [Change.Plain, Codec.Plain, Codec.AllPlain]
  exact ⟨_, rfl, toByteArr_ok_iff rfl rfl (Or.inl rfl) hplain rfl⟩

/-! ## One field too many -/

/-- The key of `n` times the letter k. -/
def keyOf (n : ℕ) : String := String.ofList (List.replicate n 'k')

theorem keyOf_injective : Function.Injective keyOf := by
  intro m n h
  have hlength := congrArg List.length (String.ofList_injective h)
  rwa [List.length_replicate, List.length_replicate] at hlength

theorem keyOf_not_reserved (n : ℕ) : keyOf n ∉ reservedKeys := by
  have hall : ∀ ch ∈ (keyOf n).toList, ch = 'k' := by
    intro ch hch
    rw [keyOf, String.toList_ofList] at hch
    exact List.eq_of_mem_replicate hch
  intro hmem
  -- every reserved key has another letter
  have hletter : ∃ ch ∈ (keyOf n).toList, ch ≠ 'k' := by
    have hreserved : (reservedKeys.all fun key => key.toList.any fun ch => decide (ch ≠ 'k')) = true := by
      decide +kernel
    obtain ⟨ch, hch, hne⟩ := List.any_eq_true.mp (List.all_eq_true.mp hreserved _ hmem)
    exact ⟨ch, hch, of_decide_eq_true hne⟩
  obtain ⟨ch, hch, hne⟩ := hletter
  exact hne (hall ch hch)

/-- The calls that add the first `n` of these keys. -/
def manyFields : ℕ → List Change
  | 0 => []
  | n + 1 => manyFields n ++ [.addField (keyOf n) (.int 0)]

theorem plain_of_mem_manyFields {n : ℕ} : ∀ change ∈ manyFields n, change.Plain := by
  induction n with
  | zero => exact fun _ hmem => absurd hmem List.not_mem_nil
  | succ n ih =>
    intro change hmem
    rcases List.mem_append.mp hmem with hmem | hmem
    · exact ih change hmem
    · rw [List.mem_singleton] at hmem
      subst hmem
      exact trivial

theorem changed_append {frame : DataFrame} {xs ys : List Change} :
    changed c frame (xs ++ ys) = (changed c frame xs >>= fun next => changed c next ys) := by
  induction xs generalizing frame with
  | nil => rfl
  | cons change xs ih =>
    rw [List.cons_append, changed, changed]
    cases change.apply c frame with
    | error e => rfl
    | ok next => exact ih

theorem built_none {changes : List Change} : built c .none changes = changed c empty changes := rfl

/-- All calls up to the field after the limit succeed. -/
theorem changed_manyFields {n : ℕ} (hn : n ≤ maxFieldLimit + 1) :
    ∃ frame, changed c empty (manyFields n) = .ok frame ∧
      frame.fields.keys = (List.range n).map keyOf := by
  induction n with
  | zero => exact ⟨empty, rfl, rfl⟩
  | succ n ih =>
    obtain ⟨frame, hframe, hkeys⟩ := ih (by omega)
    have hsize : frame.fields.size = n := by
      rw [← Dict.length_keys, hkeys, List.length_map, List.length_range]
    have hnew : keyOf n ∉ frame.fields.keys := by
      rw [hkeys, List.mem_map]
      rintro ⟨m, hm, heq⟩
      rw [keyOf_injective heq] at hm
      exact absurd hm List.not_mem_range_self
    have hadd : frame.addField c (keyOf n) (.int 0)
        = .ok (frame.setField { key := keyOf n, value := .int 0, dType := DType.u32.value }) := by
      show frame.addFieldRaw _ false = _
      rw [addFieldRaw, if_neg fun h => keyOf_not_reserved n h.1, if_neg (by omega)]
    refine ⟨frame.setField { key := keyOf n, value := .int 0, dType := DType.u32.value }, ?_, ?_⟩
    · rw [manyFields, changed_append, hframe]
      show (frame.addField c (keyOf n) (.int 0) >>= _) = _
      rw [hadd]
      rfl
    · rw [setField, Dict.keys, Dict.entries_set_of_not_mem _ _ hnew, List.map_append, ← Dict.keys, hkeys,
        List.range_succ, List.map_append]
      rfl

/-- The limit is compared before the field is added: one more field is let in, and the frame cannot be sent. -/
theorem field_after_limit_not_sendable :
    (∀ change ∈ manyFields (maxFieldLimit + 1), change.Plain) ∧
      ∃ frame, built Codec.emptyObjects .none (manyFields (maxFieldLimit + 1)) = .ok frame ∧
        ¬ ∃ arr, frame.toByteArr Codec.emptyObjects = .ok arr := by
  refine ⟨plain_of_mem_manyFields, ?_⟩
  obtain ⟨frame, hframe, hkeys⟩ := changed_manyFields (c := Codec.emptyObjects) (Nat.le_refl (maxFieldLimit + 1))
  rw [← built_none] at hframe
  refine ⟨frame, hframe, ?_⟩
  rintro ⟨arr, harr⟩
  have hcount : frame.fieldsNumber = maxFieldLimit + 1 := by
    rw [fieldsNumber, ← Dict.length_keys, hkeys, List.length_map, List.length_range]
  rw [toByteArr, hcount] at harr
  cases harr

end DataFrame

end Upipe
