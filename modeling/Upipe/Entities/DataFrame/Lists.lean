import Upipe.Entities.DataFrame.Codec

/-!
# Lists through the codec

`payload` is the encoding of a list as one expression and `readBack` the value that comes back from it.
The encoder computes `payload` whenever every element fits its four-byte length (`dataToByteArr_eq`),
and the decoder computes `readBack` on it (`dataFromByteArr_payload`). The two differ from the identity
in one place: the decoder's loop ends before a last element whose payload is empty.
-/

namespace Upipe.Codec

open Upipe.Common

variable (c : Codec)

/-! ## The values -/

/-- `json.loads` inverts `json.dumps` on this value, and the text is never empty. -/
def JsonInverts (v : PyVal) : Prop := ∃ text, c.dumps v = .ok text ∧ text ≠ "" ∧ c.loads text = .ok v

mutual

/-- Integers of four bytes, strings, JSON objects, and lists of these. -/
def Listable : PyVal → Prop
  | .int n => 0 ≤ n ∧ n < 256 ^ 4
  | .str _ => True
  | .dict items => (∀ item ∈ items, ∃ s, item.1 = .str s) ∧ JsonInverts c (.dict items)
  | .list xs => AllListable xs
  | _ => False

def AllListable : List PyVal → Prop
  | [] => True
  | x :: xs => Listable x ∧ AllListable xs

end

/-- The type that `get_data_type` gives to one of these values. -/
def typeOf : PyVal → DType
  | .int _ => .u32
  | .str _ => .str
  | .list _ => .array
  | _ => .json

/-- One element of an encoded list. -/
def record (t : DType) (data : Bytes) : Bytes :=
  UInt8.ofNat t.value :: (leBytes 4 data.length ++ data)

mutual

/-- The encoding of a value, without the header that a list puts before it. -/
def payload : PyVal → Bytes
  | .int n => leBytes 4 n.toNat
  | .str s => encodeUtf8 s
  | .list xs => payloads xs
  | .dict items => (c.dumps (.dict items)).toOption.elim [] encodeUtf8
  | _ => []

/-- The records of the elements one after the other. -/
def payloads : List PyVal → Bytes
  | [] => []
  | x :: xs => record (typeOf x) (payload x) ++ payloads xs

end

mutual

/-- Every element of every list inside has a payload of less than `2 ^ 32` bytes. -/
def Fits : PyVal → Prop
  | .list xs => AllFit xs
  | _ => True

def AllFit : List PyVal → Prop
  | [] => True
  | x :: xs => (payload c x).length < 256 ^ 4 ∧ Fits x ∧ AllFit xs

end

mutual

/-- What the decoder makes of an encoded value. -/
def readBack : PyVal → PyVal
  | .list xs => .list (readBackAll xs)
  | v => v

/-- The elements that come back: all but a last one with an empty payload. -/
def readBackAll : List PyVal → List PyVal
  | [] => []
  | x :: xs =>
      if payload c x = [] ∧ xs = [] then [] else readBack x :: readBackAll xs

end

/-- The values with an empty payload. -/
def Blank (v : PyVal) : Prop := v = .str "" ∨ v = .list []

instance (v : PyVal) : Decidable (Blank v) := inferInstanceAs (Decidable (_ ∨ _))

mutual

/-- No list inside ends in an empty string or an empty list. -/
def EndsWell : PyVal → Prop
  | .list xs => AllEndWell xs
  | _ => True

def AllEndWell : List PyVal → Prop
  | [] => True
  | x :: xs => ¬ (Blank x ∧ xs = []) ∧ EndsWell x ∧ AllEndWell xs

end

/-! ## Encoding -/

variable {c}

theorem getDataType_listable {v : PyVal} (h : Listable c v) : c.getDataType v = .ok (typeOf v) := by
  cases v with
  | dict items =>
    obtain ⟨-, text, hdumps, -⟩ := h
    simp only [getDataType, isJsonable, hdumps]
    rfl
  | int n => rfl
  | str s => rfl
  | list xs => rfl
  | none | bool | float | tuple | ndarray | object => exact h.elim

/-- An element is blank exactly when its payload is empty. -/
theorem payload_eq_nil_iff {v : PyVal} (h : Listable c v) : payload c v = [] ↔ Blank v := by
  cases v with
  | int n => simp [payload, Blank, leBytes]
  | str s => simp [payload, Blank, encodeUtf8_eq_nil_iff]
  | list xs => cases xs <;> simp [payload, payloads, Blank, record]
  | dict items =>
    obtain ⟨-, text, hdumps, hne, -⟩ := h
    rw [payload, hdumps]
    simp [Except.toOption, encodeUtf8_eq_nil_iff, hne, Blank]
  | none | bool | float | tuple | ndarray | object => exact h.elim

theorem datumHeader_ok {t : DType} {n : ℕ} (h : n < 256 ^ 4) :
    datumHeader t n = .ok (UInt8.ofNat t.value :: leBytes 4 n) := by
  rw [datumHeader, toBytes_natCast t.value_lt, toBytes_natCast h]
  rfl

theorem datumHeader_too_big {t : DType} {n : ℕ} (h : 256 ^ 4 ≤ n) :
    datumHeader t n = .error ⟨.overflowError, "int too big to convert"⟩ := by
  rw [datumHeader, toBytes_natCast t.value_lt, toBytes_too_big h]
  rfl

mutual

/-- A value that fits is encoded as its payload. -/
theorem dataToByteArr_eq (hint : c.handlerOf DType.u32.value = .ok none) :
    ∀ {v : PyVal}, Listable c v → Fits c v →
      c.dataToByteArr v (typeOf v).value = .ok (payload c v)
  | .int n, h, _ => by
      obtain ⟨h0, hlt⟩ := h
      obtain ⟨m, rfl⟩ := Int.eq_ofNat_of_zero_le h0
      rw [dataToByteArr, typeOf, hint]
      · show toBytes m 4 = _
        rw [toBytes_natCast (by omega), payload, Int.toNat_natCast]
      all_goals
        intro _ hne
        cases hne
  | .str s, _, _ => by
      rw [dataToByteArr]
      rfl
  | .dict items, h, _ => by
      obtain ⟨-, text, hdumps, -⟩ := h
      rw [dataToByteArr, payload, hdumps]
      rfl
  | .list xs, h, hfit => by
      rw [dataToByteArr, payload]
      exact datumsToByteArr_eq hint h hfit

theorem datumsToByteArr_eq (hint : c.handlerOf DType.u32.value = .ok none) :
    ∀ {xs : List PyVal}, AllListable c xs → AllFit c xs →
      c.datumsToByteArr xs = .ok (payloads c xs)
  | [], _, _ => by rw [datumsToByteArr, payloads]
  | x :: xs, h, hfit => by
      obtain ⟨hx, hxs⟩ := h
      obtain ⟨hlen, hfx, hfxs⟩ := hfit
      rw [datumsToByteArr, getDataType_listable hx]
      show (c.dataToByteArr x (typeOf x).value >>= _) = _
      rw [dataToByteArr_eq hint hx hfx]
      show (datumHeader (typeOf x) (payload c x).length >>= _) = _
      rw [datumHeader_ok hlen]
      show (c.datumsToByteArr xs >>= _) = _
      rw [datumsToByteArr_eq hint hxs hfxs, payloads, record]
      simp only [List.cons_append, List.append_assoc]
      rfl

end

mutual

/-- A value with an element that does not fit is not encoded. -/
theorem fits_of_dataToByteArr :
    ∀ {v : PyVal}, Listable c v → ∀ {arr : Bytes},
      c.dataToByteArr v (typeOf v).value = .ok arr → c.handlerOf DType.u32.value = .ok none →
        Fits c v
  | .int _, _, _, _, _ => trivial
  | .str _, _, _, _, _ => trivial
  | .dict _, _, _, _, _ => trivial
  | .list xs, h, arr, hok, hint => by
      rw [dataToByteArr] at hok
      exact fit_of_datumsToByteArr h hok hint

theorem fit_of_datumsToByteArr :
    ∀ {xs : List PyVal}, AllListable c xs → ∀ {arr : Bytes},
      c.datumsToByteArr xs = .ok arr → c.handlerOf DType.u32.value = .ok none → AllFit c xs
  | [], _, _, _, _ => trivial
  | x :: xs, h, arr, hok, hint => by
      obtain ⟨hx, hxs⟩ := h
      rw [datumsToByteArr, getDataType_listable hx] at hok
      change (c.dataToByteArr x (typeOf x).value >>= _) = _ at hok
      cases hdata : c.dataToByteArr x (typeOf x).value with
      | error e => rw [hdata] at hok; cases hok
      | ok data =>
        have hfx : Fits c x := fits_of_dataToByteArr hx hdata hint
        rw [dataToByteArr_eq hint hx hfx] at hdata
        rw [dataToByteArr_eq hint hx hfx] at hok
        change (datumHeader (typeOf x) (payload c x).length >>= _) = _ at hok
        rcases Nat.lt_or_ge (payload c x).length (256 ^ 4) with hlen | hlen
        · rw [datumHeader_ok hlen] at hok
          change (c.datumsToByteArr xs >>= _) = _ at hok
          cases hrest : c.datumsToByteArr xs with
          | error e => rw [hrest] at hok; cases hok
          | ok rest => exact ⟨hlen, hfx, fit_of_datumsToByteArr hxs hrest hint⟩
        · rw [datumHeader_too_big hlen] at hok
          cases hok

end

/-! ## Decoding -/

private theorem payloads_eq_nil_iff {xs : List PyVal} : payloads c xs = [] ↔ xs = [] := by
  cases xs <;> simp [payloads, record]

section Record

variable {before rest data : Bytes} {t : DType}

private theorem length_record : (record t data).length = 5 + data.length := by
  rw [record, List.length_cons, List.length_append, length_leBytes]
  omega

/-- The size field of a record in the middle of an array. -/
private theorem slice_record_size :
    slice (before ++ (record t data ++ rest)) (before.length + 1) (before.length + 5)
      = leBytes 4 data.length := by
  rw [slice_append_right (by omega), slice_append_left (by rw [length_record]; omega),
    Nat.add_sub_cancel_left, Nat.add_sub_cancel_left, record, slice, List.take_succ_cons,
    List.drop_succ_cons, List.drop_zero]
  exact List.take_left' (length_leBytes 4 _)

/-- The payload of a record in the middle of an array. -/
private theorem slice_record_data :
    slice (before ++ (record t data ++ rest)) (before.length + 5)
      (before.length + 5 + data.length) = data := by
  rw [slice_append_right (by omega), slice_append_left (by rw [length_record]; omega), record,
    show before.length + 5 - before.length = 5 from by omega,
    show before.length + 5 + data.length - before.length = 5 + data.length from by omega,
    slice_eq_take_drop, List.drop_succ_cons, List.drop_left' (length_leBytes 4 _)]
  exact List.take_length

end Record

mutual

/-- The decoder turns a payload into what `readBack` says. -/
theorem dataFromByteArr_payload :
    ∀ {v : PyVal}, Listable c v → Fits c v →
      c.dataFromByteArr (payload c v) (typeOf v).value = .ok (readBack c v)
  | .int n, h, _ => by
      obtain ⟨h0, hlt⟩ := h
      have hvalue : leValue (leBytes 4 n.toNat) = n.toNat := leValue_leBytes (by omega)
      rw [dataFromByteArr, payload, hvalue, Int.toNat_of_nonneg h0]
      rfl
  | .str s, _, _ => by
      rw [dataFromByteArr, payload, decodeUtf8_encodeUtf8]
      rfl
  | .dict items, h, _ => by
      obtain ⟨-, text, hdumps, -, hloads⟩ := h
      rw [dataFromByteArr, payload, hdumps]
      show (decodeUtf8 (encodeUtf8 text) >>= c.loads) = _
      rw [decodeUtf8_encodeUtf8]
      exact hloads
  | .list xs, h, hfit => by
      have hloop := datumsFromByteArr_payloads h hfit []
      rw [List.nil_append, List.length_nil] at hloop
      rw [dataFromByteArr, payload, hloop]
      rfl

/-- The loop of the decoder, started behind what it has read already. -/
theorem datumsFromByteArr_payloads :
    ∀ {xs : List PyVal}, AllListable c xs → AllFit c xs → ∀ before : Bytes,
      c.datumsFromByteArr (before ++ payloads c xs) before.length = .ok (readBackAll c xs)
  | [], _, _, before => by
      rw [datumsFromByteArr, payloads, List.append_nil, dif_neg (by omega)]
      rfl
  | x :: xs, h, hfit, before => by
      obtain ⟨hx, hxs⟩ := h
      obtain ⟨hlen, hfx, hfxs⟩ := hfit
      have hlength : (before ++ (record (typeOf x) (payload c x) ++ payloads c xs)).length
          = before.length + (5 + (payload c x).length + (payloads c xs).length) := by
        rw [List.length_append, List.length_append, length_record]
      rw [datumsFromByteArr, payloads, readBackAll]
      by_cases hend : payload c x = [] ∧ xs = []
      · -- five bytes are left, and the loop wants a sixth
        have hrest := (payloads_eq_nil_iff (c := c)).mpr hend.2
        rw [if_pos hend, dif_neg (by
          rw [hlength, hend.1, hrest, List.length_nil]
          omega)]
        rfl
      · have hmore : 0 < (payload c x).length + (payloads c xs).length := by
          rw [← payloads_eq_nil_iff (c := c), ← List.length_eq_zero_iff,
            ← List.length_eq_zero_iff] at hend
          omega
        have hnext := datumsFromByteArr_payloads hxs hfxs
          (before ++ record (typeOf x) (payload c x))
        rw [List.append_assoc, List.length_append, length_record, ← Nat.add_assoc] at hnext
        have hlt : before.length
            < (before ++ (record (typeOf x) (payload c x) ++ payloads c xs)).length := by
          rw [hlength]
          omega
        have htype : (before ++ (record (typeOf x) (payload c x) ++ payloads c xs))[before.length]
            = UInt8.ofNat (typeOf x).value := by
          rw [List.getElem_append_right (Nat.le_refl _)]
          simp [record]
        rw [if_neg hend, dif_pos (by rw [hlength]; omega), htype, slice_record_size,
          leValue_leBytes hlen, UInt8.toNat_ofNat', Nat.mod_eq_of_lt (typeOf x).value_lt,
          DType.ofValue_value]
        dsimp only
        rw [slice_record_data, hnext]
        show (c.dataFromByteArr (payload c x) (typeOf x).value >>= _) = _
        rw [dataFromByteArr_payload hx hfx]
        rfl

end

mutual

/-- A value comes back whole exactly when no list inside ends in a blank. -/
theorem readBack_eq_self_iff : ∀ {v : PyVal}, Listable c v → (readBack c v = v ↔ EndsWell v)
  | .int _, _ => iff_of_true rfl trivial
  | .str _, _ => iff_of_true rfl trivial
  | .dict _, _ => iff_of_true rfl trivial
  | .list xs, h => by
      rw [readBack, PyVal.list.injEq, EndsWell]
      exact readBackAll_eq_self_iff h

theorem readBackAll_eq_self_iff :
    ∀ {xs : List PyVal}, AllListable c xs → (readBackAll c xs = xs ↔ AllEndWell xs)
  | [], _ => iff_of_true rfl trivial
  | x :: xs, h => by
      obtain ⟨hx, hxs⟩ := h
      rw [readBackAll, AllEndWell, ← payload_eq_nil_iff hx]
      by_cases hend : payload c x = [] ∧ xs = []
      · rw [if_pos hend]
        exact iff_of_false (fun heq => List.cons_ne_nil _ _ heq.symm) (fun hwell => hwell.1 hend)
      · rw [if_neg hend, List.cons.injEq, readBack_eq_self_iff hx, readBackAll_eq_self_iff hxs]
        exact (and_iff_right hend).symm

end

/-! ## The round trip -/

/-- A list of these values comes back unchanged exactly when every element fits its length field and
no list, at any depth, ends in an empty string or an empty list. -/
theorem list_roundTrip_iff (hint : c.handlerOf DType.u32.value = .ok none) {xs : List PyVal}
    (h : Listable c (.list xs)) :
    (∃ arr, c.dataToByteArr (.list xs) DType.array.value = .ok arr ∧
        c.dataFromByteArr arr DType.array.value = .ok (.list xs))
      ↔ Fits c (.list xs) ∧ EndsWell (.list xs) := by
  constructor
  · rintro ⟨arr, hencode, hdecode⟩
    have hfit := fits_of_dataToByteArr h hencode hint
    have hencode' := dataToByteArr_eq hint h hfit
    rw [show (typeOf (.list xs)).value = DType.array.value from rfl, hencode] at hencode'
    rw [Except.ok.inj hencode'] at hdecode
    have hback := dataFromByteArr_payload h hfit
    rw [show (typeOf (.list xs)).value = DType.array.value from rfl, hdecode] at hback
    exact ⟨hfit, (readBack_eq_self_iff h).mp (Except.ok.inj hback).symm⟩
  · rintro ⟨hfit, hwell⟩
    refine ⟨payload c (.list xs), dataToByteArr_eq hint h hfit, ?_⟩
    have hback := dataFromByteArr_payload h hfit
    rw [(readBack_eq_self_iff h).mpr hwell] at hback
    exact hback

/-- A codec whose `json` knows the empty object only. -/
def emptyObjects : Codec where
  dumps v := if v = .dict [] then .ok "{}" else .error ⟨.typeError, "not JSON serializable"⟩
  loads text := if text = "{}" then .ok (.dict []) else .error ⟨.valueError, "Expecting value"⟩
  typeHandlers := builtinHandlers ⟨fun _ => .ok [], fun _ => .ok .none⟩

theorem emptyObjects_jsonInverts : JsonInverts emptyObjects (.dict []) :=
  ⟨"{}", by decide, by decide, by decide⟩

/-- A nested list with blanks in the middle comes back unchanged. -/
theorem list_roundTrip_nested :
    ∃ arr, emptyObjects.dataToByteArr
        (.list [.int 7, .str "", .list [.list [], .str "a"], .dict []]) DType.array.value = .ok arr ∧
      emptyObjects.dataFromByteArr arr DType.array.value
        = .ok (.list [.int 7, .str "", .list [.list [], .str "a"], .dict []]) := by
  refine (list_roundTrip_iff rfl ?_).mpr ⟨?_, ?_⟩
  · simp [Listable, AllListable, emptyObjects_jsonInverts]
  · simp [Fits, AllFit, payload, payloads, record, emptyObjects, encodeUtf8, Except.toOption]
    decide
  · simp [EndsWell, AllEndWell, Blank]

/-- The list of one empty string comes back empty. -/
theorem blank_end_lost :
    Listable emptyObjects (.list [.str ""]) ∧
      ¬ ∃ arr, emptyObjects.dataToByteArr (.list [.str ""]) DType.array.value = .ok arr ∧
        emptyObjects.dataFromByteArr arr DType.array.value = .ok (.list [.str ""]) := by
  have hlist : Listable emptyObjects (.list [.str ""]) := ⟨trivial, trivial⟩
  have hfit : Fits emptyObjects (.list [.str ""]) := ⟨by decide, trivial, trivial⟩
  refine ⟨hlist, ?_⟩
  rintro ⟨arr, hencode, hdecode⟩
  have hpayload := dataToByteArr_eq (c := emptyObjects) rfl hlist hfit
  have hback := dataFromByteArr_payload hlist hfit
  rw [show (typeOf (.list [.str ""])).value = DType.array.value from rfl] at hpayload hback
  rw [hencode] at hpayload
  rw [← Except.ok.inj hpayload, hdecode, readBack, readBackAll] at hback
  cases Except.ok.inj hback

end Upipe.Codec
