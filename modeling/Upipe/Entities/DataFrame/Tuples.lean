import Upipe.Common.PyJson
import Upipe.Entities.DataFrame.Codec

/-!
# Tuples through the codec

A tuple is written as one JSON text, in which a tuple and a list look alike. The decoder makes a tuple of the
outermost array; `asRead` is what the arrays below it become. A tuple comes back as it was exactly when there is no
other one inside it.
-/

namespace Upipe.Codec

open Upipe.Common

/-! ## The values -/

mutual

/-- Integers, strings, booleans, `None`, lists, tuples and dictionaries under strings, nested in any way. -/
def JsonPlain : PyVal → Prop
  | .none | .bool _ | .int _ | .str _ => True
  | .list xs | .tuple xs => AllJsonPlain xs
  | .dict items => (items.map Prod.fst).Nodup ∧ ItemsJsonPlain items
  | .float _ | .ndarray _ | .object _ => False

def AllJsonPlain : List PyVal → Prop
  | [] => True
  | x :: xs => JsonPlain x ∧ AllJsonPlain xs

def ItemsJsonPlain : List (PyVal × PyVal) → Prop
  | [] => True
  | (key, x) :: items => isStr key = true ∧ JsonPlain x ∧ ItemsJsonPlain items

end

mutual

/-- There is no tuple in the value. -/
def TupleFree : PyVal → Prop
  | .tuple _ => False
  | .list xs => AllTupleFree xs
  | .dict items => ItemsTupleFree items
  | _ => True

def AllTupleFree : List PyVal → Prop
  | [] => True
  | x :: xs => TupleFree x ∧ AllTupleFree xs

def ItemsTupleFree : List (PyVal × PyVal) → Prop
  | [] => True
  | (_, x) :: items => TupleFree x ∧ ItemsTupleFree items

end

mutual

/-- What comes back from the text of a value: every array is read as a list. -/
def asRead : PyVal → PyVal
  | .list xs | .tuple xs => .list (asReadAll xs)
  | .dict items => .dict (asReadItems items)
  | v => v

def asReadAll : List PyVal → List PyVal
  | [] => []
  | x :: xs => asRead x :: asReadAll xs

def asReadItems : List (PyVal × PyVal) → List (PyVal × PyVal)
  | [] => []
  | (key, x) :: items => (key, asRead x) :: asReadItems items

end

/-- `json` on one value: it writes the value's document, and reads from it what the document says. -/
structure UsesJson (c : Codec) (rt : PyRuntime) (v : PyVal) : Prop where
  dumps_eq : c.dumps v = rt.dumps false v
  loads_eq : ∀ text, c.dumps v = .ok text → c.loads text = rt.roundTrip v

/-- The value, written with the type that `get_data_type` gives it and read with the same type, is itself again. -/
def ComesBack (c : Codec) (v : PyVal) : Prop :=
  ∃ t arr, c.getDataType v = .ok t ∧ c.dataToByteArr v t.value = .ok arr ∧ c.dataFromByteArr arr t.value = .ok v

/-! ## The documents -/

variable {c : Codec} {rt : PyRuntime}

theorem keys_asReadItems (items : List (PyVal × PyVal)) : (asReadItems items).map Prod.fst = items.map Prod.fst := by
  induction items with
  | nil => rfl
  | cons item items ih =>
    obtain ⟨key, x⟩ := item
    rw [asReadItems, List.map_cons, List.map_cons, ih]

mutual

/-- `json` reads a value as `asRead` says. -/
theorem document_jsonPlain : ∀ {v : PyVal}, JsonPlain v → ∃ j, rt.document false v = .ok j ∧ j.value = asRead v
  | .none, _ => ⟨_, rfl, rfl⟩
  | .bool _, _ => ⟨_, rfl, rfl⟩
  | .int _, _ => ⟨_, rfl, rfl⟩
  | .str _, _ => ⟨_, rfl, rfl⟩
  | .list xs, h => by
      obtain ⟨js, hjs, hvalues⟩ := documents_jsonPlain h
      refine ⟨.arr js, PyRuntime.document_list.mpr ⟨js, hjs, rfl⟩, ?_⟩
      rw [Json.value, asRead, hvalues]
  | .tuple xs, h => by
      obtain ⟨js, hjs, hvalues⟩ := documents_jsonPlain h
      rw [PyRuntime.document_tuple]
      refine ⟨.arr js, PyRuntime.document_list.mpr ⟨js, hjs, rfl⟩, ?_⟩
      rw [Json.value, asRead, hvalues]
  | .dict items, h => by
      obtain ⟨hnodup, hitems⟩ := h
      obtain ⟨ms, hms, hvalues⟩ := documentMembers_jsonPlain hitems
      refine ⟨.obj (ms.map Prod.snd), PyRuntime.document_dict_plain.mpr ⟨ms, hms, rfl⟩, ?_⟩
      have htexts : (ms.map fun m => m.2.1).Nodup := by
        rw [← keys_asReadItems, ← hvalues, List.map_map] at hnodup
        refine List.Nodup.of_map PyVal.str ?_
        rw [List.map_map]
        exact hnodup
      rw [PyRuntime.value_obj_of_nodup htexts, hvalues, asRead]

theorem documents_jsonPlain : ∀ {xs : List PyVal}, AllJsonPlain xs →
    ∃ js, rt.documents false xs = .ok js ∧ Json.values js = asReadAll xs
  | [], _ => ⟨[], rfl, rfl⟩
  | x :: xs, h => by
      obtain ⟨j, hj, hvalue⟩ := document_jsonPlain h.1
      obtain ⟨js, hjs, hvalues⟩ := documents_jsonPlain h.2
      refine ⟨j :: js, PyRuntime.documents_cons.mpr ⟨j, js, hj, hjs, rfl⟩, ?_⟩
      rw [Json.values, asReadAll, hvalue, hvalues]

theorem documentMembers_jsonPlain : ∀ {items : List (PyVal × PyVal)}, ItemsJsonPlain items →
    ∃ ms, rt.documentMembers false items = .ok ms ∧
      ms.map (fun m => (PyVal.str m.2.1, m.2.2.value)) = asReadItems items
  | [], _ => ⟨[], rfl, rfl⟩
  | (.str s, x) :: items, h => by
      obtain ⟨-, hx, hitems⟩ := h
      obtain ⟨j, hj, hvalue⟩ := document_jsonPlain hx
      obtain ⟨ms, hms, hvalues⟩ := documentMembers_jsonPlain hitems
      refine ⟨(.str s, s, j) :: ms, PyRuntime.documentMembers_cons.mpr ⟨s, j, ms, rfl, hj, hms, rfl⟩, ?_⟩
      rw [List.map_cons, asReadItems, hvalue, hvalues]

end

theorem roundTrip_jsonPlain {v : PyVal} (h : JsonPlain v) : rt.roundTrip v = .ok (asRead v) := by
  obtain ⟨j, hj, hvalue⟩ := document_jsonPlain h
  exact PyRuntime.roundTrip_eq_ok_iff.mpr ⟨j, hj, hvalue.symm⟩

theorem UsesJson.exists_text {v : PyVal} (h : c.UsesJson rt v) (hplain : JsonPlain v) :
    ∃ text, c.dumps v = .ok text ∧ c.loads text = .ok (asRead v) := by
  obtain ⟨j, hj, -⟩ := document_jsonPlain hplain
  have hdumps : c.dumps v = .ok (String.ofList (j.map rt.token).render) :=
    h.dumps_eq.trans (PyRuntime.dumps_eq_ok_iff.mpr ⟨j, hj, rfl⟩)
  exact ⟨_, hdumps, (h.loads_eq _ hdumps).trans (roundTrip_jsonPlain hplain)⟩

mutual

/-- A value is read as it was written exactly when there is no tuple in it. -/
theorem asRead_eq_self_iff : ∀ v : PyVal, asRead v = v ↔ TupleFree v
  | .none => iff_of_true rfl trivial
  | .bool _ => iff_of_true rfl trivial
  | .int _ => iff_of_true rfl trivial
  | .float _ => iff_of_true rfl trivial
  | .str _ => iff_of_true rfl trivial
  | .ndarray _ => iff_of_true rfl trivial
  | .object _ => iff_of_true rfl trivial
  | .list xs => by
      rw [asRead, PyVal.list.injEq, TupleFree]
      exact asReadAll_eq_self_iff xs
  | .tuple xs => by
      rw [asRead]
      exact iff_of_false PyVal.noConfusion id
  | .dict items => by
      rw [asRead, PyVal.dict.injEq, TupleFree]
      exact asReadItems_eq_self_iff items

theorem asReadAll_eq_self_iff : ∀ xs : List PyVal, asReadAll xs = xs ↔ AllTupleFree xs
  | [] => iff_of_true rfl trivial
  | x :: xs => by rw [asReadAll, List.cons.injEq, AllTupleFree, asRead_eq_self_iff x, asReadAll_eq_self_iff xs]

theorem asReadItems_eq_self_iff : ∀ items : List (PyVal × PyVal), asReadItems items = items ↔ ItemsTupleFree items
  | [] => iff_of_true rfl trivial
  | (key, x) :: items => by
      rw [asReadItems, List.cons.injEq, Prod.mk.injEq, ItemsTupleFree, asRead_eq_self_iff x,
        asReadItems_eq_self_iff items]
      exact and_congr_left' (and_iff_right rfl)

end

theorem allTupleFree_iff {xs : List PyVal} : AllTupleFree xs ↔ ∀ x ∈ xs, TupleFree x := by
  induction xs with
  | nil => exact iff_of_true trivial (List.forall_mem_nil _)
  | cons x xs ih => rw [AllTupleFree, ih, List.forall_mem_cons]

/-! ## The round trip -/

/-- What comes back from the encoding of a tuple: the outermost array is a tuple again, the others are lists. -/
theorem tuple_readBack {xs : List PyVal} (hplain : JsonPlain (.tuple xs)) (hjson : c.UsesJson rt (.tuple xs)) :
    ∃ arr, c.dataToByteArr (.tuple xs) DType.tuple.value = .ok arr ∧
      c.dataFromByteArr arr DType.tuple.value = .ok (.tuple (asReadAll xs)) := by
  obtain ⟨text, hdumps, hloads⟩ := hjson.exists_text hplain
  refine ⟨encodeUtf8 text, ?_, ?_⟩
  · rw [dataToByteArr, hdumps]
    rfl
  · rw [dataFromByteArr, decodeUtf8_encodeUtf8]
    show (c.loads text >>= toTuple) = _
    rw [hloads, asRead]
    rfl

/-- A tuple comes back as it was exactly when there is no tuple below it. -/
theorem tuple_comesBack_iff {xs : List PyVal} (hplain : JsonPlain (.tuple xs)) (hjson : c.UsesJson rt (.tuple xs)) :
    c.ComesBack (.tuple xs) ↔ ∀ x ∈ xs, TupleFree x := by
  obtain ⟨arr, hencode, hdecode⟩ := tuple_readBack hplain hjson
  rw [← allTupleFree_iff, ← asReadAll_eq_self_iff]
  constructor
  · rintro ⟨t, arr', ht, hencode', hdecode'⟩
    obtain rfl := Except.ok.inj ht
    obtain rfl := Except.ok.inj (hencode.symm.trans hencode')
    exact PyVal.tuple.inj (Except.ok.inj (hdecode.symm.trans hdecode'))
  · intro hsame
    rw [hsame] at hdecode
    exact ⟨.tuple, arr, rfl, hencode, hdecode⟩

/-! ## A flat tuple and a pair in a tuple -/

/-- A codec whose `json` can read the text of one value only. -/
def jsonOf (v : PyVal) : Codec where
  dumps := plainRuntime.dumps false
  loads text := if plainRuntime.dumps false v = .ok text then plainRuntime.roundTrip v
    else .error ⟨.valueError, "Expecting value"⟩
  typeHandlers := builtinHandlers ⟨fun _ => .ok [], fun _ => .ok .none⟩

theorem usesJson_jsonOf (v : PyVal) : (jsonOf v).UsesJson plainRuntime v where
  dumps_eq := rfl
  loads_eq _ htext := if_pos htext

/-- `(1, "1", [2, True], {"i": None})`. -/
def flatTuple : List PyVal := [.int 1, .str "1", .list [.int 2, .bool true], .dict [(.str "i", .none)]]

theorem jsonPlain_flatTuple : JsonPlain (.tuple flatTuple) := by
  simp [flatTuple, JsonPlain, AllJsonPlain, ItemsJsonPlain, isStr]

theorem tuple_comesBack_flatTuple :
    (jsonOf (.tuple flatTuple)).ComesBack (.tuple flatTuple) ↔ ∀ x ∈ flatTuple, TupleFree x :=
  tuple_comesBack_iff jsonPlain_flatTuple (usesJson_jsonOf _)

/-- Of `(1, (2,))` the inner tuple comes back as a list. -/
theorem inner_tuple_comesBack_as_list :
    JsonPlain (.tuple [.int 1, .tuple [.int 2]]) ∧
      (jsonOf (.tuple [.int 1, .tuple [.int 2]])).UsesJson plainRuntime (.tuple [.int 1, .tuple [.int 2]]) ∧
      ¬ (jsonOf (.tuple [.int 1, .tuple [.int 2]])).ComesBack (.tuple [.int 1, .tuple [.int 2]]) := by
  have hplain : JsonPlain (.tuple [.int 1, .tuple [.int 2]]) := by simp [JsonPlain, AllJsonPlain]
  refine ⟨hplain, usesJson_jsonOf _, ?_⟩
  rintro ⟨t, arr, ht, hencode, hdecode⟩
  obtain rfl := Except.ok.inj ht
  obtain ⟨arr', hencode', hdecode'⟩ := tuple_readBack hplain (usesJson_jsonOf _)
  obtain rfl := Except.ok.inj (hencode.symm.trans hencode')
  have hback := PyVal.tuple.inj (Except.ok.inj (hdecode.symm.trans hdecode'))
  revert hback
  decide

end Upipe.Codec
