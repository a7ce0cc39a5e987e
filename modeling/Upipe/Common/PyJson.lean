import Mathlib.Data.List.Sort
import Mathlib.Data.Prod.Lex
import Mathlib.Order.RelIso.Basic
import Upipe.Common.Dict
import Upipe.Common.Json
import Upipe.Common.PyVal
import Upipe.Common.Python

/-!
# Python's `json`

`document` is what `json.dumps` writes, as a tree: the keys of a dictionary become strings, a tuple is
written like a list, and with `sort_keys` the items of each dictionary are sorted by their keys as they
were before. `value` is what `json.loads` reads.

Sorting and conversion do not commute: `{10: .., 9: ..}` is sorted as numbers, but read back it is sorted
as strings. `document_value` says that a document is written again as it is when its keys are strictly
increasing, and `value_good` that every document read back is written in that order.
-/

namespace Upipe.Common

/-- The constants and numbers of a document. -/
inductive Scalar where
  | null
  | bool (b : Bool)
  | int (n : ℤ)
  | float (bits : UInt64)
deriving DecidableEq

/-- What is left to the interpreter: the text of a finite float, and the places into which `list.sort`
brings keys without a total order, among which there is a NaN. -/
structure PyRuntime where
  floatRepr : UInt64 → Token
  nanOrder : List PyVal → List ℕ
  nanOrder_perm : ∀ keys, (nanOrder keys).Perm (List.range keys.length)

/-! ## Numbers -/

/-- A NaN. -/
def isNan (bits : UInt64) : Bool := bits.toNat / 2 ^ 52 % 2 ^ 11 = 2047 ∧ bits.toNat % 2 ^ 52 ≠ 0

/-- The float that its text is read as: all NaNs have one text. -/
def canonicalFloat (bits : UInt64) : UInt64 := if isNan bits then 0x7ff8000000000000 else bits

@[simp] theorem canonicalFloat_idem (bits : UInt64) :
    canonicalFloat (canonicalFloat bits) = canonicalFloat bits := by
  unfold canonicalFloat
  split
  · decide
  · rfl

/-- The value of a float: an infinity, or a multiple of `2^-1074`. -/
def floatRank (bits : UInt64) : Option (ℤ × ℤ) :=
  let sign : ℤ := if bits.toNat / 2 ^ 63 = 1 then -1 else 1
  let exponent : ℕ := bits.toNat / 2 ^ 52 % 2 ^ 11
  let fraction : ℕ := bits.toNat % 2 ^ 52
  if exponent = 2047 then if fraction = 0 then some (sign, 0) else none
  else
    let magnitude := if exponent = 0 then fraction else (2 ^ 52 + fraction) * 2 ^ (exponent - 1)
    some (0, sign * magnitude)

/-- The value of a number, to be compared with others. -/
def rank : PyVal → Option (ℤ × ℤ)
  | .bool b => some (0, b.toNat * 2 ^ 1074)
  | .int n => some (0, n * 2 ^ 1074)
  | .float bits => floatRank bits
  | _ => none

def isNumber : PyVal → Bool
  | .bool _ | .int _ | .float _ => true
  | _ => false

/-- The decimal digits of an integer. -/
def intChars : ℤ → List Char
  | .ofNat n => Nat.toDigits 10 n
  | .negSucc n => '-' :: Nat.toDigits 10 (n + 1)

theorem isTokenChar_of_mem_toDigits {n : ℕ} {c : Char} (h : c ∈ Nat.toDigits 10 n) : isTokenChar c := by
  have hdigit := Nat.isDigit_of_mem_toDigits (by decide) (by decide) h
  unfold isTokenChar
  apply decide_eq_true
  intro hmem
  simp only [List.mem_cons, List.not_mem_nil, or_false] at hmem
  rcases hmem with rfl | rfl | rfl | rfl | rfl | rfl <;> cases hdigit

def intToken (n : ℤ) : Token where
  chars := intChars n
  nonempty := by
    cases n with
    | ofNat n => exact Nat.toDigits_ne_nil
    | negSucc n => exact List.cons_ne_nil _ _
  plain := by
    intro c hc
    cases n with
    | ofNat n => exact isTokenChar_of_mem_toDigits hc
    | negSucc n =>
      rcases List.mem_cons.mp hc with rfl | hc
      · rfl
      · exact isTokenChar_of_mem_toDigits hc

def constantToken (s : String) (h : s.toList ≠ [] ∧ s.toList.all isTokenChar = true) : Token :=
  ⟨s.toList, h.1, List.all_eq_true.mp h.2⟩

namespace PyRuntime

variable (rt : PyRuntime)

/-- `floatstr`. -/
def floatToken (bits : UInt64) : Token :=
  match floatRank bits with
  | none => constantToken "NaN" (by decide)
  | some (1, _) => constantToken "Infinity" (by decide)
  | some (-1, _) => constantToken "-Infinity" (by decide)
  | some _ => rt.floatRepr bits

/-- The text of a constant or a number. -/
def token : Scalar → Token
  | .null => constantToken "null" (by decide)
  | .bool true => constantToken "true" (by decide)
  | .bool false => constantToken "false" (by decide)
  | .int n => intToken n
  | .float bits => rt.floatToken bits

/-! ## Keys -/

/-- The string that a key becomes. -/
def keyString? : PyVal → Option String
  | .str s => some s
  | .none => some (String.ofList (rt.token .null).chars)
  | .bool b => some (String.ofList (rt.token (.bool b)).chars)
  | .int n => some (String.ofList (rt.token (.int n)).chars)
  | .float bits => some (String.ofList (rt.token (.float bits)).chars)
  | _ => none

/-- The string that a key becomes, or TypeError. -/
def keyString (key : PyVal) : Except PyError String :=
  match rt.keyString? key with
  | some s => .ok s
  | none => .error ⟨.typeError, "keys must be str, int, float, bool or None"⟩

end PyRuntime

def isStr : PyVal → Bool
  | .str _ => true
  | _ => false

/-- The string of a string key. -/
def strOf : PyVal → String
  | .str s => s
  | _ => ""

/-- The value of a number key. -/
def rankOf (key : PyVal) : ℤ ×ₗ ℤ := toLex ((rank key).getD (0, 0))

/-- `list.sort` compares the keys, all strings or all numbers. -/
def checkOrder (keys : List PyVal) : Except PyError Unit :=
  if keys.length ≤ 1 ∨ keys.all isStr ∨ keys.all isNumber then .ok ()
  else .error ⟨.typeError, "'<' not supported between instances"⟩

namespace PyRuntime

variable (rt : PyRuntime)

/-- `list.sort` on items with the given keys. -/
def sortBy {γ : Type} (key : γ → PyVal) (xs : List γ) : List γ :=
  if xs.all (fun x => isStr (key x)) then xs.insertionSort fun x y => strOf (key x) ≤ strOf (key y)
  else if xs.all (fun x => (rank (key x)).isSome) then
    xs.insertionSort fun x y => rankOf (key x) ≤ rankOf (key y)
  else (rt.nanOrder (xs.map key)).filterMap (xs[·]?)

/-! ## Documents -/

mutual

/-- What `json.dumps` writes, with `sort_keys` or without. -/
def document (sort : Bool) : PyVal → Except PyError (Json Scalar)
  | .none => .ok (.atom .null)
  | .bool b => .ok (.atom (.bool b))
  | .int n => .ok (.atom (.int n))
  | .float bits => .ok (.atom (.float (canonicalFloat bits)))
  | .str s => .ok (.str s)
  | .list xs | .tuple xs => do
      let elements ← documents sort xs
      pure (.arr elements)
  | .dict items => do
      if sort then checkOrder (items.map Prod.fst)
      let members ← documentMembers sort items
      pure (.obj ((if sort then rt.sortBy Prod.fst members else members).map Prod.snd))
  | .ndarray _ | .object _ => .error ⟨.typeError, "Object is not JSON serializable"⟩

def documents (sort : Bool) : List PyVal → Except PyError (List (Json Scalar))
  | [] => .ok []
  | x :: xs => do
      let j ← document sort x
      let js ← documents sort xs
      pure (j :: js)

/-- The members of a dictionary's document, beside the keys they come from. -/
def documentMembers (sort : Bool) : List (PyVal × PyVal) →
    Except PyError (List (PyVal × String × Json Scalar))
  | [] => .ok []
  | (key, x) :: items => do
      let text ← rt.keyString key
      let j ← document sort x
      let members ← documentMembers sort items
      pure ((key, text, j) :: members)

end

/-- `json.dumps`. -/
def dumps (sort : Bool) (v : PyVal) : Except PyError String := do
  let j ← rt.document sort v
  pure (String.ofList (j.map rt.token).render)

end PyRuntime

/-- The value of an atom. -/
def Scalar.value : Scalar → PyVal
  | .null => .none
  | .bool b => .bool b
  | .int n => .int n
  | .float bits => .float (canonicalFloat bits)

namespace Json

mutual

/-- What `json.loads` reads from the text of a document. -/
def value : Json Scalar → PyVal
  | .atom a => a.value
  | .str s => .str s
  | .arr xs => .list (values xs)
  | .obj ms => .dict ((Dict.ofList (memberValues ms)).entries.map fun item => (.str item.1, item.2))

def values : List (Json Scalar) → List PyVal
  | [] => []
  | x :: xs => value x :: values xs

def memberValues : List (String × Json Scalar) → List (String × PyVal)
  | [] => []
  | (key, x) :: ms => (key, value x) :: memberValues ms

end

end Json

/-- `json.loads(json.dumps(v))`. -/
def PyRuntime.roundTrip (rt : PyRuntime) (v : PyVal) : Except PyError PyVal := do
  let j ← rt.document false v
  pure j.value

namespace PyRuntime

variable (rt : PyRuntime)

mutual

/-- In each dictionary the keys, as `sort_keys` sorts them, become strictly increasing strings. -/
def InTextOrder : PyVal → Prop
  | .list xs | .tuple xs => InTextOrderAll xs
  | .dict items =>
      ((rt.sortBy id (items.map Prod.fst)).filterMap rt.keyString?).Pairwise (· < ·) ∧
        InTextOrderItems items
  | _ => True

def InTextOrderAll : List PyVal → Prop
  | [] => True
  | x :: xs => InTextOrder x ∧ InTextOrderAll xs

def InTextOrderItems : List (PyVal × PyVal) → Prop
  | [] => True
  | (_, x) :: items => InTextOrder x ∧ InTextOrderItems items

end

/-! ## Sorting -/

variable {rt} {γ δ : Type}

/-- Sorting looks at the keys only. -/
theorem map_sortBy (f : γ → δ) (key : γ → PyVal) (key' : δ → PyVal) (hkey : ∀ x, key' (f x) = key x)
    (xs : List γ) : (rt.sortBy key xs).map f = rt.sortBy key' (xs.map f) := by
  have hkeys : (xs.map f).map key' = xs.map key := by
    rw [List.map_map]
    exact List.map_congr_left fun x _ => hkey x
  unfold sortBy
  simp only [List.all_map, Function.comp_def, hkey, hkeys]
  split
  · exact List.map_insertionSort _ _ f xs fun x _ y _ => by rw [hkey, hkey]
  split
  · exact List.map_insertionSort _ _ f xs fun x _ y _ => by rw [hkey, hkey]
  · rw [List.map_filterMap]
    simp only [List.getElem?_map]

theorem filterMap_getElem?_range (xs : List γ) :
    (List.range xs.length).filterMap (xs[·]?) = xs := by
  induction xs with
  | nil => rfl
  | cons x xs ih =>
    rw [List.length_cons, List.range_succ_eq_map, List.filterMap_cons]
    simp only [List.getElem?_cons_zero, List.filterMap_map, Function.comp_def, List.getElem?_cons_succ]
    rw [ih]

theorem sortBy_perm (key : γ → PyVal) (xs : List γ) : (rt.sortBy key xs).Perm xs := by
  unfold sortBy
  split
  · exact List.perm_insertionSort _ xs
  split
  · exact List.perm_insertionSort _ xs
  · have hperm := (rt.nanOrder_perm (xs.map key)).filterMap (xs[·]?)
    rw [List.length_map, filterMap_getElem?_range] at hperm
    exact hperm

/-- String keys are sorted as strings. -/
theorem sortBy_strings {key : γ → PyVal} {xs : List γ} (hstr : ∀ x ∈ xs, isStr (key x)) :
    (rt.sortBy key xs).Pairwise fun x y => strOf (key x) ≤ strOf (key y) := by
  unfold sortBy
  rw [if_pos (List.all_eq_true.mpr hstr)]
  have : Std.Total fun x y : γ => strOf (key x) ≤ strOf (key y) := ⟨fun x y => le_total _ _⟩
  have : IsTrans γ fun x y => strOf (key x) ≤ strOf (key y) := ⟨fun _ _ _ => le_trans⟩
  exact List.pairwise_insertionSort _ xs

theorem checkOrder_strings {keys : List PyVal} (hstr : ∀ key ∈ keys, isStr key) :
    checkOrder keys = .ok () := by
  unfold checkOrder
  rw [if_pos (Or.inr (Or.inl (List.all_eq_true.mpr hstr)))]

/-! ## The parts of a document -/

theorem keyString_eq_ok_iff {key : PyVal} {text : String} :
    rt.keyString key = .ok text ↔ rt.keyString? key = some text := by
  unfold keyString
  split
  · rename_i s hs
    rw [hs, Except.ok.injEq, Option.some.injEq]
  · rename_i hnone
    rw [hnone]
    exact iff_of_false (fun h => nomatch h) (fun h => nomatch h)

theorem documents_cons {sort : Bool} {x : PyVal} {xs : List PyVal} {js : List (Json Scalar)} :
    rt.documents sort (x :: xs) = .ok js ↔
      ∃ j rest, rt.document sort x = .ok j ∧ rt.documents sort xs = .ok rest ∧ js = j :: rest := by
  rw [documents]
  simp only [except_bind_eq_ok_iff, except_pure_eq_ok_iff, exists_and_left]

theorem documentMembers_cons {sort : Bool} {key x : PyVal} {items : List (PyVal × PyVal)}
    {ms : List (PyVal × String × Json Scalar)} :
    rt.documentMembers sort ((key, x) :: items) = .ok ms ↔
      ∃ text j rest, rt.keyString? key = some text ∧ rt.document sort x = .ok j ∧
        rt.documentMembers sort items = .ok rest ∧ ms = (key, text, j) :: rest := by
  rw [documentMembers]
  simp only [except_bind_eq_ok_iff, except_pure_eq_ok_iff, keyString_eq_ok_iff, exists_and_left]

/-- A dictionary with `sort_keys`. -/
theorem document_dict_sorted {items : List (PyVal × PyVal)} {j : Json Scalar} :
    rt.document true (.dict items) = .ok j ↔
      checkOrder (items.map Prod.fst) = .ok () ∧ ∃ ms, rt.documentMembers true items = .ok ms ∧
        j = .obj ((rt.sortBy Prod.fst ms).map Prod.snd) := by
  rw [document, if_pos rfl, except_bind_eq_ok_iff]
  simp only [except_bind_pure_eq_ok_iff, if_true]
  exact ⟨fun ⟨_, h⟩ => h, fun h => ⟨(), h⟩⟩

/-- A dictionary in its own order. -/
theorem document_dict_plain {items : List (PyVal × PyVal)} {j : Json Scalar} :
    rt.document false (.dict items) = .ok j ↔
      ∃ ms, rt.documentMembers false items = .ok ms ∧ j = .obj (ms.map Prod.snd) := by
  rw [document, if_neg Bool.false_ne_true]
  exact except_bind_pure_eq_ok_iff

/-- A list or a tuple. -/
theorem document_list {sort : Bool} {xs : List PyVal} {j : Json Scalar} :
    rt.document sort (.list xs) = .ok j ↔ ∃ js, rt.documents sort xs = .ok js ∧ j = .arr js := by
  rw [document, except_bind_pure_eq_ok_iff]

theorem document_tuple (sort : Bool) (xs : List PyVal) :
    rt.document sort (.tuple xs) = rt.document sort (.list xs) := by
  rw [document, document]

/-- The members carry the keys of the dictionary, and the strings of these. -/
theorem documentMembers_keys {sort : Bool} {items : List (PyVal × PyVal)}
    {ms : List (PyVal × String × Json Scalar)} (h : rt.documentMembers sort items = .ok ms) :
    ms.map Prod.fst = items.map Prod.fst ∧ ∀ m ∈ ms, rt.keyString? m.1 = some m.2.1 := by
  induction items generalizing ms with
  | nil =>
    obtain rfl := Except.ok.inj h
    exact ⟨rfl, fun _ hm => nomatch hm⟩
  | cons item items ih =>
    obtain ⟨text, j, rest, htext, -, hrest, rfl⟩ := documentMembers_cons.mp h
    obtain ⟨hkeys, htexts⟩ := ih hrest
    exact ⟨by rw [List.map_cons, List.map_cons, hkeys], List.forall_mem_cons.mpr ⟨htext, htexts⟩⟩

/-- The keys of a sorted dictionary's document. -/
theorem texts_sorted {items : List (PyVal × PyVal)} {ms : List (PyVal × String × Json Scalar)}
    (h : rt.documentMembers true items = .ok ms) :
    (rt.sortBy id (items.map Prod.fst)).filterMap rt.keyString? =
      ((rt.sortBy Prod.fst ms).map Prod.snd).map Prod.fst := by
  obtain ⟨hkeys, htexts⟩ := documentMembers_keys h
  rw [← hkeys, ← map_sortBy Prod.fst Prod.fst id (fun _ => rfl), List.filterMap_map, List.map_map]
  rw [← List.filterMap_eq_map]
  apply List.filterMap_congr
  intro m hm
  exact htexts m ((sortBy_perm _ _).mem_iff.mp hm)

theorem orderedMembers_sorted (ms : List (PyVal × String × Json Scalar)) :
    Json.OrderedMembers ((rt.sortBy Prod.fst ms).map Prod.snd) ↔ ∀ m ∈ ms, m.2.2.Ordered := by
  rw [Json.orderedMembers_iff, List.forall_mem_map]
  exact forall_congr' fun m => imp_congr_left (sortBy_perm _ _).mem_iff

mutual

/-- A value is written in strictly increasing order exactly when its keys are in the order of their
strings. -/
theorem ordered_iff : ∀ (v : PyVal) {j : Json Scalar}, rt.document true v = .ok j →
    (j.Ordered ↔ rt.InTextOrder v)
  | .none, _, h => by cases h; exact Iff.rfl
  | .bool _, _, h => by cases h; exact Iff.rfl
  | .int _, _, h => by cases h; exact Iff.rfl
  | .float _, _, h => by cases h; exact Iff.rfl
  | .str _, _, h => by cases h; exact Iff.rfl
  | .list xs, _, h => by
      obtain ⟨js, hjs, rfl⟩ := document_list.mp h
      exact orderedElements_iff xs hjs
  | .tuple xs, _, h => by
      obtain ⟨js, hjs, rfl⟩ := document_list.mp (document_tuple true xs ▸ h)
      exact orderedElements_iff xs hjs
  | .dict items, _, h => by
      obtain ⟨-, ms, hms, rfl⟩ := document_dict_sorted.mp h
      rw [Json.Ordered, InTextOrder, texts_sorted hms, orderedMembers_sorted]
      exact and_congr_right fun _ => orderedItems_iff items hms
  | .ndarray _, _, h => nomatch h
  | .object _, _, h => nomatch h

theorem orderedElements_iff : ∀ (xs : List PyVal) {js : List (Json Scalar)},
    rt.documents true xs = .ok js → (Json.OrderedElements js ↔ rt.InTextOrderAll xs)
  | [], _, h => by cases h; exact Iff.rfl
  | x :: xs, _, h => by
      obtain ⟨j, rest, hj, hrest, rfl⟩ := documents_cons.mp h
      exact and_congr (ordered_iff x hj) (orderedElements_iff xs hrest)

theorem orderedItems_iff : ∀ (items : List (PyVal × PyVal)) {ms : List (PyVal × String × Json Scalar)},
    rt.documentMembers true items = .ok ms → ((∀ m ∈ ms, m.2.2.Ordered) ↔ rt.InTextOrderItems items)
  | [], _, h => by
      obtain rfl := Except.ok.inj h
      exact iff_of_true (fun _ hm => nomatch hm) trivial
  | (key, x) :: items, _, h => by
      obtain ⟨text, j, rest, -, hj, hrest, rfl⟩ := documentMembers_cons.mp h
      rw [List.forall_mem_cons]
      exact and_congr (ordered_iff x hj) (orderedItems_iff items hrest)

end

/-! ## A document that is read back -/

theorem memberValues_map_snd (ms : List (PyVal × String × Json Scalar)) :
    Json.memberValues (ms.map Prod.snd) = ms.map fun m => (m.2.1, m.2.2.value) := by
  induction ms with
  | nil => rfl
  | cons m ms ih => rw [List.map_cons, List.map_cons, Json.memberValues, ih]

/-- Different keys are read as they are. -/
theorem value_obj_of_nodup {ms : List (PyVal × String × Json Scalar)}
    (h : (ms.map fun m => m.2.1).Nodup) :
    (Json.obj (ms.map Prod.snd)).value = .dict (ms.map fun m => (.str m.2.1, m.2.2.value)) := by
  have hkeys : ((ms.map fun m => (m.2.1, m.2.2.value)).map Prod.fst).Nodup := by
    rw [List.map_map]
    exact h
  rw [Json.value, memberValues_map_snd, Dict.entries_ofList hkeys, List.map_map]
  rfl

/-- Members with increasing strings are in the order of their strings. -/
theorem sortBy_str_eq {ms : List (PyVal × String × Json Scalar)}
    (hincreasing : (((rt.sortBy Prod.fst ms).map Prod.snd).map Prod.fst).Pairwise (· < ·)) :
    (rt.sortBy Prod.fst (ms.map fun m => (PyVal.str m.2.1, m.2))).map Prod.snd =
      (rt.sortBy Prod.fst ms).map Prod.snd := by
  have hsorted : (rt.sortBy Prod.fst (ms.map fun m => (PyVal.str m.2.1, m.2))).map Prod.snd =
      rt.sortBy (fun m : String × Json Scalar => .str m.1) (ms.map Prod.snd) := by
    rw [← map_sortBy (fun m : PyVal × String × Json Scalar => (PyVal.str m.2.1, m.2))
        (fun m => .str m.2.1) Prod.fst (fun _ => rfl), List.map_map,
      ← map_sortBy Prod.snd (fun m : PyVal × String × Json Scalar => .str m.2.1) _ (fun _ => rfl)]
    rfl
  rw [hsorted]
  have hperm : (rt.sortBy (fun m : String × Json Scalar => .str m.1) (ms.map Prod.snd)).Perm
      ((rt.sortBy Prod.fst ms).map Prod.snd) :=
    (sortBy_perm _ _).trans ((sortBy_perm Prod.fst ms).map Prod.snd).symm
  have hstrings : (rt.sortBy (fun m : String × Json Scalar => .str m.1) (ms.map Prod.snd)).Pairwise
      fun a b => a.1 ≤ b.1 :=
    @sortBy_strings rt _ (fun m : String × Json Scalar => .str m.1) _ fun _ _ => rfl
  refine List.Perm.eq_of_pairwise ?_ hstrings ((List.pairwise_map.mp hincreasing).imp le_of_lt) hperm
  -- two members with one key are one member
  intro a b ha hb hab hba
  have hinj := List.inj_on_of_nodup_map (hincreasing.imp ne_of_lt)
  exact hinj (hperm.mem_iff.mp ha) hb (le_antisymm hab hba)

mutual

/-- A value that is written in strictly increasing order is written the same when it has been read
back. -/
theorem document_value : ∀ (v : PyVal) {j : Json Scalar}, rt.document true v = .ok j →
    ∃ k, rt.document false v = .ok k ∧ (j.Ordered → rt.document true k.value = .ok j)
  | .none, _, h => by cases h; exact ⟨_, rfl, fun _ => rfl⟩
  | .bool _, _, h => by cases h; exact ⟨_, rfl, fun _ => rfl⟩
  | .int _, _, h => by cases h; exact ⟨_, rfl, fun _ => rfl⟩
  | .float bits, _, h => by
      cases h
      refine ⟨_, rfl, fun _ => ?_⟩
      rw [Json.value, Scalar.value, document, canonicalFloat_idem, canonicalFloat_idem]
  | .str _, _, h => by cases h; exact ⟨_, rfl, fun _ => rfl⟩
  | .list xs, _, h => by
      obtain ⟨js, hjs, rfl⟩ := document_list.mp h
      obtain ⟨ks, hks, hagain⟩ := documents_values xs hjs
      exact ⟨_, document_list.mpr ⟨ks, hks, rfl⟩, fun ho => document_list.mpr ⟨js, hagain ho, rfl⟩⟩
  | .tuple xs, _, h => by
      obtain ⟨js, hjs, rfl⟩ := document_list.mp (document_tuple true xs ▸ h)
      obtain ⟨ks, hks, hagain⟩ := documents_values xs hjs
      refine ⟨.arr ks, ?_, fun ho => document_list.mpr ⟨js, hagain ho, rfl⟩⟩
      rw [document_tuple]
      exact document_list.mpr ⟨ks, hks, rfl⟩
  | .dict items, _, h => by
      obtain ⟨-, ms, hms, rfl⟩ := document_dict_sorted.mp h
      obtain ⟨ns, hns, htexts, hagain⟩ := documentMembers_values items hms
      refine ⟨_, document_dict_plain.mpr ⟨ns, hns, rfl⟩, ?_⟩
      rintro ⟨hincreasing, hordered⟩
      have hnodup : (ns.map fun m => m.2.1).Nodup := by
        rw [htexts]
        have hsorted : ((rt.sortBy Prod.fst ms).map fun m => m.2.1).Nodup := by
          rw [List.map_map] at hincreasing
          exact hincreasing.imp ne_of_lt
        exact ((sortBy_perm Prod.fst ms).map fun m => m.2.1).nodup_iff.mp hsorted
      rw [value_obj_of_nodup hnodup]
      refine document_dict_sorted.mpr ⟨checkOrder_strings ?_, _,
        hagain ((orderedMembers_sorted ms).mp hordered), ?_⟩
      · rw [List.map_map]
        exact List.forall_mem_map.mpr fun _ _ => rfl
      · rw [sortBy_str_eq hincreasing]
  | .ndarray _, _, h => nomatch h
  | .object _, _, h => nomatch h

theorem documents_values : ∀ (xs : List PyVal) {js : List (Json Scalar)}, rt.documents true xs = .ok js →
    ∃ ks, rt.documents false xs = .ok ks ∧
      (Json.OrderedElements js → rt.documents true (Json.values ks) = .ok js)
  | [], _, h => by cases h; exact ⟨[], rfl, fun _ => rfl⟩
  | x :: xs, _, h => by
      obtain ⟨j, rest, hj, hrest, rfl⟩ := documents_cons.mp h
      obtain ⟨k, hk, hagain⟩ := document_value x hj
      obtain ⟨ks, hks, hagains⟩ := documents_values xs hrest
      refine ⟨k :: ks, documents_cons.mpr ⟨k, ks, hk, hks, rfl⟩, ?_⟩
      rintro ⟨ho, hos⟩
      exact documents_cons.mpr ⟨j, rest, hagain ho, hagains hos, rfl⟩

theorem documentMembers_values : ∀ (items : List (PyVal × PyVal))
    {ms : List (PyVal × String × Json Scalar)}, rt.documentMembers true items = .ok ms →
    ∃ ns, rt.documentMembers false items = .ok ns ∧ ns.map (fun m => m.2.1) = ms.map (fun m => m.2.1) ∧
      ((∀ m ∈ ms, m.2.2.Ordered) →
        rt.documentMembers true (ns.map fun m => (.str m.2.1, m.2.2.value)) =
          .ok (ms.map fun m => (.str m.2.1, m.2)))
  | [], _, h => by
      obtain rfl := Except.ok.inj h
      exact ⟨[], rfl, rfl, fun _ => rfl⟩
  | (key, x) :: items, _, h => by
      obtain ⟨text, j, rest, htext, hj, hrest, rfl⟩ := documentMembers_cons.mp h
      obtain ⟨k, hk, hagain⟩ := document_value x hj
      obtain ⟨ns, hns, htexts, hagains⟩ := documentMembers_values items hrest
      refine ⟨(key, text, k) :: ns, documentMembers_cons.mpr ⟨text, k, ns, htext, hk, hns, rfl⟩, ?_, ?_⟩
      · rw [List.map_cons, List.map_cons, htexts]
      · intro ho
        rw [List.forall_mem_cons] at ho
        exact documentMembers_cons.mpr ⟨text, j, _, rfl, hagain ho.1, hagains ho.2, rfl⟩

end

/-! ## What `json.loads` reads -/

/-- A value as `json.loads` reads it: it is written in strictly increasing order, and another round trip
does not change it. -/
structure ReadBack (rt : PyRuntime) (v : PyVal) : Prop where
  sorted : ∃ j, rt.document true v = .ok j ∧ j.Ordered
  again : ∃ k, rt.document false v = .ok k ∧ k.value = v

theorem readBack_items {items : List (String × PyVal)} (h : ∀ item ∈ items, ReadBack rt item.2) :
    (∃ ms, rt.documentMembers true (items.map fun item => (.str item.1, item.2)) = .ok ms ∧
      ms.map (fun m => m.2.1) = items.map Prod.fst ∧ ∀ m ∈ ms, m.1 = .str m.2.1 ∧ m.2.2.Ordered) ∧
    ∃ ns, rt.documentMembers false (items.map fun item => (.str item.1, item.2)) = .ok ns ∧
      ns.map (fun m => (m.2.1, m.2.2.value)) = items := by
  induction items with
  | nil => exact ⟨⟨[], rfl, rfl, fun _ hm => nomatch hm⟩, [], rfl, rfl⟩
  | cons item items ih =>
    obtain ⟨text, v⟩ := item
    rw [List.forall_mem_cons] at h
    obtain ⟨⟨j, hj, ho⟩, k, hk, hvalue⟩ := h.1
    obtain ⟨⟨ms, hms, htexts, hos⟩, ns, hns, hvalues⟩ := ih h.2
    refine ⟨⟨_, documentMembers_cons.mpr ⟨text, j, ms, rfl, hj, hms, rfl⟩, ?_, ?_⟩,
      _, documentMembers_cons.mpr ⟨text, k, ns, rfl, hk, hns, rfl⟩, ?_⟩
    · rw [List.map_cons, List.map_cons, htexts]
    · exact List.forall_mem_cons.mpr ⟨⟨rfl, ho⟩, hos⟩
    · rw [List.map_cons, hvalues, hvalue]

/-- Members under different strings are sorted in strictly increasing order. -/
theorem sortBy_increasing {ms : List (PyVal × String × Json Scalar)} (hkeys : ∀ m ∈ ms, m.1 = .str m.2.1)
    (hnodup : (ms.map fun m => m.2.1).Nodup) :
    (((rt.sortBy Prod.fst ms).map Prod.snd).map Prod.fst).Pairwise (· < ·) := by
  have hsort : (rt.sortBy Prod.fst ms).Pairwise fun a b => strOf a.1 ≤ strOf b.1 :=
    sortBy_strings fun m hm => by rw [hkeys m hm]; rfl
  have hne : ((rt.sortBy Prod.fst ms).map fun m => m.2.1).Nodup :=
    ((sortBy_perm Prod.fst ms).map fun m => m.2.1).nodup_iff.mpr hnodup
  rw [List.map_map, List.pairwise_map]
  refine (hsort.and (List.pairwise_map.mp hne)).imp_of_mem ?_
  intro a b ha hb hab
  rw [hkeys a ((sortBy_perm _ _).mem_iff.mp ha), hkeys b ((sortBy_perm _ _).mem_iff.mp hb)] at hab
  exact lt_of_le_of_ne hab.1 hab.2

/-- A dictionary of values that were read. -/
theorem readBack_dict {d : Dict String PyVal} (h : ∀ item ∈ d.entries, ReadBack rt item.2) :
    ReadBack rt (.dict (d.entries.map fun item => (.str item.1, item.2))) := by
  obtain ⟨⟨ms, hms, htexts, hos⟩, ns, hns, hvalues⟩ := readBack_items h
  constructor
  · refine ⟨_, document_dict_sorted.mpr ⟨checkOrder_strings ?_, ms, hms, rfl⟩, ?_, ?_⟩
    · rw [List.map_map]
      exact List.forall_mem_map.mpr fun _ _ => rfl
    · exact sortBy_increasing (fun m hm => (hos m hm).1) (htexts ▸ d.nodup)
    · exact (orderedMembers_sorted ms).mpr fun m hm => (hos m hm).2
  · refine ⟨_, document_dict_plain.mpr ⟨ns, hns, rfl⟩, ?_⟩
    have hnodup : (ns.map fun m => m.2.1).Nodup := by
      have hkeys := d.nodup
      rw [← hvalues, List.map_map] at hkeys
      exact hkeys
    rw [value_obj_of_nodup hnodup, ← hvalues, List.map_map]
    rfl

mutual

theorem readBack_value : ∀ j : Json Scalar, ReadBack rt j.value
  | .atom .null => ⟨⟨_, rfl, trivial⟩, _, rfl, rfl⟩
  | .atom (.bool _) => ⟨⟨_, rfl, trivial⟩, _, rfl, rfl⟩
  | .atom (.int _) => ⟨⟨_, rfl, trivial⟩, _, rfl, rfl⟩
  | .atom (.float bits) => by
      refine ⟨⟨_, rfl, trivial⟩, _, rfl, ?_⟩
      rw [Json.value, Json.value, Scalar.value, Scalar.value, canonicalFloat_idem, canonicalFloat_idem]
  | .str _ => ⟨⟨_, rfl, trivial⟩, _, rfl, rfl⟩
  | .arr xs => by
      obtain ⟨⟨js, hjs, ho⟩, ks, hks, hvalues⟩ := readBack_values xs
      refine ⟨⟨_, document_list.mpr ⟨js, hjs, rfl⟩, ho⟩, _, document_list.mpr ⟨ks, hks, rfl⟩, ?_⟩
      rw [Json.value, Json.value, hvalues]
  | .obj ms => readBack_dict (@Dict.forall_entries_ofList _ _ _ (fun _ v => ReadBack rt v) _
      (readBack_memberValues ms))

theorem readBack_values : ∀ xs : List (Json Scalar),
    (∃ js, rt.documents true (Json.values xs) = .ok js ∧ Json.OrderedElements js) ∧
      ∃ ks, rt.documents false (Json.values xs) = .ok ks ∧ Json.values ks = Json.values xs
  | [] => ⟨⟨[], rfl, trivial⟩, [], rfl, rfl⟩
  | x :: xs => by
      obtain ⟨⟨j, hj, ho⟩, k, hk, hvalue⟩ := readBack_value x
      obtain ⟨⟨js, hjs, hos⟩, ks, hks, hvalues⟩ := readBack_values xs
      refine ⟨⟨_, documents_cons.mpr ⟨j, js, hj, hjs, rfl⟩, ho, hos⟩,
        _, documents_cons.mpr ⟨k, ks, hk, hks, rfl⟩, ?_⟩
      rw [Json.values, Json.values, hvalue, hvalues]

theorem readBack_memberValues : ∀ ms : List (String × Json Scalar),
    ∀ item ∈ Json.memberValues ms, ReadBack rt item.2
  | [], _, hitem => nomatch hitem
  | (_, x) :: ms, item, hitem => by
      rcases List.mem_cons.mp hitem with rfl | hrest
      · exact readBack_value x
      · exact readBack_memberValues ms item hrest

end

theorem dumps_eq_ok_iff {sort : Bool} {v : PyVal} {text : String} : rt.dumps sort v = .ok text ↔
    ∃ j, rt.document sort v = .ok j ∧ text = String.ofList (j.map rt.token).render := by
  rw [dumps, except_bind_pure_eq_ok_iff]

theorem roundTrip_eq_ok_iff {v v' : PyVal} :
    rt.roundTrip v = .ok v' ↔ ∃ k, rt.document false v = .ok k ∧ v' = k.value := by
  rw [roundTrip, except_bind_pure_eq_ok_iff]

/-- A value that `json.dumps` writes with `sort_keys` comes back from a round trip, and is then written
with the same text exactly when its keys are in the order of their strings. -/
theorem dumps_roundTrip {v : PyVal} {text : String} (h : rt.dumps true v = .ok text) :
    ∃ v', rt.roundTrip v = .ok v' ∧ ReadBack rt v' ∧
      ∃ text', rt.dumps true v' = .ok text' ∧ (text' = text ↔ rt.InTextOrder v) := by
  obtain ⟨j, hj, rfl⟩ := dumps_eq_ok_iff.mp h
  obtain ⟨k, hk, hagain⟩ := document_value v hj
  have hread : ReadBack rt k.value := readBack_value k
  obtain ⟨j', hj', ho⟩ := hread.sorted
  refine ⟨k.value, roundTrip_eq_ok_iff.mpr ⟨k, hk, rfl⟩, hread,
    _, dumps_eq_ok_iff.mpr ⟨j', hj', rfl⟩, ?_⟩
  rw [← ordered_iff v hj]
  constructor
  · intro htext
    have hmap := Json.render_injective (String.ofList_injective htext)
    rw [← Json.ordered_map rt.token, ← hmap, Json.ordered_map]
    exact ho
  · intro hordered
    rw [Except.ok.inj (hj'.symm.trans (hagain hordered))]

/-- Another round trip changes nothing. -/
theorem ReadBack.roundTrip {v : PyVal} (h : ReadBack rt v) : rt.roundTrip v = .ok v := by
  obtain ⟨k, hk, hvalue⟩ := h.again
  exact roundTrip_eq_ok_iff.mpr ⟨k, hk, hvalue.symm⟩

/-- A round trip keeps a dictionary a dictionary, and only an empty one becomes empty. -/
theorem roundTrip_dict {items : List (PyVal × PyVal)} {v : PyVal}
    (h : rt.roundTrip (.dict items) = .ok v) :
    ∃ items', v = .dict items' ∧ (items' = [] ↔ items = []) := by
  obtain ⟨j, hj, rfl⟩ := roundTrip_eq_ok_iff.mp h
  obtain ⟨ms, hms, rfl⟩ := document_dict_plain.mp hj
  refine ⟨_, rfl, ?_⟩
  rw [List.map_eq_nil_iff, Dict.entries_ofList_eq_nil_iff, memberValues_map_snd, List.map_eq_nil_iff,
    ← List.map_eq_nil_iff (f := Prod.fst), (documentMembers_keys hms).1, List.map_eq_nil_iff]

end PyRuntime

end Upipe.Common

namespace Upipe

open Upipe.Common

/-- A runtime for values without floats. -/
def plainRuntime : PyRuntime where
  floatRepr _ := constantToken "0.5" (by decide)
  nanOrder keys := List.range keys.length
  nanOrder_perm _ := List.Perm.refl _

end Upipe
