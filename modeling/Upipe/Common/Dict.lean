import Mathlib.Data.List.Nodup
import Mathlib.Data.Nat.Notation

/-!
# Insertion-ordered dictionaries

A dictionary is its list of items in insertion order, with the keys distinct by construction.
Assigning to a key that is present keeps its place; a new key goes to the end.
-/

namespace Upipe.Common

/-- A dictionary that remembers the order in which its keys were first set. -/
structure Dict (κ ν : Type*) where
  entries : List (κ × ν)
  nodup : (entries.map Prod.fst).Nodup
deriving DecidableEq

namespace Dict

variable {κ ν : Type*}

/-- The dictionary without items. -/
def empty : Dict κ ν := ⟨[], List.nodup_nil⟩

instance : Inhabited (Dict κ ν) := ⟨empty⟩

/-- The keys in iteration order. -/
def keys (d : Dict κ ν) : List κ := d.entries.map Prod.fst

/-- The values in iteration order. -/
def values (d : Dict κ ν) : List ν := d.entries.map Prod.snd

/-- `{k: f(v) for k, v in d.items()}`. -/
def map {μ : Type*} (f : ν → μ) (d : Dict κ ν) : Dict κ μ :=
  ⟨d.entries.map fun item => (item.1, f item.2), by
    rw [List.map_map]
    exact d.nodup⟩

theorem keys_map {μ : Type*} (f : ν → μ) (d : Dict κ ν) : (d.map f).keys = d.keys := by
  rw [keys, keys, map, List.map_map]
  rfl

theorem values_map {μ : Type*} (f : ν → μ) (d : Dict κ ν) : (d.map f).values = d.values.map f := by
  rw [values, values, map, List.map_map, List.map_map]
  rfl

/-- `len(d)`. -/
def size (d : Dict κ ν) : ℕ := d.entries.length

theorem length_keys (d : Dict κ ν) : d.keys.length = d.size := List.length_map _

@[ext] theorem ext {d e : Dict κ ν} (h : d.entries = e.entries) : d = e := by
  cases d; cases e; cases h; rfl

theorem map_eq_self {f : ν → ν} {d : Dict κ ν} (h : ∀ v ∈ d.values, f v = v) : d.map f = d := by
  apply ext
  rw [map]
  conv_rhs => rw [← List.map_id d.entries]
  apply List.map_congr_left
  intro item hitem
  exact congrArg (Prod.mk item.1) (h item.2 (List.mem_map_of_mem (f := Prod.snd) hitem))

/-- Two items with one key are the same item. -/
theorem value_unique (d : Dict κ ν) {k : κ} {v w : ν} (hv : (k, v) ∈ d.entries)
    (hw : (k, w) ∈ d.entries) : v = w := by
  have h := List.inj_on_of_nodup_map d.nodup hv hw rfl
  exact congrArg Prod.snd h

section Lookup

variable [DecidableEq κ]

/-- `d.get(k)`. -/
def get? (d : Dict κ ν) (k : κ) : Option ν := d.entries.lookup k

/-- `k in d`. -/
def contains (d : Dict κ ν) (k : κ) : Bool := k ∈ d.keys

private theorem lookup_eq_some_iff {xs : List (κ × ν)} (h : (xs.map Prod.fst).Nodup) {k : κ}
    {v : ν} : xs.lookup k = some v ↔ (k, v) ∈ xs := by
  induction xs with
  | nil => simp
  | cons x xs ih =>
    obtain ⟨l, w⟩ := x
    rw [List.map_cons, List.nodup_cons] at h
    by_cases hk : k = l
    · subst hk
      rw [List.lookup_cons_self, List.mem_cons, Prod.mk.injEq]
      constructor
      · intro hv
        exact Or.inl ⟨rfl, (Option.some.inj hv).symm⟩
      · rintro (⟨-, rfl⟩ | hmem)
        · rfl
        · exact absurd (List.mem_map_of_mem (f := Prod.fst) hmem) h.1
    · rw [List.lookup_cons, beq_false_of_ne hk, List.mem_cons, Prod.mk.injEq]
      simp only [ih h.2, hk, false_and, false_or]

/-- Looking a key up finds exactly the item stored under it. -/
theorem get?_eq_some_iff (d : Dict κ ν) {k : κ} {v : ν} :
    d.get? k = some v ↔ (k, v) ∈ d.entries :=
  lookup_eq_some_iff d.nodup

theorem get?_eq_none_iff (d : Dict κ ν) {k : κ} : d.get? k = none ↔ k ∉ d.keys := by
  rw [Option.eq_none_iff_forall_ne_some]
  simp only [ne_eq, get?_eq_some_iff, keys, List.mem_map, Prod.exists, exists_and_right,
    exists_eq_right, not_exists]

theorem mem_keys_of_get? (d : Dict κ ν) {k : κ} {v : ν} (h : d.get? k = some v) : k ∈ d.keys :=
  List.mem_map_of_mem (f := Prod.fst) (d.get?_eq_some_iff.mp h)

private theorem map_fst_update (xs : List (κ × ν)) (k : κ) (v : ν) :
    (xs.map fun x => if x.1 = k then (k, v) else x).map Prod.fst = xs.map Prod.fst := by
  rw [List.map_map]
  apply List.map_congr_left
  intro x _
  by_cases hx : x.1 = k <;> simp [hx]

/-- `d[k] = v`. -/
def set (d : Dict κ ν) (k : κ) (v : ν) : Dict κ ν :=
  if h : k ∈ d.keys then
    ⟨d.entries.map fun x => if x.1 = k then (k, v) else x, by
      rw [map_fst_update]; exact d.nodup⟩
  else
    ⟨d.entries ++ [(k, v)], by
      rw [List.map_append, List.nodup_append]
      refine ⟨d.nodup, by simp, ?_⟩
      rintro a ha b hb rfl
      simp only [List.map_cons, List.map_nil, List.mem_singleton] at hb
      exact h (hb ▸ ha)⟩

/-- A new key goes to the end. -/
theorem entries_set_of_not_mem (d : Dict κ ν) {k : κ} (v : ν) (h : k ∉ d.keys) :
    (d.set k v).entries = d.entries ++ [(k, v)] := by
  rw [set, dif_neg h]

theorem entries_set_of_mem (d : Dict κ ν) {k : κ} (v : ν) (h : k ∈ d.keys) :
    (d.set k v).entries = d.entries.map fun x => if x.1 = k then (k, v) else x := by
  rw [set, dif_pos h]

theorem entries_map_set {μ : Type*} (f : ν → μ) (d : Dict κ ν) {k : κ} (v : ν) (h : k ∈ d.keys) :
    ((d.set k v).map f).entries = d.entries.map fun x => (x.1, f (if x.1 = k then v else x.2)) := by
  show (d.set k v).entries.map _ = _
  rw [entries_set_of_mem d v h, List.map_map]
  apply List.map_congr_left
  intro x _
  rw [Function.comp_apply]
  split
  · rename_i hkey
    rw [hkey]
  · rfl

/-- A present key keeps its place. -/
theorem keys_set_of_mem (d : Dict κ ν) {k : κ} (v : ν) (h : k ∈ d.keys) :
    (d.set k v).keys = d.keys := by
  rw [set, dif_pos h]
  exact map_fst_update d.entries k v

theorem mem_entries_set (d : Dict κ ν) {k l : κ} {v w : ν} :
    (l, w) ∈ (d.set k v).entries ↔ (l = k ∧ w = v) ∨ (l ≠ k ∧ (l, w) ∈ d.entries) := by
  by_cases h : k ∈ d.keys
  · rw [set, dif_pos h, List.mem_map]
    constructor
    · rintro ⟨⟨a, b⟩, hmem, heq⟩
      by_cases ha : a = k
      · rw [if_pos ha, Prod.mk.injEq] at heq
        exact Or.inl ⟨heq.1.symm, heq.2.symm⟩
      · rw [if_neg ha, Prod.mk.injEq] at heq
        obtain ⟨rfl, rfl⟩ := heq
        exact Or.inr ⟨ha, hmem⟩
    · rintro (⟨rfl, rfl⟩ | ⟨hne, hmem⟩)
      · obtain ⟨⟨a, b⟩, hab, rfl⟩ := List.mem_map.mp h
        exact ⟨(a, b), hab, if_pos rfl⟩
      · exact ⟨(l, w), hmem, if_neg hne⟩
  · rw [entries_set_of_not_mem d v h, List.mem_append, List.mem_singleton, Prod.mk.injEq]
    constructor
    · rintro (hmem | heq)
      · refine Or.inr ⟨?_, hmem⟩
        rintro rfl
        exact h (List.mem_map_of_mem (f := Prod.fst) hmem)
      · exact Or.inl heq
    · rintro (heq | ⟨-, hmem⟩)
      · exact Or.inr heq
      · exact Or.inl hmem

/-- What holds of every item and of the one that is set holds of every item afterwards. -/
theorem forall_entries_set {Q : κ → ν → Prop} (d : Dict κ ν) (hd : ∀ item ∈ d.entries, Q item.1 item.2)
    {k : κ} {v : ν} (hv : Q k v) : ∀ item ∈ (d.set k v).entries, Q item.1 item.2 := by
  rintro ⟨l, w⟩ hitem
  rcases d.mem_entries_set.mp hitem with ⟨rfl, rfl⟩ | ⟨-, hitem⟩
  · exact hv
  · exact hd (l, w) hitem

/-- What holds of every item determines the value of a key, when it holds of one value only. -/
theorem get?_of_forall_entries {Q : κ → ν → Prop} (d : Dict κ ν) (hd : ∀ item ∈ d.entries, Q item.1 item.2) {k : κ}
    {v : ν} (hunique : ∀ w, Q k w → w = v) (hk : k ∈ d.keys) : d.get? k = some v := by
  obtain ⟨⟨l, w⟩, hitem, rfl⟩ := List.mem_map.mp hk
  obtain rfl := hunique w (hd _ hitem)
  exact d.get?_eq_some_iff.mpr hitem

/-- Setting a key adds it to the keys. -/
theorem mem_keys_set (d : Dict κ ν) {k l : κ} {v : ν} :
    l ∈ (d.set k v).keys ↔ l = k ∨ l ∈ d.keys := by
  by_cases h : k ∈ d.keys
  · rw [d.keys_set_of_mem v h]
    constructor
    · exact Or.inr
    · rintro (rfl | hl)
      · exact h
      · exact hl
  · rw [keys, d.entries_set_of_not_mem v h, List.map_append, List.mem_append]
    rw [List.map_singleton, List.mem_singleton, or_comm]
    rfl

/-- The values after an assignment are the new one and old ones. -/
theorem mem_values_of_mem_set (d : Dict κ ν) {k : κ} {v w : ν} (h : w ∈ (d.set k v).values) :
    w = v ∨ w ∈ d.values := by
  obtain ⟨⟨l, w⟩, hitem, rfl⟩ := List.mem_map.mp h
  rcases d.mem_entries_set.mp hitem with ⟨-, hw⟩ | ⟨-, hitem⟩
  · exact Or.inl hw
  · exact Or.inr (List.mem_map_of_mem (f := Prod.snd) hitem)

/-- Reading the item just set. -/
@[simp] theorem get?_set_self (d : Dict κ ν) (k : κ) (v : ν) : (d.set k v).get? k = some v := by
  rw [get?_eq_some_iff, mem_entries_set]
  exact Or.inl ⟨rfl, rfl⟩

/-- Setting one key leaves the others. -/
theorem get?_set_of_ne (d : Dict κ ν) {k l : κ} (v : ν) (h : l ≠ k) :
    (d.set k v).get? l = d.get? l := by
  apply Option.ext
  intro w
  rw [get?_eq_some_iff, get?_eq_some_iff, mem_entries_set]
  exact ⟨fun hw => hw.elim (fun hk => absurd hk.1 h) And.right, fun hw => Or.inr ⟨h, hw⟩⟩

theorem get?_map {μ : Type*} (f : ν → μ) (d : Dict κ ν) (k : κ) : (d.map f).get? k = (d.get? k).map f := by
  apply Option.ext
  intro w
  rw [get?_eq_some_iff, Option.map_eq_some_iff, map, List.mem_map]
  constructor
  · rintro ⟨⟨l, v⟩, hitem, heq⟩
    obtain ⟨rfl, rfl⟩ := Prod.mk.inj heq
    exact ⟨v, d.get?_eq_some_iff.mpr hitem, rfl⟩
  · rintro ⟨v, hv, rfl⟩
    exact ⟨(k, v), d.get?_eq_some_iff.mp hv, rfl⟩

/-- Of two assignments to one key the second counts. -/
theorem set_set (d : Dict κ ν) (k : κ) (v w : ν) : (d.set k v).set k w = d.set k w := by
  apply ext
  by_cases h : k ∈ d.keys
  · have h' : k ∈ (d.set k v).keys := d.keys_set_of_mem v h ▸ h
    rw [entries_set_of_mem _ w h', entries_set_of_mem _ v h, entries_set_of_mem _ w h, List.map_map]
    apply List.map_congr_left
    intro x _
    by_cases hx : x.1 = k <;> simp [hx]
  · have h' : k ∈ (d.set k v).keys := (d.set k v).mem_keys_of_get? (d.get?_set_self k v)
    rw [entries_set_of_mem _ w h', entries_set_of_not_mem _ v h, entries_set_of_not_mem _ w h,
      List.map_append, List.map_singleton, if_pos rfl]
    congr 1
    -- no other item has the key
    conv_rhs => rw [← List.map_id d.entries]
    apply List.map_congr_left
    intro x hx
    have hne : x.1 ≠ k := by
      rintro rfl
      exact h (List.mem_map_of_mem (f := Prod.fst) hx)
    rw [if_neg hne]
    rfl

/-- Assigning what is there changes nothing. -/
theorem set_of_get? (d : Dict κ ν) {k : κ} {v : ν} (h : d.get? k = some v) : d.set k v = d := by
  apply ext
  rw [entries_set_of_mem _ v (d.mem_keys_of_get? h)]
  conv_rhs => rw [← List.map_id d.entries]
  apply List.map_congr_left
  rintro ⟨l, w⟩ hx
  by_cases hk : l = k
  · subst hk
    rw [if_pos rfl, d.value_unique hx (d.get?_eq_some_iff.mp h)]
    rfl
  · rw [if_neg hk]
    rfl

private theorem split_of_mem {xs : List (κ × ν)} (hnodup : (xs.map Prod.fst).Nodup) {k : κ} {v : ν}
    (h : (k, v) ∈ xs) : ∃ rest, xs = (xs.takeWhile fun item => item.1 ≠ k) ++ (k, v) :: rest := by
  induction xs with
  | nil => cases h
  | cons x xs ih =>
    rw [List.map_cons, List.nodup_cons] at hnodup
    rcases List.mem_cons.mp h with rfl | h
    · exact ⟨xs, by simp⟩
    · have hne : x.1 ≠ k := by
        intro heq
        have hmem := List.mem_map_of_mem (f := Prod.fst) h
        exact hnodup.1 (heq ▸ hmem)
      obtain ⟨rest, hrest⟩ := ih hnodup.2 h
      refine ⟨rest, ?_⟩
      have htake := List.takeWhile_cons_of_pos (p := fun item : κ × ν => item.1 ≠ k) (l := xs)
        (decide_eq_true hne)
      rw [htake, List.cons_append, ← hrest]

/-- The items in front of a key, the item, and the rest. -/
theorem entries_split (d : Dict κ ν) {k : κ} {v : ν} (h : d.get? k = some v) :
    ∃ rest, d.entries = (d.entries.takeWhile fun item => item.1 ≠ k) ++ (k, v) :: rest :=
  split_of_mem d.nodup (d.get?_eq_some_iff.mp h)

/-- `dict(items)`: of several items with one key the last one counts, in the place of the first. -/
def ofList (items : List (κ × ν)) : Dict κ ν := items.foldl (fun d item => d.set item.1 item.2) empty

/-- Items with different keys are the items of their dictionary. -/
theorem entries_ofList {items : List (κ × ν)} (h : (items.map Prod.fst).Nodup) :
    (ofList items).entries = items := by
  suffices hfold : ∀ (rest : List (κ × ν)) (d : Dict κ ν), (d.entries ++ rest).map Prod.fst |>.Nodup →
      (rest.foldl (fun d item => d.set item.1 item.2) d).entries = d.entries ++ rest from
    hfold items empty h
  intro rest
  induction rest with
  | nil => exact fun d _ => (List.append_nil _).symm
  | cons item rest ih =>
    intro d hnodup
    have hnew : item.1 ∉ d.keys := by
      intro hmem
      rw [List.map_append, List.map_cons, List.nodup_append] at hnodup
      exact hnodup.2.2 item.1 hmem item.1 List.mem_cons_self rfl
    have hset : (d.set item.1 item.2).entries = d.entries ++ [item] := d.entries_set_of_not_mem _ hnew
    rw [List.foldl_cons, ih, hset, List.append_assoc, List.singleton_append]
    rw [hset, List.append_assoc, List.singleton_append]
    exact hnodup

/-- What holds of all items holds of the items of their dictionary. -/
theorem forall_entries_ofList {Q : κ → ν → Prop} {items : List (κ × ν)}
    (h : ∀ item ∈ items, Q item.1 item.2) : ∀ item ∈ (ofList items).entries, Q item.1 item.2 := by
  suffices hfold : ∀ (rest : List (κ × ν)) (d : Dict κ ν), (∀ item ∈ rest, Q item.1 item.2) →
      (∀ item ∈ d.entries, Q item.1 item.2) →
      ∀ item ∈ (rest.foldl (fun d item => d.set item.1 item.2) d).entries, Q item.1 item.2 from
    hfold items empty h (fun _ hitem => nomatch hitem)
  intro rest
  induction rest with
  | nil => exact fun d _ hd => hd
  | cons item rest ih =>
    intro d hrest hd
    rw [List.forall_mem_cons] at hrest
    exact ih _ hrest.2 (d.forall_entries_set hd hrest.1)

/-- Only the empty list of items makes an empty dictionary. -/
theorem entries_ofList_eq_nil_iff {items : List (κ × ν)} : (ofList items).entries = [] ↔ items = [] := by
  suffices hfold : ∀ (rest : List (κ × ν)) (d : Dict κ ν) (k : κ), k ∈ d.keys →
      k ∈ (rest.foldl (fun d item => d.set item.1 item.2) d).keys by
    cases items with
    | nil => exact iff_of_true rfl rfl
    | cons item items =>
      refine iff_of_false ?_ (List.cons_ne_nil _ _)
      intro hnil
      have hmem : item.1 ∈ (ofList (item :: items)).keys :=
        hfold items (empty.set item.1 item.2) item.1 ((mem_keys_set _).mpr (Or.inl rfl))
      rw [keys, hnil] at hmem
      cases hmem
  intro rest
  induction rest with
  | nil => exact fun _ _ hk => hk
  | cons item rest ih => exact fun d k hk => ih _ k ((mem_keys_set d).mpr (Or.inr hk))

/-- `d.pop(k, None)`. -/
def erase (d : Dict κ ν) (k : κ) : Dict κ ν :=
  ⟨d.entries.filter fun x => x.1 ≠ k, d.nodup.sublist (List.Sublist.map _ List.filter_sublist)⟩

theorem keys_erase (d : Dict κ ν) (k : κ) : (d.erase k).keys = d.keys.filter fun l => l ≠ k := by
  rw [keys, keys, List.filter_map]
  rfl

theorem get?_erase_of_ne (d : Dict κ ν) {k l : κ} (h : l ≠ k) : (d.erase k).get? l = d.get? l := by
  apply Option.ext
  intro v
  rw [get?_eq_some_iff, get?_eq_some_iff, erase, List.mem_filter]
  exact and_iff_left (decide_eq_true h)

theorem keys_foldl_erase (d : Dict κ ν) (ks : List κ) : (ks.foldl erase d).keys = d.keys.filter fun l => l ∉ ks := by
  induction ks generalizing d with
  | nil => simp
  | cons k ks ih =>
    rw [List.foldl_cons, ih, keys_erase, List.filter_filter]
    apply List.filter_congr
    intro l _
    simp [Bool.and_comm]

theorem get?_foldl_erase (d : Dict κ ν) {ks : List κ} {l : κ} (h : l ∉ ks) : (ks.foldl erase d).get? l = d.get? l := by
  induction ks generalizing d with
  | nil => rfl
  | cons k ks ih =>
    rw [List.mem_cons, not_or] at h
    rw [List.foldl_cons, ih _ h.2, get?_erase_of_ne d h.1]

end Lookup

end Dict

end Upipe.Common
