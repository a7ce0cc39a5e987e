import Mathlib.Data.Nat.Notation
import Mathlib.Data.List.Basic
import Mathlib.Data.String.Basic
import Mathlib.Tactic.Common

/-!
# JSON documents and their texts

A document is a tree over strings and atoms, the numbers and constants. `render` writes the text of a
document whose atoms are tokens, in the layout of Python's `json`: ASCII only, with `", "` and `": "`
between the parts. Different documents have different texts (`render_injective`).

`Ordered` says that the members of each object come in strictly increasing order of their keys.
-/

namespace Upipe.Common

/-- A JSON document over atoms of type `α`. The members of an object keep their order, and may repeat a
key. -/
inductive Json (α : Type) where
  | atom (a : α)
  | str (s : String)
  | arr (elements : List (Json α))
  | obj (members : List (String × Json α))

/-! ## Strings -/

namespace Json

/-- The escapes of two characters. -/
def shortEscape : Char → Option Char
  | '"' => some '"'
  | '\\' => some '\\'
  | '\n' => some 'n'
  | '\r' => some 'r'
  | '\t' => some 't'
  | '\x0c' => some 'f'
  | '\x08' => some 'b'
  | _ => none

/-- `'\\u{0:04x}'`. -/
def unitEscape (n : ℕ) : List Char :=
  ['\\', 'u', (n / 4096 % 16).digitChar, (n / 256 % 16).digitChar, (n / 16 % 16).digitChar,
    (n % 16).digitChar]

/-- The escape of a character: a printing ASCII character stands for itself, and one outside the basic
plane is written as a surrogate pair. -/
def escapeChar (c : Char) : List Char :=
  match shortEscape c with
  | some e => ['\\', e]
  | none =>
      if ' ' ≤ c ∧ c ≤ '~' then [c]
      else if c.toNat < 0x10000 then unitEscape c.toNat
      else
        unitEscape (0xd800 + (c.toNat - 0x10000) / 0x400) ++
          unitEscape (0xdc00 + (c.toNat - 0x10000) % 0x400)

/-- A string between its quotes. -/
def quote (s : String) : List Char := '"' :: (s.toList.flatMap escapeChar ++ ['"'])

/-- The inverse of `shortEscape`. -/
def shortUnescape : Char → Option Char
  | '"' => some '"'
  | '\\' => some '\\'
  | 'n' => some '\n'
  | 'r' => some '\r'
  | 't' => some '\t'
  | 'f' => some '\x0c'
  | 'b' => some '\x08'
  | _ => none

/-- The value of a hexadecimal digit. -/
def hexValue (c : Char) : ℕ := if c.isDigit then c.toNat - 48 else c.toNat - 87

/-- The code unit of four digits. -/
def unitValue (a b c d : Char) : ℕ :=
  4096 * hexValue a + 256 * hexValue b + 16 * hexValue c + hexValue d

/-- The first character of an escaped string, and what follows it. -/
def unescape : List Char → Option (Char × List Char)
  | '\\' :: 'u' :: a :: b :: c :: d :: rest =>
      if 0xd800 ≤ unitValue a b c d ∧ unitValue a b c d < 0xdc00 then
        match rest with
        | _ :: _ :: e :: f :: g :: h :: rest =>
            some (Char.ofNat (0x10000 + (unitValue a b c d - 0xd800) * 0x400 +
              (unitValue e f g h - 0xdc00)), rest)
        | _ => none
      else some (Char.ofNat (unitValue a b c d), rest)
  | '\\' :: e :: rest => (shortUnescape e).map (·, rest)
  | c :: rest => some (c, rest)
  | [] => none

theorem hexValue_digitChar : ∀ n < 16, hexValue n.digitChar = n := by decide

theorem unitValue_digits {n : ℕ} (h : n < 0x10000) :
    unitValue (n / 4096 % 16).digitChar (n / 256 % 16).digitChar (n / 16 % 16).digitChar
      (n % 16).digitChar = n := by
  unfold unitValue
  rw [hexValue_digitChar _ (Nat.mod_lt _ (by decide)), hexValue_digitChar _ (Nat.mod_lt _ (by decide)),
    hexValue_digitChar _ (Nat.mod_lt _ (by decide)), hexValue_digitChar _ (Nat.mod_lt _ (by decide))]
  omega

/-- Reading a code unit that is no surrogate. -/
theorem unescape_unit {n : ℕ} (h : n < 0x10000) (hsurrogate : ¬ (0xd800 ≤ n ∧ n < 0xdc00))
    (rest : List Char) : unescape (unitEscape n ++ rest) = some (Char.ofNat n, rest) := by
  simp only [unitEscape, List.cons_append, List.nil_append, unescape]
  rw [unitValue_digits h, if_neg hsurrogate]

/-- Reading a surrogate pair. -/
theorem unescape_pair {n m : ℕ} (hn : n < 0x400) (hm : m < 0x400) (rest : List Char) :
    unescape (unitEscape (0xd800 + n) ++ (unitEscape (0xdc00 + m) ++ rest)) =
      some (Char.ofNat (0x10000 + n * 0x400 + m), rest) := by
  simp only [unitEscape, List.cons_append, List.nil_append, unescape]
  have hunit : 0xd800 + n < 0x10000 := by omega
  have hunit' : 0xdc00 + m < 0x10000 := by omega
  have hsurrogate : 0xd800 ≤ 0xd800 + n ∧ 0xd800 + n < 0xdc00 := by omega
  rw [unitValue_digits hunit, unitValue_digits hunit', if_pos hsurrogate, Nat.add_sub_cancel_left,
    Nat.add_sub_cancel_left]

theorem unescape_plain {c : Char} (h : c ≠ '\\') (rest : List Char) :
    unescape (c :: rest) = some (c, rest) := by
  rw [unescape]
  · rintro _ _ _ _ _ hc
    exact absurd hc h
  · rintro _ _ hc
    exact absurd hc h

/-- An escaped character can be read back. -/
theorem unescape_escapeChar (c : Char) (rest : List Char) :
    unescape (escapeChar c ++ rest) = some (c, rest) := by
  unfold escapeChar shortEscape
  split
  · rename_i e he
    split at he <;> cases he <;> rfl
  rename_i hnone
  split at hnone <;> try cases hnone
  rename_i hbackslash _ _ _ _ _
  have hvalid : c.toNat < 0xd800 ∨ 0xdfff < c.toNat ∧ c.toNat < 0x110000 := c.valid
  split
  · exact unescape_plain hbackslash rest
  split
  · rename_i hbmp
    have hsurrogate : ¬ (0xd800 ≤ c.toNat ∧ c.toNat < 0xdc00) := by omega
    rw [unescape_unit hbmp hsurrogate rest, Char.ofNat_toNat]
  · have hhigh : (c.toNat - 0x10000) / 0x400 < 0x400 := by omega
    have hjoin : 0x10000 + (c.toNat - 0x10000) / 0x400 * 0x400 + (c.toNat - 0x10000) % 0x400 =
        c.toNat := by
      omega
    rw [List.append_assoc, unescape_pair hhigh (Nat.mod_lt _ (by decide)), hjoin, Char.ofNat_toNat]

/-- Escapes are a prefix code. -/
theorem escapeChar_append_inj {c d : Char} {x y : List Char}
    (h : escapeChar c ++ x = escapeChar d ++ y) : c = d ∧ x = y := by
  have hread := unescape_escapeChar c x
  rw [h, unescape_escapeChar] at hread
  obtain ⟨rfl, rfl⟩ := Prod.mk.inj (Option.some.inj hread)
  exact ⟨rfl, rfl⟩

/-- No escape begins with a quote. -/
theorem escapeChar_append_ne (c : Char) (x y : List Char) : escapeChar c ++ x ≠ '"' :: y := by
  unfold escapeChar
  split
  · exact fun h => nomatch h
  rename_i hnone
  split
  · rintro h
    obtain rfl : c = '"' := (List.cons.inj h).1
    cases hnone
  split <;> exact fun h => nomatch h

theorem flatMap_escapeChar_inj {cs ds : List Char} {x y : List Char}
    (h : cs.flatMap escapeChar ++ '"' :: x = ds.flatMap escapeChar ++ '"' :: y) : cs = ds ∧ x = y := by
  induction cs generalizing ds with
  | nil =>
    cases ds with
    | nil => exact ⟨rfl, (List.cons.inj h).2⟩
    | cons d ds =>
      rw [List.flatMap_cons, List.append_assoc] at h
      exact absurd h.symm (escapeChar_append_ne d _ _)
  | cons c cs ih =>
    cases ds with
    | nil =>
      rw [List.flatMap_cons, List.append_assoc] at h
      exact absurd h (escapeChar_append_ne c _ _)
    | cons d ds =>
      rw [List.flatMap_cons, List.flatMap_cons, List.append_assoc, List.append_assoc] at h
      obtain ⟨rfl, hrest⟩ := escapeChar_append_inj h
      obtain ⟨rfl, hxy⟩ := ih hrest
      exact ⟨rfl, hxy⟩

/-- A quoted string and what follows it can be told apart. -/
theorem quote_append_inj {s t : String} {x y : List Char} (h : quote s ++ x = quote t ++ y) :
    s = t ∧ x = y := by
  unfold quote at h
  rw [List.cons_append, List.cons_append, List.append_assoc, List.append_assoc] at h
  obtain ⟨hst, hxy⟩ := flatMap_escapeChar_inj (List.cons.inj h).2
  exact ⟨String.toList_injective hst, hxy⟩

end Json

/-! ## Texts -/

/-- A character that cannot end an atom or begin another document. -/
def isTokenChar (c : Char) : Bool := c ∉ [',', ']', '}', '"', '[', '{']

/-- The text of an atom. -/
@[ext] structure Token where
  chars : List Char
  nonempty : chars ≠ []
  plain : ∀ c ∈ chars, isTokenChar c

namespace Json

/-- What stands in front of an element or a member. -/
def separator (first : Bool) : List Char := if first then [] else [',', ' ']

mutual

/-- The text of a document. -/
def render : Json Token → List Char
  | .atom a => a.chars
  | .str s => quote s
  | .arr xs => '[' :: renderElements true xs
  | .obj ms => '{' :: renderMembers true ms

def renderElements : Bool → List (Json Token) → List Char
  | _, [] => [']']
  | first, x :: xs => separator first ++ (render x ++ renderElements false xs)

def renderMembers : Bool → List (String × Json Token) → List Char
  | _, [] => ['}']
  | first, (key, x) :: ms =>
      separator first ++ (quote key ++ (':' :: ' ' :: (render x ++ renderMembers false ms)))

end

/-- What may follow a document: nothing, or a character that ends an atom. -/
def Closed (x : List Char) : Prop := ∀ c ∈ x.head?, isTokenChar c = false

theorem closed_nil : Closed [] := fun _ h => nomatch h

theorem closed_elements (xs : List (Json Token)) (x : List Char) :
    Closed (renderElements false xs ++ x) := by
  intro c hc
  cases xs <;> (cases hc; decide)

theorem closed_members (ms : List (String × Json Token)) (x : List Char) :
    Closed (renderMembers false ms ++ x) := by
  intro c hc
  cases ms <;> (cases hc; decide)

/-- Token characters end where what follows begins. -/
theorem plain_append_inj {cs ds x y : List Char} (hcs : ∀ c ∈ cs, isTokenChar c)
    (hds : ∀ c ∈ ds, isTokenChar c) (hx : Closed x) (hy : Closed y) (h : cs ++ x = ds ++ y) :
    cs = ds ∧ x = y := by
  induction cs generalizing ds with
  | nil =>
    cases ds with
    | nil => exact ⟨rfl, h⟩
    | cons d ds =>
      rw [List.nil_append] at h
      have hd := hx d (by rw [h]; rfl)
      rw [hds d List.mem_cons_self] at hd
      cases hd
  | cons c cs ih =>
    cases ds with
    | nil =>
      rw [List.nil_append] at h
      have hc := hy c (by rw [← h]; rfl)
      rw [hcs c List.mem_cons_self] at hc
      cases hc
    | cons d ds =>
      obtain ⟨rfl, hrest⟩ := List.cons.inj h
      obtain ⟨rfl, hxy⟩ := ih (fun c hc => hcs c (List.mem_cons_of_mem _ hc))
        (fun c hc => hds c (List.mem_cons_of_mem _ hc)) hrest
      exact ⟨rfl, hxy⟩

/-- A token does not begin like another document. -/
theorem token_append_ne (a : Token) {c : Char} (hc : isTokenChar c = false) (x y : List Char) :
    a.chars ++ x ≠ c :: y := by
  intro h
  obtain ⟨cs, hne, hcs⟩ := a
  cases cs with
  | nil => exact hne rfl
  | cons d ds =>
    obtain rfl : d = c := (List.cons.inj h).1
    rw [hcs d List.mem_cons_self] at hc
    cases hc

/-- No document begins like the end of an array. -/
theorem render_append_ne (j : Json Token) (x y : List Char) : render j ++ x ≠ ']' :: y := by
  cases j with
  | atom a => exact token_append_ne a (by decide) x y
  | str s => exact fun h => nomatch h
  | arr xs => exact fun h => nomatch h
  | obj ms => exact fun h => nomatch h

theorem renderElements_append_ne (first : Bool) (j : Json Token) (xs : List (Json Token))
    (x y : List Char) : renderElements first (j :: xs) ++ x ≠ ']' :: y := by
  rw [renderElements, List.append_assoc, List.append_assoc]
  cases first with
  | true => exact render_append_ne j _ y
  | false => exact fun h => nomatch h

theorem renderMembers_append_ne (first : Bool) (m : String × Json Token)
    (ms : List (String × Json Token)) (x y : List Char) : renderMembers first (m :: ms) ++ x ≠ '}' :: y := by
  cases first <;> exact fun h => nomatch h

mutual

/-- A text and what follows it can be told apart. -/
theorem render_append_inj : ∀ (j k : Json Token) {x y : List Char}, Closed x → Closed y →
    render j ++ x = render k ++ y → j = k ∧ x = y
  | .atom a, .atom b, x, y, hx, hy, h => by
      obtain ⟨hab, hxy⟩ := plain_append_inj a.plain b.plain hx hy h
      exact ⟨congrArg Json.atom (Token.ext hab), hxy⟩
  | .str s, .str t, x, y, hx, hy, h => by
      obtain ⟨rfl, hxy⟩ := quote_append_inj h
      exact ⟨rfl, hxy⟩
  | .arr xs, .arr ys, x, y, hx, hy, h => by
      obtain ⟨rfl, hxy⟩ := renderElements_append_inj true xs ys (List.cons.inj h).2
      exact ⟨rfl, hxy⟩
  | .obj ms, .obj ns, x, y, hx, hy, h => by
      obtain ⟨rfl, hxy⟩ := renderMembers_append_inj true ms ns (List.cons.inj h).2
      exact ⟨rfl, hxy⟩
  | .atom a, .str _, x, y, hx, hy, h => absurd h (token_append_ne a (by decide) _ _)
  | .atom a, .arr _, x, y, hx, hy, h => absurd h (token_append_ne a (by decide) _ _)
  | .atom a, .obj _, x, y, hx, hy, h => absurd h (token_append_ne a (by decide) _ _)
  | .str _, .atom b, x, y, hx, hy, h => absurd h.symm (token_append_ne b (by decide) _ _)
  | .arr _, .atom b, x, y, hx, hy, h => absurd h.symm (token_append_ne b (by decide) _ _)
  | .obj _, .atom b, x, y, hx, hy, h => absurd h.symm (token_append_ne b (by decide) _ _)
  | .str _, .arr _, x, y, hx, hy, h => nomatch h
  | .str _, .obj _, x, y, hx, hy, h => nomatch h
  | .arr _, .str _, x, y, hx, hy, h => nomatch h
  | .arr _, .obj _, x, y, hx, hy, h => nomatch h
  | .obj _, .str _, x, y, hx, hy, h => nomatch h
  | .obj _, .arr _, x, y, hx, hy, h => nomatch h

theorem renderElements_append_inj : ∀ (first : Bool) (xs ys : List (Json Token)) {x y : List Char},
    renderElements first xs ++ x = renderElements first ys ++ y → xs = ys ∧ x = y
  | first, [], [], x, y, h => ⟨rfl, (List.cons.inj h).2⟩
  | first, [], j :: ys, x, y, h => absurd h.symm (renderElements_append_ne first j ys y x)
  | first, j :: xs, [], x, y, h => absurd h (renderElements_append_ne first j xs x y)
  | first, j :: xs, k :: ys, x, y, h => by
      rw [renderElements, renderElements, List.append_assoc, List.append_assoc, List.append_assoc,
        List.append_assoc] at h
      obtain ⟨rfl, hrest⟩ := render_append_inj j k (closed_elements xs x) (closed_elements ys y)
        (List.append_cancel_left h)
      obtain ⟨rfl, hxy⟩ := renderElements_append_inj false xs ys hrest
      exact ⟨rfl, hxy⟩

theorem renderMembers_append_inj : ∀ (first : Bool) (ms ns : List (String × Json Token))
    {x y : List Char},
    renderMembers first ms ++ x = renderMembers first ns ++ y → ms = ns ∧ x = y
  | first, [], [], x, y, h => ⟨rfl, (List.cons.inj h).2⟩
  | first, [], n :: ns, x, y, h => absurd h.symm (renderMembers_append_ne first n ns y x)
  | first, m :: ms, [], x, y, h => absurd h (renderMembers_append_ne first m ms x y)
  | first, (key, j) :: ms, (key', k) :: ns, x, y, h => by
      rw [renderMembers, renderMembers, List.append_assoc, List.append_assoc, List.append_assoc,
        List.append_assoc] at h
      obtain ⟨rfl, hvalue⟩ := quote_append_inj (List.append_cancel_left h)
      have hvalue : render j ++ renderMembers false ms ++ x = render k ++ renderMembers false ns ++ y :=
        (List.cons.inj (List.cons.inj hvalue).2).2
      rw [List.append_assoc, List.append_assoc] at hvalue
      obtain ⟨rfl, hrest⟩ := render_append_inj j k (closed_members ms x) (closed_members ns y) hvalue
      obtain ⟨rfl, hxy⟩ := renderMembers_append_inj false ms ns hrest
      exact ⟨rfl, hxy⟩

end

/-- Different documents have different texts. -/
theorem render_injective : Function.Injective render := by
  intro j k h
  have happend : render j ++ [] = render k ++ [] := by rw [h]
  exact (render_append_inj j k closed_nil closed_nil happend).1

end Json

/-! ## Documents over other atoms -/

namespace Json

variable {α β : Type}

mutual

/-- The document with its atoms replaced. -/
def map (f : α → β) : Json α → Json β
  | .atom a => .atom (f a)
  | .str s => .str s
  | .arr xs => .arr (mapElements f xs)
  | .obj ms => .obj (mapMembers f ms)

def mapElements (f : α → β) : List (Json α) → List (Json β)
  | [] => []
  | x :: xs => map f x :: mapElements f xs

def mapMembers (f : α → β) : List (String × Json α) → List (String × Json β)
  | [] => []
  | (key, x) :: ms => (key, map f x) :: mapMembers f ms

end

mutual

/-- The keys of every object are in strictly increasing order. -/
def Ordered : Json α → Prop
  | .atom _ | .str _ => True
  | .arr xs => OrderedElements xs
  | .obj ms => (ms.map Prod.fst).Pairwise (· < ·) ∧ OrderedMembers ms

def OrderedElements : List (Json α) → Prop
  | [] => True
  | x :: xs => Ordered x ∧ OrderedElements xs

def OrderedMembers : List (String × Json α) → Prop
  | [] => True
  | (_, x) :: ms => Ordered x ∧ OrderedMembers ms

end

theorem orderedMembers_iff {ms : List (String × Json α)} :
    OrderedMembers ms ↔ ∀ m ∈ ms, m.2.Ordered := by
  induction ms with
  | nil => simp [OrderedMembers]
  | cons m ms ih => rw [OrderedMembers, ih, List.forall_mem_cons]

theorem keys_mapMembers (f : α → β) (ms : List (String × Json α)) :
    (mapMembers f ms).map Prod.fst = ms.map Prod.fst := by
  induction ms with
  | nil => rfl
  | cons m ms ih => rw [mapMembers, List.map_cons, List.map_cons, ih]

mutual

/-- The order of the keys does not depend on the atoms. -/
theorem ordered_map (f : α → β) : ∀ j : Json α, (map f j).Ordered ↔ j.Ordered
  | .atom _ => Iff.rfl
  | .str _ => Iff.rfl
  | .arr xs => orderedElements_map f xs
  | .obj ms => by
      rw [map, Ordered, Ordered, keys_mapMembers]
      exact and_congr_right fun _ => orderedMembers_map f ms

theorem orderedElements_map (f : α → β) : ∀ xs : List (Json α),
    OrderedElements (mapElements f xs) ↔ OrderedElements xs
  | [] => Iff.rfl
  | x :: xs => and_congr (ordered_map f x) (orderedElements_map f xs)

theorem orderedMembers_map (f : α → β) : ∀ ms : List (String × Json α),
    OrderedMembers (mapMembers f ms) ↔ OrderedMembers ms
  | [] => Iff.rfl
  | (_, x) :: ms => and_congr (ordered_map f x) (orderedMembers_map f ms)

end

end Json

end Upipe.Common
