import Mathlib.Data.Nat.Notation
import Mathlib.Data.Int.Notation
import Mathlib.Tactic.Common

/-!
# Python values

`PyVal` is the part of the Python object model that crosses process boundaries: the values a JSON
document is made of, tuples, and two kinds of opaque objects that are known by a handle only.
-/

namespace Upipe.Common

/-- A Python value. `ndarray` and `object` are opaque. -/
inductive PyVal where
  | none
  | bool (b : Bool)
  | int (n : ℤ)
  | float (bits : UInt64)
  | str (s : String)
  | list (xs : List PyVal)
  | tuple (xs : List PyVal)
  | dict (items : List (PyVal × PyVal))
  | ndarray (handle : ℕ)
  | object (handle : ℕ)
deriving Repr, Inhabited

namespace PyVal

mutual

/-- Structural equality as a boolean. -/
def same : PyVal → PyVal → Bool
  | .none, .none => true
  | .bool a, .bool b => a == b
  | .int a, .int b => a == b
  | .float a, .float b => a == b
  | .str a, .str b => a == b
  | .list xs, .list ys => sameList xs ys
  | .tuple xs, .tuple ys => sameList xs ys
  | .dict xs, .dict ys => sameItems xs ys
  | .ndarray a, .ndarray b => a == b
  | .object a, .object b => a == b
  | _, _ => false

def sameList : List PyVal → List PyVal → Bool
  | [], [] => true
  | x :: xs, y :: ys => same x y && sameList xs ys
  | _, _ => false

def sameItems : List (PyVal × PyVal) → List (PyVal × PyVal) → Bool
  | [], [] => true
  | (k, x) :: xs, (l, y) :: ys => same k l && same x y && sameItems xs ys
  | _, _ => false

end

mutual

theorem same_iff : ∀ a b : PyVal, same a b = true ↔ a = b
  | .none, b => by cases b <;> simp [same]
  | .bool _, b => by cases b <;> simp [same]
  | .int _, b => by cases b <;> simp [same]
  | .float _, b => by cases b <;> simp [same]
  | .str _, b => by cases b <;> simp [same]
  | .list xs, b => by cases b <;> simp [same, sameList_iff xs]
  | .tuple xs, b => by cases b <;> simp [same, sameList_iff xs]
  | .dict xs, b => by cases b <;> simp [same, sameItems_iff xs]
  | .ndarray _, b => by cases b <;> simp [same]
  | .object _, b => by cases b <;> simp [same]

theorem sameList_iff : ∀ xs ys : List PyVal, sameList xs ys = true ↔ xs = ys
  | [], ys => by cases ys <;> simp [sameList]
  | x :: xs, ys => by cases ys <;> simp [sameList, same_iff x, sameList_iff xs]

theorem sameItems_iff : ∀ xs ys : List (PyVal × PyVal), sameItems xs ys = true ↔ xs = ys
  | [], ys => by cases ys <;> simp [sameItems]
  | (k, x) :: xs, ys => by
      cases ys <;> simp [sameItems, same_iff k, same_iff x, sameItems_iff xs, Prod.ext_iff]

end

instance : DecidableEq PyVal := fun a b => decidable_of_iff _ (same_iff a b)

/-- `bool(v)`: empty containers, zero and `None` are false. -/
def truthy : PyVal → Bool
  | .none => false
  | .bool b => b
  | .int n => n != 0
  | .float bits => bits <<< 1 != 0
  | .str s => s != ""
  | .list xs | .tuple xs => !xs.isEmpty
  | .dict items => !items.isEmpty
  | .ndarray _ | .object _ => true

end PyVal

end Upipe.Common
