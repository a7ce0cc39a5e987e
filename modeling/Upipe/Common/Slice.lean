import Mathlib.Algebra.GroupWithZero.Nat
import Mathlib.Algebra.Group.Int.Defs
import Mathlib.Data.List.Basic
import Mathlib.Data.Nat.Notation
import Mathlib.Data.Int.Notation
import Mathlib.Tactic.Common

/-!
# Slices of a list and little-endian integers

`slice` and `patch` are the two halves of a clamped slice expression: read `xs[lo:hi]`, and overwrite
a stretch of the same length in place. `pySlice` adds the negative indices of a slice expression over
the integers. `leBytes` and `leValue` convert between a natural number and its little-endian bytes.
-/

namespace Upipe.Common

variable {α : Type*}

/-! ## Reading and overwriting a stretch -/

/-- `xs[lo:hi]`, clamped to the ends of the list. -/
def slice (xs : List α) (lo hi : ℕ) : List α := (xs.take hi).drop lo

/-- Overwrite the cells from position `p` on with `ys`. -/
def patch (xs : List α) (p : ℕ) (ys : List α) : List α :=
  xs.take p ++ ys ++ xs.drop (p + ys.length)

@[simp] theorem length_slice (xs : List α) (lo hi : ℕ) :
    (slice xs lo hi).length = min hi xs.length - lo := by
  simp [slice]

theorem getElem?_slice (xs : List α) (lo hi i : ℕ) :
    (slice xs lo hi)[i]? = if lo + i < hi then xs[lo + i]? else none := by
  simp only [slice, List.getElem?_drop, List.getElem?_take]

theorem slice_eq_take_drop (xs : List α) (lo n : ℕ) :
    slice xs lo (lo + n) = (xs.drop lo).take n := by
  rw [slice, List.drop_take, Nat.add_sub_cancel_left]

theorem slice_to_end (xs : List α) (lo : ℕ) : slice xs lo xs.length = xs.drop lo := by
  rw [slice, List.take_length]

@[simp] theorem slice_zero (xs : List α) (hi : ℕ) : slice xs 0 hi = xs.take hi := rfl

/-- A slice that starts behind a prefix is a slice of the rest. -/
theorem slice_append_right {xs ys : List α} {lo hi : ℕ} (h : xs.length ≤ lo) :
    slice (xs ++ ys) lo hi = slice ys (lo - xs.length) (hi - xs.length) := by
  apply List.ext_getElem?
  intro i
  rw [getElem?_slice, getElem?_slice, List.getElem?_append_right (by omega)]
  have hidx : lo + i - xs.length = lo - xs.length + i := by omega
  by_cases hi' : lo + i < hi
  · rw [if_pos hi', if_pos (by omega), hidx]
  · rw [if_neg hi', if_neg (by omega)]

/-- A slice that ends inside a prefix is a slice of the prefix. -/
theorem slice_append_left {xs ys : List α} {lo hi : ℕ} (h : hi ≤ xs.length) :
    slice (xs ++ ys) lo hi = slice xs lo hi := by
  rw [slice, slice, List.take_append_of_le_length h]

@[simp] theorem length_patch {xs ys : List α} {p : ℕ} (h : p + ys.length ≤ xs.length) :
    (patch xs p ys).length = xs.length := by
  simp only [patch, List.length_append, List.length_take, List.length_drop]
  omega

theorem getElem?_patch {xs ys : List α} {p : ℕ} (h : p + ys.length ≤ xs.length) (i : ℕ) :
    (patch xs p ys)[i]?
      = if i < p then xs[i]? else if i < p + ys.length then ys[i - p]? else xs[i]? := by
  have hp : (xs.take p).length = p := by rw [List.length_take]; omega
  rw [patch, List.append_assoc]
  by_cases hlt : i < p
  · rw [if_pos hlt, List.getElem?_append_left (by omega), List.getElem?_take, if_pos hlt]
  · rw [if_neg hlt, List.getElem?_append_right (by omega), hp]
    by_cases hin : i < p + ys.length
    · rw [if_pos hin, List.getElem?_append_left (by omega)]
    · rw [if_neg hin, List.getElem?_append_right (by omega), List.getElem?_drop]
      congr 1
      omega

/-- A stretch that ends inside a prefix is overwritten there. -/
theorem patch_append_left {xs ys zs : List α} {p : ℕ} (h : p + ys.length ≤ xs.length) :
    patch (xs ++ zs) p ys = patch xs p ys ++ zs := by
  rw [patch, patch, List.take_append_of_le_length (by omega), List.drop_append_of_le_length h,
    List.append_assoc, List.append_assoc]
  rw [List.append_assoc]

/-- Reading back the stretch just written. -/
theorem slice_patch_self {xs ys : List α} {p : ℕ} (h : p + ys.length ≤ xs.length) :
    slice (patch xs p ys) p (p + ys.length) = ys := by
  have hp : (xs.take p).length = p := by rw [List.length_take]; omega
  rw [slice_eq_take_drop, patch, List.append_assoc]
  conv_lhs => enter [2, 1]; rw [← hp]
  rw [List.drop_left, List.take_left]

/-- A slice disjoint from the stretch written is unchanged. -/
theorem slice_patch_of_disjoint {xs ys : List α} {p lo hi : ℕ} (h : p + ys.length ≤ xs.length)
    (hd : hi ≤ p ∨ p + ys.length ≤ lo) : slice (patch xs p ys) lo hi = slice xs lo hi := by
  apply List.ext_getElem?
  intro i
  rw [getElem?_slice, getElem?_slice]
  by_cases hi' : lo + i < hi
  · rw [if_pos hi', if_pos hi', getElem?_patch h]
    rcases hd with hd | hd
    · rw [if_pos (by omega)]
    · rw [if_neg (by omega), if_neg (by omega)]
  · rw [if_neg hi', if_neg hi']

/-- Dropping cells in front of the stretch written shifts its position. -/
theorem drop_patch_of_ge {xs ys : List α} {p n : ℕ} (h : p + ys.length ≤ xs.length) (hn : n ≤ p) :
    (patch xs p ys).drop n = patch (xs.drop n) (p - n) ys := by
  have hlen : p - n + ys.length ≤ (xs.drop n).length := by rw [List.length_drop]; omega
  apply List.ext_getElem?
  intro i
  rw [List.getElem?_drop, getElem?_patch h, getElem?_patch hlen, List.getElem?_drop]
  by_cases hlt : n + i < p
  · rw [if_pos hlt, if_pos (show i < p - n by omega)]
  · rw [if_neg hlt, if_neg (show ¬ i < p - n by omega)]
    by_cases hin : n + i < p + ys.length
    · rw [if_pos hin, if_pos (show i < p - n + ys.length by omega)]
      congr 1
      omega
    · rw [if_neg hin, if_neg (show ¬ i < p - n + ys.length by omega)]

/-! ## Slice expressions with integer bounds -/

/-- The position a slice bound denotes in a sequence of length `n`: negative bounds count from the
end, and everything is clamped. -/
def sliceIndex (i : ℤ) (n : ℕ) : ℕ := if i < 0 then (i + n).toNat else min i.toNat n

/-- `xs[lo:hi]` with integer bounds. -/
def pySlice (xs : List α) (lo hi : ℤ) : List α :=
  slice xs (sliceIndex lo xs.length) (sliceIndex hi xs.length)

theorem sliceIndex_of_nonneg {i : ℤ} {n : ℕ} (h : 0 ≤ i) (hn : i ≤ n) :
    sliceIndex i n = i.toNat := by
  rw [sliceIndex, if_neg (by omega)]
  omega

/-- With bounds inside the sequence the integer slice is the natural one. -/
theorem pySlice_of_le {xs : List α} {lo hi : ℤ} (h0 : 0 ≤ lo) (h1 : lo ≤ xs.length) (h2 : 0 ≤ hi)
    (h3 : hi ≤ xs.length) : pySlice xs lo hi = slice xs lo.toNat hi.toNat := by
  rw [pySlice, sliceIndex_of_nonneg h0 h1, sliceIndex_of_nonneg h2 h3]

/-! ## Items -/

/-- The position that an index denotes in a sequence of length `n`, if there is one: a negative index counts from the
end. -/
def itemIndex (i : ℤ) (n : ℕ) : Option ℕ :=
  if 0 ≤ i then if i < n then some i.toNat else none
  else if 0 ≤ i + n then some (i + n).toNat else none

theorem itemIndex_natCast (k n : ℕ) : itemIndex k n = if k < n then some k else none := by
  simp only [itemIndex, Int.natCast_nonneg, if_true, Int.ofNat_lt, Int.toNat_natCast]

theorem itemIndex_lt {i : ℤ} {n k : ℕ} (h : itemIndex i n = some k) : k < n ∧ i ≤ n := by
  unfold itemIndex at h
  split at h <;> split at h <;> cases h <;> omega

/-! ## Little-endian integers -/

/-- The `len` low bytes of `v`, least significant first. -/
def leBytes : ℕ → ℕ → List UInt8
  | 0, _ => []
  | len + 1, v => UInt8.ofNat v :: leBytes len (v / 256)

/-- The number whose little-endian bytes are `bs`. -/
def leValue : List UInt8 → ℕ
  | [] => 0
  | b :: bs => b.toNat + 256 * leValue bs

@[simp] theorem length_leBytes (len v : ℕ) : (leBytes len v).length = len := by
  induction len generalizing v with
  | zero => rfl
  | succ len ih => rw [leBytes, List.length_cons, ih]

/-- Every number below `256 ^ len` is read back from its `len` bytes. -/
theorem leValue_leBytes {len v : ℕ} (h : v < 256 ^ len) : leValue (leBytes len v) = v := by
  induction len generalizing v with
  | zero => simp only [Nat.pow_zero] at h; simp only [leBytes, leValue]; omega
  | succ len ih =>
    rw [leBytes, leValue, ih (by rw [Nat.pow_succ] at h; omega), UInt8.toNat_ofNat']
    omega

theorem leValue_lt (bs : List UInt8) : leValue bs < 256 ^ bs.length := by
  induction bs with
  | nil => simp [leValue]
  | cons b bs ih =>
    have hb : b.toNat < 256 := b.toNat_lt
    rw [leValue, List.length_cons, Nat.pow_succ]
    omega

end Upipe.Common
