import Upipe.Common.Slice
import Mathlib.Data.List.Rotate

/-!
# A ring of cells seen from its head

A ring buffer is a list of cells read circularly. `cells.rotate p` is the ring read from position `p`
on, so a read or a write that runs over the end of the list is a prefix of a rotation
(`rotate_take_*`, `rotate_patch_*`). `Laid` says that the ring read from `head` on holds a given
contents followed by blank cells; `Laid.push` and `Laid.pop` are the two moves of a queue on it.
-/

namespace Upipe.Common

variable {α : Type*}

/-! ## Reads and writes that may run over the end -/

/-- A read that ends inside the list is a plain slice. -/
theorem rotate_take_of_fit {cells : List α} {p n : ℕ} (h : p + n ≤ cells.length) :
    (cells.rotate p).take n = slice cells p (p + n) := by
  rw [List.rotate_eq_drop_append_take (by omega), slice_eq_take_drop,
    List.take_append_of_le_length (by rw [List.length_drop]; omega)]

/-- A read that runs over the end continues at the first cell. -/
theorem rotate_take_of_wrap {cells : List α} {p n : ℕ} (hp : p ≤ cells.length)
    (h : cells.length ≤ p + n) (hn : n ≤ cells.length) :
    (cells.rotate p).take n = cells.drop p ++ cells.take (p + n - cells.length) := by
  rw [List.rotate_eq_drop_append_take hp, List.take_append, List.length_drop,
    List.take_of_length_le (by rw [List.length_drop]; omega), List.take_take]
  congr 2
  omega

/-- A write that ends inside the list, seen from its own position. -/
theorem rotate_patch_of_fit {cells ys : List α} {p : ℕ} (h : p + ys.length ≤ cells.length) :
    (patch cells p ys).rotate p = ys ++ (cells.rotate p).drop ys.length := by
  have htake : (cells.take p).length = p := by rw [List.length_take]; omega
  rw [List.rotate_eq_drop_append_take (by rw [length_patch h]; omega),
    List.rotate_eq_drop_append_take (by omega),
    List.drop_append_of_le_length (by rw [List.length_drop]; omega), List.drop_drop, patch,
    List.append_assoc]
  conv_lhs => enter [1, 1]; rw [← htake]
  conv_lhs => enter [2, 1]; rw [← htake]
  rw [List.drop_left, List.take_left, List.append_assoc]

/-- A write that runs over the end and continues at the first cell, seen from its own position. -/
theorem rotate_patch_of_wrap {cells ys : List α} {p : ℕ} (hp : p ≤ cells.length)
    (h : cells.length ≤ p + ys.length) (hy : ys.length ≤ cells.length) :
    (patch (patch cells p (ys.take (cells.length - p))) 0 (ys.drop (cells.length - p))).rotate p
      = ys ++ (cells.rotate p).drop ys.length := by
  set e := cells.length - p with he
  have hta : (ys.take e).length = e := by rw [List.length_take]; omega
  have hdr : (ys.drop e).length = ys.length - e := List.length_drop ..
  have hcp : (cells.take p).length = p := by rw [List.length_take]; omega
  -- the first write fills the list up to its end
  have hfirst : patch cells p (ys.take e) = cells.take p ++ ys.take e := by
    rw [patch, hta, List.drop_eq_nil_of_le (by omega), List.append_nil]
  have hsecond : patch (cells.take p ++ ys.take e) 0 (ys.drop e)
      = (ys.drop e ++ (cells.take p).drop (ys.drop e).length) ++ ys.take e := by
    rw [patch, List.take_zero, List.nil_append, Nat.zero_add,
      List.drop_append_of_le_length (by omega), List.append_assoc]
  have hmid : (ys.drop e ++ (cells.take p).drop (ys.drop e).length).length = p := by
    rw [List.length_append, List.length_drop (l := cells.take p), hcp]
    omega
  have hright : (cells.rotate p).drop ys.length = (cells.take p).drop (ys.drop e).length := by
    rw [List.rotate_eq_drop_append_take hp, List.drop_append, List.length_drop,
      List.drop_eq_nil_of_le (by rw [List.length_drop]; omega), List.nil_append, hdr]
  rw [hfirst, hsecond, hright]
  conv_lhs => enter [2]; rw [← hmid]
  rw [List.rotate_append_length_eq, ← List.append_assoc, List.take_append_drop]

/-! ## The contents of a ring -/

/-- Read from `head` on, the ring holds `xs` and then only blank cells. -/
structure Laid (blank : α) (cells : List α) (head : ℕ) (xs : List α) : Prop where
  head_lt : head < cells.length
  fits : xs.length ≤ cells.length
  rotate_eq : cells.rotate head = xs ++ List.replicate (cells.length - xs.length) blank

namespace Laid

variable {blank : α} {cells cells' xs ys : List α} {head : ℕ}

/-- A ring of blank cells holds nothing, wherever its head is. -/
theorem replicate {n : ℕ} (h : head < n) : Laid blank (List.replicate n blank) head [] where
  head_lt := by simpa using h
  fits := by simp
  rotate_eq := by simp [List.rotate_replicate]

theorem read (h : Laid blank cells head xs) {n : ℕ} (hn : n ≤ xs.length) :
    (cells.rotate head).take n = xs.take n := by
  rw [h.rotate_eq, List.take_append_of_le_length hn]

/-- The position behind the contents. -/
def tail (cells : List α) (head : ℕ) (xs : List α) : ℕ := (head + xs.length) % cells.length

/-- Seen from its tail, the ring starts with its blank cells. -/
theorem rotate_tail (h : Laid blank cells head xs) :
    cells.rotate (tail cells head xs)
      = List.replicate (cells.length - xs.length) blank ++ xs := by
  rw [tail, List.rotate_mod, ← List.rotate_rotate, h.rotate_eq, List.rotate_append_length_eq]

/-- Writing `ys` over blank cells at the tail appends it to the contents. -/
theorem push (h : Laid blank cells head xs) (hfit : xs.length + ys.length ≤ cells.length)
    (hlen : cells'.length = cells.length)
    (hw : cells'.rotate (tail cells head xs)
      = ys ++ (cells.rotate (tail cells head xs)).drop ys.length) :
    Laid blank cells' head (xs ++ ys) where
  head_lt := by rw [hlen]; exact h.head_lt
  fits := by rw [hlen, List.length_append]; exact hfit
  rotate_eq := by
    set free := List.replicate (cells.length - xs.length - ys.length) blank with hfr
    have hfree : (ys ++ free).length = cells.length - xs.length := by
      rw [List.length_append, hfr, List.length_replicate]; omega
    rw [h.rotate_tail, List.drop_append_of_le_length (by rw [List.length_replicate]; omega),
      List.drop_replicate, ← hfr, ← List.append_assoc] at hw
    -- going on from the tail by the number of free cells leads once around, back to the head
    have hback : cells'.rotate head
        = (cells'.rotate (tail cells head xs)).rotate (cells.length - xs.length) := by
      rw [List.rotate_rotate, tail, ← hlen, ← List.rotate_mod _ ((_ % _) + _), Nat.mod_add_mod,
        show head + xs.length + (cells'.length - xs.length) = head + cells'.length from by
          have := h.fits; omega,
        Nat.add_mod_right, List.rotate_mod]
    rw [hback, hw, ← hfree, List.rotate_append_length_eq, hlen, List.length_append, hfr,
      Nat.sub_sub, List.append_assoc]

/-- Blanking the first part of the contents and moving the head behind it removes that part. -/
theorem pop (h : Laid blank cells head (xs ++ ys)) (hlen : cells'.length = cells.length)
    (hw : cells'.rotate head
      = List.replicate xs.length blank ++ (cells.rotate head).drop xs.length) :
    Laid blank cells' ((head + xs.length) % cells.length) ys where
  head_lt := by rw [hlen]; exact Nat.mod_lt _ (Nat.zero_lt_of_lt h.head_lt)
  fits := by
    have := h.fits
    rw [List.length_append] at this
    omega
  rotate_eq := by
    have hfits := h.fits
    rw [List.length_append] at hfits
    have hrep : xs.length = (List.replicate xs.length blank).length :=
      (List.length_replicate ..).symm
    rw [h.rotate_eq, List.append_assoc, List.drop_left] at hw
    rw [← hlen, List.rotate_mod, ← List.rotate_rotate, hw]
    conv_lhs => enter [2]; rw [hrep]
    rw [List.rotate_append_length_eq, List.append_assoc, List.replicate_append_replicate, hlen,
      List.length_append]
    congr 2
    omega

end Laid

end Upipe.Common
