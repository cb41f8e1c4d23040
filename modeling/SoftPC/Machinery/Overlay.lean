import Mathlib.Data.List.Basic
import Mathlib.Data.List.TakeDrop
import Mathlib.Logic.Function.Basic
import Mathlib.Tactic.Common

/-!
# Machinery/Overlay — one array, in pages over a base

An array is a map from indices.  `patch` stores a list of values in it, `slice` reads one out, and
`view` is the array that a partial map of pages makes over a base: a page where there is one, the
base elsewhere.  Patching a page patches the view.
-/

namespace SoftPC.Overlay

variable {α : Type*}

/-- The array with `values` stored from `offset` on. -/
def patch (array : ℕ → α) (offset : ℕ) (values : List α) : ℕ → α :=
  fun i => if offset ≤ i then (values[i - offset]?).getD (array i) else array i

/-- The `count` values from `offset` on. -/
def slice (array : ℕ → α) (offset count : ℕ) : List α :=
  (List.range count).map fun i => array (offset + i)

@[simp] theorem patch_nil (array : ℕ → α) (offset : ℕ) : patch array offset [] = array := by
  funext i
  simp [patch]

theorem patch_of_lt (array : ℕ → α) {offset i : ℕ} (values : List α) (h : i < offset) :
    patch array offset values i = array i := if_neg (Nat.not_le.mpr h)

theorem patch_of_ge (array : ℕ → α) {offset i : ℕ} {values : List α}
    (h : offset + values.length ≤ i) : patch array offset values i = array i := by
  unfold patch
  rw [List.getElem?_eq_none (by omega)]
  simp

/-- Storing two lists one after the other stores them both. -/
theorem patch_append (array : ℕ → α) (offset : ℕ) (first second : List α) :
    patch (patch array offset first) (offset + first.length) second
      = patch array offset (first ++ second) := by
  funext i
  rcases Nat.lt_or_ge i offset with hlt | hge
  · rw [patch_of_lt _ _ (by omega), patch_of_lt _ _ hlt, patch_of_lt _ _ hlt]
  rcases Nat.lt_or_ge i (offset + first.length) with hin | hpast
  · rw [patch_of_lt _ _ hin, patch, patch, if_pos hge, if_pos hge,
      List.getElem?_append_left (by omega)]
  · rw [patch, if_pos hpast, patch_of_ge _ hpast, patch, if_pos hge,
      List.getElem?_append_right (by omega), Nat.sub_add_eq]

@[simp] theorem slice_length (array : ℕ → α) (offset count : ℕ) :
    (slice array offset count).length = count := by
  simp [slice]

theorem slice_append (array : ℕ → α) (offset m n : ℕ) :
    slice array offset m ++ slice array (offset + m) n = slice array offset (m + n) := by
  simp [slice, List.range_add, Function.comp_def, Nat.add_assoc]

theorem slice_congr {array array' : ℕ → α} {offset offset' count : ℕ}
    (h : ∀ i < count, array (offset + i) = array' (offset' + i)) :
    slice array offset count = slice array' offset' count :=
  List.map_congr_left fun i hi => h i (List.mem_range.mp hi)

section Pages

variable {size : ℕ} {base : ℕ → α} {pages : ℕ → Option (ℕ → α)}

/-- A page where there is one, the base elsewhere. -/
def view (size : ℕ) (base : ℕ → α) (pages : ℕ → Option (ℕ → α)) : ℕ → α := fun i =>
  match pages (i / size) with
  | some page => page (i % size)
  | none => base i

theorem view_of_page {page : ℕ → α} {i : ℕ} (h : pages (i / size) = some page) :
    view size base pages i = page (i % size) := by
  simp [view, h]

theorem view_of_base {i : ℕ} (h : pages (i / size) = none) : view size base pages i = base i := by
  simp [view, h]

/-- An index within the page of `offset`. -/
theorem div_of_within {offset i : ℕ} (h : i < size - offset % size) :
    (offset + i) / size = offset / size ∧ (offset + i) % size = offset % size + i := by
  have hpos : 0 < size := by omega
  have hsum : offset % size + i < size := by omega
  constructor
  · rw [Nat.add_div hpos, Nat.div_eq_of_lt (by omega : i < size), Nat.mod_eq_of_lt (by omega : i < size),
      if_neg (by omega)]
    rfl
  · rw [Nat.add_mod, Nat.mod_eq_of_lt (by omega : i < size), Nat.mod_eq_of_lt hsum]

/-- **Patching a page** that shows what was there patches the view. -/
theorem view_update (hpos : 0 < size) {offset : ℕ} {values : List α} {page : ℕ → α}
    (hfit : values.length ≤ size - offset % size)
    (hpage : ∀ j < size, page j = view size base pages (offset / size * size + j)) :
    view size base
        (Function.update pages (offset / size) (some (patch page (offset % size) values)))
      = patch (view size base pages) offset values := by
  funext i
  have hoffset : offset / size * size + offset % size = offset := Nat.div_add_mod' offset size
  have hi : i / size * size + i % size = i := Nat.div_add_mod' i size
  have hmod : i % size < size := Nat.mod_lt _ hpos
  by_cases hindex : i / size = offset / size
  · rw [view_of_page (by rw [hindex, Function.update_self])]
    rw [hindex] at hi
    have hshow : page (i % size) = view size base pages i := by rw [hpage _ hmod, hi]
    rcases Nat.lt_or_ge i offset with hlt | hge
    · rw [patch_of_lt _ _ hlt, patch_of_lt _ _ (by omega), hshow]
    · have hsub : i % size - offset % size = i - offset := by omega
      rw [patch, patch, if_pos (by omega), if_pos hge, hshow, hsub]
  · -- The values do not reach another page.
    have hsame : view size base
        (Function.update pages (offset / size) (some (patch page (offset % size) values))) i
        = view size base pages i := by
      unfold view
      rw [Function.update_of_ne hindex]
    rw [hsame]
    rcases Nat.lt_or_ge i offset with hlt | hge
    · rw [patch_of_lt _ _ hlt]
    · rw [patch_of_ge]
      by_contra hin
      have hwithin : i - offset < size - offset % size := by omega
      have := (div_of_within hwithin).1
      rw [Nat.add_sub_cancel' hge] at this
      exact hindex this

end Pages

end SoftPC.Overlay
