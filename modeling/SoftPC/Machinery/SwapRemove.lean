import Mathlib.Data.List.Perm.Basic

/-!
# Machinery/SwapRemove — removal by moving the last entry into the hole

An unordered array removes an entry in one move.  Up to order, that is removal.
-/

namespace SoftPC

open scoped List

variable {α : Type*}

/-- `l[i] = l[--count]`. -/
def swapRemove (l : List α) (i : ℕ) : List α :=
  match l.getLast? with
  | none => l
  | some last => (l.set i last).dropLast

@[simp] theorem length_swapRemove (l : List α) (i : ℕ) :
    (swapRemove l i).length = l.length - 1 := by
  unfold swapRemove
  split
  · simp_all
  · simp

theorem swapRemove_append_singleton (l : List α) (a : α) (i : ℕ) :
    swapRemove (l ++ [a]) i = l.set i a := by
  have hlast : swapRemove (l ++ [a]) i = ((l ++ [a]).set i a).dropLast := by simp [swapRemove]
  rw [hlast]
  by_cases h : i < l.length
  · rw [List.set_append_left _ _ h, List.dropLast_concat]
  · rw [List.set_append_right _ _ (Nat.le_of_not_lt h), List.set_eq_of_length_le (Nat.le_of_not_lt h)]
    cases i - l.length <;> simp

/-- **Up to order, the entry at `i` and nothing else is gone.** -/
theorem swapRemove_perm {l : List α} {i : ℕ} (h : i < l.length) :
    l.Perm (l[i] :: swapRemove l i) := by
  obtain ⟨m, a, rfl⟩ := (List.eq_nil_or_concat l).resolve_left (by rintro rfl; simp at h)
  rw [List.concat_eq_append] at h
  simp only [List.concat_eq_append, swapRemove_append_singleton]
  rw [List.length_append, List.length_singleton, Nat.lt_succ_iff_lt_or_eq] at h
  rcases h with h | rfl
  · rw [List.getElem_append_left h]
    calc m ++ [a] ~ a :: m := List.perm_append_singleton a m
      _ ~ a :: m[i] :: m.eraseIdx i := (List.getElem_cons_eraseIdx_perm h).symm.cons a
      _ ~ m[i] :: a :: m.eraseIdx i := .swap _ _ _
      _ ~ m[i] :: m.set i a := (List.set_perm_cons_eraseIdx h a).symm.cons _
  · rw [List.set_eq_of_length_le (Nat.le_refl _)]
    simp

/-- What stood in the hole does not matter. -/
theorem swapRemove_set {l : List α} {i : ℕ} (h : i < l.length) (a : α) :
    swapRemove (l.set i a) i = swapRemove l i := by
  obtain ⟨m, b, rfl⟩ := (List.eq_nil_or_concat l).resolve_left (by rintro rfl; simp at h)
  rw [List.concat_eq_append] at h ⊢
  rw [List.length_append, List.length_singleton, Nat.lt_succ_iff_lt_or_eq] at h
  rcases h with h | rfl
  · rw [List.set_append_left _ _ h, swapRemove_append_singleton, swapRemove_append_singleton,
      List.set_set]
  · rw [List.set_append_right _ _ (Nat.le_refl _), Nat.sub_self, List.set_cons_zero,
      swapRemove_append_singleton, swapRemove_append_singleton,
      List.set_eq_of_length_le (Nat.le_refl _), List.set_eq_of_length_le (Nat.le_refl _)]

/-- …and what stands before it stays. -/
theorem take_swapRemove {l : List α} {i : ℕ} (h : i < l.length) :
    (swapRemove l i).take i = l.take i := by
  obtain ⟨m, b, rfl⟩ := (List.eq_nil_or_concat l).resolve_left (by rintro rfl; simp at h)
  rw [List.concat_eq_append] at h ⊢
  rw [List.length_append, List.length_singleton] at h
  rw [swapRemove_append_singleton, List.take_set_of_le (Nat.le_refl i),
    List.take_append_of_le_length (by omega)]

end SoftPC
