import Mathlib.Data.List.Induction
import Mathlib.Data.List.Range
import Mathlib.Data.Nat.ModEq
import Mathlib.Logic.Function.Basic

/-!
# Machinery/Ring — a list held in a ring of cells

A ring buffer is a map of cells, a capacity, and a window of `count` cells that starts at `first`
and wraps.  `window` is the list it holds.  Pushing writes the cell past the window, popping moves
its start, growing unwraps it; the three lemmas say that each does to the list what its name says.
-/

namespace SoftPC.Ring

variable {α : Type*}

/-- The list in the window of `count` cells from `first`. -/
def window (cells : ℕ → α) (capacity first count : ℕ) : List α :=
  (List.range count).map fun i => cells ((first + i) % capacity)

@[simp] theorem window_length (cells : ℕ → α) (capacity first count : ℕ) :
    (window cells capacity first count).length = count := by
  simp [window]

@[simp] theorem window_zero (cells : ℕ → α) (capacity first : ℕ) :
    window cells capacity first 0 = [] := rfl

/-- Two offsets below the capacity fall on different cells. -/
theorem offset_ne {capacity first i j : ℕ} (hij : i < j) (hj : j < capacity) :
    (first + i) % capacity ≠ (first + j) % capacity := by
  intro h
  have hmod : i % capacity = j % capacity := Nat.ModEq.add_left_cancel' first h
  rw [Nat.mod_eq_of_lt (hij.trans hj), Nat.mod_eq_of_lt hj] at hmod
  omega

/-- A write past the window does not show in it. -/
theorem window_update_past (cells : ℕ → α) {capacity first count : ℕ} (h : count < capacity)
    (v : α) :
    window (Function.update cells ((first + count) % capacity) v) capacity first count
      = window cells capacity first count := by
  refine List.map_congr_left fun i hi => ?_
  exact Function.update_of_ne (offset_ne (List.mem_range.mp hi) h) _ _

/-- **Push**: the cell past the window becomes its last. -/
theorem window_push (cells : ℕ → α) {capacity first count : ℕ} (h : count < capacity) (v : α) :
    window (Function.update cells ((first + count) % capacity) v) capacity first (count + 1)
      = window cells capacity first count ++ [v] := by
  rw [window, List.range_succ, List.map_append, ← window, window_update_past cells h]
  simp

/-- **Pop**: the first cell leaves, and the window starts one further on. -/
theorem window_pop (cells : ℕ → α) (capacity first count : ℕ) :
    window cells capacity first (count + 1)
      = cells (first % capacity) :: window cells capacity ((first + 1) % capacity) count := by
  rw [window, List.range_succ_eq_map, List.map_cons, List.map_map]
  refine congrArg₂ List.cons rfl (List.map_congr_left fun i _ => ?_)
  simp only [Function.comp_apply, Nat.mod_add_mod]
  congr 2
  omega

/-- Values written to consecutive cells, one cell a round. -/
def write (cells : ℕ → α) (capacity first : ℕ) (values : List α) : ℕ → α :=
  values.zipIdx.foldl (fun cells x => Function.update cells ((first + x.2) % capacity) x.1) cells

/-- **Append**: values written past the window become its end. -/
theorem window_write (cells : ℕ → α) {capacity first count : ℕ} {values : List α}
    (h : count + values.length ≤ capacity) :
    window (write cells capacity (first + count) values) capacity first (count + values.length)
      = window cells capacity first count ++ values := by
  induction values using List.reverseRecOn with
  | nil => simp [write]
  | append_singleton values v ih =>
    rw [List.length_append, List.length_singleton] at h ⊢
    have hwrite : write cells capacity (first + count) (values ++ [v]) =
        Function.update (write cells capacity (first + count) values)
          ((first + (count + values.length)) % capacity) v := by
      simp [write, List.zipIdx_append, Nat.add_assoc]
    have hcount : count + (values.length + 1) = count + values.length + 1 := rfl
    rw [hwrite, hcount, window_push _ (by omega), ih (by omega), List.append_assoc]

/-- **Advance**: the first cells leave, and the window starts past them. -/
theorem window_drop (cells : ℕ → α) (capacity first : ℕ) {n count : ℕ} (h : n ≤ count) :
    window cells capacity ((first + n) % capacity) (count - n)
      = (window cells capacity first count).drop n := by
  induction n generalizing first count with
  | zero => simp [window]
  | succ n ih =>
    obtain ⟨count, rfl⟩ : ∃ k, count = k + 1 := ⟨count - 1, by omega⟩
    rw [window_pop, List.drop_succ_cons, ← ih _ (by omega), Nat.mod_add_mod,
      Nat.add_sub_add_right]
    congr 2
    omega

theorem window_take (cells : ℕ → α) (capacity first n count : ℕ) :
    (window cells capacity first count).take n = window cells capacity first (min n count) := by
  rw [window, ← List.map_take, List.take_range, window]

/-- The window copied out to the start of fresh cells, one cell a round. -/
def unwrap (zero : α) (cells : ℕ → α) (capacity first count : ℕ) : ℕ → α :=
  (List.range count).foldl (fun out i => Function.update out i (cells ((first + i) % capacity)))
    fun _ => zero

theorem unwrap_apply (zero : α) (cells : ℕ → α) (capacity first count : ℕ) {i : ℕ}
    (hi : i < count) :
    unwrap zero cells capacity first count i = cells ((first + i) % capacity) := by
  induction count with
  | zero => omega
  | succ n ih =>
    rw [unwrap, List.range_succ, List.foldl_append, ← unwrap]
    rcases Nat.lt_succ_iff_lt_or_eq.mp hi with h | rfl
    · simpa [h.ne] using ih h
    · simp

/-- **Growth**: unwrapping into a larger ring keeps the list. -/
theorem window_unwrap (zero : α) (cells : ℕ → α) (capacity first count : ℕ) {larger : ℕ}
    (h : count ≤ larger) :
    window (unwrap zero cells capacity first count) larger 0 count
      = window cells capacity first count := by
  refine List.map_congr_left fun i hi => ?_
  have hi := List.mem_range.mp hi
  rw [Nat.zero_add, Nat.mod_eq_of_lt (hi.trans_le h), unwrap_apply zero cells _ _ _ hi]

end SoftPC.Ring
