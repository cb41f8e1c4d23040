import Mathlib.Data.List.Nodup
import Mathlib.Data.List.ProdSigma
import Mathlib.Logic.Function.Basic

/-!
# Machinery/Raster — loops over the pixels of a rectangle

A loop goes over places and changes what is at each (`inPlace`): each place has been changed once, from what it held
first.  The places of the pixels of a raster are different, as long as
no column reaches the stride (`place_inj`).
-/

namespace SoftPC

section

variable {ι α β : Type*} [DecidableEq α]
variable (place : ι → α) (f : ι → β → β)

/-- The loop. -/
def inPlace (l : List ι) (m : α → β) : α → β := l.foldl (fun m i => Function.update m (place i) (f i (m (place i)))) m

variable {place f} {l : List ι} {m : α → β}

theorem inPlace_cons {i : ι} : inPlace place f (i :: l) m =
    inPlace place f l (Function.update m (place i) (f i (m (place i)))) := rfl

theorem inPlace_of_ne {a : α} (h : ∀ i ∈ l, place i ≠ a) : inPlace place f l m a = m a := by
  induction l generalizing m with
  | nil => rfl
  | cons i l ih =>
    rw [inPlace_cons, ih fun j hj => h j (List.mem_cons_of_mem _ hj), Function.update_of_ne (h i List.mem_cons_self).symm]

theorem inPlace_place (hl : l.Nodup) (hinj : ∀ i ∈ l, ∀ j ∈ l, place i = place j → i = j) {i : ι} (hi : i ∈ l) :
    inPlace place f l m (place i) = f i (m (place i)) := by
  induction l generalizing m with
  | nil => cases hi
  | cons j l ih =>
    obtain ⟨hj, hl⟩ := List.nodup_cons.mp hl
    rw [inPlace_cons]
    obtain rfl | hi := List.mem_cons.mp hi
    · rw [inPlace_of_ne fun k hk heq => ?_, Function.update_self]
      exact hj (hinj k (List.mem_cons_of_mem _ hk) i List.mem_cons_self heq ▸ hk)
    · have hne : place i ≠ place j := fun heq =>
        hj (hinj i (List.mem_cons_of_mem _ hi) j List.mem_cons_self heq ▸ hi)
      rw [ih hl (fun k hk k' hk' => hinj k (List.mem_cons_of_mem _ hk) k' (List.mem_cons_of_mem _ hk')) hi,
        Function.update_of_ne hne]

end

/-! ## Rasters -/

namespace Raster

/-- A pixel is a row and a column. -/
abbrev Pixel := ℕ × ℕ

/-- Where a pixel is. -/
def place (stride : ℕ) (p : Pixel) : ℕ := p.1 * stride + p.2

variable {stride : ℕ} {p q : Pixel}

theorem place_inj (hp : p.2 < stride) (hq : q.2 < stride) (h : place stride p = place stride q) : p = q := by
  unfold place at h
  have hrow : p.1 = q.1 := by
    have hdiv := congrArg (· / stride) h
    rwa [Nat.mul_comm, Nat.mul_add_div (by omega), Nat.div_eq_of_lt hp, Nat.mul_comm q.1, Nat.mul_add_div (by omega),
      Nat.div_eq_of_lt hq] at hdiv
  rw [hrow] at h
  exact Prod.ext hrow (Nat.add_left_cancel h)

/-- A place within so many rows. -/
theorem place_lt {rows : ℕ} (hrow : p.1 < rows) (hcolumn : p.2 < stride) : place stride p < rows * stride := by
  have hle := Nat.mul_le_mul_right stride (Nat.succ_le_of_lt hrow)
  rw [Nat.succ_mul] at hle
  unfold place
  omega

end Raster

end SoftPC
