import SoftPC.Machinery.Scatter

/-!
# Machinery/Placed — a function changed at places

`Placed n place value f g`: `g` has the values at the first `n` places, and is as `f` elsewhere.
-/

namespace SoftPC

variable {α β : Type*}

/-- The first `n` places have their values, and nothing else has changed. -/
def Placed (n : ℕ) (place : ℕ → α) (value : ℕ → β) (f g : α → β) : Prop :=
  (∀ k < n, g (place k) = value k) ∧ ∀ a, (∀ k < n, place k ≠ a) → g a = f a

namespace Placed

variable {m n : ℕ} {place : ℕ → α} {value : ℕ → β} {f g h : α → β}

theorem zero (place : ℕ → α) (value : ℕ → β) (f : α → β) : Placed 0 place value f f :=
  ⟨fun _ hk => absurd hk (Nat.not_lt_zero _), fun _ _ => rfl⟩

theorem congr {place' : ℕ → α} {value' : ℕ → β} (h : Placed n place value f g) (hplace : ∀ k < n, place k = place' k)
    (hvalue : ∀ k < n, value k = value' k) : Placed n place' value' f g :=
  ⟨fun k hk => by rw [← hplace k hk, h.1 k hk, hvalue k hk],
    fun a ha => h.2 a fun k hk => hplace k hk ▸ ha k hk⟩

/-- More places, after the first. -/
theorem append (hinj : ∀ i < m + n, ∀ j < m + n, place i = place j → i = j) (hfirst : Placed m place value f g)
    (hrest : Placed n (fun k => place (m + k)) (fun k => value (m + k)) g h) : Placed (m + n) place value f h := by
  constructor
  · intro k hk
    by_cases hkm : k < m
    · rw [hrest.2 (place k) fun j hj heq => ?_, hfirst.1 k hkm]
      have := hinj (m + j) (by omega) k hk heq
      omega
    · obtain ⟨j, rfl⟩ := Nat.exists_eq_add_of_le (Nat.le_of_not_lt hkm)
      exact hrest.1 j (by omega)
  · intro a ha
    rw [hrest.2 a fun k hk => ha (m + k) (by omega), hfirst.2 a fun k hk => ha k (by omega)]

/-- Only the first places are changed where the rest keep what they have. -/
theorem shorten_iff (hinj : ∀ i < n, ∀ j < n, place i = place j → i = j) (hm : m ≤ n) (hg : Placed n place value f g) :
    Placed m place value f g ↔ ∀ k < n, m ≤ k → value k = f (place k) := by
  constructor
  · intro hshort k hk hmk
    rw [← hg.1 k hk, hshort.2 (place k) fun j hj heq => ?_]
    have := hinj j (by omega) k hk heq
    omega
  · intro hrest
    refine ⟨fun k hk => hg.1 k (by omega), fun a ha => ?_⟩
    by_cases hplace : ∃ k < n, place k = a
    · obtain ⟨k, hk, rfl⟩ := hplace
      have hmk : m ≤ k := by
        by_contra hlt
        exact ha k (by omega) rfl
      rw [hg.1 k hk, hrest k hk hmk]
    · exact hg.2 a fun k hk heq => hplace ⟨k, hk, heq⟩

/-- What is scattered is placed. -/
theorem of_scatter [DecidableEq α] (hinj : ∀ i < n, ∀ j < n, place i = place j → i = j) (f : α → β) :
    Placed n place value f (scatter (((List.range n).map place).zip ((List.range n).map value)) f) := by
  have hzip : ((List.range n).map place).zip ((List.range n).map value) = (List.range n).map fun k => (place k, value k) := by
    rw [List.zip_map', List.map_inj_left]
    intro _ _
    rfl
  have hfst : ((List.range n).map fun k => (place k, value k)).map Prod.fst = (List.range n).map place := by
    rw [List.map_map]
    rfl
  have hnodup : (((List.range n).map fun k => (place k, value k)).map Prod.fst).Nodup := by
    rw [hfst]
    exact List.nodup_range.map_on fun i hi j hj => hinj i (List.mem_range.mp hi) j (List.mem_range.mp hj)
  rw [hzip]
  constructor
  · intro k hk
    exact scatter_of_mem hnodup (List.mem_map_of_mem (f := fun k => (place k, value k)) (List.mem_range.mpr hk)) f
  · intro a ha
    refine scatter_of_not_mem (fun hmem => ?_) f
    rw [hfst, List.mem_map] at hmem
    obtain ⟨k, hk, heq⟩ := hmem
    exact ha k (List.mem_range.mp hk) heq

end Placed

end SoftPC
