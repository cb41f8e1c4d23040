import Mathlib.Data.List.Nodup
import Mathlib.Logic.Function.Basic

/-!
# Machinery/Scatter — values written at places

A list of places with the values that go there, written into a function one after the other (`scatter`).  If no
place comes twice the order is of no account (`scatter_reverse`), and the places can be told from what is
read or written there (`places_of_read`, `places_of_scatter`).
-/

namespace SoftPC

variable {α β : Type*}

theorem zip_mem {l : List α} {data : List β} {i : ℕ} (hi : i < l.length) (hi' : i < data.length) :
    (l[i], data[i]) ∈ l.zip data := by
  have hz : i < (l.zip data).length := by
    rw [List.length_zip]
    omega
  have hget : (l.zip data)[i] = (l[i], data[i]) := List.getElem_zip
  exact hget ▸ List.getElem_mem hz

variable [DecidableEq α]

/-- The values are written, the last first. -/
def scatter : List (α × β) → (α → β) → α → β
  | [], f => f
  | ab :: l, f => Function.update (scatter l f) ab.1 ab.2

@[simp] theorem scatter_nil (f : α → β) : scatter [] f = f := rfl

theorem scatter_cons (ab : α × β) (l : List (α × β)) (f : α → β) :
    scatter (ab :: l) f = Function.update (scatter l f) ab.1 ab.2 := rfl

theorem scatter_append (l l' : List (α × β)) (f : α → β) : scatter (l ++ l') f = scatter l (scatter l' f) := by
  induction l with
  | nil => rfl
  | cons ab l ih => rw [List.cons_append, scatter_cons, ih, scatter_cons]

/-- A write elsewhere may come before. -/
theorem scatter_update {l : List (α × β)} {a : α} (ha : a ∉ l.map Prod.fst) (b : β) (f : α → β) :
    scatter l (Function.update f a b) = Function.update (scatter l f) a b := by
  induction l with
  | nil => rfl
  | cons ab l ih =>
    rw [List.map_cons, List.mem_cons, not_or] at ha
    rw [scatter_cons, ih ha.2, scatter_cons, Function.update_comm ha.1]

/-- **The order is of no account** if no place comes twice. -/
theorem scatter_reverse {l : List (α × β)} (hl : (l.map Prod.fst).Nodup) (f : α → β) :
    scatter l.reverse f = scatter l f := by
  induction l generalizing f with
  | nil => rfl
  | cons ab l ih =>
    rw [List.map_cons, List.nodup_cons] at hl
    rw [List.reverse_cons, scatter_append, ih hl.2, scatter_cons, scatter_nil, scatter_update hl.1, scatter_cons]

/-- What is there already is written again. -/
theorem scatter_self (l : List α) (f : α → β) : scatter (l.zip (l.map f)) f = f := by
  induction l with
  | nil => rfl
  | cons a l ih => rw [List.map_cons, List.zip_cons_cons, scatter_cons, ih, Function.update_eq_self]

/-- …but at one place. -/
theorem scatter_set {l : List α} (hl : l.Nodup) (f : α → β) (x : β) {j : ℕ} (hj : j < l.length) :
    scatter (l.zip ((l.map f).set j x)) f = Function.update f l[j] x := by
  induction l generalizing j with
  | nil => exact absurd hj (Nat.not_lt_zero j)
  | cons a l ih =>
    obtain ⟨ha, hl⟩ := List.nodup_cons.mp hl
    cases j with
    | zero => rw [List.map_cons, List.set_cons_zero, List.zip_cons_cons, scatter_cons, scatter_self, List.getElem_cons_zero]
    | succ j =>
      have hjl : j < l.length := Nat.lt_of_succ_lt_succ hj
      have hne : a ≠ l[j] := fun h => ha (h ▸ List.getElem_mem hjl)
      rw [List.map_cons, List.set_cons_succ, List.zip_cons_cons, scatter_cons, ih hl hjl, List.getElem_cons_succ]
      exact Function.update_eq_iff.mpr ⟨(Function.update_of_ne hne x f).symm, fun _ _ => rfl⟩

theorem scatter_of_not_mem {l : List (α × β)} {a : α} (ha : a ∉ l.map Prod.fst) (f : α → β) :
    scatter l f a = f a := by
  induction l with
  | nil => rfl
  | cons ab l ih =>
    rw [List.map_cons, List.mem_cons, not_or] at ha
    rw [scatter_cons, Function.update_of_ne ha.1, ih ha.2]

theorem scatter_of_mem {l : List (α × β)} (hl : (l.map Prod.fst).Nodup) {ab : α × β} (h : ab ∈ l) (f : α → β) :
    scatter l f ab.1 = ab.2 := by
  induction l with
  | nil => cases h
  | cons ab' l ih =>
    rw [List.map_cons, List.nodup_cons] at hl
    rw [scatter_cons]
    rcases List.mem_cons.mp h with rfl | h
    · exact Function.update_self ..
    · have hne : ab.1 ≠ ab'.1 := fun heq => hl.1 (heq ▸ List.mem_map_of_mem h)
      rw [Function.update_of_ne hne, ih hl.2 h]

/-- The places that are read are told from what is read. -/
theorem places_of_read {b b' : β} (hb : b ≠ b') {l l' : List α}
    (h : ∀ f : α → β, l.map f = l'.map f) : l = l' := by
  have hlength : l.length = l'.length := by
    have := congrArg List.length (h fun _ => b)
    simpa using this
  refine List.ext_getElem hlength fun i hi hi' => ?_
  have hread := congrArg (fun v => v[i]?) (h fun a => if a = l[i] then b else b')
  simp only [List.getElem?_map, List.getElem?_eq_getElem hi, List.getElem?_eq_getElem hi', Option.map_some,
    Option.some.injEq, if_pos] at hread
  by_contra hne
  rw [if_neg (Ne.symm hne)] at hread
  exact hb hread

/-- …and those that are written from what is written. -/
theorem places_of_scatter {b b' : β} (hb : b ≠ b') {l l' : List α} (hl : l.Nodup) (hl' : l'.Nodup)
    (hlength : l'.length = l.length)
    (h : ∀ (data : List β) (f : α → β), data.length = l.length → scatter (l.zip data) f = scatter (l'.zip data) f) :
    l = l' := by
  refine List.ext_getElem hlength.symm fun i hi hi' => ?_
  -- One value is not like the rest.
  obtain ⟨data, hdata⟩ : ∃ data : List β, data = (List.replicate l.length b').set i b := ⟨_, rfl⟩
  have hlen : data.length = l.length := by rw [hdata, List.length_set, List.length_replicate]
  have hfst : (l.zip data).map Prod.fst = l := List.map_fst_zip (Nat.le_of_eq hlen.symm)
  have hfst' : (l'.zip data).map Prod.fst = l' := List.map_fst_zip (Nat.le_of_eq (hlength.trans hlen.symm))
  have hwrite := congrFun (h data (fun _ => b') hlen) l[i]
  have hat : scatter (l.zip data) (fun _ => b') l[i] = b := by
    have hid : i < data.length := hlen ▸ hi
    have hval : data[i] = b := by
      simp only [hdata, List.getElem_set_self]
    exact (scatter_of_mem (hfst.symm ▸ hl) (zip_mem hi (hlen ▸ hi)) _).trans hval
  rw [hat] at hwrite
  by_cases hmem : l[i] ∈ l'
  · obtain ⟨j, hj, hij⟩ := List.getElem_of_mem hmem
    have hjd : j < data.length := by omega
    have hval := scatter_of_mem (hfst'.symm ▸ hl') (zip_mem hj hjd) fun _ => b'
    change scatter (l'.zip data) (fun _ => b') l'[j] = data[j] at hval
    rw [hij, ← hwrite] at hval
    by_cases hne : i = j
    · subst hne
      exact hij.symm
    · have hother : data[j] = b' := by
        simp only [hdata, List.getElem_set_of_ne hne, List.getElem_replicate]
      exact absurd (hval.trans hother) hb
  · have hnot : l[i] ∉ (l'.zip data).map Prod.fst := by rwa [hfst']
    rw [scatter_of_not_mem hnot] at hwrite
    exact absurd hwrite hb

end SoftPC
