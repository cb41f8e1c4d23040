import Mathlib.Data.List.Infix

/-!
# Machinery/Outstanding — what is asked for one at a time

A log has entries that ask for something and entries that settle it (`effect`: true, false, or neither).
`Alternates` says that nothing is asked for while it is outstanding; then between two entries that ask there is one
that settles (`Alternates.between`).  A log grows at its end, where one lemma each follows it.
-/

namespace SoftPC

variable {α : Type*} (effect : α → Option Bool)

/-- It has been asked for last, and not settled. -/
def outstanding (log : List α) : Bool := log.foldl (fun out a => (effect a).getD out) false

/-- Nothing is asked for while it is outstanding. -/
def Alternates (log : List α) : Prop :=
  ∀ before a, before ++ [a] <+: log → effect a = some true → outstanding effect before = false

variable {effect} {log : List α} {a : α}

@[simp] theorem outstanding_nil : outstanding effect [] = false := rfl

@[simp] theorem outstanding_concat : outstanding effect (log ++ [a]) = (effect a).getD (outstanding effect log) := by
  unfold outstanding
  rw [List.foldl_append]
  rfl

theorem Alternates.nil : Alternates effect [] := by
  intro before a h
  have := h.length_le
  simp at this

theorem Alternates.concat (h : Alternates effect log) (ha : effect a = some true → outstanding effect log = false) :
    Alternates effect (log ++ [a]) := by
  intro before b hinitial hb
  obtain heq | hinitial := List.prefix_concat_iff.mp hinitial
  · obtain ⟨rfl, hsame⟩ := List.append_inj' heq rfl
    cases hsame
    exact ha hb
  · exact h before b hinitial hb

/-- What is outstanding stays so for as long as nothing settles it. -/
theorem outstanding_append {rest : List α} (hlog : outstanding effect log = true)
    (hrest : ∀ a ∈ rest, effect a ≠ some false) : outstanding effect (log ++ rest) = true := by
  induction rest using List.reverseRecOn with
  | nil => rwa [List.append_nil]
  | append_singleton rest a ih =>
    rw [← List.append_assoc, outstanding_concat]
    have hrest' := ih fun b hb => hrest b (List.mem_append_left _ hb)
    have ha := hrest a (List.mem_append_right _ (List.mem_singleton_self a))
    cases hea : effect a with
    | none => exact hrest'
    | some out =>
      cases out with
      | true => rfl
      | false => exact absurd hea ha

/-- **Between two that ask, one settles**. -/
theorem Alternates.between (h : Alternates effect log) {before mid after : List α} {b : α}
    (hlog : log = before ++ a :: (mid ++ b :: after)) (ha : effect a = some true) (hb : effect b = some true) :
    ∃ c ∈ mid, effect c = some false := by
  by_contra hnone
  push Not at hnone
  have hinitial : before ++ [a] ++ mid ++ [b] <+: log := ⟨after, by rw [hlog]; simp⟩
  have hout : outstanding effect (before ++ [a]) = true := by
    rw [outstanding_concat, ha]
    rfl
  have hfree := h _ b hinitial hb
  rw [outstanding_append hout hnone] at hfree
  cases hfree

end SoftPC
