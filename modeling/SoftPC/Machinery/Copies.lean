import SoftPC.Machinery.Scatter
import Mathlib.Data.List.Induction

/-!
# Machinery/Copies — values copied from place to place, one by one

A list of pairs of places, the value at the first of each copied to the second (`copies`).  All of them arrive
as they were before the first was copied (`Arrives`) if no place is written before it is read; and only then,
where no place is read twice or written twice (`arrives_iff`).
-/

namespace SoftPC

variable {α β : Type*}

/-- A last pair writes over no other. -/
theorem not_mem_of_concat {l : List (α × α)} {p : α × α} (h : ((l ++ [p]).map Prod.snd).Nodup) :
    p.2 ∉ l.map Prod.snd := by
  rw [List.map_append, List.nodup_append] at h
  exact fun hmem => h.2.2 _ hmem _ (List.mem_singleton_self _) rfl

theorem nodup_of_concat {l : List (α × α)} {p : α × α} {g : α × α → α} (h : ((l ++ [p]).map g).Nodup) :
    (l.map g).Nodup := by
  rw [List.map_append] at h
  exact h.of_append_left

variable [DecidableEq α]

/-- The values are copied, the first pair first. -/
def copies : List (α × α) → (α → β) → α → β
  | [], f => f
  | p :: l, f => copies l (Function.update f p.2 (f p.1))

theorem copies_eq_foldl (l : List (α × α)) (f : α → β) :
    copies l f = l.foldl (fun f p => Function.update f p.2 (f p.1)) f := by
  induction l generalizing f with
  | nil => rfl
  | cons p l ih => exact ih _

theorem copies_append (l l' : List (α × α)) (f : α → β) : copies (l ++ l') f = copies l' (copies l f) := by
  induction l generalizing f with
  | nil => rfl
  | cons p l ih => exact ih _

/-- Where nothing is copied to nothing changes. -/
theorem copies_of_not_mem {l : List (α × α)} {a : α} (ha : a ∉ l.map Prod.snd) (f : α → β) : copies l f a = f a := by
  induction l generalizing f with
  | nil => rfl
  | cons p l ih =>
    rw [List.map_cons, List.mem_cons, not_or] at ha
    exact (ih ha.2 _).trans (Function.update_of_ne ha.1 _ _)

/-- Each value arrives as it was. -/
def Arrives (l : List (α × α)) (f : α → β) : Prop := ∀ p ∈ l, copies l f p.2 = f p.1

/-- No place is written before it is read. -/
def Untouched (l : List (α × α)) : Prop := l.Pairwise fun p p' => p.2 ≠ p'.1

/-- A last pair. -/
theorem copies_concat (l : List (α × α)) (p : α × α) (f : α → β) :
    copies (l ++ [p]) f = Function.update (copies l f) p.2 (copies l f p.1) := copies_append l [p] f

/-- The pairs before the last arrive if all do. -/
theorem arrives_concat {l : List (α × α)} {p : α × α} (hd : ((l ++ [p]).map Prod.snd).Nodup) {f : α → β} :
    Arrives (l ++ [p]) f ↔ Arrives l f ∧ copies l f p.1 = f p.1 := by
  have hlast := not_mem_of_concat hd
  constructor
  · intro h
    constructor
    · intro p' hp'
      have hne : p'.2 ≠ p.2 := fun heq => hlast (heq ▸ List.mem_map_of_mem hp')
      rw [← h p' (List.mem_append_left _ hp'), copies_concat, Function.update_of_ne hne]
    · rw [← h p (List.mem_append_right _ (List.mem_singleton_self p)), copies_concat, Function.update_self]
  · rintro ⟨h, hread⟩ p' hp'
    rw [copies_concat]
    rcases List.mem_append.mp hp' with hmem | hmem
    · have hne : p'.2 ≠ p.2 := fun heq => hlast (heq ▸ List.mem_map_of_mem hmem)
      rw [Function.update_of_ne hne, h p' hmem]
    · rw [List.mem_singleton.mp hmem, Function.update_self, hread]

/-- **Values arrive** that are read before they are written over. -/
theorem Untouched.arrives {l : List (α × α)} (h : Untouched l) (hd : (l.map Prod.snd).Nodup) (f : α → β) :
    Arrives l f := by
  induction l using List.reverseRecOn with
  | nil => exact fun p hp => absurd hp List.not_mem_nil
  | append_singleton l p ih =>
    obtain ⟨hl, -, hlast⟩ := List.pairwise_append.mp h
    refine (arrives_concat hd).mpr ⟨ih hl (nodup_of_concat hd), copies_of_not_mem ?_ f⟩
    intro hmem
    obtain ⟨p', hp', heq⟩ := List.mem_map.mp hmem
    exact hlast p' hp' p (List.mem_singleton_self p) heq

/-- **…and no others**, if places differ. -/
theorem untouched_of_arrives {l : List (α × α)} (hs : (l.map Prod.fst).Nodup) (hd : (l.map Prod.snd).Nodup)
    {b b' : β} (hb : b ≠ b') (h : ∀ f : α → β, Arrives l f) : Untouched l := by
  induction l using List.reverseRecOn with
  | nil => exact List.Pairwise.nil
  | append_singleton l p ih =>
    have hprefix : ∀ f : α → β, Arrives l f := fun f => ((arrives_concat hd).mp (h f)).1
    refine List.pairwise_append.mpr ⟨ih (nodup_of_concat hs) (nodup_of_concat hd) hprefix,
      List.pairwise_singleton _ _, fun p' hp' q hq heq => ?_⟩
    rw [List.mem_singleton.mp hq] at heq
    -- What the last pair reads came from elsewhere.
    have hne : p'.1 ≠ p.1 := fun hfst => by
      rw [List.map_append, List.nodup_append] at hs
      exact hs.2.2 _ (List.mem_map_of_mem hp') _ (List.mem_singleton_self _) hfst
    let f : α → β := fun a => if a = p.1 then b else b'
    have hread := ((arrives_concat hd).mp (h f)).2
    rw [← heq, hprefix f p' hp', heq] at hread
    exact hb ((if_pos rfl).symm.trans (hread.symm.trans (if_neg hne)))

/-- **When values arrive**. -/
theorem arrives_iff {l : List (α × α)} (hs : (l.map Prod.fst).Nodup) (hd : (l.map Prod.snd).Nodup) {b b' : β}
    (hb : b ≠ b') : (∀ f : α → β, Arrives l f) ↔ Untouched l :=
  ⟨untouched_of_arrives hs hd hb, fun h f => h.arrives hd f⟩

end SoftPC
