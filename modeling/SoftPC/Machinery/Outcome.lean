import Mathlib.Logic.Basic

/-!
# Machinery/Outcome — calls that may stop, and runs of them

A call in `Except ε` *ends* in a set of results when it stops in none of its errors and its result is
in the set (`Ends`); `Yields` asks this only of a call that returns.  Both compose along `>>=`; a list of steps, each of which ends in an invariant
whenever a condition on the state before it is met, ends in it (`ends_foldlM`).
-/

namespace SoftPC

universe u

variable {ε ι : Type*} {α β σ : Type u}

/-- The call returns, with a result in `Q`. -/
def Ends (r : Except ε α) (Q : α → Prop) : Prop := ∃ x, r = .ok x ∧ Q x

namespace Ends

variable {r : Except ε α} {f : α → Except ε β} {Q Q' : α → Prop} {R : β → Prop}

theorem ok {x : α} (h : Q x) : Ends (.ok x : Except ε α) Q := ⟨x, rfl, h⟩

theorem mono (h : Ends r Q) (hQ : ∀ x, Q x → Q' x) : Ends r Q' := by
  obtain ⟨x, rfl, hx⟩ := h
  exact ⟨x, rfl, hQ x hx⟩

theorem bind (h : Ends r Q) (hf : ∀ x, Q x → Ends (f x) R) : Ends (r >>= f) R := by
  obtain ⟨x, rfl, hx⟩ := h
  exact hf x hx

/-- The last result of a call, wrapped. -/
theorem map {g : α → β} (h : Ends r Q) (hg : ∀ x, Q x → R (g x)) :
    Ends (do let x ← r; return g x) R :=
  h.bind fun x hx => .ok (hg x hx)

theorem ite {c : Prop} [Decidable c] {r r' : Except ε α} (h : c → Ends r Q) (h' : ¬c → Ends r' Q) :
    Ends (if c then r else r') Q := by
  by_cases hc : c
  · rw [if_pos hc]; exact h hc
  · rw [if_neg hc]; exact h' hc

end Ends

/-- The call returns, with a result in `Q`, unless it stops in an error of `E`. -/
def EndsUnless (E : ε → Prop) (r : Except ε α) (Q : α → Prop) : Prop :=
  match r with
  | .ok x => Q x
  | .error e => E e

namespace EndsUnless

variable {E : ε → Prop} {r : Except ε α} {f : α → Except ε β} {Q Q' : α → Prop} {R : β → Prop}

theorem ok {x : α} (h : Q x) : EndsUnless E (.ok x) Q := h

theorem error {e : ε} (h : E e) : EndsUnless E (.error e) Q := h

theorem of_eq {x : α} (h : EndsUnless E r Q) (hr : r = .ok x) : Q x := by
  subst hr
  exact h

theorem mono (h : EndsUnless E r Q) (hQ : ∀ x, Q x → Q' x) : EndsUnless E r Q' := by
  cases r with
  | ok x => exact hQ x h
  | error e => exact h

theorem bind (h : EndsUnless E r Q) (hf : ∀ x, Q x → EndsUnless E (f x) R) :
    EndsUnless E (r >>= f) R := by
  cases r with
  | ok x => exact hf x h
  | error e => exact h

theorem ite {c : Prop} [Decidable c] {r r' : Except ε α} (h : c → EndsUnless E r Q)
    (h' : ¬c → EndsUnless E r' Q) : EndsUnless E (if c then r else r') Q := by
  by_cases hc : c
  · rw [if_pos hc]; exact h hc
  · rw [if_neg hc]; exact h' hc

end EndsUnless

theorem Ends.unless {E : ε → Prop} {r : Except ε α} {Q : α → Prop} (h : Ends r Q) : EndsUnless E r Q := by
  obtain ⟨x, rfl, hx⟩ := h
  exact hx

/-- If the call returns, its result is in `Q`. -/
def Yields (r : Except ε α) (Q : α → Prop) : Prop := ∀ x, r = .ok x → Q x

theorem Ends.and_yields {r : Except ε α} {Q Q' : α → Prop} (h : Ends r Q) (h' : Yields r Q') :
    Ends r fun x => Q x ∧ Q' x := by
  obtain ⟨x, hr, hx⟩ := h
  exact ⟨x, hr, hx, h' x hr⟩

theorem EndsUnless.and_yields {E : ε → Prop} {r : Except ε α} {Q Q' : α → Prop}
    (h : EndsUnless E r Q) (h' : Yields r Q') : EndsUnless E r fun x => Q x ∧ Q' x := by
  cases r with
  | ok x => exact ⟨h, h' x rfl⟩
  | error e => exact h

namespace Yields

variable {r : Except ε α} {f : α → Except ε β} {Q Q' : α → Prop} {R : β → Prop}

theorem ok {x : α} (h : Q x) : Yields (.ok x : Except ε α) Q := by
  intro y hy
  injection hy with hy
  exact hy ▸ h

theorem error {e : ε} : Yields (.error e : Except ε α) Q := nofun

theorem mono (h : Yields r Q) (hQ : ∀ x, Q x → Q' x) : Yields r Q' := fun x hx => hQ x (h x hx)

theorem and (h : Yields r Q) (h' : Yields r Q') : Yields r fun x => Q x ∧ Q' x :=
  fun x hx => ⟨h x hx, h' x hx⟩

theorem bind (h : Yields r Q) (hf : ∀ x, Q x → Yields (f x) R) : Yields (r >>= f) R := by
  intro y hy
  cases r with
  | error e => cases hy
  | ok x => exact hf x (h x rfl) y hy

theorem ite {c : Prop} [Decidable c] {r r' : Except ε α} (h : c → Yields r Q) (h' : ¬c → Yields r' Q) :
    Yields (if c then r else r') Q := by
  by_cases hc : c
  · rw [if_pos hc]; exact h hc
  · rw [if_neg hc]; exact h' hc

end Yields

/-- Two calls end alike: in the same error, or with related results. -/
def EndAlike (R : α → β → Prop) : Except ε α → Except ε β → Prop
  | .ok x, .ok y => R x y
  | .error e, .error e' => e = e'
  | _, _ => False

namespace EndAlike

variable {γ δ : Type u} {R : α → β → Prop} {R' : γ → δ → Prop} {r : Except ε α} {r' : Except ε β}

theorem refl (r : Except ε α) : EndAlike Eq r r := by
  cases r <;> rfl

theorem ok {x : α} {y : β} (h : R x y) : EndAlike R (.ok x : Except ε α) (.ok y) := h

theorem mono {R' : α → β → Prop} (h : EndAlike R r r') (hR : ∀ x y, R x y → R' x y) : EndAlike R' r r' := by
  cases r <;> cases r' <;> first | exact h | exact hR _ _ h

theorem bind {f : α → Except ε γ} {f' : β → Except ε δ} (h : EndAlike R r r')
    (hf : ∀ x y, R x y → EndAlike R' (f x) (f' y)) : EndAlike R' (r >>= f) (r' >>= f') := by
  cases r <;> cases r' <;> first | exact h | exact h.elim | exact hf _ _ h

theorem ite {c : Prop} [Decidable c] {s : Except ε α} {s' : Except ε β} (h : c → EndAlike R r r')
    (h' : ¬c → EndAlike R s s') : EndAlike R (if c then r else s) (if c then r' else s') := by
  by_cases hc : c
  · rw [if_pos hc, if_pos hc]
    exact h hc
  · rw [if_neg hc, if_neg hc]
    exact h' hc

end EndAlike

/-- **Steps that end alike make runs that do.** -/
theorem endAlike_foldlM {τ : Type u} {step : σ → ι → Except ε σ} {step' : τ → ι → Except ε τ} {R : σ → τ → Prop}
    (hstep : ∀ s t i, R s t → EndAlike R (step s i) (step' t i)) {s : σ} {t : τ} (hst : R s t) (is : List ι) :
    EndAlike R (is.foldlM step s) (is.foldlM step' t) := by
  induction is generalizing s t with
  | nil => exact hst
  | cons i is ih =>
    rw [List.foldlM_cons, List.foldlM_cons]
    exact (hstep s t i hst).bind fun s' t' hst' => ih hst'

/-- Every step of a run meets a condition, on itself and the state before it. -/
def Meets (step : σ → ι → Except ε σ) (C : σ → ι → Prop) : σ → List ι → Prop
  | _, [] => True
  | s, i :: is => C s i ∧ ∀ t, step s i = .ok t → Meets step C t is

/-- A condition that can be tested is tested along a run. -/
instance Meets.decidable {step : σ → ι → Except ε σ} {C : σ → ι → Prop} [∀ s i, Decidable (C s i)] :
    ∀ s is, Decidable (Meets step C s is)
  | _, [] => isTrue trivial
  | s, i :: is =>
    match h : step s i with
    | .ok t =>
      have : Decidable (Meets step C t is) := Meets.decidable t is
      decidable_of_iff (C s i ∧ Meets step C t is) <|
        and_congr_right fun _ => ⟨fun hm _ ht => Except.ok.inj (h.symm.trans ht) ▸ hm, fun hm => hm t h⟩
    | .error _ =>
      decidable_of_iff (C s i) <|
        ⟨fun hc => ⟨hc, fun _ ht => nomatch h.symm.trans ht⟩, fun hm => hm.1⟩

theorem Meets.and {step : σ → ι → Except ε σ} {C C' : σ → ι → Prop} {s : σ} {is : List ι}
    (h : Meets step C s is) (h' : Meets step C' s is) : Meets step (fun s i => C s i ∧ C' s i) s is := by
  induction is generalizing s with
  | nil => trivial
  | cons i is ih => exact ⟨⟨h.1, h'.1⟩, fun t ht => ih (h.2 t ht) (h'.2 t ht)⟩

/-- A run that meets a condition meets it up to any of its states, and from there on. -/
theorem Meets.append {step : σ → ι → Except ε σ} {C : σ → ι → Prop} {s : σ} {is js : List ι}
    (h : Meets step C s (is ++ js)) :
    Meets step C s is ∧ Yields (is.foldlM step s) fun t => Meets step C t js := by
  induction is generalizing s with
  | nil => exact ⟨trivial, .ok h⟩
  | cons i is ih =>
    rw [List.foldlM_cons]
    exact ⟨⟨h.1, fun t ht => (ih (h.2 t ht)).1⟩,
      Yields.bind (Q := fun t => step s i = .ok t) (fun t ht => ht) fun t ht => (ih (h.2 t ht)).2⟩

/-- **Steps that end in an invariant make runs that do.** -/
theorem ends_foldlM {step : σ → ι → Except ε σ} {C : σ → ι → Prop} {I : σ → Prop}
    (hstep : ∀ s i, I s → C s i → Ends (step s i) I) {s : σ} {is : List ι} (hs : I s)
    (hC : Meets step C s is) : Ends (is.foldlM step s) I := by
  induction is generalizing s with
  | nil => exact .ok hs
  | cons i is ih =>
    obtain ⟨t, ht, hI⟩ := hstep s i hs hC.1
    rw [List.foldlM_cons, ht]
    exact ih hI (hC.2 t ht)

/-- …and steps that keep one, if they return, make runs that do. -/
theorem yields_foldlM {step : σ → ι → Except ε σ} {I : σ → Prop}
    (hstep : ∀ s i, I s → Yields (step s i) I) {s : σ} {is : List ι} (hs : I s) :
    Yields (is.foldlM step s) I := by
  induction is generalizing s with
  | nil => exact .ok hs
  | cons i is ih =>
    rw [List.foldlM_cons]
    exact (hstep s i hs).bind fun t ht => ih ht

/-- …the run meeting a condition at each of them. -/
theorem Meets.yields_foldlM {step : σ → ι → Except ε σ} {C : σ → ι → Prop} {I : σ → Prop}
    (hstep : ∀ s i, I s → C s i → Yields (step s i) I) {s : σ} {is : List ι} (hC : Meets step C s is)
    (hs : I s) : Yields (is.foldlM step s) I := by
  induction is generalizing s with
  | nil => exact .ok hs
  | cons i is ih =>
    rw [List.foldlM_cons]
    intro u hu
    cases hr : step s i with
    | error e =>
      rw [hr] at hu
      cases hu
    | ok t =>
      rw [hr] at hu
      exact ih (hC.2 t hr) (hstep s i hs hC.1 t hr) u hu

/-- …and may stop in some errors. -/
theorem Meets.endsUnless_foldlM {E : ε → Prop} {step : σ → ι → Except ε σ} {C : σ → ι → Prop}
    {I : σ → Prop} (hstep : ∀ s i, I s → C s i → EndsUnless E (step s i) I) {s : σ} {is : List ι}
    (hC : Meets step C s is) (hs : I s) : EndsUnless E (is.foldlM step s) I := by
  induction is generalizing s with
  | nil => exact .ok hs
  | cons i is ih =>
    have hfirst := hstep s i hs hC.1
    rw [List.foldlM_cons]
    cases hr : step s i with
    | error e =>
      rw [hr] at hfirst
      exact hfirst
    | ok t => exact ih (hC.2 t hr) (hfirst.of_eq hr)

/-- …all its steps being of a kind. -/
theorem endsUnless_foldlM {E : ε → Prop} {step : σ → ι → Except ε σ} {C : ι → Prop} {I : σ → Prop}
    (hstep : ∀ s i, I s → C i → EndsUnless E (step s i) I) {s : σ} {is : List ι} (hC : ∀ i ∈ is, C i)
    (hs : I s) : EndsUnless E (is.foldlM step s) I := by
  induction is generalizing s with
  | nil => exact .ok hs
  | cons i is ih =>
    rw [List.foldlM_cons]
    exact (hstep s i hs (hC i (List.mem_cons_self ..))).bind fun t ht =>
      ih (fun j hj => hC j (List.mem_cons_of_mem _ hj)) ht

/-- How a call ends can be tested where its result can. -/
instance Ends.decidable {r : Except ε α} {Q : α → Prop} [DecidablePred Q] : Decidable (Ends r Q) :=
  match r with
  | .ok x => decidable_of_iff (Q x) ⟨.ok, fun ⟨_, h, hQ⟩ => Except.ok.inj h ▸ hQ⟩
  | .error _ => isFalse fun ⟨_, h, _⟩ => nomatch h

end SoftPC
