import Mathlib.Logic.Basic

/-!
# Machinery/Faulting — programs that fault

A program of `EStateM ε σ` changes a state as it goes and leaves it where it is when it faults.
`Completes P x Q` says what holds when a run of `x` that starts in `P` is not cut short; `Keeps f x`
that such a run does not change what `f` reads off the state; `Looks x s v` that the run from `s` only looks
at it, and what comes of it; `Sure x` that no run faults; `Clean x` that a fault leaves the state as it was; and
`Serves x x'` that `x'` completes what `x` does.  The rules follow the program.
-/

namespace SoftPC

universe u

variable {ε σ : Type u} {α β γ : Type u}

/-- A run from `P` that completes ends in `Q`. -/
def Completes (P : σ → Prop) (x : EStateM ε σ α) (Q : α → σ → Prop) : Prop :=
  ∀ s, P s → ∀ a t, x s = .ok a t → Q a t

/-- Fault where the condition is met. -/
def faultIf (c : Prop) [Decidable c] (e : ε) : EStateM ε σ PUnit := if c then throw e else pure ⟨⟩

theorem faultIf_pass {c : Prop} [Decidable c] {e : ε} (hc : ¬c) (f : PUnit → EStateM ε σ β) :
    (faultIf c e >>= f) = f ⟨⟩ := by
  rw [faultIf, if_neg hc]
  rfl

theorem faultIf_fault {c : Prop} [Decidable c] {e : ε} (hc : c) (f : PUnit → EStateM ε σ β) :
    (faultIf c e >>= f) = throw e := by
  rw [faultIf, if_pos hc]
  rfl

/-- The value, or the fault. -/
def found (a : Option α) (e : ε) : EStateM ε σ α :=
  match a with
  | some a => pure a
  | none => throw e

/-- The program completes in a state of this kind. -/
def completedIn (c : σ → Bool) : EStateM.Result ε σ α → Bool
  | .ok _ s => c s
  | .error _ _ => false

theorem exists_of_completedIn {c : σ → Bool} {r : EStateM.Result ε σ α} (h : completedIn c r) :
    ∃ a s, r = .ok a s ∧ c s := by
  cases r with
  | ok a s => exact ⟨a, s, rfl, h⟩
  | error e s => cases h

namespace Completes

variable {P P' : σ → Prop} {Q Q' : α → σ → Prop} {R : β → σ → Prop} {x x' : EStateM ε σ α}
  {f : α → EStateM ε σ β}

theorem pure {a : α} (h : ∀ s, P s → Q a s) : Completes P (pure a : EStateM ε σ α) Q := by
  intro s hs b t ht
  cases ht
  exact h s hs

theorem throw {e : ε} : Completes P (throw e : EStateM ε σ α) Q := by
  intro s _ a t ht
  cases ht

theorem bind (hx : Completes P x Q) (hf : ∀ a, Completes (Q a) (f a) R) : Completes P (x >>= f) R := by
  intro s hs b u hu
  change EStateM.bind x f s = .ok b u at hu
  unfold EStateM.bind at hu
  cases hr : x s with
  | ok a t =>
    rw [hr] at hu
    exact hf a t (hx s hs a t hr) b u hu
  | error e t =>
    rw [hr] at hu
    cases hu

theorem mono (hx : Completes P x Q) (hP : ∀ s, P' s → P s) (hQ : ∀ a s, Q a s → Q' a s) :
    Completes P' x Q' :=
  fun s hs a t ht => hQ a t (hx s (hP s hs) a t ht)

/-- A step that brings out a fact of its value. -/
theorem bind_fact {c : α → Prop} {Q : σ → Prop} (hx : Completes P x fun a s => c a ∧ Q s)
    (hf : ∀ a, c a → Completes Q (f a) R) : Completes P (x >>= f) R :=
  hx.bind fun a s hs => hf a hs.1 s hs.2

theorem get {R : σ → σ → Prop} (h : ∀ s, P s → R s s) : Completes P (get : EStateM ε σ σ) R := by
  intro s hs a t ht
  cases ht
  exact h s hs

theorem modify {g : σ → σ} {R : PUnit → σ → Prop} (h : ∀ s, P s → R ⟨⟩ (g s)) :
    Completes P (modify g : EStateM ε σ PUnit) R := by
  intro s hs a t ht
  cases ht
  exact h s hs

theorem ite {c : Prop} [Decidable c] (h : c → Completes P x Q) (h' : ¬c → Completes P x' Q) :
    Completes P (if c then x else x') Q := by
  by_cases hc : c
  · rw [if_pos hc]; exact h hc
  · rw [if_neg hc]; exact h' hc

/-- Past a fault, its condition is not met. -/
theorem faultIf_bind {c : Prop} [Decidable c] {e : ε} {y : PUnit → EStateM ε σ β}
    (hy : ¬c → Completes P (y ⟨⟩) R) : Completes P (faultIf c e >>= y) R := by
  unfold faultIf
  by_cases hc : c
  · rw [if_pos hc]
    exact Completes.bind (Q := fun _ _ => False) .throw fun _ s hs => hs.elim
  · rw [if_neg hc]
    exact hy hc

/-- …and a value that was sought is there. -/
theorem found_bind {a : Option α} {e : ε} (hf : ∀ b, a = some b → Completes P (f b) R) :
    Completes P (found a e >>= f) R := by
  cases a with
  | none => exact Completes.bind (Q := fun _ _ => False) .throw fun _ s hs => hs.elim
  | some a => exact hf a rfl

end Completes

/-- A run that completes does not change what `f` reads. -/
def Keeps (f : σ → β) (x : EStateM ε σ α) : Prop := ∀ b, Completes (f · = b) x fun _ s => f s = b

namespace Keeps

variable {g : σ → γ} {x x' : EStateM ε σ α} {f : α → EStateM ε σ β}

theorem pure {a : α} : Keeps g (pure a : EStateM ε σ α) := fun _ => .pure fun _ hs => hs

theorem throw {e : ε} : Keeps g (throw e : EStateM ε σ α) := fun _ => .throw

theorem bind (hx : Keeps g x) (hf : ∀ a, Keeps g (f a)) : Keeps g (x >>= f) :=
  fun b => (hx b).bind fun a => hf a b

theorem get : Keeps g (get : EStateM ε σ σ) := fun _ => .get fun _ hs => hs

theorem modify {h : σ → σ} (hg : ∀ s, g (h s) = g s) : Keeps g (modify h : EStateM ε σ PUnit) :=
  fun _ => .modify fun s hs => (hg s).trans hs

theorem ite {c : Prop} [Decidable c] (h : Keeps g x) (h' : Keeps g x') : Keeps g (if c then x else x') :=
  fun b => .ite (fun _ => h b) fun _ => h' b

theorem faultIf {c : Prop} [Decidable c] {e : ε} : Keeps g (faultIf c e) :=
  .ite .throw .pure

theorem found {a : Option α} {e : ε} : Keeps g (found a e) := by
  cases a with
  | none => exact .throw
  | some a => exact .pure

/-- What is known of the part that is kept is known after. -/
theorem completes (hx : Keeps g x) {P : γ → Prop} : Completes (fun s => P (g s)) x fun _ s => P (g s) :=
  fun s hs a t ht => (congrArg P (hx (g s) s rfl a t ht)).mpr hs

end Keeps

/-- The program leaves the state alone, returning a value or faulting. -/
def Looks (x : EStateM ε σ α) (s : σ) (v : Except ε α) : Prop :=
  x s = match v with
    | .ok a => .ok a s
    | .error e => .error e s

namespace Looks

variable {s : σ} {x x' : EStateM ε σ α} {f : α → EStateM ε σ β} {v v' : Except ε α} {w : α → Except ε β}

theorem pure {a : α} : Looks (pure a : EStateM ε σ α) s (.ok a) := rfl

theorem throw {e : ε} : Looks (throw e : EStateM ε σ α) s (.error e) := rfl

/-- When it returns, and with what. -/
theorem returns_iff (hx : Looks x s v) {a : α} : (∃ t, x s = .ok a t) ↔ v = .ok a := by
  rw [hx]
  cases v with
  | ok b =>
    constructor
    · rintro ⟨t, ht⟩
      cases ht
      rfl
    · rintro h
      injection h with h
      exact ⟨s, by rw [h]⟩
  | error e => exact ⟨fun ⟨_, ht⟩ => (nomatch ht), nofun⟩

theorem faultIf {c : Prop} [Decidable c] {e : ε} :
    Looks (faultIf c e) s (if c then .error e else .ok ⟨⟩) := by
  unfold SoftPC.faultIf
  by_cases hc : c
  · rw [if_pos hc, if_pos hc]; exact .throw
  · rw [if_neg hc, if_neg hc]; exact .pure

theorem bind (hx : Looks x s v) (hf : ∀ a, v = .ok a → Looks (f a) s (w a)) : Looks (x >>= f) s (v >>= w) := by
  change EStateM.bind x f s = _
  unfold EStateM.bind
  rw [hx]
  cases v with
  | ok a => exact hf a rfl
  | error e => rfl

theorem ite {c : Prop} [Decidable c] (h : c → Looks x s v) (h' : ¬c → Looks x' s v') :
    Looks (if c then x else x') s (if c then v else v') := by
  by_cases hc : c
  · rw [if_pos hc, if_pos hc]; exact h hc
  · rw [if_neg hc, if_neg hc]; exact h' hc

end Looks

/-- No run faults. -/
def Sure (x : EStateM ε σ α) : Prop := ∀ s, ∃ a t, x s = .ok a t

/-- A run that faults leaves the state as it was. -/
def Clean (x : EStateM ε σ α) : Prop := ∀ s e t, x s = .error e t → t = s

/-- What the first completes the second completes alike. -/
def Serves (x x' : EStateM ε σ α) : Prop := ∀ s a t, x s = .ok a t → x' s = .ok a t

section

variable {x x' : EStateM ε σ α} {f f' : α → EStateM ε σ β}

theorem bind_ok {s t : σ} {a : α} (h : x s = .ok a t) : (x >>= f) s = f a t := by
  change EStateM.bind x f s = _
  unfold EStateM.bind
  rw [h]

theorem bind_error {s t : σ} {e : ε} (h : x s = .error e t) : (x >>= f) s = .error e t := by
  change EStateM.bind x f s = _
  unfold EStateM.bind
  rw [h]

theorem Sure.pure {a : α} : Sure (pure a : EStateM ε σ α) := fun s => ⟨a, s, rfl⟩

theorem Sure.bind (hx : Sure x) (hf : ∀ a, Sure (f a)) : Sure (x >>= f) := by
  intro s
  obtain ⟨a, t, ht⟩ := hx s
  rw [bind_ok ht]
  exact hf a t

theorem Sure.ite {c : Prop} [Decidable c] (h : c → Sure x) (h' : ¬c → Sure x') : Sure (if c then x else x') := by
  by_cases hc : c
  · rw [if_pos hc]; exact h hc
  · rw [if_neg hc]; exact h' hc

theorem Sure.clean (hx : Sure x) : Clean x := by
  intro s e t ht
  obtain ⟨a, u, hu⟩ := hx s
  rw [hu] at ht
  cases ht

/-- A program that only looks, and then one that is clean after what it has seen. -/
theorem Clean.bind {v : σ → Except ε α} (hx : ∀ s, Looks x s (v s)) (hf : ∀ s a, v s = .ok a → Clean (f a)) :
    Clean (x >>= f) := by
  intro s e t ht
  have hs := hx s
  unfold Looks at hs
  cases hv : v s with
  | ok a =>
    rw [hv] at hs
    rw [bind_ok hs] at ht
    exact hf s a hv s e t ht
  | error e' =>
    rw [hv] at hs
    rw [bind_error hs] at ht
    cases ht
    rfl

namespace Serves

theorem refl : Serves x x := fun _ _ _ h => h

theorem bind (hx : Serves x x') (hf : ∀ a, Serves (f a) (f' a)) : Serves (x >>= f) (x' >>= f') := by
  intro s b u hu
  cases hr : x s with
  | ok a t =>
    rw [bind_ok hr] at hu
    rw [bind_ok (hx s a t hr)]
    exact hf a t b u hu
  | error e t =>
    rw [bind_error hr] at hu
    cases hu

theorem faultIf {c c' : Prop} [Decidable c] [Decidable c'] {e e' : ε} (h : ¬c → ¬c') :
    Serves (SoftPC.faultIf c e : EStateM ε σ PUnit) (SoftPC.faultIf c' e') := by
  intro s a t ht
  unfold SoftPC.faultIf at *
  by_cases hc : c
  · rw [if_pos hc] at ht
    cases ht
  · rw [if_neg hc] at ht
    rw [if_neg (h hc)]
    exact ht

theorem ite {c : Prop} [Decidable c] {y y' : EStateM ε σ α} (h : Serves x x') (h' : Serves y y') :
    Serves (if c then x else y) (if c then x' else y') := by
  by_cases hc : c
  · rw [if_pos hc, if_pos hc]; exact h
  · rw [if_neg hc, if_neg hc]; exact h'

end Serves

end

end SoftPC
