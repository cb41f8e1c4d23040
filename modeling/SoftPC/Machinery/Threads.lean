import Mathlib.Logic.Function.Basic

/-!
# Machinery/Threads — programs of atomic operations, their interleavings, and a rule for invariants

A **program** (`Prog`) is a tree of atomic operations with explicit loops.  Threads share a store;
a run is a schedule — which thread moves next, and what the environment answers it.

The rule for invariants (`run_tracked`) separates what a program does from what its operations mean.
A **protocol** gives each thread a phase and says how an operation and its result move it; that a
program keeps to the protocol (`Follows`) is a fact about its text alone, and that an invariant of
phases and store survives one operation is a fact about the store alone.
-/

namespace SoftPC.Threads

/-- A program over the operations `Op`: it returns, performs one operation, or loops until the body
answers on the right. -/
inductive Prog (Op : Type → Type) : Type → Type 1 where
  | ret {α : Type} (a : α) : Prog Op α
  | op {α β : Type} (o : Op β) (k : β → Prog Op α) : Prog Op α
  | loop {α β γ : Type} (body : γ → Prog Op (γ ⊕ β)) (x : γ) (k : β → Prog Op α) : Prog Op α

namespace Prog

variable {Op : Type → Type} {α β γ : Type}

/-- Sequencing. -/
def bind {α β : Type} : Prog Op α → (α → Prog Op β) → Prog Op β
  | .ret a, f => f a
  | .op o k, f => .op o fun b => (k b).bind f
  | .loop body x k, f => .loop body x fun b => (k b).bind f

instance : Monad (Prog Op) where
  pure := .ret
  bind := bind

/-- One operation. -/
def perform (o : Op β) : Prog Op β := .op o .ret

instance : MonadLift Op (Prog Op) := ⟨perform⟩

/-- `if (c) p;`. -/
def when (c : Bool) (p : Prog Op Unit) : Prog Op Unit := if c then p else .ret ()

/-- `p && q`. -/
def and (p q : Prog Op Bool) : Prog Op Bool := p.bind fun b => if b then q else .ret false

/-- `p || q`. -/
def or (p q : Prog Op Bool) : Prog Op Bool := p.bind fun b => if b then .ret true else q

/-- `!p`. -/
def not (p : Prog Op Bool) : Prog Op Bool := p.bind fun b => .ret !b

/-- `for (;;)` with a loop-carried value. -/
def iterate (body : γ → Prog Op (γ ⊕ β)) (x : γ) : Prog Op β := .loop body x .ret

@[simp] theorem pure_eq (a : α) : (pure a : Prog Op α) = .ret a := rfl

@[simp] theorem bind_eq (p : Prog Op α) (f : α → Prog Op β) : p >>= f = p.bind f := rfl

@[simp] theorem map_eq (f : α → β) (p : Prog Op α) : f <$> p = p.bind fun a => .ret (f a) := rfl

@[simp] theorem liftM_eq (o : Op β) : (liftM o : Prog Op β) = perform o := rfl

@[simp] theorem ret_bind (a : α) (f : α → Prog Op β) : (ret a).bind f = f a := rfl

@[simp] theorem op_bind (o : Op γ) (k : γ → Prog Op α) (f : α → Prog Op β) :
    (op o k).bind f = .op o fun b => (k b).bind f := rfl

@[simp] theorem perform_bind (o : Op γ) (f : γ → Prog Op β) : (perform o).bind f = .op o f := rfl

@[simp] theorem ite_bind (c : Prop) [Decidable c] (p q : Prog Op α) (f : α → Prog Op β) :
    (if c then p else q).bind f = if c then p.bind f else q.bind f := by
  split <;> rfl

@[simp] theorem when_bind (c : Bool) (p : Prog Op Unit) (f : Unit → Prog Op β) :
    (when c p).bind f = if c then p.bind f else f () := by
  unfold when
  split <;> rfl

theorem bind_assoc {δ : Type} (p : Prog Op α) (f : α → Prog Op β) (g : β → Prog Op δ) :
    (p.bind f).bind g = p.bind fun a => (f a).bind g := by
  induction p with
  | ret a => rfl
  | op o k ih =>
    simp only [op_bind]
    congr 1
    funext b
    exact ih b f
  | loop body x k _ ih =>
    simp only [bind]
    congr 1
    funext b
    exact ih b f

/-- A loop, entered once. -/
def unroll (body : γ → Prog Op (γ ⊕ β)) (x : γ) (k : β → Prog Op α) : Prog Op α :=
  (body x).bind (Sum.elim (fun y => .loop body y k) k)

end Prog

open Prog

/-! ## Protocols -/

/-- How a protocol answers an operation: it forbids it, stops following the thread, or moves on. -/
inductive Move (Φ : Type) where
  | reject
  | void
  | go (phase : Φ)

namespace Move

variable {Φ : Type}

/-- The operation is allowed, and the phase it moves to, if any, meets `P`. -/
def Leads (P : Φ → Prop) : Move Φ → Prop
  | .reject => False
  | .void => True
  | .go φ => P φ

@[simp] theorem leads_reject (P : Φ → Prop) : (reject : Move Φ).Leads P ↔ False := Iff.rfl
@[simp] theorem leads_void (P : Φ → Prop) : (void : Move Φ).Leads P ↔ True := Iff.rfl
@[simp] theorem leads_go (P : Φ → Prop) (φ : Φ) : (go φ).Leads P ↔ P φ := Iff.rfl

theorem Leads.mono {P Q : Φ → Prop} {m : Move Φ} (h : m.Leads P) (hPQ : ∀ φ, P φ → Q φ) :
    m.Leads Q := by
  cases m with
  | reject => exact h
  | void => exact trivial
  | go φ => exact hPQ φ h

/-- If the operation moves the phase, then to one that meets `P`. -/
def Lands (P : Φ → Prop) : Move Φ → Prop
  | .reject => True
  | .void => True
  | .go φ => P φ

@[simp] theorem lands_reject (P : Φ → Prop) : (reject : Move Φ).Lands P ↔ True := Iff.rfl
@[simp] theorem lands_void (P : Φ → Prop) : (void : Move Φ).Lands P ↔ True := Iff.rfl
@[simp] theorem lands_go (P : Φ → Prop) (φ : Φ) : (go φ).Lands P ↔ P φ := Iff.rfl

@[simp] theorem lands_ite (c : Prop) [Decidable c] (m n : Move Φ) (P : Φ → Prop) :
    (if c then m else n).Lands P ↔ (c → m.Lands P) ∧ (¬c → n.Lands P) := by
  split <;> simp [*]

theorem Lands.go {P : Φ → Prop} {m : Move Φ} {φ : Φ} (h : m.Lands P) (hm : m = .go φ) : P φ := by
  rwa [hm] at h

end Move

/-- How each operation, with its result, moves a phase. -/
abbrev Protocol (Op : Type → Type) (Φ : Type) := ∀ β : Type, Φ → Op β → β → Move Φ

section Follows

variable {Op : Type → Type} {Φ : Type} (next : Protocol Op Φ)

/-- **The program keeps to the protocol** from the phase, whatever its operations answer, and where
it returns the phase and the value meet `Q`.  A loop carries an invariant. -/
def Follows {α : Type} : Prog Op α → (α → Φ → Prop) → Φ → Prop
  | .ret a, Q, φ => Q a φ
  | .op (β := β) o k, Q, φ => ∀ b, (next β φ o b).Leads fun φ' => Follows (k b) Q φ'
  | .loop (β := β) (γ := γ) body x k, Q, φ => ∃ (J : γ → Φ → Prop) (R : β → Φ → Prop), J x φ ∧
      (∀ y ψ, J y ψ → Follows (body y) (fun r ψ' => Sum.elim (J · ψ') (R · ψ') r) ψ) ∧
      ∀ b ψ, R b ψ → Follows (k b) Q ψ

variable {next} {α β γ : Type}

@[simp] theorem follows_ret (a : α) (Q : α → Φ → Prop) (φ : Φ) :
    Follows next (.ret a) Q φ ↔ Q a φ := Iff.rfl

@[simp] theorem follows_op (o : Op β) (k : β → Prog Op α) (Q : α → Φ → Prop) (φ : Φ) :
    Follows next (.op o k) Q φ ↔
      ∀ b, (next β φ o b).Leads fun φ' => Follows next (k b) Q φ' := Iff.rfl

@[simp] theorem follows_perform (o : Op β) (Q : β → Φ → Prop) (φ : Φ) :
    Follows next (perform o) Q φ ↔ ∀ b, (next β φ o b).Leads (Q b) := Iff.rfl

@[simp] theorem follows_ite (c : Prop) [Decidable c] (p q : Prog Op α) (Q : α → Φ → Prop) (φ : Φ) :
    Follows next (if c then p else q) Q φ ↔
      (c → Follows next p Q φ) ∧ (¬c → Follows next q Q φ) := by
  split <;> simp [*]

@[simp] theorem follows_when (c : Bool) (p : Prog Op Unit) (Q : Unit → Φ → Prop) (φ : Φ) :
    Follows next (when c p) Q φ ↔ (c = true → Follows next p Q φ) ∧ (c = false → Q () φ) := by
  cases c <;> simp [when]

theorem Follows.mono {p : Prog Op α} {Q R : α → Φ → Prop} {φ : Φ} (h : Follows next p Q φ)
    (hQR : ∀ a ψ, Q a ψ → R a ψ) : Follows next p R φ := by
  induction p generalizing φ with
  | ret a => exact hQR a φ h
  | op o k ih =>
    exact fun b => (h b).mono fun _ hk => ih b hk hQR
  | loop body x k _ ih =>
    obtain ⟨J, E, hx, hbody, hk⟩ := h
    exact ⟨J, E, hx, hbody, fun b ψ hb => ih b (hk b ψ hb) hQR⟩

/-- **Sequencing**: what the first part establishes, the second starts from. -/
theorem Follows.bind {p : Prog Op α} {f : α → Prog Op β} {Q : α → Φ → Prop} {R : β → Φ → Prop}
    {φ : Φ} (h : Follows next p Q φ) (hf : ∀ a ψ, Q a ψ → Follows next (f a) R ψ) :
    Follows next (p.bind f) R φ := by
  induction p generalizing φ with
  | ret a => exact hf a φ h
  | op o k ih =>
    exact fun b => (h b).mono fun _ hk => ih b hk hf
  | loop body x k _ ih =>
    obtain ⟨J, E, hx, hbody, hk⟩ := h
    exact ⟨J, E, hx, hbody, fun b ψ hb => ih b (hk b ψ hb) hf⟩

/-- **Loops**: an invariant of the head, kept by the body. -/
theorem Follows.iterate {body : γ → Prog Op (γ ⊕ β)} {x : γ} {Q : β → Φ → Prop} {φ : Φ}
    (J : γ → Φ → Prop) (hx : J x φ)
    (hbody : ∀ y ψ, J y ψ → Follows next (body y) (fun r ψ' => Sum.elim (J · ψ') (Q · ψ') r) ψ) :
    Follows next (Prog.iterate body x) Q φ :=
  ⟨J, Q, hx, hbody, fun _ _ hb => hb⟩

/-- A loop that keeps to the protocol does so once entered. -/
theorem Follows.unroll {body : γ → Prog Op (γ ⊕ β)} {x : γ} {k : β → Prog Op α}
    {Q : α → Φ → Prop} {φ : Φ} (h : Follows next (.loop body x k) Q φ) :
    Follows next (Prog.unroll body x k) Q φ := by
  obtain ⟨J, E, hx, hbody, hk⟩ := h
  refine (hbody x φ hx).bind fun r ψ hr => ?_
  cases r with
  | inl y => exact ⟨J, E, hr, hbody, hk⟩
  | inr b => exact hk b ψ hr

/-- A thread that keeps to the protocol never performs a forbidden operation. -/
theorem Follows.go_or_void {o : Op β} {k : β → Prog Op α} {Q : α → Φ → Prop} {φ : Φ}
    (h : Follows next (.op o k) Q φ) (b : β) :
    next β φ o b = .void ∨ ∃ φ', next β φ o b = .go φ' ∧ Follows next (k b) Q φ' := by
  have hb : (next β φ o b).Leads fun φ' => Follows next (k b) Q φ' := h b
  cases hm : next β φ o b with
  | reject => exact absurd hb (by simp [hm])
  | void => exact .inl rfl
  | go φ' => exact .inr ⟨φ', rfl, by simpa [hm] using hb⟩

end Follows

/-! ## Interleavings -/

variable {Tid : Type} [DecidableEq Tid] {Op : Type → Type} {A σ : Type}

/-- The threads and their store. -/
structure Config (Tid : Type) (Op : Type → Type) (σ : Type) where
  code : Tid → Prog Op Unit
  store : σ

section Run

variable (exec : ∀ β : Type, Tid → Op β → A → σ → Option (β × σ))

/-- One move of a thread: an operation, as the environment answers it, or the entry of a loop. -/
def step (t : Tid) (a : A) (c : Config Tid Op σ) : Option (Config Tid Op σ) :=
  match c.code t with
  | .ret _ => none
  | .op (β := β) o k => (exec β t o a c.store).map fun r => ⟨Function.update c.code t (k r.1), r.2⟩
  | .loop body x k => some ⟨Function.update c.code t (unroll body x k), c.store⟩

/-- A run: the schedule's moves in order, each possible when its turn comes. -/
def run : List (Tid × A) → Config Tid Op σ → Option (Config Tid Op σ)
  | [], c => some c
  | (t, a) :: rest, c => (step exec t a c).bind (run rest)

variable {exec}

/-- **An invariant of every move holds after every run.** -/
theorem run_invariant {P : Config Tid Op σ → Prop}
    (hstep : ∀ t a c c', P c → step exec t a c = some c' → P c') {schedule : List (Tid × A)}
    {c c' : Config Tid Op σ} (hc : P c) (hrun : run exec schedule c = some c') : P c' := by
  induction schedule generalizing c with
  | nil =>
    cases hrun
    exact hc
  | cons move rest ih =>
    obtain ⟨mid, hmid, hrest⟩ := Option.bind_eq_some_iff.mp hrun
    exact ih (hstep _ _ _ _ hc hmid) hrest

theorem run_append (schedule rest : List (Tid × A)) (c : Config Tid Op σ) :
    run exec (schedule ++ rest) c = (run exec schedule c).bind (run exec rest) := by
  induction schedule generalizing c with
  | nil => rfl
  | cons move schedule ih =>
    rw [List.cons_append, run, run, Option.bind_assoc]
    congr 1
    funext mid
    exact ih mid

/-- What a move can be: an operation performed, or a loop entered. -/
theorem step_cases {t : Tid} {a : A} {c c' : Config Tid Op σ} (h : step exec t a c = some c') :
    (∃ (β : Type) (o : Op β) (k : β → Prog Op Unit) (b : β) (s : σ), c.code t = .op o k ∧
      exec β t o a c.store = some (b, s) ∧ c' = ⟨Function.update c.code t (k b), s⟩) ∨
    (∃ (β γ : Type) (body : γ → Prog Op (γ ⊕ β)) (x : γ) (k : β → Prog Op Unit),
      c.code t = .loop body x k ∧
      c' = ⟨Function.update c.code t (unroll body x k), c.store⟩) := by
  unfold step at h
  split at h
  · cases h
  · rename_i β o k hcode
    obtain ⟨⟨b, s⟩, hexec, hc⟩ := Option.map_eq_some_iff.mp h
    exact .inl ⟨β, o, k, b, s, hcode, hexec, hc.symm⟩
  · rename_i β γ body x k hcode
    exact .inr ⟨β, γ, body, x, k, hcode, (Option.some.inj h).symm⟩

variable (exec) in
/-- A thread that moves alone, answered alike at each move, comes to a configuration that meets
`P`. -/
def Alone (t : Tid) (a : A) (P : Config Tid Op σ → Prop) (c : Config Tid Op σ) : Prop :=
  ∃ n c', run exec (List.replicate n (t, a)) c = some c' ∧ P c'

theorem Alone.refl {t : Tid} {a : A} {P : Config Tid Op σ → Prop} {c : Config Tid Op σ} (h : P c) :
    Alone exec t a P c :=
  ⟨0, c, rfl, h⟩

/-- It performs its next operation. -/
theorem Alone.op {t : Tid} {a : A} {P : Config Tid Op σ → Prop} {code : Tid → Prog Op Unit}
    {s s' : σ} {β : Type} {o : Op β} {k : β → Prog Op Unit} {b : β}
    (hexec : exec β t o a s = some (b, s'))
    (h : Alone exec t a P ⟨Function.update code t (k b), s'⟩) :
    Alone exec t a P ⟨Function.update code t (.op o k), s⟩ := by
  obtain ⟨n, c', hrun, hP⟩ := h
  refine ⟨n + 1, c', ?_, hP⟩
  simp [List.replicate_succ, run, step, hexec, hrun]

end Run

/-! ## The invariant rule -/

section Tracked

variable (exec : ∀ β : Type, Tid → Op β → A → σ → Option (β × σ)) {Φ : Tid → Type}
  (next : ∀ t, Protocol Op (Φ t))

/-- An invariant of the phases and the store, as one operation keeps it.  Where the protocol stops
following a thread the store is `spoilt`, and it stays so. -/
structure Tracking (Inv : (∀ t, Φ t) → σ → Prop) (spoilt : σ → Prop) : Prop where
  keep : ∀ {t : Tid} {β : Type} {o : Op β} {a : A} {b : β} {s s' : σ} {φ : ∀ t, Φ t} {p : Φ t},
    Inv φ s → exec β t o a s = some (b, s') → next t β (φ t) o b = .go p →
    spoilt s' ∨ Inv (Function.update φ t p) s'
  void : ∀ {t : Tid} {β : Type} {o : Op β} {a : A} {b : β} {s s' : σ} {φ : ∀ t, Φ t},
    Inv φ s → exec β t o a s = some (b, s') → next t β (φ t) o b = .void → spoilt s'
  spoilt_mono : ∀ {t : Tid} {β : Type} {o : Op β} {a : A} {b : β} {s s' : σ},
    spoilt s → exec β t o a s = some (b, s') → spoilt s'

/-- Every thread keeps to its protocol from phases that meet the invariant. -/
def Tracked (Inv : (∀ t, Φ t) → σ → Prop) (spoilt : σ → Prop) (c : Config Tid Op σ) : Prop :=
  spoilt c.store ∨ ∃ φ : ∀ t, Φ t, Inv φ c.store ∧
    ∀ t, Follows (next t) (c.code t) (fun _ _ => True) (φ t)

variable {exec next} {Inv : (∀ t, Φ t) → σ → Prop} {spoilt : σ → Prop}

/-- **A further invariant** may rest on one that is kept already. -/
theorem Tracking.and {I J : (∀ t, Φ t) → σ → Prop}
    (h : Tracking exec next I spoilt)
    (hkeep : ∀ {t : Tid} {β : Type} {o : Op β} {a : A} {b : β} {s s' : σ} {φ : ∀ t, Φ t} {p : Φ t},
      I φ s → J φ s → exec β t o a s = some (b, s') → next t β (φ t) o b = .go p →
      J (Function.update φ t p) s') :
    Tracking exec next (fun φ s => I φ s ∧ J φ s) spoilt where
  keep := fun ⟨hI, hJ⟩ hexec hnext =>
    (h.keep hI hexec hnext).imp id fun hI' => ⟨hI', hkeep hI hJ hexec hnext⟩
  void := fun ⟨hI, _⟩ hexec hnext => h.void hI hexec hnext
  spoilt_mono := h.spoilt_mono

theorem step_tracked (h : Tracking exec next Inv spoilt) {t : Tid} {a : A}
    {c c' : Config Tid Op σ} (hc : Tracked next Inv spoilt c) (hstep : step exec t a c = some c') :
    Tracked next Inv spoilt c' := by
  rcases step_cases hstep with ⟨β, o, k, b, s, hcode, hexec, rfl⟩ | ⟨β, γ, body, x, k, hcode, rfl⟩
  · rcases hc with hs | ⟨φ, hI, hF⟩
    · exact .inl (h.spoilt_mono hs hexec)
    have hFt := hF t
    rw [hcode] at hFt
    rcases hFt.go_or_void b with hb | ⟨p, hb, hk⟩
    · exact .inl (h.void hI hexec hb)
    refine (h.keep hI hexec hb).imp id fun hI' => ⟨Function.update φ t p, hI', fun u => ?_⟩
    rcases eq_or_ne u t with rfl | hu
    · simpa using hk
    · simpa [hu] using hF u
  · refine hc.imp id fun ⟨φ, hI, hF⟩ => ⟨φ, hI, fun u => ?_⟩
    rcases eq_or_ne u t with rfl | hu
    · have hFt := hF u
      rw [hcode] at hFt
      simpa using hFt.unroll
    · simpa [hu] using hF u

/-- **The invariant rule**: programs that keep to their protocols, from phases and a store that meet
an invariant each operation keeps, meet it after every run. -/
theorem run_tracked (h : Tracking exec next Inv spoilt) {schedule : List (Tid × A)}
    {c c' : Config Tid Op σ} (hc : Tracked next Inv spoilt c)
    (hrun : run exec schedule c = some c') : Tracked next Inv spoilt c' :=
  run_invariant (fun _ _ _ _ => step_tracked h) hc hrun

end Tracked

end SoftPC.Threads
