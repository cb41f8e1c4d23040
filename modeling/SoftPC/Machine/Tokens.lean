import SoftPC.Machine.Lifecycle

/-!
# Machine/Tokens — who has the outstanding request

A synchronous request is made by raising a flag, claimed by the worker, and answered by an event; a
state write that has restored the machine waits for its run to park.  At any time the request is in
exactly one of these hands, and the control thread waits for it (`Tokens`).
-/

namespace SoftPC.Machine

open SoftPC.Threads

/-- What the worker knows of the requests. -/
structure Hands where
  place : Place
  owes : Option (Kind × Stage)
  reading : Reading
  requested : Bool
  armed : Bool
  ready : Bool
  staged : Bool
  restored : Bool

@[reducible] def WorkerPhase.hands (w : WorkerPhase) : Hands :=
  ⟨w.place, w.owes, w.reading, w.requested, w.armed, w.ready, w.staged, w.restored⟩

/-- **Who has the request**: it is asked for and unclaimed, the worker owes it, or a restored state
waits for its run; and while one of them has it, its event is not signalled.  The flags that only
the worker writes are as it left them. -/
structure Tokens (x : Hands) (stand : Stand) (flags : Flag → Bool) (signaled : Event → Bool) :
    Prop where
  asked : ∀ k : Kind, flags k.flag = true → stand = .waiting k ∧ x.owes = none ∧
    flags .stateWriteWaiting = false ∧ signaled k.event = false
  owed : ∀ k s, x.owes = some (k, s) → stand = .waiting k ∧
    flags .stateWriteWaiting = false ∧ signaled k.event = false
  waits : flags .stateWriteWaiting = true → stand = .waiting .stateWrite ∧ x.owes = none ∧
    signaled .state = false
  fresh : ∀ e, stand = .armed e → signaled e = false ∧ e ≠ .command ∧ e ≠ .resume
  knows : x.requested = true → flags .stateReadRequested = true
  reads : x.reading ≠ .none → flags .stateReadRequested = true ∧ x.armed = true
  arms : x.armed = true ∨ x.ready = true →
    flags .stateReadRequested = true ∨ x.owes = some (.stateRead, .recorded)
  readies : x.ready = true → flags .stateReadRequested = true → x.armed = true
  stages : x.staged = true → x.place = .restoring .counted ∨
    (x.place = .idle ∧ flags .stateWriteWaiting = true) ∨ x.place = .leaving ∨ x.place = .gone
  restores : x.restored = true → flags .stateWriteWaiting = true
  restoring : ∀ r, x.place = .restoring r →
    flags .stateWriteWaiting = true ∨ x.owes = some (.stateWrite, .restored)
  mirrors : flags .stateReadArmed = x.armed ∧ flags .stateReadReady = x.ready ∧
    flags .restoredStartRequested = x.staged

namespace Tokens

variable {x : Hands} {stand : Stand} {flags : Flag → Bool} {signaled : Event → Bool} {k : Kind}
  {s s' : Stage} {e : Event}

attribute [local grind =] Function.update_apply Kind.event Kind.flag
attribute [local grind cases] Kind

/-- A flag that is none of the requests' business. -/
theorem otherFlag {f : Flag} {v : Bool} (h : Tokens x stand flags signaled)
    (hf : f ∈ [.debugCancelRequested, .pauseRequested, .stopRequested, .startRequested,
      .resetRequested, .resetActive, .terminateRequested]) :
    Tokens x stand (Function.update flags f v) signaled := by
  have hflags : ∀ g, (∃ k : Kind, g = k.flag) ∨ g ∈ [.stateReadArmed, .stateReadReady,
      .stateWriteWaiting, .restoredStartRequested] → Function.update flags f v g = flags g := by
    rintro g (⟨k, rfl⟩ | hg)
    · cases k <;> simp at hf ⊢ <;> grind -linarith
    · simp at hf hg
      grind -linarith
  cases h
  constructor <;> grind -linarith

/-- … and such an event. -/
theorem otherEvent {v : Bool} (h : Tokens x stand flags signaled)
    (he : e = .command ∨ e = .resume) :
    Tokens x stand flags (Function.update signaled e v) := by
  cases h
  constructor <;> grind -linarith

/-! ### The worker -/

theorem claim (h : Tokens x stand flags signaled) (hk : k ≠ .stateRead) (hf : flags k.flag = true) :
    Tokens { x with owes := some (k, .claimed) } stand (Function.update flags k.flag false)
      signaled := by
  cases h
  constructor <;> grind -linarith

/-- A claimed request comes further. -/
theorem progress (h : Tokens x stand flags signaled) (ho : x.owes = some (k, s))
    (hs : s ≠ .restored) (hk : k ≠ .stateRead) :
    Tokens { x with owes := some (k, s') } stand flags signaled := by
  cases h
  constructor <;> grind -linarith

/-- A claimed request is answered. -/
theorem answer (h : Tokens x stand flags signaled) (ho : x.owes = some (k, s)) (hs : s ≠ .restored)
    (hr : k = .stateRead → x.armed = false ∧ x.ready = false) :
    Tokens { x with owes := none } stand flags (Function.update signaled k.event true) := by
  cases h
  constructor <;> grind -linarith

theorem takeRead (h : Tokens x stand flags signaled) (hf : flags .stateReadRequested = true) :
    Tokens { x with owes := some (.stateRead, .recorded), reading := .none, requested := false }
      stand (Function.update flags .stateReadRequested false) signaled := by
  cases h
  constructor <;> grind -linarith

theorem missRead (h : Tokens x stand flags signaled) (hf : flags .stateReadRequested = false) :
    Tokens { x with reading := .none, requested := false } stand
      (Function.update flags .stateReadRequested false) signaled := by
  cases h
  constructor <;> grind -linarith

theorem arm {r : Reading} (h : Tokens x stand flags signaled) (hr : x.requested = true) :
    Tokens { x with reading := r, armed := true } stand (Function.update flags .stateReadArmed true)
      signaled := by
  cases h
  constructor <;> grind -linarith

theorem disarm (h : Tokens x stand flags signaled) (ho : x.owes = some (.stateRead, .recorded)) :
    Tokens { x with armed := false } stand (Function.update flags .stateReadArmed false)
      signaled := by
  cases h
  constructor <;> grind -linarith

theorem makeReady {r : Reading} (h : Tokens x stand flags signaled) (hr : x.reading = .recorded) :
    Tokens { x with reading := r, ready := true } stand
      (Function.update flags .stateReadReady true) signaled := by
  cases h
  constructor <;> grind -linarith

theorem unmakeReady (h : Tokens x stand flags signaled)
    (ho : x.owes = some (.stateRead, .recorded)) :
    Tokens { x with ready := false } stand (Function.update flags .stateReadReady false)
      signaled := by
  cases h
  constructor <;> grind -linarith

/-- A state read goes on, or the worker learns that there is one. -/
theorem read {r : Reading} {b : Bool} (h : Tokens x stand flags signaled)
    (hr : r ≠ .none → x.reading ≠ .none) (hb : b = true → flags .stateReadRequested = true) :
    Tokens { x with reading := r, requested := b } stand flags signaled := by
  cases h
  constructor <;> grind -linarith

theorem takeWaiting (h : Tokens x stand flags signaled) (hf : flags .stateWriteWaiting = true)
    (hp : x.place = .live ∨ x.place.finishing = true) :
    Tokens { x with owes := some (.stateWrite, .recorded), restored := false } stand
      (Function.update flags .stateWriteWaiting false) signaled := by
  have hstaged : x.staged = true → x.place = .leaving := by
    intro hs
    have := h.stages hs
    grind -linarith [Place.finishing]
  have hrestoring : ∀ r, x.place ≠ .restoring r := by
    grind -linarith [Place.finishing]
  cases h
  constructor <;> grind -linarith

theorem putWaiting (h : Tokens x stand flags signaled)
    (ho : x.owes = some (.stateWrite, .restored)) :
    Tokens { x with owes := none } stand (Function.update flags .stateWriteWaiting true)
      signaled := by
  cases h
  constructor <;> grind -linarith

theorem stage (h : Tokens x stand flags signaled) (hp : x.place = .restoring .counted) :
    Tokens { x with staged := true } stand (Function.update flags .restoredStartRequested true)
      signaled := by
  cases h
  constructor <;> grind -linarith

theorem unstage (h : Tokens x stand flags signaled) (hp : x.place = .idle) :
    Tokens { x with staged := false, restored := flags .restoredStartRequested } stand
      (Function.update flags .restoredStartRequested false) signaled := by
  cases h
  constructor <;> grind -linarith

theorem forget (h : Tokens x stand flags signaled) :
    Tokens { x with restored := false } stand flags signaled := by
  cases h
  constructor <;> grind -linarith

/-- The worker moves to another place. -/
theorem move {p : Place} (h : Tokens x stand flags signaled)
    (hs : x.staged = true → p = x.place ∨ p = .restoring .counted ∨ p = .leaving ∨ p = .gone ∨
      (p = .idle ∧ flags .stateWriteWaiting = true))
    (hr : ∀ r, p = .restoring r →
      (∃ r, x.place = .restoring r) ∨ x.owes = some (.stateWrite, .restored)) :
    Tokens { x with place := p } stand flags signaled := by
  cases h
  constructor <;> grind -linarith

theorem renewRecycling {r r' : Renewal} (h : Tokens x stand flags signaled)
    (hp : x.place = .recycling r) :
    Tokens { x with place := .recycling r' } stand flags signaled := by
  refine h.move ?_ (by simp)
  intro hs
  have := h.stages hs
  simp [hp] at this

theorem renewRestoring {r r' : Renewal} (h : Tokens x stand flags signaled)
    (hp : x.place = .restoring r) (hr : r ≠ .counted) :
    Tokens { x with place := .restoring r' } stand flags signaled := by
  refine h.move ?_ fun _ _ => .inl ⟨r, hp⟩
  intro hs
  have := h.stages hs
  simp [hp, hr] at this

/-! ### The control thread -/

/-- Without a waiting control thread there is no request. -/
theorem nobody (h : Tokens x stand flags signaled) (hs : ∀ k, stand ≠ .waiting k) :
    x.owes = none ∧ flags .stateWriteWaiting = false ∧ ∀ k : Kind, flags k.flag = false := by
  refine ⟨?_, ?_, fun k => ?_⟩
  · cases ho : x.owes with
    | none => rfl
    | some o => exact absurd (h.owed o.1 o.2 ho).1 (hs o.1)
  · exact Bool.eq_false_iff.mpr fun hf => hs _ (h.waits hf).1
  · exact Bool.eq_false_iff.mpr fun hf => hs k (h.asked k hf).1

/-- The control thread moves on while no request is out. -/
theorem stands {stand' : Stand} (h : Tokens x stand flags signaled)
    (hs : ∀ k, stand ≠ .waiting k) (hs' : ∀ e, stand' ≠ .armed e) :
    Tokens x stand' flags signaled := by
  cases h
  constructor <;> grind -linarith

theorem freshen (h : Tokens x .submitting flags signaled) (he : e ≠ .command ∧ e ≠ .resume) :
    Tokens x (.armed e) flags (Function.update signaled e false) := by
  cases h
  constructor <;> grind -linarith

theorem ask (h : Tokens x (.armed k.event) flags signaled) :
    Tokens x (.waiting k) (Function.update flags k.flag true) signaled := by
  obtain ⟨ho, hw, hf⟩ := h.nobody (by simp)
  cases h
  constructor <;> grind -linarith

theorem collect (h : Tokens x (.waiting k) flags signaled) (hs : signaled k.event = true) :
    Tokens x (.answered k) flags signaled := by
  cases h
  constructor <;> grind -linarith

end Tokens

end SoftPC.Machine
