import SoftPC.Lib.Types
import Mathlib.Logic.Function.Basic
import Mathlib.Tactic.Common

/-!
# Lib/ConsoleBroker — one native console, handed from one logical console to the next

`lib/console/console.c` and `lib/console-broker/console.c`.  A logical console receives the events
of its binding generation and no others; the broker keeps one of them current.  What the native
backend answers to each call is an argument (`Answers`); every entry point of the broker runs under
its transaction lock, and a backend that returns from `deactivate` has joined its reader
(`console_backend.h`), so each is one step.
-/

namespace SoftPC.ConsoleBroker

/-- A logical console. -/
abbrev ConsoleId := ℕ

/-- `console_broker_mode`. -/
inductive Mode where
  | rawEvents | cookedLines
  deriving DecidableEq

/-- `lib_console_event_kind`. -/
inductive EventKind where
  | rawKey | rawMouse | cookedLine | rejectedLine | ioFailure | activated | inputReset
  deriving DecidableEq

/-- `lib_console_event`, with the length of its line. -/
structure Event where
  kind : EventKind
  generation : UInt32
  lineLength : UInt32
  deriving DecidableEq

/-- `LIB_CONSOLE_LINE_CAPACITY`. -/
def lineCapacity : ℕ := 1024

/-- `lib_console_event_valid`. -/
def Event.valid (e : Event) : Bool :=
  match e.kind with
  | .cookedLine | .rejectedLine => e.lineLength.toNat < lineCapacity
  | _ => true

/-- `console_broker_output_binding`, the context of an installed output. -/
structure OutputBinding where
  console : ConsoleId
  generation : UInt32
  deriving DecidableEq

/-- `struct lib_console`. -/
structure Console where
  references : UInt32 := 1
  /-- `event_sink != LIB_NULL`. -/
  eventSink : Bool := false
  output : Option OutputBinding := none
  bindingGeneration : UInt32 := 0
  /-- The last reference was released. -/
  destroyed : Bool := false
  deriving DecidableEq

/-- `struct console_broker`, the consoles, and the events their sinks have received, newest
first. -/
structure Broker where
  consoles : ConsoleId → Console
  current : ConsoleId
  currentMode : Mode
  generation : UInt32
  currentOutput : Option OutputBinding
  broken : Bool
  delivered : List (ConsoleId × Event)

/-! ## `lib_console` -/

namespace Broker

variable (b : Broker)

def setConsole (c : ConsoleId) (x : Console) : Broker :=
  { b with consoles := Function.update b.consoles c x }

/-- `lib_console_retain`. -/
def retain (c : ConsoleId) : Broker :=
  b.setConsole c { b.consoles c with references := (b.consoles c).references + 1 }

/-- `lib_console_release`. -/
def release (c : ConsoleId) : Broker :=
  b.setConsole c { b.consoles c with
    references := (b.consoles c).references - 1
    destroyed := (b.consoles c).destroyed || (b.consoles c).references == 1 }

/-- `lib_console_set_event_sink`. -/
def setEventSink (c : ConsoleId) (sink : Bool) : Broker :=
  b.setConsole c { b.consoles c with eventSink := sink }

/-- `lib_console_set_output_binding`. -/
def setOutputBinding (c : ConsoleId) (output : Option OutputBinding) : Broker :=
  b.setConsole c { b.consoles c with output }

/-- `lib_console_bind_generation`. -/
def bindGeneration (c : ConsoleId) (generation : UInt32) : Status × Broker :=
  if generation = 0 then (.invalidArgument, b)
  else (.ok, b.setConsole c { b.consoles c with bindingGeneration := generation })

/-- `lib_console_invalidate_binding`. -/
def invalidateBinding (c : ConsoleId) : Broker :=
  b.setConsole c { b.consoles c with bindingGeneration := 0 }

/-- `lib_console_deliver_event`. -/
def deliverEvent (c : ConsoleId) (e : Event) : Status × Broker :=
  if !e.valid then (.invalidArgument, b)
  else if e.generation = 0 ∨ e.generation ≠ (b.consoles c).bindingGeneration then (.ok, b)
  else if !(b.consoles c).eventSink then (.invalidState, b)
  else (.ok, { b with delivered := (c, e) :: b.delivered })

/-! ## The broker -/

/-- A sink that is deliberately absent is no failure. -/
def forgive (status : Status) : Status := if status = .invalidState then .ok else status

/-- `console_broker_reset_bound`. -/
def resetBound (c : ConsoleId) (generation : UInt32) : Status × Broker :=
  let r := b.deliverEvent c ⟨.inputReset, generation, 0⟩
  (forgive r.1, r.2)

/-- `console_broker_activate_bound`; `activate` is what the backend answers. -/
def activateBound (activate : Status) (c : ConsoleId) (generation : UInt32) : Status × Broker :=
  let bound := b.bindGeneration c generation
  if bound.1 ≠ .ok then bound
  else
    let reset := bound.2.resetBound c generation
    if reset.1 ≠ .ok then reset
    else if activate ≠ .ok then (activate, reset.2.invalidateBinding c)
    else (.ok, reset.2)

/-- `console_broker_notify_activation`. -/
def notifyActivation : Status × Broker :=
  let r := b.deliverEvent b.current ⟨.activated, b.generation, 0⟩
  (forgive r.1, r.2)

end Broker

/-- What the backend and the allocator answer during one replacement. -/
structure Answers where
  prepare : Status
  /-- `console_broker_output_binding_create` returns a binding. -/
  allocates : Bool
  deactivate : Status
  activateNext : Status
  activateOld : Status
  deriving DecidableEq

namespace Broker

variable (b : Broker)

/-- The old reader could not be retired or its input reset: fail closed. -/
def failRetirement (next : ConsoleId) : Broker :=
  let b := { b with broken := true }.invalidateBinding b.current
  let b := { b with currentOutput := none }
  ((b.setOutputBinding next none).release next).setOutputBinding b.current none

/-- The next console could not be activated: it is let go, and the old reader restored. -/
def rollBack (a : Answers) (next : ConsoleId) (status : Status) : Status × Broker :=
  let restored := b.activateBound a.activateOld b.current b.generation
  let b := (restored.2.setOutputBinding next none).release next
  if restored.1 ≠ .ok then
    let b := { b with broken := true, currentOutput := none }
    (restored.1, b.setOutputBinding b.current none)
  else
    let notified := b.notifyActivation
    (if notified.1 = .ok then status else notified.1, notified.2)

/-- The next console becomes current. -/
def commit (next : ConsoleId) (mode : Mode) (generation : UInt32) : Status × Broker :=
  let old := b.current
  let b := { b with
    current := next
    currentMode := mode
    generation := generation
    currentOutput := some ⟨next, generation⟩ }
  let notified := ((b.setOutputBinding old none).release old).notifyActivation
  (notified.1, if notified.1 ≠ .ok then { notified.2 with broken := true } else notified.2)

/-- The takeover of `console_broker_replace`, once the next binding is prepared. -/
def takeOver (a : Answers) (next : ConsoleId) (mode : Mode) : Status × Broker :=
  let generation := b.generation + 1
  let b := b.setOutputBinding next (some ⟨next, generation⟩)
  let reset := if a.deactivate = .ok then b.resetBound b.current b.generation else (a.deactivate, b)
  if reset.1 ≠ .ok then (reset.1, reset.2.failRetirement next)
  else
    let activated := (reset.2.invalidateBinding b.current).activateBound a.activateNext next generation
    if activated.1 ≠ .ok then activated.2.rollBack a next activated.1
    else activated.2.commit next mode generation

/-- `console_broker_replace`; `none` is `LIB_NULL`, or no mode at all. -/
def replace (a : Answers) (expected next : Option ConsoleId) (mode : Option Mode) :
    Status × Broker :=
  match expected, next, mode with
  | some expected, some next, some mode =>
    if expected = next then (.invalidArgument, b)
    else if b.broken ∨ b.current ≠ expected then (.invalidState, b)
    else if b.generation + 1 = 0 then (.limitExceeded, b)
    else
      let retained := b.retain next
      if a.prepare ≠ .ok then (a.prepare, retained.release next)
      else if !a.allocates then (.noMemory, retained.release next)
      else retained.takeOver a next mode
  | _, _, _ => (.invalidArgument, b)

/-- The current console takes cooked lines, and is the expected one. -/
def cooks (expected : ConsoleId) : Bool :=
  !b.broken && b.current == expected && b.currentMode = .cookedLines

/-- `console_broker_request_cooked_line`; `request` is what the backend answers. -/
def requestCookedLine (request : Status) (expected : Option ConsoleId) : Status :=
  match expected with
  | none => .invalidArgument
  | some expected => if b.cooks expected then request else .invalidState

/-- `console_broker_cancel_cooked_line`; `cancel` is what the backend answers. -/
def cancelCookedLine (cancel : Status) (expected : Option ConsoleId) : Status × Broker :=
  match expected with
  | none => (.invalidArgument, b)
  | some expected =>
    if b.cooks expected then (cancel, if cancel ≠ .ok then { b with broken := true } else b)
    else (.invalidState, b)

end Broker

/-- `console_broker_create`, with what the backend and the allocator answer. -/
def create (backend : Status) (allocates : Bool) (activate : Status)
    (consoles : ConsoleId → Console) (initial : ConsoleId) (mode : Mode) : Status × Option Broker :=
  if backend ≠ .ok then (backend, none)
  else if !allocates then (.noMemory, none)
  else
    let b : Broker := ⟨consoles, initial, mode, 1, some ⟨initial, 1⟩, false, []⟩
    let b := (b.retain initial).setOutputBinding initial (some ⟨initial, 1⟩)
    let activated := b.activateBound activate initial 1
    if activated.1 ≠ .ok then (activated.1, none)
    else
      let notified := activated.2.notifyActivation
      (notified.1, some notified.2)

/-! ## What each step does -/

namespace Broker

variable {b : Broker} {a : Answers} {c d : ConsoleId} {generation : UInt32}

section Fields

variable {o : Option OutputBinding}

@[simp] theorem retain_binding : ((b.retain c).consoles d).bindingGeneration =
    (b.consoles d).bindingGeneration := by
  by_cases h : d = c <;> simp [retain, setConsole, h]

@[simp] theorem retain_output : ((b.retain c).consoles d).output = (b.consoles d).output := by
  by_cases h : d = c <;> simp [retain, setConsole, h]

@[simp] theorem retain_references : ((b.retain c).consoles d).references =
    if d = c then (b.consoles d).references + 1 else (b.consoles d).references := by
  by_cases h : d = c <;> simp [retain, setConsole, h]

@[simp] theorem release_binding : ((b.release c).consoles d).bindingGeneration =
    (b.consoles d).bindingGeneration := by
  by_cases h : d = c <;> simp [release, setConsole, h]

@[simp] theorem release_output : ((b.release c).consoles d).output = (b.consoles d).output := by
  by_cases h : d = c <;> simp [release, setConsole, h]

@[simp] theorem release_references : ((b.release c).consoles d).references =
    if d = c then (b.consoles d).references - 1 else (b.consoles d).references := by
  by_cases h : d = c <;> simp [release, setConsole, h]

@[simp] theorem setOutputBinding_binding : ((b.setOutputBinding c o).consoles d).bindingGeneration =
    (b.consoles d).bindingGeneration := by
  by_cases h : d = c <;> simp [setOutputBinding, setConsole, h]

@[simp] theorem setOutputBinding_output : ((b.setOutputBinding c o).consoles d).output =
    if d = c then o else (b.consoles d).output := by
  by_cases h : d = c <;> simp [setOutputBinding, setConsole, h]

@[simp] theorem setOutputBinding_references : ((b.setOutputBinding c o).consoles d).references =
    (b.consoles d).references := by
  by_cases h : d = c <;> simp [setOutputBinding, setConsole, h]

/-- A console is bound to a generation, or to none. -/
def rebind (b : Broker) (c : ConsoleId) (generation : UInt32) : Broker :=
  b.setConsole c { b.consoles c with bindingGeneration := generation }

@[simp] theorem rebind_binding : ((b.rebind c generation).consoles d).bindingGeneration =
    if d = c then generation else (b.consoles d).bindingGeneration := by
  by_cases h : d = c <;> simp [rebind, setConsole, h]

@[simp] theorem rebind_output :
    ((b.rebind c generation).consoles d).output = (b.consoles d).output := by
  by_cases h : d = c <;> simp [rebind, setConsole, h]

@[simp] theorem rebind_references :
    ((b.rebind c generation).consoles d).references = (b.consoles d).references := by
  by_cases h : d = c <;> simp [rebind, setConsole, h]

@[simp] theorem retain_current : (b.retain c).current = b.current := rfl
@[simp] theorem retain_generation : (b.retain c).generation = b.generation := rfl
@[simp] theorem setOutputBinding_current : (b.setOutputBinding c o).current = b.current := rfl
@[simp] theorem setOutputBinding_generation :
    (b.setOutputBinding c o).generation = b.generation := rfl
@[simp] theorem rebind_current : (b.rebind c generation).current = b.current := rfl
@[simp] theorem rebind_generation : (b.rebind c generation).generation = b.generation := rfl

end Fields

theorem invalidateBinding_eq : b.invalidateBinding c = b.rebind c 0 := rfl

/-- Delivering an event changes nothing but what the sinks have received. -/
theorem deliverEvent_eq (e : Event) :
    (b.deliverEvent c e).2 = { b with delivered := (b.deliverEvent c e).2.delivered } := by
  unfold deliverEvent
  split_ifs <;> rfl

/-- A reset or an activation is always taken or forgiven. -/
theorem forgive_deliverEvent {e : Event} (he : e.valid = true) :
    forgive (b.deliverEvent c e).1 = .ok := by
  unfold deliverEvent forgive
  rw [he]
  split_ifs <;> simp_all

theorem resetBound_eq (b : Broker) (c : ConsoleId) (generation : UInt32) :
    ∃ l, b.resetBound c generation = (.ok, { b with delivered := l }) :=
  ⟨_, Prod.ext (forgive_deliverEvent rfl) (deliverEvent_eq _)⟩

theorem notifyActivation_eq (b : Broker) :
    ∃ l, b.notifyActivation = (.ok, { b with delivered := l }) :=
  ⟨_, Prod.ext (forgive_deliverEvent rfl) (deliverEvent_eq _)⟩

/-- A console is bound while the backend is activated for it, and stays so if that succeeds. -/
theorem activateBound_eq (b : Broker) (status : Status) (c : ConsoleId) (hg : generation ≠ 0) :
    ∃ l, b.activateBound status c generation =
      (status, { b.rebind c (if status = .ok then generation else 0) with delivered := l }) := by
  unfold activateBound bindGeneration
  rw [if_neg hg]
  dsimp only
  generalize hbound : b.setConsole c { b.consoles c with bindingGeneration := generation } = bound
  obtain ⟨l, hreset⟩ := resetBound_eq bound c generation
  refine ⟨l, ?_⟩
  simp only [hreset]
  subst hbound
  by_cases hs : status = .ok <;> simp [hs, rebind, setConsole, invalidateBinding]

/-! ## Replacement -/

/-- **The binding is sound**: at most the current console is bound, to the current generation; while
the broker works, it is bound and has the only output. -/
structure Sound (b : Broker) : Prop where
  generation_ne : b.generation ≠ 0
  bound : ∀ c, (b.consoles c).bindingGeneration = 0 ∨
    (c = b.current ∧ (b.consoles c).bindingGeneration = b.generation)
  working : b.broken = false →
    (b.consoles b.current).bindingGeneration = b.generation ∧
    b.currentOutput = some ⟨b.current, b.generation⟩ ∧
    ∀ c, (b.consoles c).output = if c = b.current then b.currentOutput else none

/-- Everything a failed replacement must give back. -/
structure Same (b b' : Broker) : Prop where
  current : b'.current = b.current
  currentMode : b'.currentMode = b.currentMode
  generation : b'.generation = b.generation
  currentOutput : b'.currentOutput = b.currentOutput
  broken : b'.broken = b.broken
  binding : ∀ c, (b'.consoles c).bindingGeneration = (b.consoles c).bindingGeneration
  output : ∀ c, (b'.consoles c).output = (b.consoles c).output
  references : ∀ c, (b'.consoles c).references = (b.consoles c).references

/-- The next console has taken over. -/
structure TakenOver (b b' : Broker) (next : ConsoleId) (mode : Mode) : Prop where
  current : b'.current = next
  currentMode : b'.currentMode = mode
  generation : b'.generation = b.generation + 1
  generation_succ : b'.generation.toNat = b.generation.toNat + 1
  currentOutput : b'.currentOutput = some ⟨next, b.generation + 1⟩
  working : b'.broken = false
  binding : ∀ c, (b'.consoles c).bindingGeneration = if c = next then b.generation + 1 else 0
  output : ∀ c, (b'.consoles c).output = if c = next then b'.currentOutput else none
  references : ∀ c, (b'.consoles c).references =
    if c = next then (b.consoles c).references + 1
    else if c = b.current then (b.consoles c).references - 1 else (b.consoles c).references

/-- The broker has broken: nothing is bound any more. -/
structure Broke (b b' : Broker) : Prop where
  worked : b.broken = false
  broken : b'.broken = true
  generation : b'.generation = b.generation
  binding : ∀ c, (b'.consoles c).bindingGeneration = 0

theorem Same.refl (b : Broker) : Same b b := by
  constructor <;> simp

theorem retain_release (b : Broker) (c : ConsoleId) : Same b ((b.retain c).release c) := by
  constructor <;> simp [retain, release, setConsole, Function.update_apply] <;>
    intro d <;> split <;> simp_all

variable {next : ConsoleId} {mode : Mode}

theorem commit_eq (b : Broker) (next : ConsoleId) (mode : Mode) (generation : UInt32) : ∃ l, b.commit next mode generation =
    (.ok, { (b.setOutputBinding b.current none).release b.current with
      current := next
      currentMode := mode
      generation := generation
      currentOutput := some ⟨next, generation⟩
      delivered := l }) := by
  unfold commit
  dsimp only
  generalize hb : (setOutputBinding _ b.current none).release b.current = b'
  obtain ⟨l, hnotified⟩ := notifyActivation_eq b'
  refine ⟨l, ?_⟩
  simp only [hnotified]
  subst hb
  simp [release, setOutputBinding, setConsole]

/-- The old console is bound again, and the next one let go; or the broker breaks. -/
theorem rollBack_eq (a : Answers) (next : ConsoleId) (status : Status) (hg : b.generation ≠ 0) :
    ∃ l, b.rollBack a next status =
      if a.activateOld = .ok then
        (status, { ((b.rebind b.current b.generation).setOutputBinding next none).release next with
          delivered := l })
      else
        (a.activateOld, { (((b.rebind b.current 0).setOutputBinding next none).release
            next).setOutputBinding b.current none with
          broken := true
          currentOutput := none
          delivered := l }) := by
  unfold rollBack
  dsimp only
  obtain ⟨l, hrestored⟩ := activateBound_eq b a.activateOld b.current hg
  simp only [hrestored]
  by_cases ha : a.activateOld = .ok
  · simp only [ha, ne_eq, not_true_eq_false, if_false, if_true]
    generalize hb : release _ next = b'
    obtain ⟨l', hnotified⟩ := notifyActivation_eq b'
    refine ⟨l', ?_⟩
    simp only [hnotified]
    subst hb
    rfl
  · simp only [ha, ne_eq, not_false_eq_true, if_true, if_false]
    exact ⟨l, rfl⟩

theorem takeOver_cases (a : Answers) (mode : Mode) (h : b.Sound) (hworking : b.broken = false) (hnext : next ≠ b.current)
    (hg : b.generation + 1 ≠ 0) :
    (((b.retain next).takeOver a next mode).1 = .ok ∧
      TakenOver b ((b.retain next).takeOver a next mode).2 next mode) ∨
    (((b.retain next).takeOver a next mode).1 ≠ .ok ∧
      (Same b ((b.retain next).takeOver a next mode).2 ∨
        Broke b ((b.retain next).takeOver a next mode).2)) := by
  obtain ⟨hbound, hout, houts⟩ := h.working hworking
  have hfree : ∀ c, c ≠ b.current → (b.consoles c).bindingGeneration = 0 := fun c hc =>
    (h.bound c).resolve_right fun hb => hc hb.1
  unfold takeOver
  dsimp only
  by_cases hd : a.deactivate = .ok
  · rw [if_pos hd]
    generalize hb₁ : (b.retain next).setOutputBinding next _ = b₁
    obtain ⟨l₁, hreset⟩ := resetBound_eq b₁ b₁.current b₁.generation
    simp only [hreset]
    rw [if_neg (by simp)]
    generalize hb₂ : invalidateBinding _ b₁.current = b₂
    have hg' : (b.retain next).generation + 1 ≠ 0 := hg
    obtain ⟨l₂, hactivated⟩ := activateBound_eq b₂ a.activateNext next hg'
    simp only [hactivated]
    by_cases ha : a.activateNext = .ok
    · rw [if_neg (by simp [ha])]
      generalize hb₃ : Broker.mk _ _ _ _ _ _ l₂ = b₃
      obtain ⟨l₃, hcommit⟩ := commit_eq b₃ next mode ((b.retain next).generation + 1)
      rw [hcommit]
      refine .inl ⟨rfl, ?_⟩
      subst hb₃ hb₂ hb₁
      refine ⟨rfl, rfl, rfl, ?_, rfl, hworking, fun c => ?_, fun c => ?_, fun c => ?_⟩
      · have hlt := b.generation.toNat_lt
        have hne : (b.generation + 1).toNat ≠ 0 := fun h0 => hg (UInt32.toNat.inj h0)
        change (b.generation + 1).toNat = b.generation.toNat + 1
        rw [UInt32.toNat_add, UInt32.toNat_one] at hne ⊢
        omega
      · by_cases hc : c = b.current
        · simp [ha, invalidateBinding_eq, hc]
        · simp [ha, invalidateBinding_eq, hc, hfree c hc]
      · by_cases hn : c = next
        · simp [hn, hnext, invalidateBinding_eq]
        · by_cases hc : c = b.current <;> simp [hn, hc, invalidateBinding_eq, houts]
          simpa [hc] using hn
      · by_cases hn : c = next
        · simp [hn, hnext, invalidateBinding_eq]
        · by_cases hc : c = b.current
          · subst hc
            simp [hn, invalidateBinding_eq]
          · simp [hn, hc, invalidateBinding_eq]
    · rw [if_pos (by simp [ha])]
      generalize hb₃ : Broker.mk _ _ _ _ _ _ l₂ = b₃
      have hcur : b₃.current = b.current := by subst hb₃ hb₂ hb₁; rfl
      have hgen : b₃.generation = b.generation := by subst hb₃ hb₂ hb₁; rfl
      obtain ⟨l₃, hroll⟩ := rollBack_eq a next a.activateNext (hgen ▸ h.generation_ne)
      rw [hroll, hcur, hgen]
      subst hb₃ hb₂ hb₁
      by_cases ho : a.activateOld = .ok
      · rw [if_pos ho]
        refine .inr ⟨ha, .inl ⟨rfl, rfl, rfl, rfl, rfl, fun c => ?_, fun c => ?_, fun c => ?_⟩⟩
        · by_cases hc : c = b.current
          · simp [hc, hbound]
          · by_cases hn : c = next
            · subst hn
              simp [hc, ha, hfree c hc]
            · simp [hc, hn, invalidateBinding_eq]
        · by_cases hn : c = next <;> simp [hn, invalidateBinding_eq, houts, hnext]
        · by_cases hn : c = next <;> simp [hn, invalidateBinding_eq]
      · rw [if_neg ho]
        refine .inr ⟨ho, .inr ⟨hworking, rfl, rfl, fun c => ?_⟩⟩
        by_cases hc : c = b.current
        · simp [hc]
        · by_cases hn : c = next <;> simp [hc, hn, ha, hfree, invalidateBinding_eq]
  · rw [if_neg hd]
    dsimp only
    rw [if_pos hd]
    refine .inr ⟨hd, .inr ⟨hworking, rfl, rfl, fun c => ?_⟩⟩
    unfold failRetirement
    by_cases hc : c = b.current <;> simp [hc, hfree, invalidateBinding_eq]

/-- **What a replacement can come to**: it takes over, gives everything back, or breaks the
broker. -/
theorem replace_cases (h : b.Sound) (expected next : Option ConsoleId) (mode : Option Mode) :
    ((b.replace a expected next mode).1 = .ok ∧ ∃ n m, next = some n ∧ mode = some m ∧
      TakenOver b (b.replace a expected next mode).2 n m) ∨
    ((b.replace a expected next mode).1 ≠ .ok ∧
      (Same b (b.replace a expected next mode).2 ∨ Broke b (b.replace a expected next mode).2)) := by
  unfold replace
  split
  · rename_i expected next mode
    by_cases he : expected = next
    · rw [if_pos he]
      exact .inr ⟨by simp, .inl (.refl b)⟩
    rw [if_neg he]
    by_cases hc : b.broken = true ∨ b.current ≠ expected
    · rw [if_pos hc]
      exact .inr ⟨by simp, .inl (.refl b)⟩
    rw [if_neg hc]
    push Not at hc
    obtain ⟨hworking, rfl⟩ := hc
    by_cases hg : b.generation + 1 = 0
    · rw [if_pos hg]
      exact .inr ⟨by simp, .inl (.refl b)⟩
    rw [if_neg hg]
    by_cases hp : a.prepare = .ok
    · cases ha : a.allocates with
      | false => simpa [hp] using .inl (b.retain_release next)
      | true =>
        rcases takeOver_cases a mode h (by simpa using hworking) (Ne.symm he) hg with
          ⟨hok, ht⟩ | ⟨hfailed, hrest⟩
        · simp only [hp, ne_eq, not_true_eq_false, if_false, Bool.not_true, Bool.false_eq_true]
          exact .inl ⟨hok, next, mode, rfl, rfl, ht⟩
        · simp only [hp, ne_eq, not_true_eq_false, if_false, Bool.not_true, Bool.false_eq_true]
          exact .inr ⟨hfailed, hrest⟩
    · simp only [ne_eq, hp, not_false_eq_true, if_true]
      exact .inr ⟨by simp, .inl (b.retain_release next)⟩
  · exact .inr ⟨by simp, .inl (.refl b)⟩

/-! ## Sequences of operations -/

/-- What is done to a broker and its consoles, with what the backend answers. -/
inductive Op where
  | replace (a : Answers) (expected next : Option ConsoleId) (mode : Option Mode)
  | request (status : Status) (expected : Option ConsoleId)
  | cancel (status : Status) (expected : Option ConsoleId)
  | deliver (c : ConsoleId) (e : Event)
  | setEventSink (c : ConsoleId) (sink : Bool)

def step (b : Broker) : Op → Broker
  | .replace a expected next mode => (b.replace a expected next mode).2
  | .request _ _ => b
  | .cancel status expected => (b.cancelCookedLine status expected).2
  | .deliver c e => (b.deliverEvent c e).2
  | .setEventSink c sink => b.setEventSink c sink

def run (b : Broker) (ops : List Op) : Broker := ops.foldl step b

theorem cancelCookedLine_cases (status : Status) (expected : Option ConsoleId) :
    (b.cancelCookedLine status expected).2 = b ∨
      (b.cancelCookedLine status expected).2 = { b with broken := true } := by
  unfold cancelCookedLine
  split
  · exact .inl rfl
  · split_ifs <;> simp

theorem setEventSink_console (sink : Bool) :
    ((b.setEventSink c sink).consoles d).bindingGeneration = (b.consoles d).bindingGeneration ∧
      ((b.setEventSink c sink).consoles d).output = (b.consoles d).output := by
  by_cases h : d = c <;> simp [setEventSink, setConsole, h]

/-- A change that the binding does not depend on. -/
theorem Sound.of_same {b' : Broker} (h : b.Sound) (hs : Same b b') : b'.Sound where
  generation_ne := hs.generation ▸ h.generation_ne
  bound c := by
    rw [hs.binding, hs.current, hs.generation]
    exact h.bound c
  working hw := by
    obtain ⟨hbound, hout, houts⟩ := h.working (hs.broken ▸ hw)
    refine ⟨?_, ?_, fun c => ?_⟩
    · rw [hs.binding, hs.current, hs.generation]
      exact hbound
    · rw [hs.currentOutput, hs.current, hs.generation]
      exact hout
    · rw [hs.output, hs.current, hs.currentOutput]
      exact houts c

theorem TakenOver.sound {b' : Broker} {n : ConsoleId} {m : Mode} (h : TakenOver b b' n m) :
    b'.Sound where
  generation_ne h0 := by
    have := h.generation_succ
    rw [h0] at this
    simp at this
  bound c := by
    rw [h.binding, h.current, h.generation]
    split
    · exact .inr ⟨‹_›, rfl⟩
    · exact .inl rfl
  working _ := by
    refine ⟨?_, ?_, fun c => ?_⟩
    · rw [h.binding, h.current, h.generation, if_pos rfl]
    · rw [h.currentOutput, h.current, h.generation]
    · rw [h.output, h.current]

theorem Sound.step (h : b.Sound) (op : Op) : (b.step op).Sound := by
  cases op with
  | replace a expected next mode =>
    rcases replace_cases (a := a) h expected next mode with ⟨-, n, m, -, -, ht⟩ | ⟨-, hs | hb⟩
    · exact ht.sound
    · exact h.of_same hs
    · refine ⟨?_, fun c => .inl (hb.binding c), fun hw => ?_⟩
      · change (b.replace a expected next mode).2.generation ≠ 0
        rw [hb.generation]
        exact h.generation_ne
      · exact absurd (hb.broken.symm.trans hw) (by simp)
  | request status expected => exact h
  | cancel status expected =>
    simp only [Broker.step]
    rcases cancelCookedLine_cases (b := b) status expected with heq | heq <;> rw [heq]
    · exact h
    · exact ⟨h.generation_ne, h.bound, by simp⟩
  | deliver c e =>
    simp only [Broker.step]
    rw [deliverEvent_eq]
    exact ⟨h.generation_ne, h.bound, h.working⟩
  | setEventSink c sink =>
    refine ⟨h.generation_ne, fun d => ?_, fun hw => ?_⟩
    · simp only [Broker.step, (setEventSink_console sink).1]
      exact h.bound d
    · obtain ⟨hbound, hout, houts⟩ := h.working hw
      refine ⟨?_, hout, fun d => ?_⟩
      · simp only [Broker.step, (setEventSink_console sink).1]
        exact hbound
      · simp only [Broker.step, (setEventSink_console sink).2]
        exact houts d

/-- **Every sequence of operations keeps the binding sound.** -/
theorem Sound.run (h : b.Sound) (ops : List Op) : (b.run ops).Sound := by
  induction ops generalizing b with
  | nil => exact h
  | cons op ops ih => exact ih (h.step op)

/-- A broken broker refuses every replacement and every request. -/
theorem broken_refuses (hb : b.broken = true) :
    (∀ a expected next mode, (b.replace a expected next mode).1 ≠ .ok ∧
      (b.replace a expected next mode).2 = b) ∧
    (∀ status expected, b.requestCookedLine status expected ≠ .ok) ∧
    ∀ status expected, (b.cancelCookedLine status expected).1 ≠ .ok := by
  refine ⟨fun a expected next mode => ?_, fun status expected => ?_, fun status expected => ?_⟩
  · unfold replace
    split
    · split_ifs <;> simp_all
    · simp
  · unfold requestCookedLine cooks
    split <;> simp [hb]
  · unfold cancelCookedLine cooks
    split <;> simp [hb]

theorem broken_step (hb : b.broken = true) (op : Op) : (b.step op).broken = true := by
  cases op with
  | replace a expected next mode =>
    rw [Broker.step, ((broken_refuses hb).1 a expected next mode).2]
    exact hb
  | request status expected => exact hb
  | cancel status expected =>
    simp only [Broker.step]
    rcases cancelCookedLine_cases (b := b) status expected with heq | heq <;> rw [heq]
    exact hb
  | deliver c e =>
    rw [Broker.step, deliverEvent_eq]
    exact hb
  | setEventSink c sink => exact hb

/-- **It stays broken.** -/
theorem broken_run (hb : b.broken = true) (ops : List Op) : (b.run ops).broken = true := by
  induction ops generalizing b with
  | nil => exact hb
  | cons op ops ih => exact ih (broken_step hb op)

/-- An event of an older generation reaches no sink. -/
theorem Sound.older_dropped (h : b.Sound) {e : Event} (he : e.generation < b.generation) :
    (b.deliverEvent c e).2 = b := by
  unfold deliverEvent
  split
  · rfl
  · split
    · rfl
    · rename_i hmatch
      push Not at hmatch
      obtain ⟨hne, hgen⟩ := hmatch
      rcases h.bound c with hb | ⟨-, hb⟩
      · exact absurd (hgen.trans hb) hne
      · rw [hgen, hb] at he
        exact absurd he (UInt32.lt_irrefl _)

end Broker

theorem create_sound {backend activate status : Status} {allocates : Bool}
    {consoles : ConsoleId → Console} {initial : ConsoleId} {mode : Mode} {b : Broker}
    (hunbound : ∀ c, (consoles c).bindingGeneration = 0 ∧ (consoles c).output = none)
    (hcreate : create backend allocates activate consoles initial mode = (status, some b)) :
    b.Sound := by
  unfold create at hcreate
  dsimp only at hcreate
  generalize hb₁ : (Broker.retain _ initial).setOutputBinding initial _ = b₁ at hcreate
  have hone : (1 : UInt32) ≠ 0 := by decide
  obtain ⟨l, hactivated⟩ := Broker.activateBound_eq b₁ activate initial hone
  simp only [hactivated] at hcreate
  split at hcreate
  · simp at hcreate
  split at hcreate
  · simp at hcreate
  by_cases hok : activate = .ok
  · rw [if_neg (by simp [hok])] at hcreate
    generalize hb₂ : Broker.mk _ _ _ _ _ _ l = b₂ at hcreate
    obtain ⟨l', hnotified⟩ := Broker.notifyActivation_eq b₂
    rw [hnotified] at hcreate
    simp only [Prod.mk.injEq, Option.some.injEq] at hcreate
    obtain ⟨-, rfl⟩ := hcreate
    subst hb₂ hb₁
    refine ⟨hone, fun c => ?_, fun _ => ⟨?_, rfl, fun c => ?_⟩⟩
    · by_cases hc : c = initial
      · exact .inr ⟨hc, by simp [hc, hok]⟩
      · exact .inl (by simp [hc, hunbound])
    · simp [hok]
    · change _ = if c = initial then some (OutputBinding.mk initial 1) else none
      by_cases hc : c = initial <;> simp [hc, hunbound]
  · rw [if_pos hok] at hcreate
    simp at hcreate

/-- **Replacement is transactional.**  Over unbound consoles, after any operations on a created
broker: a replacement that succeeds makes the next console current, with the next generation, and
exactly that console bound; one that fails gives everything back or breaks the broker; a broken
broker stays so, and refuses every replacement and request; and an event of an older generation
reaches no sink. -/
theorem replace_transactional {backend activate status : Status} {allocates : Bool}
    {consoles : ConsoleId → Console} {initial : ConsoleId} {mode : Mode} {b₀ : Broker}
    (hunbound : ∀ c, (consoles c).bindingGeneration = 0 ∧ (consoles c).output = none)
    (hcreate : create backend allocates activate consoles initial mode = (status, some b₀))
    (ops : List Broker.Op) :
    (∀ a expected next mode,
      ((b₀.run ops).replace a expected next mode).1 = .ok → ∃ n m, next = some n ∧ mode = some m ∧
        Broker.TakenOver (b₀.run ops) ((b₀.run ops).replace a expected next mode).2 n m) ∧
    (∀ a expected next mode, ((b₀.run ops).replace a expected next mode).1 ≠ .ok →
      Broker.Same (b₀.run ops) ((b₀.run ops).replace a expected next mode).2 ∨
      Broker.Broke (b₀.run ops) ((b₀.run ops).replace a expected next mode).2) ∧
    ((b₀.run ops).broken = true → ∀ later,
      (∀ a expected next mode,
        (((b₀.run ops).run later).replace a expected next mode).1 ≠ .ok) ∧
      ∀ status expected, ((b₀.run ops).run later).requestCookedLine status expected ≠ .ok) ∧
    ∀ c e, e.generation < (b₀.run ops).generation →
      ((b₀.run ops).deliverEvent c e).2 = b₀.run ops := by
  have hsound := (create_sound hunbound hcreate).run ops
  refine ⟨fun a expected next mode hok => ?_, fun a expected next mode hfailed => ?_,
    fun hbroken later => ?_, fun c e he => hsound.older_dropped he⟩
  · rcases Broker.replace_cases hsound expected next mode with ⟨-, h⟩ | ⟨h, -⟩
    · exact h
    · exact absurd hok h
  · rcases Broker.replace_cases hsound expected next mode with ⟨h, -⟩ | ⟨-, h⟩
    · exact absurd h hfailed
    · exact h
  · obtain ⟨hreplace, hrequest, -⟩ := Broker.broken_refuses (Broker.broken_run hbroken later)
    exact ⟨fun a expected next mode => (hreplace a expected next mode).1, hrequest⟩

/-- Two consoles change places; then the next activation and its rollback fail. -/
def failedRollback : List Broker.Op :=
  [.replace ⟨.ok, true, .ok, .ok, .ok⟩ (some 0) (some 1) (some .cookedLines),
    .replace ⟨.ok, true, .ok, .ioError, .ioError⟩ (some 1) (some 0) (some .rawEvents)]

theorem replace_transactional_broken :
    ∃ status b₀, create .ok true .ok (fun _ => {}) 0 .rawEvents = (status, some b₀) ∧
      (b₀.run failedRollback).broken = true ∧
      ∀ status expected, (b₀.run failedRollback).requestCookedLine status expected ≠ .ok := by
  obtain ⟨status, b₀, hcreate⟩ : ∃ status b₀,
      create .ok true .ok (fun _ => {}) 0 .rawEvents = (status, some b₀) := ⟨_, _, rfl⟩
  have hbroken : (b₀.run failedRollback).broken = true := by
    cases hcreate
    rfl
  exact ⟨status, b₀, hcreate, hbroken, ((replace_transactional (fun _ => ⟨rfl, rfl⟩) hcreate
    failedRollback).2.2.1 hbroken []).2⟩

end SoftPC.ConsoleBroker
