import Mathlib.Data.Fintype.Basic
import Mathlib.Logic.Function.Iterate
import Mathlib.Tactic.SplitIfs

/-!
# Session/ControlState — completed facts in, one presentation action out

`emulator/session/control_state.c` and `presentation_plan.c`.  The control thread notes completed
facts, derives the desired presentation from them, and issues at most one action at a time towards
it; the action's own completion comes back as another fact.

`gap` counts what still separates the actual presentation from the desired one.  Every issued
action that succeeds closes exactly one unit of it (`gap_advance`), which is the whole of
convergence.
-/

namespace SoftPC

/-- `emulator_session_machine_state`. -/
inductive SessionMachineState where
  | init | stopped | running | paused | error | resetCompleted
  deriving DecidableEq

/-- `emulator_session_display`. -/
inductive Display where
  | console | window
  deriving DecidableEq

/-- `emulator_session_console_actual`. -/
inductive ConsoleActual where
  | monitor | vm
  deriving DecidableEq

instance : Fintype ConsoleActual := ⟨{.monitor, .vm}, fun c => by cases c <;> decide⟩

/-- `emulator_ui_action`. -/
inductive UiAction where
  | none | createWindow | createVmConsole | bindVmConsole | bindMonitor | destroyVmConsole
  | destroyWindow
  deriving DecidableEq

/-- `emulator_session_presentation_plan`. -/
structure PresentationPlan where
  windowEnabled : Bool
  vmConsoleEnabled : Bool
  monitorConsoleEnabled : Bool
  deriving DecidableEq

/-- `emulator_session_derive_presentation`. -/
def derivePresentation (display : Display) (consoleControl : Bool) (state : SessionMachineState)
    (frameAvailable graphics : Bool) : PresentationPlan :=
  if state = .stopped ∨ state = .error then ⟨false, false, true⟩
  else if state = .paused then ⟨display = .window || graphics, false, true⟩
  else if display = .window then ⟨true, false, true⟩
  else if !frameAvailable then ⟨false, false, true⟩
  else if !graphics then ⟨false, true, false⟩
  else if !consoleControl then ⟨true, true, false⟩
  else ⟨true, false, true⟩

/-- The monitor console is enabled exactly when the VM console is not. -/
theorem derivePresentation_monitor (display : Display) (consoleControl : Bool)
    (state : SessionMachineState) (frameAvailable graphics : Bool) :
    (derivePresentation display consoleControl state frameAvailable graphics).monitorConsoleEnabled
      = !(derivePresentation display consoleControl state frameAvailable graphics).vmConsoleEnabled
      := by
  unfold derivePresentation
  split_ifs <;> rfl

/-- `emulator_session_frame_is_newer`: publication serials are positions on a ring of `2^32 - 1`
nonzero values, and zero is no position. -/
def frameIsNewer (sequence previous : UInt32) : Bool :=
  let distance := sequence - previous
  sequence != 0 && (previous == 0 || (distance != 0 && distance < 0x80000000))

/-- `emulator_session_state`. -/
structure SessionState where
  display : Display
  consoleControl : Bool
  runtimeActual : SessionMachineState
  frameActual : Bool
  graphicsActual : Bool
  windowActual : Bool
  vmConsoleActual : Bool
  currentConsoleActual : ConsoleActual
  inFlight : UiAction
  windowSuppressed : Bool
  monitorActual : SessionMachineState
  observedFrameSequence : UInt32
  deriving DecidableEq

namespace SessionState

/-! ## Noting facts -/

/-- `emulator_session_state_initialize`. -/
def initialized (display : Display) (consoleControl : Bool) : SessionState where
  display := display
  consoleControl := consoleControl
  runtimeActual := .stopped
  frameActual := false
  graphicsActual := false
  windowActual := false
  vmConsoleActual := false
  currentConsoleActual := .monitor
  inFlight := .none
  windowSuppressed := false
  monitorActual := .init
  observedFrameSequence := 0

/-- `emulator_session_state_note_window_close`. -/
def noteWindowClose (s : SessionState) : SessionState := { s with windowSuppressed := true }

/-- What the monitor is told a completion leaves the machine in. -/
def monitorAfter (prior completed : SessionMachineState) : SessionMachineState :=
  if completed = .resetCompleted ∨ completed = .paused then .paused
  else if completed = .running then .running
  else if completed = .stopped ∨ completed = .error then completed
  else prior

/-- `emulator_session_state_note_runtime`. -/
def noteRuntime (s : SessionState) (completed : SessionMachineState) : SessionState :=
  let presentation := if completed = .resetCompleted then .paused else completed
  -- A paused view keeps a Window it had; it never makes one.
  let suppressed := s.windowSuppressed ||
    (completed = .paused && s.runtimeActual = .stopped && !s.windowActual)
  let suppressed := suppressed && !(presentation = .running && s.runtimeActual ≠ .running)
  let retired : Bool := presentation = .stopped || presentation = .error
  { s with
    monitorActual := monitorAfter s.monitorActual completed
    windowSuppressed := suppressed
    runtimeActual := presentation
    frameActual := s.frameActual && !retired
    graphicsActual := s.graphicsActual && !retired }

/-- `emulator_session_state_note_frame`. -/
def noteFrame (s : SessionState) (sequence : UInt32) (graphics : Bool) : SessionState :=
  if frameIsNewer sequence s.observedFrameSequence then
    { s with observedFrameSequence := sequence, frameActual := true, graphicsActual := graphics }
  else s

/-- `emulator_session_state_note_window`. -/
def noteWindow (s : SessionState) (present : Bool) : SessionState :=
  { s with
    windowActual := present
    inFlight := if s.inFlight = (if present then .createWindow else .destroyWindow)
      then .none else s.inFlight }

/-- `emulator_session_state_note_vm_console`. -/
def noteVmConsole (s : SessionState) (present : Bool) : SessionState :=
  { s with
    vmConsoleActual := present
    inFlight := if s.inFlight = (if present then .createVmConsole else .destroyVmConsole)
      then .none else s.inFlight }

/-- `emulator_session_state_note_current_console`. -/
def noteCurrentConsole (s : SessionState) (vmConsoleCurrent : Bool) : SessionState :=
  { s with
    currentConsoleActual := if vmConsoleCurrent then .vm else .monitor
    inFlight := if s.inFlight = (if vmConsoleCurrent then .bindVmConsole else .bindMonitor)
      then .none else s.inFlight }

/-! ## Choosing the next action -/

/-- `emulator_session_state_desired`. -/
def desired (s : SessionState) : PresentationPlan :=
  let plan := derivePresentation s.display s.consoleControl s.runtimeActual s.frameActual
    s.graphicsActual
  if s.windowSuppressed ∧ s.runtimeActual = .paused then { plan with windowEnabled := false }
  else plan

/-- The actual presentation, as the choice of the next action sees it. -/
structure Surface where
  vmConsole : Bool
  current : ConsoleActual
  window : Bool
  /-- Only a running machine may make a Window. -/
  running : Bool

/-- The actual presentation of a state. -/
def surface (s : SessionState) : Surface where
  vmConsole := s.vmConsoleActual
  current := s.currentConsoleActual
  window := s.windowActual
  running := s.runtimeActual = .running

/-- The choice in `emulator_session_state_next_action`, once nothing is in flight. -/
def chooseAction (desired : PresentationPlan) (x : Surface) : UiAction :=
  if desired.vmConsoleEnabled && !x.vmConsole then .createVmConsole
  else if desired.vmConsoleEnabled && x.current != .vm then .bindVmConsole
  else if !desired.vmConsoleEnabled && x.current != .monitor then .bindMonitor
  else if !desired.vmConsoleEnabled && x.vmConsole then .destroyVmConsole
  -- Console activation may request foreground, so its ownership work precedes the Window's.
  else if desired.windowEnabled && !x.window && x.running then .createWindow
  else if !desired.windowEnabled && x.window then .destroyWindow
  else .none

/-- `emulator_session_state_next_action`. -/
def nextAction (s : SessionState) : UiAction :=
  if s.inFlight ≠ .none then .none else chooseAction s.desired s.surface

/-- `emulator_session_state_monitor_is_current`. -/
def monitorIsCurrent (s : SessionState) : Bool :=
  s.desired.monitorConsoleEnabled && s.currentConsoleActual = .monitor && s.inFlight ≠ .bindVmConsole

/-- `emulator_session_state_monitor_is_running_graphics_surface`. -/
def monitorIsRunningGraphicsSurface (s : SessionState) : Bool :=
  s.display = .console && s.runtimeActual = .running && s.frameActual && s.graphicsActual && s.monitorIsCurrent

/-- `emulator_session_state_frame_targets_ready`. -/
def frameTargetsReady (s : SessionState) : Bool :=
  let desired := s.desired
  if !desired.windowEnabled && !desired.vmConsoleEnabled then false
  else if desired.windowEnabled && !s.windowActual then false
  else !desired.vmConsoleEnabled || (s.vmConsoleActual && s.currentConsoleActual = .vm)

/-- `emulator_session_state_take_action`: the action returned is `nextAction`. -/
def takeAction (s : SessionState) : SessionState :=
  if s.nextAction ≠ .none then { s with inFlight := s.nextAction } else s

/-- **An issued action is always safe to perform**: nothing else is in flight, a console is bound
only when it exists, destroyed only when it is not the current one, and a Window is made only for a
running machine. -/
theorem nextAction_safe (s : SessionState) (h : s.nextAction ≠ .none) :
    s.inFlight = .none ∧
    (s.nextAction = .bindVmConsole → s.vmConsoleActual = true) ∧
    (s.nextAction = .destroyVmConsole → s.currentConsoleActual ≠ .vm) ∧
    (s.nextAction = .createWindow → s.runtimeActual = .running) := by
  have hchoose : ∀ (d : PresentationPlan) (x : Surface),
      (chooseAction d x = .bindVmConsole → x.vmConsole = true) ∧
      (chooseAction d x = .destroyVmConsole → x.current ≠ .vm) ∧
      (chooseAction d x = .createWindow → x.running = true) := by
    rintro ⟨w, v, m⟩ ⟨a, b, c, d⟩
    revert w v m a b c d
    decide
  have hfree : s.inFlight = .none := by
    by_contra hf
    exact h (if_pos hf)
  have hnext : s.nextAction = chooseAction s.desired s.surface := by simp [nextAction, hfree]
  obtain ⟨hbind, hdestroy, hcreate⟩ := hchoose s.desired s.surface
  rw [hnext]
  exact ⟨hfree, hbind, hdestroy, fun hw => of_decide_eq_true (hcreate hw)⟩

/-! ## Facts, and what completes an action -/

/-- The facts the control FIFO carries to the reducer. -/
inductive Fact where
  | runtime (completed : SessionMachineState)
  | frame (sequence : UInt32) (graphics : Bool)
  | windowClose
  | window (present : Bool)
  | vmConsole (present : Bool)
  | currentConsole (vmConsoleCurrent : Bool)
  deriving DecidableEq

/-- The reducer. -/
def note (s : SessionState) : Fact → SessionState
  | .runtime completed => s.noteRuntime completed
  | .frame sequence graphics => s.noteFrame sequence graphics
  | .windowClose => s.noteWindowClose
  | .window present => s.noteWindow present
  | .vmConsole present => s.noteVmConsole present
  | .currentConsole vmConsoleCurrent => s.noteCurrentConsole vmConsoleCurrent

/-- The fact `emulator_ui_apply_action` reports when the action succeeds. -/
def completion : UiAction → Option Fact
  | .none => none
  | .createWindow => some (.window true)
  | .destroyWindow => some (.window false)
  | .createVmConsole => some (.vmConsole true)
  | .destroyVmConsole => some (.vmConsole false)
  | .bindVmConsole => some (.currentConsole true)
  | .bindMonitor => some (.currentConsole false)

/-- **A fact ends the action in flight exactly when it is that action's completion.** -/
theorem inFlight_note (s : SessionState) (f : Fact) :
    (s.note f).inFlight = if completion s.inFlight = some f then .none else s.inFlight := by
  have hruntime : ∀ c, (s.noteRuntime c).inFlight = s.inFlight := fun _ => rfl
  have hframe : ∀ q g, (s.noteFrame q g).inFlight = s.inFlight := by
    intro q g
    unfold noteFrame
    split_ifs <;> rfl
  cases f with
  | runtime c => cases h : s.inFlight <;> simp [note, completion, hruntime, h]
  | frame q g => cases h : s.inFlight <;> simp [note, completion, hframe, h]
  | windowClose => cases h : s.inFlight <;> simp [note, noteWindowClose, completion, h]
  | window present =>
    cases h : s.inFlight <;> cases present <;> simp [note, noteWindow, completion, h]
  | vmConsole present =>
    cases h : s.inFlight <;> cases present <;> simp [note, noteVmConsole, completion, h]
  | currentConsole current =>
    cases h : s.inFlight <;> cases current <;> simp [note, noteCurrentConsole, completion, h]

/-! ## Runs of the session -/

/-- The reducer inside the session loop, with the actions it has performed. -/
structure Loop where
  state : SessionState
  /-- Actions handed to the UI, each with the state it was chosen in. -/
  issued : List (UiAction × SessionState)
  /-- Actions handed to the UI whose completion has not been noted. -/
  outstanding : List UiAction
  /-- A failed action ends `emulator_session_run`. -/
  ended : Bool

/-- One turn of `emulator_session_run`: note a fact, or drive the next action, which the UI performs
or fails. -/
inductive Turn where
  | fact (f : Fact)
  | drive (performed : Bool)

/-- The session loop. -/
def Loop.turn (l : Loop) (t : Turn) : Loop :=
  if l.ended then l else
  match t with
  | .fact f =>
    { l with
      state := l.state.note f
      outstanding := l.outstanding.filter fun a => completion a ≠ some f }
  | .drive performed =>
    if l.state.nextAction = .none then l else
    { state := l.state.takeAction
      issued := l.issued ++ [(l.state.nextAction, l.state)]
      outstanding := l.outstanding ++ [l.state.nextAction]
      ended := !performed }

/-- A session from its creation through any facts, actions and failures. -/
def Loop.run (display : Display) (consoleControl : Bool) (turns : List Turn) : Loop :=
  turns.foldl Loop.turn ⟨initialized display consoleControl, [], [], false⟩

/-- The loop invariant: the one outstanding action is the one in flight, and every action ever
issued was safe where it was chosen. -/
structure Loop.Safe (l : Loop) : Prop where
  outstanding : l.outstanding = if l.state.inFlight = .none then [] else [l.state.inFlight]
  issued : ∀ a s, (a, s) ∈ l.issued → a = s.nextAction ∧ a ≠ .none

theorem Loop.Safe.turn {l : Loop} (h : l.Safe) (t : Turn) : (l.turn t).Safe := by
  unfold Loop.turn
  by_cases hend : l.ended = true
  · rwa [if_pos hend]
  rw [if_neg hend]
  cases t with
  | fact f =>
    refine ⟨?_, h.issued⟩
    simp only [h.outstanding, inFlight_note]
    split_ifs <;> simp_all
  | drive performed =>
    by_cases hnone : l.state.nextAction = .none
    · simpa only [hnone, if_true] using h
    simp only [hnone, if_false]
    have hfree := (nextAction_safe l.state hnone).1
    refine ⟨?_, fun a s hs => ?_⟩
    · simp [h.outstanding, hfree, takeAction, hnone]
    · rcases List.mem_append.mp hs with hs | hs
      · exact h.issued a s hs
      · obtain ⟨rfl, rfl⟩ : a = l.state.nextAction ∧ s = l.state := by simpa using hs
        exact ⟨rfl, hnone⟩

theorem Loop.safe_run (display : Display) (consoleControl : Bool) (turns : List Turn) :
    (Loop.run display consoleControl turns).Safe :=
  List.foldlRecOn turns Loop.turn ⟨rfl, by simp⟩ fun _ h t _ => h.turn t

/-! ## Convergence -/

/-- The action in flight succeeds. -/
def succeed (s : SessionState) : SessionState :=
  match completion s.inFlight with
  | none => s
  | some f => s.note f

/-- The next action is taken, and succeeds. -/
def advance (s : SessionState) : SessionState := s.takeAction.succeed

/-- What separates the actual presentation from the desired one, in actions. -/
def Surface.gap (desired : PresentationPlan) (x : Surface) : ℕ :=
  (if desired.vmConsoleEnabled then (!x.vmConsole).toNat + (x.current != .vm).toNat
    else (x.current != .monitor).toNat + x.vmConsole.toNat)
    + if desired.windowEnabled then (!x.window && x.running).toNat else x.window.toNat

/-- The surface an action leaves when it succeeds. -/
def Surface.after (x : Surface) : UiAction → Surface
  | .none => x
  | .createWindow => { x with window := true }
  | .destroyWindow => { x with window := false }
  | .createVmConsole => { x with vmConsole := true }
  | .destroyVmConsole => { x with vmConsole := false }
  | .bindVmConsole => { x with current := .vm }
  | .bindMonitor => { x with current := .monitor }

/-- **The chosen action closes one unit of the gap**, and only a surface with no gap leaves nothing
to choose. -/
theorem Surface.gap_after (d : PresentationPlan) (x : Surface) :
    if chooseAction d x = .none then x.gap d = 0
    else (x.after (chooseAction d x)).gap d + 1 = x.gap d := by
  obtain ⟨w, v, m⟩ := d
  obtain ⟨a, b, c, d⟩ := x
  revert w v m a b c d
  decide

/-- What still separates a state from its desired presentation. -/
def gap (s : SessionState) : ℕ := s.surface.gap s.desired

/-- A successful action leaves nothing in flight, reaches the surface it was issued for, and moves
no fact the plan is derived from. -/
theorem succeed_spec (s : SessionState) :
    s.succeed.inFlight = .none ∧ s.succeed.desired = s.desired ∧
      s.succeed.surface = s.surface.after s.inFlight := by
  have hf : ∀ f, completion s.inFlight = some f → (s.note f).inFlight = .none := fun f hf => by
    rw [inFlight_note, if_pos hf]
  unfold succeed
  cases h : s.inFlight with
  | none => exact ⟨h, rfl, rfl⟩
  | _ => exact ⟨hf _ (by rw [h]; rfl), rfl, rfl⟩

theorem advance_spec {s : SessionState} (hn : s.nextAction ≠ .none) :
    s.advance.inFlight = .none ∧ s.advance.desired = s.desired ∧
      s.advance.surface = s.surface.after s.nextAction := by
  have htake : s.takeAction = { s with inFlight := s.nextAction } := if_pos hn
  have hs := succeed_spec { s with inFlight := s.nextAction }
  rw [advance, htake]
  exact hs

/-- **Each action that succeeds closes one unit of the gap.** -/
theorem gap_advance {s : SessionState} (hf : s.inFlight = .none) (hn : s.nextAction ≠ .none) :
    s.advance.gap + 1 = s.gap := by
  have hnext : s.nextAction = chooseAction s.desired s.surface := by simp [nextAction, hf]
  have hgap := Surface.gap_after s.desired s.surface
  rw [if_neg (hnext ▸ hn), ← hnext] at hgap
  rw [gap, (advance_spec hn).2.1, (advance_spec hn).2.2]
  exact hgap

/-- The actual presentation is the desired one, but for a Window that only a running machine may
make. -/
structure Presented (s : SessionState) : Prop where
  vmConsole : s.vmConsoleActual = s.desired.vmConsoleEnabled
  current : s.currentConsoleActual = if s.desired.monitorConsoleEnabled then .monitor else .vm
  window : s.windowActual = s.desired.windowEnabled ∨
    (s.desired.windowEnabled = true ∧ s.runtimeActual ≠ .running)

/-- **A quiet reducer with no action left to choose shows what it should.** -/
theorem presented_of_none {s : SessionState} (hf : s.inFlight = .none)
    (hn : s.nextAction = .none) : s.Presented := by
  have hgap := Surface.gap_after s.desired s.surface
  rw [if_pos (by simpa [nextAction, hf] using hn)] at hgap
  have hm : s.desired.monitorConsoleEnabled = !s.desired.vmConsoleEnabled := by
    unfold desired
    split_ifs <;> exact derivePresentation_monitor _ _ _ _ _
  have hsmall : ∀ (d : PresentationPlan) (x : Surface), x.gap d = 0 →
      d.monitorConsoleEnabled = !d.vmConsoleEnabled →
      x.vmConsole = d.vmConsoleEnabled ∧
      x.current = (if d.monitorConsoleEnabled then .monitor else .vm) ∧
      (x.window = d.windowEnabled ∨ (d.windowEnabled = true ∧ x.running = false)) := by
    rintro ⟨w, v, m⟩ ⟨a, b, c, d⟩
    revert w v m a b c d
    decide
  obtain ⟨hv, hc, hw⟩ := hsmall _ _ hgap hm
  exact ⟨hv, hc, hw.imp_right fun h => ⟨h.1, of_decide_eq_false h.2⟩⟩

/-- **Convergence**: with no new fact and every action succeeding, at most `gap` actions settle the
presentation. -/
theorem exists_settled (s : SessionState) (hf : s.inFlight = .none) :
    ∃ n ≤ s.gap, (advance^[n] s).nextAction = .none ∧ (advance^[n] s).inFlight = .none ∧
      (advance^[n] s).desired = s.desired := by
  by_cases hn : s.nextAction = .none
  · exact ⟨0, Nat.zero_le _, hn, hf, rfl⟩
  · have hgap := gap_advance hf hn
    obtain ⟨n, hle, hnone, hfree, hd⟩ := exists_settled s.advance (advance_spec hn).1
    exact ⟨n + 1, by omega, hnone, hfree, hd.trans (advance_spec hn).2.1⟩
termination_by s.gap

/-- **The reducer is safe and converges.**  Over any facts, actions and failures at most one action
is outstanding and every issued one was safe; and from any state whatever, when the facts stop and
the actions succeed, finitely many of them settle the presentation the facts call for — except that
a machine that is not running keeps, but never makes, its Window. -/
theorem presentation_safe_convergent :
    (∀ display consoleControl turns, let l := Loop.run display consoleControl turns
      l.outstanding.length ≤ 1 ∧ ∀ a s, (a, s) ∈ l.issued →
        s.inFlight = .none ∧ (a = .bindVmConsole → s.vmConsoleActual = true) ∧
        (a = .destroyVmConsole → s.currentConsoleActual ≠ .vm) ∧
        (a = .createWindow → s.runtimeActual = .running)) ∧
    (∀ s : SessionState, ∃ n, let t := advance^[n] s.succeed
      t.nextAction = .none ∧ t.inFlight = .none ∧ t.desired = s.desired ∧
      t.vmConsoleActual = t.desired.vmConsoleEnabled ∧
      t.currentConsoleActual = (if t.desired.monitorConsoleEnabled then .monitor else .vm) ∧
      (t.windowActual = t.desired.windowEnabled ∨
        (t.desired.windowEnabled = true ∧ t.runtimeActual ≠ .running))) := by
  refine ⟨fun display consoleControl turns => ⟨?_, fun a s hs => ?_⟩, fun s => ?_⟩
  · rw [(Loop.safe_run display consoleControl turns).outstanding]
    split_ifs <;> simp
  · obtain ⟨rfl, hne⟩ := (Loop.safe_run display consoleControl turns).issued a s hs
    exact nextAction_safe s hne
  · obtain ⟨n, -, hnone, hfree, hd⟩ := exists_settled s.succeed (succeed_spec s).1
    have hp := presented_of_none hfree hnone
    exact ⟨n, hnone, hfree, hd.trans (succeed_spec s).2.1, hp.vmConsole, hp.current, hp.window⟩

/-- A reset of a machine that never ran completes into PAUSED with the Window display's Window
wanted and absent, and no action is ever chosen to make it. -/
theorem reset_leaves_window_absent :
    let s := (Loop.run .window false [.fact (.runtime .resetCompleted)]).state
    ¬ ∃ n, let t := advance^[n] s.succeed
      t.nextAction = .none ∧ t.windowActual = t.desired.windowEnabled := by
  intro s
  have hfix : advance s.succeed = s.succeed := by decide
  rintro ⟨n, -, hw⟩
  rw [Function.iterate_fixed hfix] at hw
  exact absurd hw (by decide)

end SessionState

end SoftPC
