import SoftPC.Machinery.Outcome
import SoftPC.Session.EventQueue
import SoftPC.Session.PressedKeys

/-!
# Session/Session — prompt, line and machine request

    event ──▸ result of the provider ──apply_result──▸ drive ──▸ arm_if_ready: saved text, prompt, line

`emulator/session/session.c`, the control thread over its queue.  What it calls is put into a log, with the events
that it handles and the results that it gets.  Calls of the UI and of the machine succeed; only whether a line
that is cancelled has been completed already is theirs to say, of whatever has gone before.  Results are taken
as they come.
-/

namespace SoftPC

/-- A text, without the NUL that ends it. -/
abbrev Text := List UInt8

/-- `emulator_session_request`. -/
inductive Request where
  | none | start | resume | pause | stop | reset
  deriving DecidableEq

/-- `emulator_session_command_result`; a `detail` that is null is empty. -/
structure CommandResult where
  text : Text := []
  detail : Text := []
  prompt : Text := []
  request : Request := .none
  exitRequested : Bool := false
  armPrompt : Bool := false
  releaseWindowMouse : Bool := false
  deriving DecidableEq

/-- `emulator_ui_state`. -/
inductive UiState where
  | stopped | running | paused | error
  deriving DecidableEq

/-- What the control thread does and hears. -/
inductive Entry where
  /-- An event is handled. -/
  | took (event : SessionEventValue)
  /-- The provider returns. -/
  | result (result : CommandResult)
  /-- `emulator_session_write_text`, of texts one after another, with its calls of `emulator_ui_write_monitor`. -/
  | wrote (texts : List Text) (chunks : List Text)
  /-- Saved texts are given up. -/
  | dropped (texts : List Text)
  /-- `emulator_ui_cancel_monitor_line`. -/
  | cancelled (completed : Bool)
  /-- `emulator_ui_write_monitor`, of the end of the line that has been cancelled, of a prompt, of a failure. -/
  | newline
  | prompt (text : Text)
  | failure (text : String)
  /-- `emulator_ui_request_monitor_line`. -/
  | requestLine
  /-- A call of the machine for a request. -/
  | dispatched (request : Request)
  /-- A request that comes while one is outstanding. -/
  | refused (request : Request)
  /-- `emulator_machine_enqueue_input`. -/
  | input (events : List InputEvent)
  | releaseWindowMouse
  | applyAction (action : UiAction) (state : UiState)
  | setState (state : UiState)
  | publishFrame (graphics : Bool) (sequence : UInt32) (window vmConsole statusSurface : Bool)
  deriving DecidableEq

/-- `emulator_session`, with the texts that `pending_monitor_text` holds one after another. -/
structure Session where
  state : SessionState
  pressed : PressedKeys := ⟨[], Nat.zero_le _⟩
  pendingLine : Bool := false
  pendingRequest : Request := .none
  promptDue : Bool := false
  pendingMonitorText : List Text := []
  pendingPrompt : Text := []

/-- A session, and what has happened to it. -/
structure World where
  session : Session
  log : List Entry

/-- How a session ends: on request, or by a failure. -/
structure Ended where
  exited : Bool
  world : World

/-- An event of the queue, with what the machine and the provider have to say to it. -/
structure Input where
  event : SessionEvent
  /-- `emulator_machine_run_generation`. -/
  generation : UInt32
  /-- `emulator_machine_read_presentation`: sequence and graphics, if there are any. -/
  presentation : Option (UInt32 × Bool) := none
  /-- The handler of a hotkey or of a rejected line is there, and the hotkey's does not fail. -/
  answers : Bool := true
  /-- What the provider returns, if it is asked. -/
  result : CommandResult := {}

namespace World

/-- One entry more. -/
def add (w : World) (entry : Entry) : World := { w with log := w.log ++ [entry] }

end World

namespace Session

open World

/-- A `LIB_FALSE` that ends the session. -/
def fail (w : World) : Except Ended World := .error ⟨false, w⟩

/-- `emulator_session_ui_state`. -/
def uiState : SessionMachineState → UiState
  | .running => .running
  | .paused => .paused
  | .error => .error
  | _ => .stopped

/-- `EMULATOR_SESSION_TEXT_CAPACITY` and the size of `chunk`. -/
def textCapacity : ℕ := 16384
def chunkCapacity : ℕ := 1024

/-- A text in ASCII. -/
def ascii (text : String) : Text := text.toList.map fun c => c.toNat.toUInt8

/-- `EMULATOR_SESSION_MONITOR_PROMPT`, and the answer to a request while one is outstanding. -/
def monitorPrompt : Text := ascii "> "
def inProgress : Text := ascii "Machine state transition is in progress.\r\n\r\n"

/-! ## Text -/

/-- A byte is put into the chunk: LF goes after CR. -/
def put (used : Text) (previous byte : UInt8) : Text :=
  if byte = 10 ∧ previous ≠ 13 then used ++ [13, byte] else used ++ [byte]

/-- The loop of `emulator_session_write_text`: the chunks that are written, and what it returns. -/
def chunks (used : Text) (previous : UInt8) : Text → List Text × Bool
  | [] => (if used = [] then [] else [used], true)
  | byte :: text =>
    -- Chunks end between UTF-8 scalars.
    let flush := used.length + 5 ≥ chunkCapacity ∧ byte &&& 0xc0 ≠ 0x80
    let current := if flush then [] else used
    let rest := if current.length ≥ chunkCapacity - 1 then ([], false) else chunks (put current previous byte) byte text
    if flush then (used :: rest.1, rest.2) else rest

/-- `emulator_session_write_text`. -/
def writeText (texts : List Text) (w : World) : Except Ended World :=
  let written := chunks [] 0 texts.flatten
  let w := w.add (.wrote texts written.1)
  if written.2 then .ok w else fail w

/-- A text, if there is one. -/
def pieces (text : Text) : List Text := if text = [] then [] else [text]

/-- `emulator_session_append_pending_text`. -/
def appendPendingText (text : Text) (w : World) : Except Ended World :=
  if text = [] then .ok w
  else
    let available := textCapacity - w.session.pendingMonitorText.flatten.length
    if available = 0 ∨ text.length ≥ available then fail w
    else .ok { w with session.pendingMonitorText := w.session.pendingMonitorText ++ [text] }

/-- `emulator_session_result_gap`. -/
def resultGap (result : CommandResult) : Text :=
  if !result.armPrompt ∨ (result.text = [] ∧ result.detail = []) then [] else [13, 10]

/-- `emulator_session_note_prompt`. -/
def notePrompt (result : CommandResult) (w : World) : World :=
  if result.armPrompt then
    { w with
      session.pendingPrompt := if result.prompt ≠ [] then result.prompt else monitorPrompt
      session.promptDue := true }
  else w

section

-- The UI: whether a line that is cancelled has been completed.
variable (completes : List Entry → Bool)

/-- A line that is pending is cancelled before text is written. -/
def cancelLine (w : World) : World :=
  if w.session.pendingLine then
    let completed := completes w.log
    let w := { w with session.pendingLine := completed }.add (.cancelled completed)
    if completed then w else w.add .newline
  else w

/-- The saved text, in `emulator_session_arm_if_ready`. -/
def writePending (w : World) : Except Ended World :=
  if w.session.pendingMonitorText = [] then .ok w
  else do
    let w := cancelLine completes w
    let w ← writeText w.session.pendingMonitorText w
    return { w with session.pendingMonitorText := [] }

/-- The prompt and the line. -/
def arm (w : World) : World :=
  if w.session.pendingRequest ≠ .none ∨ !w.session.promptDue ∨ w.session.pendingLine then w
  else
    let prompt := if w.session.pendingPrompt ≠ [] then w.session.pendingPrompt else monitorPrompt
    { (w.add (.prompt prompt)).add .requestLine with session.pendingLine := true, session.promptDue := false }

/-- `emulator_session_arm_if_ready`. -/
def armIfReady (w : World) : Except Ended World :=
  if w.session.state.monitorIsCurrent then do
    let w ← writePending completes w
    return arm w
  else .ok w

/-- The texts of a result: written, or saved. -/
def applyTexts (result : CommandResult) (w : World) : Except Ended World :=
  if (result.text ≠ [] ∨ result.detail ≠ []) ∧ w.session.state.monitorIsCurrent then do
    let w ← writeText (pieces result.text) (cancelLine completes w)
    let w ← writeText (pieces result.detail) w
    writeText (pieces (resultGap result)) w
  else do
    let w ← appendPendingText result.text w
    let w ← appendPendingText result.detail w
    appendPendingText (resultGap result) w

/-- Its request, or its prompt. -/
def applyRequest (result : CommandResult) (w : World) : Except Ended World :=
  if result.request ≠ .none then
    if w.session.pendingRequest ≠ .none then appendPendingText inProgress (w.add (.refused result.request))
    else .ok { w.add (.dispatched result.request) with
      session.pendingRequest := result.request, session.promptDue := false }
  else .ok (notePrompt result w)

/-- `emulator_session_apply_result`. -/
def applyResult (result : CommandResult) (w : World) : Except Ended World := do
  let w := if result.releaseWindowMouse then w.add .releaseWindowMouse else w
  let w ← applyTexts completes result w
  applyRequest result w

/-! ## Events -/

/-- `emulator_session_drive`. -/
def drive (presentation : Option (UInt32 × Bool)) (w : World) : World :=
  let state := match presentation with
    | some (sequence, graphics) => w.session.state.noteFrame sequence graphics
    | none => w.session.state
  let action := state.nextAction
  let state := state.takeAction
  let w := { w with session.state := state }
  let w := if action ≠ .none then w.add (.applyAction action (uiState state.runtimeActual)) else w
  match presentation with
  | some (sequence, graphics) =>
    if state.frameTargetsReady then
      w.add (.publishFrame graphics sequence state.windowActual
        (state.vmConsoleActual && state.currentConsoleActual = .vm)
        (state.display = .console && !state.consoleControl && graphics))
    else w
  | none => w

/-- `emulator_session_accept_kvm_event`. -/
def acceptKvmEvent (runGeneration generation : UInt32) (event : InputEvent) (state : SessionMachineState) : Bool :=
  match event.data with
  | .sourceRetired | .inputReset => true
  | data =>
    if runGeneration ≠ 0 ∧ runGeneration ≠ generation then false
    else if state = .running then true
    else if state ≠ .paused then false
    else match data with
      | .windowClose | .hotkey _ => true
      | .key k => !k.pressed
      | _ => false

/-- `emulator_session_handle_kvm_input`. -/
def handleKvmInput (input : Input) (event : InputEvent) (w : World) : Except Ended World :=
  let state := w.session.state.monitorActual
  match event.data with
  | .windowClose =>
    let w := { w with session.state := w.session.state.noteWindowClose }
    if state ≠ .running ∨ w.session.pendingRequest ≠ .none then .ok w
    else applyResult completes { request := .pause } w
  | .hotkey _ =>
    if input.answers then applyResult completes input.result (w.add (.result input.result)) else fail w
  | _ =>
    let dispatched := w.session.pressed.dispatchInput event state recording []
    let w := { w with session.pressed := dispatched.2.1 }.add (.input dispatched.2.2)
    if dispatched.1 then .ok w else fail w

/-- `EMULATOR_SESSION_EVENT_MONITOR_LINE`, in `emulator_session_run`. -/
def handleMonitorLine (input : Input) (text : Text) (w : World) : Except Ended World := do
  let w := { w with session.pendingLine := false }.add (.took input.event.value)
  if input.event.monitorLineRejected ∧ !input.answers then fail w
  else if !input.event.monitorLineRejected ∧ text.length ≥ textCapacity then fail w
  else
    let w := w.add (.result input.result)
    if input.result.exitRequested then .error ⟨true, w.add (.dispatched .stop)⟩
    else
      let w ← applyResult completes input.result w
      armIfReady completes (drive input.presentation w)

/-- The first completion of a session that has not run. -/
def initialStopped (w : World) (state : SessionMachineState) : Bool :=
  w.session.state.monitorActual = .init && state = .stopped

/-- `emulator_ui_set_state`, in `emulator_session_process_completed`. -/
def showState (w : World) : World :=
  if w.session.state.runtimeActual ≠ .running ∨ w.session.state.frameTargetsReady then
    w.add (.setState (uiState w.session.state.runtimeActual))
  else w

/-- `emulator_session_process_completed`, of `EMULATOR_SESSION_EVENT_RUNTIME_COMPLETED`. -/
def runtimeCompleted (input : Input) (completed : SessionMachineState) (w : World) : Except Ended World := do
  let initialStopped := initialStopped w completed
  let w := if initialStopped then w else w.add (.result input.result)
  let w := { w with
    session.state := w.session.state.noteRuntime completed
    session.pendingRequest := if completed ≠ SessionMachineState.init then .none else w.session.pendingRequest }.add
      (.took input.event.value)
  let w ← if initialStopped then .ok w else applyResult completes input.result w
  armIfReady completes (showState (drive input.presentation w))

/-- …of `EMULATOR_SESSION_EVENT_FRAME_COMPLETED`. -/
def frameCompleted (input : Input) (w : World) : World :=
  drive input.presentation (w.add (.took input.event.value))

/-- …of `EMULATOR_SESSION_EVENT_COMPONENT_COMPLETED`. -/
def componentCompleted (input : Input) (component : ComponentKind) (present : Bool) (w : World) :
    Except Ended World :=
  let state := match component with
    | .window => w.session.state.noteWindow present
    | .vmConsole => w.session.state.noteVmConsole present
  armIfReady completes (drive input.presentation ({ w with session.state := state }.add (.took input.event.value)))

/-- The monitor is back on a running graphics surface. -/
def duePrompt (vmConsoleCurrent : Bool) (w : World) : World :=
  let state := w.session.state
  if !vmConsoleCurrent && state.monitorIsCurrent && state.monitorActual = .running &&
      state.monitorIsRunningGraphicsSurface then { w with session.promptDue := true }
  else w

/-- The VM's console takes over. -/
def giveUpText (vmConsoleCurrent : Bool) (w : World) : World :=
  if vmConsoleCurrent && w.session.state.monitorActual = .running then
    { w with session.promptDue := false, session.pendingMonitorText := [] }.add (.dropped w.session.pendingMonitorText)
  else w

/-- …of `EMULATOR_SESSION_EVENT_BROKER_COMPLETED`. -/
def brokerCompleted (input : Input) (vmConsoleCurrent : Bool) (w : World) : Except Ended World :=
  -- The completed takeover includes the join of the old reader.
  let w := { w with
    session.pendingLine := false
    session.state := w.session.state.noteCurrentConsole vmConsoleCurrent }.add (.took input.event.value)
  let w := showState (drive input.presentation w)
  armIfReady completes (giveUpText vmConsoleCurrent (duePrompt vmConsoleCurrent w))

/-- The run of a completion is over. -/
def stale (input : Input) : Bool := input.event.runGeneration ≠ 0 && input.event.runGeneration ≠ input.generation

/-- One round of `emulator_session_run`. -/
def handle (w : World) (input : Input) : Except Ended World :=
  match input.event.value with
  | .kvmInput event =>
    if acceptKvmEvent input.event.runGeneration input.generation event w.session.state.monitorActual then do
      let w ← handleKvmInput completes input event (w.add (.took input.event.value))
      armIfReady completes (drive input.presentation w)
    else .ok w
  | .monitorLine text => handleMonitorLine completes input text w
  | .consoleFailed => fail (w.add (.failure "Console input failed.\r\n"))
  | .kvmDeliveryFailed _ _ => fail (w.add (.failure "KVM input delivery failed.\r\n"))
  | .queueDeliveryFailed _ => fail (w.add (.failure "Control queue delivery failed.\r\n"))
  | .runtimeCompleted completed => if stale input then .ok w else runtimeCompleted completes input completed w
  | .frameCompleted => if stale input then .ok w else .ok (frameCompleted input w)
  | .componentCompleted component present =>
    if stale input then .ok w else componentCompleted completes input component present w
  | .brokerCompleted vmConsoleCurrent =>
    if stale input then .ok w else brokerCompleted completes input vmConsoleCurrent w

/-- `emulator_session_run` up to its loop. -/
def opened (display : Display) (consoleControl : Bool) (opening : CommandResult) : Except Ended World := do
  let w ← applyResult completes opening
    { session := { state := .initialized display consoleControl }, log := [.result opening] }
  armIfReady completes w

/-- `emulator_session_run`, for as many events. -/
def run (display : Display) (consoleControl : Bool) (opening : CommandResult) (inputs : List Input) :
    Except Ended World := do
  let w ← opened completes display consoleControl opening
  inputs.foldlM (handle completes) w

end

end Session

end SoftPC
