import SoftPC.Machine.Worker

/-!
# Machine/Control — the callers

`emulator/machine/machine.c`, the public calls, each under its source name as a program over `Op`,
and the threads that make them.  Lifecycle, media, debug and state requests come from one control
thread, which serializes them (`machine_interface.h`); inputs and asynchronous cancellations come
from any thread.
-/

namespace SoftPC.Machine

open SoftPC.Threads Threads.Prog

/-- `emulator_machine_wait_request`. -/
def waitRequest (completed : Event) : Code Status := do
  match ← Op.waitAny [completed] with
  | .signaled _ => pure .ok
  | result =>
    when (result ≠ .cancelled) do
      let _ ← failSync
    let status ← Op.join
    pure (if status = .ok then .ioError else status)

/-- `emulator_machine_submit_request`; `allowed` is the set of allowed states. -/
def submitRequest (k : Kind) (allowed : State → Bool) : Code Status := do
  Op.lock
  let status ← (do
    if ← and (not (load .terminateRequested)) (do pure (allowed (← Op.loadState))) then
      let status ← Op.reset k.event
      if status = .ok then
        store k.flag true
        let status ← Op.signal .command
        if status = .ok then pure .ok
        else
          store k.flag false
          pure status
      else pure status
    else pure .invalidState : Code Status)
  Op.unlock
  pure status

/-- `emulator_machine_schedule_cold_run`. -/
def scheduleColdRun (pauseAfterStart : Bool) : Code Bool := do
  if ← and (perform (.read .worker)) (stateIs .stopped) then
    beginColdRun pauseAfterStart
    let status ← Op.signal .command
    if status = .ok then pure true
    else
      let _ ← failSync
      pure false
  else pure false

/-- `emulator_machine_start`. -/
def start : Code Bool := scheduleColdRun false

/-- `emulator_machine_debug_cancel`. -/
def debugCancel : Code Unit := do
  store .debugCancelRequested true
  let status ← Op.signal .command
  if status = .ok then perform .requestWake
  else
    let _ ← failSync

/-- `emulator_machine_pause`. -/
def pause : Code Bool := do
  if ← stateIs .running then
    store .pauseRequested true
    pure true
  else pure false

/-- The wake of `resume`, `stop` and `reset`. -/
def signalResume : Code Bool := do
  let status ← Op.signal .resume
  if status = .ok then pure true
  else
    let _ ← failSync
    pure false

/-- `emulator_machine_resume`. -/
def resume : Code Bool := do
  if ← stateIs .paused then
    Op.debugInvalidate
    store .pauseRequested false
    signalResume
  else pure false

/-- `signalResume`, then `driver.request_stop`. -/
def signalStop : Code Bool := do
  if ← signalResume then
    Op.requestStop
    pure true
  else pure false

/-- `emulator_machine_stop`. -/
def stop : Code Bool := do
  let state ← Op.loadState
  if state = .stopped then pure true
  else if state = .error then pure false
  else
    Op.debugInvalidate
    store .stopRequested true
    store .pauseRequested false
    signalStop

/-- `emulator_machine_reset`. -/
def reset : Code Bool := do
  let state ← Op.loadState
  if state = .stopped then
    store .resetActive true
    if ← scheduleColdRun true then pure true
    else
      store .resetActive false
      pure false
  else if state ≠ .running ∧ state ≠ .paused then pure false
  else
    Op.debugInvalidate
    store .resetActive true
    store .resetRequested true
    store .stopRequested true
    store .pauseRequested false
    signalStop

section Control

variable (hooks : Hooks)

/-- `emulator_machine_set_removable_media`. -/
def setRemovableMedia (path : Option (List UInt8)) (mode : ℕ) : Code Bool := do
  if !(← Op.read .worker) || !hooks.setRemovableMedia || mediumOverlay < mode then pure false
  else if pathCapacity ≤ (path.getD []).length then pure false
  else
    Op.write .mediaPath (path.getD [])
    Op.write .mediaMode mode
    let status ← submitRequest .media fun s => s = .stopped || s = .paused
    if status ≠ .ok then pure false
    else
      let status ← waitRequest .media
      if status ≠ .ok then pure false else perform (.read .mediaSucceeded)

/-- `emulator_machine_read_state`. -/
def readState (writer : Option ℕ) : Code Status := do
  match writer with
  | none => pure .invalidState
  | some writer =>
    Op.write .stateWriter writer
    let status ← submitRequest .stateRead fun s => s = .running || s = .paused
    if status ≠ .ok then pure status
    else
      Op.requestWake
      let status ← waitRequest .state
      if status ≠ .ok then pure status else perform (.read .stateStatus)

/-- `emulator_machine_write_state`. -/
def writeState (reader : Option ℕ) : Code Status := do
  match reader with
  | none => pure .invalidState
  | some reader =>
    Op.write .stateReader reader
    let status ← submitRequest .stateWrite fun s => s = .stopped
    if status ≠ .ok then pure status
    else
      let status ← waitRequest .state
      if status ≠ .ok then pure status else perform (.read .stateStatus)

/-- `emulator_machine_debug_acquire`: the status, and the lease it fills in. -/
def debugAcquire : Code (Status × UInt64) := do
  if !(← stateIs .paused) then pure (.invalidState, 0)
  else if !hooks.executeDebug then pure (.unsupported, 0)
  else
    let generation ← Op.loadDebugGeneration
    if generation = 0 then pure (.invalidState, 0) else pure (.ok, generation.toUInt64)

/-- `LIB_NULL` is valid only for size zero. -/
def Buffer.valid : Buffer → Bool
  | .null size => size == 0
  | .bytes _ => true

/-- The arguments of a debug call are usable. -/
def DebugCall.valid (call : DebugCall) : Bool :=
  call.lease.isSome && call.request.valid && call.response.valid

/-- What `emulator_machine_debug_execute_with_lease` leaves when it fails. -/
def DebugCall.failed (call : DebugCall) (status : Status) : Reply :=
  .debug status call.response (some 0)

/-- The bytes of a request. -/
def Buffer.content : Buffer → List UInt8
  | .null _ => []
  | .bytes content => content

/-- `lib_memory_copy` of the first `size` bytes of an answer over the caller's. -/
def Buffer.copyIn (buffer : Buffer) (answer : List UInt8) (size : ℕ) : Buffer :=
  match buffer with
  | .null n => .null n
  | .bytes content => .bytes (answer.take size ++ content.drop size)

/-- A completed debug request: the answer is copied out, if there is one. -/
def collectDebug (call : DebugCall) : Code Reply := do
  let status ← Op.read .debugStatus
  if status = .ok then
    let size ← Op.read .debugResponseSize
    let answer ← Op.read .debugResponse
    pure (.debug .ok (call.response.copyIn answer size) (some size))
  else pure (call.failed status)

/-- The request of a debug call, once its arguments and its lease have been checked: the payload is
copied in and the request made. -/
def submitDebug (call : DebugCall) (lease : UInt64) : Code Reply := do
  Op.write .debugRequest call.request.content
  Op.write .debugResponseCapacity call.response.size
  Op.write .debugLease lease
  let status ← submitRequest .debug fun s => s = .paused
  if status ≠ .ok then pure (call.failed status)
  else
    let status ← waitRequest .debug
    if status ≠ .ok then pure (call.failed status) else collectDebug call

/-- `emulator_machine_debug_execute_with_lease`. -/
def debugExecuteWithLease (call : DebugCall) : Code Reply :=
  if !call.reportsSize then pure (.debug .invalidArgument call.response none)
  else if !call.valid then pure (call.failed .invalidArgument)
  else if debugRequestCapacity < call.request.size ∨ debugResponseCapacity < call.response.size
    then pure (call.failed .unsupported)
  else do
    if !(← stateIs .paused) then pure (call.failed .invalidState)
    else
      let generation ← Op.loadDebugGeneration
      let lease := call.lease.getD 0
      if lease = 0 ∨ lease ≠ generation.toUInt64 then pure (call.failed .invalidState)
      else if !hooks.executeDebug then pure (call.failed .unsupported)
      else submitDebug call lease

/-- `emulator_machine_shutdown`, with `base_sync_task_destroy` written out. -/
def shutdown : Code Status := do
  if !(← Op.read .worker) then pure .ok
  else
    Op.debugInvalidate
    let _ ← stop
    store .terminateRequested true
    let _ ← Op.signal .resume
    let _ ← Op.signal .command
    let status ← Op.requestCancel
    if status ≠ .ok then pure status
    else
      let status ← Op.join
      if status ≠ .ok then pure status
      else
        Op.write .worker false
        pure .ok

/-- One call of the control thread. -/
def invoke (call : Call) : Code Reply :=
  match call with
  | .start => .bool <$> start
  | .pause => .bool <$> pause
  | .resume => .bool <$> resume
  | .stop => .bool <$> stop
  | .reset => .bool <$> reset
  | .setRemovableMedia path mode => .bool <$> setRemovableMedia hooks path mode
  | .readState writer => .status <$> readState writer
  | .writeState reader => .status <$> writeState reader
  | .debugAcquire => (fun r => .lease r.1 r.2) <$> debugAcquire hooks
  | .debugExecute call => debugExecuteWithLease hooks call
  | .debugCancel => (fun _ => .done) <$> debugCancel
  | .shutdown => .status <$> shutdown

/-- The control thread: any calls, one after another. -/
def control : Code Unit :=
  iterate (fun _ => do
    let call ← Op.nextCall
    let reply ← invoke hooks call
    Op.returned call reply
    pure (.inl ())) ()

/-- `emulator_machine_enqueue_input`. -/
def enqueueInput (event : InputEvent) : Code Status := do
  let status ← Op.inputPush event
  if status ≠ .ok then pure status
  else
    Op.requestWake
    pure .ok

/-- A thread that submits inputs. -/
def producer : Code Unit :=
  iterate (fun _ => do
    let event ← Op.nextInput
    let _ ← enqueueInput event
    pure (.inl ())) ()

/-- A thread that cancels debug plans. -/
def canceller : Code Unit :=
  iterate (fun _ => do
    debugCancel
    pure (.inl ())) ()

/-- A thread that consumes published frames. -/
def viewer : Code Unit :=
  iterate (fun _ => do
    let viewing ← Op.nextView
    Op.view viewing
    pure (.inl ())) ()

/-- The code each thread runs. -/
def code : Tid → Code Unit
  | .control => control hooks
  | .worker => worker hooks
  | .producer _ => producer
  | .canceller _ => canceller
  | .viewer _ => viewer

/-- A created machine and its threads. -/
def boot : Config Tid Op Store := ⟨code hooks, .created⟩

/-- What a schedule makes of a created machine; `none` when a move of it is blocked. -/
def runs (schedule : List (Tid × Answer)) : Option (Config Tid Op Store) :=
  run exec schedule (boot hooks)

end Control

end SoftPC.Machine
