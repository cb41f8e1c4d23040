import SoftPC.Machine.Store

/-!
# Machine/Worker — the executor

`emulator/machine/machine.c`, the functions that run on the worker, each under its source name as a
program over `Op`.  `Hooks` says which of the optional driver entry points and sinks are installed.
-/

namespace SoftPC.Machine

open SoftPC.Threads Threads.Prog

/-- The code of a thread. -/
abbrev Code := Prog Op

/-- The optional members of `emulator_machine_driver` and the installed sinks. -/
structure Hooks where
  setRemovableMedia : Bool
  beginStateRead : Bool
  takeStateReadResult : Bool
  writeState : Bool
  executeDebug : Bool
  takeDebugStop : Bool
  cancelDebug : Bool
  framePublished : Bool
  stateSink : Bool
  frameSink : Bool
  consoleStatusSource : Bool

/-! ## Helpers of both sides -/

def load (f : Flag) : Code Bool := perform (.load f)

def exchange (f : Flag) (value : Bool) : Code Bool := perform (.exchange f value)

/-- A store, or an exchange whose result is dropped. -/
def store (f : Flag) (value : Bool) : Code Unit := do
  let _ ← Op.exchange f value

/-- `emulator_machine_close_input`. -/
def closeInput : Code Unit := perform (.inputAdmit false)

/-- `emulator_machine_fail_sync`. -/
def failSync : Code Status := do
  closeInput
  Op.storeState .error
  store .resetRequested false
  store .stopRequested true
  store .terminateRequested true
  Op.requestStop
  Op.requestCancel

/-- `emulator_machine_fail_sync`, its result dropped, when a native call has failed. -/
def failSyncUnless (status : Status) : Code Unit :=
  if status = .ok then pure ()
  else do
    let _ ← failSync

/-- `emulator_machine_begin_cold_run`. -/
def beginColdRun (pauseAfterStart : Bool) : Code Unit := do
  Op.debugInvalidate
  closeInput
  Op.inputClear
  Op.invalidatePublishedFrame
  store .pauseRequested pauseAfterStart
  store .stopRequested false
  Op.storeState .starting
  Op.addRunGeneration
  store .startRequested true

section Worker

variable (hooks : Hooks)

/-- `emulator_machine_notify_state`. -/
def notifyState (completed : State) : Code Unit :=
  when hooks.stateSink do
    let run ← Op.loadRunGeneration
    Op.stateSink completed run

/-- `emulator_machine_publish`. -/
def publish : Code Status := do
  let (status, frame) ← Op.copyFrame
  match frame with
  | none => pure status
  | some frame =>
    if status ≠ .ok then pure status
    else if frame.windowStatus ≠ .ok then pure frame.windowStatus
    else
      let status ← (if frame.graphics && hooks.consoleStatusSource then
          perform .consoleStatusSource else pure .ok)
      if status ≠ .ok then pure status
      else if (!frame.graphics || hooks.consoleStatusSource) && frame.consoleStatus ≠ .ok then
        pure frame.consoleStatus
      else
        let (sequence, generation) ← Op.publishFrame frame
        when hooks.framePublished (perform .framePublished)
        when hooks.frameSink (perform (.frameSink sequence frame.graphics generation))
        pure .ok

/-- `emulator_machine_drain_input`: one input a callback. -/
def drainInput : Code Unit := do
  match ← Op.inputPop with
  | none => pure ()
  | some event =>
    Op.deliverInput event
    when (← Op.inputPending) (perform .requestWake)

/-- `emulator_machine_complete_request`. -/
def completeRequest (completed : Event) : Code Unit := do
  failSyncUnless (← Op.signal completed)

/-- `emulator_machine_take_request`. -/
def takeRequest (requested : Flag) : Code Bool := do
  Op.lock
  let taken ← and (not (load .terminateRequested)) (exchange requested false)
  Op.unlock
  pure taken

/-- `emulator_machine_service_media`. -/
def serviceMedia : Code Unit := do
  when (← takeRequest .mediaRequested) do
    let succeeded ← (if hooks.setRemovableMedia then do
        let path ← Op.read .mediaPath
        let mode ← Op.read .mediaMode
        perform (.setRemovableMedia (if path = [] then none else some path) mode)
      else pure false)
    Op.write .mediaSucceeded succeeded
    completeRequest .media

/-- The lease check of `emulator_machine_service_debug`. -/
def leaseCurrent : Code Bool := do
  let lease ← Op.read .debugLease
  let generation ← Op.loadDebugGeneration
  pure (lease == generation.toUInt64)

/-- `emulator_machine_state_get(machine) == state`. -/
def stateIs (state : State) : Code Bool := do
  pure ((← Op.loadState) == state)

/-- The call of `execute_debug` in `emulator_machine_service_debug`. -/
def executeDebug : Code Unit := do
  let request ← Op.read .debugRequest
  let capacity ← Op.read .debugResponseCapacity
  let (status, response, size) ← Op.executeDebug request capacity
  Op.write .debugResponse response
  Op.write .debugResponseSize size
  Op.write .debugStatus status

/-- The end of `emulator_machine_service_debug`: an oversized answer is an error, and an error has no
answer. -/
def settleDebug (capacity : ℕ) : Code Unit := do
  let size ← Op.read .debugResponseSize
  when (capacity < size) (perform (.write .debugStatus .ioError))
  let status ← Op.read .debugStatus
  when (status ≠ .ok) (perform (.write .debugResponseSize 0))
  completeRequest .debug

/-- `emulator_machine_service_debug`, past its claim. -/
def answerDebug : Code Unit := do
  Op.write .debugStatus .invalidState
  Op.write .debugResponseSize 0
  let capacity ← Op.read .debugResponseCapacity
  Op.write .debugResponse (List.replicate capacity 0)
  when (← and (stateIs .paused) (and (load .pauseRequested) leaseCurrent)) executeDebug
  settleDebug capacity

/-- `emulator_machine_service_debug`. -/
def serviceDebug : Code Unit := do
  when ((← Op.exchange .debugCancelRequested false) && hooks.cancelDebug) (perform .cancelDebug)
  when (← takeRequest .debugRequested) answerDebug

/-- The claim of `emulator_machine_service_state_read`: whether it goes on, and whether it begins. -/
def armStateRead : Code (Bool × Bool) := do
  Op.lock
  if ← or (load .terminateRequested) (not (load .stateReadRequested)) then
    Op.unlock
    pure (false, false)
  else
    let armed ← Op.exchange .stateReadArmed true
    Op.unlock
    pure (true, !armed)

/-- A state read has its result. -/
def stateReadDone (status : Status) : Code Unit := do
  Op.write .stateStatus status
  store .stateReadReady true

/-- The driver begins a state read, or cannot. -/
def beginStateRead : Code Unit := do
  let status ← (if hooks.beginStateRead then do
      let writer ← Op.read .stateWriter
      perform (.beginStateRead writer)
    else pure .unsupported)
  when (status ≠ .ok) (stateReadDone status)

/-- The driver is asked for the result of a state read that has none yet. -/
def pollStateRead : Code Unit := do
  when (!(← Op.load .stateReadReady) && hooks.takeStateReadResult) do
    match ← Op.takeStateReadResult with
    | none => pure ()
    | some status => stateReadDone status

/-- `emulator_machine_service_state_read`, past its claim. -/
def answerStateRead (begin : Bool) : Code Unit := do
  when begin (beginStateRead hooks)
  pollStateRead hooks
  when (← Op.load .stateReadReady) (store .pauseRequested true)

/-- `emulator_machine_service_state_read`. -/
def serviceStateRead : Code Unit := do
  let (serves, begin) ← armStateRead
  when serves (answerStateRead hooks begin)

/-- `emulator_machine_complete_state_read`. -/
def completeStateRead : Code Unit := do
  when (← Op.exchange .stateReadRequested false) do
    store .stateReadArmed false
    store .stateReadReady false
    completeRequest .state

/-- The state read in `emulator_machine_finish_requests`. -/
def failStateRead : Code Unit := do
  when (← Op.load .stateReadRequested) do
    Op.write .stateStatus .ioError
    Op.write .stateReadContinuing false
    completeStateRead

/-- … the state write, requested or waiting for its run … -/
def failStateWrite : Code Unit := do
  let requested ← Op.exchange .stateWriteRequested false
  let waiting ← Op.exchange .stateWriteWaiting false
  when (requested || waiting) do
    Op.write .stateStatus .ioError
    completeRequest .state

/-- … the debug request … -/
def failDebug : Code Unit := do
  when (← Op.exchange .debugRequested false) do
    Op.write .debugStatus .ioError
    Op.write .debugResponseSize 0
    completeRequest .debug

/-- … and the media request. -/
def failMedia : Code Unit := do
  when (← Op.exchange .mediaRequested false) do
    Op.write .mediaSucceeded false
    completeRequest .media

/-- `emulator_machine_finish_requests`. -/
def finishRequests (terminal : State) : Code Unit := do
  closeInput
  Op.lock
  let failed ← stateIs .error
  Op.storeState (if failed then .error else terminal)
  failStateRead
  failStateWrite
  failDebug
  failMedia
  Op.unlock

/-! ## The executor callback -/

/-- The stop of `emulator_machine_executor_event` when a frame or a wait has failed: no retry, no
recycling. -/
def abandonRun : Code Unit := do
  store .resetRequested false
  store .stopRequested true
  Op.requestStop

/-- The debug part of `emulator_machine_executor_event`. -/
def noticeDebugStop : Code Unit := do
  let debugStop ← (if hooks.takeDebugStop then perform .takeDebugStop else pure false)
  let cancel ← or (exchange .debugCancelRequested false) (load .pauseRequested)
  let debugStop ← (if cancel && hooks.cancelDebug then do
      Op.cancelDebug
      pure false
    else pure debugStop)
  when debugStop (store .pauseRequested true)

/-- The input part of `emulator_machine_executor_event`: freeze, or deliver one. -/
def admitOrDrain : Code Unit := do
  if ← or (load .pauseRequested) (load .stopRequested) then closeInput
  else when (← stateIs .running) drainInput

/-- What the paused executor does for a command. -/
def serviceParked : Code Unit := do
  serviceMedia hooks
  serviceDebug hooks
  serviceStateRead hooks
  when (← Op.load .stateReadRequested) do
    if ← Op.load .stateReadReady then completeStateRead
    else
      Op.write .stateReadContinuing true
      store .pauseRequested false
      Op.requestWake

/-- A pause is asked for, and no stop. -/
def pauseDue : Code Bool := and (load .pauseRequested) (not (load .stopRequested))

/-- One round of the paused executor; it leaves on the right. -/
def parkedRound (_ : Unit) : Code (Unit ⊕ Unit) := do
  if ← pauseDue then
    match ← Op.waitAny [.resume, .command] with
    | .signaled index =>
      let status ← Op.reset (if index = 0 then .resume else .command)
      if status ≠ .ok then
        let _ ← failSync
        pure (.inr ())
      else
        when (index == 1) (serviceParked hooks)
        pure (.inl ())
    | .cancelled =>
      abandonRun
      pure (.inr ())
    | .fault =>
      Op.storeState .error
      abandonRun
      pure (.inr ())
  else pure (.inr ())

/-- The fact the executor publishes once it has parked. -/
def announceParked (suppressPausedFact : Bool) : Code Unit := do
  if ← Op.exchange .resetActive false then notifyState hooks .resetCompleted
  else when (!suppressPausedFact) (notifyState hooks .paused)

/-- The state requests that the pause completes. -/
def completeParked : Code Unit := do
  when (← Op.load .stateReadReady) completeStateRead
  when (← Op.exchange .stateWriteWaiting false) (completeRequest .state)

/-- The executor goes on after a pause, in public unless a state read continues. -/
def resumeRun : Code Unit := do
  Op.setHeartbeat true
  if ← Op.read .stateReadContinuing then pure ()
  else if ← Op.compareExchangeState .paused .running then
    Op.inputAdmit true
    when (← Op.inputPending) (perform .requestWake)
    notifyState hooks .running
  else perform (.setHeartbeat false)

/-- The pause part of `emulator_machine_executor_event`. -/
def park (suppressPausedFact : Bool) : Code Unit := do
  closeInput
  if ← Op.load .stopRequested then pure ()
  else
    Op.setHeartbeat false
    if ← Op.compareExchangeState (if suppressPausedFact then .paused else .running) .paused then
      announceParked hooks suppressPausedFact
      completeParked
      iterate (parkedRound hooks) ()
      if ← Op.load .stopRequested then pure ()
      else resumeRun hooks
    else pure ()

/-- Whether a state read that continued past a pause has its result: the coming pause is its own. -/
def endContinuation : Code Bool := do
  let suppressPausedFact ← and (perform (.read .stateReadContinuing)) (load .stateReadReady)
  when suppressPausedFact (perform (.write .stateReadContinuing false))
  pure suppressPausedFact

/-- `emulator_machine_executor_event`. -/
def executorEvent : Code Unit := do
  noticeDebugStop hooks
  -- A completed capture may ask for a pause here: no input is delivered past its checkpoint.
  serviceStateRead hooks
  admitOrDrain
  if (← publish hooks) ≠ .ok then
    closeInput
    Op.storeState .error
    abandonRun
  else
    let suppressPausedFact ← endContinuation
    when (← pauseDue) (park hooks suppressPausedFact)

/-! ## The worker -/

/-- `emulator_machine_service_state_write`, once the driver has restored the state. -/
def beginRestoredRun : Code Unit := do
  Op.debugInvalidate
  Op.inputClear
  Op.invalidatePublishedFrame
  store .pauseRequested true
  store .stopRequested false
  Op.storeState .starting
  Op.addRunGeneration
  store .restoredStartRequested true
  store .stateWriteWaiting true
  store .startRequested true
  failSyncUnless (← Op.signal .command)

/-- `emulator_machine_service_state_write`. -/
def serviceStateWrite : Code Unit := do
  when (← takeRequest .stateWriteRequested) do
    let status ← (if hooks.writeState then do
        let reader ← Op.read .stateReader
        perform (.writeState reader)
      else pure .unsupported)
    Op.write .stateStatus status
    if status = .ok then beginRestoredRun else completeRequest .state

/-- `driver.run`: the driver calls the executor back until it returns. -/
def driverRun : Code Bool :=
  iterate (fun _ => do
    match ← Op.driverRun with
    | none =>
      executorEvent hooks
      pure (.inl ())
    | some succeeded => pure (.inr succeeded)) ()

/-- The `do … while` of the worker around `driver.run`. -/
def runUntilStopped : Code Bool :=
  iterate (fun _ => do
    let succeeded ← driverRun hooks
    let again ← and (pure succeeded)
      (and (not (load .stopRequested)) (not (load .terminateRequested)))
    pure (if again then .inl () else .inr succeeded)) ()

/-- The worker past a run: the driver has unwound. -/
def unwind (succeeded : Bool) : Code Bool := do
  closeInput
  Op.setHeartbeat false
  Op.setExecutorCallback false
  when hooks.cancelDebug (perform .cancelDebug)
  Op.debugInvalidate
  -- A successful driver unwind must not erase a failed executor wait.
  and (pure succeeded) (not (stateIs .error))

/-- The end of a run: the requests are failed and the state published. -/
def settle (terminal : State) : Code Unit := do
  finishRequests terminal
  notifyState hooks terminal

/-- The worker after `unwind`: recycle for a reset, or settle.  Returns `failure_notified`. -/
def recycleOrSettle (failureNotified succeeded : Bool) : Code Bool := do
  if ← and (pure succeeded) (exchange .resetRequested false) then
    finishRequests .starting
    store .stopRequested false
    beginColdRun true
    failSyncUnless (← Op.signal .command)
    pure failureNotified
  else
    settle hooks (if succeeded then .stopped else .error)
    pure !succeeded

/-- The state is RUNNING: admission, and the fact, unless a reset or a pause is under way. -/
def openRun : Code Unit := do
  Op.inputAdmit (!(← Op.load .pauseRequested))
  when (← and (not (load .resetActive)) (not (load .pauseRequested))) (notifyState hooks .running)

/-- A run, from RUNNING to its end.  Returns `failure_notified`. -/
def liveRun (failureNotified : Bool) : Code Bool := do
  openRun hooks
  let succeeded ← runUntilStopped hooks
  let succeeded ← unwind hooks succeeded
  recycleOrSettle hooks failureNotified succeeded

/-- A launch past its stop check; it leaves on the right when the state has changed under it. -/
def launchRun (failureNotified : Bool) : Code (Bool ⊕ Bool) := do
  Op.setExecutorCallback true
  Op.setHeartbeat true
  if ← Op.compareExchangeState .starting .running then
    pure (.inl (← liveRun hooks failureNotified))
  else
    Op.setHeartbeat false
    Op.setExecutorCallback false
    pure (.inr failureNotified)

/-- A launch whose machine is ready. -/
def launchUnlessStopped (failureNotified : Bool) : Code (Bool ⊕ Bool) := do
  if ← Op.load .stopRequested then
    finishRequests .stopped
    let failed ← stateIs .error
    notifyState hooks (if failed then .error else .stopped)
    pure (.inl failed)
  else launchRun hooks failureNotified

/-- The start of a run, from `driver.reset` or a restored state. -/
def launch (failureNotified restored : Bool) : Code (Bool ⊕ Bool) := do
  let succeeded ← (if restored then pure true else perform .driverReset)
  when restored (perform (.write .stateStatus .ok))
  if succeeded then launchUnlessStopped hooks failureNotified
  else
    settle hooks .error
    pure (.inl true)

/-- The worker takes a start, if there is one. -/
def takeStart (failureNotified : Bool) : Code (Bool ⊕ Bool) := do
  let restored ← Op.exchange .restoredStartRequested false
  if ← Op.exchange .startRequested false then launch hooks failureNotified restored
  else pure (.inl failureNotified)

/-- The worker has no debug request: a media or a state write request, or a start. -/
def dispatchRequest (failureNotified : Bool) : Code (Bool ⊕ Bool) := do
  if ← Op.load .mediaRequested then
    serviceMedia hooks
    pure (.inl failureNotified)
  else if ← Op.load .stateWriteRequested then
    serviceStateWrite hooks
    pure (.inl failureNotified)
  else takeStart hooks failureNotified

/-- What the worker does for a command once it has reset the event. -/
def dispatch (failureNotified : Bool) : Code (Bool ⊕ Bool) := do
  if ← Op.load .terminateRequested then pure (.inr failureNotified)
  else
    serviceDebug hooks
    if ← Op.load .terminateRequested then pure (.inr failureNotified)
    else dispatchRequest hooks failureNotified

/-- One round of `emulator_machine_worker`, with `failure_notified`; it leaves on the right. -/
def workerRound (failureNotified : Bool) : Code (Bool ⊕ Bool) := do
  match ← Op.waitAny [.command] with
  | .cancelled => pure (.inr failureNotified)
  | .fault =>
    finishRequests .error
    notifyState hooks .error
    pure (.inr true)
  | .signaled _ =>
    let status ← Op.reset .command
    if status ≠ .ok then
      let _ ← failSync
      pure (.inr failureNotified)
    else dispatch hooks failureNotified

/-- `emulator_machine_worker`. -/
def worker : Code Unit := do
  let failureNotified ← iterate (workerRound hooks) false
  store .terminateRequested true
  finishRequests (← Op.loadState)
  when (← and (pure !failureNotified) (stateIs .error)) (notifyState hooks .error)
  Op.exit

end Worker

end SoftPC.Machine
