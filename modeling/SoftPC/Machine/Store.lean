import SoftPC.KvmBase.FrameExchange
import SoftPC.Machine.InputQueue
import SoftPC.Machinery.Threads

/-!
# Machine/Store — what the threads of a machine share, and the operations on it

`emulator/machine/machine.c`, `struct emulator_machine`.  The lifecycle flags, the state and the two
generation counters are sequentially consistent atomics; the plain fields carry the payload of the
one outstanding request.  Each operation of `Op` is one atomic access, one call of the
synchronization library, one section under the queue's or the frame's own lock, or one call into the
driver or a sink; `request_lock` guards sections of several operations and is therefore explicit.

What the host and the driver answer is part of the schedule (`Answer`).  A native failure of the
synchronization library is recorded (`nativeFault`); what the outside sees is recorded in `trace`,
newest first.
-/

namespace SoftPC.Machine

open SoftPC.Threads

/-- `emulator_machine_state`. -/
inductive State where
  | stopped | starting | running | paused | error | resetCompleted
  deriving DecidableEq

/-- The flags of `struct emulator_machine`. -/
inductive Flag where
  | debugRequested | debugCancelRequested | pauseRequested | stopRequested | startRequested
  | resetRequested | resetActive | terminateRequested | mediaRequested | stateReadRequested
  | stateReadArmed | stateReadReady | stateWriteRequested | stateWriteWaiting
  | restoredStartRequested
  deriving DecidableEq

/-- The events of `struct emulator_machine`, all with manual reset. -/
inductive Event where
  | command | resume | media | debug | state
  deriving DecidableEq

/-- The four synchronous requests. -/
inductive Kind where
  | media | debug | stateRead | stateWrite
  deriving DecidableEq

/-- The flag a request raises. -/
def Kind.flag : Kind → Flag
  | .media => .mediaRequested
  | .debug => .debugRequested
  | .stateRead => .stateReadRequested
  | .stateWrite => .stateWriteRequested

/-- The event that completes a request. -/
def Kind.event : Kind → Event
  | .media => .media
  | .debug => .debug
  | .stateRead => .state
  | .stateWrite => .state

/-- `LIB_STORAGE_MEDIUM_OVERLAY`. -/
def mediumOverlay : ℕ := 2

/-- `EMULATOR_MACHINE_PATH_CAPACITY`. -/
def pathCapacity : ℕ := 1024

/-- `EMULATOR_MACHINE_DEBUG_REQUEST_CAPACITY`. -/
def debugRequestCapacity : ℕ := 128

/-- `EMULATOR_MACHINE_DEBUG_RESPONSE_CAPACITY`. -/
def debugResponseCapacity : ℕ := 1536

/-- The fields that are not atomic: the payload and the result of the outstanding request. -/
inductive Field where
  | debugRequest | debugResponse | debugResponseCapacity | debugResponseSize | debugLease
  | debugStatus
  /-- `machine->worker != LIB_NULL`. -/
  | worker
  | stateReadContinuing | stateWriter | stateReader | stateStatus | mediaSucceeded | mediaMode
  /-- Without its terminator: empty is `'\0'` in the first byte. -/
  | mediaPath
  deriving DecidableEq

/-- The type of a field.  A state writer or reader is named by its descriptor. -/
@[reducible] def Field.type : Field → Type
  | .debugRequest | .debugResponse | .mediaPath => List UInt8
  | .debugResponseCapacity | .debugResponseSize | .stateWriter | .stateReader | .mediaMode => ℕ
  | .debugLease => UInt64
  | .debugStatus | .stateStatus => Status
  | .worker | .stateReadContinuing | .mediaSucceeded => Bool

/-- The fields of a zeroed machine that has its worker. -/
def Field.created : ∀ f : Field, f.type
  | .debugRequest | .debugResponse | .mediaPath => []
  | .debugResponseCapacity | .debugResponseSize | .stateWriter | .stateReader | .mediaMode => 0
  | .debugLease => 0
  | .debugStatus | .stateStatus => .ok
  | .worker => true
  | .stateReadContinuing | .mediaSucceeded => false

/-! ## The callers -/

/-- A caller's buffer: `LIB_NULL` with a size, or bytes. -/
inductive Buffer where
  | null (size : ℕ)
  | bytes (content : List UInt8)
  deriving DecidableEq

def Buffer.size : Buffer → ℕ
  | .null n => n
  | .bytes content => content.length

/-- `emulator_machine_debug_execute_with_lease`, as called. -/
structure DebugCall where
  /-- `none` is `LIB_NULL`. -/
  lease : Option UInt64
  request : Buffer
  response : Buffer
  /-- `response_size != LIB_NULL`. -/
  reportsSize : Bool
  deriving DecidableEq

/-- What the control thread may call. -/
inductive Call where
  | start | pause | resume | stop | reset
  | setRemovableMedia (path : Option (List UInt8)) (mode : ℕ)
  | readState (writer : Option ℕ)
  | writeState (reader : Option ℕ)
  | debugAcquire
  | debugExecute (call : DebugCall)
  | debugCancel
  | shutdown
  deriving DecidableEq

/-- What a call returns: a boolean; a status; a lease; or a debug status, with the caller's response
buffer and reported size as they are left. -/
inductive Reply where
  | done
  | bool (b : Bool)
  | status (s : Status)
  | lease (s : Status) (generation : UInt64)
  | debug (s : Status) (response : Buffer) (size : Option ℕ)
  deriving DecidableEq

/-- The threads: the sole control caller, the executor, the input producers, whoever cancels a debug
plan asynchronously, and the consumers of the frame exchange. -/
inductive Tid where
  | control
  | worker
  | producer (n : ℕ)
  | canceller (n : ℕ)
  | viewer (n : ℕ)
  deriving DecidableEq

/-! ## The operations -/

/-- `base_sync_wait_result` of an unbounded wait on live events. -/
inductive WaitResult where
  | signaled (index : ℕ)
  | cancelled
  | fault
  deriving DecidableEq

/-- `kvm_window_frame`, with the payload its slot owns. -/
structure WindowFrame where
  sequence : UInt32 := 0
  /-- The payload is an image, not text. -/
  graphics : Bool := false
  /-- Columns or width, rows or height, and stride; `none` is no payload. -/
  spec : Option (ℕ × ℕ × ℕ) := none
  payload : List UInt8 := []
  deriving DecidableEq

/-- `kvm_window_frame_same_spec`. -/
def WindowFrame.sameSpec (a b : WindowFrame) : Bool :=
  a.spec.isSome && a.graphics == b.graphics && a.spec == b.spec

/-- `kvm_window_frame_retire`. -/
def WindowFrame.retire (slot : WindowFrame) (latest : Option WindowFrame) : WindowFrame :=
  if latest.any slot.sameSpec then slot else {}

/-- A frame `copy_frame` produced, as the two validators judge it. -/
structure FrameInfo extends WindowFrame where
  windowStatus : Status
  consoleStatus : Status

/-- What a consumer does to the frame exchange. -/
inductive Viewing where
  | take
  | finish (success : Bool)
  | redraw
  | detach
  deriving DecidableEq

/-- `kvm_frame_exchange_take`, `_finish`, `_redraw` and `_detach`. -/
def Viewing.on (frames : FrameExchange WindowFrame) : Viewing → FrameExchange WindowFrame
  | .take => frames.take.2.2
  | .finish success => frames.finish success
  | .redraw => frames.redraw
  | .detach => frames.detach

/-- The atomic operations of the machine's threads. -/
inductive Op : Type → Type where
  | load (f : Flag) : Op Bool
  | exchange (f : Flag) (value : Bool) : Op Bool
  | loadState : Op State
  | storeState (s : State) : Op Unit
  | compareExchangeState (expected desired : State) : Op Bool
  /-- `emulator_machine_debug_invalidate`. -/
  | debugInvalidate : Op Unit
  | loadDebugGeneration : Op UInt32
  | addRunGeneration : Op Unit
  | loadRunGeneration : Op UInt32
  | read (f : Field) : Op f.type
  | write (f : Field) (v : f.type) : Op Unit
  /-- `base_sync_mutex_lock` of `request_lock`. -/
  | lock : Op Unit
  | unlock : Op Unit
  | signal (e : Event) : Op Status
  | reset (e : Event) : Op Status
  | waitAny (es : List Event) : Op WaitResult
  | requestCancel : Op Status
  | join : Op Status
  /-- The executor's native thread ends. -/
  | exit : Op Unit
  | inputAdmit (accepting : Bool) : Op Unit
  | inputPush (event : InputEvent) : Op Status
  | inputPop : Op (Option InputEvent)
  | inputPending : Op Bool
  | inputClear : Op Unit
  /-- The section of `emulator_machine_publish` under `frame_lock`. -/
  | publishFrame (frame : FrameInfo) : Op (UInt32 × UInt32)
  | invalidatePublishedFrame : Op Unit
  /-- A consumer's call into the frame exchange. -/
  | view (v : Viewing) : Op Unit
  | driverReset : Op Bool
  /-- Inside `driver.run`: it calls the executor callback, or returns. -/
  | driverRun : Op (Option Bool)
  | requestStop : Op Unit
  | requestWake : Op Unit
  | setHeartbeat (enabled : Bool) : Op Unit
  | setExecutorCallback (installed : Bool) : Op Unit
  | deliverInput (event : InputEvent) : Op Unit
  | copyFrame : Op (Status × Option FrameInfo)
  | consoleStatusSource : Op Status
  | framePublished : Op Unit
  | setRemovableMedia (path : Option (List UInt8)) (mode : ℕ) : Op Bool
  | beginStateRead (writer : ℕ) : Op Status
  | takeStateReadResult : Op (Option Status)
  | writeState (reader : ℕ) : Op Status
  /-- `driver.execute_debug`: its status, the response buffer and the size it leaves. -/
  | executeDebug (request : List UInt8) (capacity : ℕ) : Op (Status × List UInt8 × ℕ)
  | takeDebugStop : Op Bool
  | cancelDebug : Op Unit
  | stateSink (s : State) (run : UInt32) : Op Unit
  | frameSink (sequence : UInt32) (graphics : Bool) (run : UInt32) : Op Unit
  | nextCall : Op Call
  | returned (call : Call) (reply : Reply) : Op Unit
  | nextInput : Op InputEvent
  | nextView : Op Viewing

/-- What the host, the driver and the callers answer at one operation. -/
structure Answer where
  /-- A native synchronization call fails. -/
  fails : Bool := false
  yes : Bool := false
  status : Status := .ok
  /-- `driver.run` calls the executor callback. -/
  callback : Bool := false
  frame : Option FrameInfo := none
  /-- What `copy_frame` leaves in the producer's slot when it produces no frame. -/
  scratch : WindowFrame := {}
  stateReadResult : Option Status := none
  bytes : List UInt8 := []
  size : ℕ := 0
  call : Call := .pause
  input : InputEvent := InputQueue.zeroEvent
  viewing : Viewing := .take

/-! ## The store -/

/-- What a request came to: whether the medium was changed, or a status. -/
inductive Outcome where
  | media (succeeded : Bool)
  | status (s : Status)
  deriving DecidableEq

/-- What the outside sees of a run. -/
inductive Obs where
  /-- A state published through the sink. -/
  | notified (s : State) (run : UInt32)
  /-- An input accepted by the queue. -/
  | accepted (event : InputEvent)
  | delivered (event : InputEvent)
  /-- The run generation moved on: a cold run begins. -/
  | coldRun
  /-- A synchronous request was accepted. -/
  | requested (k : Kind)
  /-- The driver operation of a request was executed, with its outcome. -/
  | executed (k : Kind) (outcome : Outcome)
  | stateReadResult (s : Status)
  | published (frame : WindowFrame)
  /-- The published frame was invalidated. -/
  | hidden
  /-- A completion event was signalled, with the outcome it covers. -/
  | completed (e : Event) (outcome : Outcome)
  /-- The state, the pause request, the request's lease and the generation at `execute_debug`. -/
  | debugRan (s : State) (pause : Bool) (lease : UInt64) (generation : UInt32)
  | invalidated
  /-- The control thread read the debug generation. -/
  | generationRead (generation : UInt32)
  | called (call : Call)
  /-- The control thread raised `stop_requested`. -/
  | stopRaised
  | returned (call : Call) (reply : Reply)
  | exited
  deriving DecidableEq

/-- `struct emulator_machine`, with the native objects it owns. -/
structure Store where
  flags : Flag → Bool
  state : State
  runGeneration : UInt32
  debugGeneration : UInt32
  fields : ∀ f : Field, f.type
  requestLock : Option Tid
  signaled : Event → Bool
  /-- The worker task's cancellation event. -/
  cancelled : Bool
  /-- The worker task's native exit. -/
  exited : Bool
  queue : InputQueue
  publishedFrameSequence : UInt32
  publishedFrameRunGeneration : UInt32
  publishedFrameGraphics : Bool
  frames : FrameExchange WindowFrame
  nativeFault : Bool
  trace : List Obs

namespace Store

def setFlag (m : Store) (f : Flag) (b : Bool) : Store :=
  { m with flags := Function.update m.flags f b }

def setEvent (m : Store) (e : Event) (b : Bool) : Store :=
  { m with signaled := Function.update m.signaled e b }

def setField (m : Store) (f : Field) (v : f.type) : Store :=
  { m with fields := Function.update m.fields f v }

/-- What the outstanding request behind an event has come to. -/
def outcome (m : Store) : Event → Outcome
  | .media => .media (m.fields .mediaSucceeded)
  | .debug => .status (m.fields .debugStatus)
  | _ => .status (m.fields .stateStatus)

/-- `emulator_machine_create`, once its resources exist. -/
def created : Store where
  flags _ := false
  state := .stopped
  runGeneration := 0
  debugGeneration := 1
  fields := Field.created
  requestLock := none
  signaled _ := false
  cancelled := false
  exited := false
  queue := .initialized
  publishedFrameSequence := 0
  publishedFrameRunGeneration := 0
  publishedFrameGraphics := false
  frames := .create {} (some WindowFrame.retire)
  nativeFault := false
  trace := []

/-- The sequence of the next publication: it wraps past zero. -/
def nextSequence (m : Store) : UInt32 :=
  if m.publishedFrameSequence + 1 = 0 then 1 else m.publishedFrameSequence + 1

/-- A frame as it is published: the producer's slot gets its sequence. -/
def stamp (m : Store) (frame : FrameInfo) : WindowFrame :=
  { frame.toWindowFrame with sequence := m.nextSequence }

/-- A native call: it does what it should, or fails and is remembered. -/
def native {β : Type} (m : Store) (fails : Bool) (failure : β) (success : β × Store) :
    Option (β × Store) :=
  some (if fails then (failure, { m with nativeFault := true }) else success)

/-- What an operation does to the store; `none` is blocked. -/
def effect (m : Store) (t : Tid) (a : Answer) : ∀ β : Type, Op β → Option (β × Store)
  | _, .load f => some (m.flags f, m)
  | _, .exchange f value => some (m.flags f, m.setFlag f value)
  | _, .loadState => some (m.state, m)
  | _, .storeState s => some ((), { m with state := s })
  | _, .compareExchangeState expected desired =>
    if m.state = expected then some (true, { m with state := desired }) else some (false, m)
  | _, .debugInvalidate => some ((), { m with debugGeneration := m.debugGeneration + 1 })
  | _, .loadDebugGeneration => some (m.debugGeneration, m)
  | _, .addRunGeneration => some ((), { m with runGeneration := m.runGeneration + 1 })
  | _, .loadRunGeneration => some (m.runGeneration, m)
  | _, .read f => some (m.fields f, m)
  | _, .write f v => some ((), m.setField f v)
  | _, .lock => if m.requestLock = none then some ((), { m with requestLock := some t }) else none
  | _, .unlock => some ((), { m with requestLock := none })
  | _, .signal e => m.native a.fails .ioError (.ok, m.setEvent e true)
  | _, .reset e => m.native a.fails .ioError (.ok, m.setEvent e false)
  | _, .waitAny es =>
    if a.fails then some (.fault, { m with nativeFault := true })
    -- Cancellation wins; otherwise the lowest event index wins.
    else if m.cancelled then some (.cancelled, m)
    else (es.findIdx? m.signaled).map fun i => (.signaled i, m)
  | _, .requestCancel => m.native a.fails .ioError (.ok, { m with cancelled := true })
  | _, .join =>
    if a.fails then some (.ioError, { m with nativeFault := true })
    else if m.exited then some (.ok, m) else none
  | _, .exit => some ((), { m with exited := true })
  | _, .inputAdmit accepting => some ((), { m with queue := m.queue.admitInput accepting })
  | _, .inputPush event => some ((m.queue.push event).1, { m with queue := (m.queue.push event).2 })
  | _, .inputPop => some (m.queue.pop.1, { m with queue := m.queue.pop.2 })
  | _, .inputPending => some (m.queue.pending, m)
  | _, .inputClear => some ((), { m with queue := m.queue.clear })
  | _, .publishFrame frame =>
    some ((m.nextSequence, m.runGeneration), { m with
      publishedFrameSequence := m.nextSequence
      publishedFrameRunGeneration := m.runGeneration
      publishedFrameGraphics := frame.graphics
      frames := (m.frames.write (m.stamp frame)).publish })
  | _, .invalidatePublishedFrame =>
    some ((), { m with
      publishedFrameRunGeneration := 0
      publishedFrameGraphics := false
      frames := m.frames.invalidate })
  | _, .view v => some ((), { m with frames := v.on m.frames })
  | _, .driverReset => some (a.yes, m)
  | _, .driverRun => some (if a.callback then none else some a.yes, m)
  | _, .requestStop => some ((), m)
  | _, .requestWake => some ((), m)
  | _, .setHeartbeat _ => some ((), m)
  | _, .setExecutorCallback _ => some ((), m)
  | _, .deliverInput _ => some ((), m)
  | _, .copyFrame => some ((a.status, a.frame), { m with
      frames := m.frames.write ((a.frame.map FrameInfo.toWindowFrame).getD a.scratch) })
  | _, .consoleStatusSource => some (a.status, m)
  | _, .framePublished => some ((), m)
  | _, .setRemovableMedia _ _ => some (a.yes, m)
  | _, .beginStateRead _ => some (a.status, m)
  | _, .takeStateReadResult => some (a.stateReadResult, m)
  | _, .writeState _ => some (a.status, m)
  | _, .executeDebug _ _ => some ((a.status, a.bytes, a.size), m)
  | _, .takeDebugStop => some (a.yes, m)
  | _, .cancelDebug => some ((), m)
  | _, .stateSink _ _ => some ((), m)
  | _, .frameSink _ _ _ => some ((), m)
  | _, .nextCall => some (a.call, m)
  | _, .returned _ _ => some ((), m)
  | _, .nextInput => some (a.input, m)
  | _, .nextView => some (a.viewing, m)

/-- What the outside sees when a flag is raised. -/
def observeRaised (t : Tid) : Flag → List Obs
  | .mediaRequested => [.requested .media]
  | .debugRequested => [.requested .debug]
  | .stateReadRequested => [.requested .stateRead]
  | .stateWriteRequested => [.requested .stateWrite]
  | .stopRequested => if t = .control then [.stopRaised] else []
  | _ => []

/-- What the outside sees of an operation, in the store it starts from. -/
def observe (m : Store) (t : Tid) : ∀ β : Type, Op β → β → List Obs
  | _, .exchange f value, _ => if value then observeRaised t f else []
  | _, .debugInvalidate, _ => [.invalidated]
  | _, .loadDebugGeneration, g => if t = .control then [.generationRead g] else []
  | _, .addRunGeneration, _ => [.coldRun]
  | _, .signal e, s =>
    if s = .ok ∧ e ≠ .command ∧ e ≠ .resume then [.completed e (m.outcome e)] else []
  | _, .publishFrame frame, _ => [.published (m.stamp frame)]
  | _, .invalidatePublishedFrame, _ => [.hidden]
  | _, .inputPush event, s => if s = .ok then [.accepted event] else []
  | _, .deliverInput event, _ => [.delivered event]
  | _, .setRemovableMedia _ _, b => [.executed .media (.media b)]
  | _, .beginStateRead _, s => [.executed .stateRead (.status s)]
  | _, .takeStateReadResult, r => r.toList.map .stateReadResult
  | _, .writeState _, s => [.executed .stateWrite (.status s)]
  | _, .executeDebug _ _, r => [.debugRan m.state (m.flags .pauseRequested) (m.fields .debugLease)
      m.debugGeneration, .executed .debug (.status r.1)]
  | _, .stateSink s run, _ => [.notified s run]
  | _, .nextCall, call => [.called call]
  | _, .returned call reply, _ => [.returned call reply]
  | _, .exit, _ => [.exited]
  | _, _, _ => []

section

variable (m : Store) (t : Tid)

@[simp] theorem observe_lower (f : Flag) (b : Bool) : m.observe t _ (.exchange f false) b = [] := rfl
@[simp] theorem observe_load (f : Flag) (b : Bool) : m.observe t _ (.load f) b = [] := rfl
@[simp] theorem observe_lock (b : Unit) : m.observe t _ .lock b = [] := rfl
@[simp] theorem observe_unlock (b : Unit) : m.observe t _ .unlock b = [] := rfl
@[simp] theorem observe_cancelDebug (b : Unit) : m.observe t _ .cancelDebug b = [] := rfl
@[simp] theorem observe_takeDebugStop (b : Bool) : m.observe t _ .takeDebugStop b = [] := rfl
@[simp] theorem observe_loadState (s : State) : m.observe t _ .loadState s = [] := rfl
@[simp] theorem observe_inputPop (event : Option InputEvent) : m.observe t _ .inputPop event = [] := rfl
@[simp] theorem observe_inputPush (event : InputEvent) (s : Status) :
    m.observe t _ (.inputPush event) s = if s = .ok then [.accepted event] else [] := rfl
@[simp] theorem observe_deliverInput (event : InputEvent) (b : Unit) :
    m.observe t _ (.deliverInput event) b = [.delivered event] := rfl

end

end Store

/-- One operation of a thread, as it is answered and seen. -/
def exec (β : Type) (t : Tid) (o : Op β) (a : Answer) (m : Store) : Option (β × Store) :=
  (m.effect t a β o).map fun r => (r.1, { r.2 with trace := m.observe t β o r.1 ++ r.2.trace })

/-! ## What an operation that succeeds has done -/

/-- The parts of a machine on which invariants rest. -/
inductive Part where
  | flag (f : Flag) | state | runs | generation | field (f : Field) | event (e : Event) | queue | frames

/-- The operations that write each part. -/
inductive Op.Writes : ∀ {β : Type}, Op β → Part → Prop
  | exchange (f : Flag) (v : Bool) : Writes (.exchange f v) (.flag f)
  | storeState (s : State) : Writes (.storeState s) .state
  | compareExchangeState (expected desired : State) :
    Writes (.compareExchangeState expected desired) .state
  | addRunGeneration : Writes .addRunGeneration .runs
  | debugInvalidate : Writes .debugInvalidate .generation
  | write (f : Field) (v : f.type) : Writes (.write f v) (.field f)
  | signal (e : Event) : Writes (.signal e) (.event e)
  | reset (e : Event) : Writes (.reset e) (.event e)
  | inputAdmit (accepting : Bool) : Writes (.inputAdmit accepting) .queue
  | inputPush (event : InputEvent) : Writes (.inputPush event) .queue
  | inputPop : Writes .inputPop .queue
  | inputClear : Writes .inputClear .queue
  | publishFrame (frame : FrameInfo) : Writes (.publishFrame frame) .frames
  | invalidatePublishedFrame : Writes .invalidatePublishedFrame .frames
  | view (v : Viewing) : Writes (.view v) .frames
  | copyFrame : Writes .copyFrame .frames

/-- The operations as which each thing is seen. -/
inductive Op.Shows : ∀ {β : Type}, Op β → Obs → Prop
  | requested (k : Kind) : Shows (.exchange k.flag true) (.requested k)
  | stopRaised : Shows (.exchange .stopRequested true) .stopRaised
  | invalidated : Shows .debugInvalidate .invalidated
  | generationRead (g : UInt32) : Shows .loadDebugGeneration (.generationRead g)
  | coldRun : Shows .addRunGeneration .coldRun
  | completed {e : Event} (he : e ≠ .command ∧ e ≠ .resume) (o : Outcome) :
    Shows (.signal e) (.completed e o)
  | published (frame : FrameInfo) (shown : WindowFrame) : Shows (.publishFrame frame) (.published shown)
  | hidden : Shows .invalidatePublishedFrame .hidden
  | accepted (event : InputEvent) : Shows (.inputPush event) (.accepted event)
  | delivered (event : InputEvent) : Shows (.deliverInput event) (.delivered event)
  | changed (path : Option (List UInt8)) (mode : ℕ) (o : Outcome) :
    Shows (.setRemovableMedia path mode) (.executed .media o)
  | begun (writer : ℕ) (o : Outcome) : Shows (.beginStateRead writer) (.executed .stateRead o)
  | stateReadResult (s : Status) : Shows .takeStateReadResult (.stateReadResult s)
  | restored (reader : ℕ) (o : Outcome) : Shows (.writeState reader) (.executed .stateWrite o)
  | debugRan (request : List UInt8) (capacity : ℕ) (s : State) (pause : Bool) (lease : UInt64)
    (g : UInt32) : Shows (.executeDebug request capacity) (.debugRan s pause lease g)
  | debugged (request : List UInt8) (capacity : ℕ) (o : Outcome) :
    Shows (.executeDebug request capacity) (.executed .debug o)
  | notified (s : State) (run : UInt32) : Shows (.stateSink s run) (.notified s run)
  | called (call : Call) : Shows .nextCall (.called call)
  | returned (call : Call) (reply : Reply) : Shows (.returned call reply) (.returned call reply)
  | exited : Shows .exit .exited

section Effect

variable {β : Type} {m m' : Store} {t : Tid} {a : Answer}

/-- An operation has its effect, and is seen. -/
theorem exec_eq_some {o : Op β} {b : β} :
    exec β t o a m = some (b, m') ↔ ∃ m₀, m.effect t a β o = some (b, m₀) ∧
      m' = { m₀ with trace := m.observe t β o b ++ m₀.trace } := by
  unfold exec
  constructor
  · intro h
    obtain ⟨⟨b', m₀⟩, heffect, heq⟩ := Option.map_eq_some_iff.mp h
    cases heq
    exact ⟨m₀, heffect, rfl⟩
  · rintro ⟨m₀, heffect, rfl⟩
    rw [heffect, Option.map_some]

namespace Store

theorem native_ok {success : Store} :
    m.native a.fails Status.ioError (.ok, success) = some (.ok, m') ↔
      a.fails = false ∧ m' = success := by
  unfold native
  cases a.fails <;> simp [eq_comm]

@[simp] theorem effect_signal {e : Event} :
    m.effect t a Status (.signal e) = some (.ok, m') ↔
      a.fails = false ∧ m' = m.setEvent e true := native_ok

@[simp] theorem effect_reset {e : Event} :
    m.effect t a Status (.reset e) = some (.ok, m') ↔
      a.fails = false ∧ m' = m.setEvent e false := native_ok

@[simp] theorem effect_requestCancel :
    m.effect t a Status .requestCancel = some (.ok, m') ↔
      a.fails = false ∧ m' = { m with cancelled := true } := native_ok

@[simp] theorem effect_join :
    m.effect t a Status .join = some (.ok, m') ↔
      a.fails = false ∧ m.exited = true ∧ m' = m := by
  unfold effect
  cases a.fails <;> cases m.exited <;> simp [eq_comm]

@[simp] theorem effect_lock :
    m.effect t a Unit .lock = some ((), m') ↔
      m.requestLock = none ∧ m' = { m with requestLock := some t } := by
  unfold effect
  by_cases hl : m.requestLock = none <;> simp [hl, eq_comm]

@[simp] theorem effect_compareExchangeState {expected desired : State} {b : Bool} :
    m.effect t a Bool (.compareExchangeState expected desired) = some (b, m') ↔
      (m.state = expected ∧ b = true ∧ m' = { m with state := desired }) ∨
      (m.state ≠ expected ∧ b = false ∧ m' = m) := by
  unfold effect
  by_cases hs : m.state = expected <;> simp [hs, eq_comm]

@[simp] theorem effect_waitAny_cancelled {es : List Event} :
    m.effect t a WaitResult (.waitAny es) = some (.cancelled, m') ↔
      a.fails = false ∧ m.cancelled = true ∧ m' = m := by
  unfold effect
  cases a.fails <;> cases m.cancelled <;> simp [eq_comm]

@[simp] theorem effect_waitAny_signaled {es : List Event} {i : ℕ} :
    m.effect t a WaitResult (.waitAny es) = some (.signaled i, m') ↔
      a.fails = false ∧ m.cancelled = false ∧ es.findIdx? m.signaled = some i ∧ m' = m := by
  unfold effect
  cases a.fails <;> cases m.cancelled <;> simp [eq_comm]

/-- A failed wait is remembered. -/
theorem effect_waitAny_fault {es : List Event}
    (h : m.effect t a WaitResult (.waitAny es) = some (.fault, m')) :
    m' = { m with nativeFault := true } := by
  unfold effect at h
  cases hf : a.fails <;> cases hc : m.cancelled <;> simp [hf, hc] at h <;> rw [← h]

/-- What an operation does not write is as it was; nothing is written down, and no native failure is
forgotten. -/
structure Leaves (o : Op β) (m m' : Store) : Prop where
  flags : ∀ f, ¬o.Writes (.flag f) → m'.flags f = m.flags f
  state : ¬o.Writes .state → m'.state = m.state
  runs : ¬o.Writes .runs → m'.runGeneration = m.runGeneration
  generation : ¬o.Writes .generation → m'.debugGeneration = m.debugGeneration
  fields : ∀ f, ¬o.Writes (.field f) → m'.fields f = m.fields f
  signaled : ∀ e, ¬o.Writes (.event e) → m'.signaled e = m.signaled e
  queue : ¬o.Writes .queue → m'.queue = m.queue
  frames : ¬o.Writes .frames → m'.publishedFrameSequence = m.publishedFrameSequence ∧
    m'.publishedFrameRunGeneration = m.publishedFrameRunGeneration ∧
    m'.publishedFrameGraphics = m.publishedFrameGraphics ∧ m'.frames = m.frames
  trace : m'.trace = m.trace
  fault : m.nativeFault = true → m'.nativeFault = true

theorem Leaves.refl (o : Op β) (m : Store) : Leaves o m m where
  flags _ _ := rfl
  state _ := rfl
  runs _ := rfl
  generation _ := rfl
  fields _ _ := rfl
  signaled _ _ := rfl
  queue _ := rfl
  frames _ := ⟨rfl, rfl, rfl, rfl⟩
  trace := rfl
  fault := id

theorem Leaves.failed (o : Op β) (m : Store) : Leaves o m { m with nativeFault := true } :=
  { Leaves.refl o m with fault := fun _ => rfl }

theorem Leaves.setEvent {o : Op β} {e : Event} (ho : o.Writes (.event e)) (v : Bool) :
    Leaves o m (m.setEvent e v) :=
  { Leaves.refl o m with signaled := fun e' h => Function.update_of_ne (fun he : e' = e => h (he ▸ ho)) _ _ }

theorem Leaves.native {o : Op β} {γ : Type} {fails : Bool} {failure c : γ} {success : γ × Store}
    (hexec : m.native fails failure success = some (c, m')) (h : Leaves o m success.2) :
    Leaves o m m' := by
  unfold Store.native at hexec
  split at hexec <;> cases hexec
  · exact .failed o m
  · exact h

/-- **An operation leaves what it does not write.** -/
theorem effect_leaves {o : Op β} {b : β} (hexec : m.effect t a β o = some (b, m')) : Leaves o m m' := by
  cases o with
  | exchange f v =>
    cases hexec
    exact { Leaves.refl _ m with
      flags := fun g h => Function.update_of_ne (fun hf : g = f => h (hf ▸ .exchange f v)) _ _ }
  | write f v =>
    cases hexec
    exact { Leaves.refl _ m with
      fields := fun g h => Function.update_of_ne (fun hf : g = f => h (hf ▸ .write f v)) _ _ }
  | storeState s =>
    cases hexec
    exact { Leaves.refl _ m with state := absurd (.storeState s) }
  | compareExchangeState expected desired =>
    rcases effect_compareExchangeState.mp hexec with ⟨-, -, rfl⟩ | ⟨-, -, rfl⟩
    · exact { Leaves.refl _ m with state := absurd (.compareExchangeState expected desired) }
    · exact .refl _ _
  | addRunGeneration =>
    cases hexec
    exact { Leaves.refl _ m with runs := absurd .addRunGeneration }
  | debugInvalidate =>
    cases hexec
    exact { Leaves.refl _ m with generation := absurd .debugInvalidate }
  | signal e => exact .native hexec (.setEvent (.signal e) true)
  | reset e => exact .native hexec (.setEvent (.reset e) false)
  | requestCancel => exact .native hexec { Leaves.refl _ m with trace := rfl }
  | waitAny es =>
    cases b with
    | signaled i =>
      obtain ⟨-, -, -, rfl⟩ := effect_waitAny_signaled.mp hexec
      exact .refl _ _
    | cancelled =>
      obtain ⟨-, -, rfl⟩ := effect_waitAny_cancelled.mp hexec
      exact .refl _ _
    | fault =>
      obtain rfl := effect_waitAny_fault hexec
      exact .failed _ m
  | join =>
    change (if a.fails then some (Status.ioError, { m with nativeFault := true })
      else if m.exited then some (.ok, m) else none) = some (b, m') at hexec
    split at hexec
    · cases hexec
      exact .failed _ m
    · split at hexec <;> cases hexec
      exact .refl _ _
  | lock =>
    obtain ⟨-, rfl⟩ := effect_lock.mp hexec
    exact { Leaves.refl _ m with trace := rfl }
  | unlock | exit =>
    cases hexec
    exact { Leaves.refl _ m with trace := rfl }
  | inputAdmit accepting | inputPush event | inputPop | inputClear =>
    cases hexec
    exact { Leaves.refl _ m with queue := absurd (by constructor) }
  | publishFrame frame | invalidatePublishedFrame | view v | copyFrame =>
    cases hexec
    exact { Leaves.refl _ m with frames := absurd (by constructor) }
  | _ =>
    cases hexec
    exact .refl _ _

/-- What is seen of an operation is what it shows. -/
theorem mem_observe {o : Op β} {b : β} {x : Obs} (hx : x ∈ m.observe t β o b) : o.Shows x := by
  cases o with
  | exchange f v =>
    cases v with
    | false => exact absurd hx List.not_mem_nil
    | true =>
      cases f with
      | mediaRequested => exact List.mem_singleton.mp hx ▸ .requested .media
      | debugRequested => exact List.mem_singleton.mp hx ▸ .requested .debug
      | stateReadRequested => exact List.mem_singleton.mp hx ▸ .requested .stateRead
      | stateWriteRequested => exact List.mem_singleton.mp hx ▸ .requested .stateWrite
      | stopRequested =>
        obtain ⟨-, hx⟩ := List.mem_ite_nil_right.mp hx
        exact List.mem_singleton.mp hx ▸ .stopRaised
      | _ => exact absurd hx List.not_mem_nil
  | loadDebugGeneration =>
    obtain ⟨-, hx⟩ := List.mem_ite_nil_right.mp hx
    exact List.mem_singleton.mp hx ▸ .generationRead b
  | signal e =>
    obtain ⟨⟨-, he⟩, hx⟩ := List.mem_ite_nil_right.mp hx
    exact List.mem_singleton.mp hx ▸ .completed he _
  | inputPush event =>
    obtain ⟨-, hx⟩ := List.mem_ite_nil_right.mp hx
    exact List.mem_singleton.mp hx ▸ .accepted event
  | takeStateReadResult =>
    obtain ⟨s, -, rfl⟩ := List.mem_map.mp hx
    exact .stateReadResult s
  | executeDebug request capacity =>
    rcases List.mem_cons.mp hx with rfl | hx
    · exact .debugRan request capacity _ _ _ _
    · exact List.mem_singleton.mp hx ▸ .debugged request capacity _
  | debugInvalidate | addRunGeneration | publishFrame frame | invalidatePublishedFrame
  | deliverInput event | setRemovableMedia path mode | beginStateRead writer | writeState reader
  | stateSink s run | nextCall | returned call reply | exit =>
    obtain rfl := List.mem_singleton.mp hx
    constructor
  | _ => exact absurd hx List.not_mem_nil

end Store

end Effect

end SoftPC.Machine
