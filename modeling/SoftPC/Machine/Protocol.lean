import SoftPC.Machine.Control

/-!
# Machine/Protocol — what each thread of a machine may do, and when

A phase is what a thread knows of its own past: where the worker is in the life of a run, which
request it has claimed and how far it has come, which input it holds; where the control thread is in
its call.  The protocols below say which operation each phase allows.  They name no store: that the
programs keep to them is a fact about their text (`Machine/Conforms`), and what follows about the
store is proved from the protocols alone (`Machine/Lifecycle` and its siblings).

A native failure ends the protocol (`Move.void`).
-/

namespace SoftPC.Machine

open SoftPC.Threads

/-- A status that only a native failure can spoil. -/
def unlessFailed {Φ : Type} (s : Status) (m : Move Φ) : Move Φ := if s = .ok then m else .void

/-- A step that a phase allows or forbids. -/
def allowIf {Φ : Type} (c : Bool) (m : Move Φ) : Move Φ := if c then m else .reject

@[simp] theorem leads_unlessFailed {Φ : Type} (s : Status) (m : Move Φ) (P : Φ → Prop) :
    (unlessFailed s m).Leads P ↔ (s = .ok → m.Leads P) := by
  unfold unlessFailed
  split <;> simp [*]

@[simp] theorem leads_allowIf {Φ : Type} (c : Bool) (m : Move Φ) (P : Φ → Prop) :
    (allowIf c m).Leads P ↔ c = true ∧ m.Leads P := by
  unfold allowIf
  split <;> simp [*]

@[simp] theorem lands_unlessFailed {Φ : Type} (s : Status) (m : Move Φ) (P : Φ → Prop) :
    (unlessFailed s m).Lands P ↔ (s = .ok → m.Lands P) := by
  unfold unlessFailed
  split <;> simp [*]

@[simp] theorem lands_allowIf {Φ : Type} (c : Bool) (m : Move Φ) (P : Φ → Prop) :
    (allowIf c m).Lands P ↔ (c = true → m.Lands P) := by
  unfold allowIf
  split <;> simp [*]

@[simp] theorem unlessFailed_eq_go {Φ : Type} {s : Status} {m : Move Φ} {φ : Φ} :
    unlessFailed s m = .go φ ↔ s = .ok ∧ m = .go φ := by
  unfold unlessFailed
  split <;> simp [*]

@[simp] theorem allowIf_eq_go {Φ : Type} {c : Bool} {m : Move Φ} {φ : Φ} :
    allowIf c m = .go φ ↔ c = true ∧ m = .go φ := by
  unfold allowIf
  split <;> simp [*]

@[simp] theorem allowIf_eq_void {Φ : Type} {c : Bool} {m : Move Φ} :
    allowIf c m = .void ↔ c = true ∧ m = .void := by
  unfold allowIf
  split <;> simp [*]

theorem unlessFailed_eq_void {Φ : Type} {s : Status} {m : Move Φ} (h : unlessFailed s m = .void) :
    s ≠ .ok ∨ m = .void := by
  unfold unlessFailed at h
  split at h
  · exact .inr h
  · exact .inl ‹_›

/-- The states of a machine without a run. -/
def State.ended (s : State) : Bool := s = .stopped ∨ s = .error

/-! ## The worker -/

/-- How far the start of a cold run has come: the queue is cleared, STARTING is stored, the run is
counted. -/
inductive Renewal where
  | opened | cleared | announced | counted
  deriving DecidableEq

/-- Where the worker is in the life of a run. -/
inductive Place where
  /-- No run: it waits for a command or serves one. -/
  | idle
  /-- It has taken `start_requested`. -/
  | launching
  /-- It found the state changed under it, and gives up. -/
  | misfired
  /-- The state went to RUNNING, and the driver may run. -/
  | live
  /-- The driver has unwound and input is closed. -/
  | unwinding
  /-- The run has ended in public; its requests are being failed. -/
  | closing
  /-- It has taken `reset_requested`. -/
  | turning
  /-- … and ended the run in public: it begins a cold one. -/
  | recycling (r : Renewal)
  /-- It has restored a state, and begins its run. -/
  | restoring (r : Renewal)
  /-- It has left its loop. -/
  | leaving
  | gone
  deriving DecidableEq

/-- The places where `finish_requests` fails what is still requested. -/
def Place.finishing : Place → Bool
  | .closing | .recycling _ | .leaving => true
  | _ => false

/-- How far a claimed request has come: the driver operation may have been refused for now or
executed, and the outcome recorded.  A `restored` state write has succeeded and starts a run. -/
inductive Stage where
  | claimed
  | refused
  | executed (o : Outcome)
  | restored
  | recorded
  deriving DecidableEq

/-- How far the service of a state read has come. -/
inductive Reading where
  | none
  /-- Armed by this service: the driver has yet to begin. -/
  | arming
  /-- Armed, and begun or answered. -/
  | following
  | got (s : Status)
  | recorded
  deriving DecidableEq

/-- What the worker has read since it claimed a debug request. -/
structure Checks where
  state : Option State := none
  pause : Bool := false
  lease : Option UInt64 := none
  generation : Option UInt32 := none
  deriving DecidableEq

/-- The lease, the state and the pause request all allow a debug request to execute. -/
def Checks.passed (c : Checks) : Bool :=
  c.state == some .paused && c.pause && c.generation.isSome && c.lease == c.generation.map UInt32.toUInt64

/-- What the worker knows. -/
structure WorkerPhase where
  place : Place := .idle
  /-- It holds `request_lock`. -/
  locked : Bool := false
  /-- Its last word on admission. -/
  admits : Bool := false
  /-- The input it has popped and not delivered. -/
  hand : Option InputEvent := none
  owes : Option (Kind × Stage) := none
  reading : Reading := .none
  /-- `state_read_requested` was set when last read: only the worker clears it. -/
  requested : Bool := false
  /-- `state_read_ready` was clear when last read. -/
  unready : Bool := false
  /-- The state read it is about to complete has an outcome. -/
  mayComplete : Bool := false
  checks : Checks := {}
  /-- The states it has read since it left its loop. -/
  seen : List State := []
  /-- `state_read_armed` and `state_read_ready`, which only the worker writes, as it left them. -/
  armed : Bool := false
  ready : Bool := false
  /-- `restored_start_requested`, likewise. -/
  staged : Bool := false
  /-- It has taken `restored_start_requested`. -/
  restored : Bool := false
  /-- `stop_requested` was set when last read. -/
  sawStop : Bool := false
  /-- It has invalidated the published frame, and published none since. -/
  hid : Bool := false

namespace WorkerPhase

variable (w : WorkerPhase)

def onLoad (f : Flag) (b : Bool) : Move WorkerPhase :=
  match f with
  | .terminateRequested =>
    if w.place = .idle ∧ w.locked = false ∧ b then .go { w with place := .leaving } else .go w
  | .stopRequested => .go { w with sawStop := b }
  | .pauseRequested => .go { w with checks.pause := b }
  | .stateReadRequested => .go { w with requested := b }
  | .stateReadReady => .go { w with unready := !b, mayComplete := b }
  | _ => .go w

/-- The claim of a request. -/
def claim (k : Kind) (b : Bool) : Move WorkerPhase :=
  if b then
    allowIf (w.owes = none) (.go { w with owes := some (k, .claimed), checks := {} })
  else .go w

def onExchange (f : Flag) (v b : Bool) : Move WorkerPhase :=
  match f, v with
  | .debugCancelRequested, false => .go w
  | .pauseRequested, _ => .go { w with checks := {} }
  | .stopRequested, true => allowIf (w.place = .live) (.go w)
  | .stopRequested, false =>
    match w.place with
    | .recycling _ | .restoring _ => .go w
    | _ => .reject
  | .startRequested, false =>
    allowIf (w.place = .idle ∧ w.owes = none ∧ w.staged = false) <|
      if b then .go { w with place := .launching } else .go w
  | .startRequested, true =>
    allowIf ((w.place = .recycling .counted ∨ w.place = .restoring .counted) ∧ w.owes = none)
      (.go { w with place := .idle })
  | .resetRequested, false =>
    match w.place with
    | .unwinding => if b then .go { w with place := .turning } else .go w
    | .live => .go w
    | _ => .reject
  | .resetActive, false => .go w
  | .terminateRequested, true => allowIf (w.place = .leaving) (.go w)
  | .mediaRequested, false => w.claim .media b
  | .debugRequested, false => w.claim .debug b
  | .stateWriteRequested, false => w.claim .stateWrite b
  | .stateWriteWaiting, false =>
    if b then
      allowIf ((w.owes = none ∨ w.owes = some (.stateWrite, .claimed)) ∧
          (w.place = .live ∨ w.place.finishing))
        (.go { w with owes := some (.stateWrite, .recorded), restored := false })
    else .go w
  | .stateWriteWaiting, true =>
    allowIf (w.place = .restoring .counted ∧ w.owes = some (.stateWrite, .restored))
      (.go { w with owes := none })
  | .restoredStartRequested, false =>
    allowIf (w.place = .idle) (.go { w with restored := b, staged := false })
  | .restoredStartRequested, true =>
    allowIf (w.place = .restoring .counted) (.go { w with staged := true })
  | .stateReadRequested, false =>
    if b then
      allowIf (w.mayComplete ∧ w.owes = none)
        (.go { w with owes := some (.stateRead, .recorded), reading := .none, requested := false })
    else .go { w with reading := .none, requested := false }
  | .stateReadArmed, true =>
    allowIf (w.place = .live ∧ w.owes = none ∧ w.requested)
      (.go { w with reading := if b then .following else .arming, armed := true })
  | .stateReadArmed, false =>
    allowIf (w.owes = some (.stateRead, .recorded)) (.go { w with armed := false })
  | .stateReadReady, true =>
    allowIf (w.reading = .recorded)
      (.go { w with reading := .following, unready := false, ready := true })
  | .stateReadReady, false =>
    allowIf (w.owes = some (.stateRead, .recorded)) (.go { w with ready := false })
  | _, _ => .reject

def onStoreState (s : State) : Move WorkerPhase :=
  match w.place with
  | .launching | .unwinding =>
    allowIf (s = .stopped ∨ s = .error) (.go { w with place := .closing, checks := {} })
  | .live => allowIf (s = .error ∧ w.hand = none) (.go { w with checks := {} })
  | .turning =>
    allowIf (s = .starting ∨ s = .error) (.go { w with place := .recycling .opened, checks := {} })
  | .recycling .cleared =>
    allowIf (s = .starting) (.go { w with place := .recycling .announced, checks := {} })
  | .restoring .cleared =>
    allowIf (s = .starting) (.go { w with place := .restoring .announced, checks := {} })
  | .leaving => allowIf (s ∈ w.seen) (.go w)
  | _ => .reject

def onCompareExchange (expected desired : State) (b : Bool) : Move WorkerPhase :=
  match w.place with
  | .launching =>
    allowIf (expected = .starting ∧ desired = .running)
      (.go { w with place := if b then .live else .misfired, checks := {} })
  | .live =>
    allowIf ((expected = .running ∨ expected = .paused) ∧
        (desired = .running ∨ desired = .paused) ∧ w.hand = none)
      (.go { w with checks := {} })
  | _ => .reject

def onInvalidate : Move WorkerPhase :=
  match w.place with
  | .unwinding | .recycling _ => .go { w with checks := {} }
  | .idle =>
    allowIf (w.owes = some (.stateWrite, .restored))
      (.go { w with place := .restoring .opened, checks := {} })
  | _ => .reject

/-- The outcome of the claimed request is recorded. -/
def record (k : Kind) (stage : Stage) (ok : Bool) : Move WorkerPhase :=
  allowIf ok (.go { w with owes := some (k, stage) })

def onWriteStateStatus (s : Status) : Move WorkerPhase :=
  match w.owes, w.reading with
  | some (.stateWrite, .claimed), _ =>
    w.record .stateWrite .recorded (s = .unsupported ∨ s = .ioError)
  | some (.stateWrite, .executed o), _ =>
    w.record .stateWrite (if s = .ok then .restored else .recorded) (o = .status s)
  | some (.stateWrite, .recorded), _ => w.record .stateWrite .recorded (s = .ioError)
  | none, .got s' => allowIf (s = s') (.go { w with reading := .recorded })
  | none, .arming => allowIf (s = .unsupported) (.go { w with reading := .recorded })
  | none, .none | none, .following =>
    if s = .ioError then allowIf w.requested (.go { w with mayComplete := true })
    else allowIf (s = .ok ∧ w.restored ∧ w.place = .launching) (.go { w with restored := false })
  | _, _ => .reject

def onWrite (f : Field) (v : f.type) : Move WorkerPhase :=
  match f, v with
  | .mediaSucceeded, b =>
    match w.owes with
    | some (.media, .claimed) => w.record .media .recorded (b = false)
    | some (.media, .executed o) => w.record .media .recorded (o = .media b)
    | _ => .reject
  | .debugStatus, s =>
    match w.owes with
    | some (.debug, .claimed) =>
      w.record .debug (if s = .invalidState then .refused else .recorded)
        (s = .invalidState ∨ s = .ioError)
    | some (.debug, .refused) => w.record .debug .recorded (s = .ioError)
    | some (.debug, .executed o) => w.record .debug .recorded (o = .status s)
    | some (.debug, .recorded) => w.record .debug .recorded (s = .ioError)
    | _ => .reject
  | .stateStatus, s => w.onWriteStateStatus s
  | .debugResponse, _ | .debugResponseSize, _ => .go w
  | _, _ => .reject

def onRead (f : Field) (v : f.type) : Move WorkerPhase :=
  match f, v with
  | .debugLease, l => .go { w with checks.lease := some l }
  | _, _ => .go w

/-- A completion event is signalled for a claimed request that has its outcome; a state read leaves
nothing armed behind. -/
def onSignal (e : Event) : Move WorkerPhase :=
  match e, w.owes with
  | .command, _ => .go w
  | .resume, _ => .reject
  | e, some (k, .recorded) =>
    allowIf (k.event = e ∧ (k = .stateRead → w.armed = false ∧ w.ready = false))
      (.go { w with owes := none })
  | .debug, some (.debug, .refused) => .go { w with owes := none }
  | _, _ => .reject

def onWait (r : WaitResult) : Move WorkerPhase :=
  match r with
  | .signaled _ => .go w
  | .cancelled => if w.place = .idle then .go { w with place := .leaving } else .go w
  | .fault => .void

def onClear : Move WorkerPhase :=
  match w.place with
  | .recycling .opened => .go { w with place := .recycling .cleared }
  | .restoring .opened => .go { w with place := .restoring .cleared }
  | _ => .reject

def onCount : Move WorkerPhase :=
  match w.place with
  | .recycling .announced => allowIf w.hid (.go { w with place := .recycling .counted })
  | .restoring .announced => allowIf w.hid (.go { w with place := .restoring .counted })
  | _ => .reject

def onUninstall : Move WorkerPhase :=
  match w.place with
  | .live => allowIf (w.admits = false ∧ w.hand = none) (.go { w with place := .unwinding })
  | .misfired => .go { w with place := .leaving }
  | _ => .reject

def onExecute (k : Kind) (o : Outcome) : Move WorkerPhase :=
  allowIf (w.owes = some (k, .claimed)) (.go { w with owes := some (k, .executed o) })

/-- What each operation does to the worker's phase. -/
def act : ∀ β : Type, Op β → β → Move WorkerPhase
  | _, .load f, b => w.onLoad f b
  | _, .exchange f v, b => w.onExchange f v b
  | _, .loadState, s => .go { w with
      checks.state := some s
      seen := if w.place = .leaving then s :: w.seen else w.seen }
  | _, .storeState s, _ => w.onStoreState s
  | _, .compareExchangeState expected desired, b => w.onCompareExchange expected desired b
  | _, .debugInvalidate, _ => w.onInvalidate
  | _, .loadDebugGeneration, g => .go { w with checks.generation := some g }
  | _, .addRunGeneration, _ => w.onCount
  | _, .loadRunGeneration, _ => .go w
  | _, .read f, v => w.onRead f v
  | _, .write f v, _ => w.onWrite f v
  | _, .lock, _ => .go { w with locked := true }
  | _, .unlock, _ => .go { w with
      locked := false
      place := if w.place = .closing then .idle else w.place }
  | _, .signal e, s => unlessFailed s (w.onSignal e)
  | _, .reset e, s => unlessFailed s (allowIf (e = .command ∨ e = .resume) (.go w))
  | _, .waitAny _, r => w.onWait r
  | _, .exit, _ => allowIf (w.place = .leaving) (.go { w with place := .gone })
  | _, .inputAdmit b, _ => allowIf (b = false ∨ w.place = .live) (.go { w with admits := b })
  | _, .inputPop, e =>
    allowIf (w.place = .live ∧ w.hand = none ∧ w.checks.state = some .running)
      (.go { w with hand := e })
  | _, .inputPending, _ => .go w
  | _, .inputClear, _ => w.onClear
  | _, .deliverInput e, _ => allowIf (w.hand = some e) (.go { w with hand := none })
  | _, .setExecutorCallback false, _ => w.onUninstall
  | _, .setRemovableMedia _ _, b => w.onExecute .media (.media b)
  | _, .beginStateRead _, s =>
    allowIf (w.reading = .arming) (.go { w with reading := if s = .ok then .following else .got s })
  | _, .takeStateReadResult, r =>
    allowIf (w.reading = .following ∧ w.unready ∧ w.owes = none)
      (.go { w with reading := match r with | some s => .got s | none => .following })
  | _, .writeState _, s => allowIf (w.place = .idle) (w.onExecute .stateWrite (.status s))
  | _, .executeDebug _ _, r =>
    allowIf (w.owes = some (.debug, .refused) ∧ w.checks.passed)
      (.go { w with owes := some (.debug, .executed (.status r.1)) })
  | _, .stateSink s _, _ => allowIf (s.ended ∨ (w.place = .live ∧ w.sawStop = false)) (.go w)
  | _, .publishFrame _, _ => allowIf (w.place = .live) (.go { w with hid := false })
  | _, .invalidatePublishedFrame, _ => .go { w with hid := true }
  | _, .setExecutorCallback true, _ | _, .driverReset, _ | _, .driverRun, _ | _, .requestStop, _
  | _, .requestWake, _ | _, .setHeartbeat _, _ | _, .copyFrame, _ | _, .consoleStatusSource, _
  | _, .framePublished, _ | _, .takeDebugStop, _ | _, .cancelDebug, _
  | _, .frameSink _ _ _, _ => .go w
  | _, .requestCancel, _ | _, .join, _ | _, .inputPush _, _ | _, .nextCall, _
  | _, .returned _ _, _ | _, .nextInput, _ | _, .view _, _ | _, .nextView, _ => .reject

/-- The worker's protocol.  Only the field that a completion clears on its way may be written
between finding a state read's outcome and taking the request. -/
def next : Protocol Op WorkerPhase
  | _, w, .write .stateReadContinuing _, _ => .go w
  | _, w, .exchange .stateReadRequested v, b => w.onExchange .stateReadRequested v b
  | β, w, o, b => act { w with mayComplete := false } β o b

theorem next_write {f : Field} {v : f.type} (hf : f ≠ .stateReadContinuing) :
    next Unit w (.write f v) () = onWrite { w with mayComplete := false } f v := by
  cases f <;> first | rfl | exact absurd rfl hf

/-! A step, computed. -/

namespace Stepping

attribute [scoped simp] next act onLoad claim onExchange onStoreState onCompareExchange onInvalidate
  record onWriteStateStatus onWrite onRead onSignal onWait onClear onCount onUninstall onExecute

end Stepping

end WorkerPhase

/-! ## The control thread -/

/-- Where the control thread is in its call. -/
inductive Stand where
  | idle
  /-- It has found the machine STOPPED. -/
  | sawStopped
  /-- It begins a cold run. -/
  | cold (r : Renewal)
  /-- It has found the worker not terminating. -/
  | submitting
  /-- … and reset the completion event. -/
  | armed (e : Event)
  | waiting (k : Kind)
  | answered (k : Kind)
  /-- It has raised `terminate_requested`, and joins the worker. -/
  | shutting
  deriving DecidableEq

/-- What the control thread knows. -/
structure ControlPhase where
  stand : Stand := .idle
  /-- Under the lock of its request it has found the machine STOPPED. -/
  foundStopped : Bool := false
  /-- The debug generation it has read in this call. -/
  generation : Option UInt32 := none
  /-- The outcome it has read in this call. -/
  outcome : Option Outcome := none
  /-- It has invalidated the published frame since it found the machine STOPPED. -/
  hid : Bool := false

/-- The field that holds the outcome of a request. -/
def Kind.field : Kind → Field
  | .media => .mediaSucceeded
  | .debug => .debugStatus
  | .stateRead => .stateStatus
  | .stateWrite => .stateStatus

/-- The reply returns an outcome. -/
def Reply.returns : Reply → Outcome → Bool
  | .bool b, .media b' => b = b'
  | .status s, .status s' => s = s'
  | .debug s _ _, .status s' => s = s'
  | _, _ => false

/-- **A failed debug call leaves the caller's response alone and reports no bytes.** -/
def Reply.spares (call : Call) (reply : Reply) : Bool :=
  match call, reply with
  | .debugExecute c, .debug s response size =>
    s = .ok ∨ (response = c.response ∧ size = if c.reportsSize then some 0 else none)
  | .debugExecute _, _ => false
  | _, _ => true

namespace ControlPhase

variable (c : ControlPhase)

def onLoad (f : Flag) (b : Bool) : Move ControlPhase :=
  match f with
  | .terminateRequested =>
    allowIf (c.stand = .idle) <|
      if b then .go c else .go { c with stand := .submitting, foundStopped := false }
  | _ => .reject

def onLoadState (s : State) : Move ControlPhase :=
  match c.stand with
  | .idle | .sawStopped => .go { c with stand := if s = .stopped then .sawStopped else .idle }
  | .submitting => .go { c with foundStopped := s = .stopped }
  | _ => .reject

def onExchange (f : Flag) (v : Bool) : Move ControlPhase :=
  match f, v, c.stand with
  | .pauseRequested, _, .idle | .pauseRequested, _, .cold _ => .go c
  | .stopRequested, true, .idle => .go c
  | .stopRequested, false, .cold _ => .go c
  | .resetRequested, true, .idle => .go c
  | .resetActive, _, .idle | .resetActive, _, .sawStopped => .go c
  | .debugCancelRequested, true, .idle => .go c
  | .startRequested, true, .cold .counted => .go { c with stand := .idle }
  | .terminateRequested, true, .idle | .terminateRequested, true, .sawStopped =>
    .go { c with stand := .shutting }
  | .mediaRequested, true, .armed .media => .go { c with stand := .waiting .media }
  | .debugRequested, true, .armed .debug => .go { c with stand := .waiting .debug }
  | .stateReadRequested, true, .armed .state => .go { c with stand := .waiting .stateRead }
  | .stateWriteRequested, true, .armed .state =>
    allowIf c.foundStopped (.go { c with stand := .waiting .stateWrite })
  | _, _, _ => .reject

def onInvalidate : Move ControlPhase :=
  match c.stand with
  | .idle => .go c
  | .sawStopped => .go { c with stand := .cold .opened, hid := false }
  | _ => .reject

/-- The reading of a field: the outcome, once the request is answered. -/
def onRead (f : Field) (v : f.type) : Move ControlPhase :=
  match c.stand, f, v with
  | .answered .media, .mediaSucceeded, b => .go { c with outcome := some (.media b) }
  | .answered .debug, .debugStatus, s => .go { c with outcome := some (.status s) }
  | .answered .stateRead, .stateStatus, s => .go { c with outcome := some (.status s) }
  | .answered .stateWrite, .stateStatus, s => .go { c with outcome := some (.status s) }
  | _, _, _ => .go c

def onWrite (f : Field) : Move ControlPhase :=
  match f, c.stand with
  | .mediaPath, .idle | .mediaMode, .idle | .stateWriter, .idle | .stateReader, .idle
  | .debugRequest, .idle | .debugResponseCapacity, .idle | .debugLease, .idle
  | .worker, .idle => .go c
  | _, _ => .reject

def onSignal (e : Event) : Move ControlPhase :=
  match e, c.stand with
  | .command, .idle | .command, .waiting _ | .command, .shutting => .go c
  | .resume, .idle | .resume, .shutting => .go c
  | _, _ => .reject

def onReset (e : Event) : Move ControlPhase :=
  match e, c.stand with
  | .media, .submitting | .debug, .submitting | .state, .submitting =>
    .go { c with stand := .armed e }
  | _, _ => .reject

def onWait (es : List Event) (r : WaitResult) : Move ControlPhase :=
  match c.stand, r with
  | .waiting k, .signaled _ => allowIf (es = [k.event]) (.go { c with stand := .answered k })
  -- Only a shutdown cancels the worker's task.
  | .waiting _, _ => .void
  | _, _ => .reject

/-- The call may return this: a request its outcome, an acquired lease the generation it read. -/
def mayReturn (call : Call) (reply : Reply) : Bool :=
  reply.spares call &&
  (match c.stand with
    | .idle | .sawStopped | .submitting => true
    | .answered _ => c.outcome.any reply.returns
    | _ => false) &&
  (match call, reply with
    | .debugAcquire, .lease .ok l => c.generation.any fun g => l = g.toUInt64
    | _, _ => true)

/-- The control thread's protocol. -/
def next : Protocol Op ControlPhase
  | _, c, .load f, b => c.onLoad f b
  | _, c, .exchange f v, _ => c.onExchange f v
  | _, c, .loadState, s => c.onLoadState s
  | _, c, .storeState s, _ =>
    match c.stand with
    | .cold .cleared => allowIf (s = .starting) (.go { c with stand := .cold .announced })
    | _ => .reject
  | _, c, .debugInvalidate, _ => c.onInvalidate
  | _, c, .loadDebugGeneration, g => .go { c with generation := some g }
  | _, c, .addRunGeneration, _ =>
    allowIf (c.stand = .cold .announced ∧ c.hid) (.go { c with stand := .cold .counted })
  | _, c, .read f, v => c.onRead f v
  | _, c, .write f _, _ => c.onWrite f
  | _, c, .lock, _ | _, c, .unlock, _ => .go c
  | _, c, .signal e, s => unlessFailed s (c.onSignal e)
  | _, c, .reset e, s => unlessFailed s (c.onReset e)
  | _, c, .waitAny es, r => c.onWait es r
  | _, c, .requestCancel, s => unlessFailed s (allowIf (c.stand = .shutting) (.go c))
  | _, c, .join, s =>
    unlessFailed s (allowIf (c.stand = .shutting) (.go { c with stand := .idle }))
  | _, c, .inputAdmit b, _ =>
    match c.stand with
    | .cold _ => allowIf (b = false) (.go c)
    | _ => .reject
  | _, c, .inputClear, _ =>
    match c.stand with
    | .cold .opened => .go { c with stand := .cold .cleared }
    | _ => .reject
  | _, c, .invalidatePublishedFrame, _ => .go { c with hid := true }
  | _, c, .requestStop, _ | _, c, .requestWake, _ => .go c
  | _, c, .nextCall, _ => allowIf (c.stand = .idle) (.go {})
  | _, c, .returned call reply, _ => allowIf (c.mayReturn call reply) (.go {})
  | _, _, _, _ => .reject

end ControlPhase

/-! ## The other threads -/

/-- The protocol of an input producer. -/
def producerNext : Protocol Op Unit
  | _, _, .nextInput, _ | _, _, .inputPush _, _ | _, _, .requestWake, _ => .go ()
  | _, _, _, _ => .reject

/-- The protocol of a thread that cancels debug plans. -/
def cancellerNext : Protocol Op Unit
  | _, _, .exchange .debugCancelRequested true, _ | _, _, .requestWake, _ => .go ()
  | _, _, .signal .command, s => unlessFailed s (.go ())
  | _, _, _, _ => .reject

/-- The protocol of a consumer of published frames. -/
def viewerNext : Protocol Op Unit
  | _, _, .nextView, _ | _, _, .view _, _ => .go ()
  | _, _, _, _ => .reject

/-- What an input producer does. -/
inductive Produces : ∀ {β : Type}, Op β → Prop
  | nextInput : Produces .nextInput
  | inputPush (event : InputEvent) : Produces (.inputPush event)
  | requestWake : Produces .requestWake

theorem producerNext_produces {β : Type} {o : Op β} {b : β} {move : Move Unit}
    (h : producerNext β () o b = move) (hmove : move ≠ .reject) : Produces o := by
  cases o with
  | nextInput => exact .nextInput
  | inputPush event => exact .inputPush event
  | requestWake => exact .requestWake
  | _ => exact absurd h.symm hmove

/-- What a thread does that cancels debug plans. -/
inductive Cancels : ∀ {β : Type}, Op β → Prop
  | exchange : Cancels (.exchange .debugCancelRequested true)
  | signal : Cancels (.signal .command)
  | requestWake : Cancels .requestWake

theorem cancellerNext_cancels {β : Type} {o : Op β} {b : β} {move : Move Unit}
    (h : cancellerNext β () o b = move) (hmove : move ≠ .reject) : Cancels o := by
  cases o with
  | exchange f v =>
    cases f with
    | debugCancelRequested =>
      cases v with
      | true => exact .exchange
      | false => exact absurd h.symm hmove
    | _ => exact absurd h.symm hmove
  | signal e =>
    cases e with
    | command => exact .signal
    | _ => exact absurd h.symm hmove
  | requestWake => exact .requestWake
  | _ => exact absurd h.symm hmove

/-- What a consumer of published frames does. -/
inductive Views : ∀ {β : Type}, Op β → Prop
  | nextView : Views .nextView
  | view (v : Viewing) : Views (.view v)

theorem viewerNext_views {β : Type} {o : Op β} {b : β} {move : Move Unit}
    (h : viewerNext β () o b = move) (hmove : move ≠ .reject) : Views o := by
  cases o with
  | nextView => exact .nextView
  | view v => exact .view v
  | _ => exact absurd h.symm hmove

/-- The phase of each thread. -/
@[reducible] def Phase : Tid → Type
  | .control => ControlPhase
  | .worker => WorkerPhase
  | .producer _ | .canceller _ | .viewer _ => Unit

/-- The protocol of each thread. -/
def next : ∀ t, Protocol Op (Phase t)
  | .control => ControlPhase.next
  | .worker => WorkerPhase.next
  | .producer _ => producerNext
  | .canceller _ => cancellerNext
  | .viewer _ => viewerNext

end SoftPC.Machine
