import SoftPC.System.Timer

/-!
# System/TimerSnapshot — the 8253 restored from a snapshot

`softpc_device_snapshot_restore_pit` of `base/system/timer.c`.  The state functions and actions are
archived as numbers and the activation time as an age; a counter is written field by field once its
first checks have passed, and the actions are looked up last.

The pointer to the archived state is never null here.  What a counter keeps of an integer flag is
whether it is nonzero.
-/

namespace SoftPC.Timer

/-- `softpc_device_pit_counter_state`, without the value of `clk`. -/
structure CounterState where
  mode : ℤ := 0
  bcd : ℤ := 0
  readLoad : ℤ := 0
  state : BitVec 32 := 1
  statePriorWait : BitVec 32 := 0
  stateOnGate : BitVec 32 := 0
  actionOnWaitComplete : BitVec 32 := 0
  actionOnGateEnabled : BitVec 32 := 0
  outputLsb : BitVec 8 := 0
  outputMsb : BitVec 8 := 0
  latchValueLsb : BitVec 8 := 0
  latchValueMsb : BitVec 8 := 0
  latchStatus : BitVec 8 := 0
  initialCount : BitVec 32 := 0x10000
  readState : ℤ := 0
  countLatched : ℤ := 0
  count : BitVec 16 := 0
  newCount : BitVec 16 := 0
  tickAdjust : BitVec 16 := 0
  activationAge : ℤ := 0
  terminalCount : ℤ := 0
  freezeCounter : ℤ := 0
  lastTicks : BitVec 32 := 0
  microtick : BitVec 32 := 0
  timeFrig : BitVec 32 := 0
  savedCount : BitVec 16 := 0
  guessesPerHostTick : BitVec 32 := 2
  guessesSoFar : BitVec 32 := 2
  delay : BitVec 32 := 0
  trigger : ℤ := 0
  gate : BitVec 16 := 0
  waveformLow : BitVec 32 := 0
  waveformHigh : BitVec 32 := 0
  waveformPeriod : BitVec 32 := 0
  waveformStartLevel : BitVec 32 := 0
  waveformRepeats : BitVec 32 := 0

/-- `softpc_device_pit_state`. -/
structure PitState where
  counter : Fin 3 → CounterState := fun _ => {}
  currentCounter : ℤ := 0
  ticksBlocked : BitVec 32 := 0
  timerInterruptEnabled : ℤ := 0
  timeLock : ℤ := 0
  needTick : ℤ := 0
  hackActive : ℤ := 0
  tooSoonAfterPrevious : ℤ := 0
  ticksLostThisTime : ℤ := 0
  maximumBacklog : BitVec 32 := 0
  moreTimerMultiple : BitVec 32 := 0
  timerMultipleDelay : BitVec 32 := 0
  activeInterruptEvent : ℤ := 0

/-! ## Numbers for functions -/

def Mode.ofSaved : ℤ → Option Mode
  | 0 => some .intOnTerminalCount
  | 1 => some .progOneshot
  | 2 => some .rateGen
  | 3 => some .squarewaveGen
  | 4 => some .swTrigStrobe
  | 5 => some .hwTrigStrobe
  | _ => none

def Access.ofSaved : ℤ → Option Access
  | 0 => some .latch
  | 1 => some .lsb
  | 2 => some .msb
  | 3 => some .lmsb
  | _ => none

def CountLoad.ofSaved : BitVec 16 → Option CountLoad
  | 0 => some .available
  | 1 => some .used
  | _ => none

def TrigCond.ofSaved : ℤ → Option TrigCond
  | 0 => some .level
  | 1 => some .edge
  | _ => none

def bcdOfSaved : ℤ → Option Bool
  | 0 => some false
  | 1 => some true
  | _ => none

def ReadState.ofSaved : ℤ → ReadState
  | 0 => .unread
  | 1 => .readMsb
  | 2 => .readStatus
  | _ => .other

/-- `snapshot_timer_state_function`. -/
def StateFn.ofSaved : BitVec 32 → Option StateFn
  | 1 => some .uninit
  | 2 => some .awaitingGate
  | 3 => some .waitingFor1stWrite
  | 4 => some .waitingFor2ndWrite
  | 5 => some .counting0
  | 6 => some .counting1
  | 7 => some .counting23
  | 8 => some .counting45
  | _ => none

/-- A state that may be missing: 0 stands for the null pointer. -/
def StateFn.orNull (id : BitVec 32) : Option (Option StateFn) :=
  if id = 0 then some none else (StateFn.ofSaved id).map some

/-- `snapshot_restore_timer_wait_action`; `some none` is the null pointer. -/
def WtAction.ofSaved : BitVec 32 → Option (Option WtAction)
  | 0 => some none
  | 1 => some (some .counterBufferLoaded)
  | 2 => some (some .timererror)
  | 3 => some (some .resumeAwaitGate)
  | 4 => some (some .resumeCounting0)
  | 6 => some (some .resumeCounting15)
  | 7 => some (some .resumeCounting234)
  | _ => none

/-- `snapshot_restore_timer_gate_action`. -/
def GateAction.ofSaved : BitVec 32 → Option (Option GateAction)
  | 0 => some none
  | 1 => some (some .counterBufferLoaded)
  | 5 => some (some .resumeCounting0onGate)
  | 6 => some (some .resumeCounting15)
  | 8 => some (some .resumeCounting234onGate)
  | 9 => some (some .startCounting)
  | _ => none

/-! ## One counter -/

/-- What passes the first checks of `snapshot_restore_timer_counter`. -/
structure Checked where
  m : Mode
  bcd : Bool
  rl : Access
  newCount : CountLoad
  trigger : TrigCond
  state : StateFn
  stateOnGate : Option StateFn

namespace CounterState

variable (saved : CounterState)

/-- The checks made before anything is assigned. -/
def checked : Option Checked := do
  let m ← Mode.ofSaved saved.mode
  let bcd ← bcdOfSaved saved.bcd
  let rl ← Access.ofSaved saved.readLoad
  let newCount ← CountLoad.ofSaved saved.newCount
  let trigger ← TrigCond.ofSaved saved.trigger
  let state ← StateFn.ofSaved saved.state
  let _ ← StateFn.orNull saved.statePriorWait
  let stateOnGate ← StateFn.orNull saved.stateOnGate
  return { m, bcd, rl, newCount, trigger, state, stateOnGate }

/-- The fields assigned, all but the actions and the activation time. -/
def assign (c : Checked) (old : Counter) : Counter where
  m := c.m
  bcd := c.bcd
  rl := c.rl
  state := some c.state
  stateOnGate := c.stateOnGate
  actionOnWtComplete := old.actionOnWtComplete
  actionOnGateEnabled := old.actionOnGateEnabled
  outblsb := saved.outputLsb
  outbmsb := saved.outputMsb
  initialCount := saved.initialCount
  readState := ReadState.ofSaved saved.readState
  countlatched := saved.countLatched ≠ 0
  latchvaluelsb := saved.latchValueLsb
  latchvaluemsb := saved.latchValueMsb
  latchstatus := saved.latchStatus
  newCount := c.newCount
  freezeCounter := saved.freezeCounter ≠ 0
  delay := saved.delay
  trigger := c.trigger
  gate := saved.gate.setWidth 8
  out :=
    { clocksAtLo := saved.waveformLow, clocksAtHi := saved.waveformHigh, period := saved.waveformPeriod,
      startLogicLevel := saved.waveformStartLevel, repeatWaveForm := saved.waveformRepeats }
  count := saved.count
  tickadjust := saved.tickAdjust
  activationTime := old.activationTime
  tc := saved.terminalCount ≠ 0
  lastTicks := saved.lastTicks
  microtick := saved.microtick
  timeFrig := saved.timeFrig
  saveCount := saved.savedCount
  guessesPerHostTick := saved.guessesPerHostTick
  guessesSoFar := saved.guessesSoFar

end CounterState

namespace Pcu

variable {ch : Fin 3} (u : Pcu ch)

/-- `snapshot_timer_rebase`. -/
def rebase (age : ℤ) : Pcu ch :=
  let now := u.time
  let age := max age 0
  let sec := now.sec - (BitVec.ofInt 32 (age / 1000000)).toInt
  let usec := now.usec - age % 1000000
  { u.timeRead with
    activationTime := if usec < 0 then { sec := sec - 1, usec := usec + 1000000 } else { sec, usec } }

/-- The tail of `snapshot_restore_timer_counter`. -/
def restoreActions (saved : CounterState) : Bool × Pcu ch :=
  match WtAction.ofSaved saved.actionOnWaitComplete with
  | none => (false, u)
  | some wt =>
    let u : Pcu ch := { u with actionOnWtComplete := wt }
    match GateAction.ofSaved saved.actionOnGateEnabled with
    | none => (false, u)
    | some gate =>
      let u : Pcu ch := { u with actionOnGateEnabled := gate }
      (true, u.rebase saved.activationAge)

/-- `snapshot_restore_timer_counter`. -/
def restore (saved : CounterState) : Bool × Pcu ch :=
  match saved.checked with
  | none => (false, u)
  | some c => { u with toCounter := saved.assign c u.toCounter }.restoreActions saved

end Pcu

/-! ## The chip -/

namespace Pit

/-- The counters, one after the other until one is refused. -/
def restoreCounters (saved : Fin 3 → CounterState) : List (Fin 3) → Pit → Bool × Pit
  | [], p => (true, p)
  | ch :: chs, p =>
    let r := (p.pcu ch).restore (saved ch)
    if r.1 then restoreCounters saved chs (p.put r.2) else (false, p.put r.2)

/-- The globals, and `host_timer2_waveform` told of what counter 2 puts out. -/
def restoreGlobals (p : Pit) (saved : PitState) : Pit :=
  let c := p.timers 2
  { p with
    ticksBlocked := saved.ticksBlocked
    timerIntEnabled := saved.timerInterruptEnabled ≠ 0
    timelock := saved.timeLock = -1
    needtick := saved.needTick ≠ 0
    hackActive := saved.hackActive ≠ 0
    tooSoonAfterPrevious := saved.tooSoonAfterPrevious ≠ 0
    ticksLostThisTime := saved.ticksLostThisTime ≠ 0
    maxBacklog := saved.maximumBacklog
    moreTimerMult := saved.moreTimerMultiple
    timerMultipleDelay := saved.timerMultipleDelay
    activeIntEvent := saved.activeInterruptEvent ≠ 0
    calls := .timer2Waveform c.delay c.out.clocksAtLo c.out.clocksAtHi c.out.startLogicLevel
      c.out.repeatWaveForm :: p.calls }

/-- `softpc_device_snapshot_restore_pit`. -/
def restore (p : Pit) (saved : PitState) : Bool × Pit :=
  if saved.currentCounter < 0 ∨ 3 ≤ saved.currentCounter then (false, p)
  else
    let r := restoreCounters saved.counter [0, 1, 2] p
    if r.1 then (true, r.2.restoreGlobals saved) else r

end Pit

/-- What happens to the chip: the guest's accesses, its gates, the ideal time's ticks, the callbacks of
the quick events, and `axe_ticks`; and a restore. -/
inductive Op
  | outb (port : Option (Fin 3)) (value : BitVec 8)
  | inb (ch : Fin 3)
  | gate (ch : Fin 3) (value : BitVec 8)
  | tick
  | multipleInts (numInts : BitVec 32)
  | noLongerTooSoon
  | axeTicks (ticks : BitVec 32)
  | restore (saved : PitState)

def Pit.step (p : Pit) : Op → Except Fault Pit
  | .outb port value => p.outb port value
  | .inb ch => do
    let r ← p.inb ch
    return r.2
  | .gate ch value => p.gate ch value
  | .tick => p.timeTick
  | .multipleInts numInts => p.multipleInts numInts
  | .noLongerTooSoon => .ok { p with toGlobals := p.timerNoLongerTooSoon }
  | .axeTicks ticks => .ok { p with ticksBlocked := ticks }
  | .restore saved => .ok (p.restore saved).2

end SoftPC.Timer
