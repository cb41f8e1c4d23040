import SoftPC.Machinery.Numerals
import Mathlib.Data.Int.Notation
import Mathlib.Data.Nat.Notation
import Mathlib.Logic.Function.Basic
import Mathlib.Algebra.GroupWithZero.Nat

/-!
# System/Timer — the 8253 and its three counters

    outb, inb, gate ──▸ state function of the channel ──▸ actionOnWtComplete, actionOnGateEnabled
    time tick, reads ──▸ updateCounter ──wraps──▸ issueIREQ0 ──▸ ICA line 0

`base/system/timer.c` in the standalone build.  `Pcu ch` is `*pcu` while `pcu == &timers[ch]`, with the
globals its functions reach; `Pit` is the whole chip.  Function pointers are enumerations, one for each
place that holds them, and `none` is a null pointer.

A call stops with a `Fault` where the code divides by zero or calls a null pointer.  `long` and
`unsigned long` have 32 bits.  Calls that leave the module are recorded (`Globals.calls`), and what the
calls of `host_gettimeofday` report is a stream.  `statePriorWt` and `clk`, which nothing reads, and
`real_mode_ticks_in_a_row` with the four limits beside it, which no function here uses, are left out.
-/

namespace SoftPC.Timer

/-- `m`, "Values in D321 of control word - the counter mode." -/
inductive Mode
  | intOnTerminalCount
  | progOneshot
  | rateGen
  | squarewaveGen
  | swTrigStrobe
  | hwTrigStrobe
  deriving DecidableEq

/-- `rl`, "number of bytes to read/load into counter". -/
inductive Access
  | latch
  | lsb
  | msb
  | lmsb
  deriving DecidableEq

/-- The state functions. -/
inductive StateFn
  | uninit
  | awaitingGate
  | waitingFor1stWrite
  | waitingFor2ndWrite
  | counting0
  | counting1
  | counting23
  | counting45
  deriving DecidableEq

/-- What `actionOnWtComplete` points to. -/
inductive WtAction
  | counterBufferLoaded
  | timererror
  | resumeAwaitGate
  | resumeCounting0
  | resumeCounting15
  | resumeCounting234
  deriving DecidableEq

/-- What `actionOnGateEnabled` points to. -/
inductive GateAction
  | counterBufferLoaded
  | resumeCounting0onGate
  | resumeCounting15
  | resumeCounting234onGate
  | startCounting
  deriving DecidableEq

/-- `readState`; a restore can leave any integer there. -/
inductive ReadState
  | unread
  | readMsb
  | readStatus
  | other
  deriving DecidableEq

inductive CountLoad
  | available
  | used
  deriving DecidableEq

inductive TrigCond
  | level
  | edge
  deriving DecidableEq

/-- `host_timeval`. -/
structure TimeVal where
  sec : ℤ := 0
  usec : ℤ := 0
  deriving DecidableEq

structure Waveform where
  clocksAtLo : BitVec 32 := 0
  clocksAtHi : BitVec 32 := 0
  period : BitVec 32 := 0
  startLogicLevel : BitVec 32 := 0
  repeatWaveForm : BitVec 32 := 0
  deriving DecidableEq

/-- The fields of `COUNTER_UNIT` that counting leaves alone. -/
structure Programming where
  m : Mode := .intOnTerminalCount
  bcd : Bool := false
  rl : Access := .latch
  state : Option StateFn := some .uninit
  stateOnGate : Option StateFn := none
  actionOnWtComplete : Option WtAction := none
  actionOnGateEnabled : Option GateAction := none
  outblsb : BitVec 8 := 0
  outbmsb : BitVec 8 := 0
  initialCount : BitVec 32 := 0x10000
  readState : ReadState := .unread
  countlatched : Bool := false
  latchvaluelsb : BitVec 8 := 0
  latchvaluemsb : BitVec 8 := 0
  latchstatus : BitVec 8 := 0
  newCount : CountLoad := .available
  freezeCounter : Bool := false
  delay : BitVec 32 := 0
  trigger : TrigCond := .level
  gate : BitVec 8 := 0
  out : Waveform := {}
  deriving DecidableEq

/-- …and those `updateCounter` writes. -/
structure Ticking where
  count : BitVec 16 := 0
  tickadjust : BitVec 16 := 0
  activationTime : TimeVal := {}
  tc : Bool := false
  lastTicks : BitVec 32 := 0
  microtick : BitVec 32 := 0
  timeFrig : BitVec 32 := 0
  saveCount : BitVec 16 := 0
  guessesPerHostTick : BitVec 32 := 2
  guessesSoFar : BitVec 32 := 2
  deriving DecidableEq

/-- `COUNTER_UNIT`. -/
structure Counter extends Programming, Ticking
  deriving DecidableEq

/-- The calls that are recorded: those that leave the module, and its own `issueIREQ0(n)`. -/
inductive Call
  | issueIREQ0 (n : BitVec 32)
  | hwInterrupt
  | hwInterruptCancel
  | addMultipleInts (delay : BitVec 32) (numInts : BitVec 32)
  | addNoLongerTooSoon
  | timer2Waveform (delay lowclocks hiclocks lohi repeatWaveForm : BitVec 32)
  deriving DecidableEq

/-- The globals that the functions of a counter use. -/
structure Globals where
  timerIntEnabled : Bool := false
  idealtime : TimeVal := {}
  ticksBlocked : BitVec 32 := 0
  maxBacklog : BitVec 32 := 0
  moreTimerMult : BitVec 32 := 0
  timerMultipleDelay : BitVec 32 := 0
  activeIntEvent : Bool := false
  hackActive : Bool := false
  tooSoonAfterPrevious : Bool := false
  ticksLostThisTime : Bool := false
  /-- What the calls of `host_gettimeofday` report, one after the other. -/
  hostTimes : ℕ → TimeVal := fun _ => {}
  hostReads : ℕ := 0
  /-- The calls made so far, the last one first. -/
  calls : List Call := []

/-- `*pcu` while `pcu == &timers[ch]`. -/
structure Pcu (ch : Fin 3) extends Counter, Globals

/-- What ends a call in undefined behaviour. -/
inductive Fault
  /-- `initialCount` is 0 where it divides. -/
  | initialCount
  /-- `guessesPerHostTick` is 0 where it divides. -/
  | guessesPerHostTick
  /-- The interrupts to spread over a tick are 2³² or none. -/
  | spread
  /-- A state function or an action that is called is missing. -/
  | missing
  deriving DecidableEq

def gateLow : BitVec 8 := 0
def gateHigh : BitVec 8 := 1
def gateRise : BitVec 8 := 2

def indefinite : BitVec 32 := BitVec.allOnes 32
def startLo : BitVec 32 := 0
def startHi : BitVec 32 := 1
def noRepeat : BitVec 32 := 0
def doRepeat : BitVec 32 := BitVec.allOnes 32

/-- `SYSTEM_TICK_INTV`, the microseconds between two calls of `time_tick`. -/
def systemTickIntv : BitVec 32 := 54925

/-- `ticksPerIdealInterval`, as `IdealTimeInit` computes it. -/
def ticksPerIdealInterval : BitVec 32 := systemTickIntv * 1193 / 1000

/-- `1193180 * MAX_BACK_SECS`. -/
def clocksOfBacklog : BitVec 32 := 1193180 * 15

/-- Unsigned division, by a divisor that the code does not check. -/
def quotient (a b : BitVec 32) (e : Fault) : Except Fault (BitVec 32) :=
  if b = 0 then .error e else .ok (a / b)

/-! ## Interrupts -/

namespace Globals

variable (g : Globals)

def call (c : Call) : Globals := { g with calls := c :: g.calls }

def timerGenerateInt : Globals :=
  if g.hackActive then
    if g.tooSoonAfterPrevious then { g with ticksLostThisTime := true }
    else
      { (g.call .hwInterrupt).call .addNoLongerTooSoon with
          tooSoonAfterPrevious := true, ticksLostThisTime := false }
  else g.call .hwInterrupt

def timerNoLongerTooSoon : Globals :=
  let g := { g with tooSoonAfterPrevious := false }
  if g.ticksLostThisTime then g.timerGenerateInt else g

/-- "If we've got a quick event running, add to its workload." -/
def addToWorkload (n : BitVec 32) : Except Fault Globals := do
  let delay ← quotient systemTickIntv (n + 1) .spread
  -- `int_delay` is an `IU16`
  let intDelay := (delay.setWidth 16).setWidth 32
  return { g with
    timerMultipleDelay :=
      if intDelay < g.timerMultipleDelay then intDelay else g.timerMultipleDelay
    moreTimerMult := g.moreTimerMult + n }

/-- "Spread interrupts through system tick." -/
def spreadOverTick (n : BitVec 32) : Except Fault Globals := do
  let delay ← quotient systemTickIntv n .spread
  let delay := if delay = 0 then 1 else delay
  return { g.timerGenerateInt with timerMultipleDelay := delay, activeIntEvent := true }.call
    (.addMultipleInts delay (n - 1))

def issueIREQ0 (n : BitVec 32) : Except Fault Globals :=
  let g := g.call (.issueIREQ0 n)
  if g.ticksBlocked = 0 then
    if g.timerIntEnabled then
      if g.activeIntEvent then g.addToWorkload n
      else if n = 1 then .ok { g with timerMultipleDelay := systemTickIntv >>> 1 }.timerGenerateInt
      else g.spreadOverTick n
    else .ok g
  else if BitVec.slt 0 g.ticksBlocked then .ok { g with ticksBlocked := g.ticksBlocked - 1 }
  else .ok g

/-- `timer_multiple_ints`; `initialCount` is that of `timers[0]`. -/
def timerMultipleInts (initialCount numInts : BitVec 32) : Except Fault Globals :=
  let g := g.timerGenerateInt
  let numInts := numInts - 1 + g.moreTimerMult
  let g := { g with moreTimerMult := 0 }
  let numInts := if g.maxBacklog < numInts then g.maxBacklog else numInts
  if numInts = 0 then do
    let maxBacklog ← quotient clocksOfBacklog initialCount .initialCount
    return { g with activeIntEvent := false, maxBacklog }
  else .ok (g.call (.addMultipleInts g.timerMultipleDelay numInts))

end Globals

/-! ## Time -/

/-- `clocksSinceCounterActivated`, between two times. -/
def clocksSince (first now : TimeVal) : BitVec 32 :=
  let secs := BitVec.ofInt 32 (now.sec - first.sec)
  if secs = 0 then BitVec.ofInt 32 (now.usec - first.usec) * 1193 / 1000
  else if secs = 1 then BitVec.ofInt 32 (1000000 + now.usec - first.usec) * 1193 / 1000
  -- here the microseconds stay signed, and the division rounds to zero
  else BitVec.ofInt 32 (((now.usec - first.usec) * 1193).tdiv 1000) + secs * (1000000 * 1193 / 1000)

/-- The time so many clocks before `now`, in whole microseconds. -/
def TimeVal.before (now : TimeVal) (nclocks : BitVec 32) : TimeVal :=
  let usecs := (nclocks * 1000 / 1193).toNat
  if now.usec < usecs then { sec := now.sec - 1, usec := now.usec + 1000000 - usecs }
  else { now with usec := now.usec - usecs }

/-- `updateIdealTime`. -/
def TimeVal.next (t : TimeVal) : TimeVal :=
  let usec := t.usec + systemTickIntv.toNat
  if 1000000 < usec then { sec := t.sec + 1, usec := usec - 1000000 } else { t with usec }

/-- `bin_to_bcd`, the four turns of its loop. -/
def binToBcd (val : BitVec 16) : BitVec 16 :=
  let m := val.toNat % 10000
  BitVec.ofNat 16 (m % 10 + m / 10 % 10 * 16 + m / 100 % 10 * 256 + m / 1000 % 10 * 4096)

/-- `bcd_to_bin`, likewise. -/
def bcdToBin (val : BitVec 16) : ℕ :=
  let v := val.toNat
  v % 16 + v / 16 % 16 * 10 + v / 256 % 16 * 100 + v / 4096 % 16 * 1000

/-- The count that the two bytes written mean. -/
def Programming.modulo (p : Programming) : BitVec 32 :=
  let bytes := p.outbmsb ++ p.outblsb
  if p.bcd then if bytes = 0 then 10000 else BitVec.ofNat 32 (bcdToBin bytes)
  else if bytes = 0 then 0x10000 else bytes.setWidth 32

namespace Pcu

variable {ch : Fin 3} (u : Pcu ch)

/-- A call of a function that changes globals only. -/
def onGlobals (g : Globals) : Pcu ch := { u with toGlobals := g }

def setState (state : StateFn) : Pcu ch := { u with state := some state }

def setStateOnGate (state : StateFn) : Pcu ch := { u with stateOnGate := some state }

def setWtAction (action : WtAction) : Pcu ch := { u with actionOnWtComplete := some action }

def setGateAction (action : GateAction) : Pcu ch := { u with actionOnGateEnabled := some action }

def setGate (gate : BitVec 8) : Pcu ch := { u with gate }

/-- `if (pcu == &timers[0]) timer_int_enabled = …`. -/
def enableInt (enabled : Bool) : Pcu ch :=
  if ch = 0 then { u with timerIntEnabled := enabled } else u

/-- `getHostSysTime`: "check that we haven't gone back in time". -/
def hostSysTime : TimeVal :=
  let t := u.hostTimes u.hostReads
  if t.sec < u.idealtime.sec ∨ t.usec < u.idealtime.usec ∧ t.sec = u.idealtime.sec then u.idealtime
  else t

/-- `*pcu->getTime`: the ideal time for counter 0, the host's for the others. -/
def time : TimeVal := if ch = 0 then u.idealtime else u.hostSysTime

/-- The call of it, which may read the host's clock. -/
def timeRead : Pcu ch := if ch = 0 then u else { u with hostReads := u.hostReads + 1 }

def timestamp : Pcu ch := { u.timeRead with lastTicks := 0, activationTime := u.time }

/-! ## Output -/

def outputWaveForm (delay lowclocks hiclocks lohi repeatWaveForm : BitVec 32) : Pcu ch :=
  let out : Waveform :=
    { clocksAtLo := lowclocks, clocksAtHi := hiclocks, startLogicLevel := lohi, repeatWaveForm,
      period := if repeatWaveForm = doRepeat then lowclocks + hiclocks else u.out.period }
  let u : Pcu ch := { u with out, delay := 0 }
  if ch = 2 then u.onGlobals (u.call (.timer2Waveform delay lowclocks hiclocks lohi repeatWaveForm))
  else u

def outputLow : Pcu ch := u.outputWaveForm 0 indefinite 0 startLo noRepeat

def outputHigh : Pcu ch := u.outputWaveForm 0 0 indefinite startHi noRepeat

def setOutputAfterMode : Pcu ch :=
  match u.m with
  | .intOnTerminalCount => u.outputLow
  | _ => u.outputHigh

/-! ## Counting -/

/-- The head of `guess`: the first guess of a host tick sets the clocks each of them stands for. -/
def beginGuesses : Except Fault (Pcu ch) :=
  if u.microtick = 0 then do
    let timeFrig ← quotient ((ticksPerIdealInterval * 7) >>> 3) u.guessesPerHostTick .guessesPerHostTick
    return { u with saveCount := u.count, timeFrig }
  else .ok u

/-- …and the rest of it; more guesses than in the last host tick stand for fewer clocks. -/
def countGuess : Pcu ch :=
  let timeFrig :=
    if u.guessesPerHostTick.slt u.guessesSoFar then u.timeFrig.sshiftRight 1 + 1 else u.timeFrig
  { u with guessesSoFar := u.guessesSoFar + 1, timeFrig, microtick := u.microtick + timeFrig }

/-- `guess`, whose value is `microtick + lastTicks`. -/
def guess : Except Fault (Pcu ch) := do
  let u ← u.beginGuesses
  return u.countGuess

def throwaway : Pcu ch :=
  let u : Pcu ch := { u with
    guessesPerHostTick := (u.guessesPerHostTick + u.guessesSoFar).sshiftRight 1, guessesSoFar := 2 }
  if u.microtick = 0 then u else { u with count := u.saveCount, microtick := 0 }

/-- `wrap`, `ticks` and `modulo`, once `updateCount` has counted them down. -/
structure Down where
  wrap : BitVec 32
  ticks : BitVec 32
  modulo : BitVec 32
  deriving DecidableEq

/-- "If the number of 8253 clocks elapsed exceeds this amount then the counter must have wrapped." -/
def countDown (m : Mode) (initialCount ticks : BitVec 32) : Except Fault Down :=
  if ticks < initialCount then .ok { wrap := 0, ticks, modulo := initialCount }
  else
    let modulo := if m = .intOnTerminalCount then 0x10000 else initialCount
    let ticks := ticks - initialCount
    if ticks < modulo then .ok { wrap := 1, ticks, modulo }
    else do
      let rounds ← quotient ticks modulo .initialCount
      return { wrap := 1 + rounds, ticks := ticks % modulo, modulo }

def setLastWrap (nclocks : BitVec 32) (now : TimeVal) : Pcu ch :=
  { u with activationTime := now.before nclocks, lastTicks := nclocks }

/-- "PMINFO uses ~counter, so one tick becomes 0. 2 ticks is just as good." -/
def sinceActivated (ticks : BitVec 32) : BitVec 32 :=
  if ch = 2 ∧ ticks = u.lastTicks then 2 else ticks

/-- `estimated`: the host shows no change of time since the counter was last looked at. -/
def estimated (ticks : BitVec 32) : Bool := (ticks - u.lastTicks).sle 0

/-- `updateCount` where it estimates: neither interrupts nor the baseline follow. -/
def updateEstimated : Except Fault (Pcu ch) := do
  let u ← u.guess
  let d ← countDown u.m u.initialCount (u.microtick + u.lastTicks)
  return { u with count := (d.modulo - d.ticks).setWidth 16 }

/-- …and where it does not. -/
def updateMeasured (ticks : BitVec 32) (now : TimeVal) : Except Fault (BitVec 32 × Pcu ch) := do
  let u : Pcu ch := { u.throwaway with lastTicks := ticks }
  let d ← countDown u.m u.initialCount ticks
  let u : Pcu ch := { u with count := (d.modulo - d.ticks).setWidth 16 }
  return (d.wrap, if d.wrap ≠ 0 then u.setLastWrap (d.modulo - u.count.setWidth 32) now else u)

/-- `updateCount`; the first component is `*wrap`. -/
def updateCount (ticks : BitVec 32) (now : TimeVal) : Except Fault (BitVec 32 × Pcu ch) :=
  let ticks := u.sinceActivated ticks
  if u.estimated ticks then do
    let u ← u.updateEstimated
    return (0, u)
  else u.updateMeasured ticks now

/-- `updateCount` at the present time. -/
def updateNow : Except Fault (BitVec 32 × Pcu ch) :=
  u.timeRead.updateCount (clocksSince u.activationTime u.time) u.time

/-- What `updateCounter` does with a wrap in modes 0, 2 and 3. -/
def wrapped (wrap : BitVec 32) : Except Fault (Pcu ch) :=
  if wrap = 0 then .ok u
  else
    let u : Pcu ch := { u with tickadjust := u.count, tc := u.tc || u.m = .intOnTerminalCount }
    if ch = 0 then do
      let g ← u.issueIREQ0 (if u.m = .intOnTerminalCount then 1 else wrap)
      return u.onGlobals g
    else .ok u

/-- …and in the others. -/
def expired (wrap : BitVec 32) : Pcu ch := if wrap = 0 then u else { u with count := 0, tc := true }

def updateCounter : Except Fault (Pcu ch) :=
  match u.m with
  | .intOnTerminalCount | .rateGen | .squarewaveGen =>
    if u.gate = gateLow then .ok u
    else do
      let r ← u.updateNow
      r.2.wrapped r.1
  | .progOneshot | .swTrigStrobe | .hwTrigStrobe =>
    if u.tc then .ok u
    else do
      let r ← u.updateNow
      return r.2.expired r.1

/-- `readCounter`: "read counter into latch, ready for next read". -/
def readCounter : Except Fault (Pcu ch) := do
  let u ← u.updateCounter
  let countread := if u.bcd then binToBcd u.count else u.count
  return { u with latchvaluemsb := (countread >>> 8).setWidth 8, latchvaluelsb := countread.setWidth 8 }

/-! ## Loading -/

def loadCounter : Pcu ch :=
  let modulo := u.modulo
  let u : Pcu ch := { u with initialCount := modulo, count := modulo.setWidth 16, tc := false, newCount := .used }
  if ch = 0 then
    let g := u.call .hwInterruptCancel
    let maxback := clocksOfBacklog / modulo
    u.onGlobals (if g.maxBacklog < maxback then { g with maxBacklog := maxback } else g)
  else u

/-- `timer_conv`: the number of clocks equivalent to a count. -/
def timerConv (count : BitVec 16) : BitVec 32 :=
  if count = 0 then if u.bcd then 10000 else 0x10000 else count.setWidth 32

/-- The output of each mode, for a count of so many clocks. -/
def outputForMode (adjustedCount : BitVec 32) : Pcu ch :=
  match u.m with
  | .intOnTerminalCount | .progOneshot =>
    u.outputWaveForm u.delay adjustedCount indefinite startLo noRepeat
  | .rateGen => u.outputWaveForm u.delay 1 (adjustedCount - 1) startHi doRepeat
  | .squarewaveGen =>
    if u.count &&& 1 = 0 then
      u.outputWaveForm u.delay (adjustedCount >>> 1) (adjustedCount >>> 1) startHi doRepeat
    else
      u.outputWaveForm u.delay ((adjustedCount - 1) >>> 1) ((adjustedCount + 1) >>> 1) startHi doRepeat
  | .swTrigStrobe | .hwTrigStrobe => u.outputWaveForm u.delay 1 adjustedCount startHi noRepeat

/-- `pcu->Count -= pcu->tickadjust`. -/
def adjust : Pcu ch := { u with count := u.count - u.tickadjust }

def runCount : Pcu ch :=
  let adjustedCount := u.timerConv u.count
  let u : Pcu ch := { u with state := u.stateOnGate }
  match u.m with
  | .intOnTerminalCount | .swTrigStrobe => u.outputForMode adjustedCount
  | .progOneshot | .rateGen | .squarewaveGen => (u.loadCounter.outputForMode adjustedCount).adjust
  | .hwTrigStrobe => u.loadCounter.outputForMode adjustedCount

def startCounting : Pcu ch := u.timestamp.runCount

/-- The state of a mode while it counts. -/
def countingState : Mode → StateFn
  | .intOnTerminalCount => .counting0
  | .progOneshot => .counting1
  | .rateGen | .squarewaveGen => .counting23
  | .swTrigStrobe | .hwTrigStrobe => .counting45

def counterBufferLoaded : Pcu ch :=
  let u := (u.setWtAction .timererror).loadCounter
  if u.gate ≠ gateLow then
    let u := (u.enableInt true).timestamp
    (u.outputForMode (u.timerConv u.count)).adjust.setState (countingState u.m)
  else
    ((((u.enableInt false).setState .awaitingGate).setGateAction .startCounting).setStateOnGate
      (countingState u.m))

/-- `if (pcu->freezeCounter)`, at the head of both actions of mode 0. -/
def unfreeze : Pcu ch :=
  if u.freezeCounter then { u.timestamp with freezeCounter := false } else u

/-- `if (pcu->newCount == AVAILABLE) loadCounter()`. -/
def loadNew : Pcu ch := if u.newCount = .available then u.loadCounter else u

def resumeCounting0onGate : Pcu ch :=
  let u := u.unfreeze.loadNew
  if u.tc then u.setState .counting0 else (u.timestamp.setStateOnGate .counting0).runCount

/-- `resumeCounting0`: `doadjust` is whether a new count was loaded. -/
def resumeCounting0 : Pcu ch :=
  let doadjust := u.newCount = .available
  let u := u.unfreeze.loadNew
  if u.tc then if doadjust then (u.setState .counting0).adjust else u.setState .counting0
  else (u.setStateOnGate .counting0).runCount

/-- The state that `resumeCounting_2_3_4` and its gate version go to. -/
def strobeState : Mode → StateFn
  | .rateGen | .squarewaveGen => .counting23
  | _ => .counting45

def resumeCounting234onGate : Pcu ch :=
  let u := u.loadNew
  (u.setStateOnGate (strobeState u.m)).timestamp.runCount

def resumeCounting234 : Pcu ch :=
  let delayed : Pcu ch := { u with delay := u.count.setWidth 32 }
  let u := if u.newCount = .available then delayed.loadCounter else u
  (u.setStateOnGate (strobeState u.m)).runCount

def resumeCounting15 : Pcu ch :=
  let counting := if u.m = .hwTrigStrobe then StateFn.counting45 else .counting1
  if u.gate = gateRise then u.setState counting
  else if u.tc then u.setState .awaitingGate
  else u.setState counting

/-! ## State functions -/

/-- `(pcu->actionOnGateEnabled)()`. -/
def gateEnabled : Except Fault (Pcu ch) :=
  match u.actionOnGateEnabled with
  | none => .error .missing
  | some .counterBufferLoaded => .ok u.counterBufferLoaded
  | some .resumeCounting0onGate => .ok u.resumeCounting0onGate
  | some .resumeCounting15 => .ok u.resumeCounting15
  | some .resumeCounting234onGate => .ok u.resumeCounting234onGate
  | some .startCounting => .ok u.startCounting

/-- `awaitingGate(GATE_SIGNAL, value)`. -/
def awaitingGateGate (value : BitVec 8) : Except Fault (Pcu ch) :=
  if value = gateLow then .ok (u.setGate value) else ((u.setGate value).enableInt true).gateEnabled

def resumeAwaitGate : Except Fault (Pcu ch) :=
  ((u.setWtAction .timererror).setState .awaitingGate).awaitingGateGate u.gate

/-- `(pcu->actionOnWtComplete)()`; `timererror` only traces. -/
def wtCompleted : Except Fault (Pcu ch) :=
  match u.actionOnWtComplete with
  | none => .error .missing
  | some .counterBufferLoaded => .ok u.counterBufferLoaded
  | some .timererror => .ok u
  | some .resumeAwaitGate => u.resumeAwaitGate
  | some .resumeCounting0 => .ok u.resumeCounting0
  | some .resumeCounting15 => .ok u.resumeCounting15
  | some .resumeCounting234 => .ok u.resumeCounting234

def wtComplete : Except Fault (Pcu ch) :=
  if u.gate = gateLow ∧ u.trigger = .level then
    (u.setState .awaitingGate).awaitingGateGate u.gate
  else u.wtCompleted

/-- Both bytes of a count are there. -/
def written (outblsb outbmsb : BitVec 8) : Pcu ch :=
  { u with outblsb, outbmsb, newCount := .available }

/-- `waitingFor1stWrite(WRITE_SIGNAL, value)`. -/
def firstWrite (value : BitVec 8) : Except Fault (Pcu ch) :=
  match u.rl with
  | .latch => .ok u
  | .lsb => (u.written value 0).wtComplete
  | .lmsb => .ok { u with outblsb := value, state := some .waitingFor2ndWrite }
  | .msb => (u.written 0 value).wtComplete

/-- `waitingFor2ndWrite(WRITE_SIGNAL, value)`. -/
def secondWrite (value : BitVec 8) : Except Fault (Pcu ch) :=
  (u.written u.outblsb value).wtComplete

/-- The output of a counter in mode 0 that stops. -/
def outputStopped : Pcu ch := if u.tc then u.outputHigh else u.outputLow

/-- The head of `Counting0`; those of the other counting states follow. -/
def inCounting0 : Pcu ch :=
  (u.setGateAction .resumeCounting0onGate).setWtAction .resumeCounting0

def inCounting1 : Pcu ch := (u.setGateAction .startCounting).setWtAction .resumeCounting15

def inCounting23 : Pcu ch :=
  (u.setGateAction .resumeCounting234onGate).setWtAction .resumeCounting234

def inCounting45 : Pcu ch :=
  if u.m = .hwTrigStrobe then
    (u.setGateAction .resumeCounting15).setWtAction .resumeCounting15
  else u.inCounting23

/-- `Counting0(GATE_SIGNAL, value)`: "we're about to freeze timer channel". -/
def counting0Gate (value : BitVec 8) : Except Fault (Pcu ch) :=
  if value = gateHigh then .ok u
  else do
    let u ← u.updateCounter
    return (u.setGate value).outputStopped.setState .awaitingGate

/-- `Counting0(WRITE_SIGNAL, value)`. -/
def counting0Write (value : BitVec 8) : Except Fault (Pcu ch) := do
  let frozen : Pcu ch := { u with freezeCounter := true }
  let u ← frozen.updateCounter
  u.outputStopped.firstWrite value

/-- `Counting1(GATE_SIGNAL, value)`. -/
def counting1Gate (value : BitVec 8) : Pcu ch :=
  if value = gateLow then u
  else ((u.setGate gateHigh).setStateOnGate .counting1).timestamp.runCount

/-- `Counting_2_3(GATE_SIGNAL, value)` and `Counting_4_5(GATE_SIGNAL, value)`. -/
def countingGate (value : BitVec 8) : Except Fault (Pcu ch) :=
  if value = gateHigh then .ok u
  else do
    let u ← u.updateCounter
    return (u.setGate value).outputHigh.setState .awaitingGate

/-- `(pcu->state)(GATE_SIGNAL, value)`. -/
def gateSignal (value : BitVec 8) : Except Fault (Pcu ch) :=
  match u.state with
  | none => .error .missing
  | some .uninit | some .waitingFor1stWrite | some .waitingFor2ndWrite => .ok (u.setGate value)
  | some .awaitingGate => u.awaitingGateGate value
  | some .counting0 => u.inCounting0.counting0Gate value
  | some .counting1 => .ok (u.inCounting1.counting1Gate value)
  | some .counting23 => u.inCounting23.countingGate value
  | some .counting45 => u.inCounting45.countingGate value

/-- `(pcu->state)(WRITE_SIGNAL, value)`. -/
def writeSignal (value : BitVec 8) : Except Fault (Pcu ch) :=
  match u.state with
  | none => .error .missing
  | some .uninit => .ok u
  | some .awaitingGate => (u.setWtAction .resumeAwaitGate).firstWrite value
  | some .waitingFor1stWrite => u.firstWrite value
  | some .waitingFor2ndWrite => u.secondWrite value
  | some .counting0 => u.inCounting0.counting0Write value
  | some .counting1 => u.inCounting1.firstWrite value
  | some .counting23 => u.inCounting23.firstWrite value
  | some .counting45 => u.inCounting45.firstWrite value

def setTriggerCond : Pcu ch :=
  { u with trigger := match u.m with
    | .progOneshot | .hwTrigStrobe => .edge
    | .rateGen | .squarewaveGen | .swTrigStrobe | .intOnTerminalCount => .level }

/-! ## The control word register -/

end Pcu

/-- D321 of a control word: modes 6 and 7 are interpreted as modes 2 and 3. -/
def Mode.ofWord (cwd : BitVec 8) : Mode :=
  match (cwd &&& 0xe) >>> 1 with
  | 0 => .intOnTerminalCount
  | 1 => .progOneshot
  | 2 | 6 => .rateGen
  | 3 | 7 => .squarewaveGen
  | 4 => .swTrigStrobe
  | _ => .hwTrigStrobe

/-- `m` in the status byte. -/
def Mode.code : Mode → BitVec 8
  | .intOnTerminalCount => 0
  | .progOneshot => 1
  | .rateGen => 2
  | .squarewaveGen => 3
  | .swTrigStrobe => 4
  | .hwTrigStrobe => 5

/-- D54 of a control word. -/
def Access.ofWord (cwd : BitVec 8) : Access :=
  match (cwd &&& 0x30) >>> 4 with
  | 0 => .latch
  | 1 => .lsb
  | 2 => .msb
  | _ => .lmsb

def Access.code : Access → BitVec 8
  | .latch => 0
  | .lsb => 1
  | .msb => 2
  | .lmsb => 3

/-- D76 of a control word; `READ_BACK` is none of the counters. -/
def channelOf (cwd : BitVec 8) : Option (Fin 3) :=
  match (cwd &&& 0xc0) >>> 6 with
  | 0 => some 0
  | 1 => some 1
  | 2 => some 2
  | _ => none

namespace Pcu

variable {ch : Fin 3} (u : Pcu ch)

/-- The count latched. -/
def latchCount : Except Fault (Pcu ch) := do
  let u ← u.readCounter
  return { u with countlatched := true }

/-- `latchStatusValue`: `|OUT|Null Count|RW1|RW0|M2|M1|M0|BCD|`. -/
def latchStatusValue : Pcu ch :=
  { u with
    latchstatus :=
      (u.out.startLogicLevel.setWidth 8 <<< 7) ||| (if u.newCount = .available then 0x40 else 0) |||
        (u.rl.code <<< 4) ||| (u.m.code <<< 1) ||| (if u.bcd then 1 else 0)
    readState := .readStatus }

/-- The new mode of `controlWordReg`. -/
def newMode (cwd : BitVec 8) : Pcu ch :=
  let u : Pcu ch :=
    { u.enableInt false with
        countlatched := false, tc := false, tickadjust := 0, microtick := 0, saveCount := 0,
        m := Mode.ofWord cwd }
  let u := u.setTriggerCond.setOutputAfterMode
  { u with
    bcd := cwd &&& 1 = 1, rl := Access.ofWord cwd, state := some .waitingFor1stWrite
    actionOnWtComplete := some .counterBufferLoaded
    actionOnGateEnabled := some .counterBufferLoaded }

/-- The part of `controlWordReg` for one counter. -/
def controlWord (cwd : BitVec 8) : Except Fault (Pcu ch) :=
  if Access.ofWord cwd = .latch then u.latchCount else .ok (u.newMode cwd)

/-- The byte that `SWTMR_inb` delivers; no case of its switch assigns it in a mode never programmed. -/
def deliver : Option (BitVec 8) :=
  match u.readState with
  | .unread =>
    match u.rl with
    | .lsb | .lmsb => some u.latchvaluelsb
    | .msb => some u.latchvaluemsb
    | .latch => none
  | .readMsb => some u.latchvaluemsb
  | .readStatus => some u.latchstatus
  | .other => none

/-- …and what is left to be read. -/
def delivered : Pcu ch :=
  match u.readState with
  | .unread =>
    match u.rl with
    | .lsb | .msb => { u with countlatched := false }
    | .lmsb => { u with readState := .readMsb }
    | .latch => u
  | .readMsb => { u with countlatched := false, readState := .unread }
  | .readStatus => { u with readState := .unread }
  | .other => u

/-- `if (!pcu->countlatched) readCounter()`. -/
def readUnlatched : Except Fault (Pcu ch) := if u.countlatched then .ok u else u.readCounter

end Pcu

/-! ## The chip -/

/-- `timers` with all globals; `timelock` is whether it is `LOCKED`. -/
structure Pit extends Globals where
  timers : Fin 3 → Counter := fun _ => {}
  timelock : Bool := false
  needtick : Bool := false

/-- The state `timer_init` leaves at this host time; `counter_init` has the clocks of a guess too. -/
def Pit.init (hostTimes : ℕ → TimeVal) : Pit where
  hostTimes := fun n => hostTimes (n + 1)
  idealtime := hostTimes 0
  timers _ := { timeFrig := ticksPerIdealInterval / 2 }

namespace Pit

variable (p : Pit)

/-- `pcu = &timers[ch]`. -/
def pcu (ch : Fin 3) : Pcu ch := { toCounter := p.timers ch, toGlobals := p.toGlobals }

/-- The chip with that counter, and the globals, as a function left them. -/
def put {ch : Fin 3} (u : Pcu ch) : Pit :=
  { p with toGlobals := u.toGlobals, timers := Function.update p.timers ch u.toCounter }

/-- A function called with `pcu == &timers[ch]`. -/
def on (ch : Fin 3) (f : Pcu ch → Except Fault (Pcu ch)) : Except Fault Pit := do
  let u ← f (p.pcu ch)
  return p.put u

/-- `SWTMR_time_tick`. -/
def timeTick : Except Fault Pit :=
  if p.timelock then .ok { p with needtick := true }
  else do
    let p ← { p with idealtime := p.idealtime.next }.on 0 Pcu.updateCounter
    p.on 2 Pcu.updateCounter

def checktimelock : Except Fault Pit :=
  let p := { p with timelock := false }
  if p.needtick then { p with needtick := false }.timeTick else .ok p

/-- The body of a port access, between `timelock = LOCKED` and `checktimelock`. -/
def locked (f : Pit → Except Fault Pit) : Except Fault Pit := do
  let p ← f { p with timelock := true }
  p.checktimelock

/-- `SWTMR_gate`. -/
def gate (ch : Fin 3) (value : BitVec 8) : Except Fault Pit :=
  p.locked fun p => p.on ch fun u => u.gateSignal value

/-- The counters that a read back command selects, in the order it is carried out. -/
def selected (cwd : BitVec 8) : List (Fin 3) :=
  ([0, 1, 2] : List (Fin 3)).filter fun ch => ((cwd &&& 0xe) >>> 1).getLsbD ch

/-- The read back command: counts are latched before statuses. -/
def readBack (cwd : BitVec 8) : Except Fault Pit := do
  let p ← (if cwd &&& 0x20 = 0 then selected cwd else []).foldlM (fun p ch => p.on ch Pcu.latchCount) p
  (if cwd &&& 0x10 = 0 then selected cwd else []).foldlM
    (fun p ch => p.on ch fun u => .ok u.latchStatusValue) p

def controlWordReg (cwd : BitVec 8) : Except Fault Pit :=
  match channelOf cwd with
  | none => p.readBack cwd
  | some ch => p.on ch fun u => u.controlWord cwd

/-- `SWTMR_outb`, at the port of the control word register or of a counter. -/
def outb (port : Option (Fin 3)) (value : BitVec 8) : Except Fault Pit :=
  p.locked fun p =>
    match port with
    | none => p.controlWordReg value
    | some ch => p.on ch fun u => u.writeSignal value

/-- `SWTMR_inb`, at the port of a counter: the control word register is write-only. -/
def inb (ch : Fin 3) : Except Fault (Option (BitVec 8) × Pit) := do
  let u ← ({ p with timelock := true }.pcu ch).readUnlatched
  let p ← ({ p with timelock := true }.put u.delivered).checktimelock
  return (u.deliver, p)

/-- `timer_multiple_ints`, called back by the quick events. -/
def multipleInts (numInts : BitVec 32) : Except Fault Pit := do
  let g ← p.timerMultipleInts (p.timers 0).initialCount numInts
  return { p with toGlobals := g }

end Pit

end SoftPC.Timer
