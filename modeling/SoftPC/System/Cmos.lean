import Mathlib.Data.BitVec
import Mathlib.Logic.Function.Basic

/-!
# System/Cmos — the real-time clock

    ports 70h, 71h ──▸ cmos[] ── register B ──▸ rtc_periodic_event   (quick-event list)
          time strobe ──▸ rtc_tick ──▸ ht       set_alarm ──▸ rtc_alarm   (tick-event list)

`base/system/cmos.c` in the standalone build, with as much of the two event lists as concerns it: the
events of its two callbacks, each under the handle the list gave it.  A handle given is not 0 and not one
of an event on the list.  The four function pointers of the conversions change with `data_mode_yes` and
`twenty4_hour_clock` and are read off these; `ht`, which `rtc_init` sets before anything reads it, is no
pointer.  Its `tm_yday` and `tm_isdst`, which nothing reads, are left out.
-/

namespace SoftPC.Cmos

abbrev Byte := BitVec 8

/-- `struct host_tm`. -/
structure HostTm where
  sec : ℕ
  min : ℕ
  hour : ℕ
  mday : ℕ
  mon : ℕ
  year : ℕ
  wday : ℕ
  deriving DecidableEq

/-! ## Registers and their bits -/

namespace Reg

def seconds : BitVec 6 := 0x0
def secAlarm : BitVec 6 := 0x1
def minutes : BitVec 6 := 0x2
def minAlarm : BitVec 6 := 0x3
def hours : BitVec 6 := 0x4
def hrAlarm : BitVec 6 := 0x5
def dayWeek : BitVec 6 := 0x6
def dayMonth : BitVec 6 := 0x7
def month : BitVec 6 := 0x8
def year : BitVec 6 := 0x9
def a : BitVec 6 := 0xa
def b : BitVec 6 := 0xb
def c : BitVec 6 := 0xc
def d : BitVec 6 := 0xd
def century : BitVec 6 := 0x32

end Reg

/-- Register A: `UIP`. -/
def uip : Byte := 0x80

/-- Register B. -/
def set : Byte := 0x80
def pie : Byte := 0x40
def aie : Byte := 0x20
def uie : Byte := 0x10
def dm : Byte := 0x04
def hr24 : Byte := 0x02

/-- Register C. -/
def irqf : Byte := 0x80
def pf : Byte := 0x40
def af : Byte := 0x20
def uf : Byte := 0x10

def dontCare : Byte := 0xc0

/-- A bit, or one of several, is set. -/
def has (v bits : Byte) : Bool := v &&& bits ≠ 0

/-- `pirUsec`, the period of each rate. -/
def pirUsec (rate : BitVec 4) : BitVec 32 :=
  [0, 3906, 7812, 122, 244, 488, 976, 1953, 3906, 7812, 15625, 31250, 62500, 125000, 250000, 500000].getD
    rate.toNat 0

/-- `value & (RS3 | RS2 | RS1 | RS0)`. -/
def rate (regA : Byte) : BitVec 4 := regA.setWidth 4

/-! ## Conversions -/

/-- `yes_bin2bcd` and `no_bin2bcd`. -/
def bin2bcd (dataModeYes : Bool) (x : ℕ) : Byte :=
  if dataModeYes then
    let tens : Byte := .ofNat 8 (x / 10)
    let units : Byte := .ofInt 8 (x - tens.toNat * 10)
    (tens <<< 4) + units
  else .ofNat 8 x

/-- `yes_bcd2bin` and `no_bcd2bin`. -/
def bcd2bin (dataModeYes : Bool) (x : Byte) : ℕ :=
  if dataModeYes then x.toNat % 16 + x.toNat / 16 * 10 else x.toNat

/-- `yes_24to12` and `no_24to12`. -/
def to12 (dataModeYes twenty4HourClock : Bool) (x : Byte) : Byte :=
  if twenty4HourClock then x
  else
    let y := bin2bcd dataModeYes 12
    if y < x then (x - y) ||| 0x80 else if x = 0 then y ||| 0x80 else x

/-- `yes_12to24` and `no_12to24`. -/
def to24 (dataModeYes twenty4HourClock : Bool) (x : ℕ) : ℕ :=
  if twenty4HourClock then x
  else
    let y := (bin2bcd dataModeYes 12).toNat
    if x = 0x80 + y then 0 else if x &&& 0x80 ≠ 0 then (x &&& 0x7f) + y else x

/-! ## The state -/

/-- What the time is compared with: the alarm bytes, in the modes of register B. -/
structure Setting where
  sec : Byte
  min : Byte
  hour : Byte
  dataModeYes : Bool
  twenty4HourClock : Bool
  deriving DecidableEq

/-- What is noted of a run. -/
inductive Seen
  /-- `ica_hw_interrupt(ICA_SLAVE, CPU_RTC_INT, 1)`. -/
  | interrupt
  /-- The time was updated, to this one. -/
  | updated (ht : HostTm) (setting : Setting)
  /-- `rtc_alarm` raised the alarm flag. -/
  | alarm (ht : HostTm) (setting : Setting)
  /-- An event was deleted, and whether it was on its list. -/
  | deleted (handle : ℕ) (queued : Bool)
  deriving DecidableEq

/-- The module's data, and its events on the two lists. -/
structure Rtc where
  cmos : BitVec 6 → Byte := fun _ => 0
  cmosIndex : BitVec 6 := 0xf
  dataModeYes : Bool := true
  twenty4HourClock : Bool := true
  resetAlarm : Bool := false
  userTime : ℤ := 0
  ht : HostTm
  /-- `rtc_period_mSeconds`. -/
  rtcPeriod : BitVec 32 := 0
  rtcIntEnabled : Bool := true
  cmosCount : ℕ := 0
  /-- `rtc_periodic_event_handle`. -/
  periodicHandle : ℕ := 0
  /-- The `handle` of `set_alarm`. -/
  alarmHandle : ℕ := 0
  /-- The events of `rtc_periodic_event`, each with its handle and its delay. -/
  periodic : List (ℕ × BitVec 32) := []
  /-- The events of `rtc_alarm`, each with its handle and the ticks left. -/
  alarms : List (ℕ × BitVec 32) := []
  /-- What has been noted, the last first. -/
  log : List Seen := []

/-- Why a step does not end. -/
inductive Stop
  /-- `rtc_periodic_event` filed itself with no delay: it is called inside itself, for ever. -/
  | endless
  /-- A snapshot is not accepted. -/
  | refused
  /-- The handle is 0 or in use; or there is no event to expire. -/
  | outOfTurn
  deriving DecidableEq

namespace Rtc

variable (r : Rtc)

def reg (i : BitVec 6) : Byte := r.cmos i

def setReg (i : BitVec 6) (v : Byte) : Rtc := { r with cmos := Function.update r.cmos i v }

theorem reg_setReg (i : BitVec 6) (v : Byte) (j : BitVec 6) :
    (r.setReg i v).reg j = if j = i then v else r.reg j := by
  simp [reg, setReg, Function.update_apply]

def see (s : Seen) : Rtc := { r with log := s :: r.log }

def setting : Setting :=
  ⟨r.reg Reg.secAlarm, r.reg Reg.minAlarm, r.reg Reg.hrAlarm, r.dataModeYes, r.twenty4HourClock⟩

/-- A handle the lists may give. -/
def fresh (h : ℕ) : Bool := h ≠ 0 && (r.periodic.all fun e => e.1 ≠ h) && r.alarms.all fun e => e.1 ≠ h

/-! ## The periodic interrupt -/

/-- `add_q_event_t(rtc_periodic_event, rtc_period_mSeconds, 0)`. -/
def addPeriodic (h : ℕ) : Except Stop Rtc :=
  if r.rtcPeriod = 0 then .error .endless
  else .ok { r with periodic := r.periodic ++ [(h, r.rtcPeriod)], periodicHandle := h }

/-- `delete_q_event(rtc_periodic_event_handle)`. -/
def deletePeriodic : Rtc :=
  { r.see (.deleted r.periodicHandle (r.periodic.any fun e => e.1 = r.periodicHandle)) with
    periodic := r.periodic.filter fun e => e.1 ≠ r.periodicHandle }

def rtcPeriodicEvent (h : ℕ) : Except Stop Rtc :=
  if has (r.reg Reg.b) pie then
    ((r.setReg Reg.c (r.reg Reg.c ||| (irqf ||| pf))).see .interrupt).addPeriodic h
  else .ok { r with periodicHandle := 0 }

def changePie (newPie : Bool) (h : ℕ) : Except Stop Rtc :=
  if newPie && r.rtcPeriod ≠ 0 then r.addPeriodic h else .ok r.deletePeriodic

/-! ## The alarm -/

/-- An interrupt that a bit of register B enables. -/
def interruptIf (enable : Byte) : Rtc :=
  if has (r.reg Reg.b) enable then
    let r := r.setReg Reg.c (r.reg Reg.c ||| irqf)
    if r.rtcIntEnabled then r.see .interrupt else r
  else r

/-- `reset_alarm = TRUE`: the alarm is set again with the next tick. -/
def resetting : Rtc := { r with resetAlarm := true }

def rtcAlarm : Rtc :=
  (((r.setReg Reg.c (r.reg Reg.c ||| af)).see (.alarm r.ht r.setting)).interruptIf aie).resetting

/-- `numsecs`, the wait `set_alarm` computes. -/
def numsecs : ℤ :=
  if has (r.reg Reg.hrAlarm) dontCare then
    if has (r.reg Reg.minAlarm) dontCare then
      if has (r.reg Reg.secAlarm) dontCare then 1 else 60
    else 3600
  else
    let alarmSecs : ℤ :=
      bcd2bin r.dataModeYes (r.reg Reg.secAlarm) + bcd2bin r.dataModeYes (r.reg Reg.minAlarm) * 60
        + to24 r.dataModeYes r.twenty4HourClock (bcd2bin r.dataModeYes (r.reg Reg.hrAlarm)) * 3600
    let nowSecs : ℤ := r.ht.sec + 60 * r.ht.min + 3600 * r.ht.hour
    if alarmSecs - nowSecs < 0 then alarmSecs - nowSecs + 24 * 3600 else alarmSecs - nowSecs

/-- `delete_tic_event(handle)`. -/
def deleteAlarm : Rtc :=
  { r.see (.deleted r.alarmHandle (r.alarms.any fun e => e.1 = r.alarmHandle)) with
    alarms := r.alarms.filter fun e => e.1 ≠ r.alarmHandle }

/-- `handle = add_tic_event(rtc_alarm, ticks, 0)`: with no wait the callback is called at once. -/
def addAlarm (ticks : BitVec 32) (h : ℕ) : Rtc :=
  if ticks = 0 then { r.rtcAlarm with alarmHandle := 0 }
  else { r with alarms := r.alarms ++ [(h, ticks)], alarmHandle := h }

def setAlarm (h : ℕ) : Rtc :=
  let r := if r.alarmHandle > 0 then r.deleteAlarm else r
  r.addAlarm (.ofInt 32 (18 * r.numsecs)) h

/-! ## The ports -/

/-- The byte of a time register, read off the time. -/
def timeByte (i : BitVec 6) : Byte :=
  if i = Reg.seconds then bin2bcd r.dataModeYes r.ht.sec
  else if i = Reg.minutes then bin2bcd r.dataModeYes r.ht.min
  else if i = Reg.hours then to12 r.dataModeYes r.twenty4HourClock (bin2bcd r.dataModeYes r.ht.hour)
  else if i = Reg.dayWeek then bin2bcd r.dataModeYes (r.ht.wday + 1)
  else if i = Reg.dayMonth then bin2bcd r.dataModeYes r.ht.mday
  else if i = Reg.month then bin2bcd r.dataModeYes (r.ht.mon + 1)
  else if i = Reg.year then bin2bcd r.dataModeYes r.ht.year
  else r.reg i

/-- `port & CMOS_BIT_MASK`. -/
def portOf (port : BitVec 16) : BitVec 16 := port &&& 0x71

def cmosPort : BitVec 16 := 0x70
def cmosData : BitVec 16 := 0x71

/-- `cmos_inb`, with the value it stores if it stores one. -/
def cmosInb (port : BitVec 16) : Option Byte × Rtc :=
  if portOf port = cmosData then
    let value := r.reg r.cmosIndex
    if r.cmosIndex = Reg.a then (some value, r.setReg Reg.a (r.reg Reg.a &&& ~~~uip))
    else if r.cmosIndex = Reg.c then (some value, r.setReg Reg.c 0)
    else if r.cmosIndex < Reg.a then
      (some (r.timeByte r.cmosIndex), r.setReg r.cmosIndex (r.timeByte r.cmosIndex))
    else (some value, r)
  else (none, r)

/-- A time register is written: the difference goes to `user_time`. -/
def shift (difference : ℤ) : Rtc := { r with userTime := r.userTime + difference }

/-- The conversions a value of register B selects. -/
def setModes (value : Byte) : Rtc :=
  { r with dataModeYes := !has value dm, twenty4HourClock := has value hr24 }

/-- `PIE` is as the value has it. -/
def setPie (value : Byte) (h : ℕ) : Except Stop Rtc :=
  if has (r.reg Reg.b ^^^ value) pie then r.changePie (has value pie) h else .ok r

/-- The register B case of `cmos_outb`. -/
def outRegB (value : Byte) (h : ℕ) : Except Stop Rtc := do
  let r' ← (r.setModes value).setPie value h
  return r'.setReg Reg.b value

/-- The cases of `cmos_outb` but those of registers B, C and D. -/
def outByte (value : Byte) : Rtc :=
  let i := r.cmosIndex
  let bin := bcd2bin r.dataModeYes value
  if i = Reg.a then
    let regA := (r.reg Reg.a &&& 0x80) ||| (value &&& 0x7f)
    { r.setReg i regA with rtcPeriod := pirUsec (rate regA) }
  else if i = Reg.seconds then
    ((r.setReg i ((r.reg i &&& 0x80) ||| (value &&& 0x7f))).shift (bin - r.ht.sec)).resetting
  else if i = Reg.minutes then ((r.setReg i value).shift ((bin - r.ht.min) * 60)).resetting
  else if i = Reg.hours then
    ((r.setReg i value).shift
      ((to24 r.dataModeYes r.twenty4HourClock bin - r.ht.hour) * 60 * 60)).resetting
  else if i = Reg.dayMonth then (r.setReg i value).shift ((bin - r.ht.mday) * 60 * 60 * 24)
  else if i = Reg.month then (r.setReg i value).shift ((bin - 1 - r.ht.mon) * 60 * 60 * 24 * 30)
  else if i = Reg.year then (r.setReg i value).shift ((bin - r.ht.year) * 60 * 60 * 24 * 30 * 12)
  else if i = Reg.secAlarm ∨ i = Reg.minAlarm ∨ i = Reg.hrAlarm then (r.setReg i value).resetting
  else r.setReg i value

/-- `cmos_outb` to the data port; registers C and D are read only. -/
def outData (value : Byte) (h : ℕ) : Except Stop Rtc :=
  if r.cmosIndex = Reg.c ∨ r.cmosIndex = Reg.d then .ok r
  else if r.cmosIndex = Reg.b then r.outRegB value h
  else .ok (r.outByte value)

def cmosOutb (port : BitVec 16) (value : Byte) (h : ℕ) : Except Stop Rtc :=
  if portOf port = cmosPort then .ok { r with cmosIndex := value.setWidth 6 }
  else if portOf port = cmosData then r.outData value h
  else .ok r

/-! ## Time -/

/-- "Simple update - add 1 second to time." -/
def addSecond (t : HostTm) : HostTm :=
  if t.sec + 1 = 60 then
    if t.min + 1 = 60 then
      if t.hour + 1 = 25 then { t with sec := 0, min := 0, hour := 0, mday := t.mday + 1 }
      else { t with sec := 0, min := 0, hour := t.hour + 1 }
    else { t with sec := 0, min := t.min + 1 }
  else { t with sec := t.sec + 1 }

/-- The cases of `rtc_tick`. -/
def cycle : Rtc :=
  if r.cmosCount = 0 then
    let r := r.interruptIf uie
    let r := r.setReg Reg.c (r.reg Reg.c ^^^ uf)
    r.setReg Reg.a (r.reg Reg.a ||| uip)
  else if r.cmosCount = 1 then
    let r := r.setReg Reg.c (r.reg Reg.c ^^^ uf)
    r.setReg Reg.a (r.reg Reg.a &&& ~~~uip)
  else if r.cmosCount = 17 then
    if has (r.reg Reg.b) set then r
    else { r with ht := addSecond r.ht }.see (.updated (addSecond r.ht) r.setting)
  else r

/-- "Waggle the status bit in case something is polling." -/
def waggle : Rtc :=
  if r.periodicHandle = 0 && !has (r.reg Reg.b) pie then r.setReg Reg.c (r.reg Reg.c ^^^ pf) else r

def rtcTick (h : ℕ) : Rtc :=
  let r := r.cycle
  let r := { r with cmosCount := (r.cmosCount + 1) % 18 }.waggle
  if r.resetAlarm then { r with resetAlarm := false }.setAlarm h else r

/-- The alarms with a tick less to go. -/
def counted : List (ℕ × BitVec 32) := r.alarms.map fun e => (e.1, e.2 - 1)

/-- `dispatch_tic_event`, as far as the alarms are concerned. -/
def dispatchTicEvent : Rtc :=
  (r.counted.filter fun e => e.2 = 0).foldl (fun r _ => r.rtcAlarm)
    { r with alarms := r.counted.filter fun e => e.2 ≠ 0 }

def syncRtcToHostTime (now : HostTm) : Rtc :=
  let r := { r with cmosCount := 0, ht := now }
  let r := r.setReg Reg.seconds (r.timeByte Reg.seconds)
  let r := r.setReg Reg.minutes (r.timeByte Reg.minutes)
  let r := r.setReg Reg.hours (r.timeByte Reg.hours)
  let r := r.setReg Reg.dayWeek (r.timeByte Reg.dayWeek)
  let r := r.setReg Reg.month (r.timeByte Reg.month)
  let r := r.setReg Reg.year (r.timeByte Reg.year)
  r.setReg Reg.century (bin2bcd r.dataModeYes 19)

def rtcInit (now : HostTm) (h : ℕ) : Rtc :=
  ({ r with dataModeYes := true, twenty4HourClock := true }.syncRtcToHostTime now).setAlarm h

/-! ## Snapshots -/

/-- `softpc_device_cmos_state`, the time always being valid. -/
structure CmosState where
  bytes : BitVec 6 → Byte
  selectedIndex : BitVec 6
  dataModeYes : Bool
  twenty4HourClock : Bool
  resetAlarm : Bool
  rtcIntEnabled : Bool
  cmosCount : ℕ
  hostTime : HostTm
  userTime : ℤ
  periodicMilliseconds : BitVec 32
  periodicEventHandle : ℕ

/-- `softpc_device_snapshot_capture_cmos`. -/
def capture : CmosState where
  bytes := r.cmos
  selectedIndex := r.cmosIndex
  dataModeYes := r.dataModeYes
  twenty4HourClock := r.twenty4HourClock
  resetAlarm := r.resetAlarm
  rtcIntEnabled := r.rtcIntEnabled
  cmosCount := r.cmosCount
  hostTime := r.ht
  userTime := r.userTime
  periodicMilliseconds := r.rtcPeriod
  periodicEventHandle := r.periodicHandle

/-- `softpc_device_snapshot_restore_cmos`; `none` is FALSE. -/
def restore (s : CmosState) : Option Rtc :=
  if s.cmosCount ≥ 18 then none
  else some { r with
    cmos := s.bytes, cmosIndex := s.selectedIndex, dataModeYes := s.dataModeYes
    twenty4HourClock := s.twenty4HourClock, resetAlarm := s.resetAlarm
    rtcIntEnabled := s.rtcIntEnabled, cmosCount := s.cmosCount, userTime := s.userTime
    rtcPeriod := s.periodicMilliseconds, periodicHandle := s.periodicEventHandle, ht := s.hostTime }

/-! ## Steps -/

/-- What happens to the clock.  The handles are those the event lists give if they are asked for one. -/
inductive Op
  | outb (port : BitVec 16) (value : Byte) (handle : ℕ)
  | inb (port : BitVec 16)
  /-- A time strobe: `rtc_tick`, then `dispatch_tic_event`. -/
  | tick (handle : ℕ)
  /-- The first event of `rtc_periodic_event` expires. -/
  | expire (handle : ℕ)
  /-- The clock is set by the host. -/
  | sync (now : HostTm)
  /-- The state is captured and restored, with the events, in a process with this `handle` in `set_alarm`. -/
  | snapshot (alarmHandle : ℕ)
  deriving DecidableEq

def step : Op → Except Stop Rtc
  | .outb port value h => if r.fresh h then r.cmosOutb port value h else .error .outOfTurn
  | .inb port => .ok (r.cmosInb port).2
  | .tick h => if r.fresh h then .ok (r.rtcTick h).dispatchTicEvent else .error .outOfTurn
  | .expire h =>
    if r.fresh h then
      match r.periodic with
      | _ :: periodic => { r with periodic }.rtcPeriodicEvent h
      | [] => .error .outOfTurn
    else .error .outOfTurn
  | .sync now => .ok (r.syncRtcToHostTime now)
  | .snapshot alarmHandle =>
    match { r with alarmHandle }.restore r.capture with
    | some r' => .ok r'
    | none => .error .refused

/-- **A snapshot restores** all but the handle in `set_alarm`. -/
theorem step_snapshot {r : Rtc} (h : r.cmosCount < 18) (alarmHandle : ℕ) :
    r.step (.snapshot alarmHandle) = .ok { r with alarmHandle } := by
  have hrestore : { r with alarmHandle }.restore r.capture = some { r with alarmHandle } :=
    if_neg (Nat.not_le.mpr h)
  simp only [step, hrestore]

end Rtc

end SoftPC.Cmos
