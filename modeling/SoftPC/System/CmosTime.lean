import SoftPC.Machinery.Calendar
import SoftPC.Machinery.Outcome
import SoftPC.System.Cmos

/-!
# System/CmosTime — the time the clock shows

    guest ──▸ ports ──▸ Rtc ──▸ bytes      (the code)
          └───────────▸ Clock ──▸ fields   (a calendar with registers)

What a clock with the registers of the chip is for: it keeps the date and time it is given, second by
second, and shows it in the mode of register B (`Clock`).  The code shows the same (`Bench.time_kept`) as
long as nothing is asked of it that it does not do: be set, pass midnight, show a year past 1999, or show
noon, midnight, 8 PM and 9 PM by the 12-hour clock.
-/

namespace SoftPC.Cmos

/-! ## What bytes denote -/

/-- The fields of the time that have registers. -/
inductive Field
  | second | minute | hour | weekday | day | month | year
  deriving DecidableEq

namespace Field

def reg : Field → BitVec 6
  | second => Reg.seconds
  | minute => Reg.minutes
  | hour => Reg.hours
  | weekday => Reg.dayWeek
  | day => Reg.dayMonth
  | month => Reg.month
  | year => Reg.year

/-- The field a register shows. -/
def ofReg (i : BitVec 6) : Option Field :=
  [second, minute, hour, weekday, day, month, year].find? fun f => f.reg = i

/-- The numbers a register may show. -/
def lowest : Field → ℕ
  | weekday | day | month => 1
  | _ => 0

def highest : Field → ℕ
  | second | minute => 59
  | hour => 23
  | weekday => 7
  | day => 31
  | month => 12
  | year => 99

end Field

/-- The modes of register B. -/
structure Mode where
  bcd : Bool
  h24 : Bool
  deriving DecidableEq

/-- The number a byte stands for: binary, or two decimal digits. -/
def number (bcd : Bool) (v : Byte) : Option ℕ :=
  if bcd then
    if v.toNat % 16 < 10 ∧ v.toNat / 16 < 10 then some (v.toNat / 16 * 10 + v.toNat % 16) else none
  else some v.toNat

/-- The hour a byte stands for by the 12-hour clock, its top bit being PM. -/
def hour12 (bcd : Bool) (v : Byte) : Option ℕ :=
  match number bcd (v &&& 0x7f) with
  | some n => if 1 ≤ n ∧ n ≤ 12 then some (n % 12 + if has v 0x80 then 12 else 0) else none
  | none => none

/-- The number a byte of a time register stands for, if it is a valid one. -/
def Mode.denotes (m : Mode) (f : Field) (v : Byte) : Option ℕ :=
  if f = .hour ∧ !m.h24 then hour12 m.bcd v
  else
    match number m.bcd v with
    | some n => if f.lowest ≤ n ∧ n ≤ f.highest then some n else none
    | none => none

/-! ## The clock -/

/-- The number a register shows at a moment. -/
def Field.shown (t : Moment) : Field → ℕ
  | second => t.second
  | minute => t.minute
  | hour => t.hour
  | weekday => t.weekday + 1
  | day => t.day
  | month => t.month
  | year => t.year % 100

/-- The moment with one register changed. -/
def Field.put (t : Moment) (n : ℕ) : Field → Moment
  | second => { t with second := n }
  | minute => { t with minute := n }
  | hour => { t with hour := n }
  | weekday => { t with weekday := n - 1 }
  | day => { t with day := n }
  | month => { t with month := n }
  | year => { t with year := t.year / 100 * 100 + n }

/-- A clock with registers. -/
structure Clock where
  now : Moment
  mode : Mode
  /-- Updates are held back. -/
  held : Bool
  /-- The ticks of the present second. -/
  phase : ℕ
  /-- The register selected. -/
  index : BitVec 6
  deriving DecidableEq

namespace Clock

/-- A time register takes the number a byte stands for, register B its modes. -/
def write (c : Clock) (v : Byte) : Clock :=
  if c.index = Reg.b then { c with mode := ⟨!has v dm, has v hr24⟩, held := has v set }
  else
    match Field.ofReg c.index with
    | some f =>
      match c.mode.denotes f v with
      | some n => { c with now := f.put c.now n }
      | none => c
    | none => c

/-- Every 18th tick ends a second. -/
def tick (c : Clock) : Clock :=
  let now := if c.phase = 17 ∧ !c.held then c.now.next else c.now
  { c with now, phase := (c.phase + 1) % 18 }

/-- The clock's fields are in range, and it is in the course of a second. -/
structure Sound (c : Clock) : Prop where
  valid : c.now.Valid
  phase : c.phase < 18

open Rtc in
def step (c : Clock) : Op → Clock
  | .outb port v _ =>
    if portOf port = cmosPort then { c with index := v.setWidth 6 }
    else if portOf port = cmosData then c.write v
    else c
  | .tick _ => c.tick
  | _ => c

end Clock

/-! ## The code beside the clock -/

/-- A time register that was read: its mode, the byte, and what the clock showed. -/
structure Reading where
  field : Field
  mode : Mode
  value : Byte
  shown : ℕ
  deriving DecidableEq

/-- The byte stands for what the clock shows. -/
def Reading.Right (x : Reading) : Prop := x.mode.denotes x.field x.value = some x.shown

instance (x : Reading) : Decidable x.Right := inferInstanceAs (Decidable (_ = _))

/-- The moment of a `struct host_tm`. -/
def HostTm.moment (t : HostTm) : Moment :=
  ⟨t.sec, t.min, t.hour, t.wday, t.mday, t.mon + 1, 1900 + t.year⟩

/-- The code and the clock, given the same. -/
structure Bench where
  rtc : Rtc
  clock : Clock
  readings : List Reading := []

namespace Bench

variable (b : Bench)

/-- The reading an access makes. -/
def reading : Rtc.Op → Option Reading
  | .inb port =>
    match (b.rtc.cmosInb port).1, Field.ofReg b.clock.index with
    | some value, some field => some ⟨field, b.clock.mode, value, field.shown b.clock.now⟩
    | _, _ => none
  | _ => none

def step (op : Rtc.Op) : Except Stop Bench := do
  let rtc ← b.rtc.step op
  return { rtc, clock := b.clock.step op, readings := (b.reading op).toList ++ b.readings }

/-- The code and the clock once `rtc_init` has run. -/
def init (r : Rtc) (now : HostTm) (h : ℕ) : Bench where
  rtc := r.rtcInit now h
  clock := ⟨now.moment, ⟨true, true⟩, has (r.reg Reg.b) set, 0, r.cmosIndex⟩

end Bench

namespace Rtc

variable (r : Rtc)

def mode : Mode := ⟨r.dataModeYes, r.twenty4HourClock⟩

/-- The clock as the code has it. -/
def clock : Clock := ⟨r.ht.moment, r.mode, has (r.reg Reg.b) set, r.cmosCount, r.cmosIndex⟩

/-- The hours the code shows rightly by the 12-hour clock. -/
def ShownRight (dataModeYes : Bool) (hour : ℕ) : Prop :=
  hour ≠ 0 ∧ hour ≠ 12 ∧ (dataModeYes → hour ≠ 20 ∧ hour ≠ 21)

instance (dataModeYes : Bool) (hour : ℕ) : Decidable (ShownRight dataModeYes hour) :=
  inferInstanceAs (Decidable (_ ∧ _))

/-- What the code is asked for: no time register is given another value, the hours are not read where the
12-hour clock shows them wrong nor the year past 1999, and the clock does not pass midnight. -/
def Kept : Op → Prop
  | .outb port v _ =>
    portOf port = cmosData → ∀ f ∈ Field.ofReg r.cmosIndex, ∀ n ∈ r.mode.denotes f v, n = f.shown r.ht.moment
  | .inb port =>
    portOf port = cmosData →
      (r.cmosIndex = Reg.hours → r.twenty4HourClock = false → ShownRight r.dataModeYes r.ht.hour) ∧
      (r.cmosIndex = Reg.year → r.ht.year < 100)
  | .tick _ =>
    r.cmosCount = 17 → has (r.reg Reg.b) set = false → ¬(r.ht.sec = 59 ∧ r.ht.min = 59 ∧ r.ht.hour = 23)
  | .expire _ => has (r.reg Reg.b) pie → r.rtcPeriod ≠ 0
  | .sync _ => False
  | .snapshot _ => True

instance (op : Op) : Decidable (r.Kept op) :=
  match op with
  | .outb _ _ _ | .inb _ | .tick _ | .expire _ => inferInstanceAs (Decidable (_ → _))
  | .sync _ => .isFalse id
  | .snapshot _ => .isTrue trivial

variable {r}

/-! ## What leaves the clock alone -/

@[simp] theorem clock_setReg {i : BitVec 6} {v : Byte} (h : i ≠ Reg.b) : (r.setReg i v).clock = r.clock := by
  rw [clock, reg_setReg, if_neg h.symm]
  rfl

theorem clock_ite {c : Prop} [Decidable c] {r₁ r₂ : Rtc} {k : Clock} (h₁ : r₁.clock = k) (h₂ : r₂.clock = k) :
    (if c then r₁ else r₂).clock = k := by
  split_ifs
  · exact h₁
  · exact h₂

theorem clock_interruptIf (enable : Byte) : (r.interruptIf enable).clock = r.clock := by
  have hc (v : Byte) : (r.setReg Reg.c v).clock = r.clock := clock_setReg (by decide)
  exact clock_ite (clock_ite (hc (r.reg Reg.c ||| irqf)) (hc _)) rfl

theorem clock_rtcAlarm : r.rtcAlarm.clock = r.clock :=
  (clock_interruptIf aie).trans (clock_setReg (by decide))

theorem clock_setAlarm (h : ℕ) : (r.setAlarm h).clock = r.clock := by
  have hadd (r : Rtc) (ticks : BitVec 32) : (r.addAlarm ticks h).clock = r.clock :=
    clock_ite clock_rtcAlarm rfl
  unfold setAlarm
  rw [hadd]
  exact clock_ite rfl rfl

theorem clock_dispatchTicEvent : r.dispatchTicEvent.clock = r.clock := by
  have hfold (es : List (ℕ × BitVec 32)) (r : Rtc) : (es.foldl (fun r _ => r.rtcAlarm) r).clock = r.clock := by
    induction es generalizing r with
    | nil => rfl
    | cons e es ih => rw [List.foldl_cons, ih, clock_rtcAlarm]
  exact hfold _ _

theorem clock_waggle : r.waggle.clock = r.clock := clock_ite (clock_setReg (by decide)) rfl

theorem clock_addPeriodic (h : ℕ) (hperiod : r.rtcPeriod ≠ 0) :
    Ends (r.addPeriodic h) fun r' => r'.clock = r.clock :=
  ⟨_, if_neg hperiod, rfl⟩

theorem clock_changePie (newPie : Bool) (h : ℕ) :
    Ends (r.changePie newPie h) fun r' => r'.clock = r.clock := by
  refine .ite (fun hon => ?_) fun _ => .ok rfl
  simp only [Bool.and_eq_true, decide_eq_true_eq] at hon
  exact clock_addPeriodic h hon.2

theorem clock_rtcPeriodicEvent (h : ℕ) (hperiod : has (r.reg Reg.b) pie → r.rtcPeriod ≠ 0) :
    Ends (r.rtcPeriodicEvent h) fun r' => r'.clock = r.clock := by
  refine .ite (fun hon => ?_) fun _ => .ok rfl
  have hclock : (r.setReg Reg.c (r.reg Reg.c ||| (irqf ||| pf))).clock = r.clock := clock_setReg (by decide)
  exact ⟨_, if_neg (hperiod hon), hclock⟩

/-! ## What goes on -/

/-- An update adds a second, unless it ends the day. -/
theorem moment_addSecond {t : HostTm} (h : t.moment.Valid) (hday : ¬(t.sec = 59 ∧ t.min = 59 ∧ t.hour = 23)) :
    (addSecond t).moment = t.moment.next := by
  have hsec : t.sec < 60 := h.second
  have hmin : t.min < 60 := h.minute
  have hhour : t.hour < 24 := h.hour
  unfold addSecond Moment.next HostTm.moment
  dsimp only
  split_ifs <;> first | rfl | omega

/-- The other cases of a tick only touch registers A and C. -/
theorem clock_cycle_of_ne (h : r.cmosCount ≠ 17) : r.cycle.clock = r.clock := by
  have hc : Reg.c ≠ Reg.b := by decide
  have ha : Reg.a ≠ Reg.b := by decide
  unfold cycle
  rw [if_neg h]
  refine clock_ite ?_ (clock_ite ?_ rfl)
  · rw [clock_setReg ha, clock_setReg hc]
    exact clock_interruptIf uie
  · rw [clock_setReg ha, clock_setReg hc]

theorem cycle_of_eq (h : r.cmosCount = 17) :
    r.cycle = if has (r.reg Reg.b) set then r
      else { r with ht := addSecond r.ht }.see (.updated (addSecond r.ht) r.setting) := by
  unfold cycle
  rw [if_neg (by omega), if_neg (by omega), if_pos h]

/-- A tick of the code is one of the clock. -/
theorem clock_rtcTick (h : ℕ) (hvalid : r.ht.moment.Valid) (hkept : r.Kept (.tick h)) :
    (r.rtcTick h).clock = r.clock.tick := by
  have hcycle : r.cycle.clock = { r.clock with now := r.clock.tick.now } := by
    by_cases h17 : r.cmosCount = 17
    · rw [cycle_of_eq h17]
      cases hset : has (r.reg Reg.b) set with
      | true =>
        have hnow : r.clock.tick.now = r.ht.moment := if_neg (by simp [clock, hset])
        rw [hnow]
        rfl
      | false =>
        have hnow : r.clock.tick.now = r.ht.moment.next := if_pos ⟨h17, by simp [clock, hset]⟩
        rw [hnow, ← moment_addSecond hvalid (hkept h17 hset)]
        rfl
    · have hnow : r.clock.tick.now = r.ht.moment := if_neg fun h => h17 h.1
      rw [clock_cycle_of_ne h17, hnow]
      rfl
  have hcounted : { r.cycle with cmosCount := (r.cycle.cmosCount + 1) % 18 }.waggle.clock = r.clock.tick := by
    rw [clock_waggle]
    change { r.cycle.clock with phase := (r.cycle.clock.phase + 1) % 18 } = r.clock.tick
    rw [hcycle]
    rfl
  unfold rtcTick
  exact clock_ite ((clock_setAlarm h).trans hcounted) hcounted

/-! ## What is written -/

/-- A register that is given the value it has keeps it. -/
theorem put_shown (f : Field) (t : Moment) : f.put t (f.shown t) = t := by
  cases f with
  | year =>
    have := Nat.div_add_mod t.year 100
    simp only [Field.put, Field.shown]
    congr
    omega
  | _ => rfl

/-- Register B is the modes'. -/
theorem clock_outRegB (v : Byte) (h : ℕ) :
    Ends (r.outRegB v h) fun r' =>
      r'.clock = { r.clock with mode := ⟨!has v dm, has v hr24⟩, held := has v set } := by
  have hset (r : Rtc) : (r.setReg Reg.b v).clock = { r.clock with held := has v set } := by
    rw [clock, reg_setReg, if_pos rfl]
    rfl
  have hpie : Ends ((r.setModes v).setPie v h) fun r' => r'.clock = (r.setModes v).clock :=
    .ite (fun _ => clock_changePie _ h) fun _ => .ok rfl
  refine hpie.map fun r' hr' => ?_
  rw [hset, hr']
  rfl

theorem clock_outByte (v : Byte) (hb : r.cmosIndex ≠ Reg.b) : (r.outByte v).clock = r.clock := by
  have hset (w : Byte) : (r.setReg r.cmosIndex w).clock = r.clock := clock_setReg hb
  unfold outByte
  exact clock_ite (hset _) <| clock_ite (hset _) <| clock_ite (hset _) <| clock_ite (hset _) <|
    clock_ite (hset _) <| clock_ite (hset _) <| clock_ite (hset _) <| clock_ite (hset _) (hset _)

/-- **Writing** a time register the value it has leaves the clock as it is. -/
theorem write_eq_self {v : Byte} (hb : r.cmosIndex ≠ Reg.b)
    (hkept : ∀ f ∈ Field.ofReg r.cmosIndex, ∀ n ∈ r.mode.denotes f v, n = f.shown r.ht.moment) :
    r.clock.write v = r.clock := by
  unfold Clock.write
  rw [if_neg (show r.clock.index ≠ Reg.b from hb)]
  split
  · rename_i f hf
    split
    · rename_i n hn
      rw [hkept f hf n hn]
      change { r.clock with now := f.put r.ht.moment (f.shown r.ht.moment) } = r.clock
      rw [put_shown]
      rfl
    · rfl
  · rfl

theorem clock_outData (v : Byte) (h : ℕ)
    (hkept : ∀ f ∈ Field.ofReg r.cmosIndex, ∀ n ∈ r.mode.denotes f v, n = f.shown r.ht.moment) :
    Ends (r.outData v h) fun r' => r'.clock = r.clock.write v := by
  unfold outData
  by_cases hb : r.cmosIndex = Reg.b
  · rw [if_neg (by rw [hb]; decide), if_pos hb, Clock.write, if_pos (show r.clock.index = Reg.b from hb)]
    exact clock_outRegB v h
  · rw [write_eq_self hb hkept, if_neg hb]
    exact .ite (fun _ => .ok rfl) fun _ => .ok (clock_outByte v hb)

/-! ## What is read -/

theorem number_bin2bcd (bcd : Bool) {n : ℕ} (h : n < 100) : number bcd (bin2bcd bcd n) = some n := by
  have key : ∀ bcd, ∀ n : Fin 100, number bcd (bin2bcd bcd n) = some n.1 := by decide
  exact key bcd ⟨n, h⟩

theorem hour12_to12 {bcd : Bool} {n : ℕ} (hn : n < 24) (h : ShownRight bcd n) :
    hour12 bcd (to12 bcd false (bin2bcd bcd n)) = some n := by
  have key : ∀ bcd, ∀ n : Fin 24, ShownRight bcd n → hour12 bcd (to12 bcd false (bin2bcd bcd n)) = some n.1 := by
    decide
  exact key bcd ⟨n, hn⟩ h

theorem denotes_of_bounds (m : Mode) {f : Field} {n : ℕ} (hf : f = .hour → m.h24 = true) (h : n < 100)
    (hlow : f.lowest ≤ n) (hhigh : n ≤ f.highest) : m.denotes f (bin2bcd m.bcd n) = some n := by
  have hclock : ¬(f = .hour ∧ !m.h24) := fun h => by simp [hf h.1] at h
  unfold Mode.denotes
  rw [if_neg hclock, number_bin2bcd m.bcd h]
  exact if_pos ⟨hlow, hhigh⟩

/-- **Each register** shows its field. -/
theorem denotes_timeByte (f : Field) (hvalid : r.ht.moment.Valid)
    (hhour : f = .hour → r.twenty4HourClock = false → ShownRight r.dataModeYes r.ht.hour)
    (hyear : f = .year → r.ht.year < 100) :
    r.mode.denotes f (r.timeByte f.reg) = some (f.shown r.ht.moment) := by
  have hsec : r.ht.sec < 60 := hvalid.second
  have hmin : r.ht.min < 60 := hvalid.minute
  have hhr : r.ht.hour < 24 := hvalid.hour
  have hwday : r.ht.wday < 7 := hvalid.weekday
  have hmday : r.ht.mday ≤ 31 := hvalid.day.2.trans (Moment.daysIn_le _ _)
  have hmon : r.ht.mon + 1 ≤ 12 := hvalid.month.2
  cases f with
  | second => exact denotes_of_bounds r.mode nofun (by omega) (Nat.zero_le _) (Nat.le_of_lt_succ hsec)
  | minute => exact denotes_of_bounds r.mode nofun (by omega) (Nat.zero_le _) (Nat.le_of_lt_succ hmin)
  | hour =>
    cases h24 : r.twenty4HourClock with
    | true =>
      have hto : r.timeByte Field.hour.reg = bin2bcd r.mode.bcd r.ht.hour := by
        change to12 _ r.twenty4HourClock _ = _
        rw [h24]
        rfl
      rw [hto]
      exact denotes_of_bounds r.mode (fun _ => h24) (by omega) (Nat.zero_le _) (Nat.le_of_lt_succ hhr)
    | false =>
      have hto := hour12_to12 hhr (hhour rfl h24)
      rw [← h24] at hto
      exact (if_pos ⟨rfl, by simp [mode, h24]⟩).trans hto
  | weekday => exact denotes_of_bounds r.mode nofun (by omega) (Nat.le_add_left _ _) hwday
  | day => exact denotes_of_bounds r.mode nofun (by omega) hvalid.day.1 hmday
  | month => exact denotes_of_bounds r.mode nofun (by omega) (Nat.le_add_left _ _) hmon
  | year =>
    have hy := hyear rfl
    have hshown : Field.year.shown r.ht.moment = r.ht.year := by
      change (1900 + r.ht.year) % 100 = r.ht.year
      omega
    rw [hshown]
    exact denotes_of_bounds r.mode nofun hy (Nat.zero_le _) (Nat.le_of_lt_succ hy)

theorem ofReg_eq_some {i : BitVec 6} {f : Field} (h : Field.ofReg i = some f) : f.reg = i := by
  simpa using List.find?_some h

/-- **Reading** a time register. -/
theorem cmosInb_eq {port : BitVec 16} {f : Field} (hport : portOf port = cmosData)
    (hf : Field.ofReg r.cmosIndex = some f) : (r.cmosInb port).1 = some (r.timeByte f.reg) := by
  have hreg := ofReg_eq_some hf
  have hlt : f.reg < Reg.a ∧ f.reg ≠ Reg.a ∧ f.reg ≠ Reg.c := by cases f <;> decide
  unfold cmosInb
  rw [if_pos hport, ← hreg, if_neg hlt.2.1, if_neg hlt.2.2, if_pos hlt.1]

theorem clock_cmosInb (port : BitVec 16) : (r.cmosInb port).2.clock = r.clock := by
  unfold cmosInb
  dsimp only
  split_ifs with hport ha hc htime
  · exact clock_setReg (by decide)
  · exact clock_setReg (by decide)
  · exact clock_setReg fun hb => absurd htime (by rw [hb]; decide)
  · rfl
  · rfl

theorem clock_sync (now : HostTm) :
    (r.syncRtcToHostTime now).clock = { r.clock with now := now.moment, phase := 0 } := by
  unfold syncRtcToHostTime
  dsimp only
  rw [clock_setReg (by decide), clock_setReg (by decide), clock_setReg (by decide), clock_setReg (by decide),
    clock_setReg (by decide), clock_setReg (by decide), clock_setReg (by decide)]
  rfl

/-! ## Steps -/

/-- **Every step** of the code is one of the clock. -/
theorem clock_step {op : Op} (h : r.clock.Sound) (hkept : r.Kept op) :
    EndsUnless (· = .outOfTurn) (r.step op) fun r' => r'.clock = r.clock.step op := by
  cases op with
  | outb port v handle =>
    refine .ite (fun _ => Ends.unless ?_) fun _ => .error rfl
    unfold cmosOutb Clock.step
    dsimp only
    by_cases hport : portOf port = cmosPort
    · rw [if_pos hport, if_pos hport]
      exact .ok rfl
    · rw [if_neg hport, if_neg hport]
      by_cases hdata : portOf port = cmosData
      · rw [if_pos hdata, if_pos hdata]
        exact clock_outData v handle (hkept hdata)
      · rw [if_neg hdata, if_neg hdata]
        exact .ok rfl
  | inb port => exact .ok (clock_cmosInb port)
  | tick handle =>
    refine .ite (fun _ => .ok ?_) fun _ => .error rfl
    exact clock_dispatchTicEvent.trans (clock_rtcTick handle h.valid hkept)
  | expire handle =>
    refine .ite (fun _ => ?_) fun _ => .error rfl
    split
    · rename_i e periodic _
      exact (clock_rtcPeriodicEvent (r := { r with periodic }) handle hkept).unless
    · exact .error rfl
  | sync now => exact hkept.elim
  | snapshot alarmHandle =>
    rw [step_snapshot h.phase]
    exact .ok rfl

end Rtc

/-- A clock that is not set wrong stays sound. -/
theorem Clock.Sound.step {r : Rtc} {op : Rtc.Op} (h : r.clock.Sound) (hkept : r.Kept op) :
    (r.clock.step op).Sound := by
  cases op with
  | outb port v handle =>
    unfold Clock.step
    dsimp only
    split_ifs with hport hdata
    · exact ⟨h.valid, h.phase⟩
    · by_cases hb : r.cmosIndex = Reg.b
      · rw [Clock.write, if_pos (show r.clock.index = Reg.b from hb)]
        exact ⟨h.valid, h.phase⟩
      · rw [Rtc.write_eq_self hb (hkept hdata)]
        exact h
    · exact h
  | tick handle =>
    refine ⟨?_, Nat.mod_lt _ (by decide)⟩
    change (if _ then _ else _ : Moment).Valid
    split_ifs
    · exact h.valid.next
    · exact h.valid
  | _ => exact h

namespace Bench

open Rtc

variable {b : Bench}

/-- **The invariant**: the code is at the clock's time, and all it has shown was right. -/
structure Follows (b : Bench) : Prop where
  clock : b.clock = b.rtc.clock
  sound : b.clock.Sound
  right : ∀ x ∈ b.readings, x.Right

/-- A reading that is asked for is right. -/
theorem right_of_reading (h : b.Follows) {op : Rtc.Op} (hkept : b.rtc.Kept op) {x : Reading}
    (hx : b.reading op = some x) : x.Right := by
  cases op with
  | inb port =>
    have hindex : b.clock.index = b.rtc.cmosIndex := congrArg Clock.index h.clock
    unfold reading at hx
    rw [hindex] at hx
    cases hf : Field.ofReg b.rtc.cmosIndex with
    | none => simp [hf] at hx
    | some f =>
      by_cases hport : portOf port = cmosData
      · have hreg := ofReg_eq_some hf
        have hvalid : b.rtc.ht.moment.Valid := (h.clock ▸ h.sound).valid
        have hdenotes := denotes_timeByte f hvalid (fun hh => (hkept hport).1 (by rw [← hreg, hh]; rfl))
          fun hy => (hkept hport).2 (by rw [← hreg, hy]; rfl)
        simp only [cmosInb_eq hport hf, hf, Option.some.injEq] at hx
        rw [← hx, h.clock]
        exact hdenotes
      · simp [cmosInb, hport] at hx
  | _ => cases hx

theorem step_follows (h : b.Follows) {op : Rtc.Op} (hkept : b.rtc.Kept op) :
    EndsUnless (· = .outOfTurn) (b.step op) Follows := by
  have hsound := h.clock ▸ h.sound
  refine (Rtc.clock_step hsound hkept).bind fun r' hr' => .ok ?_
  refine ⟨?_, ?_, ?_⟩
  · rw [hr', h.clock]
  · rw [h.clock]
    exact hsound.step hkept
  · intro x hx
    obtain hnew | hold := List.mem_append.mp hx
    · exact right_of_reading h hkept (Option.mem_toList.mp hnew)
    · exact h.right x hold

theorem init_follows (r : Rtc) {now : HostTm} (hnow : now.moment.Valid) (h : ℕ) : (init r now h).Follows := by
  refine ⟨?_, ⟨hnow, (by decide : 0 < 18)⟩, nofun⟩
  change _ = (r.rtcInit now h).clock
  unfold Rtc.rtcInit
  rw [clock_setAlarm, clock_sync]
  rfl

/-- **The clock keeps its time**: from any valid host time, along every run that asks of the code what it
does, each time register read shows the field of a valid time, which is the one given, advanced second by
second. -/
theorem time_kept (r : Rtc) (now : HostTm) (hnow : now.moment.Valid) (h : ℕ) {ops : List Rtc.Op}
    (hkept : Meets step (fun b op => b.rtc.Kept op) (init r now h) ops) :
    EndsUnless (· = .outOfTurn) (ops.foldlM step (init r now h)) fun b =>
      b.clock.now.Valid ∧ ∀ x ∈ b.readings, x.Right :=
  (hkept.endsUnless_foldlM (fun _ _ hb hop => step_follows hb hop) (init_follows r hnow h)).mono
    fun _ hb => ⟨hb.sound.valid, hb.right⟩

/-- A guest that selects a register and reads it, or writes it. -/
def read (i : Byte) : List Op := [.outb 0x70 i 4, .inb 0x71]

def write (i v : Byte) : List Op := [.outb 0x70 i 4, .outb 0x71 v 4]

/-- A moment of 1994. -/
def spring (hour min sec : ℕ) : HostTm := ⟨sec, min, hour, 14, 2, 94, 1⟩

/-- The hour changes, and is read by the 12-hour clock. -/
theorem time_kept_at_eleven :
    EndsUnless (· = Stop.outOfTurn)
      ((write 4 0x10 ++ [Op.tick 2] ++ List.replicate 17 (Op.tick 3) ++ write 0xb 0 ++ read 4 ++ read 9).foldlM step
        (init { ht := spring 0 0 0 } (spring 10 59 59) 1))
      fun b => b.clock.now.Valid ∧ ∀ x ∈ b.readings, x.Right :=
  time_kept { ht := spring 0 0 0 } (spring 10 59 59) (by decide) 1 (by decide)

/-- Something wrong is shown. -/
def ShowsWrong (now : HostTm) (ops : List Op) : Prop :=
  Ends (ops.foldlM step (init { ht := now } now 1)) fun b => ∃ x ∈ b.readings, ¬x.Right

instance (now : HostTm) (ops : List Op) : Decidable (ShowsWrong now ops) :=
  inferInstanceAs (Decidable (Ends _ _))

/-- Each thing the code does not do is seen by the guest: the seconds are set; midnight is passed; noon,
midnight and 8 PM are read by the 12-hour clock; the year is read in 2000. -/
theorem time_not_kept :
    ShowsWrong (spring 10 0 0) (write 0 0x30 ++ read 0) ∧
    ShowsWrong (spring 23 59 59) (List.replicate 18 (.tick 2) ++ read 4) ∧
    ShowsWrong (spring 12 0 0) (write 0xb 0 ++ read 4) ∧
    ShowsWrong (spring 0 0 0) (write 0xb 0 ++ read 4) ∧
    ShowsWrong (spring 20 0 0) (write 0xb 0 ++ read 4) ∧
    ShowsWrong { spring 10 0 0 with year := 100 } (read 9) := by
  decide

end Bench

end SoftPC.Cmos
