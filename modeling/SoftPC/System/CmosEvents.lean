import SoftPC.System.CmosTime

/-!
# System/CmosEvents — the periodic interrupt and the alarm

    register B, PIE ──▸ rtc_periodic_event ──▸ itself again, a period later
    alarm bytes, time ──next tick──▸ set_alarm ──18 ticks a second──▸ rtc_alarm

Neither event is tied to what it stands for: the periodic one keeps its period whatever register A says,
and the alarm counts ticks from the moment it is set.  What the code is asked for so that both hold all
the same is `Rtc.Orderly`; along a run of such steps one event is queued for each, exactly when it is due
(`Rtc.events_scheduled`).
-/

namespace SoftPC.Cmos

/-! ## When the alarm is due -/

/-- What an alarm byte asks of its field. -/
inductive Want
  | any
  | just (n : ℕ)
  | never
  deriving DecidableEq

def Want.admits : Want → ℕ → Bool
  | any, _ => true
  | just n, m => n = m
  | never, _ => false

/-- Both top bits are "don't care". -/
def Mode.want (m : Mode) (f : Field) (v : Byte) : Want :=
  if v &&& dontCare = dontCare then .any
  else
    match m.denotes f v with
    | some n => .just n
    | none => .never

/-- What the alarm bytes ask of a time. -/
structure Wish where
  sec : Want
  min : Want
  hour : Want
  deriving DecidableEq

/-- A second of a day, or of a later one, is one the alarm is for. -/
def Wish.admits (w : Wish) (second : ℕ) : Bool :=
  w.sec.admits (second % 60) && w.min.admits (second / 60 % 60) && w.hour.admits (second / 3600 % 24)

namespace Setting

def mode (s : Setting) : Mode := ⟨s.dataModeYes, s.twenty4HourClock⟩

def wish (s : Setting) : Wish :=
  ⟨s.mode.want .second s.sec, s.mode.want .minute s.min, s.mode.want .hour s.hour⟩

/-- The settings `set_alarm` understands, at a time: all three bytes count, no hour being PM or 12 AM; or
none; or only the seconds, or the minutes and seconds, and these are those of the time. -/
def understood (s : Setting) (t : HostTm) : Bool :=
  match s.wish with
  | ⟨.just _, .just _, .just hour⟩ => !has s.hour dontCare && (s.twenty4HourClock || hour ≠ 0)
  | ⟨.any, .any, .any⟩ => true
  | ⟨.just sec, .any, .any⟩ => sec = t.sec && !has s.sec dontCare
  | ⟨.just sec, .just min, .any⟩ => sec = t.sec && min = t.min && !has s.min dontCare
  | _ => false

end Setting

/-- The alarm is for the last second entered, and has not gone off in it. -/
def due : List Seen → Bool
  | .updated t s :: _ => s.wish.admits t.moment.ofDay
  | .alarm _ _ :: _ => false
  | .interrupt :: log | .deleted _ _ :: log => due log
  | [] => false

/-- Nothing is out of order: no second the alarm is for has passed without it, it has gone off in no
other, and no event was deleted that was gone. -/
def InOrder : List Seen → Prop
  | .updated _ _ :: log => due log = false ∧ InOrder log
  | .alarm t s :: log => s.wish.admits t.moment.ofDay = true ∧ InOrder log
  | .deleted h queued :: log => (queued = true ∨ h = 0) ∧ InOrder log
  | .interrupt :: log => InOrder log
  | [] => True

instance InOrder.decidable : ∀ log, Decidable (InOrder log)
  | .updated _ _ :: log | .alarm _ _ :: log | .deleted _ _ :: log =>
    have : Decidable (InOrder log) := InOrder.decidable log
    inferInstanceAs (Decidable (_ ∧ _))
  | .interrupt :: log => InOrder.decidable log
  | [] => .isTrue trivial

/-! ## What is asked of a step -/

namespace Rtc

variable (r : Rtc)

/-- The period selected. -/
def period : BitVec 32 := pirUsec (rate (r.reg Reg.a))

/-- The setting with other modes. -/
def settingIn (v : Byte) : Setting := { r.setting with dataModeYes := !has v dm, twenty4HourClock := has v hr24 }

/-- A write to register B: `PIE` is turned on with the period in force, and either way an event that is
deleted is there; the alarm bytes mean the same as before. -/
structure OrderlyB (v : Byte) : Prop where
  on : has (r.reg Reg.b) pie = false → has v pie → r.rtcPeriod = r.period
  handle : has (r.reg Reg.b) pie ≠ has v pie → r.period = 0 → r.periodicHandle = 0
  wish : r.resetAlarm = true ∨ (r.settingIn v).wish = r.setting.wish

/-- A tick: the alarm is not set in the tick that updates the time, the event it replaces is there and its
bytes are understood; the clock runs while an alarm is set, and does not pass midnight. -/
structure OrderlyTick : Prop where
  phase : r.resetAlarm = true → r.cmosCount ≠ 17
  handle : r.resetAlarm = true → r.alarmHandle = 0 ∨ r.alarms ≠ []
  understood : r.resetAlarm = true → r.setting.understood r.ht = true
  runs : r.cmosCount = 17 → r.resetAlarm = false → has (r.reg Reg.b) set = false
  midnight : r.cmosCount = 17 → ¬(r.ht.sec = 59 ∧ r.ht.min = 59 ∧ r.ht.hour = 23)

instance (v : Byte) : Decidable (r.OrderlyB v) :=
  decidable_of_iff ((has (r.reg Reg.b) pie = false → has v pie → r.rtcPeriod = r.period) ∧
      (has (r.reg Reg.b) pie ≠ has v pie → r.period = 0 → r.periodicHandle = 0) ∧
      (r.resetAlarm = true ∨ (r.settingIn v).wish = r.setting.wish))
    ⟨fun ⟨h₁, h₂, h₃⟩ => ⟨h₁, h₂, h₃⟩, fun h => ⟨h.on, h.handle, h.wish⟩⟩

instance : Decidable r.OrderlyTick :=
  decidable_of_iff ((r.resetAlarm = true → r.cmosCount ≠ 17) ∧
      (r.resetAlarm = true → r.alarmHandle = 0 ∨ r.alarms ≠ []) ∧
      (r.resetAlarm = true → r.setting.understood r.ht = true) ∧
      (r.cmosCount = 17 → r.resetAlarm = false → has (r.reg Reg.b) set = false) ∧
      (r.cmosCount = 17 → ¬(r.ht.sec = 59 ∧ r.ht.min = 59 ∧ r.ht.hour = 23)))
    ⟨fun ⟨h₁, h₂, h₃, h₄, h₅⟩ => ⟨h₁, h₂, h₃, h₄, h₅⟩,
      fun h => ⟨h.phase, h.handle, h.understood, h.runs, h.midnight⟩⟩

/-- What the code is asked for. -/
def Orderly : Op → Prop
  | .outb port v _ =>
    portOf port = cmosData →
      (r.cmosIndex = Reg.a → has (r.reg Reg.b) pie → pirUsec (rate v) = r.period) ∧
      (r.cmosIndex = Reg.b → r.OrderlyB v) ∧
      (r.cmosIndex ≤ Reg.hrAlarm → due r.log = false)
  | .inb _ | .expire _ => True
  | .tick _ => r.OrderlyTick
  | .sync now => now.moment.Valid ∧
      (r.resetAlarm = false → now.moment.ofDay = r.ht.moment.ofDay ∧ r.cmosCount = 0)
  | .snapshot alarmHandle => alarmHandle = r.alarmHandle ∨ alarmHandle = 0 ∧ r.alarms = []

instance (op : Op) : Decidable (r.Orderly op) :=
  match op with
  | .outb _ _ _ => inferInstanceAs (Decidable (_ → _))
  | .inb _ | .expire _ => .isTrue trivial
  | .tick _ => inferInstanceAs (Decidable r.OrderlyTick)
  | .sync _ => inferInstanceAs (Decidable (_ ∧ _))
  | .snapshot _ => inferInstanceAs (Decidable (_ ∨ _))

end Rtc

/-! ## The wait that `set_alarm` computes -/

/-- The alarm is next due so many seconds on. -/
structure Wish.Next (w : Wish) (now n : ℕ) : Prop where
  due : w.admits (now + n) = true
  first : ∀ j, 0 < j → j < n → w.admits (now + j) = false

namespace Wish.Next

variable {w : Wish} {now n : ℕ}

/-- A second later it is due a second sooner. -/
theorem succ (h : w.Next now (n + 1)) : w.Next (now + 1) n where
  due := by rw [Nat.add_assoc, Nat.add_comm 1]; exact h.due
  first j _ hj := by rw [Nat.add_assoc, Nat.add_comm 1]; exact h.first _ (Nat.succ_pos j) (Nat.succ_lt_succ hj)

/-- It is not due in between. -/
theorem eq_zero (h : w.Next now (n + 1)) (hnow : w.admits (now + 1) = true) : n = 0 := by
  by_contra hn
  have := h.first 1 Nat.one_pos (by omega)
  rw [hnow] at this
  cases this

theorem every (now : ℕ) : Next ⟨.any, .any, .any⟩ now 1 where
  due := rfl
  first j h0 h1 := by omega

theorem minutely (now : ℕ) : Next ⟨.just (now % 60), .any, .any⟩ now 60 where
  due := by simp [admits, Want.admits]
  first j h0 h60 := by
    have : now % 60 ≠ (now + j) % 60 := by omega
    simp [admits, Want.admits, this]

theorem hourly (now : ℕ) : Next ⟨.just (now % 60), .just (now / 60 % 60), .any⟩ now 3600 where
  due := by
    have : (now + 3600) / 60 % 60 = now / 60 % 60 := by omega
    simp [admits, Want.admits, this]
    omega
  first j h0 h3600 := by
    have : now % 60 = (now + j) % 60 → now / 60 % 60 ≠ (now + j) / 60 % 60 := by omega
    simpa [admits, Want.admits] using this

theorem daily {sec min hour now n : ℕ} (hsec : sec < 60) (hmin : min < 60) (hhour : hour < 24)
    (hn : n < 86400) (hnow : (now + n) % 86400 = sec + 60 * min + 3600 * hour) :
    Next ⟨.just sec, .just min, .just hour⟩ now n where
  due := by
    have h1 : sec = (now + n) % 60 := by omega
    have h2 : min = (now + n) / 60 % 60 := by omega
    have h3 : hour = (now + n) / 3600 % 24 := by omega
    simp [admits, Want.admits, ← h1, ← h2, ← h3]
  first j h0 hj := by
    have : sec = (now + j) % 60 → min = (now + j) / 60 % 60 → hour ≠ (now + j) / 3600 % 24 := by omega
    simpa [admits, Want.admits] using this

end Wish.Next

namespace Mode

variable {m : Mode} {f : Field} {v : Byte} {n : ℕ}

theorem has_of_want_any (h : m.want f v = .any) : has v dontCare = true := by
  unfold want at h
  split at h
  · rename_i hv
    unfold has
    rw [hv]
    decide
  · split at h <;> cases h

theorem denotes_of_want_just (h : m.want f v = .just n) : m.denotes f v = some n := by
  unfold want at h
  split at h
  · cases h
  · split at h
    · rename_i hn
      cases h
      exact hn
    · cases h

theorem bcd2bin_of_number {bcd : Bool} (h : number bcd v = some n) : bcd2bin bcd v = n := by
  unfold number at h
  unfold bcd2bin
  split_ifs at h ⊢
  · injection h with h
    omega
  · injection h

/-- A byte that is not an hour by the 12-hour clock is what the code takes it for. -/
theorem bcd2bin_of_denotes (hf : f = .hour → m.h24 = true) (h : m.denotes f v = some n) :
    bcd2bin m.bcd v = n ∧ n ≤ f.highest := by
  have hclock : ¬(f = .hour ∧ !m.h24) := fun h => by simp [hf h.1] at h
  unfold denotes at h
  rw [if_neg hclock] at h
  split at h
  · rename_i k hk
    split_ifs at h with hbounds
    injection h with h
    exact ⟨h ▸ bcd2bin_of_number hk, h ▸ hbounds.2⟩
  · cases h

/-- By the 12-hour clock it is from 1 AM to 11 AM. -/
theorem to24_of_hour12 {bcd : Bool} (hv : has v dontCare = false) (h : hour12 bcd v = some n) (hn : n ≠ 0) :
    to24 bcd false (bcd2bin bcd v) = n ∧ n < 24 := by
  have key : ∀ bcd, ∀ v : Byte, has v dontCare = false → hour12 bcd v = none ∨ hour12 bcd v = some 0 ∨
      (hour12 bcd v = some (to24 bcd false (bcd2bin bcd v)) ∧ to24 bcd false (bcd2bin bcd v) < 24) := by
    decide
  obtain hnone | hzero | ⟨hsome, hlt⟩ := key bcd v hv
  · rw [hnone] at h
    cases h
  · rw [hzero] at h
    injection h with h
    exact absurd h.symm hn
  · rw [hsome] at h
    injection h with h
    exact ⟨h, h ▸ hlt⟩

end Mode

namespace Rtc

variable {r : Rtc}

/-- The wait for an hour, a minute and a second. -/
theorem numsecs_daily {sec min hour : ℕ} (hdc : has (r.reg Reg.hrAlarm) dontCare = false)
    (hs : bcd2bin r.dataModeYes (r.reg Reg.secAlarm) = sec) (hm : bcd2bin r.dataModeYes (r.reg Reg.minAlarm) = min)
    (hh : to24 r.dataModeYes r.twenty4HourClock (bcd2bin r.dataModeYes (r.reg Reg.hrAlarm)) = hour) :
    r.numsecs = if (sec + 60 * min + 3600 * hour : ℤ) - r.ht.moment.ofDay < 0 then
      (sec + 60 * min + 3600 * hour : ℤ) - r.ht.moment.ofDay + 86400
      else (sec + 60 * min + 3600 * hour : ℤ) - r.ht.moment.ofDay := by
  unfold numsecs
  rw [if_neg (by rw [hdc]; decide), hs, hm, hh]
  have hnow : ((r.ht.moment.ofDay : ℕ) : ℤ) = r.ht.sec + 60 * r.ht.min + 3600 * r.ht.hour := by
    change ((r.ht.sec + 60 * r.ht.min + 3600 * r.ht.hour : ℕ) : ℤ) = _
    push_cast
    rfl
  rw [hnow]
  dsimp only
  split_ifs <;> omega

/-- The hour, where the code understands it. -/
theorem to24_of_want {hour : ℕ} (h : r.setting.mode.want .hour (r.reg Reg.hrAlarm) = .just hour)
    (hdc : has (r.reg Reg.hrAlarm) dontCare = false) (hpm : r.twenty4HourClock = true ∨ hour ≠ 0) :
    to24 r.dataModeYes r.twenty4HourClock (bcd2bin r.dataModeYes (r.reg Reg.hrAlarm)) = hour ∧ hour < 24 := by
  have hdenotes := Mode.denotes_of_want_just h
  cases h24 : r.twenty4HourClock with
  | true =>
    obtain ⟨hbin, hle⟩ := Mode.bcd2bin_of_denotes (fun _ => h24) hdenotes
    exact ⟨hbin, Nat.lt_succ_of_le hle⟩
  | false =>
    have hne : hour ≠ 0 := hpm.resolve_left (by simp [h24])
    unfold Mode.denotes at hdenotes
    rw [if_pos ⟨rfl, by simp [Setting.mode, setting, h24]⟩] at hdenotes
    exact Mode.to24_of_hour12 hdc hdenotes hne

/-- What the bytes ask, one by one. -/
theorem wish_eq_iff {ws wm wh : Want} :
    r.setting.wish = ⟨ws, wm, wh⟩ ↔ r.setting.mode.want .second (r.reg Reg.secAlarm) = ws ∧
      r.setting.mode.want .minute (r.reg Reg.minAlarm) = wm ∧
      r.setting.mode.want .hour (r.reg Reg.hrAlarm) = wh :=
  Wish.mk.injEq .. ▸ Iff.rfl

/-- **An alarm that is understood** is set for the next second it is for. -/
theorem next_numsecs (hvalid : r.ht.moment.Valid) (h : r.setting.understood r.ht = true) :
    ∃ n : ℕ, r.numsecs = n ∧ n < 86400 ∧ r.setting.wish.Next r.ht.moment.ofDay n := by
  have hsec : r.ht.sec < 60 := hvalid.second
  have hmin : r.ht.min < 60 := hvalid.minute
  have hhour : r.ht.hour < 24 := hvalid.hour
  have hofDay : r.ht.moment.ofDay = r.ht.sec + 60 * r.ht.min + 3600 * r.ht.hour := rfl
  unfold Setting.understood at h
  split at h
  · rename_i sec min hour hwish
    obtain ⟨hws, hwm, hwh⟩ := wish_eq_iff.1 hwish
    simp only [Bool.and_eq_true, Bool.not_eq_true', Bool.or_eq_true, decide_eq_true_eq] at h
    obtain ⟨hs, hs' : sec ≤ 59⟩ := Mode.bcd2bin_of_denotes (f := .second) nofun (Mode.denotes_of_want_just hws)
    obtain ⟨hm, hm' : min ≤ 59⟩ := Mode.bcd2bin_of_denotes (f := .minute) nofun (Mode.denotes_of_want_just hwm)
    obtain ⟨hh, hh'⟩ := to24_of_want hwh h.1 h.2
    have hn := numsecs_daily h.1 hs hm hh
    obtain ⟨n, hnat, hlt, hmod⟩ : ∃ n : ℕ, r.numsecs = n ∧ n < 86400 ∧
        (r.ht.moment.ofDay + n) % 86400 = sec + 60 * min + 3600 * hour := by
      refine ⟨r.numsecs.toNat, ?_⟩
      split_ifs at hn <;> omega
    exact ⟨n, hnat, hlt, hwish ▸ .daily (by omega) (by omega) hh' hlt hmod⟩
  · rename_i hwish
    obtain ⟨hws, hwm, hwh⟩ := wish_eq_iff.1 hwish
    refine ⟨1, ?_, by decide, hwish ▸ .every _⟩
    unfold numsecs
    rw [if_pos (Mode.has_of_want_any hwh), if_pos (Mode.has_of_want_any hwm), if_pos (Mode.has_of_want_any hws)]
    rfl
  · rename_i sec hwish
    obtain ⟨-, hwm, hwh⟩ := wish_eq_iff.1 hwish
    simp only [Bool.and_eq_true, Bool.not_eq_true', decide_eq_true_eq] at h
    have hnow : sec = r.ht.moment.ofDay % 60 := by omega
    refine ⟨60, ?_, by decide, hwish ▸ hnow ▸ .minutely _⟩
    unfold numsecs
    rw [if_pos (Mode.has_of_want_any hwh), if_pos (Mode.has_of_want_any hwm)]
    exact if_neg (ne_true_of_eq_false h.2)
  · rename_i sec min hwish
    obtain ⟨-, -, hwh⟩ := wish_eq_iff.1 hwish
    simp only [Bool.and_eq_true, Bool.not_eq_true', decide_eq_true_eq] at h
    have hs : sec = r.ht.moment.ofDay % 60 := by omega
    have hm : min = r.ht.moment.ofDay / 60 % 60 := by omega
    refine ⟨3600, ?_, by decide, hwish ▸ hs ▸ hm ▸ .hourly _⟩
    unfold numsecs
    rw [if_pos (Mode.has_of_want_any hwh)]
    exact if_neg (ne_true_of_eq_false h.2)
  · cases h

end Rtc

/-! ## The invariant -/

/-- What the periodic interrupt depends on. -/
structure Pulse where
  rate : BitVec 4
  on : Bool
  period : BitVec 32
  events : List (ℕ × BitVec 32)
  handle : ℕ

/-- One event is queued, with the period selected, when there is to be one, and none else. -/
structure Pulse.Beats (p : Pulse) : Prop where
  period : p.on = true → p.period = pirUsec p.rate
  beating : p.on = true → pirUsec p.rate ≠ 0 → p.handle ≠ 0 ∧ p.events = [(p.handle, pirUsec p.rate)]
  still : p.on = false ∨ pirUsec p.rate = 0 → p.events = []

/-- What the alarm depends on. -/
structure Bell where
  time : HostTm
  setting : Setting
  count : ℕ
  reset : Bool
  alarms : List (ℕ × BitVec 32)
  handle : ℕ
  due : Bool

namespace Bell

/-- Seconds since midnight. -/
def now (b : Bell) : ℕ := b.time.moment.ofDay

def wish (b : Bell) : Wish := b.setting.wish

/-- The seconds that end while an alarm is counted down, of which this tick may count already. -/
def seconds (b : Bell) (counted : ℕ) (left : BitVec 32) : ℕ := (left.toNat - counted + b.count) / 18

/-- An alarm is set, for the next second it is due in. -/
structure Armed (b : Bell) (counted : ℕ) (left : BitVec 32) : Prop where
  reset : b.reset = false
  handle : b.handle ≠ 0
  alarms : b.alarms = [(b.handle, left)]
  pos : left ≠ 0
  next : b.wish.Next b.now (b.seconds counted left)
  due : b.due = true → b.seconds counted left = 0

/-- The alarm is to be set again. -/
structure Pending (b : Bell) : Prop where
  reset : b.reset = true
  due : b.due = false
  alarms : b.alarms = [] ∨ b.handle ≠ 0 ∧ ∃ left, b.alarms = [(b.handle, left)]

/-- No alarm is queued, or the one `set_alarm` knows. -/
def Known (b : Bell) : Prop := b.handle = 0 ∧ b.alarms = [] ∨ b.handle ≠ 0 ∧ ∃ left, b.alarms = [(b.handle, left)]

/-- One or the other. -/
def Set (b : Bell) : Prop := (∃ left, b.Armed 0 left) ∨ b.Pending

end Bell

/-- What the two events depend on, and what has become of them. -/
structure View where
  clock : Clock
  pulse : Pulse
  bell : Bell
  inOrder : Prop

/-- The view once the alarm has gone off. -/
def View.rung (v : View) : View :=
  { v with
    bell := { v.bell with reset := true, due := false }
    inOrder := v.bell.wish.admits v.bell.now = true ∧ v.inOrder }

/-- The view once the time has been updated. -/
def View.updated (v : View) (t : HostTm) : View :=
  { v with
    clock := { v.clock with now := t.moment }
    bell := { v.bell with time := t, due := v.bell.wish.admits t.moment.ofDay }
    inOrder := v.bell.due = false ∧ v.inOrder }

/-- The view once the cycle has gone on by a tick. -/
def View.ticked (v : View) : View :=
  { v with
    clock := { v.clock with phase := (v.clock.phase + 1) % 18 }
    bell := { v.bell with count := (v.bell.count + 1) % 18 } }

/-- **The invariant.** -/
structure View.Sound (v : View) : Prop where
  clock : v.clock.Sound
  pulse : v.pulse.Beats
  bell : v.bell.Set
  inOrder : v.inOrder

namespace View

/-- An alarm is set, and the tick under way is still to be counted. -/
structure Counting (v : View) (left : BitVec 32) : Prop where
  clock : v.clock.Sound
  pulse : v.pulse.Beats
  bell : v.bell.Armed 1 left
  inOrder : v.inOrder

variable {v : View} {left : BitVec 32}

theorem pos_of_ne (h : left ≠ 0) : 0 < left.toNat :=
  Nat.pos_of_ne_zero fun hz => h (BitVec.eq_of_toNat_eq hz)

/-- A tick that is not the last of its second. -/
theorem Sound.ticked (h : v.Sound) (ha : v.bell.Armed 0 left) (hcount : v.bell.count < 17) :
    v.ticked.Counting left := by
  have hpos := pos_of_ne ha.pos
  have hseconds : v.ticked.bell.seconds 1 left = v.bell.seconds 0 left := by
    change (left.toNat - 1 + (v.bell.count + 1) % 18) / 18 = (left.toNat - 0 + v.bell.count) / 18
    rw [Nat.mod_eq_of_lt (by omega)]
    congr 1
    omega
  refine ⟨⟨h.clock.valid, Nat.mod_lt _ (by decide)⟩, h.pulse, ?_, h.inOrder⟩
  exact ⟨ha.reset, ha.handle, ha.alarms, ha.pos, hseconds ▸ ha.next, hseconds ▸ ha.due⟩

/-- The last one, which updates the time. -/
theorem Sound.updated (h : v.Sound) (ha : v.bell.Armed 0 left) (hcount : v.bell.count = 17) {t : HostTm}
    (ht : t.moment.Valid) (hnow : t.moment.ofDay = v.bell.now + 1) : (v.updated t).ticked.Counting left := by
  have hpos := pos_of_ne ha.pos
  obtain ⟨n, hn, hseconds⟩ : ∃ n, (v.updated t).ticked.bell.seconds 1 left = n ∧ v.bell.seconds 0 left = n + 1 := by
    refine ⟨_, rfl, ?_⟩
    change (left.toNat - 0 + v.bell.count) / 18 = (left.toNat - 1 + (v.bell.count + 1) % 18) / 18 + 1
    rw [hcount]
    omega
  have hnext := hseconds ▸ ha.next
  have hdue : v.bell.due = false := by
    cases hd : v.bell.due with
    | false => rfl
    | true => exact absurd (hseconds.symm.trans (ha.due hd)) (Nat.succ_ne_zero n)
  refine ⟨⟨ht, Nat.mod_lt _ (by decide)⟩, h.pulse, ?_, hdue, h.inOrder⟩
  refine ⟨ha.reset, ha.handle, ha.alarms, ha.pos, ?_, fun hd => ?_⟩
  · change v.bell.wish.Next t.moment.ofDay _
    rw [hn, hnow]
    exact hnext.succ
  · change v.bell.wish.admits t.moment.ofDay = true at hd
    rw [hnow] at hd
    rw [hn]
    exact hnext.eq_zero hd

end View

namespace Rtc

def pulse (r : Rtc) : Pulse :=
  ⟨rate (r.reg Reg.a), has (r.reg Reg.b) pie, r.rtcPeriod, r.periodic, r.periodicHandle⟩

def bell (r : Rtc) : Bell :=
  ⟨r.ht, r.setting, r.cmosCount, r.resetAlarm, r.alarms, r.alarmHandle, due r.log⟩

def view (r : Rtc) : View := ⟨r.clock, r.pulse, r.bell, InOrder r.log⟩

variable {r : Rtc}

/-! ### What leaves it alone -/

theorem view_setReg {i : BitVec 6} {v : Byte}
    (h : i ∉ [Reg.a, Reg.b, Reg.secAlarm, Reg.minAlarm, Reg.hrAlarm]) : (r.setReg i v).view = r.view := by
  simp only [List.mem_cons, List.not_mem_nil, or_false, not_or] at h
  obtain ⟨ha, hb, hs, hm, hh⟩ := h
  simp only [view, clock, pulse, bell, setting, reg_setReg, Ne.symm ha, Ne.symm hb, Ne.symm hs, Ne.symm hm,
    Ne.symm hh, if_false]
  rfl

/-- Register A is the rate's. -/
theorem view_setReg_rate (v : Byte) :
    (r.setReg Reg.a v).view = { r.view with pulse := { r.pulse with rate := rate v } } := by
  have hb : Reg.b ≠ Reg.a := by decide
  have hs : Reg.secAlarm ≠ Reg.a := by decide
  have hm : Reg.minAlarm ≠ Reg.a := by decide
  have hh : Reg.hrAlarm ≠ Reg.a := by decide
  simp only [view, clock, pulse, bell, setting, reg_setReg, hb, hs, hm, hh, if_true, if_false]
  rfl

theorem view_setReg_a {v : Byte} (h : rate v = rate (r.reg Reg.a)) : (r.setReg Reg.a v).view = r.view := by
  rw [view_setReg_rate, h]
  rfl

theorem setReg_reg (i : BitVec 6) : r.setReg i (r.reg i) = r := by
  unfold setReg reg
  rw [Function.update_eq_self]

theorem view_see_interrupt : (r.see .interrupt).view = r.view := rfl

theorem view_ite {c : Prop} [Decidable c] {r₁ r₂ : Rtc} {v : View} (h₁ : r₁.view = v) (h₂ : r₂.view = v) :
    (if c then r₁ else r₂).view = v := by
  split_ifs
  · exact h₁
  · exact h₂

theorem view_waggle : r.waggle.view = r.view := view_ite (view_setReg (by decide)) rfl

theorem view_interruptIf (enable : Byte) : (r.interruptIf enable).view = r.view := by
  have hc (v : Byte) : (r.setReg Reg.c v).view = r.view := view_setReg (by decide)
  exact view_ite (view_ite (hc (r.reg Reg.c ||| irqf)) (hc _)) rfl

/-- `rtc_alarm`. -/
theorem view_rtcAlarm : r.rtcAlarm.view = r.view.rung := by
  have hflag : (r.setReg Reg.c (r.reg Reg.c ||| af)).view = r.view := view_setReg (by decide)
  have hcalled : ((r.setReg Reg.c (r.reg Reg.c ||| af)).see (.alarm r.ht r.setting)).resetting.view
      = r.view.rung := congrArg View.rung hflag
  rw [← hcalled]
  exact congrArg (fun v : View => { v with bell := { v.bell with reset := true } }) (view_interruptIf aie)

/-! ### The alarm -/

/-- Those that go off do so one by one. -/
theorem dispatchTicEvent_eq {waiting g : List (ℕ × BitVec 32)} (hwaiting : r.counted.filter (·.2 ≠ 0) = waiting)
    (hgone : r.counted.filter (·.2 = 0) = g) :
    r.dispatchTicEvent = g.foldl (fun r _ => r.rtcAlarm) { r with alarms := waiting } := by
  unfold dispatchTicEvent
  rw [hwaiting, hgone]

theorem dispatchTicEvent_nil (h : r.alarms = []) : r.dispatchTicEvent = r := by
  have heq : r.dispatchTicEvent = { r with alarms := [] } :=
    dispatchTicEvent_eq (g := []) (by rw [counted, h]; rfl) (by rw [counted, h]; rfl)
  rw [heq, ← h]

theorem counted_one {h : ℕ} {left : BitVec 32} (ha : r.alarms = [(h, left)]) : r.counted = [(h, left - 1)] := by
  rw [counted, ha]
  rfl

theorem dispatchTicEvent_last {h : ℕ} {left : BitVec 32} (ha : r.alarms = [(h, left)]) (hleft : left - 1 = 0) :
    r.dispatchTicEvent = { r with alarms := [] }.rtcAlarm := by
  refine dispatchTicEvent_eq (g := [(h, left - 1)]) ?_ ?_
  · rw [counted_one ha]
    exact List.filter_cons_of_neg (by simpa using hleft)
  · rw [counted_one ha]
    exact List.filter_cons_of_pos (decide_eq_true hleft)

theorem dispatchTicEvent_more {h : ℕ} {left : BitVec 32} (ha : r.alarms = [(h, left)]) (hleft : left - 1 ≠ 0) :
    r.dispatchTicEvent = { r with alarms := [(h, left - 1)] } := by
  refine dispatchTicEvent_eq (g := []) ?_ ?_
  · rw [counted_one ha]
    exact List.filter_cons_of_pos (decide_eq_true hleft)
  · rw [counted_one ha]
    exact List.filter_cons_of_neg (by simpa using hleft)

theorem toNat_sub_one {left : BitVec 32} (h : left ≠ 0) : (left - 1).toNat = left.toNat - 1 := by
  have hpos : left.toNat ≠ 0 := fun hz => h (BitVec.eq_of_toNat_eq hz)
  have hone : (1 : BitVec 32).toNat = 1 := rfl
  rw [BitVec.toNat_sub, hone]
  omega

/-- **Counting down** an alarm that this tick counts for: it goes off in the second it is for. -/
theorem sound_dispatch (left : BitVec 32) (hr : r.view.Counting left) : r.dispatchTicEvent.view.Sound := by
  have h : r.bell.Armed 1 left := hr.bell
  have hpred := toNat_sub_one h.pos
  by_cases hlast : left - 1 = 0
  · have hzero : left.toNat - 1 = 0 := by rw [← hpred, hlast]; rfl
    have hseconds : r.bell.seconds 1 left = 0 := by
      rw [Bell.seconds, hzero, Nat.zero_add]
      exact Nat.div_eq_of_lt hr.clock.phase
    have hnow := h.next.due
    rw [hseconds] at hnow
    rw [dispatchTicEvent_last h.alarms hlast, view_rtcAlarm]
    exact ⟨hr.clock, hr.pulse, .inr ⟨rfl, rfl, .inl rfl⟩, hnow, hr.inOrder⟩
  · have hseconds : r.bell.seconds 0 (left - 1) = r.bell.seconds 1 left := by
      rw [Bell.seconds, Bell.seconds, hpred, Nat.sub_zero]
    rw [dispatchTicEvent_more h.alarms hlast]
    refine ⟨hr.clock, hr.pulse, .inl ⟨left - 1, h.reset, h.handle, rfl, hlast, ?_, ?_⟩, hr.inOrder⟩
    · exact hseconds ▸ h.next
    · exact hseconds ▸ h.due

/-- The alarm that is replaced is deleted. -/
def cleared (r : Rtc) : Rtc := if r.alarmHandle > 0 then r.deleteAlarm else r

theorem setAlarm_eq (h : ℕ) : r.setAlarm h = r.cleared.addAlarm (.ofInt 32 (18 * r.numsecs)) h := by
  have hnum : r.cleared.numsecs = r.numsecs := by
    unfold cleared
    split_ifs <;> rfl
  rw [← hnum]
  rfl

theorem view_cleared (h : r.bell.Known) : r.cleared.view = { r.view with bell := { r.bell with alarms := [] } } := by
  unfold cleared
  obtain ⟨hzero : r.alarmHandle = 0, hnil⟩ |
    ⟨hne : r.alarmHandle ≠ 0, left, hone : r.alarms = [(r.alarmHandle, left)]⟩ := h
  · rw [if_neg (by omega), ← hnil]
    rfl
  · have hany : (r.alarms.any fun e => e.1 = r.alarmHandle) = true := by simp [hone]
    have hfilter : (r.alarms.filter fun e => e.1 ≠ r.alarmHandle) = [] := by simp [hone]
    have horder : InOrder (.deleted r.alarmHandle true :: r.log) = InOrder r.log :=
      propext (and_iff_right (.inl rfl))
    rw [if_pos (Nat.pos_of_ne_zero hne), deleteAlarm, hany, hfilter]
    exact congrArg (fun p => { r.view with bell := { r.bell with alarms := [] }, inOrder := p }) horder

theorem view_addAlarm_zero {ticks : BitVec 32} (h : ℕ) (ht : ticks = 0) : (r.addAlarm ticks h).view =
    { r.view.rung with bell := { r.view.rung.bell with handle := 0 } } := by
  rw [addAlarm, if_pos ht, ← view_rtcAlarm]
  rfl

theorem view_addAlarm {ticks : BitVec 32} (h : ℕ) (ht : ticks ≠ 0) : (r.addAlarm ticks h).view =
    { r.view with bell := { r.view.bell with alarms := r.view.bell.alarms ++ [(h, ticks)], handle := h } } := by
  rw [addAlarm, if_neg ht]
  rfl

theorem toNat_ticks {n : ℕ} (h : n < 86400) : (BitVec.ofInt 32 (18 * n)).toNat = 18 * n := by
  have hcast : (18 * n : ℤ) = (18 * n : ℕ) := by push_cast; rfl
  rw [hcast, BitVec.ofInt_natCast, BitVec.toNat_ofNat]
  exact Nat.mod_eq_of_lt (by omega)

/-- **Setting the alarm**: it goes off at once if the second is the one it is for, and is else counted down
to the next. -/
theorem view_setAlarm {h : ℕ} (hknown : r.bell.Known) (hvalid : r.ht.moment.Valid)
    (hunderstood : r.setting.understood r.ht = true) :
    (r.setAlarm h).view = { r.view.rung with bell := { r.view.rung.bell with alarms := [], handle := 0 } } ∧
      r.setting.wish.admits r.ht.moment.ofDay = true ∨
    ∃ left : BitVec 32, ∃ n, left.toNat = 18 * n ∧ 0 < n ∧ r.setting.wish.Next r.ht.moment.ofDay n ∧
      (r.setAlarm h).view = { r.view with bell := { r.bell with alarms := [(h, left)], handle := h } } := by
  obtain ⟨n, hn, hlt, hnext⟩ := next_numsecs hvalid hunderstood
  rw [setAlarm_eq, hn]
  have hcleared := view_cleared hknown
  obtain rfl | hpos := Nat.eq_zero_or_pos n
  · refine .inl ⟨?_, by simpa using hnext.due⟩
    rw [view_addAlarm_zero h (by decide), hcleared]
    rfl
  · obtain ⟨left, hleft⟩ : ∃ left, left = BitVec.ofInt 32 (18 * n) := ⟨_, rfl⟩
    have htoNat : left.toNat = 18 * n := hleft ▸ toNat_ticks hlt
    have hne : left ≠ 0 := fun hz => by
      rw [hz] at htoNat
      have : (0 : BitVec 32).toNat = 0 := rfl
      omega
    refine .inr ⟨left, n, htoNat, hpos, hnext, ?_⟩
    rw [← hleft, view_addAlarm h hne, hcleared]
    rfl

/-! ### Ticks -/

theorem rate_or_uip (v : Byte) : rate (v ||| uip) = rate v := by
  revert v
  decide

theorem rate_and_not_uip (v : Byte) : rate (v &&& ~~~uip) = rate v := by
  revert v
  decide

theorem view_cycle_of_ne (h : r.cmosCount ≠ 17) : r.cycle.view = r.view := by
  have hc (r : Rtc) (v : Byte) : (r.setReg Reg.c v).view = r.view := view_setReg (by decide)
  unfold cycle
  rw [if_neg h]
  refine view_ite ?_ (view_ite ?_ rfl)
  · dsimp only
    rw [view_setReg_a (rate_or_uip _), hc, view_interruptIf]
  · dsimp only
    rw [view_setReg_a (rate_and_not_uip _), hc]

/-- `rtc_tick` but for the alarm. -/
def cycled (r : Rtc) : Rtc := { r.cycle with cmosCount := (r.cycle.cmosCount + 1) % 18 }.waggle

theorem rtcTick_eq (h : ℕ) :
    r.rtcTick h = if r.cycled.resetAlarm then { r.cycled with resetAlarm := false }.setAlarm h else r.cycled := rfl

theorem view_cycled : r.cycled.view = r.cycle.view.ticked := view_waggle

theorem view_cycle_update (h : r.cmosCount = 17) (hset : has (r.reg Reg.b) set = false) :
    r.cycle.view = r.view.updated (addSecond r.ht) := by
  rw [cycle_of_eq h, hset]
  rfl

theorem ofDay_addSecond {t : HostTm} (h : t.moment.Valid) (_ : ¬(t.sec = 59 ∧ t.min = 59 ∧ t.hour = 23)) :
    (addSecond t).moment.ofDay = t.moment.ofDay + 1 := by
  have hsec : t.sec < 60 := h.second
  have hmin : t.min < 60 := h.minute
  have hhour : t.hour < 24 := h.hour
  unfold addSecond
  split_ifs <;> simp only [HostTm.moment, Moment.ofDay] <;> omega

/-- **A tick while the alarm is set**: it is counted down with the seconds. -/
theorem sound_tick_armed {left : BitVec 32} (h : ℕ) (hr : r.view.Sound) (ha : r.bell.Armed 0 left)
    (hop : r.OrderlyTick) : (r.rtcTick h).dispatchTicEvent.view.Sound := by
  have hphase : r.cmosCount < 18 := hr.clock.phase
  have hcounting : r.cycled.view.Counting left := by
    rw [view_cycled]
    by_cases h17 : r.cmosCount = 17
    · rw [view_cycle_update h17 (hop.runs h17 ha.reset)]
      have hnow := ofDay_addSecond hr.clock.valid (hop.midnight h17)
      have hvalid := moment_addSecond hr.clock.valid (hop.midnight h17)
      exact hr.updated ha h17 (hvalid ▸ hr.clock.valid.next) hnow
    · rw [view_cycle_of_ne h17]
      exact hr.ticked ha (by change r.cmosCount < 17; omega)
  have htick : r.rtcTick h = r.cycled := by
    rw [rtcTick_eq, show r.cycled.resetAlarm = false from hcounting.bell.reset]
    rfl
  rw [htick]
  exact sound_dispatch _ hcounting

/-- **A tick that sets it.** -/
theorem sound_tick_pending {h : ℕ} (hr : r.view.Sound) (hp : r.bell.Pending) (hop : r.OrderlyTick) (hh : h ≠ 0) :
    (r.rtcTick h).dispatchTicEvent.view.Sound := by
  have hphase : r.cmosCount < 18 := hr.clock.phase
  have h17 := hop.phase hp.reset
  obtain ⟨r', hr'⟩ : ∃ r', r' = { r.cycled with resetAlarm := false } := ⟨_, rfl⟩
  have hcycled : r.cycled.view = r.view.ticked := by rw [view_cycled, view_cycle_of_ne h17]
  have hview : r'.view = { r.view.ticked with bell := { r.view.ticked.bell with reset := false } } := by
    rw [hr', ← hcycled]
    rfl
  have htick : r.rtcTick h = r'.setAlarm h := by
    have hreset : r.cycled.resetAlarm = true := (congrArg (fun v => v.bell.reset) hcycled).trans hp.reset
    rw [rtcTick_eq, hreset, hr']
    rfl
  have hbell : r'.bell = { r.bell with count := (r.cmosCount + 1) % 18, reset := false } := congrArg View.bell hview
  have htime : r'.ht = r.ht := congrArg Bell.time hbell
  have hsetting : r'.setting = r.setting := congrArg Bell.setting hbell
  have hknown : r'.bell.Known := by
    rw [hbell]
    obtain hnil | hone := hp.alarms
    · exact .inl ⟨(hop.handle hp.reset).resolve_right fun hne => hne hnil, hnil⟩
    · exact .inr hone
  obtain ⟨hrung, hnow⟩ | ⟨left, n, hleft, hpos, hnext, harmed⟩ := view_setAlarm (h := h) hknown
    (htime ▸ hr.clock.valid) (htime ▸ hsetting ▸ hop.understood hp.reset)
  · rw [htick, dispatchTicEvent_nil (congrArg (fun v => v.bell.alarms) hrung), hrung, hview]
    refine ⟨⟨hr.clock.valid, Nat.mod_lt _ (by decide)⟩, hr.pulse, .inr ⟨rfl, rfl, .inl rfl⟩, ?_, hr.inOrder⟩
    rw [htime, hsetting] at hnow
    exact hnow
  · rw [htick]
    refine sound_dispatch left ?_
    rw [harmed, hview, hbell]
    rw [htime, hsetting] at hnext
    have hseconds : (left.toNat - 1 + (r.cmosCount + 1) % 18) / 18 = n := by omega
    refine ⟨⟨hr.clock.valid, Nat.mod_lt _ (by decide)⟩, hr.pulse, ⟨rfl, hh, rfl, ?_, ?_, ?_⟩, hr.inOrder⟩
    · intro hz
      rw [hz] at hleft
      have : (0 : BitVec 32).toNat = 0 := rfl
      omega
    · change r.setting.wish.Next r.ht.moment.ofDay ((left.toNat - 1 + (r.cmosCount + 1) % 18) / 18)
      rw [hseconds]
      exact hnext
    · intro hd
      exact absurd hd (ne_true_of_eq_false hp.due)

/-- **A tick.** -/
theorem sound_tick {h : ℕ} (hr : r.view.Sound) (hop : r.OrderlyTick) (hh : h ≠ 0) :
    (r.rtcTick h).dispatchTicEvent.view.Sound := by
  obtain ⟨left, ha⟩ | hp := hr.bell
  · exact sound_tick_armed h hr ha hop
  · exact sound_tick_pending hr hp hop hh

/-! ### The ports -/

/-- Selecting a register. -/
theorem sound_index (hr : r.view.Sound) (i : BitVec 6) : { r with cmosIndex := i }.view.Sound :=
  ⟨⟨hr.clock.valid, hr.clock.phase⟩, hr.pulse, hr.bell, hr.inOrder⟩

/-- Writing a time register or an alarm byte: the alarm is set again. -/
theorem sound_resetting {r' : Rtc} (hr : r.view.Sound) (hdue : due r.log = false) (hclock : r'.clock = r.clock)
    (hpulse : r'.pulse = r.pulse) (halarms : r'.alarms = r.alarms) (hhandle : r'.alarmHandle = r.alarmHandle)
    (hlog : r'.log = r.log) (hreset : r'.resetAlarm = true) : r'.view.Sound := by
  have hset : r'.bell.Pending := by
    refine ⟨hreset, (congrArg due hlog).trans hdue, ?_⟩
    change r'.alarms = [] ∨ r'.alarmHandle ≠ 0 ∧ ∃ left, r'.alarms = [(r'.alarmHandle, left)]
    rw [halarms, hhandle]
    obtain ⟨left, ha⟩ | hp := hr.bell
    · exact .inr ⟨ha.handle, left, ha.alarms⟩
    · exact hp.alarms
  refine ⟨?_, ?_, .inr hset, ?_⟩
  · exact (show r'.clock.Sound from hclock ▸ hr.clock)
  · exact (show r'.pulse.Beats from hpulse ▸ hr.pulse)
  · exact (show InOrder r'.log from hlog ▸ hr.inOrder)

theorem pulse_setReg {i : BitVec 6} {v : Byte} (ha : i ≠ Reg.a) (hb : i ≠ Reg.b) :
    (r.setReg i v).pulse = r.pulse := by
  rw [pulse, reg_setReg, reg_setReg, if_neg ha.symm, if_neg hb.symm]
  rfl

theorem pulse_ite {c : Prop} [Decidable c] {r₁ r₂ : Rtc} {p : Pulse} (h₁ : r₁.pulse = p) (h₂ : r₂.pulse = p) :
    (if c then r₁ else r₂).pulse = p := by
  split_ifs
  · exact h₁
  · exact h₂

theorem pulse_outByte (v : Byte) (ha : r.cmosIndex ≠ Reg.a) (hb : r.cmosIndex ≠ Reg.b) :
    (r.outByte v).pulse = r.pulse := by
  have hset (w : Byte) : (r.setReg r.cmosIndex w).pulse = r.pulse := pulse_setReg ha hb
  unfold outByte
  rw [if_neg ha]
  exact pulse_ite (hset _) <| pulse_ite (hset _) <| pulse_ite (hset _) <| pulse_ite (hset _) <|
    pulse_ite (hset _) <| pulse_ite (hset _) <| pulse_ite (hset _) (hset _)

/-- No write touches the events themselves. -/
theorem events_outByte (v : Byte) :
    (r.outByte v).alarms = r.alarms ∧ (r.outByte v).alarmHandle = r.alarmHandle ∧ (r.outByte v).log = r.log := by
  unfold outByte
  dsimp only
  split_ifs <;> exact ⟨rfl, rfl, rfl⟩

theorem resetAlarm_outByte (v : Byte) (hi : r.cmosIndex ≤ Reg.hrAlarm) : (r.outByte v).resetAlarm = true := by
  have hcases : ∀ i : BitVec 6, i ≤ Reg.hrAlarm →
      i = Reg.seconds ∨ i = Reg.minutes ∨ i = Reg.hours ∨ i = Reg.secAlarm ∨ i = Reg.minAlarm ∨ i = Reg.hrAlarm := by
    decide
  unfold outByte
  obtain h | h | h | h | h | h := hcases _ hi <;> rw [h] <;> rfl

theorem view_outByte (v : Byte) (ha : r.cmosIndex ≠ Reg.a) (hb : r.cmosIndex ≠ Reg.b)
    (hi : Reg.hrAlarm < r.cmosIndex) : (r.outByte v).view = r.view := by
  have hne : ∀ i : BitVec 6, i ≠ Reg.a → i ≠ Reg.b → Reg.hrAlarm < i →
      i ∉ [Reg.a, Reg.b, Reg.secAlarm, Reg.minAlarm, Reg.hrAlarm] ∧ i ≠ Reg.seconds ∧ i ≠ Reg.minutes ∧
      i ≠ Reg.hours ∧ ¬(i = Reg.secAlarm ∨ i = Reg.minAlarm ∨ i = Reg.hrAlarm) := by
    decide
  obtain ⟨hmem, hs, hm, hh, hal⟩ := hne _ ha hb hi
  have hset (w : Byte) : (r.setReg r.cmosIndex w).view = r.view := view_setReg hmem
  unfold outByte
  rw [if_neg ha, if_neg hs, if_neg hm, if_neg hh, if_neg hal]
  exact view_ite (hset _) <| view_ite (hset _) <| view_ite (hset _) (hset _)

theorem rate_merge (old v : Byte) : rate ((old &&& 0x80) ||| (v &&& 0x7f)) = rate v := by
  have hold : rate (old &&& 0x80) = 0 := by revert old; decide
  have hnew : rate (v &&& 0x7f) = rate v := by revert v; decide
  unfold rate at *
  rw [BitVec.setWidth_or, hold, hnew]
  exact BitVec.zero_or

/-- Register A: the periodic interrupt is off, or keeps its period. -/
theorem sound_outByte_a (v : Byte) (hr : r.view.Sound) (ha : r.cmosIndex = Reg.a)
    (hrate : has (r.reg Reg.b) pie → pirUsec (rate v) = r.period) : (r.outByte v).view.Sound := by
  have hview : (r.outByte v).view =
      { r.view with pulse := { r.pulse with rate := rate v, period := pirUsec (rate v) } } := by
    have hset := view_setReg_rate (r := r) ((r.reg Reg.a &&& 0x80) ||| (v &&& 0x7f))
    rw [rate_merge] at hset
    unfold outByte
    rw [if_pos ha, ha]
    change { r.setReg Reg.a _ with rtcPeriod := pirUsec (rate ((r.reg Reg.a &&& 0x80) ||| (v &&& 0x7f))) }.view = _
    rw [rate_merge]
    exact congrArg (fun w : View => { w with pulse := { w.pulse with period := pirUsec (rate v) } }) hset
  rw [hview]
  refine ⟨hr.clock, ⟨fun _ => rfl, fun hon hne => ?_, fun hoff => ?_⟩, hr.bell, hr.inOrder⟩
  · have hperiod := hrate hon
    obtain ⟨hhandle, hevents⟩ := hr.pulse.beating hon fun hz => hne (hperiod.trans hz)
    exact ⟨hhandle, hevents.trans (by rw [hperiod]; rfl)⟩
  · refine hr.pulse.still ?_
    cases hon : has (r.reg Reg.b) pie with
    | false => exact .inl hon
    | true => exact .inr ((hrate hon).symm.trans (hoff.resolve_left (ne_false_of_eq_true hon)))

/-! ### Register B -/

theorem view_setReg_b (v : Byte) : (r.setReg Reg.b v).view =
    { r.view with clock := { r.clock with held := has v set }, pulse := { r.pulse with on := has v pie } } := by
  have ha : Reg.a ≠ Reg.b := by decide
  have hs : Reg.secAlarm ≠ Reg.b := by decide
  have hm : Reg.minAlarm ≠ Reg.b := by decide
  have hh : Reg.hrAlarm ≠ Reg.b := by decide
  simp only [view, clock, pulse, bell, setting, reg_setReg, ha, hs, hm, hh, if_true, if_false]
  rfl

/-- The alarm, once its bytes are read in other modes. -/
theorem bell_settingIn {v : Byte} (h : r.bell.Set)
    (hwish : r.resetAlarm = true ∨ (r.settingIn v).wish = r.setting.wish) :
    Bell.Set { r.bell with setting := r.settingIn v } := by
  obtain ⟨left, ha⟩ | hp := h
  · have heq : (r.settingIn v).wish = r.setting.wish := hwish.resolve_left (ne_true_of_eq_false ha.reset)
    refine .inl ⟨left, ha.reset, ha.handle, ha.alarms, ha.pos, ?_, ha.due⟩
    change (r.settingIn v).wish.Next _ _
    rw [heq]
    exact ha.next
  · exact .inr ⟨hp.reset, hp.due, hp.alarms⟩

/-- An event that is deleted is there, or there never was one. -/
theorem view_deletePeriodic
    (h : r.periodicHandle = 0 ∧ r.periodic = [] ∨ ∃ p, r.periodic = [(r.periodicHandle, p)]) :
    r.deletePeriodic.view = { r.view with pulse := { r.pulse with events := [] } } := by
  obtain ⟨hzero, hnil⟩ | ⟨p, hone⟩ := h
  · have horder : InOrder (.deleted 0 false :: r.log) = InOrder r.log := propext (and_iff_right (.inr rfl))
    rw [deletePeriodic, hnil, hzero]
    exact congrArg (fun p => { r.view with pulse := { r.pulse with events := [] }, inOrder := p }) horder
  · have hany : (r.periodic.any fun e => e.1 = r.periodicHandle) = true := by simp [hone]
    have hfilter : (r.periodic.filter fun e => e.1 ≠ r.periodicHandle) = [] := by simp [hone]
    have horder : InOrder (.deleted r.periodicHandle true :: r.log) = InOrder r.log :=
      propext (and_iff_right (.inl rfl))
    rw [deletePeriodic, hany, hfilter]
    exact congrArg (fun p => { r.view with pulse := { r.pulse with events := [] }, inOrder := p }) horder

theorem view_addPeriodic (h : ℕ) (hne : r.rtcPeriod ≠ 0) : Ends (r.addPeriodic h) fun r' =>
    r'.view = { r.view with pulse := { r.view.pulse with
      events := r.view.pulse.events ++ [(h, r.view.pulse.period)], handle := h } } :=
  ⟨_, if_neg hne, rfl⟩

theorem has_pie (v : Byte) : has v pie = v.getLsbD 6 := by
  revert v
  decide

/-- The pulse once `PIE` has its new value. -/
theorem beats_setPie {v : Byte} {h : ℕ} (hr : r.pulse.Beats) (hh : h ≠ 0)
    (hon : has (r.reg Reg.b) pie = false → has v pie → r.rtcPeriod = r.period)
    (hhandle : has (r.reg Reg.b) pie ≠ has v pie → r.period = 0 → r.periodicHandle = 0) :
    Ends (r.setPie v h) fun r' => ∃ p : Pulse, r'.view = { r.view with pulse := p } ∧ { p with on := has v pie }.Beats := by
  have hxor : has (r.reg Reg.b ^^^ v) pie = (has (r.reg Reg.b) pie ^^ has v pie) := by
    rw [has_pie, has_pie, has_pie, BitVec.getLsbD_xor]
  unfold setPie
  rw [hxor]
  cases hold : has (r.reg Reg.b) pie <;> cases hnew : has v pie
  · exact ⟨_, rfl, r.pulse, rfl, hold ▸ hr⟩
  · -- turned on: there is no event yet
    have hnil : r.periodic = [] := hr.still (.inl hold)
    have hperiod := hon hold hnew
    by_cases hzero : r.period = 0
    · have hno : r.changePie true h = .ok r.deletePeriodic := if_neg (by simp [hperiod, hzero])
      have hview := view_deletePeriodic (.inl ⟨hhandle (by simp [hold, hnew]) hzero, hnil⟩)
      exact ⟨_, hno, _, hview, fun _ => hperiod, fun _ hne => absurd hzero hne, fun _ => rfl⟩
    · have hno : r.changePie true h = r.addPeriodic h := by
        refine if_pos ?_
        rw [Bool.true_and, decide_eq_true_eq, hperiod]
        exact hzero
      have hadd : r.addPeriodic h = .ok { r with periodic := r.periodic ++ [(h, r.rtcPeriod)], periodicHandle := h } :=
        if_neg (by rw [hperiod]; exact hzero)
      refine ⟨_, hno.trans hadd, _, rfl, fun _ => hperiod, fun _ _ => ⟨hh, ?_⟩, fun hoff => ?_⟩
      · change r.periodic ++ [(h, r.rtcPeriod)] = [(h, r.period)]
        rw [hnil, hperiod]
        rfl
      · exact absurd (hoff.resolve_left (show ¬true = false by decide)) hzero
  · -- turned off: the event is deleted
    have hno : r.changePie false h = .ok r.deletePeriodic := if_neg (by simp)
    have hthere : r.periodicHandle = 0 ∧ r.periodic = [] ∨ ∃ p, r.periodic = [(r.periodicHandle, p)] := by
      by_cases hzero : r.period = 0
      · exact .inl ⟨hhandle (by simp [hold, hnew]) hzero, hr.still (.inr hzero)⟩
      · exact .inr ⟨_, (hr.beating hold hzero).2⟩
    exact ⟨_, hno, _, view_deletePeriodic hthere, nofun, nofun, fun _ => rfl⟩
  · exact ⟨_, rfl, r.pulse, rfl, hold ▸ hr⟩

/-- **Register B.** -/
theorem sound_outRegB {v : Byte} {h : ℕ} (hr : r.view.Sound) (hop : r.OrderlyB v) (hh : h ≠ 0) :
    Ends (r.outRegB v h) fun r' => r'.view.Sound := by
  have hpie := beats_setPie (r := r.setModes v) hr.pulse hh hop.on hop.handle
  refine hpie.map fun r' ⟨p, hview, hbeats⟩ => ?_
  rw [view_setReg_b, show r'.clock = (r.setModes v).clock from congrArg View.clock hview,
    show r'.pulse = p from congrArg View.pulse hview, hview]
  exact ⟨⟨hr.clock.valid, hr.clock.phase⟩, hbeats, bell_settingIn hr.bell hop.wish, hr.inOrder⟩

/-! ### Steps -/

theorem sound_outData {v : Byte} {h : ℕ} (hr : r.view.Sound) (hh : h ≠ 0)
    (ha : r.cmosIndex = Reg.a → has (r.reg Reg.b) pie → pirUsec (rate v) = r.period)
    (hb : r.cmosIndex = Reg.b → r.OrderlyB v) (hdue : r.cmosIndex ≤ Reg.hrAlarm → due r.log = false) :
    Ends (r.outData v h) fun r' => r'.view.Sound := by
  refine .ite (fun _ => .ok hr) fun _ => .ite (fun hib => sound_outRegB hr (hb hib) hh) fun hib => .ok ?_
  by_cases hia : r.cmosIndex = Reg.a
  · exact sound_outByte_a v hr hia (ha hia)
  · by_cases hi : r.cmosIndex ≤ Reg.hrAlarm
    · obtain ⟨halarms, hhandle, hlog⟩ := events_outByte (r := r) v
      exact sound_resetting hr (hdue hi) (clock_outByte v hib) (pulse_outByte v hia hib) halarms hhandle hlog
        (resetAlarm_outByte v hi)
    · rw [view_outByte v hia hib (BitVec.not_le.mp hi)]
      exact hr

theorem view_cmosInb (port : BitVec 16) : (r.cmosInb port).2.view = r.view := by
  unfold cmosInb
  dsimp only
  split_ifs with hport ha hc htime
  · exact view_setReg_a (rate_and_not_uip _)
  · exact view_setReg (by decide)
  · by_cases hmem : r.cmosIndex ∈ [Reg.a, Reg.b, Reg.secAlarm, Reg.minAlarm, Reg.hrAlarm]
    · have hsame : r.timeByte r.cmosIndex = r.reg r.cmosIndex := by
        simp only [List.mem_cons, List.not_mem_nil, or_false] at hmem
        obtain h | h | h | h | h := hmem
        · exact absurd h ha
        · rw [h] at htime
          exact absurd htime (by decide)
        · rw [h]; rfl
        · rw [h]; rfl
        · rw [h]; rfl
      rw [hsame, setReg_reg]
    · exact view_setReg hmem
  · rfl
  · rfl

/-- **The periodic event** files itself again. -/
theorem sound_expire {h : ℕ} {e : ℕ × BitVec 32} {periodic : List (ℕ × BitVec 32)} (hr : r.view.Sound) (hh : h ≠ 0)
    (hevents : r.periodic = e :: periodic) :
    Ends ({ r with periodic }.rtcPeriodicEvent h) fun r' => r'.view.Sound := by
  have hne : r.pulse.events ≠ [] := fun hnil => List.cons_ne_nil _ _ (hevents.symm.trans hnil)
  have hon : has (r.reg Reg.b) pie = true := by
    cases hoff : has (r.reg Reg.b) pie with
    | true => rfl
    | false => exact absurd (hr.pulse.still (.inl hoff)) hne
  have hzero : r.period ≠ 0 := fun hz => hne (hr.pulse.still (.inr hz))
  have hperiod : r.rtcPeriod = r.period := hr.pulse.period hon
  obtain ⟨-, hone⟩ := hr.pulse.beating hon hzero
  obtain rfl : periodic = [] := (List.cons.inj (hevents.symm.trans hone)).2
  have hflag (v : Byte) : (({ r with periodic := [] }.setReg Reg.c v).see .interrupt).view
      = { r.view with pulse := { r.pulse with events := [] } } :=
    view_see_interrupt.trans (view_setReg (by decide))
  refine .ite (fun _ => ?_) fun hoff => absurd hon hoff
  refine (view_addPeriodic h (by rw [← hperiod] at hzero; exact hzero)).mono fun r' hr' => ?_
  rw [hr', hflag]
  refine ⟨hr.clock, ⟨fun _ => hperiod, fun _ _ => ⟨hh, ?_⟩, fun hoff => ?_⟩, hr.bell, hr.inOrder⟩
  · change [(h, r.rtcPeriod)] = [(h, r.period)]
    rw [hperiod]
  · obtain hoff | hz := hoff
    · exact absurd hon (ne_true_of_eq_false hoff)
    · exact absurd hz hzero

theorem view_sync (now : HostTm) : (r.syncRtcToHostTime now).view = { r with cmosCount := 0, ht := now }.view := by
  unfold syncRtcToHostTime
  dsimp only
  rw [view_setReg (by decide), view_setReg (by decide), view_setReg (by decide), view_setReg (by decide),
    view_setReg (by decide), view_setReg (by decide), view_setReg (by decide)]

theorem sound_sync {now : HostTm} (hr : r.view.Sound) (hop : r.Orderly (.sync now)) :
    (r.syncRtcToHostTime now).view.Sound := by
  rw [view_sync]
  refine ⟨⟨hop.1, (by decide : 0 < 18)⟩, hr.pulse, ?_, hr.inOrder⟩
  obtain ⟨left, ha⟩ | hp := hr.bell
  · obtain ⟨hnow, hcount⟩ := hop.2 ha.reset
    have hseconds : (left.toNat - 0 + 0) / 18 = r.bell.seconds 0 left := by
      rw [← hcount]
      rfl
    refine .inl ⟨left, ha.reset, ha.handle, ha.alarms, ha.pos, ?_, fun hd => hseconds.trans (ha.due hd)⟩
    change r.setting.wish.Next now.moment.ofDay ((left.toNat - 0 + 0) / 18)
    rw [hnow, hseconds]
    exact ha.next
  · exact .inr ⟨hp.reset, hp.due, hp.alarms⟩

/-- **Every step** keeps both events in order. -/
theorem sound_step {op : Op} (hr : r.view.Sound) (hop : r.Orderly op) :
    EndsUnless (· = .outOfTurn) (r.step op) fun r' => r'.view.Sound := by
  have hfresh {h : ℕ} (hf : r.fresh h = true) : h ≠ 0 := by
    simp only [fresh, Bool.and_eq_true, decide_eq_true_eq] at hf
    exact hf.1.1
  cases op with
  | outb port v h =>
    refine .ite (fun hf => Ends.unless ?_) fun _ => .error rfl
    refine .ite (fun _ => .ok (sound_index hr _)) fun _ => .ite (fun hport => ?_) fun _ => .ok hr
    obtain ⟨ha, hb, hdue⟩ := hop hport
    exact sound_outData hr (hfresh hf) ha hb hdue
  | inb port =>
    refine .ok ?_
    rw [view_cmosInb]
    exact hr
  | tick h => exact .ite (fun hf => .ok (sound_tick hr hop (hfresh hf))) fun _ => .error rfl
  | expire h =>
    refine .ite (fun hf => ?_) fun _ => .error rfl
    split
    · rename_i hevents
      exact (sound_expire hr (hfresh hf) hevents).unless
    · exact .error rfl
  | sync now => exact .ok (sound_sync hr hop)
  | snapshot alarmHandle =>
    rw [step_snapshot hr.clock.phase]
    refine .ok ⟨hr.clock, hr.pulse, ?_, hr.inOrder⟩
    obtain rfl | ⟨rfl, hnil⟩ := hop
    · exact hr.bell
    · obtain ⟨left, ha⟩ | hp := hr.bell
      · exact absurd (ha.alarms.symm.trans hnil) (List.cons_ne_nil _ _)
      · exact .inr ⟨hp.reset, hp.due, .inl hnil⟩

/-! ## Runs -/

/-- The state before `rtc_init`: no event, and `PIE` clear. -/
structure Blank (r : Rtc) : Prop where
  periodic : r.periodic = []
  alarms : r.alarms = []
  handle : r.alarmHandle = 0
  log : r.log = []
  pie : has (r.reg Reg.b) Cmos.pie = false
  reset : r.resetAlarm = false

/-- `rtc_init`. -/
theorem sound_init {now : HostTm} {h : ℕ} (hr : r.Blank) (hnow : now.moment.Valid) (hh : h ≠ 0)
    (hunderstood : ({ r with dataModeYes := true, twenty4HourClock := true }.setting).understood now = true) :
    (r.rtcInit now h).view.Sound := by
  obtain ⟨r', hr'⟩ : ∃ r', r' = { r with dataModeYes := true, twenty4HourClock := true }.syncRtcToHostTime now :=
    ⟨_, rfl⟩
  have hview : r'.view =
      { r with dataModeYes := true, twenty4HourClock := true, cmosCount := 0, ht := now }.view := by
    rw [hr', view_sync]
  have hbell := congrArg View.bell hview
  have htime : r'.ht = now := congrArg Bell.time hbell
  have hsetting : r'.setting = { r with dataModeYes := true, twenty4HourClock := true }.setting :=
    congrArg Bell.setting hbell
  have hknown : r'.bell.Known := by
    rw [show r'.bell = _ from hbell]
    exact .inl ⟨hr.handle, hr.alarms⟩
  have hpulse : r.pulse.Beats :=
    ⟨fun hon => absurd hon (ne_true_of_eq_false hr.pie), fun hon => absurd hon (ne_true_of_eq_false hr.pie),
      fun _ => hr.periodic⟩
  have horder : InOrder r.log := by rw [hr.log]; trivial
  have hdue : due r.log = false := by rw [hr.log]; rfl
  have hinit : r.rtcInit now h = r'.setAlarm h := by rw [hr']; rfl
  obtain ⟨hrung, hat⟩ | ⟨left, n, hleft, hpos, hnext, harmed⟩ := view_setAlarm (h := h) hknown (htime ▸ hnow)
    (by rw [htime, hsetting]; exact hunderstood)
  · rw [hinit, hrung, hview]
    rw [htime, hsetting] at hat
    exact ⟨⟨hnow, (by decide : 0 < 18)⟩, hpulse, .inr ⟨rfl, rfl, .inl rfl⟩, hat, horder⟩
  · rw [hinit, harmed, show r'.bell = _ from hbell, hview]
    rw [htime, hsetting] at hnext
    have hseconds : (left.toNat - 0 + 0) / 18 = n := by omega
    refine ⟨⟨hnow, (by decide : 0 < 18)⟩, hpulse, .inl ⟨left, hr.reset, hh, rfl, ?_, ?_, ?_⟩, horder⟩
    · intro hz
      rw [hz] at hleft
      have : (0 : BitVec 32).toNat = 0 := rfl
      omega
    · change Wish.Next _ now.moment.ofDay ((left.toNat - 0 + 0) / 18)
      rw [hseconds]
      exact hnext
    · intro hd
      exact absurd hd (ne_true_of_eq_false hdue)

/-- What events that are scheduled exactly when enabled look like. -/
structure Scheduled (r : Rtc) : Prop where
  atMostOne : r.periodic.length ≤ 1
  periodic : r.periodic ≠ [] ↔ has (r.reg Reg.b) pie = true ∧ r.period ≠ 0
  delay : ∀ e ∈ r.periodic, e.2 = r.period ∧ e.2 ≠ 0
  atMostOneAlarm : r.alarms.length ≤ 1
  inOrder : InOrder r.log

instance (r : Rtc) : Decidable r.Scheduled :=
  decidable_of_iff (r.periodic.length ≤ 1 ∧ (r.periodic ≠ [] ↔ has (r.reg Reg.b) pie = true ∧ r.period ≠ 0) ∧
      (∀ e ∈ r.periodic, e.2 = r.period ∧ e.2 ≠ 0) ∧ r.alarms.length ≤ 1 ∧ InOrder r.log)
    ⟨fun ⟨h₁, h₂, h₃, h₄, h₅⟩ => ⟨h₁, h₂, h₃, h₄, h₅⟩,
      fun h => ⟨h.atMostOne, h.periodic, h.delay, h.atMostOneAlarm, h.inOrder⟩⟩

theorem scheduled_of_sound (h : r.view.Sound) : r.Scheduled := by
  have halarms : r.alarms.length ≤ 1 := by
    obtain ⟨left, ha⟩ | hp := h.bell
    · rw [show r.alarms = _ from ha.alarms]
      exact Nat.le_refl _
    · obtain hnil | ⟨-, left, hone⟩ := hp.alarms
      · rw [show r.alarms = _ from hnil]
        exact Nat.zero_le _
      · rw [show r.alarms = _ from hone]
        exact Nat.le_refl _
  by_cases hon : has (r.reg Reg.b) pie = true ∧ r.period ≠ 0
  · have hone : r.periodic = [(r.periodicHandle, r.period)] := (h.pulse.beating hon.1 hon.2).2
    refine ⟨by simp [hone], by simpa [hone] using hon, fun e he => ?_, halarms, h.inOrder⟩
    rw [hone] at he
    exact List.mem_singleton.mp he ▸ ⟨rfl, hon.2⟩
  · have hnil : r.periodic = [] := h.pulse.still (by
      by_contra hoff
      simp only [not_or, Bool.not_eq_false] at hoff
      exact hon hoff)
    exact ⟨by simp [hnil], by simpa [hnil] using hon, by simp [hnil], halarms, h.inOrder⟩

/-- **Both events are scheduled exactly when enabled**, along every run from `rtc_init` on whose steps are
in order: one periodic event while there is to be one, with the period selected and never with none; one
alarm, which goes off in each second it is for and in no other; and no event is deleted that is gone.
Snapshots are among the steps. -/
theorem events_scheduled (r : Rtc) (now : HostTm) (h : ℕ) {ops : List Op} (hr : r.Blank) (hnow : now.moment.Valid) (hh : h ≠ 0)
    (hunderstood : ({ r with dataModeYes := true, twenty4HourClock := true }.setting).understood now = true)
    (hops : Meets step Orderly (r.rtcInit now h) ops) :
    EndsUnless (· = .outOfTurn) (ops.foldlM step (r.rtcInit now h)) Scheduled :=
  (hops.endsUnless_foldlM (fun _ _ hs hop => sound_step hs hop) (sound_init hr hnow hh hunderstood)).mono
    fun _ => scheduled_of_sound

/-- A guest that writes a register. -/
def put (i v : Byte) (h : ℕ) : List Op := [.outb 0x70 i h, .outb 0x71 v h]

/-- The clock of a machine before it is switched on, and when it is, on a day of 1994. -/
def off : Rtc := { ht := ⟨0, 0, 0, 1, 0, 70, 4⟩ }

def switchedOn (hour min sec : ℕ) : Rtc := off.rtcInit (Bench.spring hour min sec) 1

/-- Periodic interrupts are turned on and off, and the alarm goes off a second after it is set. -/
theorem events_scheduled_once :
    EndsUnless (· = Stop.outOfTurn)
      ((put 0xa 0x26 2 ++ put 0xb 0x42 2 ++ [Op.expire 3, .expire 4] ++ put 1 0x01 5 ++ put 5 0x10 5 ++
        [Op.tick 6] ++ List.replicate 17 (Op.tick 7) ++ put 0xb 2 8 ++ [Op.snapshot 6]).foldlM step (switchedOn 10 0 0)) Scheduled :=
  events_scheduled off (Bench.spring 10 0 0) 1 ⟨rfl, rfl, rfl, rfl, by decide, rfl⟩ (by decide) (by decide)
    (by decide) (by decide)

/-- An event is missing, in excess or at the wrong time, or one is deleted that is gone. -/
def Misses (r : Rtc) (ops : List Op) : Prop := Ends (ops.foldlM step r) fun r => ¬r.Scheduled

instance (r : Rtc) (ops : List Op) : Decidable (Misses r ops) := inferInstanceAs (Decidable (Ends _ _))

/-- Each thing the code does not do: the rate is changed while periodic interrupts are on, or set to none,
so that the event calls itself for ever; they are turned on with no rate once they have been off; a tick
follows an alarm; the alarm is set for a PM hour; it is set in the tick that updates the time; and it is
set again after a snapshot restored elsewhere. -/
theorem events_not_scheduled :
    Misses (switchedOn 10 0 0) (put 0xa 0x26 2 ++ put 0xb 0x42 2 ++ put 0xa 0x27 3) ∧
    (put 0xa 0x26 2 ++ put 0xb 0x42 2 ++ put 0xa 0x20 3 ++ [Op.expire 3]).foldlM step (switchedOn 10 0 0)
      = .error Stop.endless ∧
    Misses (switchedOn 10 0 0)
      (put 0xa 0x26 2 ++ put 0xb 0x42 2 ++ put 0xb 2 3 ++ put 0xa 0x20 3 ++ put 0xb 0x42 3) ∧
    Misses (switchedOn 10 0 0) (put 1 0x01 2 ++ put 5 0x10 2 ++ [.tick 2] ++ List.replicate 18 (.tick 3)) ∧
    Misses (switchedOn 10 0 0)
      (put 0xb 0 2 ++ put 1 0xc0 2 ++ put 3 0xc0 2 ++ put 5 0x81 2 ++ [.tick 2] ++ List.replicate 17 (.tick 3)) ∧
    Misses (switchedOn 10 0 0) (List.replicate 17 (.tick 2) ++ put 1 0x2 2 ++ put 5 0x10 2 ++ [.tick 2] ++
      List.replicate 17 (.tick 3)) ∧
    Misses (switchedOn 10 0 0) ([.snapshot 0] ++ put 1 0x30 2 ++ [.tick 2]) := by
  refine ⟨by decide, rfl, by decide, by decide, by decide, by decide,
    by decide⟩

end Rtc

end SoftPC.Cmos
