import Mathlib.Data.Nat.Notation
import Mathlib.Tactic.SplitIfs

/-!
# Machinery/Calendar — a date and a time of day

The Gregorian calendar, second by second: `Moment.next` carries from the seconds through to the year, and
keeps every field in its range (`Moment.Valid.next`).
-/

namespace SoftPC

/-- A leap year. -/
def isLeap (year : ℕ) : Bool := year % 4 = 0 && (year % 100 ≠ 0 || year % 400 = 0)

/-- The days of a month, 1 to 12. -/
def daysIn (year month : ℕ) : ℕ :=
  if month = 2 then if isLeap year then 29 else 28
  else if month = 4 ∨ month = 6 ∨ month = 9 ∨ month = 11 then 30 else 31

/-- A second of a day; weekdays count from 0, days and months from 1. -/
structure Moment where
  second : ℕ
  minute : ℕ
  hour : ℕ
  weekday : ℕ
  day : ℕ
  month : ℕ
  year : ℕ
  deriving DecidableEq

namespace Moment

/-- Every field is in its range. -/
structure Valid (t : Moment) : Prop where
  second : t.second < 60
  minute : t.minute < 60
  hour : t.hour < 24
  weekday : t.weekday < 7
  day : 1 ≤ t.day ∧ t.day ≤ daysIn t.year t.month
  month : 1 ≤ t.month ∧ t.month ≤ 12

instance (t : Moment) : Decidable t.Valid :=
  decidable_of_iff (t.second < 60 ∧ t.minute < 60 ∧ t.hour < 24 ∧ t.weekday < 7 ∧
      (1 ≤ t.day ∧ t.day ≤ daysIn t.year t.month) ∧ 1 ≤ t.month ∧ t.month ≤ 12)
    ⟨fun ⟨hs, hm, hh, hw, hd, hmon⟩ => ⟨hs, hm, hh, hw, hd, hmon⟩,
      fun h => ⟨h.second, h.minute, h.hour, h.weekday, h.day, h.month⟩⟩

/-- The date after this one. -/
def nextDay (t : Moment) : Moment :=
  let t := { t with weekday := (t.weekday + 1) % 7 }
  if t.day < daysIn t.year t.month then { t with day := t.day + 1 }
  else if t.month < 12 then { t with day := 1, month := t.month + 1 }
  else { t with day := 1, month := 1, year := t.year + 1 }

/-- The second after this one. -/
def next (t : Moment) : Moment :=
  if t.second + 1 < 60 then { t with second := t.second + 1 }
  else if t.minute + 1 < 60 then { t with second := 0, minute := t.minute + 1 }
  else if t.hour + 1 < 24 then { t with second := 0, minute := 0, hour := t.hour + 1 }
  else { t with second := 0, minute := 0, hour := 0 }.nextDay

/-- Seconds since midnight. -/
def ofDay (t : Moment) : ℕ := t.second + 60 * t.minute + 3600 * t.hour

theorem daysIn_pos (year month : ℕ) : 1 ≤ daysIn year month := by
  unfold daysIn
  split_ifs <;> decide

theorem daysIn_le (year month : ℕ) : daysIn year month ≤ 31 := by
  unfold daysIn
  split_ifs <;> decide

theorem Valid.nextDay {t : Moment} (h : t.Valid) : t.nextDay.Valid := by
  have hweekday : (t.weekday + 1) % 7 < 7 := Nat.mod_lt _ (by decide)
  unfold Moment.nextDay
  dsimp only
  split_ifs with hday hmonth
  · exact ⟨h.second, h.minute, h.hour, hweekday, ⟨Nat.le_add_left _ _, hday⟩, h.month⟩
  · exact ⟨h.second, h.minute, h.hour, hweekday, ⟨Nat.le_refl _, daysIn_pos _ _⟩, Nat.le_add_left _ _, hmonth⟩
  · exact ⟨h.second, h.minute, h.hour, hweekday, ⟨Nat.le_refl _, daysIn_pos _ _⟩, Nat.le_refl _, (by decide : 1 ≤ 12)⟩

/-- **A valid second is followed by a valid one.** -/
theorem Valid.next {t : Moment} (h : t.Valid) : t.next.Valid := by
  unfold Moment.next
  split_ifs with hsecond hminute hhour
  · exact { h with second := hsecond }
  · exact { h with second := Nat.succ_pos _, minute := hminute }
  · exact { h with second := Nat.succ_pos _, minute := Nat.succ_pos _, hour := hhour }
  · exact Valid.nextDay { h with second := Nat.succ_pos _, minute := Nat.succ_pos _, hour := Nat.succ_pos _ }

end Moment

end SoftPC
