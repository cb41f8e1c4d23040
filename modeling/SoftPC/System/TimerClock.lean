import SoftPC.System.TimerUpdate

/-!
# System/TimerClock — the interrupts of counter 0 and the clocks that go by

Counter 0 is looked at by the ideal time's ticks and by the guest's reads.  A tick measures the clocks
since the activation time, a read between two ticks only guesses (`look_still`).  A measurement that finds `e`
clocks asks for `e / c` interrupts and moves the activation time to the last wrap, up to the microsecond
(`tick_measures`), so that the periods asked for fit into the time that has passed
(`interrupts_match_clocks`).

Two things are outside of that.  The count of 65536 is kept as 0, and a measurement that finds exactly
a multiple of it moves the activation time one period too far back (`Exact`); and a counter in mode 0
goes on asking for interrupts after its terminal count.
-/

namespace SoftPC.Timer

/-! ## Microseconds and clocks -/

namespace TimeVal

/-- A time in microseconds. -/
def micros (t : TimeVal) : ℤ := t.sec * 1000000 + t.usec

/-- The microseconds as `updateIdealTime` leaves them, which may be a whole second. -/
def Proper (t : TimeVal) : Prop := 0 ≤ t.usec ∧ t.usec ≤ 1000000

/-- `first` was so many microseconds before `now`, and less than a second. -/
structure Ago (first now : TimeVal) (d : ℕ) : Prop where
  first_proper : first.Proper
  now_proper : now.Proper
  micros_eq : now.micros = first.micros + d
  lt : d < 1000000
  le : first.sec ≤ now.sec

end TimeVal

/-- The whole clocks in so many microseconds. -/
def clocksIn (micros : ℕ) : ℕ := micros * 1193 / 1000

/-- The whole microseconds in so many clocks. -/
def microsIn (clocks : ℕ) : ℕ := clocks * 1000 / 1193

/-- So many microseconds and so many clocks, within one microsecond. -/
def Near (micros clocks : ℕ) : Prop :=
  1193 * micros < 1000 * clocks + 1193 ∧ 1000 * clocks < 1193 * micros + 1193

namespace TimeVal

variable {first now : TimeVal} {d : ℕ}

theorem ago_self (h : now.Proper) : now.Ago now 0 :=
  ⟨h, h, by simp, by decide, Int.le_refl _⟩

theorem toNat_ofInt_clocks (hd : d < 1000000) :
    (BitVec.ofInt 32 d * 1193 / 1000).toNat = clocksIn d := by
  rw [BitVec.toNat_udiv, BitVec.toNat_mul, BitVec.toNat_ofInt]
  change ((d : ℤ) % 4294967296).toNat * 1193 % 4294967296 / 1000 = d * 1193 / 1000
  omega

/-- **Within a second the clock is read to the clock.** -/
theorem Ago.toNat_clocksSince (h : first.Ago now d) : (clocksSince first now).toNat = clocksIn d := by
  obtain ⟨⟨hf, hf'⟩, ⟨hn, hn'⟩, hmicros, hlt, hle⟩ := h
  unfold micros at hmicros
  have hsec : now.sec - first.sec = 0 ∨ now.sec - first.sec = 1 := by omega
  unfold clocksSince
  rcases hsec with hsec | hsec
  · have husec : now.usec - first.usec = d := by omega
    rw [hsec, husec]
    exact toNat_ofInt_clocks hlt
  · have husec : 1000000 + now.usec - first.usec = d := by omega
    rw [hsec, husec]
    exact toNat_ofInt_clocks hlt

theorem Proper.next (h : now.Proper) : now.next.Proper := by
  obtain ⟨h0, h1⟩ := h
  have hintv : (systemTickIntv.toNat : ℤ) = 54925 := rfl
  unfold TimeVal.next Proper
  dsimp only
  split_ifs
  · constructor <;> dsimp only <;> omega
  · constructor <;> dsimp only <;> omega

/-- The ideal time goes up by the interval between two ticks. -/
theorem Ago.next (h : first.Ago now d) (hd : d + 54925 < 1000000) : first.Ago now.next (d + 54925) := by
  refine ⟨h.first_proper, h.now_proper.next, ?_, hd, ?_⟩
  · have := h.micros_eq
    have hintv : (systemTickIntv.toNat : ℤ) = 54925 := rfl
    unfold micros TimeVal.next at *
    dsimp only
    split_ifs <;> dsimp only <;> omega
  · have := h.le
    unfold TimeVal.next
    dsimp only
    split_ifs <;> dsimp only <;> omega

/-- The time `nclocks` before now is that many microseconds ago. -/
theorem ago_before (h : now.Proper) {n : BitVec 32} (hn : n.toNat ≤ 65536) :
    (now.before n).Ago now (microsIn n.toNat) := by
  obtain ⟨h0, h1⟩ := h
  have husecs : (n * 1000 / 1193).toNat = microsIn n.toNat := by
    rw [BitVec.toNat_udiv, BitVec.toNat_mul]
    change n.toNat * 1000 % 4294967296 / 1193 = n.toNat * 1000 / 1193
    omega
  have hle : microsIn n.toNat ≤ 54935 := by
    unfold microsIn
    omega
  unfold before
  rw [husecs]
  dsimp only
  split_ifs with hlt
  · exact ⟨⟨by dsimp only; omega, by dsimp only; omega⟩, ⟨h0, h1⟩, by unfold micros; dsimp only; omega, by omega,
      by dsimp only; omega⟩
  · exact ⟨⟨by dsimp only; omega, by dsimp only; omega⟩, ⟨h0, h1⟩, by unfold micros; dsimp only; omega, by omega,
      Int.le_refl _⟩

end TimeVal

/-! ## The baseline -/

/-- What a measurement starts from, and the interrupts asked for so far. -/
@[ext]
structure Baseline where
  m : Mode
  gate : BitVec 8
  initialCount : BitVec 32
  activationTime : TimeVal
  lastTicks : BitVec 32
  tc : Bool
  idealtime : TimeVal
  requested : ℕ

namespace Pcu

variable {ch : Fin 3} (u : Pcu ch)

def baseline : Baseline where
  m := u.m
  gate := u.gate
  initialCount := u.initialCount
  activationTime := u.activationTime
  lastTicks := u.lastTicks
  tc := u.tc
  idealtime := u.idealtime
  requested := u.requested

theorem baseline_eq {v : Pcu ch} (h : u.Kept v) (hact : v.activationTime = u.activationTime)
    (hlast : v.lastTicks = u.lastTicks) (htc : v.tc = u.tc) (hreq : v.requested = u.requested) :
    v.baseline = u.baseline := by
  unfold baseline
  rw [h.programming, h.idealtime, hact, hlast, htc, hreq]

/-- …and if only those three have changed. -/
theorem baseline_of_clock {v : Pcu ch} (h : v.toProgramming = u.toProgramming)
    (hglobals : v.toGlobals = u.toGlobals) (htc : v.tc = u.tc) :
    v.baseline = { u.baseline with activationTime := v.activationTime, lastTicks := v.lastTicks } := by
  unfold baseline
  rw [h, hglobals, htc]

end Pcu

/-- The clocks an update would find. -/
def Baseline.clocks (b : Baseline) : BitVec 32 := clocksSince b.activationTime b.idealtime

/-- An update would guess. -/
def Baseline.Estimated (b : Baseline) : Prop := (b.clocks - b.lastTicks).sle 0 = true

namespace Pcu

variable (u : Pcu 0)

theorem sinceActivated_zero (ticks : BitVec 32) : u.sinceActivated ticks = ticks :=
  if_neg fun h => absurd h.1 (by decide)

theorem estimated_iff : u.estimated (u.sinceActivated u.baseline.clocks) = true ↔ u.baseline.Estimated := by
  rw [sinceActivated_zero]
  rfl

theorem updateNow_zero : u.updateNow = u.updateCount u.baseline.clocks u.idealtime := rfl

/-- **An estimate asks for nothing and keeps the baseline.** -/
theorem updateCounter_still (h : u.baseline.Estimated) :
    Yields u.updateCounter fun v => v.baseline = u.baseline := by
  have hnow : Yields u.updateNow fun r => r.1 = 0 ∧ r.2.baseline = u.baseline := by
    rw [updateNow_zero]
    unfold updateCount
    rw [if_pos (u.estimated_iff.mpr h)]
    exact u.updateEstimated_keeps.bind fun v hv => .ok ⟨rfl, u.baseline_eq hv.1 hv.2.2.1 hv.2.2.2.1
      hv.2.2.2.2 (congrArg (fun l => (l.map Call.requests).sum) hv.2.1)⟩
  have hcounting : Yields (if u.gate = gateLow then .ok u else do
      let r ← u.updateNow
      r.2.wrapped r.1) fun v => v.baseline = u.baseline :=
    .ite (fun _ => .ok rfl) fun _ => hnow.bind fun r hr => by
      rw [hr.1]
      exact .ok hr.2
  have hstopping : Yields (if u.tc then .ok u else do
      let r ← u.updateNow
      return r.2.expired r.1) fun v => v.baseline = u.baseline :=
    .ite (fun _ => .ok rfl) fun _ => hnow.bind fun r hr => .ok (by rw [hr.1]; exact hr.2)
  unfold updateCounter
  cases u.m <;> first | exact hcounting | exact hstopping

theorem updateMeasured_eq {ch : Fin 3} (u : Pcu ch) (hm : u.m ≠ .intOnTerminalCount)
    (hpos : u.initialCount ≠ 0) (e : BitVec 32) (now : TimeVal) :
    u.updateMeasured e now =
      let w : Pcu ch := { u.throwaway with
        lastTicks := e, count := (u.initialCount - e % u.initialCount).setWidth 16 }
      .ok (e / u.initialCount, if e / u.initialCount ≠ 0 then
        w.setLastWrap (u.initialCount - w.count.setWidth 32) now else w) := by
  have hthrow : u.throwaway.toProgramming = u.toProgramming := u.throwaway_programming
  have hdown : countDown u.throwaway.m u.throwaway.initialCount e
      = .ok { wrap := e / u.initialCount, ticks := e % u.initialCount, modulo := u.initialCount } := by
    rw [hthrow]
    exact countDown_eq hm hpos e
  unfold updateMeasured
  dsimp only
  rw [hdown]
  rfl

/-- The clocks since the last wrap as `setLastWrap` is given them: a count of 65536 reads as 0. -/
def sinceWrap (c e : ℕ) : ℕ := c - (c - e % c) % 65536

end Pcu

namespace Baseline

variable (b : Baseline)

/-- `Count` after a measurement. -/
def countLeft : BitVec 16 := (b.initialCount - b.clocks % b.initialCount).setWidth 16

/-- The clocks since the last wrap, as `setLastWrap` is given them. -/
def lastWrap : BitVec 32 := b.initialCount - b.countLeft.setWidth 32

/-- The baseline moved by a measurement. -/
def moved : Baseline :=
  if b.clocks / b.initialCount = 0 then { b with lastTicks := b.clocks }
  else { b with activationTime := b.idealtime.before b.lastWrap, lastTicks := b.lastWrap }

/-- …and what the wraps it found ask for. -/
def asked (wrap : BitVec 32) : Baseline :=
  if wrap = 0 then b
  else
    { b with tc := b.tc || b.m = .intOnTerminalCount
             requested := b.requested + if b.m = .intOnTerminalCount then 1 else wrap.toNat }

end Baseline

namespace Pcu

variable (u : Pcu 0)

theorem wrapped_asks (wrap : BitVec 32) : Yields (u.wrapped wrap) fun v =>
    v.count = u.count ∧ v.baseline = u.baseline.asked wrap := by
  unfold wrapped Baseline.asked
  refine .ite (fun h => .ok ?_) fun h => ?_
  · rw [if_pos h]
    exact ⟨rfl, rfl⟩
  · rw [if_pos rfl, if_neg h]
    refine (Globals.issueIREQ0_asks _ _).bind fun g hg => .ok ⟨rfl, ?_⟩
    have hreq : g.requested = u.requested + if u.m = .intOnTerminalCount then 1 else wrap.toNat := by
      rw [hg.1]
      split_ifs <;> rfl
    exact Baseline.ext rfl rfl rfl rfl rfl rfl hg.2 hreq

/-- The measuring half of `updateNow`. -/
theorem updateNow_measures (hm : u.m ≠ .intOnTerminalCount) (hpos : u.initialCount ≠ 0)
    (hest : ¬u.baseline.Estimated) :
    Yields u.updateNow fun r =>
      r.1 = u.baseline.clocks / u.initialCount ∧ r.2.count = u.baseline.countLeft ∧
        r.2.baseline = u.baseline.moved := by
  rw [updateNow_zero]
  unfold updateCount
  rw [if_neg (u.estimated_iff.not.mpr hest), sinceActivated_zero, u.updateMeasured_eq hm hpos]
  refine .ok ⟨rfl, ?_, ?_⟩
  · split_ifs <;> rfl
  · have hprog := u.throwaway_programming
    have hglobals := u.throwaway_globals
    have hact := u.throwaway_activationTime
    have htc := u.throwaway_tc
    unfold Baseline.moved
    by_cases hwrap : u.baseline.clocks / u.baseline.initialCount = 0
    · have hwrap' : u.baseline.clocks / u.initialCount = 0 := hwrap
      rw [if_neg (not_not.mpr hwrap'), if_pos hwrap]
      refine (u.baseline_of_clock ?_ ?_ ?_).trans ?_
      · exact hprog
      · exact hglobals
      · exact htc
      · exact Baseline.ext rfl rfl rfl hact rfl rfl rfl rfl
    · have hwrap' : ¬u.baseline.clocks / u.initialCount = 0 := hwrap
      rw [if_pos hwrap', if_neg hwrap]
      exact u.baseline_of_clock hprog hglobals htc

/-- **A measurement in modes 2 and 3** leaves a count of `c - e % c`, asks for `e / c` interrupts, and
has the last wrap as the activation time if there was one. -/
theorem updateCounter_periodic (hm : u.m = .rateGen ∨ u.m = .squarewaveGen) (hgate : u.gate ≠ gateLow)
    (hpos : u.initialCount ≠ 0) (hest : ¬u.baseline.Estimated) :
    Yields u.updateCounter fun v =>
      v.count = u.baseline.countLeft ∧
        v.baseline = u.baseline.moved.asked (u.baseline.clocks / u.initialCount) := by
  have hm0 : u.m ≠ .intOnTerminalCount := by
    rcases hm with hm | hm <;> rw [hm] <;> decide
  have hcounter : u.updateCounter = u.updateNow >>= fun r => r.2.wrapped r.1 := by
    unfold updateCounter
    rcases hm with hm | hm <;> rw [hm] <;> exact if_neg hgate
  rw [hcounter]
  refine (u.updateNow_measures hm0 hpos hest).bind fun r hr => ?_
  obtain ⟨hwrap, hcount, hbase⟩ := hr
  rw [hwrap]
  exact (r.2.wrapped_asks _).mono fun v hv => ⟨hv.1.trans hcount, hbase ▸ hv.2⟩

/-- In mode 0 the measurement wraps once the count has run out. -/
theorem updateNow_terminal (hm : u.m = .intOnTerminalCount) (hest : ¬u.baseline.Estimated) :
    Yields u.updateNow fun r =>
      (r.1 ≠ 0 ↔ u.initialCount ≤ u.baseline.clocks) ∧
        (r.1 = 0 → r.2.baseline = { u.baseline with lastTicks := u.baseline.clocks }) := by
  have hprog := u.throwaway_programming
  have hglobals := u.throwaway_globals
  have hact := u.throwaway_activationTime
  have htc := u.throwaway_tc
  rw [updateNow_zero]
  unfold updateCount
  rw [if_neg (u.estimated_iff.not.mpr hest), sinceActivated_zero]
  unfold updateMeasured
  dsimp only
  rw [hprog, hm]
  refine wrap_countDown.bind fun d hd => .ok ⟨hd, fun h0 => ?_⟩
  rw [if_neg (not_not.mpr h0)]
  refine (u.baseline_of_clock ?_ ?_ ?_).trans ?_
  · rfl
  · exact hglobals
  · exact htc
  · exact Baseline.ext rfl rfl rfl hact rfl rfl rfl rfl

/-- **A measurement in mode 0** that finds the count run out asks for one interrupt. -/
theorem updateCounter_terminal (hm : u.m = .intOnTerminalCount) (hgate : u.gate ≠ gateLow)
    (hest : ¬u.baseline.Estimated) :
    Yields u.updateCounter fun v =>
      if u.initialCount ≤ u.baseline.clocks then
        v.m = .intOnTerminalCount ∧ v.tc = true ∧ v.requested = u.requested + 1
      else v.baseline = { u.baseline with lastTicks := u.baseline.clocks } := by
  have hcounter : u.updateCounter = u.updateNow >>= fun r => r.2.wrapped r.1 := by
    unfold updateCounter
    rw [hm]
    exact if_neg hgate
  rw [hcounter]
  refine ((u.updateNow_terminal hm hest).and u.updateNow_keeps).bind fun r hr => ?_
  obtain ⟨⟨hwrap, hbase⟩, hkept, hcalls, -⟩ := hr
  have hm' : r.2.baseline.m = .intOnTerminalCount := (congrArg Programming.m hkept.programming).trans hm
  have hreq : r.2.baseline.requested = u.requested :=
    congrArg (fun l => (l.map Call.requests).sum) hcalls
  refine (r.2.wrapped_asks r.1).mono fun v hv => ?_
  have hv := hv.2
  unfold Baseline.asked at hv
  split_ifs with hc
  · rw [if_neg (hwrap.mpr hc)] at hv
    refine ⟨(congrArg Baseline.m hv).trans hm', (congrArg Baseline.tc hv).trans ?_,
      (congrArg Baseline.requested hv).trans ?_⟩
    · simp [hm']
    · simp [hm', hreq]
  · have h0 : r.1 = 0 := Decidable.of_not_not fun h => hc (hwrap.mp h)
    rw [if_pos h0] at hv
    exact hv.trans (hbase h0)

end Pcu

/-! ## The phase of a running counter -/

namespace Baseline

variable {b : Baseline} {d : ℕ}

/-- A counter that has run for `d` microseconds since its last wrap, and was last looked at now. -/
structure Phase (b : Baseline) (d : ℕ) : Prop where
  gate : b.gate ≠ gateLow
  count_pos : b.initialCount ≠ 0
  count_le : b.initialCount.toNat ≤ 65536
  ago : b.activationTime.Ago b.idealtime d
  le : d ≤ 54934
  last_ge : clocksIn d ≤ b.lastTicks.toNat
  last_lt : 1000 * b.lastTicks.toNat < 1193 * (d + 1)

/-- The baseline at the next tick. -/
def ticked (b : Baseline) : Baseline := { b with idealtime := b.idealtime.next }

theorem Phase.toNat_clocks (h : b.Phase d) : b.clocks.toNat = clocksIn d := h.ago.toNat_clocksSince

theorem Phase.ago_ticked (h : b.Phase d) : b.activationTime.Ago b.ticked.idealtime (d + 54925) :=
  h.ago.next (by have := h.le; omega)

theorem Phase.toNat_clocks_ticked (h : b.Phase d) : b.ticked.clocks.toNat = clocksIn (d + 54925) :=
  h.ago_ticked.toNat_clocksSince

/-- Between two ticks the counter is guessed. -/
theorem Phase.estimated (h : b.Phase d) : b.Estimated := by
  have hclocks := h.toNat_clocks
  have hge := h.last_ge
  have hlt := h.last_lt
  unfold clocksIn at hclocks hge
  have hdiff : (b.clocks - b.lastTicks).toInt ≤ 0 := by
    rw [BitVec.toInt_eq_toNat_cond, BitVec.toNat_sub]
    split_ifs <;> omega
  unfold Estimated
  rw [BitVec.sle_eq_decide]
  exact decide_eq_true hdiff

/-- A tick measures it. -/
theorem Phase.not_estimated (h : b.Phase d) : ¬b.ticked.Estimated := by
  have hclocks := h.toNat_clocks_ticked
  have hlast : b.ticked.lastTicks = b.lastTicks := rfl
  have hle := h.le
  have hlt := h.last_lt
  unfold clocksIn at hclocks
  have hpast : b.lastTicks.toNat < b.ticked.clocks.toNat := by omega
  have hbound : b.ticked.clocks.toNat ≤ 131061 := by omega
  have hsub : (b.ticked.clocks - b.lastTicks).toNat = b.ticked.clocks.toNat - b.lastTicks.toNat :=
    BitVec.toNat_sub_of_le (Nat.le_of_lt hpast)
  have hdiff : 0 < (b.ticked.clocks - b.lastTicks).toInt := by
    rw [BitVec.toInt_eq_toNat_cond, hsub]
    split_ifs <;> omega
  unfold Estimated
  rw [BitVec.sle_eq_decide, hlast, decide_eq_true_iff]
  exact Int.not_le.mpr hdiff

/-- The clocks found are a multiple of the whole period of 65536. -/
def Exact (b : Baseline) : Prop :=
  b.initialCount.toNat = 65536 ∧ 65536 ≤ b.clocks.toNat ∧ b.clocks.toNat % 65536 = 0

/-- What is left of a period of `n` clocks, kept in sixteen bits. -/
theorem left_eq {n r : ℕ} (hr : r < n) (hn : n ≤ 65536) :
    (n - r) % 65536 = if n = 65536 ∧ r = 0 then 0 else n - r := by
  split_ifs with h
  · rw [h.1, h.2]
  · exact Nat.mod_eq_of_lt (by omega)

theorem toNat_lastWrap (hpos : b.initialCount ≠ 0) (hle : b.initialCount.toNat ≤ 65536) :
    b.lastWrap.toNat ≤ 65536 ∧
      (¬(b.initialCount.toNat = 65536 ∧ b.clocks.toNat % 65536 = 0) →
        b.lastWrap.toNat = b.clocks.toNat % b.initialCount.toNat) := by
  have hpos' : 0 < b.initialCount.toNat :=
    Nat.pos_of_ne_zero fun h => hpos (BitVec.eq_of_toNat_eq h)
  have hlt := Nat.mod_lt b.clocks.toNat hpos'
  have hsub : (b.initialCount - b.clocks % b.initialCount).toNat
      = b.initialCount.toNat - b.clocks.toNat % b.initialCount.toNat := by
    rw [BitVec.toNat_sub_of_le (BitVec.le_def.mpr (BitVec.toNat_umod ▸ Nat.le_of_lt hlt)), BitVec.toNat_umod]
  have hcount : (b.countLeft.setWidth 32).toNat =
      if b.initialCount.toNat = 65536 ∧ b.clocks.toNat % b.initialCount.toNat = 0 then 0
      else b.initialCount.toNat - b.clocks.toNat % b.initialCount.toNat := by
    unfold countLeft
    rw [BitVec.toNat_setWidth, BitVec.toNat_setWidth, hsub, left_eq hlt hle]
    refine Nat.mod_eq_of_lt ?_
    split_ifs <;> omega
  have hwrap : b.lastWrap.toNat = b.initialCount.toNat - (b.countLeft.setWidth 32).toNat := by
    refine BitVec.toNat_sub_of_le (BitVec.le_def.mpr ?_)
    rw [hcount]
    split_ifs
    · exact Nat.zero_le _
    · exact Nat.sub_le _ _
  rw [hwrap, hcount]
  split_ifs with h
  · exact ⟨hle, fun hne => absurd ⟨h.1, h.1 ▸ h.2⟩ hne⟩
  · exact ⟨Nat.le_trans (Nat.sub_le _ _) hle, fun _ => Nat.sub_sub_self (Nat.le_of_lt hlt)⟩

theorem asked_phase {wrap : BitVec 32} (h : b.Phase d) : (b.asked wrap).Phase d := by
  unfold asked
  by_cases h0 : wrap = 0
  · rw [if_pos h0]
    exact h
  · rw [if_neg h0]
    exact ⟨h.gate, h.count_pos, h.count_le, h.ago, h.le, h.last_ge, h.last_lt⟩

@[simp] theorem moved_m (b : Baseline) : b.moved.m = b.m := by
  unfold moved
  split_ifs <;> rfl

@[simp] theorem moved_requested (b : Baseline) : b.moved.requested = b.requested := by
  unfold moved
  split_ifs <;> rfl

@[simp] theorem moved_tc (b : Baseline) : b.moved.tc = b.tc := by
  unfold moved
  split_ifs <;> rfl

@[simp] theorem moved_idealtime (b : Baseline) : b.moved.idealtime = b.idealtime := by
  unfold moved
  split_ifs <;> rfl

@[simp] theorem moved_initialCount (b : Baseline) : b.moved.initialCount = b.initialCount := by
  unfold moved
  split_ifs <;> rfl

theorem asked_tc (hm : b.m ≠ .intOnTerminalCount) (wrap : BitVec 32) : (b.asked wrap).tc = b.tc := by
  unfold asked
  by_cases h0 : wrap = 0
  · rw [if_pos h0]
  · rw [if_neg h0, decide_eq_false hm]
    exact Bool.or_false _

@[simp] theorem asked_m (wrap : BitVec 32) : (b.asked wrap).m = b.m := by
  unfold asked
  by_cases h0 : wrap = 0
  · rw [if_pos h0]
  · rw [if_neg h0]

@[simp] theorem asked_idealtime (wrap : BitVec 32) : (b.asked wrap).idealtime = b.idealtime := by
  unfold asked
  by_cases h0 : wrap = 0
  · rw [if_pos h0]
  · rw [if_neg h0]

@[simp] theorem asked_initialCount (wrap : BitVec 32) : (b.asked wrap).initialCount = b.initialCount := by
  unfold asked
  by_cases h0 : wrap = 0
  · rw [if_pos h0]
  · rw [if_neg h0]

theorem requested_asked (hm : b.m ≠ .intOnTerminalCount) (wrap : BitVec 32) :
    (b.asked wrap).requested = b.requested + wrap.toNat := by
  unfold asked
  by_cases h0 : wrap = 0
  · rw [if_pos h0, h0]
    rfl
  · rw [if_neg h0, if_neg hm]

theorem toNat_countLeft (hpos : b.initialCount ≠ 0) :
    b.countLeft = BitVec.ofNat 16 (b.initialCount.toNat - b.clocks.toNat % b.initialCount.toNat) := by
  have hpos' : 0 < b.initialCount.toNat :=
    Nat.pos_of_ne_zero fun h => hpos (BitVec.eq_of_toNat_eq h)
  have hlt := Nat.mod_lt b.clocks.toNat hpos'
  have hc := b.initialCount.isLt
  refine BitVec.eq_of_toNat_eq ?_
  unfold countLeft
  rw [BitVec.toNat_setWidth, BitVec.toNat_sub, BitVec.toNat_umod, BitVec.toNat_ofNat]
  omega

/-- **A measurement starts the next phase** at the last wrap, and the periods it found fit into the
time it measured. -/
theorem Phase.moved (h : b.Phase d) : ∃ d', b.ticked.moved.Phase d' ∧
    (¬b.ticked.Exact → Near d' (b.ticked.clocks.toNat % b.initialCount.toNat) ∧
      1193 * d' + 1000 * (b.initialCount.toNat * (b.ticked.clocks.toNat / b.initialCount.toNat))
        ≤ 1193 * (d + 54925)) := by
  have hclocks := h.toNat_clocks_ticked
  have hpos : 0 < b.initialCount.toNat :=
    Nat.pos_of_ne_zero fun h0 => h.count_pos (BitVec.eq_of_toNat_eq h0)
  have hle := h.count_le
  have hdivmod := Nat.div_add_mod b.ticked.clocks.toNat b.initialCount.toNat
  have hquot : (b.ticked.clocks / b.initialCount).toNat
      = b.ticked.clocks.toNat / b.initialCount.toNat := BitVec.toNat_udiv
  have hago := h.ago_ticked
  unfold clocksIn at hclocks
  unfold Baseline.moved
  by_cases hwrap : b.ticked.clocks / b.ticked.initialCount = 0
  · have hzero : b.ticked.clocks.toNat / b.initialCount.toNat = 0 := by
      rw [← hquot]
      exact congrArg BitVec.toNat hwrap
    have hlt : b.ticked.clocks.toNat < b.initialCount.toNat :=
      (Nat.div_eq_zero_iff_lt hpos).mp hzero
    rw [if_pos hwrap]
    refine ⟨d + 54925, ⟨h.gate, h.count_pos, hle, hago, ?_, ?_, ?_⟩, fun _ => ?_⟩
    · omega
    · exact Nat.le_of_eq h.toNat_clocks_ticked.symm
    · dsimp only
      omega
    · rw [hzero, Nat.mod_eq_of_lt hlt]
      unfold Near
      omega
  · have hge : b.initialCount.toNat ≤ b.ticked.clocks.toNat := by
      refine Nat.le_of_not_lt fun hlt => hwrap (BitVec.eq_of_toNat_eq ?_)
      exact hquot.trans (Nat.div_eq_of_lt hlt)
    obtain ⟨hlast, hexact⟩ := toNat_lastWrap (b := b.ticked) h.count_pos hle
    rw [if_neg hwrap]
    refine ⟨microsIn b.ticked.lastWrap.toNat,
      ⟨h.gate, h.count_pos, hle, TimeVal.ago_before hago.now_proper hlast, ?_, ?_, ?_⟩, fun hne => ?_⟩
    · unfold microsIn
      omega
    · unfold microsIn clocksIn
      dsimp only
      omega
    · unfold microsIn
      dsimp only
      omega
    · have hrem : b.ticked.lastWrap.toNat = b.ticked.clocks.toNat % b.initialCount.toNat := by
        refine hexact fun h0 => hne ⟨h0.1, ?_, h0.2⟩
        exact h0.1 ▸ hge
      rw [hrem]
      unfold Near microsIn
      omega

end Baseline

/-! ## Looking at the counters -/

namespace Pcu

variable {ch : Fin 3} (u : Pcu ch)

/-- No interrupt asked for, the same ideal time, and of counter 0 the same baseline. -/
structure Still (u v : Pcu ch) : Prop where
  idealtime : v.idealtime = u.idealtime
  requested : v.requested = u.requested
  baseline : ch = 0 → v.baseline = u.baseline

/-- A guess where it is counter 0. -/
def Quiet : Prop := ch = 0 → u.baseline.Estimated

theorem updateCounter_other (hch : ch ≠ 0) : Yields u.updateCounter fun v => v.calls = u.calls := by
  have hcounting : Yields (if u.gate = gateLow then .ok u else do
      let r ← u.updateNow
      r.2.wrapped r.1) fun v => v.calls = u.calls :=
    .ite (fun _ => .ok rfl) fun _ => u.updateNow_keeps.bind fun r hr => by
      unfold wrapped
      rw [if_neg hch]
      exact .ite (fun _ => .ok hr.2.1) fun _ => .ok hr.2.1
  have hstopping : Yields (if u.tc then .ok u else do
      let r ← u.updateNow
      return r.2.expired r.1) fun v => v.calls = u.calls :=
    .ite (fun _ => .ok rfl) fun _ => u.updateNow_keeps.bind fun r hr => .ok <| by
      unfold expired
      split_ifs <;> exact hr.2.1
  unfold updateCounter
  cases u.m <;> first | exact hcounting | exact hstopping

theorem updateCounter_quiet (h : u.Quiet) : Yields u.updateCounter u.Still := by
  by_cases hch : ch = 0
  · subst hch
    exact (u.updateCounter_still (h rfl)).mono fun v hv =>
      ⟨congrArg Baseline.idealtime hv, congrArg Baseline.requested hv, fun _ => hv⟩
  · exact (u.updateCounter_keeps.and (u.updateCounter_other hch)).mono fun v hv =>
      ⟨hv.1.idealtime, congrArg (fun l => (l.map Call.requests).sum) hv.2, fun h0 => absurd h0 hch⟩

theorem readCounter_quiet (h : u.Quiet) : Yields u.readCounter u.Still :=
  (u.updateCounter_quiet h).bind fun _ hv => .ok ⟨hv.idealtime, hv.requested, hv.baseline⟩

theorem latchCount_quiet (h : u.Quiet) : Yields u.latchCount u.Still :=
  (u.readCounter_quiet h).bind fun _ hv => .ok ⟨hv.idealtime, hv.requested, hv.baseline⟩

theorem readUnlatched_quiet (h : u.Quiet) : Yields u.readUnlatched u.Still :=
  .ite (fun _ => .ok ⟨rfl, rfl, fun _ => rfl⟩) fun _ => u.readCounter_quiet h

theorem still_delivered : u.Still u.delivered := by
  unfold delivered
  split <;> (try split) <;> exact ⟨rfl, rfl, fun _ => rfl⟩

theorem Still.trans {u v w : Pcu ch} (h : u.Still v) (h' : v.Still w) : u.Still w :=
  ⟨h'.idealtime.trans h.idealtime, h'.requested.trans h.requested,
    fun h0 => (h'.baseline h0).trans (h.baseline h0)⟩

end Pcu

namespace Pit

variable (p : Pit)

/-- The baseline of counter 0. -/
def baseline : Baseline := (p.pcu 0).baseline

/-- Between two accesses of the ports no tick is held back. -/
def Unlocked : Prop := p.timelock = false ∧ p.needtick = false

/-- Counter 0 written back. -/
theorem baseline_put_zero (u : Pcu 0) : (p.put u).baseline = u.baseline := by
  unfold baseline pcu Pcu.baseline
  rw [p.timers_put_self]
  rfl

/-- A counter written back: the chip shows it where it is counter 0. -/
theorem baseline_put {ch : Fin 3} {u : Pcu ch} (h : (p.pcu ch).Still u) :
    (p.put u).baseline = p.baseline := by
  by_cases hch : ch = 0
  · subst hch
    exact (p.baseline_put_zero u).trans (h.baseline rfl)
  · unfold baseline pcu Pcu.baseline
    rw [p.timers_put_of_ne (Ne.symm hch)]
    exact Baseline.ext rfl rfl rfl rfl rfl rfl h.idealtime h.requested

theorem on_still {ch : Fin 3} {f : Pcu ch → Except Fault (Pcu ch)}
    (h : Yields (f (p.pcu ch)) (p.pcu ch).Still) :
    Yields (p.on ch f) fun q => q.baseline = p.baseline ∧ q.needtick = p.needtick :=
  h.bind fun _ hu => .ok ⟨p.baseline_put hu, rfl⟩

theorem checktimelock_still (h : p.needtick = false) :
    Yields p.checktimelock fun q => q.baseline = p.baseline ∧ q.Unlocked := by
  unfold checktimelock
  simp only [h, Bool.false_eq_true, if_false]
  exact .ok ⟨rfl, rfl, rfl⟩

theorem locked_still {f : Pit → Except Fault Pit} (h : p.needtick = false)
    (hf : Yields (f { p with timelock := true }) fun q =>
      q.baseline = p.baseline ∧ q.needtick = p.needtick) :
    Yields (p.locked f) fun q => q.baseline = p.baseline ∧ q.Unlocked :=
  hf.bind fun q hq => (q.checktimelock_still (hq.2.trans h)).mono fun _ hr => ⟨hr.1.trans hq.1, hr.2⟩

end Pit

/-- The guest or the ideal time looks at the chip: a tick, a read, or a command. -/
inductive Look
  | tick
  | inb (ch : Fin 3)
  | command (cwd : BitVec 8)

/-- The command programs no mode: it latches. -/
def Look.Reads : Look → Prop
  | .command cwd => channelOf cwd = none ∨ Access.ofWord cwd = .latch
  | _ => True

namespace Pit

variable (p : Pit)

def look : Look → Except Fault Pit
  | .tick => p.timeTick
  | .inb ch => do
    let r ← p.inb ch
    return r.2
  | .command cwd => p.outb none cwd

variable {p}

theorem quiet (h : p.baseline.Estimated) (ch : Fin 3) : (p.pcu ch).Quiet := by
  rintro rfl
  exact h

theorem readBack_still (h : p.baseline.Estimated) (cwd : BitVec 8) :
    Yields (p.readBack cwd) fun q => q.baseline = p.baseline ∧ q.needtick = p.needtick := by
  have hlatch : ∀ (q : Pit) (ch : Fin 3), q.baseline = p.baseline ∧ q.needtick = p.needtick →
      Yields (q.on ch Pcu.latchCount) fun r => r.baseline = p.baseline ∧ r.needtick = p.needtick :=
    fun q ch hq => (q.on_still (Pcu.latchCount_quiet _ (quiet (hq.1.symm ▸ h) ch))).mono
      fun _ hr => ⟨hr.1.trans hq.1, hr.2.trans hq.2⟩
  have hstatus : ∀ (q : Pit) (ch : Fin 3), q.baseline = p.baseline ∧ q.needtick = p.needtick →
      Yields (q.on ch fun u => .ok u.latchStatusValue) fun r =>
        r.baseline = p.baseline ∧ r.needtick = p.needtick :=
    fun q ch hq =>
      have hstill : (q.pcu ch).Still (q.pcu ch).latchStatusValue := ⟨rfl, rfl, fun _ => rfl⟩
      Yields.ok ⟨(q.baseline_put hstill).trans hq.1, hq.2⟩
  exact (yields_foldlM hlatch ⟨rfl, rfl⟩).bind fun q hq => yields_foldlM hstatus hq

/-- **A look between two ticks asks for nothing and keeps the baseline.** -/
theorem look_still (h : p.baseline.Estimated) (hlock : p.Unlocked) {l : Look} (hl : l.Reads)
    (hne : l ≠ .tick) : Yields (p.look l) fun q => q.baseline = p.baseline ∧ q.Unlocked := by
  have h' : ({ p with timelock := true } : Pit).baseline.Estimated := h
  cases l with
  | tick => exact absurd rfl hne
  | inb ch =>
    have hread := Pcu.readUnlatched_quiet _ (quiet h' ch)
    refine Yields.bind (Q := fun r => r.2.baseline = p.baseline ∧ r.2.Unlocked)
      (hread.bind fun u hu => ?_) fun r hr => .ok hr
    exact Yields.bind (checktimelock_still _ hlock.2) fun q hq =>
      .ok ⟨hq.1.trans (baseline_put _ (hu.trans u.still_delivered)), hq.2⟩
  | command cwd =>
    refine p.locked_still (f := fun p => p.controlWordReg cwd) hlock.2 ?_
    unfold controlWordReg
    split
    · exact readBack_still h' cwd
    · refine on_still _ ?_
      have hlatch : Access.ofWord cwd = .latch := hl.resolve_left (by simp_all)
      unfold Pcu.controlWord
      rw [if_pos hlatch]
      exact Pcu.latchCount_quiet _ (quiet h' _)

end Pit

/-! ## Loading a count -/

namespace Pcu

variable (u : Pcu 0)

@[simp] theorem baseline_outputForMode (count : BitVec 32) :
    (u.outputForMode count).baseline = u.baseline := by
  unfold outputForMode
  split <;> (try split_ifs) <;> rfl

@[simp] theorem baseline_enableInt (enabled : Bool) : (u.enableInt enabled).baseline = u.baseline := rfl

@[simp] theorem baseline_loadCounter :
    u.loadCounter.baseline = { u.baseline with initialCount := u.modulo, tc := false } := by
  have hcancel : (u.call .hwInterruptCancel).requested = u.requested := Nat.zero_add _
  unfold loadCounter
  dsimp only
  rw [if_pos rfl]
  split_ifs <;> exact Baseline.ext rfl rfl rfl rfl rfl rfl rfl hcancel

@[simp] theorem baseline_timestamp :
    u.timestamp.baseline = { u.baseline with activationTime := u.idealtime, lastTicks := 0 } := rfl

end Pcu

theorem Baseline.phase_zero {b : Baseline} (hgate : b.gate ≠ gateLow) (hpos : b.initialCount ≠ 0)
    (hle : b.initialCount.toNat ≤ 65536) (htime : b.idealtime.Proper)
    (hact : b.activationTime = b.idealtime) (hlast : b.lastTicks = 0) : b.Phase 0 :=
  ⟨hgate, hpos, hle, hact.symm ▸ TimeVal.ago_self htime, by decide, Nat.zero_le _,
    by rw [hlast]; decide⟩

namespace Pcu

variable {u : Pcu 0}

/-- The first count after a mode word, with the gate enabled. -/
theorem baseline_counterBufferLoaded (hgate : u.gate ≠ gateLow) :
    u.counterBufferLoaded.baseline = { u.baseline with
      initialCount := u.modulo, tc := false, activationTime := u.idealtime, lastTicks := 0 } := by
  let v := (u.setWtAction .timererror).loadCounter
  have hload : v.baseline = { u.baseline with initialCount := u.modulo, tc := false } :=
    baseline_loadCounter _
  have hgate' : v.gate ≠ gateLow := fun h => hgate ((congrArg Baseline.gate hload).symm.trans h)
  have hstart : u.counterBufferLoaded.baseline = (v.enableInt true).timestamp.baseline := by
    unfold counterBufferLoaded
    dsimp only
    rw [if_pos hgate']
    exact baseline_outputForMode ..
  rw [hstart, baseline_timestamp, baseline_enableInt, hload]
  exact congrArg (fun t => { u.baseline with
    initialCount := u.modulo, tc := false, activationTime := t, lastTicks := 0 })
    (congrArg Baseline.idealtime hload)

theorem baseline_runCount (hm : u.m = .rateGen ∨ u.m = .squarewaveGen) :
    u.runCount.baseline = { u.baseline with initialCount := u.modulo, tc := false } := by
  unfold runCount
  obtain ⟨v, hv⟩ : ∃ v : Pcu 0, v = { u with state := u.stateOnGate } := ⟨_, rfl⟩
  have hvm : v.m = u.m := hv ▸ rfl
  have hload : v.loadCounter.baseline = { u.baseline with initialCount := u.modulo, tc := false } := by
    rw [baseline_loadCounter, hv]
    rfl
  rw [← hv]
  dsimp only
  rw [hvm]
  rcases hm with hm | hm <;> rw [hm]
  · exact (baseline_outputForMode ..).trans hload
  · exact (baseline_outputForMode ..).trans hload

theorem baseline_runCount_terminal (hm : u.m = .intOnTerminalCount) :
    u.runCount.baseline = u.baseline := by
  unfold runCount
  obtain ⟨v, hv⟩ : ∃ v : Pcu 0, v = { u with state := u.stateOnGate } := ⟨_, rfl⟩
  have hvm : v.m = u.m := hv ▸ rfl
  rw [← hv]
  dsimp only
  rw [hvm, hm]
  refine (baseline_outputForMode ..).trans ?_
  rw [hv]
  rfl

theorem modulo_loadCounter : u.loadCounter.modulo = u.modulo := by
  unfold loadCounter
  dsimp only
  rw [if_pos rfl]
  rfl

/-- A count written over a running one in modes 2 and 3 keeps the activation time. -/
theorem baseline_resumeCounting234 (hm : u.m = .rateGen ∨ u.m = .squarewaveGen) :
    u.resumeCounting234.baseline = { u.baseline with initialCount := u.modulo, tc := false } := by
  unfold resumeCounting234
  dsimp only
  split_ifs
  · obtain ⟨v, hv⟩ : ∃ v : Pcu 0, v = { u with delay := u.count.setWidth 32 } := ⟨_, rfl⟩
    have hload : v.loadCounter.baseline = { u.baseline with initialCount := u.modulo, tc := false } := by
      rw [baseline_loadCounter, hv]
      rfl
    have hmod : v.loadCounter.modulo = u.modulo := by
      rw [modulo_loadCounter, hv]
      rfl
    have hvm : v.loadCounter.m = u.m := congrArg Baseline.m hload
    rw [← hv]
    refine (baseline_runCount (hvm ▸ hm)).trans ?_
    exact (congrArg₂ (fun (b : Baseline) c => { b with initialCount := c, tc := false }) hload hmod)
  · exact baseline_runCount hm

/-- A count written over one in mode 0 starts anew: its first byte has frozen the counter. -/
theorem baseline_resumeCounting0 (hm : u.m = .intOnTerminalCount) (hfreeze : u.freezeCounter = true)
    (hnew : u.newCount = .available) :
    u.resumeCounting0.baseline = { u.baseline with
      initialCount := u.modulo, tc := false, activationTime := u.idealtime, lastTicks := 0 } := by
  obtain ⟨v, hv⟩ : ∃ v : Pcu 0, v = { u.timestamp with freezeCounter := false } := ⟨_, rfl⟩
  have hload : v.loadCounter.baseline = { u.baseline with
      initialCount := u.modulo, tc := false, activationTime := u.idealtime, lastTicks := 0 } := by
    rw [baseline_loadCounter, hv]
    rfl
  have hvnew : v.newCount = .available := hv ▸ hnew
  have htc : v.loadCounter.tc = false := congrArg Baseline.tc hload
  have hvm : v.loadCounter.m = u.m := congrArg Baseline.m hload
  have hunfreeze : u.unfreeze.loadNew = v.loadCounter := by
    unfold unfreeze loadNew
    rw [if_pos hfreeze, ← hv, if_pos hvnew]
  unfold resumeCounting0
  dsimp only
  rw [hunfreeze, htc]
  refine Eq.trans ?_ hload
  exact baseline_runCount_terminal (hvm.trans hm)

end Pcu

/-! ## Counter 0 as it counts -/

def Baseline.Periodic (b : Baseline) : Prop := b.m = .rateGen ∨ b.m = .squarewaveGen

namespace Pit

/-- **Counter 0 counts, with its gate enabled**: a count has been loaded in mode 0, 2 or 3, as the first
after the mode word or over one that runs, and the counters have been looked at since.  In mode 0 that
is up to the terminal count. -/
inductive Counting : Pit → Prop
  | load {p : Pit} (hm : p.baseline.Periodic ∨ p.baseline.m = .intOnTerminalCount)
      (hgate : p.baseline.gate ≠ gateLow) (htime : p.idealtime.Proper) (hlock : p.Unlocked) :
      Counting (p.put (p.pcu 0).counterBufferLoaded)
  | reload {p : Pit} (lsb msb : BitVec 8) (hp : Counting p) (hm : p.baseline.Periodic) :
      Counting (p.put ((p.pcu 0).written lsb msb).resumeCounting234)
  | restart {p : Pit} (lsb msb : BitVec 8) (hm : p.baseline.m = .intOnTerminalCount)
      (hgate : p.baseline.gate ≠ gateLow) (htime : p.idealtime.Proper) (hlock : p.Unlocked)
      (hfreeze : (p.timers 0).freezeCounter = true) :
      Counting (p.put ((p.pcu 0).written lsb msb).resumeCounting0)
  | look {p q : Pit} {l : Look} (hp : Counting p) (hl : l.Reads) (htc : p.baseline.tc = false)
      (hq : p.look l = .ok q) : Counting q

/-- What holds as it counts. -/
structure Counted (p : Pit) : Prop where
  unlocked : p.Unlocked
  mode : p.baseline.Periodic ∨ p.baseline.m = .intOnTerminalCount
  periodic : p.baseline.Periodic → p.baseline.tc = false
  phase : p.baseline.tc = false → ∃ d, p.baseline.Phase d

variable {p : Pit}

/-- A tick updates counter 0 at the next ideal time, and then counter 2. -/
theorem timeTick_yields {Q : Pcu 0 → Prop} (hlock : p.Unlocked)
    (h : Yields ({ p with idealtime := p.idealtime.next }.pcu 0).updateCounter Q) :
    Yields p.timeTick fun q =>
      q.Unlocked ∧ ∃ v, Q v ∧ q.timers 0 = v.toCounter ∧ q.baseline = v.baseline := by
  unfold timeTick
  simp only [hlock.1, Bool.false_eq_true, if_false]
  refine Yields.bind (Q := fun q => q.Unlocked ∧ ∃ v, Q v ∧ q.timers 0 = v.toCounter ∧
    q.baseline = v.baseline) (h.bind fun v hv => .ok ⟨⟨rfl, hlock.2⟩, v, hv, ?_, ?_⟩) fun q hq => ?_
  · exact timers_put_self _ v
  · exact baseline_put_zero _ v
  · obtain ⟨hunlocked, v, hv, hcounter, hbase⟩ := hq
    have hquiet : (q.pcu 2).Quiet := fun h0 => absurd h0 (by decide)
    refine ((q.pcu 2).updateCounter_quiet hquiet).bind fun w hw => .ok ⟨hunlocked, v, hv, ?_, ?_⟩
    · exact (q.timers_put_of_ne (by decide) w).trans hcounter
    · exact (q.baseline_put hw).trans hbase

/-- The period, and the clocks the next tick finds since the activation time. -/
def period (p : Pit) : ℕ := (p.timers 0).initialCount.toNat

def elapsed (p : Pit) : ℕ :=
  clocksIn (p.idealtime.next.micros - (p.timers 0).activationTime.micros).toNat

/-- They are a multiple of the period of 65536. -/
def Exact (p : Pit) : Prop := p.period = 65536 ∧ 65536 ≤ p.elapsed ∧ p.elapsed % 65536 = 0

theorem elapsed_eq {d : ℕ} (h : p.baseline.Phase d) : p.elapsed = p.baseline.ticked.clocks.toNat := by
  have hmicros := h.ago_ticked.micros_eq
  have hdiff : (p.idealtime.next.micros - (p.timers 0).activationTime.micros).toNat = d + 54925 := by
    change p.idealtime.next.micros = (p.timers 0).activationTime.micros + _ at hmicros
    omega
  unfold elapsed
  rw [hdiff, h.toNat_clocks_ticked]

/-- What a tick leaves in modes 2 and 3. -/
structure Measured (p q : Pit) : Prop where
  requested : q.requested = p.requested + p.elapsed / p.period
  count : (q.timers 0).count = BitVec.ofNat 16 (p.period - p.elapsed % p.period)
  baseline : ¬p.Exact →
    Near (q.idealtime.micros - (q.timers 0).activationTime.micros).toNat (p.elapsed % p.period)

/-- **A tick in modes 2 and 3** asks for the periods gone by, and the next phase starts. -/
theorem tick_measures {d : ℕ} (h : p.baseline.Phase d) (hm : p.baseline.Periodic) (hlock : p.Unlocked) :
    Yields p.timeTick fun q => p.Measured q ∧ q.Unlocked ∧ ∃ d', q.baseline.Phase d' ∧
      q.baseline = p.baseline.ticked.moved.asked (p.baseline.ticked.clocks / p.baseline.initialCount) ∧
      (¬p.Exact → 1193 * d' + 1000 * (p.period * (p.elapsed / p.period)) ≤ 1193 * (d + 54925)) := by
  have helapsed := elapsed_eq h
  obtain ⟨d', hphase, hfits⟩ := h.moved
  refine (timeTick_yields hlock (Pcu.updateCounter_periodic _ hm h.gate h.count_pos h.not_estimated)).mono
    fun q hq => ?_
  obtain ⟨hunlocked, v, ⟨hcount, hbase⟩, hcounter, hq⟩ := hq
  have hbase' : q.baseline = p.baseline.ticked.moved.asked
      (p.baseline.ticked.clocks / p.baseline.initialCount) := hq.trans hbase
  have hphase' : q.baseline.Phase d' := hbase' ▸ Baseline.asked_phase hphase
  have hquot : (p.baseline.ticked.clocks / p.baseline.initialCount).toNat = p.elapsed / p.period := by
    rw [helapsed, BitVec.toNat_udiv]
    rfl
  have hm0 : p.baseline.ticked.moved.m ≠ .intOnTerminalCount := by
    rw [Baseline.moved_m]
    intro h0
    rcases hm with hm | hm <;> cases hm.symm.trans h0
  have hexact : p.Exact ↔ p.baseline.ticked.Exact := by
    unfold Exact
    rw [helapsed]
    rfl
  refine ⟨⟨?_, ?_, fun hne => ?_⟩, hunlocked, d', hphase', hbase', fun hne => ?_⟩
  · change q.baseline.requested = p.baseline.requested + _
    rw [hbase', Baseline.requested_asked hm0, Baseline.moved_requested, hquot]
    rfl
  · have hleft := Baseline.toNat_countLeft (b := p.baseline.ticked) h.count_pos
    rw [← helapsed] at hleft
    rw [hcounter]
    exact hcount.trans hleft
  · have hmicros := hphase'.ago.micros_eq
    change q.idealtime.micros = (q.timers 0).activationTime.micros + _ at hmicros
    have hd : (q.idealtime.micros - (q.timers 0).activationTime.micros).toNat = d' := by omega
    rw [hd, helapsed]
    exact (hfits (hne ∘ hexact.mpr)).1
  · rw [helapsed]
    exact (hfits (hne ∘ hexact.mpr)).2

/-- **A tick in mode 0** asks for one interrupt if the count has run out. -/
theorem tick_terminal {d : ℕ} (h : p.baseline.Phase d) (hm : p.baseline.m = .intOnTerminalCount)
    (htc : p.baseline.tc = false) (hlock : p.Unlocked) :
    Yields p.timeTick fun q => q.Unlocked ∧ q.baseline.m = .intOnTerminalCount ∧
      q.baseline.tc = decide (p.period ≤ p.elapsed) ∧
      q.requested = p.requested + (if p.period ≤ p.elapsed then 1 else 0) ∧
      (q.baseline.tc = false → ∃ d', q.baseline.Phase d') := by
  have helapsed := elapsed_eq h
  refine (timeTick_yields hlock (Pcu.updateCounter_terminal _ hm h.gate h.not_estimated)).mono
    fun q hq => ?_
  obtain ⟨hunlocked, v, hv, -, hbase⟩ := hq
  have hle : p.baseline.initialCount ≤ p.baseline.ticked.clocks ↔ p.period ≤ p.elapsed := by
    rw [helapsed]
    rfl
  have hv : if p.baseline.initialCount ≤ p.baseline.ticked.clocks then
      v.m = .intOnTerminalCount ∧ v.tc = true ∧ v.requested = p.requested + 1
    else v.baseline = { p.baseline.ticked with lastTicks := p.baseline.ticked.clocks } := hv
  refine ⟨hunlocked, ?_⟩
  by_cases hout : p.period ≤ p.elapsed
  · rw [if_pos (hle.mpr hout)] at hv
    rw [if_pos hout, decide_eq_true hout]
    have htc' : q.baseline.tc = true := (congrArg Baseline.tc hbase).trans hv.2.1
    exact ⟨(congrArg Baseline.m hbase).trans hv.1, htc',
      (congrArg Baseline.requested hbase).trans hv.2.2, fun h0 => absurd (htc'.symm.trans h0) (by decide)⟩
  · rw [if_neg (hle.not.mpr hout)] at hv
    rw [if_neg hout, decide_eq_false hout, hbase, hv]
    have hclocks := h.toNat_clocks_ticked
    have hlt : p.baseline.ticked.clocks.toNat < p.baseline.initialCount.toNat :=
      helapsed ▸ Nat.lt_of_not_le hout
    have hcount := h.count_le
    refine ⟨hm, htc, (congrArg Baseline.requested (hbase.trans hv)), fun _ => ⟨d + 54925, h.gate,
      h.count_pos, hcount, h.ago_ticked, ?_, ?_, ?_⟩⟩
    · unfold clocksIn at hclocks
      omega
    · exact Nat.le_of_eq hclocks.symm
    · unfold clocksIn at hclocks
      dsimp only
      omega

theorem periodic_ne (hm : p.baseline.Periodic) : p.baseline.m ≠ .intOnTerminalCount := by
  intro h0
  rcases hm with hm | hm <;> cases hm.symm.trans h0

/-- **What holds as counter 0 counts**, constructor by constructor. -/
theorem Counting.counted (h : p.Counting) : p.Counted := by
  induction h with
  | @load p hm hgate htime hlock =>
    have hbase := (p.baseline_put_zero _).trans (Pcu.baseline_counterBufferLoaded hgate)
    have hmod := (p.pcu 0).modulo_bounds
    refine ⟨hlock, ?_, fun _ => ?_, fun _ => ⟨0, ?_⟩⟩
    · rw [hbase]
      exact hm
    · rw [hbase]
    · rw [hbase]
      exact Baseline.phase_zero hgate hmod.1 hmod.2 htime rfl rfl
  | @reload p lsb msb _ hm ih =>
    have hbase := (p.baseline_put_zero _).trans
      (Pcu.baseline_resumeCounting234 (u := (p.pcu 0).written lsb msb) hm)
    have hmod := ((p.pcu 0).written lsb msb).modulo_bounds
    obtain ⟨d, hd⟩ := ih.phase (ih.periodic hm)
    refine ⟨ih.unlocked, ?_, fun _ => ?_, fun _ => ⟨d, ?_⟩⟩
    · rw [hbase]
      exact .inl hm
    · rw [hbase]
    · rw [hbase]
      exact ⟨hd.gate, hmod.1, hmod.2, hd.ago, hd.le, hd.last_ge, hd.last_lt⟩
  | @restart p lsb msb hm hgate htime hlock hfreeze =>
    have hbase := (p.baseline_put_zero _).trans
      (Pcu.baseline_resumeCounting0 (u := (p.pcu 0).written lsb msb) hm hfreeze rfl)
    have hmod := ((p.pcu 0).written lsb msb).modulo_bounds
    refine ⟨hlock, ?_, fun _ => ?_, fun _ => ⟨0, ?_⟩⟩
    · rw [hbase]
      exact .inr hm
    · rw [hbase]
    · rw [hbase]
      exact Baseline.phase_zero hgate hmod.1 hmod.2 htime rfl rfl
  | @look p q l _ hl htc hq ih =>
    obtain ⟨d, hd⟩ := ih.phase htc
    by_cases hne : l = .tick
    · subst hne
      rcases ih.mode with hm | hm
      · obtain ⟨-, hunlocked, d', hd', hbase, -⟩ := tick_measures hd hm ih.unlocked q hq
        have hm0 := periodic_ne hm
        have hqm : q.baseline.m = p.baseline.m := by
          rw [hbase, Baseline.asked_m, Baseline.moved_m]
          rfl
        refine ⟨hunlocked, .inl ?_, fun _ => ?_, fun _ => ⟨d', hd'⟩⟩
        · unfold Baseline.Periodic
          rw [hqm]
          exact hm
        · rw [hbase, Baseline.asked_tc (by rw [Baseline.moved_m]; exact hm0), Baseline.moved_tc]
          exact htc
      · obtain ⟨hunlocked, hqm, -, -, hphase⟩ := tick_terminal hd hm htc ih.unlocked q hq
        refine ⟨hunlocked, .inr hqm, fun hper => ?_, hphase⟩
        exact absurd hqm (periodic_ne hper)
    · obtain ⟨hbase, hunlocked⟩ := look_still hd.estimated ih.unlocked hl hne q hq
      refine ⟨hunlocked, ?_, fun h => ?_, fun _ => ⟨d, ?_⟩⟩
      · rw [hbase]
        exact ih.mode
      · rw [hbase]
        exact htc
      · rw [hbase]
        exact hd

/-- **The periods asked for fit into the time** since the activation time of the start, if no tick finds
a multiple of the period of 65536. -/
theorem periods_fit (h : p.Counting) (hm : p.baseline.Periodic) {looks : List Look}
    (hlooks : Meets look (fun q l => l.Reads ∧ (l = .tick → ¬q.Exact)) p looks) :
    Yields (looks.foldlM look p) fun q =>
      1000 * (p.period * (q.requested - p.requested : ℤ))
        ≤ 1193 * (q.idealtime.micros - (p.timers 0).activationTime.micros) := by
  -- what has gone by since the last wrap is left over
  let I : Pit → Prop := fun q => q.Unlocked ∧ q.baseline.Periodic ∧ q.baseline.tc = false ∧
    q.period = p.period ∧ ∃ d, q.baseline.Phase d ∧
      1000 * (p.period * (q.requested - p.requested : ℤ)) + 1193 * d
        ≤ 1193 * (q.idealtime.micros - (p.timers 0).activationTime.micros)
  have hcounted := h.counted
  obtain ⟨d, hd⟩ := hcounted.phase (hcounted.periodic hm)
  have hstart : I p := by
    refine ⟨hcounted.unlocked, hm, hcounted.periodic hm, rfl, d, hd, ?_⟩
    have hmicros := hd.ago.micros_eq
    change p.idealtime.micros = (p.timers 0).activationTime.micros + d at hmicros
    rw [hmicros, Int.sub_self, Int.mul_zero]
    omega
  refine (Meets.yields_foldlM (I := I) ?_ hlooks hstart).mono fun q hq => ?_
  · rintro q l ⟨hunlocked, hper, htc, hperiod, d, hd, hfit⟩ ⟨hl, hexact⟩
    by_cases hne : l = .tick
    · subst hne
      refine (tick_measures hd hper hunlocked).mono fun r hr => ?_
      obtain ⟨hmeasured, hunlocked', d', hd', hbase, hfits⟩ := hr
      have hper' : r.baseline.m = q.baseline.m := by
        rw [hbase, Baseline.asked_m, Baseline.moved_m]
        rfl
      have hperiod' : r.period = q.period := by
        change r.baseline.initialCount.toNat = q.baseline.initialCount.toNat
        rw [hbase, Baseline.asked_initialCount, Baseline.moved_initialCount]
        rfl
      have hideal : r.idealtime.micros = q.idealtime.micros + 54925 := by
        have hnow := hd.ago.micros_eq
        have hnext := hd.ago_ticked.micros_eq
        have hr : r.baseline.idealtime = q.baseline.ticked.idealtime := by
          rw [hbase, Baseline.asked_idealtime, Baseline.moved_idealtime]
        change r.baseline.idealtime.micros = q.baseline.idealtime.micros + 54925
        rw [hr]
        omega
      have htc' : r.baseline.tc = false := by
        rw [hbase, Baseline.asked_tc (by rw [Baseline.moved_m]; exact periodic_ne hper), Baseline.moved_tc]
        exact htc
      refine ⟨hunlocked', ?_, htc', hperiod'.trans hperiod, d', hd', ?_⟩
      · unfold Baseline.Periodic
        rw [hper']
        exact hper
      · have hfits := hfits (hexact rfl)
        have hsum : (p.period * (r.requested - p.requested : ℤ)) = p.period * (q.requested - p.requested : ℤ)
            + (p.period * (q.elapsed / q.period) : ℕ) := by
          rw [hmeasured.requested, Int.natCast_add, Int.natCast_mul, ← Int.mul_add]
          congr 1
          omega
        rw [hperiod] at hfits hsum
        omega
    · refine (look_still hd.estimated hunlocked hl hne).mono fun r hr => ?_
      obtain ⟨hbase, hunlocked'⟩ := hr
      have hrequested : r.requested = q.requested := congrArg Baseline.requested hbase
      have hideal : r.idealtime = q.idealtime := congrArg Baseline.idealtime hbase
      have hperiod' : r.period = q.period := congrArg (fun b => b.initialCount.toNat) hbase
      refine ⟨hunlocked', hbase ▸ hper, hbase ▸ htc, hperiod'.trans hperiod, d, hbase ▸ hd, ?_⟩
      rw [hrequested, hideal]
      exact hfit
  · obtain ⟨-, -, -, -, d, -, hfit⟩ := hq
    omega

/-- **Up to the terminal count of mode 0** one interrupt is asked for, when the count has run out. -/
theorem terminal_once (h : p.Counting) (hm : p.baseline.m = .intOnTerminalCount)
    (htc : p.baseline.tc = false) {looks : List Look}
    (hlooks : Meets look (fun q l => l.Reads ∧ q.baseline.tc = false) p looks) :
    Yields (looks.foldlM look p) fun q =>
      q.requested = p.requested + if q.baseline.tc then 1 else 0 := by
  let I : Pit → Prop := fun q => q.Counting ∧ q.baseline.m = .intOnTerminalCount ∧
    q.requested = p.requested + if q.baseline.tc then 1 else 0
  have hstart : I p := ⟨h, hm, by rw [htc]; rfl⟩
  refine (Meets.yields_foldlM (I := I) ?_ hlooks hstart).mono fun q hq => hq.2.2
  rintro q l ⟨hcounting, hqm, hrequested⟩ ⟨hl, hqtc⟩ r hr
  have hcounted := hcounting.counted
  obtain ⟨d, hd⟩ := hcounted.phase hqtc
  rw [hqtc] at hrequested
  refine ⟨.look hcounting hl hqtc hr, ?_⟩
  by_cases hne : l = .tick
  · subst hne
    obtain ⟨-, hrm, hrtc, hasked, -⟩ := tick_terminal hd hqm hqtc hcounted.unlocked r hr
    refine ⟨hrm, ?_⟩
    rw [hasked, hrequested, hrtc]
    simp
  · obtain ⟨hbase, -⟩ := look_still hd.estimated hcounted.unlocked hl hne r hr
    rw [hbase, hqtc]
    exact ⟨hqm, (congrArg Baseline.requested hbase).trans hrequested⟩

/-- **The interrupts of counter 0 match the clocks that go by.**  Looks that guess ask for nothing and
keep the baseline; so does every look between two ticks.  In modes 2 and 3 a tick asks for `e / c`
interrupts, leaves `c - e % c`, and, unless it finds a multiple of the period of 65536, has the activation time
within a microsecond of `e % c` clocks ago; in a run without such a tick no clock is counted twice.
In mode 0 the tick that finds the count run out asks for one interrupt, and the looks up to it for none. -/
theorem interrupts_match_clocks {p : Pit} (h : p.Counting) :
    (p.baseline.tc = false → p.baseline.Estimated) ∧
    (p.baseline.Estimated → ∀ l : Look, l.Reads → l ≠ .tick → Yields (p.look l) fun q =>
      q.requested = p.requested ∧ (q.timers 0).activationTime = (p.timers 0).activationTime) ∧
    (p.baseline.Periodic → Yields p.timeTick p.Measured ∧
      ∀ looks, Meets look (fun q l => l.Reads ∧ (l = .tick → ¬q.Exact)) p looks →
        Yields (looks.foldlM look p) fun q =>
          1000 * (p.period * (q.requested - p.requested : ℤ))
            ≤ 1193 * (q.idealtime.micros - (p.timers 0).activationTime.micros)) ∧
    (p.baseline.m = .intOnTerminalCount → p.baseline.tc = false →
      (Yields p.timeTick fun q =>
        q.requested = p.requested + (if p.period ≤ p.elapsed then 1 else 0) ∧
          q.baseline.tc = decide (p.period ≤ p.elapsed)) ∧
      ∀ looks, Meets look (fun q l => l.Reads ∧ q.baseline.tc = false) p looks →
        Yields (looks.foldlM look p) fun q =>
          q.requested = p.requested + if q.baseline.tc then 1 else 0) := by
  have hcounted := h.counted
  refine ⟨fun htc => ?_, fun hest l hl hne => ?_, fun hm => ⟨?_, fun looks hlooks => ?_⟩,
    fun hm htc => ⟨?_, fun looks hlooks => ?_⟩⟩
  · obtain ⟨d, hd⟩ := hcounted.phase htc
    exact hd.estimated
  · exact (look_still hest hcounted.unlocked hl hne).mono fun q hq =>
      ⟨congrArg Baseline.requested hq.1, congrArg Baseline.activationTime hq.1⟩
  · obtain ⟨d, hd⟩ := hcounted.phase (hcounted.periodic hm)
    exact (tick_measures hd hm hcounted.unlocked).mono fun q hq => hq.1
  · exact periods_fit h hm hlooks
  · obtain ⟨d, hd⟩ := hcounted.phase htc
    exact (tick_terminal hd hm htc hcounted.unlocked).mono fun q hq => ⟨hq.2.2.2.1, hq.2.2.1⟩
  · exact terminal_once h hm htc hlooks

/-- Counter 0 with the count `msb lsb` loaded in mode 2. -/
def loaded (lsb msb : BitVec 8) : Pit :=
  let p : Pit := { timers := fun _ => { m := .rateGen, gate := gateRise, outblsb := lsb, outbmsb := msb } }
  p.put (p.pcu 0).counterBufferLoaded

theorem counting_loaded (lsb msb : BitVec 8) : (loaded lsb msb).Counting :=
  .load (.inl (.inl rfl)) (show gateRise ≠ gateLow by decide)
    ⟨Int.le_refl 0, (by decide : (0 : ℤ) ≤ 1000000)⟩ ⟨rfl, rfl⟩

/-- A count of 1: the first tick asks for 65525 interrupts. -/
theorem interrupts_match_clocks_of_one : Yields (loaded 1 0).timeTick (loaded 1 0).Measured :=
  ((interrupts_match_clocks (counting_loaded 1 0)).2.2.1 (.inl rfl)).1

/-- With a count of 65518 the first tick finds seven clocks after the wrap, and sets the activation time
five microseconds back: more than one clock off. -/
theorem activation_time_past_one_clock : ∃ p : Pit, p.Counting ∧ p.baseline.Periodic ∧
    Ends p.timeTick fun q =>
      1193 * (q.idealtime.micros - (q.timers 0).activationTime.micros).toNat + 1000
        < 1000 * (p.elapsed % p.period) :=
  ⟨loaded 0xee 0xff, counting_loaded 0xee 0xff, .inl rfl, by decide⟩

end Pit

end SoftPC.Timer
