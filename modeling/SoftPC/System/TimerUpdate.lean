import Mathlib.Tactic.Common
import SoftPC.Machinery.Outcome
import SoftPC.System.Timer

/-!
# System/TimerUpdate — what an update of a counter does

An update is a reading of the clock, a count down, and the interrupts of its wraps.  It changes no field
that programming sets (`updateCounter_keeps`); its count down is a division with remainder
(`countDown_eq`); and the interrupts asked for are those `issueIREQ0` was called with
(`Globals.requested`).
-/

namespace SoftPC.Timer

/-! ## Interrupts asked for -/

/-- The interrupts a call asks `issueIREQ0` for. -/
def Call.requests : Call → ℕ
  | .issueIREQ0 n => n.toNat
  | _ => 0

/-- The interrupts asked for so far. -/
def Globals.requested (g : Globals) : ℕ := (g.calls.map Call.requests).sum

namespace Globals

variable (g : Globals)

@[simp] theorem requested_timerGenerateInt : g.timerGenerateInt.requested = g.requested := by
  unfold timerGenerateInt
  split_ifs <;> simp [requested, call, Call.requests]

@[simp] theorem idealtime_timerGenerateInt : g.timerGenerateInt.idealtime = g.idealtime := by
  unfold timerGenerateInt
  split_ifs <;> rfl

/-- A call that asks for so many interrupts, at the same ideal time. -/
def Asks (g : Globals) (n : ℕ) (g' : Globals) : Prop :=
  g'.requested = g.requested + n ∧ g'.idealtime = g.idealtime

theorem addToWorkload_asks (n : BitVec 32) : Yields (g.addToWorkload n) (g.Asks 0) := by
  unfold addToWorkload
  exact Yields.bind (Q := fun _ => True) (fun _ _ => trivial) fun _ _ => .ok ⟨rfl, rfl⟩

theorem spreadOverTick_asks (n : BitVec 32) : Yields (g.spreadOverTick n) (g.Asks 0) := by
  unfold spreadOverTick
  refine Yields.bind (Q := fun _ => True) (fun _ _ => trivial) fun _ _ => .ok ⟨?_, ?_⟩
  · exact (Nat.zero_add _).trans g.requested_timerGenerateInt
  · exact g.idealtime_timerGenerateInt

/-- `issueIREQ0(n)` asks for `n`, whatever becomes of them. -/
theorem issueIREQ0_asks (n : BitVec 32) : Yields (g.issueIREQ0 n) (g.Asks n.toNat) := by
  have hnote : (g.call (.issueIREQ0 n)).requested = g.requested + n.toNat := Nat.add_comm _ _
  have hmono : ∀ g', (g.call (.issueIREQ0 n)).Asks 0 g' → g.Asks n.toNat g' := fun g' h =>
    ⟨h.1.trans hnote, h.2⟩
  unfold issueIREQ0
  refine .ite (fun _ => .ite (fun _ => .ite (fun _ => ?_) fun _ => .ite (fun _ => ?_) fun _ => ?_)
    fun _ => .ok ⟨hnote, rfl⟩) fun _ => .ite (fun _ => .ok ⟨hnote, rfl⟩) fun _ => .ok ⟨hnote, rfl⟩
  · exact (addToWorkload_asks _ n).mono hmono
  · exact .ok (hmono _ ⟨requested_timerGenerateInt _, idealtime_timerGenerateInt _⟩)
  · exact (spreadOverTick_asks _ n).mono hmono

end Globals

/-! ## The count down -/

/-- **The count down divides**: in every mode but 0 the wraps are the periods that have gone by. -/
theorem Pcu.countDown_eq {m : Mode} (hm : m ≠ .intOnTerminalCount) {c : BitVec 32} (hc : c ≠ 0)
    (t : BitVec 32) :
    Pcu.countDown m c t = .ok { wrap := t / c, ticks := t % c, modulo := c } := by
  have hpos : 0 < c.toNat := Nat.pos_of_ne_zero fun h => hc (BitVec.eq_of_toNat_eq h)
  have ht : t.toNat < 2 ^ 32 := t.isLt
  unfold Pcu.countDown
  rw [if_neg hm]
  by_cases h : t < c
  · have hlt : t.toNat < c.toNat := h
    rw [if_pos h]
    congr 2
    · exact BitVec.eq_of_toNat_eq (by rw [BitVec.toNat_udiv, Nat.div_eq_of_lt hlt]; rfl)
    · exact BitVec.eq_of_toNat_eq (by rw [BitVec.toNat_umod, Nat.mod_eq_of_lt hlt])
  · have hle : c.toNat ≤ t.toNat := Nat.le_of_not_lt h
    have hsub : (t - c).toNat = t.toNat - c.toNat := by bv_omega
    have hdiv : t.toNat / c.toNat = 1 + (t.toNat - c.toNat) / c.toNat := by
      rw [Nat.div_eq t.toNat, if_pos ⟨hpos, hle⟩, Nat.add_comm]
    have hmod : (t - c).toNat % c.toNat = t.toNat % c.toNat := by
      rw [hsub, ← Nat.mod_eq_sub_mod hle]
    rw [if_neg h]
    by_cases h' : t - c < c
    · have hlt : (t - c).toNat < c.toNat := h'
      rw [if_pos h']
      congr 2
      · refine BitVec.eq_of_toNat_eq ?_
        rw [BitVec.toNat_udiv, hdiv, ← hsub, Nat.div_eq_of_lt hlt]
        rfl
      · exact BitVec.eq_of_toNat_eq (by rw [BitVec.toNat_umod, ← hmod, Nat.mod_eq_of_lt hlt])
    · rw [if_neg h', quotient, if_neg hc]
      have hquot : 1 + (t - c) / c = t / c := by
        refine BitVec.eq_of_toNat_eq ?_
        have hlt : t.toNat / c.toNat < 2 ^ 32 := Nat.lt_of_le_of_lt (Nat.div_le_self ..) ht
        rw [hdiv] at hlt
        rw [BitVec.toNat_add, BitVec.toNat_udiv, BitVec.toNat_udiv, hsub, hdiv]
        exact Nat.mod_eq_of_lt hlt
      have hrem : (t - c) % c = t % c := BitVec.eq_of_toNat_eq (by
        rw [BitVec.toNat_umod, BitVec.toNat_umod, hmod])
      rw [← hquot, ← hrem]
      rfl

/-- …and in mode 0 there is a wrap once the count has run out. -/
theorem Pcu.wrap_countDown {c t : BitVec 32} :
    Yields (Pcu.countDown .intOnTerminalCount c t) fun d => d.wrap ≠ 0 ↔ c ≤ t := by
  unfold Pcu.countDown
  refine .ite (fun h => .ok ?_) fun h => ?_
  · have hlt : t.toNat < c.toNat := h
    simpa [BitVec.le_def] using hlt
  have hle : c ≤ t := BitVec.not_lt.mp h
  refine .ite (fun _ => .ok ?_) fun _ => ?_
  · exact ⟨fun _ => hle, fun _ => by simp⟩
  · refine Yields.bind (Q := fun r => r.toNat ≤ 0xffff) (fun r hr => ?_) fun r hr => .ok ?_
    · simp only [quotient, if_true] at hr
      rw [if_neg (by decide)] at hr
      cases hr
      have : (t - c).toNat < 2 ^ 32 := (t - c).isLt
      rw [BitVec.toNat_udiv]
      change (t - c).toNat / 65536 ≤ _
      omega
    · exact ⟨fun _ => hle, fun _ h0 => by bv_omega⟩

/-! ## The counts that can be loaded -/

theorem bcdToBin_le (val : BitVec 16) : bcdToBin val ≤ 16665 := by
  unfold bcdToBin
  dsimp only
  omega

theorem bcdToBin_ne_zero {val : BitVec 16} (h : val ≠ 0) : bcdToBin val ≠ 0 := by
  have hne : val.toNat ≠ 0 := fun h0 => h (BitVec.eq_of_toNat_eq h0)
  have hlt : val.toNat < 65536 := val.isLt
  unfold bcdToBin
  intro h0
  simp only [Nat.add_eq_zero_iff, Nat.mul_eq_zero, Nat.reduceEqDiff, or_false] at h0
  obtain ⟨⟨⟨hones, htens⟩, hhundreds⟩, hthousands⟩ := h0
  omega

/-- The counts that can be loaded are those from 1 to 65536. -/
theorem Programming.modulo_bounds (p : Programming) : p.modulo ≠ 0 ∧ p.modulo.toNat ≤ 65536 := by
  have hlt : (p.outbmsb ++ p.outblsb).toNat < 65536 := (p.outbmsb ++ p.outblsb).isLt
  unfold modulo
  dsimp only
  split_ifs with hbcd h0 h0
  · decide
  · have hle := bcdToBin_le (p.outbmsb ++ p.outblsb)
    have hpos := bcdToBin_ne_zero h0
    constructor
    · intro h
      have := congrArg BitVec.toNat h
      rw [BitVec.toNat_ofNat] at this
      change _ % 4294967296 = 0 at this
      omega
    · rw [BitVec.toNat_ofNat]
      omega
  · decide
  · have hne : (p.outbmsb ++ p.outblsb).toNat ≠ 0 := fun h => h0 (BitVec.eq_of_toNat_eq h)
    constructor
    · intro h
      have := congrArg BitVec.toNat h
      rw [BitVec.toNat_setWidth] at this
      change _ % 4294967296 = 0 at this
      omega
    · rw [BitVec.toNat_setWidth]
      omega

/-! ## What an update leaves alone -/

namespace Pcu

variable {ch : Fin 3} (u : Pcu ch)

/-- Everything but the count and the clock of a counter is as it was. -/
structure Kept (u v : Pcu ch) : Prop where
  programming : v.toProgramming = u.toProgramming
  idealtime : v.idealtime = u.idealtime

theorem Kept.trans {u v w : Pcu ch} (h : u.Kept v) (h' : v.Kept w) : u.Kept w :=
  ⟨h'.programming.trans h.programming, h'.idealtime.trans h.idealtime⟩

@[simp] theorem timeRead_toCounter : u.timeRead.toCounter = u.toCounter := by
  unfold timeRead
  split_ifs <;> rfl

theorem kept_timeRead : u.Kept u.timeRead := by
  unfold timeRead
  split_ifs <;> exact ⟨rfl, rfl⟩

@[simp] theorem calls_timeRead : u.timeRead.calls = u.calls := by
  unfold timeRead
  split_ifs <;> rfl

theorem guess_keeps : Yields u.guess fun v =>
    u.Kept v ∧ v.calls = u.calls ∧ v.activationTime = u.activationTime ∧ v.lastTicks = u.lastTicks ∧
      v.tc = u.tc := by
  unfold guess beginGuesses
  split_ifs with h
  · refine Yields.bind (Q := fun v => u.Kept v ∧ v.calls = u.calls ∧
      v.activationTime = u.activationTime ∧ v.lastTicks = u.lastTicks ∧ v.tc = u.tc)
      (Yields.bind (Q := fun _ => True) (fun _ _ => trivial) fun _ _ => .ok ⟨⟨rfl, rfl⟩, rfl, rfl, rfl, rfl⟩)
      fun v hv => .ok ⟨⟨hv.1.programming, hv.1.idealtime⟩, hv.2⟩
  · exact .ok ⟨⟨rfl, rfl⟩, rfl, rfl, rfl, rfl⟩

@[simp] theorem throwaway_programming : u.throwaway.toProgramming = u.toProgramming := by
  dsimp only [throwaway]
  split_ifs <;> rfl

@[simp] theorem throwaway_globals : u.throwaway.toGlobals = u.toGlobals := by
  dsimp only [throwaway]
  split_ifs <;> rfl

@[simp] theorem throwaway_activationTime : u.throwaway.activationTime = u.activationTime := by
  dsimp only [throwaway]
  split_ifs <;> rfl

@[simp] theorem throwaway_tc : u.throwaway.tc = u.tc := by
  dsimp only [throwaway]
  split_ifs <;> rfl

/-- **An estimate moves no baseline** and asks for nothing. -/
theorem updateEstimated_keeps : Yields u.updateEstimated fun v =>
    u.Kept v ∧ v.calls = u.calls ∧ v.activationTime = u.activationTime ∧ v.lastTicks = u.lastTicks ∧
      v.tc = u.tc := by
  unfold updateEstimated
  refine u.guess_keeps.bind fun v hv => ?_
  exact Yields.bind (Q := fun _ => True) (fun _ _ => trivial) fun d _ =>
    .ok ⟨⟨hv.1.programming, hv.1.idealtime⟩, hv.2⟩

theorem updateMeasured_keeps (ticks : BitVec 32) (now : TimeVal) :
    Yields (u.updateMeasured ticks now) fun r => u.Kept r.2 ∧ r.2.calls = u.calls ∧ r.2.tc = u.tc := by
  unfold updateMeasured
  refine Yields.bind (Q := fun _ => True) (fun _ _ => trivial) fun d _ => .ok ?_
  dsimp only
  split_ifs <;> exact ⟨⟨u.throwaway_programming, congrArg Globals.idealtime u.throwaway_globals⟩,
    congrArg Globals.calls u.throwaway_globals, u.throwaway_tc⟩

theorem updateNow_keeps : Yields u.updateNow fun r => u.Kept r.2 ∧ r.2.calls = u.calls ∧ r.2.tc = u.tc := by
  have hread := u.kept_timeRead
  have htc : u.timeRead.tc = u.tc := congrArg (fun c : Counter => c.tc) u.timeRead_toCounter
  unfold updateNow updateCount
  refine .ite (fun _ => ?_) fun _ => ?_
  · refine u.timeRead.updateEstimated_keeps.bind fun v hv => .ok ⟨hread.trans hv.1, ?_, ?_⟩
    · exact hv.2.1.trans u.calls_timeRead
    · exact hv.2.2.2.2.trans htc
  · exact (u.timeRead.updateMeasured_keeps _ _).mono fun r hr =>
      ⟨hread.trans hr.1, hr.2.1.trans u.calls_timeRead, hr.2.2.trans htc⟩

theorem wrapped_keeps (wrap : BitVec 32) : Yields (u.wrapped wrap) u.Kept := by
  unfold wrapped
  refine .ite (fun _ => .ok ⟨rfl, rfl⟩) fun _ => .ite (fun _ => ?_) fun _ => .ok ⟨rfl, rfl⟩
  exact (Globals.issueIREQ0_asks _ _).bind fun g hg => .ok ⟨rfl, hg.2⟩

theorem kept_expired (wrap : BitVec 32) : u.Kept (u.expired wrap) := by
  unfold expired
  split_ifs <;> exact ⟨rfl, rfl⟩

/-- **An update programs nothing.** -/
theorem updateCounter_keeps : Yields u.updateCounter u.Kept := by
  have hcounting : Yields (if u.gate = gateLow then .ok u else do
      let r ← u.updateNow
      r.2.wrapped r.1) u.Kept :=
    .ite (fun _ => .ok ⟨rfl, rfl⟩) fun _ => u.updateNow_keeps.bind fun r hr =>
      (r.2.wrapped_keeps r.1).mono fun _ h => hr.1.trans h
  have hstopping : Yields (if u.tc then .ok u else do
      let r ← u.updateNow
      return r.2.expired r.1) u.Kept :=
    .ite (fun _ => .ok ⟨rfl, rfl⟩) fun _ => u.updateNow_keeps.bind fun r hr =>
      .ok (hr.1.trans (r.2.kept_expired r.1))
  unfold updateCounter
  cases u.m <;> first | exact hcounting | exact hstopping

end Pcu

/-! ## Counters of the chip -/

namespace Pit

variable (p : Pit)

theorem timers_put_self {ch : Fin 3} (u : Pcu ch) : (p.put u).timers ch = u.toCounter :=
  Function.update_self (f := p.timers) ..

theorem timers_put_of_ne {ch i : Fin 3} (h : i ≠ ch) (u : Pcu ch) : (p.put u).timers i = p.timers i :=
  Function.update_of_ne (f := p.timers) h ..

end Pit

end SoftPC.Timer
