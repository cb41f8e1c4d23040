import SoftPC.System.TimerReady

/-!
# System/TimerSafety — runs of the 8253 that stop in no fault

Over the counters (`TimerReady`): an access of the guest makes at most five guesses, a restore is taken
as it stands, and a run whose steps meet `Pit.Allowed` stops in no fault of a counter
(`Pit.no_fault_while_allowed`).
-/

namespace SoftPC.Timer

open Shown (Resumable Waits)

namespace Pit

variable {p : Pit} {j k : ℕ}

/-- All counters are ready. -/
def Ready (k : ℕ) (p : Pit) : Prop := ∀ ch, (p.pcu ch).shown.Ready k

theorem Ready.mono (h : p.Ready k) (hj : j ≤ k) : p.Ready j := fun ch => (h ch).mono hj

theorem shown_pcu_put_self {ch : Fin 3} (u : Pcu ch) : ((p.put u).pcu ch).shown = u.shown := by
  unfold Pcu.shown
  have : ((p.put u).pcu ch).toCounter = u.toCounter := p.timers_put_self u
  rw [this]

theorem shown_pcu_put_of_ne {ch i : Fin 3} (h : i ≠ ch) (u : Pcu ch) :
    ((p.put u).pcu i).shown = (p.pcu i).shown := by
  have : ((p.put u).pcu i).toCounter = (p.pcu i).toCounter := p.timers_put_of_ne h u
  unfold Pcu.shown
  rw [this]

theorem Ready.put (h : p.Ready k) {ch : Fin 3} {u : Pcu ch} (hu : u.shown.Ready k) : (p.put u).Ready k := by
  intro i
  by_cases hi : i = ch
  · subst hi
    exact shown_pcu_put_self u ▸ hu
  · rw [shown_pcu_put_of_ne hi u]
    exact h i

/-- **A function of one counter.** -/
theorem on_ready (h : p.Ready (k + 1)) {ch : Fin 3} {f : Pcu ch → Except Fault (Pcu ch)}
    (hf : (p.pcu ch).shown.Ready (k + 1) → EndsUnless Fault.Spreads (f (p.pcu ch)) fun v => v.shown.Ready k) :
    EndsUnless Fault.Spreads (p.on ch f) (Ready k) :=
  (hf (h ch)).bind fun _ hv => .ok ((h.mono (Nat.le_succ k)).put hv)

end Pit

namespace Pcu

variable {ch : Fin 3} {u : Pcu ch} {k : ℕ}

/-- What an update leaves ready. -/
theorem updateCounter_ready (h : u.shown.Ready (k + 1)) :
    EndsUnless Fault.Spreads u.updateCounter fun v => v.shown.Ready k := by
  refine (updateCounter_ends h.divides).mono fun v hv => ⟨hv.1, ?_⟩
  have hable := h.able
  change Shown.Able _ v.toProgramming.state
  rw [hv.2]
  refine ⟨hable.present, fun hs => ?_, fun hs => ⟨?_, fun hnone => ?_⟩⟩
  · change v.toProgramming.actionOnGateEnabled ≠ none
    exact hv.2 ▸ hable.gate hs
  · change v.toProgramming.actionOnWtComplete ≠ none
    exact hv.2 ▸ (hable.write hs).wt
  · change v.toProgramming.trigger = _ ∧ v.toProgramming.actionOnWtComplete ≠ _ ∧
      v.toProgramming.actionOnWtComplete ≠ _
    change v.toProgramming.actionOnGateEnabled = none at hnone
    rw [hv.2] at hnone ⊢
    exact (hable.write hs).gate hnone

theorem readCounter_ready (h : u.shown.Ready (k + 1)) :
    EndsUnless Fault.Spreads u.readCounter fun v => v.shown.Ready k :=
  (updateCounter_ready h).bind fun _ hv => .ok (hv.reading ..)

theorem latchCount_ready (h : u.shown.Ready (k + 1)) :
    EndsUnless Fault.Spreads u.latchCount fun v => v.shown.Ready k :=
  (readCounter_ready h).bind fun _ hv => .ok (hv.reading ..)

theorem latchStatusValue_ready (h : u.shown.Ready k) : u.latchStatusValue.shown.Ready k := h.reading ..

theorem delivered_ready (h : u.shown.Ready k) : u.delivered.shown.Ready k := by
  unfold delivered
  split
  · split <;> exact h.reading ..
  · exact h.reading ..
  · exact h.reading ..
  · exact h

/-- **A mode word** starts a counter anew. -/
theorem newMode_ready (h : u.shown.Divides k) (cwd : BitVec 8) : (u.newMode cwd).shown.Ready k := by
  rw [shown_newMode]
  exact ⟨⟨h.1, h.2, h.3, h.4⟩, Shown.able_of_armed _ nofun nofun⟩

theorem controlWord_ready (h : u.shown.Ready (k + 1)) (cwd : BitVec 8) :
    EndsUnless Fault.Spreads (u.controlWord cwd) fun v => v.shown.Ready k := by
  unfold controlWord
  exact .ite (fun _ => latchCount_ready h) fun _ => .ok (newMode_ready (h.divides.mono (Nat.le_succ k)) cwd)

end Pcu

namespace Pit

variable {p : Pit} {k : ℕ}

/-! ## Accesses of the guest -/

theorem timeTick_ready (h : p.Ready (k + 2)) : EndsUnless Fault.Spreads p.timeTick (Ready k) := by
  unfold timeTick
  refine .ite (fun _ => .ok (h.mono (Nat.le_add_right k 2))) fun _ => ?_
  have htime : Ready (k + 1 + 1) { p with idealtime := p.idealtime.next } := h
  exact (on_ready htime Pcu.updateCounter_ready).bind fun q hq => on_ready hq Pcu.updateCounter_ready

theorem checktimelock_ready (h : p.Ready (k + 2)) : EndsUnless Fault.Spreads p.checktimelock (Ready k) := by
  unfold checktimelock
  refine .ite (fun _ => ?_) fun _ => ?_
  · have hunlocked : Ready (k + 2) { p with timelock := false, needtick := false } := h
    exact timeTick_ready hunlocked
  · exact .ok (h.mono (Nat.le_add_right k 2))

/-- **A port access**: what it does, and the tick that may have waited. -/
theorem locked_ready {j : ℕ} (h : p.Ready j) {f : Pit → Except Fault Pit}
    (hf : ∀ q : Pit, q.timers = p.timers → q.Ready j → EndsUnless Fault.Spreads (f q) (Ready (k + 2))) :
    EndsUnless Fault.Spreads (p.locked f) (Ready k) := by
  have hlock : Ready j { p with timelock := true } := h
  unfold locked
  exact (hf { p with timelock := true } rfl hlock).bind fun q hq => checktimelock_ready hq

theorem gate_ready (h : p.Ready (k + 3)) {ch : Fin 3}
    (hr : (p.pcu ch).shown.Waits → (p.pcu ch).shown.Resumable) (value : BitVec 8) :
    EndsUnless Fault.Spreads (p.gate ch value) (Ready k) := by
  unfold gate
  refine locked_ready h fun q hsame hq => on_ready hq fun hch => Pcu.gateSignal_ready hch ?_ value
  have : (q.pcu ch).shown = (p.pcu ch).shown := by
    unfold Pcu.shown pcu
    rw [hsame]
  rwa [this]

/-- The read back command latches no counter twice. -/
theorem readBack_ready (h : p.Ready (k + 3)) (cwd : BitVec 8) :
    EndsUnless Fault.Spreads (p.readBack cwd) (Ready k) := by
  have hcounts : ∀ (chs : List (Fin 3)) (n : ℕ) (q : Pit), chs.length ≤ n → q.Ready (k + n) →
      EndsUnless Fault.Spreads (chs.foldlM (fun p ch => p.on ch Pcu.latchCount) q) (Ready k) := by
    intro chs
    induction chs with
    | nil => exact fun n q _ hq => .ok (hq.mono (Nat.le_add_right k n))
    | cons ch chs ih =>
      intro n q hn hq
      obtain ⟨n, rfl⟩ := Nat.exists_eq_succ_of_ne_zero (show n ≠ 0 by rintro rfl; simp at hn)
      rw [List.foldlM_cons]
      exact (on_ready (k := k + n) hq Pcu.latchCount_ready).bind fun r hr =>
        ih n r (Nat.le_of_succ_le_succ hn) hr
  have hstatuses : ∀ (chs : List (Fin 3)) (q : Pit), q.Ready k →
      EndsUnless Fault.Spreads (chs.foldlM (fun p ch => p.on ch fun u => .ok u.latchStatusValue) q)
        (Ready k) := by
    intro chs
    induction chs with
    | nil => exact fun q hq => .ok hq
    | cons ch chs ih =>
      intro q hq
      rw [List.foldlM_cons]
      exact EndsUnless.bind (Q := Ready k) (.ok (hq.put (Pcu.latchStatusValue_ready (hq ch)))) ih
  have hlength : (if cwd &&& 0x20 = 0 then selected cwd else []).length ≤ 3 := by
    split_ifs
    · exact List.length_filter_le _ _
    · exact Nat.zero_le 3
  unfold readBack
  exact (hcounts _ 3 p hlength h).bind fun q hq => hstatuses _ q hq

theorem controlWordReg_ready (h : p.Ready (k + 3)) (cwd : BitVec 8) :
    EndsUnless Fault.Spreads (p.controlWordReg cwd) (Ready k) := by
  unfold controlWordReg
  split
  · exact readBack_ready h cwd
  · exact on_ready (h.mono (by omega)) fun hch => Pcu.controlWord_ready hch cwd

theorem outb_ready (h : p.Ready (k + 5)) {port : Option (Fin 3)}
    (hr : ∀ ch, port = some ch → (p.pcu ch).shown.Waits → (p.pcu ch).shown.Resumable) (value : BitVec 8) :
    EndsUnless Fault.Spreads (p.outb port value) (Ready k) := by
  unfold outb
  refine locked_ready h fun q hsame hq => ?_
  cases port with
  | none => exact controlWordReg_ready hq value
  | some ch =>
    have hshown : (q.pcu ch).shown = (p.pcu ch).shown := by
      unfold Pcu.shown pcu
      rw [hsame]
    have hr' : (q.pcu ch).shown.Waits → (q.pcu ch).shown.Resumable := hshown ▸ hr ch rfl
    exact on_ready (hq.mono (by omega)) fun hch => Pcu.writeSignal_ready hch hr' value

theorem inb_ready (h : p.Ready (k + 3)) (ch : Fin 3) :
    EndsUnless Fault.Spreads (p.inb ch) fun r => r.2.Ready k := by
  have hlock : Ready (k + 3) { p with timelock := true } := h
  have hread : EndsUnless Fault.Spreads ({ p with timelock := true }.pcu ch).readUnlatched
      fun u => u.shown.Ready (k + 2) := by
    unfold Pcu.readUnlatched
    exact .ite (fun _ => .ok ((hlock ch).mono (Nat.le_succ _))) fun _ => Pcu.readCounter_ready (hlock ch)
  unfold inb
  refine hread.bind fun u hu => ?_
  exact (checktimelock_ready ((hlock.mono (Nat.le_succ _)).put (Pcu.delivered_ready hu))).bind
    fun q hq => .ok hq

theorem multipleInts_ready (h : p.Ready k) (numInts : BitVec 32) :
    EndsUnless Fault.Spreads (p.multipleInts numInts) (Ready k) := by
  have hne : (p.timers 0).initialCount ≠ 0 := (h 0).divides.initialCount
  have hglobals : EndsUnless Fault.Spreads (p.timerMultipleInts (p.timers 0).initialCount numInts)
      fun _ => True := by
    unfold Globals.timerMultipleInts
    refine .ite (fun _ => ?_) fun _ => .ok trivial
    rw [quotient, if_neg hne]
    exact .ok trivial
  exact hglobals.bind fun g _ => .ok h

end Pit

/-! ## A restore -/

namespace CounterState

/-- The counter that saved values describe, if a restore finds nothing wrong with them. -/
def shown (saved : CounterState) : Option Shown := do
  let c ← saved.checked
  let wt ← WtAction.ofSaved saved.actionOnWaitComplete
  let gate ← GateAction.ofSaved saved.actionOnGateEnabled
  return { saved.assign c {} with
    out := {}, delay := 0, actionOnWtComplete := wt, actionOnGateEnabled := gate }

/-- …and that counter is ready. -/
def Restorable (saved : CounterState) : Prop := ∃ s ∈ saved.shown, s.Ready 0

instance (saved : CounterState) : Decidable saved.Restorable :=
  inferInstanceAs (Decidable (∃ s ∈ saved.shown, s.Ready 0))

end CounterState

/-- **A counter is restored** to what its saved values describe. -/
theorem Pcu.shown_restore {ch : Fin 3} (u : Pcu ch) {saved : CounterState} {s : Shown}
    (h : saved.shown = some s) : (u.restore saved).1 = true ∧ (u.restore saved).2.shown = s := by
  unfold CounterState.shown at h
  unfold restore restoreActions
  cases hc : saved.checked with
  | none => simp [hc] at h
  | some c =>
    cases hwt : WtAction.ofSaved saved.actionOnWaitComplete with
    | none => simp [hc, hwt] at h
    | some wt =>
      cases hgate : GateAction.ofSaved saved.actionOnGateEnabled with
      | none => simp [hc, hwt, hgate] at h
      | some gate =>
        simp only [hc, hwt, hgate, Option.bind_eq_bind, Option.bind_some] at h
        injection h with h
        subst h
        exact ⟨rfl, Pcu.shown_timeRead _⟩

/-- A counter whose first checks fail is left as it is. -/
theorem Pcu.restore_unchecked {ch : Fin 3} (u : Pcu ch) {saved : CounterState} (h : saved.checked = none) :
    u.restore saved = (false, u) := by
  unfold restore
  rw [h]

namespace Pit

variable {p : Pit} {k : ℕ}

theorem put_pcu (p : Pit) (ch : Fin 3) : p.put (p.pcu ch) = p := by
  have : Function.update p.timers ch (p.timers ch) = p.timers := Function.update_eq_self ch p.timers
  unfold put
  change { p with timers := Function.update p.timers ch (p.timers ch) } = p
  rw [this]

theorem mem_channels : ∀ ch : Fin 3, ch ∈ ([0, 1, 2] : List (Fin 3)) := by decide

/-- Counters that describe something are all restored, and keep what they describe. -/
theorem restoreCounters_shown {saved : Fin 3 → CounterState} {shown : Fin 3 → Shown}
    (h : ∀ ch, (saved ch).shown = some (shown ch)) (chs : List (Fin 3)) (p : Pit) :
    (restoreCounters saved chs p).1 = true ∧ ∀ ch, ch ∈ chs ∨ (p.pcu ch).shown = shown ch →
      ((restoreCounters saved chs p).2.pcu ch).shown = shown ch := by
  induction chs generalizing p with
  | nil => exact ⟨rfl, fun ch hch => hch.resolve_left List.not_mem_nil⟩
  | cons i chs ih =>
    obtain ⟨htrue, hshown⟩ := (p.pcu i).shown_restore (h i)
    unfold restoreCounters
    dsimp only
    rw [if_pos htrue]
    refine ⟨(ih _).1, fun ch hch => (ih _).2 ch ?_⟩
    by_cases hi : ch = i
    · subst hi
      exact .inr ((shown_pcu_put_self _).trans hshown)
    · refine hch.imp (fun hmem => (List.mem_cons.mp hmem).resolve_left hi) fun hp => ?_
      rwa [shown_pcu_put_of_ne hi]

/-- What may be restored: a state refused before any counter is written, or one that describes three
counters that are ready. -/
def Accepts (saved : PitState) : Prop :=
  saved.currentCounter < 0 ∨ 3 ≤ saved.currentCounter ∨ (saved.counter 0).checked = none ∨
    ∀ ch, (saved.counter ch).Restorable

/-- **A restore** writes no counter, or makes all three ready. -/
theorem restore_cases {saved : PitState} (h : Accepts saved) (p : Pit) :
    p.restore saved = (false, p) ∨ (p.restore saved).1 = true ∧ (p.restore saved).2.Ready 0 := by
  unfold restore
  by_cases hcurrent : saved.currentCounter < 0 ∨ 3 ≤ saved.currentCounter
  · exact .inl (if_pos hcurrent)
  rw [if_neg hcurrent]
  obtain hlow | hhigh | hfirst | hready := h
  · exact absurd (.inl hlow) hcurrent
  · exact absurd (.inr hhigh) hcurrent
  · left
    have hstop : restoreCounters saved.counter [0, 1, 2] p = (false, p) := by
      unfold restoreCounters
      rw [Pcu.restore_unchecked _ hfirst]
      exact congrArg (Prod.mk false) (p.put_pcu 0)
    rw [hstop]
    rfl
  · right
    choose shown hmem hshown using hready
    obtain ⟨htrue, hall⟩ := restoreCounters_shown (fun ch => hmem ch) [0, 1, 2] p
    dsimp only
    rw [if_pos htrue]
    refine ⟨rfl, fun ch => ?_⟩
    have hch : ((restoreCounters saved.counter [0, 1, 2] p).2.pcu ch).shown = shown ch :=
      hall ch (.inl (mem_channels ch))
    exact hch ▸ hshown ch

/-! ## Runs -/

/-- No counter has made nearly as many guesses as overflow. -/
def Room (p : Pit) : Prop :=
  ∀ ch, ((p.timers ch).guessesPerHostTick + (p.timers ch).guessesSoFar).toNat + 5 < 2 ^ 31

/-- The gate of a counter, if the counter waits for it, can start it. -/
def Startable (p : Pit) (ch : Fin 3) : Prop := (p.pcu ch).shown.Waits → (p.pcu ch).shown.Resumable

/-- The steps that stop in no fault. -/
def Allowed (p : Pit) : Op → Prop
  | .outb (some ch) _ | .gate ch _ => p.Room ∧ p.Startable ch
  | .outb none _ | .inb _ | .tick => p.Room
  | .multipleInts _ | .noLongerTooSoon | .axeTicks _ => True
  | .restore saved => Accepts saved

instance (saved : PitState) : Decidable (Accepts saved) := inferInstanceAs (Decidable (_ ∨ _ ∨ _ ∨ _))

instance : Decidable p.Room := inferInstanceAs (Decidable (∀ _ : Fin 3, _))

instance (ch : Fin 3) : Decidable (p.Startable ch) := inferInstanceAs (Decidable (_ → _))

instance (op : Op) : Decidable (p.Allowed op) :=
  match op with
  | .outb (some ch) _ | .gate ch _ => inferInstanceAs (Decidable (p.Room ∧ p.Startable ch))
  | .outb none _ | .inb _ | .tick => inferInstanceAs (Decidable p.Room)
  | .multipleInts _ | .noLongerTooSoon | .axeTicks _ => .isTrue trivial
  | .restore saved => inferInstanceAs (Decidable (Accepts saved))

theorem Ready.room (h : p.Ready 0) (hroom : p.Room) : p.Ready 5 := fun ch =>
  ⟨⟨(h ch).1.1, (h ch).1.2, (h ch).1.3, hroom ch⟩, (h ch).2⟩

theorem step_ready (h : p.Ready 0) {op : Op} (hop : p.Allowed op) :
    EndsUnless Fault.Spreads (p.step op) (Ready 0) := by
  cases op with
  | outb port value =>
    cases port with
    | none => exact outb_ready (h.room hop) (fun ch (hi : (none : Option (Fin 3)) = some ch) => nomatch hi) value
    | some ch => exact outb_ready (h.room hop.1) (fun i hi => Option.some.inj hi ▸ hop.2) value
  | inb ch => exact (inb_ready ((h.room hop).mono (by decide)) ch).bind fun r hr => .ok hr
  | gate ch value => exact gate_ready ((h.room hop.1).mono (by decide)) hop.2 value
  | tick => exact timeTick_ready ((h.room hop).mono (by decide))
  | multipleInts numInts => exact multipleInts_ready h numInts
  | noLongerTooSoon => exact .ok h
  | axeTicks ticks => exact .ok h
  | restore saved =>
    refine .ok ?_
    obtain heq | hready := restore_cases hop p
    · rw [heq]
      exact h
    · exact hready.2

/-- The chip starts ready. -/
theorem init_ready (hostTimes : ℕ → TimeVal) : (init hostTimes).Ready 0 := by
  intro ch
  have hshown : ((init hostTimes).pcu ch).shown
      = { toProgramming := {}, guessesPerHostTick := 2, guessesSoFar := 2 } := rfl
  rw [hshown]
  decide

/-- **No fault while allowed**: a run whose steps are allowed divides by no `initialCount` and no
`guessesPerHostTick` that is zero and calls no function that is missing; its counters stay ready, and a
restore that returns false has written none of them. -/
theorem no_fault_while_allowed (hostTimes : ℕ → TimeVal) (ops : List Op)
    (h : Meets step Allowed (init hostTimes) ops) :
    EndsUnless Fault.Spreads (ops.foldlM step (init hostTimes)) fun q => q.Ready 0 ∧
      ∀ saved, q.Allowed (.restore saved) → (q.restore saved).1 = false →
        (q.restore saved).2.timers = q.timers := by
  refine (h.endsUnless_foldlM (fun p op hp hop => step_ready hp hop) (init_ready hostTimes)).mono
    fun q hq => ⟨hq, fun saved hsaved hfalse => ?_⟩
  obtain heq | ⟨htrue, -⟩ := restore_cases hsaved q
  · rw [heq]
  · exact absurd (hfalse.symm.trans htrue) Bool.false_ne_true

/-- A host whose clock is a second on at each call. -/
def eachSecond : ℕ → TimeVal := fun n => { sec := n }

/-- A tone on counter 2, read back, and the whole chip restored from what a fresh one saves. -/
def tone : List Op :=
  [.gate 2 gateRise, .outb none 0xb6, .outb (some 2) 0xa9, .outb (some 2) 4, .inb 2, .tick, .inb 2,
    .gate 2 gateLow, .gate 2 gateRise, .restore {}, .outb none 0x34, .outb (some 0) 0, .outb (some 0) 0]

theorem no_fault_in_tone :
    EndsUnless Fault.Spreads (tone.foldlM step (init eachSecond)) fun q => q.Ready 0 ∧
      ∀ saved, q.Allowed (.restore saved) → (q.restore saved).1 = false →
        (q.restore saved).2.timers = q.timers :=
  no_fault_while_allowed eachSecond tone (by decide)

/-- A one-shot that starts at once has no state for its gate.  It has run out when a count is written;
between the two bytes its gate falls, so that it comes to wait for it. -/
def spentOneshot : List Op :=
  [.gate 2 gateRise, .outb none 0xb2, .outb (some 2) 0, .outb (some 2) 1, .inb 2, .outb (some 2) 0,
    .gate 2 gateLow, .outb (some 2) 1, .gate 2 gateRise, .gate 2 gateLow]

/-- Saved values that divide by zero… -/
def savedZero : PitState := { counter := fun _ => { mode := 2, gate := 1, initialCount := 0 } }

/-- …and some that are refused at the second counter. -/
def savedHalf : PitState := { counter := fun ch => { count := 7, state := if ch = 0 then 1 else 0 } }

/-- **Guest, restore and refusal**: the guest calls a missing state, a restore that returns true leads
to a division by zero, and one that returns false has changed counter 0. -/
theorem faults_unless_allowed :
    spentOneshot.foldlM step (init eachSecond) = .error .missing ∧
      ((init eachSecond).restore savedZero).1 = true ∧
      [Op.restore savedZero, .tick].foldlM step (init eachSecond) = .error .initialCount ∧
      ((init eachSecond).restore savedHalf).1 = false ∧
      ((init eachSecond).restore savedHalf).2.timers 0 ≠ (init eachSecond).timers 0 :=
  ⟨rfl, rfl, rfl, rfl, by decide⟩

end Pit

end SoftPC.Timer
