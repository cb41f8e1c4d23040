import SoftPC.System.TimerActions
import SoftPC.System.TimerSnapshot

/-!
# System/TimerReady — the 8253 neither divides by zero nor calls a missing function

A counter is `Ready` when the numbers it divides by are positive and the functions that its state calls
are there.  Every access keeps it so, but for three ways out: the guesses of a host tick overflow
(`Pit.Room`), the gate starts a counter that has no state to go to (`Shown.Resumable`), and a restore
installs what it finds (`CounterState.Restorable`).
-/

namespace SoftPC.Timer

/-- The one fault left aside: interrupts to be spread over 2³² parts of a tick. -/
def Fault.Spreads (e : Fault) : Prop := e = .spread

namespace Shown

variable {k : ℕ} {s : Shown}

/-- The numbers that divide are positive, and stay so for another `k` guesses. -/
@[mk_iff]
structure Divides (k : ℕ) (s : Shown) : Prop where
  initialCount : s.initialCount ≠ 0
  guesses : s.guessesPerHostTick ≠ 0
  two_le : 2 ≤ (s.guessesPerHostTick + s.guessesSoFar).toNat
  room : (s.guessesPerHostTick + s.guessesSoFar).toNat + k < 2 ^ 31

/-- What a counter needs to have its count written: the next function, and the one for the gate if
that may come to wait for it. -/
@[mk_iff]
structure Writable (s : Shown) : Prop where
  wt : s.actionOnWtComplete ≠ none
  gate : s.actionOnGateEnabled = none → s.trigger = .edge ∧
    s.actionOnWtComplete ≠ some .resumeAwaitGate ∧ s.actionOnWtComplete ≠ some .resumeCounting15

/-- What a counter needs in a state. -/
@[mk_iff]
structure Able (s : Shown) (state : Option StateFn) : Prop where
  present : state ≠ none
  gate : state = some .awaitingGate → s.actionOnGateEnabled ≠ none
  write : state = some .waitingFor1stWrite ∨ state = some .waitingFor2ndWrite → s.Writable

/-- The numbers that a counter divides by are positive, and the functions that it calls are there. -/
@[mk_iff]
structure Ready (k : ℕ) (s : Shown) : Prop where
  divides : s.Divides k
  able : s.Able s.state

/-- If the gate is to start the counter, there is a state for it to go to. -/
def Resumable (s : Shown) : Prop := s.actionOnGateEnabled = some .startCounting → s.Able s.stateOnGate

/-- The counter waits for its gate, or will when its count is written. -/
def Waits (s : Shown) : Prop :=
  s.state = some .awaitingGate ∨
    (s.state = some .waitingFor1stWrite ∨ s.state = some .waitingFor2ndWrite) ∧
      s.actionOnWtComplete = some .resumeAwaitGate

instance : Decidable (s.Divides k) := decidable_of_iff' _ (divides_iff k s)

instance : Decidable s.Writable := decidable_of_iff' _ (writable_iff s)

instance (state : Option StateFn) : Decidable (s.Able state) := decidable_of_iff' _ (able_iff s state)

instance : Decidable (s.Ready k) := decidable_of_iff' _ (ready_iff k s)

instance : Decidable s.Resumable := inferInstanceAs (Decidable (_ → _))

instance : Decidable s.Waits := inferInstanceAs (Decidable (_ ∨ _))

theorem Divides.mono {j : ℕ} (h : s.Divides k) (hj : j ≤ k) : s.Divides j :=
  ⟨h.initialCount, h.guesses, h.two_le, by have := h.room; omega⟩

theorem Ready.mono {j : ℕ} (h : s.Ready k) (hj : j ≤ k) : s.Ready j := ⟨h.divides.mono hj, h.able⟩

/-- The fields that reading uses are not among them. -/
theorem Ready.reading (h : s.Ready k) (readState : ReadState) (countlatched : Bool)
    (latchvaluelsb latchvaluemsb latchstatus : BitVec 8) :
    Ready k { s with readState, countlatched, latchvaluelsb, latchvaluemsb, latchstatus } :=
  ⟨⟨h.1.1, h.1.2, h.1.3, h.1.4⟩, h.2.1, h.2.2, fun hs => ⟨(h.2.3 hs).1, (h.2.3 hs).2⟩⟩

/-- A counting state sets the functions it needs before it calls them. -/
theorem able_of_counts {state : StateFn} (h : Counts state) : s.Able (some state) := by
  obtain rfl | rfl | rfl | rfl := h <;> exact ⟨nofun, nofun, by rintro (h | h) <;> cases h⟩

theorem able_of_armed (state : StateFn) (hwt : s.actionOnWtComplete ≠ none)
    (hgate : s.actionOnGateEnabled ≠ none) : s.Able (some state) :=
  ⟨nofun, fun _ => hgate, fun _ => ⟨hwt, fun h => absurd h hgate⟩⟩

theorem able_awaitingGate (h : s.actionOnGateEnabled ≠ none) : s.Able (some .awaitingGate) :=
  ⟨nofun, fun _ => h, by rintro (h | h) <;> cases h⟩

/-! ## Actions -/

theorem Divides.loaded (h : s.Divides k) : s.loaded.Divides k :=
  ⟨s.modulo_bounds.1, h.guesses, h.two_le, h.room⟩

theorem Divides.loadedNew (h : s.Divides k) : s.loadedNew.Divides k := by
  unfold Shown.loadedNew
  split_ifs
  · exact h.loaded
  · exact h

theorem Divides.goto (h : s.Divides k) (state : Option StateFn) : (s.goto state).Divides k :=
  ⟨h.1, h.2, h.3, h.4⟩

theorem Divides.onGate (h : s.Divides k) (state : StateFn) : (s.onGate state).Divides k :=
  ⟨h.1, h.2, h.3, h.4⟩

/-- **A start goes to a state** if one is recorded. -/
theorem Divides.ran (h : s.Divides k) (hs : s.Able s.stateOnGate) : s.ran.Ready k := by
  have hable : (s.goto s.stateOnGate).Able s.stateOnGate :=
    ⟨hs.1, hs.2, fun hw => ⟨(hs.3 hw).1, (hs.3 hw).2⟩⟩
  unfold Shown.ran
  split_ifs
  · exact ⟨(h.goto _).loaded, ⟨hable.1, hable.2, fun hw => ⟨(hable.3 hw).1, (hable.3 hw).2⟩⟩⟩
  · exact ⟨h.goto _, hable⟩

/-- …and a counting state needs nothing. -/
theorem Divides.ran_onGate (h : s.Divides k) {state : StateFn} (hs : Counts state) :
    (s.onGate state).ran.Ready k := (h.onGate state).ran (able_of_counts hs)

theorem Divides.gone (h : s.Divides k) {state : StateFn} (hs : Counts state) :
    (s.goto (some state)).Ready k := ⟨h.goto _, able_of_counts hs⟩

theorem Divides.bufferLoaded (h : s.Divides k) : s.bufferLoaded.Ready k := by
  have hload : ((s.wtAction .timererror).loaded).Divides k :=
    ⟨(s.wtAction .timererror).modulo_bounds.1, h.guesses, h.two_le, h.room⟩
  unfold Shown.bufferLoaded
  dsimp only
  split_ifs
  · exact hload.gone (counts_countingState _)
  · exact ⟨⟨hload.1, hload.2, hload.3, hload.4⟩, able_awaitingGate nofun⟩

theorem Divides.resumed0 (h : s.Divides k) (tc : Bool) : (s.resumed0 tc).Ready k := by
  have hload : s.unfrozen.loadedNew.Divides k := Divides.loadedNew ⟨h.1, h.2, h.3, h.4⟩
  unfold Shown.resumed0
  dsimp only
  split_ifs
  · exact hload.gone (.inl rfl)
  · exact hload.ran_onGate (.inl rfl)

theorem Divides.resumed234 (h : s.Divides k) : s.resumed234.Ready k :=
  h.loadedNew.ran_onGate (counts_strobeState _)

theorem Divides.resumed15 (h : s.Divides k) (hgate : s.actionOnGateEnabled ≠ none) (tc : Bool) :
    (s.resumed15 tc).Ready k := by
  unfold Shown.resumed15
  split_ifs
  · exact ⟨h.goto _, able_awaitingGate hgate⟩
  · exact h.gone (by unfold Counts; decide)
  · exact h.gone (by unfold Counts; decide)

end Shown

namespace Pcu

variable {ch : Fin 3} {u : Pcu ch} {k : ℕ}

/-! ## The update -/

theorem countDown_ends (m : Mode) {c : BitVec 32} (hc : c ≠ 0) (t : BitVec 32) :
    EndsUnless Fault.Spreads (countDown m c t) fun _ => True := by
  unfold countDown
  refine .ite (fun _ => .ok trivial) fun _ => .ite (fun _ => .ok trivial) fun _ => ?_
  have hmodulo : (if m = .intOnTerminalCount then 0x10000 else c) ≠ 0 := by
    split_ifs
    · decide
    · exact hc
  refine EndsUnless.bind (Q := fun _ => True) ?_ fun _ _ => .ok trivial
  rw [quotient, if_neg hmodulo]
  exact .ok trivial

/-- **A guess** divides by the guesses of a host tick, and is one more of this one. -/
theorem guess_ends (h : u.shown.Divides (k + 1)) :
    EndsUnless Fault.Spreads u.guess fun v => v.shown.Divides k := by
  have hbegin : EndsUnless Fault.Spreads u.beginGuesses fun v => v.shown.Divides (k + 1) := by
    unfold beginGuesses
    refine .ite (fun _ => EndsUnless.bind (Q := fun _ => True) ?_ fun _ _ =>
      .ok ⟨h.1, h.2, h.3, h.4⟩) fun _ => .ok h
    rw [quotient, if_neg (show u.guessesPerHostTick ≠ 0 from h.guesses)]
    exact .ok trivial
  refine hbegin.bind fun v hv => .ok ?_
  have hsum : v.guessesPerHostTick + (v.guessesSoFar + 1)
      = v.guessesPerHostTick + v.guessesSoFar + 1 := by rw [BitVec.add_assoc]
  have hroom : (v.guessesPerHostTick + v.guessesSoFar).toNat + (k + 1) < 2 ^ 31 := hv.room
  have htwo : 2 ≤ (v.guessesPerHostTick + v.guessesSoFar).toNat := hv.two_le
  have hnext : (v.guessesPerHostTick + (v.guessesSoFar + 1)).toNat
      = (v.guessesPerHostTick + v.guessesSoFar).toNat + 1 := by
    rw [hsum]
    generalize v.guessesPerHostTick + v.guessesSoFar = n at *
    bv_omega
  exact ⟨hv.initialCount, hv.guesses, hnext ▸ (by omega), hnext ▸ (by omega)⟩

/-- **A new host tick** averages the guesses. -/
theorem throwaway_divides (h : u.shown.Divides (k + 1)) : u.throwaway.shown.Divides k := by
  have htwo : 2 ≤ (u.guessesPerHostTick + u.guessesSoFar).toNat := h.two_le
  have hroom : (u.guessesPerHostTick + u.guessesSoFar).toNat + (k + 1) < 2 ^ 31 := h.room
  have hhalf : ((u.guessesPerHostTick + u.guessesSoFar).sshiftRight 1).toNat
      = (u.guessesPerHostTick + u.guessesSoFar).toNat / 2 := by
    generalize u.guessesPerHostTick + u.guessesSoFar = n at *
    have hmsb : n.msb = false := BitVec.msb_eq_false_iff_two_mul_lt.mpr (by omega)
    rw [BitVec.sshiftRight_eq_of_msb_false hmsb, BitVec.toNat_ushiftRight, Nat.shiftRight_eq_div_pow]
  have hnew : ((u.guessesPerHostTick + u.guessesSoFar).sshiftRight 1 + 2).toNat
      = (u.guessesPerHostTick + u.guessesSoFar).toNat / 2 + 2 := by
    rw [BitVec.toNat_add, hhalf]
    exact Nat.mod_eq_of_lt (by change _ + 2 < _; omega)
  have hne : (u.guessesPerHostTick + u.guessesSoFar).sshiftRight 1 ≠ 0 := fun h0 => by
    have := congrArg BitVec.toNat h0
    rw [hhalf] at this
    change _ = 0 at this
    omega
  have hlow : 2 ≤ ((u.guessesPerHostTick + u.guessesSoFar).sshiftRight 1 + 2).toNat := by omega
  have hhigh : ((u.guessesPerHostTick + u.guessesSoFar).sshiftRight 1 + 2).toNat + k < 2 ^ 31 := by omega
  dsimp only [throwaway]
  split_ifs <;> exact ⟨h.initialCount, hne, hlow, hhigh⟩

theorem updateNow_ends (h : u.shown.Divides (k + 1)) :
    EndsUnless Fault.Spreads u.updateNow fun r => r.2.shown.Divides k := by
  have hread : u.timeRead.shown.Divides (k + 1) := u.shown_timeRead ▸ h
  unfold updateNow updateCount
  refine .ite (fun _ => ?_) fun _ => ?_
  · refine EndsUnless.bind ?_ fun v (hv : v.shown.Divides k) => .ok hv
    refine (guess_ends hread).bind fun v hv => ?_
    exact (countDown_ends _ hv.initialCount _).bind fun _ _ => .ok ⟨hv.1, hv.2, hv.3, hv.4⟩
  · have hthrow := throwaway_divides hread
    refine (countDown_ends _ hthrow.initialCount _).bind fun d _ => .ok ?_
    dsimp only
    split_ifs <;> exact ⟨hthrow.1, hthrow.2, hthrow.3, hthrow.4⟩

theorem issueIREQ0_ends (g : Globals) (n : BitVec 32) :
    EndsUnless Fault.Spreads (g.issueIREQ0 n) fun _ => True := by
  have hquotient : ∀ a b, EndsUnless Fault.Spreads (quotient a b .spread) fun _ => True := by
    intro a b
    unfold quotient
    exact .ite (fun _ => .error rfl) fun _ => .ok trivial
  unfold Globals.issueIREQ0
  refine .ite (fun _ => .ite (fun _ => .ite (fun _ => ?_) fun _ => .ite (fun _ => .ok trivial) fun _ => ?_)
    fun _ => .ok trivial) fun _ => .ite (fun _ => .ok trivial) fun _ => .ok trivial
  · exact (hquotient _ _).bind fun _ _ => .ok trivial
  · exact (hquotient _ _).bind fun _ _ => .ok trivial

theorem wrapped_ends (h : u.shown.Divides k) (wrap : BitVec 32) :
    EndsUnless Fault.Spreads (u.wrapped wrap) fun v => v.shown.Divides k := by
  unfold wrapped
  refine .ite (fun _ => .ok h) fun _ => .ite (fun _ => ?_) fun _ => .ok ⟨h.1, h.2, h.3, h.4⟩
  exact (issueIREQ0_ends _ _).bind fun g _ => .ok ⟨h.1, h.2, h.3, h.4⟩

/-- **An update divides by positive numbers only.** -/
theorem updateCounter_divides (h : u.shown.Divides (k + 1)) :
    EndsUnless Fault.Spreads u.updateCounter fun v => v.shown.Divides k := by
  have hsame : u.shown.Divides k := h.mono (Nat.le_succ k)
  have hcounting : EndsUnless Fault.Spreads (if u.gate = gateLow then .ok u else do
      let r ← u.updateNow
      r.2.wrapped r.1) fun v => v.shown.Divides k :=
    .ite (fun _ => .ok hsame) fun _ => (updateNow_ends h).bind fun r hr => wrapped_ends hr r.1
  have hstopping : EndsUnless Fault.Spreads (if u.tc then .ok u else do
      let r ← u.updateNow
      return r.2.expired r.1) fun v => v.shown.Divides k := by
    refine .ite (fun _ => .ok hsame) fun _ => (updateNow_ends h).bind fun r hr => .ok ?_
    unfold expired
    split_ifs
    · exact hr
    · exact ⟨hr.1, hr.2, hr.3, hr.4⟩
  unfold updateCounter
  cases u.m <;> first | exact hcounting | exact hstopping

/-- The update of a counter, and what it leaves alone. -/
theorem updateCounter_ends (h : u.shown.Divides (k + 1)) :
    EndsUnless Fault.Spreads u.updateCounter fun v =>
      v.shown.Divides k ∧ v.toProgramming = u.toProgramming :=
  ((updateCounter_divides h).and_yields u.updateCounter_keeps).mono fun _ hv => ⟨hv.1, hv.2.programming⟩

/-! ## State functions -/

/-- The gate of a counter that waits for it. -/
theorem awaitingGateGate_ready (h : u.shown.Divides k) (hgate : u.actionOnGateEnabled ≠ none)
    (hstate : u.state = some .awaitingGate) {value : BitVec 8} (hr : value ≠ gateLow → u.shown.Resumable) :
    EndsUnless Fault.Spreads (u.awaitingGateGate value) fun v => v.shown.Ready k := by
  unfold awaitingGateGate
  refine .ite (fun _ => .ok ⟨⟨h.1, h.2, h.3, h.4⟩, ?_⟩) fun hlow => ?_
  · rw [show (u.setGate value).shown.state = some .awaitingGate from hstate]
    exact Shown.able_awaitingGate hgate
  have hshown : ((u.setGate value).enableInt true).shown = { u.shown with gate := value } :=
    shown_enableInt _ true
  generalize (u.setGate value).enableInt true = w at hshown
  have hw : w.shown.Divides k := hshown ▸ ⟨h.1, h.2, h.3, h.4⟩
  have haction : w.actionOnGateEnabled = u.actionOnGateEnabled :=
    congrArg (fun s : Shown => s.actionOnGateEnabled) hshown
  unfold gateEnabled
  split
  case h_1 hnone => exact absurd (haction.symm.trans hnone) hgate
  case h_2 => exact .ok (w.shown_counterBufferLoaded ▸ hw.bufferLoaded)
  case h_3 =>
    obtain ⟨tc, htc⟩ := w.shown_resumeCounting0onGate
    exact .ok (htc ▸ hw.resumed0 tc)
  case h_4 => exact .ok (w.shown_resumeCounting15 ▸ hw.resumed15 (haction ▸ hgate) _)
  case h_5 => exact .ok (w.shown_resumeCounting234onGate ▸ hw.resumed234)
  case h_6 hsome =>
    have hable := hr hlow (haction.symm.trans hsome)
    refine .ok (w.shown_startCounting ▸ hw.ran ?_)
    rw [hshown]
    exact ⟨hable.1, hable.2, fun hs => ⟨(hable.3 hs).1, (hable.3 hs).2⟩⟩

/-- **A count written** is passed on to the action that waits for it. -/
theorem wtComplete_ready (h : u.shown.Ready k) (hwrite : u.shown.Writable)
    (hr : u.actionOnWtComplete = some .resumeAwaitGate → u.shown.Resumable) :
    EndsUnless Fault.Spreads u.wtComplete fun v => v.shown.Ready k := by
  have hd := h.divides
  unfold wtComplete
  refine .ite (fun hlow => ?_) fun _ => ?_
  · have hgate : u.actionOnGateEnabled ≠ none := fun hnone => by
      have hedge : u.trigger = .edge := (hwrite.gate hnone).1
      rw [hlow.2] at hedge
      cases hedge
    exact awaitingGateGate_ready (u := u.setState .awaitingGate) ⟨hd.1, hd.2, hd.3, hd.4⟩ hgate rfl fun hne => absurd hlow.1 hne
  unfold wtCompleted
  split
  case h_1 hnone => exact absurd hnone hwrite.wt
  case h_2 => exact .ok (u.shown_counterBufferLoaded ▸ hd.bufferLoaded)
  case h_3 => exact .ok h
  case h_4 hsome =>
    have hgate : u.actionOnGateEnabled ≠ none := fun hnone => (hwrite.gate hnone).2.1 hsome
    unfold resumeAwaitGate
    refine awaitingGateGate_ready (u := (u.setWtAction .timererror).setState .awaitingGate)
      ⟨hd.1, hd.2, hd.3, hd.4⟩ hgate rfl fun _ hstart => ?_
    have hable := hr hsome hstart
    exact ⟨hable.1, hable.2, fun hs => ⟨nofun, fun hnone => absurd hnone hgate⟩⟩
  case h_5 =>
    obtain ⟨tc, htc⟩ := u.shown_resumeCounting0
    exact .ok (htc ▸ hd.resumed0 tc)
  case h_6 hsome =>
    have hgate : u.actionOnGateEnabled ≠ none := fun hnone => (hwrite.gate hnone).2.2 hsome
    exact .ok (u.shown_resumeCounting15 ▸ hd.resumed15 hgate _)
  case h_7 => exact .ok (u.shown_resumeCounting234 ▸ hd.resumed234)

/-- Both bytes of a count are there. -/
theorem written_ready (h : u.shown.Ready k) (hwrite : u.shown.Writable)
    (hr : u.actionOnWtComplete = some .resumeAwaitGate → u.shown.Resumable) (lsb msb : BitVec 8) :
    EndsUnless Fault.Spreads (u.written lsb msb).wtComplete fun v => v.shown.Ready k := by
  have hd := h.divides
  have hable : (u.written lsb msb).shown.Able u.state :=
    ⟨h.able.1, h.able.2, fun _ => ⟨hwrite.1, hwrite.2⟩⟩
  refine wtComplete_ready ⟨⟨hd.1, hd.2, hd.3, hd.4⟩, hable⟩ ⟨hwrite.1, hwrite.2⟩ fun hsome hstart => ?_
  have := hr hsome hstart
  exact ⟨this.1, this.2, fun _ => ⟨hwrite.1, hwrite.2⟩⟩

theorem firstWrite_ready (h : u.shown.Ready k) (hwrite : u.shown.Writable)
    (hr : u.actionOnWtComplete = some .resumeAwaitGate → u.shown.Resumable) (value : BitVec 8) :
    EndsUnless Fault.Spreads (u.firstWrite value) fun v => v.shown.Ready k := by
  have hd := h.divides
  unfold firstWrite
  split
  · exact .ok h
  · exact written_ready h hwrite hr value 0
  · exact .ok ⟨⟨hd.1, hd.2, hd.3, hd.4⟩, nofun, nofun, fun _ => ⟨hwrite.1, hwrite.2⟩⟩
  · exact written_ready h hwrite hr 0 value

/-- A counting state has just set both functions. -/
theorem firstWrite_counting (h : u.shown.Ready k) {wt : WtAction} {gate : GateAction}
    (hwt : u.actionOnWtComplete = some wt) (hgate : u.actionOnGateEnabled = some gate)
    (hne : wt ≠ .resumeAwaitGate) (value : BitVec 8) :
    EndsUnless Fault.Spreads (u.firstWrite value) fun v => v.shown.Ready k := by
  refine firstWrite_ready h ⟨?_, fun hnone => ?_⟩ (fun hsome => ?_) value
  · exact fun hnone => nomatch hwt.symm.trans hnone
  · exact nomatch hgate.symm.trans hnone
  · exact absurd (Option.some.inj (hwt.symm.trans hsome)) hne

theorem counting0Gate_ready (h : u.shown.Divides (k + 1)) (hgate : u.actionOnGateEnabled ≠ none)
    (hstate : u.state = some .counting0) (value : BitVec 8) :
    EndsUnless Fault.Spreads (u.counting0Gate value) fun v => v.shown.Ready k := by
  unfold counting0Gate
  refine .ite (fun _ => .ok ⟨h.mono (Nat.le_succ k), ?_⟩) fun _ =>
    (updateCounter_ends h).bind fun v hv => .ok ?_
  · rw [show u.shown.state = some .counting0 from hstate]
    exact Shown.able_of_counts (.inl rfl)
  · rw [shown_setState, shown_outputStopped]
    refine ⟨⟨hv.1.1, hv.1.2, hv.1.3, hv.1.4⟩, Shown.able_awaitingGate ?_⟩
    change v.toProgramming.actionOnGateEnabled ≠ none
    rwa [hv.2]

theorem counting0Write_ready (h : u.shown.Divides (k + 1)) {wt : WtAction} {gate : GateAction}
    (hwt : u.actionOnWtComplete = some wt) (hgate : u.actionOnGateEnabled = some gate)
    (hne : wt ≠ .resumeAwaitGate) (hstate : u.state = some .counting0) (value : BitVec 8) :
    EndsUnless Fault.Spreads (u.counting0Write value) fun v => v.shown.Ready k := by
  unfold counting0Write
  refine (updateCounter_ends (u := { u with freezeCounter := true }) ⟨h.1, h.2, h.3, h.4⟩).bind
    fun v hv => ?_
  have hshown := v.shown_outputStopped
  generalize v.outputStopped = w at hshown
  have hprog : w.shown.state = u.state ∧ w.shown.actionOnWtComplete = u.actionOnWtComplete ∧
      w.shown.actionOnGateEnabled = u.actionOnGateEnabled := by
    rw [hshown]
    change v.toProgramming.state = _ ∧ v.toProgramming.actionOnWtComplete = _ ∧
      v.toProgramming.actionOnGateEnabled = _
    rw [hv.2]
    exact ⟨rfl, rfl, rfl⟩
  refine firstWrite_counting ⟨hshown ▸ hv.1, ?_⟩ (hprog.2.1.trans hwt) (hprog.2.2.trans hgate) hne value
  rw [hprog.1, hstate]
  exact Shown.able_of_counts (.inl rfl)

theorem countingGate_ready (h : u.shown.Divides (k + 1)) (hgate : u.actionOnGateEnabled ≠ none)
    {state : StateFn} (hstate : u.state = some state) (hcounts : Shown.Counts state) (value : BitVec 8) :
    EndsUnless Fault.Spreads (u.countingGate value) fun v => v.shown.Ready k := by
  unfold countingGate
  refine .ite (fun _ => .ok ⟨h.mono (Nat.le_succ k), ?_⟩) fun _ =>
    (updateCounter_ends h).bind fun v hv => .ok ?_
  · rw [show u.shown.state = some state from hstate]
    exact Shown.able_of_counts hcounts
  · rw [shown_setState, shown_outputHigh]
    refine ⟨⟨hv.1.1, hv.1.2, hv.1.3, hv.1.4⟩, Shown.able_awaitingGate ?_⟩
    change v.toProgramming.actionOnGateEnabled ≠ none
    rwa [hv.2]

theorem counting1Gate_ready (h : u.shown.Divides k) (hstate : u.state = some .counting1) (value : BitVec 8) :
    (u.counting1Gate value).shown.Ready k := by
  unfold counting1Gate
  split_ifs
  · refine ⟨h, ?_⟩
    rw [show u.shown.state = some .counting1 from hstate]
    exact Shown.able_of_counts (.inr (.inl rfl))
  · rw [shown_runCount, shown_timestamp]
    exact Shown.Divides.ran_onGate (s := (u.setGate gateHigh).shown) ⟨h.1, h.2, h.3, h.4⟩
      (.inr (.inl rfl))

/-- What the head of a counting state leaves: both functions, neither of them `resumeAwaitGate`. -/
structure Headed (u v : Pcu ch) : Prop where
  divides : ∀ k, u.shown.Divides k → v.shown.Divides k
  state : v.state = u.state
  wt : ∃ wt, v.actionOnWtComplete = some wt ∧ wt ≠ .resumeAwaitGate
  gate : ∃ gate, v.actionOnGateEnabled = some gate

variable (u)

theorem headed0 : u.Headed u.inCounting0 :=
  ⟨fun _ h => ⟨h.1, h.2, h.3, h.4⟩, rfl, ⟨_, rfl, nofun⟩, _, rfl⟩

theorem headed1 : u.Headed u.inCounting1 :=
  ⟨fun _ h => ⟨h.1, h.2, h.3, h.4⟩, rfl, ⟨_, rfl, nofun⟩, _, rfl⟩

theorem headed23 : u.Headed u.inCounting23 :=
  ⟨fun _ h => ⟨h.1, h.2, h.3, h.4⟩, rfl, ⟨_, rfl, nofun⟩, _, rfl⟩

theorem headed45 : u.Headed u.inCounting45 := by
  unfold inCounting45
  split_ifs
  · exact ⟨fun _ h => ⟨h.1, h.2, h.3, h.4⟩, rfl, ⟨_, rfl, nofun⟩, _, rfl⟩
  · exact u.headed23

variable {u}

theorem Headed.gate_ready {v : Pcu ch} (hv : u.Headed v) (h : u.shown.Divides (k + 1)) {state : StateFn}
    (hstate : u.state = some state) (hcounts : Shown.Counts state) (value : BitVec 8) :
    EndsUnless Fault.Spreads (v.countingGate value) fun w => w.shown.Ready k := by
  obtain ⟨gate, hgate⟩ := hv.gate
  exact countingGate_ready (hv.divides _ h) (by simp [hgate]) (hv.state.trans hstate) hcounts value

theorem Headed.write_ready {v : Pcu ch} (hv : u.Headed v) (h : u.shown.Divides k) {state : StateFn}
    (hstate : u.state = some state) (hcounts : Shown.Counts state) (value : BitVec 8) :
    EndsUnless Fault.Spreads (v.firstWrite value) fun w => w.shown.Ready k := by
  obtain ⟨wt, hwt, hne⟩ := hv.wt
  obtain ⟨gate, hgate⟩ := hv.gate
  refine firstWrite_counting ⟨hv.divides _ h, ?_⟩ hwt hgate hne value
  rw [show v.shown.state = some state from hv.state.trans hstate]
  exact Shown.able_of_counts hcounts

/-- **A change of the gate** calls functions that are there. -/
theorem gateSignal_ready (h : u.shown.Ready (k + 1)) (hr : u.shown.Waits → u.shown.Resumable)
    (value : BitVec 8) : EndsUnless Fault.Spreads (u.gateSignal value) fun v => v.shown.Ready k := by
  have hd := h.divides
  have hk := hd.mono (Nat.le_succ k)
  have hsame : EndsUnless Fault.Spreads (.ok (u.setGate value)) fun v => v.shown.Ready k :=
    .ok ⟨⟨hk.1, hk.2, hk.3, hk.4⟩, h.able.1, h.able.2, fun hs => ⟨(h.able.3 hs).1, (h.able.3 hs).2⟩⟩
  unfold gateSignal
  split
  case h_1 hnone => exact absurd hnone h.able.present
  case h_2 => exact hsame
  case h_3 => exact hsame
  case h_4 => exact hsame
  case h_5 hs => exact awaitingGateGate_ready hk (h.able.gate hs) hs fun _ => hr (.inl hs)
  case h_6 hs =>
    exact counting0Gate_ready (u.headed0.divides _ hd) nofun (u.headed0.state.trans hs) value
  case h_7 hs => exact .ok (counting1Gate_ready (u.headed1.divides _ hk) (u.headed1.state.trans hs) value)
  case h_8 hs => exact u.headed23.gate_ready hd hs (.inr (.inr (.inl rfl))) value
  case h_9 hs => exact u.headed45.gate_ready hd hs (.inr (.inr (.inr rfl))) value

/-- **A byte written** calls functions that are there. -/
theorem writeSignal_ready (h : u.shown.Ready (k + 1)) (hr : u.shown.Waits → u.shown.Resumable)
    (value : BitVec 8) : EndsUnless Fault.Spreads (u.writeSignal value) fun v => v.shown.Ready k := by
  have hd := h.divides
  have hk := h.mono (Nat.le_succ k)
  unfold writeSignal
  split
  case h_1 hnone => exact absurd hnone h.able.present
  case h_2 => exact .ok hk
  case h_3 hs =>
    have hgate := h.able.gate hs
    have hk' := hk.divides
    refine firstWrite_ready (u := u.setWtAction .resumeAwaitGate) ⟨⟨hk'.1, hk'.2, hk'.3, hk'.4⟩, ?_⟩
      ⟨nofun, fun hnone => absurd hnone hgate⟩ (fun _ hstart => ?_) value
    · rw [show (u.setWtAction .resumeAwaitGate).shown.state = some .awaitingGate from hs]
      exact Shown.able_awaitingGate hgate
    · have hable := hr (.inl hs) hstart
      exact ⟨hable.1, hable.2, fun _ => ⟨nofun, fun hnone => absurd hnone hgate⟩⟩
  case h_4 hs =>
    exact firstWrite_ready hk (h.able.write (.inl hs)) (fun hwt => hr (.inr ⟨.inl hs, hwt⟩)) value
  case h_5 hs =>
    exact written_ready hk (h.able.write (.inr hs)) (fun hwt => hr (.inr ⟨.inr hs, hwt⟩)) _ _
  case h_6 hs =>
    exact counting0Write_ready (u.headed0.divides _ hd) rfl rfl nofun (u.headed0.state.trans hs) value
  case h_7 hs => exact u.headed1.write_ready hk.divides hs (.inr (.inl rfl)) value
  case h_8 hs => exact u.headed23.write_ready hk.divides hs (.inr (.inr (.inl rfl))) value
  case h_9 hs => exact u.headed45.write_ready hk.divides hs (.inr (.inr (.inr rfl))) value

end Pcu

end SoftPC.Timer
