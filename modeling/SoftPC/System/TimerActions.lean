import SoftPC.System.TimerUpdate

/-!
# System/TimerActions — what the actions of a counter program

The actions load the count, start it, or go back to waiting; besides, they stamp the time and drive the
output.  `Pcu.shown` is what remains of a counter without its output and its clock, and each action is
read off on it: a load takes the bytes written (`Shown.loaded`), a start goes to `stateOnGate`
(`Shown.ran`).
-/

namespace SoftPC.Timer

/-- The fields of programming, and the numbers that guesses divide by. -/
structure Shown extends Programming where
  guessesPerHostTick : BitVec 32
  guessesSoFar : BitVec 32

namespace Shown

variable (s : Shown)

def goto (state : Option StateFn) : Shown := { s with state }

def onGate (state : StateFn) : Shown := { s with stateOnGate := some state }

def wtAction (action : WtAction) : Shown := { s with actionOnWtComplete := some action }

def gateAction (action : GateAction) : Shown := { s with actionOnGateEnabled := some action }

def unfrozen : Shown := { s with freezeCounter := false }

/-- `loadCounter`. -/
def loaded : Shown := { s with initialCount := s.modulo, newCount := .used }

/-- `if (pcu->newCount == AVAILABLE) loadCounter()`. -/
def loadedNew : Shown := if s.newCount = .available then s.loaded else s

/-- The modes whose counters are loaded as they start. -/
def LoadsOnRun : Mode → Bool
  | .progOneshot | .rateGen | .squarewaveGen | .hwTrigStrobe => true
  | .intOnTerminalCount | .swTrigStrobe => false

/-- `runCount`. -/
def ran : Shown :=
  if LoadsOnRun s.m then (s.goto s.stateOnGate).loaded else s.goto s.stateOnGate

/-- `CounterBufferLoaded`. -/
def bufferLoaded : Shown :=
  let s := (s.wtAction .timererror).loaded
  if s.gate ≠ gateLow then s.goto (some (Pcu.countingState s.m))
  else ((s.goto (some .awaitingGate)).gateAction .startCounting).onGate (Pcu.countingState s.m)

/-- Both actions of mode 0, at or before the terminal count. -/
def resumed0 (tc : Bool) : Shown :=
  let s := s.unfrozen.loadedNew
  if tc then s.goto (some .counting0) else (s.onGate .counting0).ran

/-- Both actions of modes 2, 3 and 4. -/
def resumed234 : Shown := (s.loadedNew.onGate (Pcu.strobeState s.m)).ran

/-- `resumeCounting_1_5`, at or before the terminal count. -/
def resumed15 (tc : Bool) : Shown :=
  if s.gate ≠ gateRise ∧ tc then s.goto (some .awaitingGate)
  else s.goto (some (if s.m = .hwTrigStrobe then .counting45 else .counting1))

end Shown

namespace Pcu

variable {ch : Fin 3} (u : Pcu ch)

/-- A counter without its output and its clock. -/
def shown : Shown :=
  { u.toProgramming with
    out := {}, delay := 0, guessesPerHostTick := u.guessesPerHostTick, guessesSoFar := u.guessesSoFar }

@[simp] theorem shown_timeRead : u.timeRead.shown = u.shown := by
  unfold timeRead
  split_ifs <;> rfl

@[simp] theorem shown_timestamp : u.timestamp.shown = u.shown := u.shown_timeRead

@[simp] theorem shown_enableInt (enabled : Bool) : (u.enableInt enabled).shown = u.shown := by
  unfold enableInt
  split_ifs <;> rfl

@[simp] theorem shown_outputWaveForm (delay lo hi lohi rep : BitVec 32) :
    (u.outputWaveForm delay lo hi lohi rep).shown = u.shown := by
  dsimp only [outputWaveForm]
  split_ifs <;> rfl

@[simp] theorem shown_outputLow : u.outputLow.shown = u.shown := u.shown_outputWaveForm ..

@[simp] theorem shown_outputHigh : u.outputHigh.shown = u.shown := u.shown_outputWaveForm ..

@[simp] theorem shown_outputStopped : u.outputStopped.shown = u.shown := by
  unfold outputStopped
  split_ifs <;> simp

@[simp] theorem shown_outputForMode (count : BitVec 32) : (u.outputForMode count).shown = u.shown := by
  unfold outputForMode
  split
  · exact u.shown_outputWaveForm ..
  · exact u.shown_outputWaveForm ..
  · exact u.shown_outputWaveForm ..
  · split_ifs <;> exact u.shown_outputWaveForm ..
  · exact u.shown_outputWaveForm ..
  · exact u.shown_outputWaveForm ..

@[simp] theorem shown_adjust : u.adjust.shown = u.shown := rfl

@[simp] theorem shown_setState (state : StateFn) :
    (u.setState state).shown = u.shown.goto (some state) := rfl

@[simp] theorem shown_setStateOnGate (state : StateFn) :
    (u.setStateOnGate state).shown = u.shown.onGate state := rfl

@[simp] theorem shown_setWtAction (action : WtAction) :
    (u.setWtAction action).shown = u.shown.wtAction action := rfl

@[simp] theorem shown_setGateAction (action : GateAction) :
    (u.setGateAction action).shown = u.shown.gateAction action := rfl

@[simp] theorem shown_loadCounter : u.loadCounter.shown = u.shown.loaded := by
  dsimp only [loadCounter]
  split_ifs <;> rfl

@[simp] theorem shown_loadNew : u.loadNew.shown = u.shown.loadedNew := by
  unfold loadNew Shown.loadedNew
  exact (apply_ite Pcu.shown ..).trans (by rw [shown_loadCounter]; rfl)

@[simp] theorem shown_unfreeze : u.unfreeze.shown = u.shown.unfrozen := by
  unfold unfreeze
  split_ifs with h
  · exact congrArg Shown.unfrozen u.shown_timestamp
  · have h' : u.shown.freezeCounter = false := Bool.not_eq_true _ ▸ h
    exact congrArg (fun b => { u.shown with freezeCounter := b }) h'

/-- The mode as it shows. -/
theorem shown_m : u.shown.m = u.m := rfl

@[simp] theorem shown_runCount : u.runCount.shown = u.shown.ran := by
  let v : Pcu ch := { u with state := u.stateOnGate }
  have hv : v.shown = u.shown.goto u.shown.stateOnGate := rfl
  have hloads : Shown.LoadsOnRun u.shown.m = Shown.LoadsOnRun u.m := rfl
  rw [Shown.ran, ← hv, hloads, runCount]
  split <;> rename_i hm <;> simp [v, Shown.LoadsOnRun, show u.m = _ from hm]

@[simp] theorem shown_startCounting : u.startCounting.shown = u.shown.ran := by
  unfold startCounting
  rw [shown_runCount, shown_timestamp]

@[simp] theorem shown_counterBufferLoaded : u.counterBufferLoaded.shown = u.shown.bufferLoaded := by
  obtain ⟨v, hv⟩ : ∃ v : Pcu ch, v = (u.setWtAction .timererror).loadCounter := ⟨_, rfl⟩
  have hshown : v.shown = (u.shown.wtAction .timererror).loaded := hv ▸ shown_loadCounter _
  have hm : (v.enableInt true).timestamp.m = v.m :=
    congrArg (fun s : Shown => s.m) ((shown_timestamp _).trans (v.shown_enableInt true))
  unfold counterBufferLoaded Shown.bufferLoaded
  rw [← hv, ← hshown]
  dsimp only
  by_cases hgate : v.gate ≠ gateLow
  · rw [if_pos hgate, if_pos (show v.shown.gate ≠ gateLow from hgate), shown_setState, hm]
    simp [shown_m]
  · rw [if_neg hgate, if_neg (show ¬v.shown.gate ≠ gateLow from hgate)]
    simp [shown_m]

@[simp] theorem shown_resumeCounting0onGate :
    ∃ tc, u.resumeCounting0onGate.shown = u.shown.resumed0 tc := by
  have hload : u.unfreeze.loadNew.shown = u.shown.unfrozen.loadedNew := by simp
  refine ⟨u.unfreeze.loadNew.tc, ?_⟩
  unfold resumeCounting0onGate Shown.resumed0
  rw [← hload]
  dsimp only
  split_ifs <;> simp

theorem shown_resumeCounting0 : ∃ tc, u.resumeCounting0.shown = u.shown.resumed0 tc := by
  have hload : u.unfreeze.loadNew.shown = u.shown.unfrozen.loadedNew := by simp
  refine ⟨u.unfreeze.loadNew.tc, ?_⟩
  unfold resumeCounting0 Shown.resumed0
  rw [← hload]
  dsimp only
  split_ifs <;> simp

theorem m_loadedNew (s : Shown) : s.loadedNew.m = s.m := by
  unfold Shown.loadedNew
  split_ifs <;> rfl

@[simp] theorem shown_resumeCounting234onGate :
    u.resumeCounting234onGate.shown = u.shown.resumed234 := by
  have hm : u.loadNew.m = u.m :=
    (congrArg (fun s : Shown => s.m) u.shown_loadNew).trans (m_loadedNew u.shown)
  unfold resumeCounting234onGate Shown.resumed234
  dsimp only
  rw [shown_runCount, shown_timestamp, shown_setStateOnGate, shown_loadNew, hm]
  rfl

@[simp] theorem shown_resumeCounting234 : u.resumeCounting234.shown = u.shown.resumed234 := by
  let delayed : Pcu ch := { u with delay := u.count.setWidth 32 }
  have hload : Pcu.shown (if u.newCount = .available then delayed.loadCounter else u)
      = u.shown.loadedNew := by
    unfold Shown.loadedNew
    exact (apply_ite Pcu.shown ..).trans (by rw [shown_loadCounter]; rfl)
  have hm : (if u.newCount = .available then delayed.loadCounter else u : Pcu ch).m = u.m :=
    (congrArg (fun s : Shown => s.m) hload).trans (m_loadedNew u.shown)
  unfold resumeCounting234 Shown.resumed234
  dsimp only
  rw [shown_runCount, shown_setStateOnGate, hload, hm]
  rfl

theorem shown_resumeCounting15 : u.resumeCounting15.shown = u.shown.resumed15 u.tc := by
  unfold resumeCounting15 Shown.resumed15
  have hgate : u.shown.gate = u.gate := rfl
  rw [hgate]
  by_cases hrise : u.gate = gateRise
  · simp only [hrise, if_true, not_true, ne_eq, false_and, if_false, shown_setState]
    rfl
  · by_cases htc : u.tc = true
    · simp [hrise, htc]
    · simp only [hrise, htc, not_false_eq_true, ne_eq, if_false]
      rfl

@[simp] theorem shown_setOutputAfterMode : u.setOutputAfterMode.shown = u.shown := by
  unfold setOutputAfterMode
  split
  · exact u.shown_outputLow
  · exact u.shown_outputHigh

/-- A mode word: the count in effect and what is half read stay as they are. -/
theorem shown_newMode (cwd : BitVec 8) :
    (u.newMode cwd).shown = { u.shown with
      countlatched := false, m := Mode.ofWord cwd, trigger := (u.newMode cwd).trigger
      bcd := cwd &&& 1 = 1, rl := Access.ofWord cwd, state := some .waitingFor1stWrite
      actionOnWtComplete := some .counterBufferLoaded
      actionOnGateEnabled := some .counterBufferLoaded } := by
  let w : Pcu ch :=
    { u.enableInt false with
        countlatched := false, tc := false, tickadjust := 0, microtick := 0, saveCount := 0,
        m := Mode.ofWord cwd }
  have hw : w.setTriggerCond.setOutputAfterMode.shown = { u.shown with
      countlatched := false, m := Mode.ofWord cwd, trigger := w.setTriggerCond.trigger } := by
    rw [shown_setOutputAfterMode, ← u.shown_enableInt false]
    rfl
  have htrigger : w.setTriggerCond.setOutputAfterMode.trigger = w.setTriggerCond.trigger :=
    congrArg (fun s : Shown => s.trigger) (shown_setOutputAfterMode _)
  have hset : (u.newMode cwd).shown = { w.setTriggerCond.setOutputAfterMode.shown with
      bcd := cwd &&& 1 = 1, rl := Access.ofWord cwd, state := some .waitingFor1stWrite
      actionOnWtComplete := some .counterBufferLoaded
      actionOnGateEnabled := some .counterBufferLoaded } := rfl
  rw [hset, hw, show (u.newMode cwd).trigger = w.setTriggerCond.trigger from htrigger]

end Pcu

namespace Shown

/-- A state in which the counter counts. -/
def Counts (state : StateFn) : Prop :=
  state = .counting0 ∨ state = .counting1 ∨ state = .counting23 ∨ state = .counting45

theorem counts_countingState (m : Mode) : Counts (Pcu.countingState m) := by
  unfold Counts
  cases m <;> decide

theorem counts_strobeState (m : Mode) : Counts (Pcu.strobeState m) := by
  unfold Counts
  cases m <;> decide

end Shown

end SoftPC.Timer
