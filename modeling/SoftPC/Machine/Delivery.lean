import SoftPC.Machine.Inputs

/-!
# Machine/Delivery — inputs over whole runs

What `Inputs` says of every run: each run delivers its own inputs in order and loses none, and after
a plain resume it goes on where it paused.  The callback of a running machine delivers the oldest
queued input (`callback_delivers`).
-/

namespace SoftPC.Machine

open SoftPC.Threads

/-! ## Runs -/

/-- The ledger of a run goes on. -/
theorem inRun_append {seen : List Obs} (trace : List Obs) (h : Obs.coldRun ∉ seen) :
    acceptedInRun (seen ++ trace) = acceptedInRun trace ++ acceptedInRun seen ∧
      deliveredInRun (seen ++ trace) = deliveredInRun trace ++ deliveredInRun seen := by
  induction seen with
  | nil => simp [acceptedInRun, deliveredInRun]
  | cons x seen ih =>
    obtain ⟨ha, hd⟩ := ih fun hx => h (List.mem_cons_of_mem x hx)
    cases x with
    | coldRun => exact absurd List.mem_cons_self h
    | _ => simp [acceptedInRun, deliveredInRun, ha, hd]

variable {hooks : Hooks} {schedule : List (Tid × Answer)} {c c' : Config Tid Op Store}

/-- Every run keeps the inputs in order. -/
theorem runs_inputs (hrun : runs hooks schedule = some c) (hfault : c.store.nativeFault = false) :
    ∃ w p, Orderly w p c.store ∧ inputs w p c.store := by
  have hboot : inputs {} {} .created := by
    refine ⟨by simp [Known], ?_⟩
    constructor <;> simp [Store.created, Renewing, acceptedInRun, deliveredInRun]
  obtain ⟨w, p, hO, hI, -⟩ := runs_keep inputs_kept hboot hrun hfault
  exact ⟨w, p, hO, hI⟩

/-- A run in public has no cold run under way. -/
theorem not_renewing {w : WorkerPhase} {p : ControlPhase} {m : Store} (hO : Orderly w p m)
    (hs : m.state = .running ∨ m.state = .paused) (r : Renewal) : ¬Renewing w.place p.stand r := by
  rintro (hp | hp | hp)
  · rcases hO.lifecycle.recycling r hp with h | ⟨-, h⟩ <;> rcases hs with hs | hs <;>
      simp [h] at hs
  · have h := (hO.lifecycle.restoring r hp).2
    split at h <;> rcases hs with hs | hs <;> simp [h] at hs
  · have h := (hO.lifecycle.cold r hp).2.2
    split at h <;> rcases hs with hs | hs <;> simp [h] at hs

/-- What was delivered in this run was accepted in this run, in this order. -/
theorem inputs_prefix {w : WorkerPhase} {p : ControlPhase} {m : Store} (hI : inputs w p m) :
    deliveredInRun m.trace <+: acceptedInRun m.trace := by
  by_cases hall : ∀ r, Renewing w.place p.stand r → r = .opened
  · rw [hI.2.kept hall, List.append_assoc]
    exact List.prefix_append _ _
  · push Not at hall
    obtain ⟨r, hr, hro⟩ := hall
    exact (hI.2.cleared r hr hro).2

/-- A public run loses nothing: what it accepted and has not delivered is queued or in hand, and
only a running one has anything in hand. -/
theorem inputs_public {w : WorkerPhase} {p : ControlPhase} {m : Store} (hO : Orderly w p m)
    (hI : inputs w p m) (hs : m.state = .running ∨ m.state = .paused) :
    ∃ hand : Option InputEvent, (hand ≠ none → m.state = .running) ∧
      acceptedInRun m.trace = deliveredInRun m.trace ++ hand.toList ++ m.queue.contents :=
  ⟨w.hand, fun h => (hI.2.held h).2, hI.2.kept fun r hr => absurd hr (not_renewing hO hs r)⟩

/-- **After a plain resume** — no cold run since the pause — the run delivers what was queued when
it paused and then what it has accepted since, in this order. -/
theorem resumed_inputs (hrun : runs hooks schedule = some c) (hpaused : c.store.state = .paused)
    {rest : List (Tid × Answer)} (hrest : run exec rest c = some c')
    (hfault : c'.store.nativeFault = false) {seen : List Obs}
    (hseen : c'.store.trace = seen ++ c.store.trace) (hcold : Obs.coldRun ∉ seen) :
    deliveredInRun seen <+: c.store.queue.contents ++ acceptedInRun seen ∧
      (c'.store.state = .running ∨ c'.store.state = .paused → ∃ hand : Option InputEvent,
        (hand ≠ none → c'.store.state = .running) ∧
        c.store.queue.contents ++ acceptedInRun seen =
          deliveredInRun seen ++ hand.toList ++ c'.store.queue.contents) := by
  have hfault₀ : c.store.nativeFault = false := by
    by_contra h
    have := run_invariant (P := fun d => d.store.nativeFault = true)
      (fun t a d d' hd hstep => fault_step hd hstep) (by simpa using h) hrest
    exact absurd (hfault.symm.trans this) (by simp)
  obtain ⟨w, p, hO, hI⟩ := runs_inputs hrun hfault₀
  obtain ⟨hand, hhand, hkept⟩ := inputs_public hO hI (.inr hpaused)
  have hnone : hand = none := by
    by_contra h
    exact absurd (hpaused.symm.trans (hhand h)) (by simp)
  have hrun' : runs hooks (schedule ++ rest) = some c' := by
    rw [runs, run_append]
    rw [runs] at hrun
    rw [hrun, Option.bind_some, hrest]
  obtain ⟨w', p', hO', hI'⟩ := runs_inputs hrun' hfault
  obtain ⟨hA, hD⟩ := inRun_append c.store.trace hcold
  rw [hnone, Option.toList_none, List.append_nil] at hkept
  refine ⟨?_, fun hs => ?_⟩
  · have hprefix := inputs_prefix hI'
    rw [hseen, hA, hD, hkept, List.append_assoc] at hprefix
    exact (List.prefix_append_right_inj _).mp hprefix
  · obtain ⟨hand', hhand', hkept'⟩ := inputs_public hO' hI' hs
    rw [hseen, hA, hD, hkept, List.append_assoc, List.append_assoc, List.append_assoc] at hkept'
    refine ⟨hand', hhand', ?_⟩
    rw [List.append_assoc]
    exact List.append_cancel_left hkept'

/-! ## Progress -/

section Callback

variable {P : Config Tid Op Store → Prop} {code : Tid → Code Unit} {k : Unit → Code Unit} {m : Store}

attribute [local simp] Prog.or Prog.and Prog.not exchange load store stateIs

theorem noticeDebugStop_alone (hpause : m.flags .pauseRequested = false)
    (h : Alone exec .worker {} P ⟨Function.update code .worker (k ()), m.setFlag .debugCancelRequested false⟩) :
    Alone exec .worker {} P ⟨Function.update code .worker ((noticeDebugStop hooks).bind k), m⟩ := by
  have hnotice : Alone exec .worker {} P ⟨Function.update code .worker
      ((do
        let cancel ← Prog.or (exchange .debugCancelRequested false) (load .pauseRequested)
        let debugStop ← (if cancel && hooks.cancelDebug then do
            Op.cancelDebug
            pure false
          else pure false)
        Prog.when debugStop (store .pauseRequested true) : Code Unit).bind k), m⟩ := by
    simp
    refine .op rfl ?_
    cases hf : m.flags .debugCancelRequested with
    | false =>
      simp
      refine .op rfl ?_
      simpa [Store.setFlag, hpause] using h
    | true =>
      simp
      split
      · refine .op rfl ?_
        simpa using h
      · simpa using h
  cases hd : hooks.takeDebugStop with
  | false => simpa [noticeDebugStop, hd] using hnotice
  | true =>
    simp only [noticeDebugStop, hd, if_true, Prog.bind_eq, Prog.perform_bind, Prog.op_bind]
    refine .op rfl ?_
    simpa using hnotice

theorem serviceStateRead_alone (hlock : m.requestLock = none)
    (hread : m.flags .stateReadRequested = false)
    (h : Alone exec .worker {} P ⟨Function.update code .worker (k ()), m⟩) :
    Alone exec .worker {} P ⟨Function.update code .worker ((serviceStateRead hooks).bind k), m⟩ := by
  simp [serviceStateRead, armStateRead]
  refine .op (exec_eq_some.mpr ⟨_, Store.effect_lock.mpr ⟨hlock, rfl⟩, rfl⟩) ?_
  refine .op rfl ?_
  cases ht : m.flags .terminateRequested
  · simp
    refine .op rfl ?_
    simp [hread]
    refine .op rfl ?_
    simp
    rw [← hlock]
    exact h
  · simp
    refine .op rfl ?_
    simp
    rw [← hlock]
    exact h

theorem admitOrDrain_alone {event : InputEvent} {rest : List InputEvent} (hstate : m.state = .running)
    (hpause : m.flags .pauseRequested = false) (hstop : m.flags .stopRequested = false)
    (hqueue : m.queue.contents = event :: rest) :
    Alone exec .worker {} (fun c => c.store.trace = .delivered event :: m.trace ∧ c.store.queue.contents = rest)
      ⟨Function.update code .worker (admitOrDrain.bind k), m⟩ := by
  have hsome : m.queue.pop.1 = some event ∧ m.queue.pop.2.contents = rest := InputQueue.pop_cons hqueue
  simp [admitOrDrain, drainInput]
  refine .op rfl ?_
  simp [hpause]
  refine .op rfl ?_
  simp [hstop]
  refine .op rfl ?_
  simp [hstate]
  refine .op rfl ?_
  simp [hsome]
  refine .op rfl ?_
  refine .refl ⟨?_, ?_⟩
  · simp
  · simp [hsome]

/-- **A callback delivers the oldest queued input**, unless a pause or a stop is asked for or a
state read goes on. -/
theorem callback_delivers {event : InputEvent} {rest : List InputEvent}
    (hstate : m.state = .running) (hpause : m.flags .pauseRequested = false)
    (hstop : m.flags .stopRequested = false) (hread : m.flags .stateReadRequested = false)
    (hlock : m.requestLock = none) (hqueue : m.queue.contents = event :: rest) :
    Alone exec .worker {}
      (fun d => d.store.trace = .delivered event :: m.trace ∧ d.store.queue.contents = rest)
      ⟨Function.update code .worker ((executorEvent hooks).bind k), m⟩ := by
  obtain ⟨rest', hcode⟩ : ∃ rest', (executorEvent hooks).bind k = (noticeDebugStop hooks).bind
      fun _ => (serviceStateRead hooks).bind fun _ => admitOrDrain.bind rest' :=
    ⟨_, by simp only [executorEvent, Prog.bind_eq, Prog.bind_assoc]; rfl⟩
  rw [hcode]
  refine noticeDebugStop_alone hpause (serviceStateRead_alone hlock hread ?_)
  exact admitOrDrain_alone hstate hpause hstop hqueue

end Callback

/-- **Inputs are delivered in order and never cross a cold run.**  After every run: the queue holds
at most 255 inputs; the current run has delivered the beginning of what it has accepted, and while it
is public has the rest queued or in hand, oldest first; a rejected push changes nothing; a machine
PAUSED before, with no cold run since, has delivered or still has what was queued then, before what it
has accepted since; and a callback of the running machine delivers the oldest. -/
theorem inputs_delivered_in_order (hrun : runs hooks schedule = some c)
    (hfault : c.store.nativeFault = false) :
    c.store.queue.contents.length ≤ 255 ∧
    deliveredInRun c.store.trace <+: acceptedInRun c.store.trace ∧
    (∀ event, (c.store.queue.push event).1 ≠ .ok →
      (c.store.queue.push event).2 = c.store.queue) ∧
    (c.store.state = .running ∨ c.store.state = .paused → ∃ hand : Option InputEvent,
      (hand ≠ none → c.store.state = .running) ∧ acceptedInRun c.store.trace =
        deliveredInRun c.store.trace ++ hand.toList ++ c.store.queue.contents) ∧
    (c.store.state = .paused → ∀ rest c', run exec rest c = some c' →
      c'.store.nativeFault = false → ∃ seen, c'.store.trace = seen ++ c.store.trace ∧
      (Obs.coldRun ∉ seen →
        deliveredInRun seen <+: c.store.queue.contents ++ acceptedInRun seen ∧
        (c'.store.state = .running ∨ c'.store.state = .paused → ∃ hand : Option InputEvent,
          (hand ≠ none → c'.store.state = .running) ∧
          c.store.queue.contents ++ acceptedInRun seen =
            deliveredInRun seen ++ hand.toList ++ c'.store.queue.contents))) ∧
    (∀ k event rest, c.code .worker = (executorEvent hooks).bind k → c.store.state = .running →
      c.store.flags .pauseRequested = false → c.store.flags .stopRequested = false →
      c.store.flags .stateReadRequested = false → c.store.requestLock = none →
      c.store.queue.contents = event :: rest →
      Alone exec .worker {} (fun d => d.store.trace = .delivered event :: c.store.trace ∧
        d.store.queue.contents = rest) c) := by
  obtain ⟨w, p, hO, hI⟩ := runs_inputs hrun hfault
  refine ⟨Nat.le_of_lt_succ c.store.queue.contents_length_lt, inputs_prefix hI,
    fun event h => InputQueue.push_rejected h, inputs_public hO hI, ?_, ?_⟩
  · intro hpaused rest c' hrest hfault'
    obtain ⟨seen, hseen⟩ := trace_grows hrest
    exact ⟨seen, hseen, resumed_inputs hrun hpaused hrest hfault' hseen⟩
  · intro k event rest hcode hstate hpause hstop hread hlock hqueue
    have hc : c = ⟨Function.update c.code .worker ((executorEvent hooks).bind k), c.store⟩ := by
      rw [← hcode, Function.update_eq_self]
    rw [hc]
    exact callback_delivers hstate hpause hstop hread hlock hqueue

/-- A driver and sinks without any optional entry point. -/
def Hooks.bare : Hooks :=
  ⟨false, false, false, false, false, false, false, false, false, false, false⟩

/-- Moves of one thread, answered alike. -/
def moves (t : Tid) (n : ℕ) (a : Answer) : List (Tid × Answer) := List.replicate n (t, a)

/-- A machine is started and runs, an input is submitted, and the machine pauses. -/
def pausedWithInput : List (Tid × Answer) :=
  moves .control 1 {} ++ moves .control 1 { call := .start } ++ moves .control 13 {} ++
    moves .worker 21 { yes := true, callback := true } ++ moves (.producer 0) 3 {} ++
    moves .control 5 {} ++ moves .worker 21 { yes := true, callback := true }

theorem inputs_delivered_in_order_paused :
    ∃ c, runs Hooks.bare pausedWithInput = some c ∧ c.store.state = .paused ∧
      c.store.queue.contents = [InputQueue.zeroEvent] ∧
      deliveredInRun c.store.trace <+: acceptedInRun c.store.trace := by
  have hany : (runs Hooks.bare pausedWithInput).any (fun c => c.store.state = .paused ∧
      c.store.queue.contents = [InputQueue.zeroEvent] ∧ c.store.nativeFault = false) = true := by
    decide
  obtain ⟨c, hrun, hc⟩ := (Option.any_eq_true _ _).mp hany
  simp only [decide_eq_true_eq] at hc
  obtain ⟨hstate, hqueue, hfault⟩ := hc
  exact ⟨c, hrun, hstate, hqueue, (inputs_delivered_in_order hrun hfault).2.1⟩

end SoftPC.Machine
