import SoftPC.Machine.Tokens

/-!
# Machine/Steps — every operation keeps a machine orderly

The life of a run, the end of the worker and the custody of requests, together: each operation that
a thread's protocol allows keeps them.
-/

namespace SoftPC.Machine

open SoftPC.Threads

/-- The worker owes a state write that is neither complete nor failed. -/
def WorkerPhase.writes (w : WorkerPhase) : Prop :=
  ∃ s, s ≠ .recorded ∧ w.owes = some (.stateWrite, s)

/-- **A machine in order.** -/
structure Orderly (w : WorkerPhase) (c : ControlPhase) (m : Store) : Prop where
  lifecycle : Lifecycle w.place c.stand c.foundStopped m.state (m.flags .startRequested)
    (m.flags .stateWriteRequested = true ∨ w.writes)
  ending : Ending w.place w.seen c.stand m.state (m.flags .terminateRequested) m.cancelled m.exited
  tokens : Tokens w.hands c.stand m.flags m.signaled

namespace Orderly

variable {β : Type} {w w' : WorkerPhase} {c c' : ControlPhase} {m m' : Store} {o : Op β}
  {a : Answer} {b : β}

/-! ## The worker -/

section Worker

open WorkerPhase WorkerPhase.Stepping

/-- A flag is lowered that is not raised. -/
theorem miss {f : Flag} (h : Orderly w c m) (hf : m.flags f = false) :
    Orderly w c (m.setFlag f false) := by
  unfold Store.setFlag
  rwa [← hf, Function.update_eq_self]

/-- A request is claimed, or was not there. -/
theorem worker_claim {k : Kind} (hk : k ≠ .stateRead) (h : Orderly w c m)
    (hnext : w.claim k (m.flags k.flag) = .go w') : Orderly w' c (m.setFlag k.flag false) := by
  cases hf : m.flags k.flag with
  | false =>
    simp [hf] at hnext
    subst hnext
    exact h.miss hf
  | true =>
    obtain ⟨hl, he, ht⟩ := h
    simp [hf] at hnext
    obtain ⟨-, rfl⟩ := hnext
    refine ⟨?_, ?_, ht.claim hk hf⟩
    · cases k <;> refine hl.mono ?_ <;> simp_all [Store.setFlag, Kind.flag, writes]
    · cases k <;> exact he

theorem worker_startRequested {v : Bool} (h : Orderly w c m)
    (hnext : w.onExchange .startRequested v (m.flags .startRequested) = .go w') :
    Orderly w' c (m.setFlag .startRequested v) := by
  cases v with
  | false =>
    simp at hnext
    obtain ⟨⟨hp, -, hstaged⟩, hnext⟩ := hnext
    cases hf : m.flags .startRequested with
    | false =>
      simp [hf] at hnext
      subst hnext
      exact h.miss hf
    | true =>
      obtain ⟨hl, he, ht⟩ := h
      simp [hf] at hnext
      subst hnext
      rw [hp] at hl he
      rw [hf] at hl
      refine ⟨hl.takeStart, he.move (by simp), (ht.otherFlag (by simp)).move ?_ ?_⟩
      · simp [hstaged]
      · simp
  | true =>
    obtain ⟨hl, he, ht⟩ := h
    simp at hnext
    obtain ⟨⟨hp, ho⟩, rfl⟩ := hnext
    have hwaiting : (∃ r, w.place = .restoring r) → m.flags .stateWriteWaiting = true := by
      rintro ⟨r, hp⟩
      simpa [ho] using ht.restoring r hp
    refine ⟨hl.putStart hp ?_, he.move ?_, (ht.otherFlag (by simp)).move ?_ ?_⟩
    · rintro (hw | ⟨s, -, hw⟩)
      · refine ⟨.inl hw, fun r hp => ?_⟩
        have := (ht.asked .stateWrite hw).2.2.1
        simp_all
      · simp [ho] at hw
    · rcases hp with hp | hp <;> simp [hp]
    · intro hs
      refine .inr (.inr (.inr (.inr ⟨rfl, hwaiting ?_⟩)))
      rcases ht.stages hs with h | h | h | h <;> rcases hp with hp | hp <;> simp_all
    · simp

/-- The flags of a state write that has restored the machine. -/
theorem worker_stateWriteWaiting {v : Bool} (h : Orderly w c m)
    (hnext : w.onExchange .stateWriteWaiting v (m.flags .stateWriteWaiting) = .go w') :
    Orderly w' c (m.setFlag .stateWriteWaiting v) := by
  cases v with
  | false =>
    cases hf : m.flags .stateWriteWaiting with
    | false =>
      simp [hf] at hnext
      subst hnext
      exact h.miss hf
    | true =>
      obtain ⟨hl, he, ht⟩ := h
      simp [hf] at hnext
      obtain ⟨⟨-, hp⟩, rfl⟩ := hnext
      refine ⟨hl.mono ?_, he, ht.takeWaiting hf hp⟩
      simp +contextual [Store.setFlag, writes]
  | true =>
    obtain ⟨hl, he, ht⟩ := h
    simp at hnext
    obtain ⟨⟨-, ho⟩, rfl⟩ := hnext
    refine ⟨hl.mono ?_, he, ht.putWaiting ho⟩
    simp +contextual [Store.setFlag, writes]

theorem worker_stateReadRequested {v : Bool} (h : Orderly w c m)
    (hnext : w.onExchange .stateReadRequested v (m.flags .stateReadRequested) = .go w') :
    Orderly w' c (m.setFlag .stateReadRequested v) := by
  obtain ⟨hl, he, ht⟩ := h
  cases v with
  | false =>
    cases hf : m.flags .stateReadRequested with
    | false =>
      simp [hf] at hnext
      subst hnext
      exact ⟨hl, he, ht.missRead hf⟩
    | true =>
      simp [hf] at hnext
      obtain ⟨-, rfl⟩ := hnext
      refine ⟨hl.mono ?_, he, ht.takeRead hf⟩
      simp +contextual [Store.setFlag, writes]
  | true => simp at hnext

theorem worker_exchange {f : Flag} {v : Bool} (h : Orderly w c m)
    (hnext : WorkerPhase.next Bool w (.exchange f v) (m.flags f) = .go w') :
    Orderly w' c (m.setFlag f v) := by
  have h' : Orderly { w with mayComplete := false } c m := ⟨h.1, h.2, h.3⟩
  cases f
  case startRequested => exact h'.worker_startRequested hnext
  case stateWriteWaiting => exact h'.worker_stateWriteWaiting hnext
  case stateReadRequested => exact h.worker_stateReadRequested hnext
  all_goals cases v <;> simp at hnext
  case mediaRequested.false => exact h'.worker_claim (k := .media) (by decide) hnext
  case debugRequested.false => exact h'.worker_claim (k := .debug) (by decide) hnext
  case stateWriteRequested.false => exact h'.worker_claim (k := .stateWrite) (by decide) hnext
  all_goals obtain ⟨hl, he, ht⟩ := h'; unfold Store.setFlag
  case debugCancelRequested.false | resetActive.false | pauseRequested.false | pauseRequested.true =>
    subst hnext
    exact ⟨hl, he, ht.otherFlag (by simp)⟩
  case stopRequested.true =>
    obtain ⟨-, rfl⟩ := hnext
    exact ⟨hl, he, ht.otherFlag (by simp)⟩
  case stopRequested.false =>
    split at hnext <;> simp at hnext <;> subst hnext <;> exact ⟨hl, he, ht.otherFlag (by simp)⟩
  case terminateRequested.true =>
    obtain ⟨hp, rfl⟩ := hnext
    refine ⟨hl, ?_, ht.otherFlag (by simp)⟩
    have hterminate : m.flags .terminateRequested = true := he.shutting (he.leaving hp)
    rwa [hterminate] at he
  case resetRequested.false =>
    split at hnext
    · rename_i hp
      cases hf : m.flags .resetRequested with
      | false =>
        simp [hf] at hnext
        subst hnext
        exact ⟨hl, he, ht.otherFlag (by simp)⟩
      | true =>
        simp [hf] at hnext
        subst hnext
        refine ⟨hl.move (.inr (.inl ⟨hp, rfl⟩)), he.move (by simp [hp]),
          (ht.otherFlag (by simp)).move ?_ (by simp)⟩
        intro hs
        have := ht.stages hs
        simp [hp] at this
    · simp at hnext
      subst hnext
      exact ⟨hl, he, ht.otherFlag (by simp)⟩
    · cases hnext
  case restoredStartRequested.false =>
    obtain ⟨hp, rfl⟩ := hnext
    exact ⟨hl, he, ht.unstage hp⟩
  case restoredStartRequested.true =>
    obtain ⟨hp, rfl⟩ := hnext
    exact ⟨hl, he, ht.stage hp⟩
  case stateReadArmed.true =>
    obtain ⟨⟨-, -, hr⟩, rfl⟩ := hnext
    exact ⟨hl, he, ht.arm hr⟩
  case stateReadArmed.false =>
    obtain ⟨ho, rfl⟩ := hnext
    exact ⟨hl, he, ht.disarm ho⟩
  case stateReadReady.true =>
    obtain ⟨hr, rfl⟩ := hnext
    exact ⟨hl, he, ht.makeReady hr⟩
  case stateReadReady.false =>
    obtain ⟨ho, rfl⟩ := hnext
    exact ⟨hl, he, ht.unmakeReady ho⟩

theorem worker_load {f : Flag} (h : Orderly w c m)
    (hnext : WorkerPhase.next Bool w (.load f) (m.flags f) = .go w') : Orderly w' c m := by
  obtain ⟨hl, he, ht⟩ := h
  cases f <;> simp at hnext
  case terminateRequested =>
    split at hnext
    · rename_i hp
      obtain ⟨hp, -, hterminate⟩ := hp
      cases hnext
      rw [hp] at he
      exact ⟨hl.move (by simp [hp, Place.calm]), he.leave (.inl hterminate), ht.move (by simp) (by simp)⟩
    · cases hnext
      exact ⟨hl, he, ht⟩
  case stateReadRequested =>
    subst hnext
    exact ⟨hl, he, ht.read id id⟩
  all_goals
    subst hnext
    exact ⟨hl, he, ht⟩

/-- No restored state is staged where the worker is in a run. -/
theorem not_staged (ht : Tokens w.hands c.stand m.flags m.signaled)
    (hp : w.place = .launching ∨ w.place = .live ∨ w.place = .unwinding ∨ w.place = .closing ∨
      w.place = .turning ∨ ∃ r, w.place = .recycling r) : w.staged = false := by
  refine Bool.eq_false_iff.mpr fun hs => ?_
  have := ht.stages hs
  grind -linarith

theorem worker_storeState {s : State} (h : Orderly w c m)
    (hnext : w.onStoreState s = .go w') : Orderly w' c { m with state := s } := by
  obtain ⟨hl, he, ht⟩ := h
  unfold onStoreState at hnext
  split at hnext <;> simp at hnext
  case h_1 hp | h_2 hp =>
    obtain ⟨-, rfl⟩ := hnext
    have hstaged := not_staged ht (by simp [hp])
    exact ⟨hl.close (by simp [hp]), he.move (by simp [hp]), ht.move (by simp [hstaged]) (by simp)⟩
  case h_3 hp =>
    obtain ⟨⟨rfl, -⟩, rfl⟩ := hnext
    have hlive := hl.setLive (s := .error) (.inr hp) (by simp)
    rw [← hp] at hlive
    exact ⟨hlive, he.move (by simp [hp]), ht⟩
  case h_4 hp =>
    obtain ⟨hs, rfl⟩ := hnext
    have hstaged := not_staged ht (by simp [hp])
    rw [hp] at hl
    exact ⟨hl.turn hs, he.move (by simp [hp]), ht.move (by simp [hstaged]) (by simp)⟩
  case h_5 hp =>
    obtain ⟨rfl, rfl⟩ := hnext
    have hstaged := not_staged ht (by simp [hp])
    rw [hp] at hl
    exact ⟨hl.announceRecycling, he.move (by simp [hp]), ht.move (by simp [hstaged]) (by simp)⟩
  case h_6 hp =>
    obtain ⟨rfl, rfl⟩ := hnext
    rw [hp] at hl
    refine ⟨hl.announceRestoring, he.move (by simp [hp]), ht.move ?_ fun _ _ => .inl ⟨_, hp⟩⟩
    intro hs
    have := ht.stages hs
    simp_all
  case h_7 hp =>
    obtain ⟨hs, rfl⟩ := hnext
    have hstate : m.state = s := by simpa [hp] using he.saw s hs
    rw [hstate] at hl he
    exact ⟨hl, he, ht⟩

theorem worker_compareExchangeState {expected desired : State} {b : Bool} (h : Orderly w c m)
    (hexec : m.effect .worker a Bool (.compareExchangeState expected desired) = some (b, m'))
    (hnext : w.onCompareExchange expected desired b = .go w') : Orderly w' c m' := by
  obtain ⟨hl, he, ht⟩ := h
  unfold onCompareExchange at hnext
  split at hnext <;> simp at hexec hnext
  case h_1 hp =>
    obtain ⟨⟨rfl, rfl⟩, rfl⟩ := hnext
    have hstaged := not_staged ht (by simp [hp])
    rcases hexec with ⟨-, rfl, rfl⟩ | ⟨hstate, -, -⟩
    · exact ⟨hl.setLive (.inl hp) (by simp), he.move (by simp [hp]),
        ht.move (by simp [hstaged]) (by simp)⟩
    · exact absurd (hl.launching hp) hstate
  case h_2 hp =>
    obtain ⟨⟨-, hs, -⟩, rfl⟩ := hnext
    rcases hexec with ⟨-, rfl, rfl⟩ | ⟨-, rfl, rfl⟩
    · have hlive := hl.setLive (s := desired) (.inr hp) (by tauto)
      rw [← hp] at hlive
      exact ⟨hlive, he.move (by simp [hp]), ht⟩
    · exact ⟨hl, he, ht⟩

theorem worker_debugInvalidate (h : Orderly w c m) (hnext : w.onInvalidate = .go w') :
    Orderly w' c { m with debugGeneration := m.debugGeneration + 1 } := by
  obtain ⟨hl, he, ht⟩ := h
  unfold onInvalidate at hnext
  split at hnext <;> simp at hnext
  case h_1 | h_2 =>
    subst hnext
    exact ⟨hl, he, ht⟩
  case h_3 hp =>
    obtain ⟨ho, rfl⟩ := hnext
    rw [hp] at hl
    obtain ⟨hs, hw, -⟩ := ht.owed _ _ ho
    refine ⟨hl.restore (.inr ⟨_, by simp, ho⟩) hs, he.move (by simp [hp]),
      ht.move ?_ fun _ _ => .inr ho⟩
    intro hstaged
    have := ht.stages hstaged
    simp_all

/-- A wait for a command that ends without one ends the worker. -/
theorem worker_waitAny {es : List Event} {r : WaitResult} (h : Orderly w c m)
    (hexec : m.effect .worker a WaitResult (.waitAny es) = some (r, m'))
    (hnext : w.onWait r = .go w') : Orderly w' c m' := by
  obtain ⟨hl, he, ht⟩ := h
  cases r <;> simp at hexec hnext
  case signaled =>
    obtain ⟨-, -, -, rfl⟩ := hexec
    subst hnext
    exact ⟨hl, he, ht⟩
  case cancelled =>
    obtain ⟨-, hcancelled, rfl⟩ := hexec
    split at hnext
    · rename_i hp
      cases hnext
      rw [hp] at he
      exact ⟨hl.move (by simp [hp, Place.calm]), he.leave (.inr hcancelled),
        ht.move (by simp) (by simp)⟩
    · cases hnext
      exact ⟨hl, he, ht⟩

theorem worker_inputClear (h : Orderly w c m) (hnext : w.onClear = .go w') :
    Orderly w' c { m with queue := m.queue.clear } := by
  obtain ⟨hl, he, ht⟩ := h
  unfold onClear at hnext
  split at hnext <;> simp at hnext
  case h_1 hp =>
    subst hnext
    exact ⟨hl.move (by simp [hp, Renewal.started]), he.move (by simp [hp]), ht.renewRecycling hp⟩
  case h_2 hp =>
    subst hnext
    exact ⟨hl.move (by simp [hp, Renewal.started]), he.move (by simp [hp]),
      ht.renewRestoring hp (by simp)⟩

theorem worker_addRunGeneration (h : Orderly w c m) (hnext : w.onCount = .go w') :
    Orderly w' c { m with runGeneration := m.runGeneration + 1 } := by
  obtain ⟨hl, he, ht⟩ := h
  unfold onCount at hnext
  split at hnext <;> simp at hnext
  case h_1 hp =>
    obtain ⟨-, rfl⟩ := hnext
    exact ⟨hl.move (by simp [hp, Renewal.started]), he.move (by simp [hp]), ht.renewRecycling hp⟩
  case h_2 hp =>
    obtain ⟨-, rfl⟩ := hnext
    exact ⟨hl.move (by simp [hp, Renewal.started]), he.move (by simp [hp]),
      ht.renewRestoring hp (by simp)⟩

theorem worker_uninstall (h : Orderly w c m) (hnext : w.onUninstall = .go w') : Orderly w' c m := by
  obtain ⟨hl, he, ht⟩ := h
  unfold onUninstall at hnext
  split at hnext <;> simp at hnext
  case h_1 hp =>
    obtain ⟨-, rfl⟩ := hnext
    have hstaged := not_staged ht (by simp [hp])
    exact ⟨hl.move (by simp [hp]), he.move (by simp [hp]), ht.move (by simp [hstaged]) (by simp)⟩
  case h_2 hp => exact absurd hp hl.hit

/-- A claimed request comes further. -/
theorem worker_progress {k : Kind} {s s' : Stage} (h : Orderly w c m) (ho : w.owes = some (k, s))
    (hs : s ≠ .restored ∧ s ≠ .recorded ∨ s' = .recorded ∧ s ≠ .restored) (hk : k ≠ .stateRead) :
    Orderly { w with owes := some (k, s') } c m := by
  obtain ⟨hl, he, ht⟩ := h
  refine ⟨hl.mono ?_, he, ht.progress ho (by tauto) hk⟩
  rintro (hw | ⟨t, ht, hw⟩)
  · exact .inl hw
  · simp at hw
    obtain ⟨rfl, rfl⟩ := hw
    exact .inr ⟨s, by tauto, ho⟩

/-- A state read goes on, and what it restored is forgotten. -/
theorem worker_reading {r : Reading} {b d : Bool} (h : Orderly w c m)
    (hr : r ≠ .none → w.reading ≠ .none) (hb : b = true → w.restored = true) :
    Orderly { w with reading := r, restored := b, mayComplete := d } c m := by
  obtain ⟨hl, he, ht⟩ := h
  refine ⟨hl, he, ?_⟩
  have hread := ht.read (r := r) (b := w.requested) hr ht.knows
  cases b with
  | false => exact hread.forget
  | true => simpa [hb] using hread

theorem worker_stateStatus {s : Status} (h : Orderly w c m)
    (hnext : w.onWriteStateStatus s = .go w') : Orderly w' c m := by
  unfold onWriteStateStatus at hnext
  split at hnext <;> simp at hnext
  case h_1 ho =>
    obtain ⟨-, rfl⟩ := hnext
    exact h.worker_progress ho (by simp) (by simp)
  case h_2 ho =>
    obtain ⟨-, rfl⟩ := hnext
    exact h.worker_progress ho (by simp) (by simp)
  case h_3 ho =>
    obtain ⟨-, rfl⟩ := hnext
    exact h.worker_progress ho (by simp) (by simp)
  case h_4 hr =>
    obtain ⟨-, rfl⟩ := hnext
    exact h.worker_reading (by simp [hr]) id
  case h_5 hr =>
    obtain ⟨-, rfl⟩ := hnext
    exact h.worker_reading (by simp [hr]) id
  all_goals
    split at hnext <;> simp at hnext
    · obtain ⟨-, rfl⟩ := hnext
      exact h.worker_reading id id
    · obtain ⟨-, rfl⟩ := hnext
      exact h.worker_reading id (by simp)

theorem worker_write {f : Field} {v : f.type} (h : Orderly w c m)
    (hnext : w.onWrite f v = .go w') : Orderly w' c m := by
  cases f <;> simp [-onWriteStateStatus] at hnext
  case mediaSucceeded | debugStatus =>
    split at hnext <;> simp at hnext <;> obtain ⟨-, rfl⟩ := hnext <;>
      rename_i ho <;> exact h.worker_progress ho (by simp) (by simp)
  case stateStatus => exact h.worker_stateStatus hnext
  case debugResponse | debugResponseSize =>
    subst hnext
    exact h

theorem worker_signal {e : Event} (h : Orderly w c m) (hnext : w.onSignal e = .go w') :
    Orderly w' c (m.setEvent e true) := by
  obtain ⟨hl, he, ht⟩ := h
  unfold onSignal at hnext
  split at hnext
  · cases hnext
    exact ⟨hl, he, ht.otherEvent (.inl rfl)⟩
  · cases hnext
  · rename_i ho
    simp at hnext
    obtain ⟨⟨rfl, hr⟩, rfl⟩ := hnext
    refine ⟨hl.mono ?_, he, ht.answer ho (by simp) (by tauto)⟩
    simp +contextual [Store.setEvent, writes]
  · rename_i ho
    cases hnext
    refine ⟨hl.mono ?_, he, ht.answer (k := .debug) ho (by simp) (by simp)⟩
    simp +contextual [Store.setEvent, writes]
  · cases hnext

theorem worker_execute {k : Kind} {out : Outcome} (hk : k ≠ .stateRead) (h : Orderly w c m)
    (hnext : w.onExecute k out = .go w') : Orderly w' c m := by
  simp at hnext
  obtain ⟨ho, rfl⟩ := hnext
  exact h.worker_progress ho (by simp) hk

/-- **Every operation of the worker keeps the machine in order.** -/
theorem worker (h : Orderly w c m) (hexec : m.effect .worker a β o = some (b, m'))
    (hnext : WorkerPhase.next β w o b = .go w') : Orderly w' c m' := by
  have h' : Orderly { w with mayComplete := false } c m := ⟨h.1, h.2, h.3⟩
  cases o with
  | load f =>
    cases hexec
    exact h.worker_load hnext
  | exchange f v =>
    cases hexec
    exact h.worker_exchange hnext
  | storeState s =>
    cases hexec
    exact h'.worker_storeState hnext
  | compareExchangeState expected desired => exact h'.worker_compareExchangeState hexec hnext
  | debugInvalidate =>
    cases hexec
    exact h'.worker_debugInvalidate hnext
  | waitAny es => exact h'.worker_waitAny hexec hnext
  | inputClear =>
    cases hexec
    exact h'.worker_inputClear hnext
  | signal e =>
    simp [-onSignal] at hnext
    obtain ⟨rfl, hnext⟩ := hnext
    simp at hexec
    obtain ⟨-, rfl⟩ := hexec
    exact h'.worker_signal hnext
  | write f v =>
    cases hexec
    by_cases hf : f = .stateReadContinuing
    · subst hf
      cases hnext
      exact ⟨h.1, h.2, h.3⟩
    · rw [next_write w hf] at hnext
      have hwrite : Orderly w' c m := h'.worker_write hnext
      exact ⟨hwrite.1, hwrite.2, hwrite.3⟩
  | loadState =>
    cases hexec
    simp at hnext
    subst hnext
    refine ⟨h.1, ?_, h.3⟩
    by_cases hp : w.place = .leaving
    · have he := h.2
      simp only [hp, if_true] at he ⊢
      exact he.see
    · simpa [hp] using h.2
  | unlock =>
    cases hexec
    simp at hnext
    subst hnext
    by_cases hp : w.place = .closing
    · have hstaged := not_staged h.3 (by simp [hp])
      simp only [hp, if_true]
      exact ⟨h.1.move (by simp [hp]), h.2.move (by simp [hp]), h.3.move (by simp [hstaged]) (by simp)⟩
    · simp only [hp, if_false]
      exact ⟨h.1, h.2, h.3⟩
  | exit =>
    cases hexec
    simp at hnext
    obtain ⟨hp, rfl⟩ := hnext
    have he := h.2
    rw [hp] at he
    exact ⟨h.1.move (by simp [hp, Place.calm]), he.exit, h.3.move (by simp) (by simp)⟩
  | setExecutorCallback installed =>
    cases hexec
    cases installed with
    | false => exact h'.worker_uninstall hnext
    | true =>
      cases hnext
      exact h'
  | setRemovableMedia path mode =>
    cases hexec
    exact h'.worker_execute (by decide) hnext
  | writeState reader =>
    cases hexec
    exact h'.worker_execute (by decide) (allowIf_eq_go.mp hnext).2
  | executeDebug request capacity =>
    cases hexec
    simp at hnext
    obtain ⟨⟨ho, -⟩, rfl⟩ := hnext
    exact h'.worker_progress ho (by simp) (by simp)
  | beginStateRead writer =>
    cases hexec
    simp at hnext
    obtain ⟨hr, rfl⟩ := hnext
    exact h'.worker_reading (by simp [hr]) id
  | takeStateReadResult =>
    cases hexec
    simp at hnext
    obtain ⟨⟨hr, -⟩, rfl⟩ := hnext
    exact h'.worker_reading (by simp [hr]) id
  | reset e =>
    simp at hnext
    obtain ⟨rfl, he, rfl⟩ := hnext
    simp at hexec
    obtain ⟨-, rfl⟩ := hexec
    exact ⟨h.1, h.2, h.3.otherEvent he⟩
  | lock =>
    obtain ⟨-, rfl⟩ := Store.effect_lock.mp hexec
    cases hnext
    exact ⟨h.1, h.2, h.3⟩
  | read f =>
    cases hexec
    cases f <;> cases hnext <;> exact ⟨h.1, h.2, h.3⟩
  | addRunGeneration =>
    cases hexec
    exact h'.worker_addRunGeneration hnext
  | inputAdmit accepting | inputPop | deliverInput event | stateSink s run | publishFrame frame =>
    cases hexec
    obtain ⟨-, hnext⟩ := allowIf_eq_go.mp hnext
    cases hnext
    exact ⟨h.1, h.2, h.3⟩
  | requestCancel | join | inputPush event | nextCall | returned call reply | nextInput | view v
  | nextView => cases hnext
  | _ =>
    cases hexec
    cases hnext
    exact ⟨h.1, h.2, h.3⟩

end Worker

/-! ## The control thread -/

section Control

open ControlPhase

attribute [local simp] ControlPhase.next ControlPhase.onLoad ControlPhase.onLoadState ControlPhase.onExchange
  ControlPhase.onInvalidate ControlPhase.onRead ControlPhase.onWrite ControlPhase.onSignal
  ControlPhase.onReset ControlPhase.onWait

/-- The control thread, without a request, comes to a stand that says nothing. -/
theorem control_stands {stand : Stand} {f hid : Bool} {g : Option UInt32} {out : Option Outcome}
    (h : Orderly w c m) (hs : ∀ k, c.stand ≠ .waiting k) (hs' : c.stand ≠ .shutting)
    (hstand : stand = .idle ∨ (∃ k, stand = .answered k) ∨ stand = .submitting ∧ f = false ∧
      m.flags .terminateRequested = false) : Orderly w ⟨stand, f, g, out, hid⟩ m := by
  obtain ⟨hl, he, ht⟩ := h
  refine ⟨hl.stands ?_ fun hw => absurd hw (hs _), he.stands hs' ?_ ?_, ht.stands hs ?_⟩
  all_goals rcases hstand with rfl | ⟨k, rfl⟩ | ⟨rfl, rfl, hterminate⟩
  all_goals simp_all [Stand.checking, Stand.requesting]

/-- The control thread raises the flag of a request, and waits. -/
theorem control_ask {k : Kind} (h : Orderly w c m) (hs : c.stand = .armed k.event)
    (hk : k = .stateWrite → c.foundStopped = true) :
    Orderly w { c with stand := .waiting k } (m.setFlag k.flag true) := by
  obtain ⟨hl, he, ht⟩ := h
  have hterminate := he.requesting (by simp [hs, Stand.requesting, Stand.checking])
  rw [hs] at ht
  refine ⟨?_, ?_, ht.ask⟩
  · cases k with
    | stateWrite =>
      rw [hs, hk rfl] at hl
      have := hl.acceptWrite
      simpa [Store.setFlag, Kind.flag, hk] using this
    | _ =>
      refine hl.stands (by simp) (by simp [hs])
  · have hwait := fun (hk : Stand.waiting k ≠ .shutting) => he.stands (by simp [hs]) hk fun _ => .inr hterminate
    cases k <;> exact hwait (by simp)

theorem control_exchange {f : Flag} {v : Bool} (h : Orderly w c m)
    (hnext : c.onExchange f v = .go c') : Orderly w c' (m.setFlag f v) := by
  unfold ControlPhase.onExchange at hnext
  split at hnext
  case h_9 hs =>
    cases hnext
    obtain ⟨hl, he, ht⟩ := h
    rw [hs] at hl
    exact ⟨hl.schedule, he.stands (by simp [hs]) (by simp) (by simp [Stand.requesting, Stand.checking]),
      (ht.otherFlag (by simp)).stands (by simp [hs]) (by simp)⟩
  case h_10 hs | h_11 hs =>
    cases hnext
    obtain ⟨hl, he, ht⟩ := h
    exact ⟨hl.stands (by simp) (by simp [hs]), he.shut,
      (ht.otherFlag (by simp)).stands (by simp [hs]) (by simp)⟩
  case h_12 hs | h_13 hs | h_14 hs =>
    cases hnext
    exact h.control_ask hs (by simp)
  case h_15 hs =>
    simp at hnext
    obtain ⟨hf, rfl⟩ := hnext
    exact h.control_ask (k := .stateWrite) hs fun _ => hf
  case h_16 => cases hnext
  all_goals
    cases hnext
    exact ⟨h.1, h.2, h.3.otherFlag (by simp)⟩

/-- **Every operation of the control thread keeps the machine in order.** -/
theorem control (h : Orderly w c m) (hexec : m.effect .control a β o = some (b, m'))
    (hnext : ControlPhase.next β c o b = .go c') : Orderly w c' m' := by
  cases o with
  | load f =>
    cases hexec
    cases f <;> simp at hnext
    case terminateRequested =>
      obtain ⟨hs, hnext⟩ := hnext
      cases hf : m.flags .terminateRequested <;> simp [hf] at hnext <;> subst hnext
      · exact h.control_stands (by simp [hs]) (by simp [hs]) (.inr (.inr ⟨rfl, rfl, hf⟩))
      · exact h
  | exchange f v =>
    cases hexec
    exact h.control_exchange hnext
  | loadState =>
    cases hexec
    obtain ⟨hl, he, ht⟩ := h
    simp at hnext
    split at hnext
    · rename_i hs
      cases hnext
      refine ⟨hl.see (.inl hs), he.stands (by simp [hs]) ?_ ?_, ht.stands (by simp [hs]) ?_⟩ <;>
        split <;> simp [Stand.requesting, Stand.checking]
    · rename_i hs
      cases hnext
      refine ⟨hl.see (.inr hs), he.stands (by simp [hs]) ?_ ?_, ht.stands (by simp [hs]) ?_⟩ <;>
        split <;> simp [Stand.requesting, Stand.checking]
    · rename_i hs
      cases hnext
      rw [hs] at hl
      have := hl.find
      rw [← hs] at this
      exact ⟨this, he, ht⟩
    · cases hnext
  | storeState s =>
    cases hexec
    obtain ⟨hl, he, ht⟩ := h
    simp at hnext
    split at hnext
    · rename_i hs
      simp at hnext
      obtain ⟨rfl, rfl⟩ := hnext
      obtain ⟨ho, -, hf⟩ := ht.nobody (by simp [hs])
      rw [hs] at hl
      refine ⟨hl.announceCold ?_, (he.announce (by simp [hs])).stands (by simp [hs]) (by simp)
        (by simp [Stand.requesting, Stand.checking]), ht.stands (by simp [hs]) (by simp)⟩
      rintro (hw | ⟨s, -, hw⟩)
      · have := hf .stateWrite
        simp_all [Kind.flag]
      · exact absurd (ho.symm.trans hw) (by simp)
    · cases hnext
  | debugInvalidate =>
    cases hexec
    obtain ⟨hl, he, ht⟩ := h
    simp at hnext
    split at hnext
    · cases hnext
      exact ⟨hl, he, ht⟩
    · rename_i hs
      cases hnext
      rw [hs] at hl
      exact ⟨hl.beginCold, he.stands (by simp [hs]) (by simp) (by simp [Stand.requesting, Stand.checking]),
        ht.stands (by simp [hs]) (by simp)⟩
    · cases hnext
  | signal e =>
    simp [-ControlPhase.onSignal] at hnext
    obtain ⟨rfl, hnext⟩ := hnext
    obtain ⟨-, rfl⟩ := Store.effect_signal.mp hexec
    unfold ControlPhase.onSignal at hnext
    split at hnext <;> cases hnext <;> exact ⟨h.1, h.2, h.3.otherEvent (by simp)⟩
  | reset e =>
    simp [-ControlPhase.onReset] at hnext
    obtain ⟨rfl, hnext⟩ := hnext
    obtain ⟨-, rfl⟩ := Store.effect_reset.mp hexec
    obtain ⟨hl, he, ht⟩ := h
    unfold ControlPhase.onReset at hnext
    split at hnext <;> cases hnext <;> rename_i hs <;> rw [hs] at ht <;>
      exact ⟨hl.stands (by simp [hs, Stand.checking]) (by simp [hs]),
        he.stands (by simp [hs]) (by simp) (by simp [hs, Stand.requesting, Stand.checking]),
        ht.freshen (by simp)⟩
  | waitAny es =>
    obtain ⟨hl, he, ht⟩ := h
    simp [-ControlPhase.onWait] at hnext
    unfold ControlPhase.onWait at hnext
    split at hnext
    · rename_i k i hs
      simp at hnext
      obtain ⟨rfl, rfl⟩ := hnext
      obtain ⟨-, -, hsignaled, rfl⟩ := Store.effect_waitAny_signaled.mp hexec
      have hevent : m'.signaled k.event = true := by
        simp [List.findIdx?_cons] at hsignaled
        exact hsignaled.1
      rw [hs] at ht
      have ht' := ht.collect hevent
      obtain ⟨ho, hw, -⟩ := ht'.nobody (by simp)
      refine ⟨hl.stands (by simp) fun _ r hp => ?_, he.stands (by simp [hs]) (by simp)
        (by simp [Stand.requesting, Stand.checking]), ht'⟩
      rcases ht'.restoring r hp with h | h
      · exact absurd (hw.symm.trans h) (by simp)
      · exact absurd (ho.symm.trans h) (by simp)
    · cases hnext
    · cases hnext
  | requestCancel =>
    simp at hnext
    obtain ⟨rfl, hs, rfl⟩ := hnext
    obtain ⟨-, rfl⟩ := Store.effect_requestCancel.mp hexec
    have he := h.2
    rw [hs] at he
    refine ⟨h.1, ?_, h.3⟩
    rw [hs]
    exact he.cancel
  | join =>
    simp at hnext
    obtain ⟨rfl, hs, rfl⟩ := hnext
    obtain ⟨-, hexited, rfl⟩ := Store.effect_join.mp hexec
    obtain ⟨hl, he, ht⟩ := h
    rw [hs, hexited] at he
    refine ⟨hl.stands (by simp) (by simp [hs]), ?_, ht.stands (by simp [hs]) (by simp)⟩
    rw [hexited]
    exact he.join
  | inputClear =>
    cases hexec
    simp at hnext
    split at hnext
    · rename_i hs
      cases hnext
      obtain ⟨hl, he, ht⟩ := h
      rw [hs] at hl
      exact ⟨hl.renewCold rfl, he.stands (by simp [hs]) (by simp) (by simp [Stand.requesting, Stand.checking]),
        ht.stands (by simp [hs]) (by simp)⟩
    · cases hnext
  | inputAdmit accepting =>
    cases hexec
    simp at hnext
    split at hnext <;> simp at hnext
    obtain ⟨-, rfl⟩ := hnext
    exact ⟨h.1, h.2, h.3⟩
  | read f =>
    cases hexec
    simp [-ControlPhase.onRead] at hnext
    unfold ControlPhase.onRead at hnext
    split at hnext <;> cases hnext <;> exact ⟨h.1, h.2, h.3⟩
  | write f v =>
    cases hexec
    simp [-ControlPhase.onWrite] at hnext
    unfold ControlPhase.onWrite at hnext
    split at hnext <;> cases hnext <;> exact ⟨h.1, h.2, h.3⟩
  | lock =>
    obtain ⟨-, rfl⟩ := Store.effect_lock.mp hexec
    cases hnext
    exact ⟨h.1, h.2, h.3⟩
  | nextCall =>
    cases hexec
    obtain ⟨hs, hnext⟩ := allowIf_eq_go.mp hnext
    cases hnext
    simp at hs
    exact h.control_stands (by simp [hs]) (by simp [hs]) (.inl rfl)
  | returned call reply =>
    cases hexec
    obtain ⟨hr, hnext⟩ := allowIf_eq_go.mp hnext
    cases hnext
    have hs : (∀ k, c.stand ≠ .waiting k) ∧ c.stand ≠ .shutting := by
      unfold mayReturn at hr
      constructor <;> intros <;> intro hs <;> simp [hs] at hr
    exact h.control_stands hs.1 hs.2 (.inl rfl)
  | addRunGeneration =>
    cases hexec
    simp at hnext
    obtain ⟨⟨hs, -⟩, rfl⟩ := hnext
    obtain ⟨hl, he, ht⟩ := h
    rw [hs] at hl
    exact ⟨hl.renewCold rfl, he.stands (by simp [hs]) (by simp) (by simp [Stand.requesting, Stand.checking]),
      ht.stands (by simp [hs]) (by simp)⟩
  | loadDebugGeneration | unlock | invalidatePublishedFrame | requestStop | requestWake =>
    cases hexec
    cases hnext
    exact ⟨h.1, h.2, h.3⟩
  | _ => cases hnext

end Control

/-! ## The other threads -/

theorem producer {n : ℕ} {u : Unit} (h : Orderly w c m)
    (hexec : m.effect (.producer n) a β o = some (b, m')) (hnext : producerNext β () o b = .go u) :
    Orderly w c m' := by
  cases producerNext_produces hnext nofun with
  | nextInput | inputPush event | requestWake =>
    cases hexec
    exact ⟨h.1, h.2, h.3⟩

theorem canceller {n : ℕ} {u : Unit} (h : Orderly w c m)
    (hexec : m.effect (.canceller n) a β o = some (b, m')) (hnext : cancellerNext β () o b = .go u) :
    Orderly w c m' := by
  cases cancellerNext_cancels hnext nofun with
  | exchange =>
    cases hexec
    exact ⟨h.1, h.2, h.3.otherFlag (by simp)⟩
  | signal =>
    obtain ⟨rfl, -⟩ := unlessFailed_eq_go.mp hnext
    obtain ⟨-, rfl⟩ := Store.effect_signal.mp hexec
    exact ⟨h.1, h.2, h.3.otherEvent (.inl rfl)⟩
  | requestWake =>
    cases hexec
    exact h

theorem viewer {n : ℕ} {u : Unit} (h : Orderly w c m)
    (hexec : m.effect (.viewer n) a β o = some (b, m')) (hnext : viewerNext β () o b = .go u) :
    Orderly w c m' := by
  cases viewerNext_views hnext nofun with
  | nextView | view v =>
    cases hexec
    exact ⟨h.1, h.2, h.3⟩

end Orderly

/-! ## What the worker has read of the state -/

/-- The operations that read or write the state. -/
def Op.onState : ∀ {β : Type}, Op β → Bool
  | _, .loadState | _, .storeState _ | _, .compareExchangeState _ _ => true
  | _, _ => false

/-- Only these write it. -/
theorem Store.effect_state {β : Type} {m m' : Store} {t : Tid} {a : Answer} {o : Op β} {b : β}
    (hexec : m.effect t a β o = some (b, m')) (ho : o.onState = false) : m'.state = m.state :=
  (Store.effect_leaves hexec).state fun hw => by cases hw <;> cases ho

/-- What the worker has read of the state still holds: only STOPPED can change under it. -/
def Known (w : WorkerPhase) (m : Store) : Prop :=
  ∀ s, w.checks.state = some s → s ≠ .stopped → m.state = s

namespace Known

variable {β : Type} {w w' : WorkerPhase} {c c' : ControlPhase} {m m' : Store} {o : Op β}
  {a : Answer} {b : β}

section Worker

open WorkerPhase WorkerPhase.Stepping

/-- The worker keeps or forgets what it has read of the state, until it reads or writes it. -/
theorem next_checks (ho : o.onState = false) :
    (WorkerPhase.next β w o b).Lands fun w' =>
      w'.checks.state = w.checks.state ∨ w'.checks.state = none := by
  cases o with
  | exchange f v => cases f <;> cases v <;> simp <;> split <;> simp
  | load f => cases f <;> simp
  | write f v => cases f <;> simp <;> split <;> simp
  | setExecutorCallback installed =>
    cases installed <;> simp
    split <;> simp
  | loadState | storeState s | compareExchangeState expected desired => cases ho
  | _ => simp <;> split <;> simp

theorem worker (hO : Orderly w c m) (h : Known w m)
    (hexec : m.effect .worker a β o = some (b, m')) (hnext : WorkerPhase.next β w o b = .go w') :
    Known w' m' := by
  by_cases ho : o.onState = false
  · unfold Known
    rw [Store.effect_state hexec ho]
    rcases (next_checks ho).go hnext with hc | hc <;> rw [hc]
    · exact h
    · simp
  cases o with
  | loadState =>
    cases hexec
    cases hnext
    simp [Known]
  | storeState s =>
    cases hexec
    simp at hnext
    split at hnext <;> simp at hnext
    case h_7 hp =>
      obtain ⟨hs, rfl⟩ := hnext
      have hstate : m.state = s := by simpa [hp] using hO.ending.saw s hs
      rw [← hstate]
      exact h
    all_goals
      obtain ⟨-, rfl⟩ := hnext
      simp [Known]
  | compareExchangeState expected desired =>
    simp at hnext
    split at hnext <;> simp at hnext <;> obtain ⟨-, rfl⟩ := hnext <;> simp [Known]
  | _ => exact absurd rfl ho

end Worker

/-- Nobody else writes a state that a worker can know. -/
theorem control (hO : Orderly w c m) (h : Known w m)
    (hexec : m.effect .control a β o = some (b, m')) (hnext : ControlPhase.next β c o b = .go c') :
    Known w m' := by
  by_cases ho : o.onState = false
  · unfold Known
    rw [Store.effect_state hexec ho]
    exact h
  cases o with
  | loadState =>
    cases hexec
    exact h
  | storeState s =>
    cases hexec
    simp only [ControlPhase.next] at hnext
    split at hnext
    · rename_i hs
      obtain ⟨-, -, hstate⟩ := hO.lifecycle.cold _ hs
      intro s' hs' hstopped
      exact absurd ((h s' hs' hstopped).symm.trans hstate) hstopped
    · cases hnext
  | compareExchangeState expected desired => cases hnext
  | _ => exact absurd rfl ho

theorem other (h : Known w m) (hstate : m'.state = m.state) : Known w m' := by
  unfold Known
  rw [hstate]
  exact h

end Known

end SoftPC.Machine
