import SoftPC.Machine.Steps

/-!
# Machine/Run — what holds after every run

Every run without a native failure of the synchronization library leaves the machine in order
(`runs_orderly`), and keeps whatever else its operations keep (`runs_keep`).
-/

namespace SoftPC.Machine

open SoftPC.Threads

section Fault

variable {β : Type} {t : Tid} {o : Op β} {a : Answer} {b : β} {m m' : Store}

/-! ## Native failures -/

theorem native_fault {success : Store} {s : Status}
    (h : m.native a.fails Status.ioError (.ok, success) = some (s, m')) (hs : s ≠ .ok) :
    m'.nativeFault = true := by
  unfold Store.native at h
  split at h <;> cases h
  · rfl
  · exact absurd rfl hs

/-- The worker's protocol ends only with a native failure. -/
theorem fault_worker {w : WorkerPhase} (hexec : m.effect .worker a β o = some (b, m'))
    (hnext : WorkerPhase.next β w o b = .void) : m'.nativeFault = true := by
  cases o with
  | signal e =>
    rcases unlessFailed_eq_void hnext with hb | hb
    · exact native_fault hexec hb
    · unfold WorkerPhase.onSignal at hb
      split at hb <;> simp at hb
  | reset e =>
    rcases unlessFailed_eq_void hnext with hb | hb
    · exact native_fault hexec hb
    · simp at hb
  | waitAny es =>
    cases b with
    | fault => exact Store.effect_waitAny_fault hexec ▸ rfl
    | signaled i => cases hnext
    | cancelled =>
      simp [WorkerPhase.next, WorkerPhase.act, WorkerPhase.onWait] at hnext
      split at hnext <;> cases hnext
  | exchange f v =>
    exfalso
    cases f <;> cases v <;>
      simp [WorkerPhase.next, WorkerPhase.act, WorkerPhase.onExchange, WorkerPhase.claim] at hnext <;>
      (repeat' split at hnext) <;> simp at hnext
  | write f v =>
    exfalso
    by_cases hf : f = .stateReadContinuing
    · subst hf
      cases hnext
    · rw [WorkerPhase.next_write w hf] at hnext
      cases f <;> simp [WorkerPhase.onWrite, WorkerPhase.onWriteStateStatus, WorkerPhase.record] at hnext <;>
        (repeat' split at hnext) <;> simp at hnext
  | setExecutorCallback installed =>
    exfalso
    cases installed <;> simp [WorkerPhase.next, WorkerPhase.act, WorkerPhase.onUninstall] at hnext
    split at hnext <;> simp at hnext
  | _ =>
    exfalso
    simp [WorkerPhase.next, WorkerPhase.act, WorkerPhase.onLoad, WorkerPhase.onStoreState,
      WorkerPhase.onCompareExchange, WorkerPhase.onInvalidate, WorkerPhase.onRead,
      WorkerPhase.onClear, WorkerPhase.onCount, WorkerPhase.onExecute] at hnext <;>
    (repeat' split at hnext) <;> simp at hnext

/-- … and so does the control thread's: no wait of its own is ever cancelled. -/
theorem fault_control {w : WorkerPhase} {c : ControlPhase} (h : Orderly w c m)
    (hexec : m.effect .control a β o = some (b, m'))
    (hnext : ControlPhase.next β c o b = .void) : m'.nativeFault = true := by
  cases o with
  | signal e =>
    rcases unlessFailed_eq_void hnext with hb | hb
    · exact native_fault hexec hb
    · unfold ControlPhase.onSignal at hb
      split at hb <;> cases hb
  | reset e =>
    rcases unlessFailed_eq_void hnext with hb | hb
    · exact native_fault hexec hb
    · unfold ControlPhase.onReset at hb
      split at hb <;> cases hb
  | requestCancel =>
    rcases unlessFailed_eq_void hnext with hb | hb
    · exact native_fault hexec hb
    · simp at hb
  | join =>
    rcases unlessFailed_eq_void hnext with hb | hb
    · unfold Store.effect at hexec
      cases hf : a.fails <;> cases he : m.exited <;> simp [hf, he] at hexec <;>
        obtain ⟨rfl, rfl⟩ := hexec
      · exact absurd rfl hb
      · rfl
      · rfl
    · simp at hb
  | waitAny es =>
    cases b with
    | fault => exact Store.effect_waitAny_fault hexec ▸ rfl
    | signaled i =>
      simp [ControlPhase.next, ControlPhase.onWait] at hnext
      split at hnext <;> simp_all
    | cancelled =>
      obtain ⟨-, hcancelled, -⟩ := Store.effect_waitAny_cancelled.mp hexec
      have hterminate := h.ending.cancelling hcancelled
      exfalso
      simp [ControlPhase.next, ControlPhase.onWait] at hnext
      split at hnext <;> simp at hnext
      rename_i hs _
      have := h.ending.requesting (by simp [hs, Stand.requesting])
      exact absurd (hterminate.symm.trans this) (by simp)
  | exchange f v =>
    exfalso
    simp only [ControlPhase.next] at hnext
    unfold ControlPhase.onExchange at hnext
    split at hnext <;> simp at hnext
  | _ =>
    exfalso
    simp [ControlPhase.next, ControlPhase.onLoad, ControlPhase.onLoadState, ControlPhase.onInvalidate,
      ControlPhase.onRead, ControlPhase.onWrite] at hnext <;>
    (repeat' split at hnext) <;> simp at hnext

end Fault

theorem fault_step {t : Tid} {a : Answer} {c c' : Config Tid Op Store}
    (h : c.store.nativeFault = true) (hstep : step exec t a c = some c') :
    c'.store.nativeFault = true := by
  rcases step_cases hstep with ⟨β, o, k, b, m', -, hexec, rfl⟩ | ⟨β, γ, body, x, k, -, rfl⟩
  · obtain ⟨m₀, heffect, rfl⟩ := exec_eq_some.mp hexec
    have hfault : m₀.nativeFault = true := (Store.effect_leaves heffect).fault h
    exact hfault
  · exact h

/-- **What has been seen stays seen**: a run only adds to it. -/
theorem trace_grows {schedule : List (Tid × Answer)} {c c' : Config Tid Op Store}
    (hrun : run exec schedule c = some c') : ∃ seen, c'.store.trace = seen ++ c.store.trace := by
  refine run_invariant (P := fun d => ∃ seen, d.store.trace = seen ++ c.store.trace) ?_ ⟨[], rfl⟩ hrun
  rintro t a d d' ⟨seen, hseen⟩ hstep
  rcases step_cases hstep with ⟨β, o, k, b, m', -, hexec, rfl⟩ | ⟨β, γ, body, x, k, -, rfl⟩
  · obtain ⟨m₀, heffect, rfl⟩ := exec_eq_some.mp hexec
    refine ⟨d.store.observe t β o b ++ seen, ?_⟩
    rw [List.append_assoc, ← hseen, ← (Store.effect_leaves heffect).trace]
  · exact ⟨seen, hseen⟩

/-! ## Runs -/

/-- The threads' phases and the store are in order. -/
def orderly (φ : ∀ t, Phase t) (m : Store) : Prop := Orderly (φ .worker) (φ .control) m

/-- A native failure has happened. -/
def faulty (m : Store) : Prop := m.nativeFault = true

/-- **Every operation keeps the machine in order**, or is a native failure. -/
theorem tracking : Tracking exec next orderly faulty where
  keep {t β o a b m m' φ p} h hexec hnext := by
    obtain ⟨m₀, heffect, rfl⟩ := exec_eq_some.mp hexec
    refine .inr ?_
    unfold orderly at h ⊢
    cases t with
    | worker =>
      obtain ⟨hl, he, ht⟩ := h.worker heffect hnext
      simpa using ⟨hl, he, ht⟩
    | control =>
      obtain ⟨hl, he, ht⟩ := h.control heffect hnext
      simpa using ⟨hl, he, ht⟩
    | producer n =>
      obtain ⟨hl, he, ht⟩ := h.producer heffect hnext
      simpa using ⟨hl, he, ht⟩
    | canceller n =>
      obtain ⟨hl, he, ht⟩ := h.canceller heffect hnext
      simpa using ⟨hl, he, ht⟩
    | viewer n =>
      obtain ⟨hl, he, ht⟩ := h.viewer heffect hnext
      simpa using ⟨hl, he, ht⟩
  void {t β o a b m m' φ} h hexec hnext := by
    obtain ⟨m₀, heffect, rfl⟩ := exec_eq_some.mp hexec
    have hfault : m₀.nativeFault = true := by
      cases t with
      | worker => exact fault_worker heffect hnext
      | control => exact fault_control h heffect hnext
      | producer n => cases producerNext_produces hnext nofun <;> cases hnext
      | viewer n => cases viewerNext_views hnext nofun <;> cases hnext
      | canceller n =>
        cases cancellerNext_cancels hnext nofun with
        | signal =>
          rcases unlessFailed_eq_void hnext with hb | hb
          · exact native_fault heffect hb
          · cases hb
        | exchange | requestWake => cases hnext
    exact hfault
  spoilt_mono {t β o a b m m'} h hexec := by
    obtain ⟨m₀, heffect, rfl⟩ := exec_eq_some.mp hexec
    have hfault : m₀.nativeFault = true := (Store.effect_leaves heffect).fault h
    exact hfault

/-- A further invariant of the two main threads, as their operations keep it: what an operation does
to the store, and what is seen of it. -/
structure Kept (J : WorkerPhase → ControlPhase → Store → Prop) : Prop where
  worker : ∀ {β : Type} {o : Op β} {a : Answer} {b : β} {w w' : WorkerPhase} {c : ControlPhase}
    {m m' : Store}, Orderly w c m → J w c m → m.effect .worker a β o = some (b, m') →
    WorkerPhase.next β w o b = .go w' →
    J w' c { m' with trace := m.observe .worker β o b ++ m'.trace }
  control : ∀ {β : Type} {o : Op β} {a : Answer} {b : β} {w : WorkerPhase} {c c' : ControlPhase}
    {m m' : Store}, Orderly w c m → J w c m → m.effect .control a β o = some (b, m') →
    ControlPhase.next β c o b = .go c' →
    J w c' { m' with trace := m.observe .control β o b ++ m'.trace }
  producer : ∀ {n : ℕ} {β : Type} {o : Op β} {a : Answer} {b : β} {w : WorkerPhase}
    {c : ControlPhase} {m m' : Store}, Orderly w c m → J w c m →
    m.effect (.producer n) a β o = some (b, m') → producerNext β () o b = .go () →
    J w c { m' with trace := m.observe (.producer n) β o b ++ m'.trace }
  canceller : ∀ {n : ℕ} {β : Type} {o : Op β} {a : Answer} {b : β} {w : WorkerPhase}
    {c : ControlPhase} {m m' : Store}, Orderly w c m → J w c m →
    m.effect (.canceller n) a β o = some (b, m') → cancellerNext β () o b = .go () →
    J w c { m' with trace := m.observe (.canceller n) β o b ++ m'.trace }
  viewer : ∀ {n : ℕ} {β : Type} {o : Op β} {a : Answer} {b : β} {w : WorkerPhase}
    {c : ControlPhase} {m m' : Store}, Orderly w c m → J w c m →
    m.effect (.viewer n) a β o = some (b, m') → viewerNext β () o b = .go () →
    J w c { m' with trace := m.observe (.viewer n) β o b ++ m'.trace }

variable {J : WorkerPhase → ControlPhase → Store → Prop}

theorem Kept.tracking (hJ : Kept J) :
    Tracking exec next (fun φ m => orderly φ m ∧ J (φ .worker) (φ .control) m) faulty :=
  Machine.tracking.and fun {t β o a b m m' φ p} hI h hexec hnext => by
    obtain ⟨m₀, heffect, rfl⟩ := exec_eq_some.mp hexec
    cases t with
    | worker => simpa using hJ.worker hI h heffect hnext
    | control => simpa using hJ.control hI h heffect hnext
    | producer n => simpa using hJ.producer hI h heffect hnext
    | canceller n => simpa using hJ.canceller hI h heffect hnext
    | viewer n => simpa using hJ.viewer hI h heffect hnext

/-- **What the operations keep holds after every run** without a native failure. -/
theorem runs_keep (hJ : Kept J) (hboot : J {} {} .created) {hooks : Hooks}
    {schedule : List (Tid × Answer)} {c : Config Tid Op Store}
    (hrun : runs hooks schedule = some c) (hfault : c.store.nativeFault = false) :
    ∃ w p, Orderly w p c.store ∧ J w p c.store ∧
      Follows WorkerPhase.next (c.code .worker) (fun _ _ => True) w := by
  have horderly : orderly bootPhase .created := by
    refine ⟨?_, ?_, ?_⟩ <;> constructor <;> simp [bootPhase, Store.created, WorkerPhase.writes,
      Place.quiet, Place.calm, Stand.checking, Stand.requesting]
  have hstart : Tracked next (fun φ m => orderly φ m ∧ J (φ .worker) (φ .control) m) faulty
      (boot hooks) := .inr ⟨bootPhase, ⟨horderly, hboot⟩, follows_code hooks⟩
  rcases run_tracked hJ.tracking hstart hrun with h | ⟨φ, ⟨hI, h⟩, hF⟩
  · exact absurd (hfault.symm.trans h) (by simp)
  · exact ⟨φ .worker, φ .control, hI, h, hF .worker⟩

end SoftPC.Machine
