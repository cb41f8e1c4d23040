import SoftPC.Machine.Delivery

/-!
# Machine/Lease — a debug plan runs only under its lease

Between its claim of a debug request and `execute_debug` the worker reads the state, the pause request,
the request's lease and the generation.  Each is still what it was when the driver is called: the
control thread waits for the answer, and nobody else writes them.
-/

namespace SoftPC.Machine

open SoftPC.Threads

/-- The worker owes a debug request. -/
def owesDebug (owes : Option (Kind × Stage)) : Bool := owes.any (·.1 = .debug)

@[simp] theorem owesDebug_none : owesDebug none = false := rfl

@[simp] theorem owesDebug_some (k : Kind) (s : Stage) : owesDebug (some (k, s)) = decide (k = .debug) := rfl

/-- What the worker has read for a debug request still holds. -/
structure Checks.Fresh (checks : Checks) (m : Store) : Prop where
  pause : checks.pause = true → m.flags .pauseRequested = true
  lease : ∀ l, checks.lease = some l → m.fields .debugLease = l
  generation : ∀ g, checks.generation = some g → m.debugGeneration = g

/-- **Every plan that ran had its lease**, and the one under way still has it. -/
structure Leased (w : WorkerPhase) (_ : ControlPhase) (m : Store) : Prop where
  known : Known w m
  fresh : owesDebug w.owes = true → w.checks.Fresh m
  ran : ∀ s p l g, .debugRan s p l g ∈ m.trace → s = .paused ∧ p = true ∧ l = g.toUInt64

/-- The operations that read or write what a lease rests on. -/
def Op.onLease : ∀ {β : Type}, Op β → Bool
  | _, .load f | _, .exchange f _ => f = .pauseRequested
  | _, .read f | _, .write f _ => f = .debugLease
  | _, .debugInvalidate | _, .loadDebugGeneration => true
  | _, _ => false

/-- The call of `execute_debug`. -/
def Op.isPlan : ∀ {β : Type}, Op β → Bool
  | _, .executeDebug _ _ => true
  | _, _ => false

section Operations

variable {β : Type} {t : Tid} {o : Op β} {a : Answer} {b : β} {w w' : WorkerPhase}
  {c c' : ControlPhase} {m m' : Store}

section Worker

open WorkerPhase WorkerPhase.Stepping

/-- While it owes a debug request, the worker keeps what it has read, or forgets it. -/
theorem next_onLease (ho : o.onLease = false) :
    (WorkerPhase.next β w o b).Lands fun w' => owesDebug w'.owes = false ∨ w'.checks = {} ∨
      owesDebug w'.owes = owesDebug w.owes ∧ w'.checks.pause = w.checks.pause ∧
        w'.checks.lease = w.checks.lease ∧ w'.checks.generation = w.checks.generation := by
  cases o with
  | exchange f v =>
    cases f <;> first | (cases ho; done) | cases v <;> simp
    all_goals split <;> simp
  | load f => cases f <;> first | (cases ho; done) | simp
  | write f v => cases f <;> first | (cases ho; done) | (simp <;> split <;> simp [*])
  | read f => cases f <;> first | (cases ho; done) | simp
  | signal e => simp; split <;> simp
  | setExecutorCallback installed =>
    cases installed <;> simp
    split <;> simp
  | setRemovableMedia path mode | writeState reader | executeDebug request capacity =>
    simp +contextual
  | _ => first | (cases ho; done) | (simp <;> split <;> simp)

end Worker

/-- Only these write what a lease rests on. -/
theorem Checks.Fresh.other {checks : Checks} (h : checks.Fresh m) (ho : o.onLease = false)
    (hexec : m.effect t a β o = some (b, m')) : checks.Fresh m' := by
  have hleaves := Store.effect_leaves hexec
  have hflag := hleaves.flags .pauseRequested fun hw => by cases hw; cases ho
  have hfield := hleaves.fields .debugLease fun hw => by cases hw; cases ho
  have hcount := hleaves.generation fun hw => by cases hw; cases ho
  exact ⟨fun hp => hflag.trans (h.pause hp), fun l hl => hfield.trans (h.lease l hl),
    fun g hg => hcount.trans (h.generation g hg)⟩

/-- What is seen of a step, once what the worker has read still holds. -/
theorem Leased.step (h : Leased w c m) (hknown : Known w' m')
    (hfresh : owesDebug w'.owes = true → w'.checks.Fresh m')
    (hran : o.isPlan = true → m.state = .paused ∧ m.flags .pauseRequested = true ∧
      m.fields .debugLease = m.debugGeneration.toUInt64) (hexec : m.effect t a β o = some (b, m')) :
    Leased w' c' { m' with trace := m.observe t β o b ++ m'.trace } := by
  refine ⟨hknown, fun ho => ⟨(hfresh ho).1, (hfresh ho).2, (hfresh ho).3⟩, fun s p l g hg => ?_⟩
  rw [(Store.effect_leaves hexec).trace] at hg
  refine (List.mem_append.mp hg).elim (fun hg => ?_) (h.ran s p l g)
  cases Store.mem_observe hg with
  | debugRan request capacity =>
    rcases List.mem_cons.mp hg with hg | hg
    · cases hg
      exact hran rfl
    · cases List.mem_singleton.mp hg

section Worker

open WorkerPhase

attribute [local simp] WorkerPhase.next act onLoad onExchange onInvalidate onWrite onRead

theorem leased_worker (hO : Orderly w c m) (h : Leased w c m)
    (hexec : m.effect .worker a β o = some (b, m')) (hnext : WorkerPhase.next β w o b = .go w') :
    Leased w' c { m' with trace := m.observe .worker β o b ++ m'.trace } := by
  have hknown := h.known.worker hO hexec hnext
  refine h.step hknown (fun hd => ?_) (fun hp => ?_) hexec
  · by_cases ho : o.onLease = false
    · rcases (next_onLease ho).go hnext with hd' | he | ⟨hd', hpause, hlease, hgeneration⟩
      · cases hd.symm.trans hd'
      · rw [he]
        constructor <;> simp
      · obtain ⟨h₁, h₂, h₃⟩ := (h.fresh (hd'.symm.trans hd)).other ho hexec
        exact ⟨hpause ▸ h₁, hlease ▸ h₂, hgeneration ▸ h₃⟩
    · cases o with
      | load f =>
        cases hexec
        cases of_not_not (ho ∘ decide_eq_false)
        cases hnext
        exact { h.fresh hd with pause := id }
      | read f =>
        cases hexec
        cases of_not_not (ho ∘ decide_eq_false)
        cases hnext
        exact { h.fresh hd with lease := fun l hl => Option.some.inj hl }
      | loadDebugGeneration =>
        cases hexec
        cases hnext
        exact { h.fresh hd with generation := fun g hg => Option.some.inj hg }
      | exchange f v =>
        cases of_not_not (ho ∘ decide_eq_false)
        cases v <;> cases hnext <;> constructor <;> simp
      | write f v =>
        cases of_not_not (ho ∘ decide_eq_false)
        cases hnext
      | debugInvalidate =>
        simp at hnext
        split at hnext <;> simp at hnext
        · subst hnext
          constructor <;> simp
        · subst hnext
          constructor <;> simp
        · obtain ⟨-, rfl⟩ := hnext
          constructor <;> simp
      | _ => exact absurd rfl ho
  · cases o with
    | executeDebug request capacity =>
      simp at hnext
      obtain ⟨⟨howes, hpassed⟩, -⟩ := hnext
      obtain ⟨hpause, hlease, hgeneration⟩ := h.fresh (by rw [howes]; rfl)
      simp [Checks.passed, Option.isSome_iff_exists] at hpassed
      obtain ⟨⟨⟨hs, hp⟩, g, hg⟩, hl⟩ := hpassed
      rw [hg] at hl
      exact ⟨h.known _ hs (by simp), hpause hp, (hlease _ hl).trans (by rw [hgeneration g hg])⟩
    | _ => cases hp

end Worker

/-- While the control thread waits for an answer it touches no lease. -/
theorem leased_control (hO : Orderly w c m) (h : Leased w c m)
    (hexec : m.effect .control a β o = some (b, m')) (hnext : ControlPhase.next β c o b = .go c') :
    Leased w c' { m' with trace := m.observe .control β o b ++ m'.trace } := by
  refine h.step (h.known.control hO hexec hnext) (fun hd => ?_) (fun hp => ?_) hexec
  · have hkeep : o.onLease = false → w.checks.Fresh m' := fun ho => (h.fresh hd).other ho hexec
    obtain ⟨⟨k, s⟩, ho, -⟩ := (Option.any_eq_true _ _).mp hd
    have hs : c.stand = .waiting k := (hO.tokens.owed k s ho).1
    cases o with
    | load f | read f | loadDebugGeneration =>
      cases hexec
      exact h.fresh hd
    | exchange f v =>
      cases f <;> first | exact hkeep rfl | skip
      simp [ControlPhase.next, ControlPhase.onExchange, hs] at hnext
    | write f v =>
      cases f <;> first | exact hkeep rfl | simp [ControlPhase.next, ControlPhase.onWrite, hs] at hnext
    | debugInvalidate => simp [ControlPhase.next, ControlPhase.onInvalidate, hs] at hnext
    | _ => exact hkeep rfl
  · cases o with
    | executeDebug request capacity => cases hnext
    | _ => cases hp

/-- The other threads touch no lease. -/
theorem Leased.other (h : Leased w c m)
    (ho : o.onLease = false ∧ o.onState = false ∧ o.isPlan = false)
    (hexec : m.effect t a β o = some (b, m')) :
    Leased w c { m' with trace := m.observe t β o b ++ m'.trace } :=
  h.step (h.known.other (Store.effect_state hexec ho.2.1)) (fun hd => (h.fresh hd).other ho.1 hexec)
    (fun hp => by cases ho.2.2.symm.trans hp) hexec

theorem leased_kept : Kept Leased where
  worker := leased_worker
  control := leased_control
  producer _ h hexec hnext :=
    h.other (by cases producerNext_produces hnext nofun <;> exact ⟨rfl, rfl, rfl⟩) hexec
  canceller _ h hexec hnext :=
    h.other (by cases cancellerNext_cancels hnext nofun <;> exact ⟨rfl, rfl, rfl⟩) hexec
  viewer _ h hexec hnext :=
    h.other (by cases viewerNext_views hnext nofun <;> exact ⟨rfl, rfl, rfl⟩) hexec

end Operations

/-- **A debug plan runs only under its lease.**  In every run without a native failure, each time the
driver executes a debug plan the machine is PAUSED, the pause is still asked for, and the lease of the
request is the current one. -/
theorem plans_run_leased {hooks : Hooks} {schedule : List (Tid × Answer)} {c : Config Tid Op Store}
    (hrun : runs hooks schedule = some c) (hfault : c.store.nativeFault = false) {s p l g}
    (hran : .debugRan s p l g ∈ c.store.trace) : s = .paused ∧ p = true ∧ l = g.toUInt64 := by
  have hboot : Leased {} {} .created := ⟨by simp [Known], by simp, by simp [Store.created]⟩
  obtain ⟨w, d, -, h, -⟩ := runs_keep leased_kept hboot hrun hfault
  exact h.ran s p l g hran

/-- A machine is started, pauses, and is asked for a debug plan under its lease. -/
def planned : List (Tid × Answer) :=
  moves .control 1 {} ++ moves .control 1 { call := .start } ++ moves .control 13 {} ++
    moves .worker 21 { yes := true, callback := true } ++ moves .control 5 {} ++
    moves .worker 21 { yes := true, callback := true } ++
    moves .control 14 { call := .debugExecute ⟨some 2, .bytes [], .bytes [], true⟩ } ++
    moves .worker 28 {}

theorem plans_run_leased_once :
    ∃ c s p l g, runs { Hooks.bare with executeDebug := true } planned = some c ∧
      Obs.debugRan s p l g ∈ c.store.trace ∧ s = .paused ∧ p = true ∧ l = g.toUInt64 := by
  have hany : (runs { Hooks.bare with executeDebug := true } planned).any (fun c =>
      c.store.trace.head? = some (.debugRan .paused true 2 2) ∧ c.store.nativeFault = false) = true := by
    decide
  obtain ⟨c, hrun, hc⟩ := (Option.any_eq_true _ _).mp hany
  obtain ⟨hhead, hfault⟩ := of_decide_eq_true hc
  have hran := List.mem_of_head? hhead
  exact ⟨c, _, _, _, _, hrun, hran, plans_run_leased hrun hfault hran⟩

end SoftPC.Machine
