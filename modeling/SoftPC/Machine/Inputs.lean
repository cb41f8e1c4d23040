import SoftPC.Machine.Run

/-!
# Machine/Inputs — inputs reach the driver in order, and never cross a cold run

The inputs that the queue accepts and those the driver is given, since the last cold run, are read
off what the outside sees.  While a run lasts they differ by what the queue holds (`Inputs.kept`);
the queue is cleared before the next cold run is counted, with admission closed until it is live.
-/

namespace SoftPC.Machine

open SoftPC.Threads

/-! ## The ledger -/

/-- The inputs accepted since the last cold run, oldest first. -/
def acceptedInRun : List Obs → List InputEvent
  | [] => []
  | .coldRun :: _ => []
  | .accepted event :: trace => acceptedInRun trace ++ [event]
  | _ :: trace => acceptedInRun trace

/-- The inputs delivered since the last cold run, oldest first. -/
def deliveredInRun : List Obs → List InputEvent
  | [] => []
  | .coldRun :: _ => []
  | .delivered event :: trace => deliveredInRun trace ++ [event]
  | _ :: trace => deliveredInRun trace

/-- An observation that the ledger reads. -/
def Obs.isInput : Obs → Bool
  | .coldRun | .accepted _ | .delivered _ => true
  | _ => false

theorem inRun_quiet {obs : List Obs} (trace : List Obs) (h : ∀ x ∈ obs, x.isInput = false) :
    acceptedInRun (obs ++ trace) = acceptedInRun trace ∧
      deliveredInRun (obs ++ trace) = deliveredInRun trace := by
  induction obs with
  | nil => exact ⟨rfl, rfl⟩
  | cons x obs ih =>
    obtain ⟨ha, hd⟩ := ih fun y hy => h y (List.mem_cons_of_mem x hy)
    have hx := h x List.mem_cons_self
    rw [List.cons_append, ← ha, ← hd]
    cases x <;> first | exact ⟨rfl, rfl⟩ | cases hx

/-! ## The invariant -/

/-- A cold run is being started, and has come this far. -/
def Renewing (place : Place) (stand : Stand) (r : Renewal) : Prop :=
  place = .recycling r ∨ place = .restoring r ∨ stand = .cold r

/-- **Where the inputs of a run are.** -/
structure Inputs (place : Place) (stand : Stand) (state : State) (admits : Bool)
    (hand : Option InputEvent) (queue : InputQueue) (accepted delivered : List InputEvent) : Prop where
  accepts : queue.accepting = true → admits = true
  admits : admits = true → place = .live
  held : hand ≠ none → place = .live ∧ state = .running
  cleared : ∀ r, Renewing place stand r → r ≠ .opened → queue.contents = [] ∧ delivered <+: accepted
  counted : Renewing place stand .counted → accepted = [] ∧ delivered = []
  kept : (∀ r, Renewing place stand r → r = .opened) →
    accepted = delivered ++ hand.toList ++ queue.contents

namespace Inputs

variable {place : Place} {stand : Stand} {state : State} {admits : Bool}
  {hand : Option InputEvent} {queue : InputQueue} {accepted delivered : List InputEvent}

attribute [local grind] Renewing

/-- Outside a run there is nothing in hand. -/
theorem empty_handed (h : Inputs place stand state admits hand queue accepted delivered)
    (hp : place ≠ .live) : hand = none := by
  by_contra hh
  exact hp (h.held hh).1

theorem closed (h : Inputs place stand state admits hand queue accepted delivered)
    (hp : place ≠ .live) : admits = false :=
  Bool.eq_false_iff.mpr fun ha => hp (h.admits ha)

/-- The threads move on: a cold run is entered at its beginning and left when it is counted, and a
run is left with admission closed and nothing in hand. -/
theorem move {place' : Place} {stand' : Stand}
    (h : Inputs place stand state admits hand queue accepted delivered)
    (hlive : place = .live → place' = .live ∨ (admits = false ∧ hand = none))
    (henter : ∀ r, Renewing place' stand' r → r = .opened ∨ Renewing place stand r)
    (hleave : ∀ r, Renewing place stand r → Renewing place' stand' r ∨ r = .opened ∨
      r = .counted ∧ place ≠ .live) :
    Inputs place' stand' state admits hand queue accepted delivered := by
  have hhand := h.empty_handed
  obtain ⟨haccepts, hadmits, hheld, hcleared, hcounted, hkept⟩ := h
  refine ⟨haccepts, by grind -linarith, by grind -linarith, fun r hr hro => ?_, fun hr => ?_, fun hall => ?_⟩
  · exact hcleared r ((henter r hr).resolve_left hro) hro
  · exact hcounted ((henter _ hr).resolve_left (by simp))
  · by_cases hold : ∀ r, Renewing place stand r → r = .opened
    · exact hkept hold
    · push Not at hold
      obtain ⟨r, hr, hro⟩ := hold
      rcases hleave r hr with hr' | hr' | ⟨rfl, hp⟩
      · exact absurd (hall r hr') hro
      · exact absurd hr' hro
      · obtain ⟨rfl, rfl⟩ := hcounted hr
        simp [(hcleared _ hr hro).1, hhand hp]

/-- The state changes with nothing in hand. -/
theorem setState {s : State} (h : Inputs place stand state admits hand queue accepted delivered)
    (hh : hand = none) : Inputs place stand s admits hand queue accepted delivered :=
  { h with held := fun hne => absurd hh hne }

theorem admitInput {b : Bool} (h : Inputs place stand state admits hand queue accepted delivered)
    (hb : b = true → place = .live) :
    Inputs place stand state b hand (queue.admitInput b) accepted delivered := by
  obtain ⟨haccepts, hadmits, hheld, hcleared, hcounted, hkept⟩ := h
  refine ⟨?_, hb, hheld, ?_, hcounted, ?_⟩
  · simp
  · simpa using hcleared
  · simpa using hkept

/-- Anybody may close admission. -/
theorem close (h : Inputs place stand state admits hand queue accepted delivered) :
    Inputs place stand state admits hand (queue.admitInput false) accepted delivered :=
  { h.admitInput (b := false) nofun with accepts := nofun, admits := h.admits }

theorem push {event : InputEvent} (h : Inputs place stand state admits hand queue accepted delivered)
    (hcold : place = .live → ∀ r, stand ≠ .cold r) (hp : (queue.push event).1 = .ok) :
    Inputs place stand state admits hand (queue.push event).2 (accepted ++ [event]) delivered := by
  obtain ⟨haccepts, hadmits, hheld, hcleared, hcounted, hkept⟩ := h
  have hlive : place = .live := hadmits (haccepts (InputQueue.accepting_of_push hp))
  have hnone : ∀ r, ¬Renewing place stand r := by grind -linarith
  refine ⟨by simpa using haccepts, hadmits, hheld, fun r hr => absurd hr (hnone r),
    fun hr => absurd hr (hnone _), fun _ => ?_⟩
  rw [hkept fun r hr => absurd hr (hnone r), InputQueue.push_accepted hp]
  simp

theorem pop (h : Inputs place stand .running admits none queue accepted delivered)
    (hlive : place = .live) (hcold : ∀ r, stand ≠ .cold r) :
    Inputs place stand .running admits queue.pop.1 queue.pop.2 accepted delivered := by
  obtain ⟨haccepts, hadmits, hheld, hcleared, hcounted, hkept⟩ := h
  have hnone : ∀ r, ¬Renewing place stand r := by grind -linarith
  refine ⟨by simpa using haccepts, hadmits, fun _ => ⟨hlive, rfl⟩, fun r hr => absurd hr (hnone r),
    fun hr => absurd hr (hnone _), fun _ => ?_⟩
  rw [hkept fun r hr => absurd hr (hnone r), InputQueue.pop_contents queue]
  simp

theorem deliver {event : InputEvent}
    (h : Inputs place stand state admits (some event) queue accepted delivered)
    (hcold : place = .live → ∀ r, stand ≠ .cold r) :
    Inputs place stand state admits none queue accepted (delivered ++ [event]) := by
  obtain ⟨haccepts, hadmits, hheld, hcleared, hcounted, hkept⟩ := h
  have hlive : place = .live := (hheld (by simp)).1
  have hnone : ∀ r, ¬Renewing place stand r := by grind -linarith
  refine ⟨haccepts, hadmits, by simp, fun r hr => absurd hr (hnone r),
    fun hr => absurd hr (hnone _), fun _ => ?_⟩
  rw [hkept fun r hr => absurd hr (hnone r)]
  simp

/-- The queue is cleared. -/
theorem clear {place' : Place} {stand' : Stand}
    (h : Inputs place stand state admits hand queue accepted delivered)
    (hold : ∀ r, Renewing place stand r → r = .opened)
    (hnew : ∀ r, Renewing place' stand' r → r = .cleared)
    (hlive : place ≠ .live) (hr : Renewing place' stand' .cleared) :
    Inputs place' stand' state admits hand queue.clear accepted delivered := by
  have hclosed := h.closed hlive
  have hhand := h.empty_handed hlive
  obtain ⟨haccepts, -, -, hcleared, hcounted, hkept⟩ := h
  refine ⟨by simpa using haccepts, by simp [hclosed], by simp [hhand], fun r hr _ => ⟨by simp, ?_⟩,
    fun hr => absurd (hnew _ hr) (by simp), fun hall => absurd (hall _ hr) (by simp)⟩
  rw [hkept hold, List.append_assoc]
  exact List.prefix_append _ _

/-- STARTING is stored. -/
theorem announce {place' : Place} {stand' : Stand} {s : State}
    (h : Inputs place stand state admits hand queue accepted delivered)
    (hold : Renewing place stand .cleared)
    (hnew : ∀ r, Renewing place' stand' r → r = .announced)
    (hlive : place ≠ .live) (hr : Renewing place' stand' .announced) :
    Inputs place' stand' s admits hand queue accepted delivered := by
  have hclosed := h.closed hlive
  have hhand := h.empty_handed hlive
  obtain ⟨haccepts, -, -, hcleared, hcounted, hkept⟩ := h
  exact ⟨haccepts, by simp [hclosed], by simp [hhand], fun r _ _ => hcleared _ hold (by simp),
    fun hr => absurd (hnew _ hr) (by simp), fun hall => absurd (hall _ hr) (by simp)⟩

/-- The cold run is counted, and the ledger opened anew. -/
theorem count {place' : Place} {stand' : Stand}
    (h : Inputs place stand state admits hand queue accepted delivered)
    (hold : Renewing place stand .announced)
    (hlive : place ≠ .live) (hr : Renewing place' stand' .counted) :
    Inputs place' stand' state admits hand queue [] [] := by
  have hclosed := h.closed hlive
  have hhand := h.empty_handed hlive
  obtain ⟨haccepts, -, -, hcleared, hcounted, hkept⟩ := h
  obtain ⟨hqueue, -⟩ := hcleared _ hold (by simp)
  exact ⟨haccepts, by simp [hclosed], by simp [hhand], fun r _ _ => ⟨hqueue, List.nil_prefix⟩,
    fun _ => ⟨rfl, rfl⟩, fun hall => absurd (hall _ hr) (by simp)⟩

end Inputs

/-! ## The operations -/

/-- The operations on which the inputs depend. -/
def Op.onInput : ∀ {β : Type}, Op β → Bool
  | _, .inputAdmit _ | _, .inputPush _ | _, .inputPop | _, .inputClear | _, .deliverInput _
  | _, .addRunGeneration | _, .storeState _ | _, .compareExchangeState _ _ => true
  | _, _ => false

section Operations

variable {β : Type} {t : Tid} {o : Op β} {a : Answer} {b : β} {w w' : WorkerPhase}
  {c c' : ControlPhase} {m m' : Store}

/-- The others leave the queue, the state and the ledger alone. -/
theorem effect_onInput (ho : o.onInput = false) (hexec : m.effect t a β o = some (b, m')) :
    m'.queue = m.queue ∧ m'.state = m.state ∧
      acceptedInRun (m.observe t β o b ++ m'.trace) = acceptedInRun m.trace ∧
      deliveredInRun (m.observe t β o b ++ m'.trace) = deliveredInRun m.trace := by
  have hquiet : ∀ x ∈ m.observe t β o b, x.isInput = false := fun x hx => by
    cases Store.mem_observe hx with
    | accepted event | delivered event | coldRun => cases ho
    | _ => rfl
  obtain ⟨hA, hD⟩ := inRun_quiet m'.trace hquiet
  have hleaves := Store.effect_leaves hexec
  rw [hA, hD, hleaves.trace]
  exact ⟨hleaves.queue (by rintro ⟨⟩ <;> cases ho), hleaves.state (by rintro ⟨⟩ <;> cases ho), rfl, rfl⟩

section Worker

open WorkerPhase WorkerPhase.Stepping

/-- The moves between places that concern no input. -/
def quietMoves : List (Place × Place) :=
  [(.idle, .launching), (.recycling .counted, .idle), (.restoring .counted, .idle),
    (.unwinding, .turning), (.idle, .leaving), (.idle, .restoring .opened), (.closing, .idle),
    (.misfired, .leaving), (.leaving, .gone)]

/-- … and what the worker holds.  A run is left with admission closed and nothing in hand. -/
theorem next_onInput (ho : o.onInput = false) :
    (WorkerPhase.next β w o b).Lands fun w' => w'.hand = w.hand ∧ w'.admits = w.admits ∧
      (w'.place = w.place ∨ (w.place, w'.place) ∈ quietMoves ∨
        (w.place = .live ∧ w'.place = .unwinding ∧ w.admits = false ∧ w.hand = none)) := by
  cases o with
  | exchange f v =>
    cases f <;> cases v <;> simp +contextual [quietMoves]
    case startRequested.true => tauto
    all_goals split <;> simp [*]
  | load f => cases f <;> simp +contextual [quietMoves]
  | write f v => cases f <;> simp +contextual [quietMoves] <;> split <;> simp
  | setExecutorCallback installed =>
    cases installed <;> simp +contextual [quietMoves]
    split <;> simp +contextual [*]
  | inputAdmit accepting | inputPush event | inputPop | inputClear | deliverInput event
  | addRunGeneration | storeState s | compareExchangeState expected desired => cases ho
  | _ => simp +contextual [quietMoves] <;> split <;> simp +contextual [*]

theorem quietMoves_renewing {p p' : Place} (stand : Stand) (h : (p, p') ∈ quietMoves) :
    p ≠ .live ∧ (∀ r, Renewing p' stand r → r = .opened ∨ Renewing p stand r) ∧
      ∀ r, Renewing p stand r → Renewing p' stand r ∨ r = .opened ∨ r = .counted := by
  unfold Renewing
  simp only [quietMoves, List.mem_cons, List.not_mem_nil, Prod.mk.injEq] at h
  rcases h with h | h | h | h | h | h | h | h | h | h
  all_goals first | exact h.elim | (obtain ⟨rfl, rfl⟩ := h; grind -linarith)

end Worker

/-- The control thread enters a cold run at its beginning and leaves it when it is counted. -/
theorem control_onInput (ho : o.onInput = false) :
    (ControlPhase.next β c o b).Lands fun c' => c'.stand = c.stand ∨
      ((∀ r, c.stand = .cold r → r = .counted) ∧ ∀ r, c'.stand = .cold r → r = .opened) := by
  cases o with
  | exchange f v =>
    simp only [ControlPhase.next, ControlPhase.onExchange]
    split <;> simp [*]
  | load f => cases f <;> simp +contextual [ControlPhase.next, ControlPhase.onLoad]
  | loadState =>
    simp only [ControlPhase.next, ControlPhase.onLoadState]
    split <;> simp [*]
    all_goals split <;> simp
  | debugInvalidate =>
    simp only [ControlPhase.next, ControlPhase.onInvalidate]
    split <;> simp [*]
  | read f =>
    simp only [ControlPhase.next, ControlPhase.onRead]
    split <;> simp
  | write f v =>
    simp only [ControlPhase.next, ControlPhase.onWrite]
    split <;> simp
  | signal e =>
    simp only [ControlPhase.next, ControlPhase.onSignal, lands_unlessFailed]
    split <;> simp
  | reset e =>
    simp only [ControlPhase.next, ControlPhase.onReset, lands_unlessFailed]
    split <;> simp [*]
  | waitAny es =>
    simp only [ControlPhase.next, ControlPhase.onWait]
    split <;> simp [*]
  | returned call reply =>
    simp only [ControlPhase.next, lands_allowIf, Move.lands_go]
    intro hr
    refine .inr ⟨fun r hs => ?_, by simp⟩
    simp [ControlPhase.mayReturn, hs] at hr
  | inputAdmit accepting | inputPush event | inputPop | inputClear | deliverInput event
  | addRunGeneration | storeState s | compareExchangeState expected desired => cases ho
  | _ => simp +contextual [ControlPhase.next]

/-- The inputs, read off the threads' phases and the store. -/
def inputs (w : WorkerPhase) (c : ControlPhase) (m : Store) : Prop :=
  Known w m ∧ Inputs w.place c.stand m.state w.admits w.hand m.queue (acceptedInRun m.trace)
    (deliveredInRun m.trace)

/-- A run that is live is not being started. -/
theorem live_not_cold (hO : Orderly w c m) (hp : w.place = .live) (r : Renewal) :
    c.stand ≠ .cold r := by
  intro hs
  have := (hO.lifecycle.cold r hs).1
  simp [hp, Place.calm] at this

theorem inputs_worker (hO : Orderly w c m) (h : inputs w c m)
    (hexec : m.effect .worker a β o = some (b, m')) (hnext : WorkerPhase.next β w o b = .go w') :
    inputs w' c { m' with trace := m.observe .worker β o b ++ m'.trace } := by
  obtain ⟨hK, hI⟩ := h
  refine ⟨(hK.worker hO hexec hnext).other rfl, ?_⟩
  by_cases ho : o.onInput = false
  · obtain ⟨hqueue, hstate, hA, hD⟩ := effect_onInput ho hexec
    obtain ⟨hhand, hadmits, hplace⟩ := (next_onInput ho).go hnext
    rw [hqueue, hstate, hA, hD, hhand, hadmits]
    rcases hplace with hp | hp | ⟨hp, hp', hclosed⟩
    · rwa [hp]
    · obtain ⟨hlive, henter, hleave⟩ := quietMoves_renewing c.stand hp
      refine hI.move (fun h => absurd h hlive) henter fun r hr => ?_
      exact (hleave r hr).imp id (Or.imp id fun h => ⟨h, hlive⟩)
    · refine hI.move (fun _ => .inr hclosed) (fun r hr => ?_) fun r hr => ?_
      all_goals simp [Renewing, hp, hp', live_not_cold hO hp] at hr
  have hcold : w.place = .live → ∀ r, c.stand ≠ .cold r := live_not_cold hO
  cases o with
  | inputAdmit accepting =>
    cases hexec
    simp [WorkerPhase.next, WorkerPhase.act] at hnext
    obtain ⟨hb, rfl⟩ := hnext
    exact hI.admitInput fun ha => hb.resolve_left fun hf => absurd (hf.symm.trans ha) (by simp)
  | inputPop =>
    cases hexec
    simp [WorkerPhase.next, WorkerPhase.act] at hnext
    obtain ⟨⟨hp, hh, hc⟩, rfl⟩ := hnext
    have hstate := hK _ hc (by simp)
    rw [hh, hstate] at hI
    have hpop := hI.pop hp (hcold hp)
    rwa [← hstate] at hpop
  | deliverInput event =>
    cases hexec
    simp [WorkerPhase.next, WorkerPhase.act] at hnext
    obtain ⟨hh, rfl⟩ := hnext
    rw [hh] at hI
    exact hI.deliver hcold
  | inputClear =>
    cases hexec
    simp only [WorkerPhase.next, WorkerPhase.act, WorkerPhase.onClear] at hnext
    split at hnext <;> cases hnext
    all_goals
      rename_i hp
      have hstand : ∀ r, c.stand ≠ .cold r := by
        intro r hs
        have := (hO.lifecycle.cold r hs).1
        simp [hp, Place.calm] at this
      refine hI.clear (fun r hr => ?_) (fun r hr => ?_) (by simp [hp]) (by simp [Renewing])
      all_goals simp_all [Renewing]
  | addRunGeneration =>
    cases hexec
    simp only [WorkerPhase.next, WorkerPhase.act, WorkerPhase.onCount] at hnext
    split at hnext <;> simp at hnext
    all_goals
      obtain ⟨-, rfl⟩ := hnext
      rename_i hp
      exact hI.count (by simp [Renewing, hp]) (by simp [hp]) (by simp [Renewing])
  | storeState s =>
    cases hexec
    simp only [WorkerPhase.next, WorkerPhase.act, WorkerPhase.onStoreState] at hnext
    have hcalm : ¬w.place.calm → ∀ r, c.stand ≠ .cold r := fun hp r hs =>
      hp (hO.lifecycle.cold r hs).1
    split at hnext <;> simp at hnext
    case h_1 hp | h_2 hp | h_4 hp =>
      obtain ⟨-, rfl⟩ := hnext
      refine (hI.setState (hI.empty_handed (by simp [hp]))).move (by simp [hp]) ?_ ?_
      all_goals simp [Renewing, hp, hcalm, Place.calm, eq_comm]
    case h_3 hp =>
      obtain ⟨⟨-, hh⟩, rfl⟩ := hnext
      exact hI.setState hh
    case h_5 hp | h_6 hp =>
      obtain ⟨-, rfl⟩ := hnext
      refine hI.announce (by simp [Renewing, hp]) ?_ (by simp [hp]) (by simp [Renewing])
      simp [Renewing, hp, hcalm, Place.calm, eq_comm]
    case h_7 hp =>
      obtain ⟨-, rfl⟩ := hnext
      exact hI.setState (hI.empty_handed (by simp [hp]))
  | compareExchangeState expected desired =>
    simp only [WorkerPhase.next, WorkerPhase.act, WorkerPhase.onCompareExchange] at hnext
    split at hnext <;> simp at hnext
    case h_1 hp =>
      obtain ⟨-, rfl⟩ := hnext
      have hstand : ∀ r, c.stand ≠ .cold r := fun r hs => by
        simpa [hp, Place.calm] using (hO.lifecycle.cold r hs).1
      have hI' := hI.setState (s := m'.state) (hI.empty_handed (by simp [hp]))
      rcases Store.effect_compareExchangeState.mp hexec with ⟨-, rfl, rfl⟩ | ⟨-, rfl, rfl⟩ <;>
        refine hI'.move (by simp [hp]) ?_ ?_ <;> simp [Renewing, hp, hstand]
    case h_2 hp =>
      obtain ⟨⟨-, -, hh⟩, rfl⟩ := hnext
      have hI' := hI.setState (s := m'.state) hh
      rcases Store.effect_compareExchangeState.mp hexec with ⟨-, rfl, rfl⟩ | ⟨-, rfl, rfl⟩ <;>
        exact hI'
  | inputPush event => cases hnext
  | _ => exact absurd rfl ho

theorem inputs_control (hO : Orderly w c m) (h : inputs w c m)
    (hexec : m.effect .control a β o = some (b, m')) (hnext : ControlPhase.next β c o b = .go c') :
    inputs w c' { m' with trace := m.observe .control β o b ++ m'.trace } := by
  obtain ⟨hK, hI⟩ := h
  refine ⟨(hK.control hO hexec hnext).other rfl, ?_⟩
  by_cases ho : o.onInput = false
  · obtain ⟨hqueue, hstate, hA, hD⟩ := effect_onInput ho hexec
    rw [hqueue, hstate, hA, hD]
    rcases (control_onInput ho).go hnext with hs | ⟨hold, hnew⟩
    · rwa [hs]
    · refine hI.move .inl (fun r hr => ?_) fun r hr => ?_
      · rcases hr with hr | hr | hr
        · exact .inr (.inl hr)
        · exact .inr (.inr (.inl hr))
        · exact .inl (hnew r hr)
      · rcases hr with hr | hr | hr
        · exact .inl (.inl hr)
        · exact .inl (.inr (.inl hr))
        · exact .inr (.inr ⟨hold r hr, fun hp => live_not_cold hO hp r hr⟩)
  have hquiet : ∀ r, c.stand = .cold r →
      w.place ≠ .live ∧ ∀ r', w.place ≠ .recycling r' ∧ w.place ≠ .restoring r' := by
    intro r hs
    have hcalm := (hO.lifecycle.cold r hs).1
    refine ⟨?_, fun r' => ⟨?_, ?_⟩⟩ <;> intro hp <;> simp [hp, Place.calm] at hcalm
  cases o with
  | inputAdmit accepting =>
    cases hexec
    simp only [ControlPhase.next] at hnext
    split at hnext <;> simp at hnext
    obtain ⟨rfl, rfl⟩ := hnext
    exact hI.close
  | inputClear =>
    cases hexec
    simp only [ControlPhase.next] at hnext
    split at hnext <;> cases hnext
    rename_i hs
    refine hI.clear ?_ ?_ (hquiet _ hs).1 (by simp [Renewing]) <;>
      simp [Renewing, hs, (hquiet _ hs).2, eq_comm]
  | addRunGeneration =>
    cases hexec
    simp only [ControlPhase.next, allowIf_eq_go, decide_eq_true_eq] at hnext
    obtain ⟨⟨hs, -⟩, hnext⟩ := hnext
    cases hnext
    exact hI.count (by simp [Renewing, hs]) (hquiet _ hs).1 (by simp [Renewing])
  | storeState s =>
    cases hexec
    simp only [ControlPhase.next] at hnext
    split at hnext <;> simp at hnext
    rename_i hs
    obtain ⟨-, rfl⟩ := hnext
    refine hI.announce (by simp [Renewing, hs]) ?_ (hquiet _ hs).1 (by simp [Renewing])
    simp [Renewing, (hquiet _ hs).2, eq_comm]
  | inputPop | deliverInput event | compareExchangeState expected desired | inputPush event =>
    cases hnext
  | _ => exact absurd rfl ho

theorem inputs_producer {n : ℕ} (hO : Orderly w c m) (h : inputs w c m)
    (hexec : m.effect (.producer n) a β o = some (b, m')) (hnext : producerNext β () o b = .go ()) :
    inputs w c { m' with trace := m.observe (.producer n) β o b ++ m'.trace } := by
  obtain ⟨hK, hI⟩ := h
  cases producerNext_produces hnext nofun with
  | inputPush event =>
    cases hexec
    refine ⟨hK.other rfl, ?_⟩
    by_cases hp : (m.queue.push event).1 = .ok
    · simpa [hp, acceptedInRun, deliveredInRun] using hI.push (live_not_cold hO) hp
    · simpa [hp, InputQueue.push_rejected hp] using hI
  | nextInput | requestWake =>
    cases hexec
    exact ⟨hK.other rfl, hI⟩

theorem inputs_canceller {n : ℕ} (h : inputs w c m)
    (hexec : m.effect (.canceller n) a β o = some (b, m'))
    (hnext : cancellerNext β () o b = .go ()) :
    inputs w c { m' with trace := m.observe (.canceller n) β o b ++ m'.trace } := by
  obtain ⟨hK, hI⟩ := h
  have ho : o.onInput = false := by cases cancellerNext_cancels hnext nofun <;> rfl
  obtain ⟨hqueue, hstate, hA, hD⟩ := effect_onInput ho hexec
  refine ⟨hK.other hstate, ?_⟩
  rwa [hqueue, hstate, hA, hD]

theorem inputs_viewer {n : ℕ} (h : inputs w c m)
    (hexec : m.effect (.viewer n) a β o = some (b, m')) (hnext : viewerNext β () o b = .go ()) :
    inputs w c { m' with trace := m.observe (.viewer n) β o b ++ m'.trace } := by
  obtain ⟨hK, hI⟩ := h
  cases viewerNext_views hnext nofun with
  | nextView | view v =>
    cases hexec
    exact ⟨hK.other rfl, hI⟩

theorem inputs_kept : Kept inputs where
  worker := inputs_worker
  control := inputs_control
  producer := inputs_producer
  canceller := fun _ => inputs_canceller
  viewer := fun _ => inputs_viewer

end Operations

end SoftPC.Machine
