import SoftPC.App.Debug

/-!
# App/PlanRuns — what the machine does under one plan

Over the events between a plan and its stop, a trace retires its count and no more (`Tracing.stop`), and a
breakpoint is arrived at once, at the end (`Breaking.stop`); a watch hit may end either earlier.
-/

namespace SoftPC.Debug

/-- Each instruction that retires has begun, and retires once; `opened` says that one has begun already. -/
def Paired : Bool → List Event → Prop
  | _, [] => True
  | _, .begin _ :: events => Paired true events
  | opened, .retired :: events => opened = true ∧ Paired false events
  | opened, _ :: events => Paired opened events

/-- How often an instruction at `linear` begins; `held` leaves out the first instruction, for a machine that
goes on from a stop at it. -/
def arrivals (linear : UInt32) : Bool → List Event → ℕ
  | _, [] => 0
  | held, .begin address :: events =>
    (if address = linear ∧ held = false then 1 else 0) + arrivals linear false events
  | held, _ :: events => arrivals linear held events

namespace State

variable {s s' : State} {events : List Event} {address : UInt32}

/-- The machine goes on from a stop at `linear`. -/
def heldAt (s : State) (linear : UInt32) : Bool := s.skipFirst && s.stoppedAddress == linear

/-- What an event does that does not stop the machine. -/
theorem step_some {e : Event} : s.step e = some s' → match e with
    | .begin a => (s.begin a).1 = false ∧ s' = (s.begin a).2
    | .access x => s' = s.access x
    | .retired => s' = s.retired
    | .poll => s' = s := by
  intro h
  cases e with
  | begin a =>
    rw [step] at h
    split at h
    · cases h
    · exact ⟨Bool.eq_false_iff.mpr ‹_›, (Option.some.inj h).symm⟩
  | access x => exact (Option.some.inj h).symm
  | retired => exact (Option.some.inj h).symm
  | poll =>
    rw [step, takeDebugStop] at h
    split at h
    · cases h
    · exact (Option.some.inj h).symm

theorem advance_cons {e : Event} (h : s.advance (e :: events) = some s') :
    ∃ t, s.step e = some t ∧ t.advance events = some s' := by
  rw [advance, List.foldlM_cons] at h
  exact Option.bind_eq_some_iff.mp h

/-- A stop that was pending keeps the observation. -/
theorem begin_pending (h : s.stopPending = true) :
    (s.begin address).2.observation = s.observation := by
  rw [begin, if_neg fun hidle => ?_]
  · dsimp only
    rw [if_pos h]
    rfl
  · rw [h] at hidle
    simp at hidle

/-- What stops the machine without a hit: a pending stop, or the breakpoint. -/
theorem begin_without_hit (hstop : (s.begin address).1 = true)
    (hclean : (s.begin address).2.observation.watchHit = false) :
    (s.stopPending = true ∧ s.observation.watchHit = false) ∨
      (s.kind.breaks = true ∧ address = s.address ∧ s.heldAt address = false) := by
  cases hp : s.stopPending with
  | true => exact .inl ⟨rfl, by rwa [begin_pending hp] at hclean⟩
  | false =>
    rw [begin] at hstop hclean
    split at hstop
    · cases hstop
    · rw [if_neg ‹_›] at hclean
      dsimp only at hstop hclean
      rw [hp, if_neg Bool.false_ne_true] at hstop hclean
      split at hstop
      · rw [if_pos ‹_›] at hclean
        cases hclean
      · split at hstop
        · cases hstop
        · rename_i hgo
          simp only [Bool.or_eq_true, not_or, Bool.not_eq_true, Bool.not_eq_false', bne_iff_ne, ne_eq,
            Decidable.not_not] at hgo
          exact .inr ⟨hgo.1.2, hgo.2, hgo.1.1⟩

/-! ## A trace -/

/-- A trace under way: of its `k` instructions `j` have retired, and a stop is pending once they all have, or
after a hit. -/
structure Tracing (k : ℕ) (opened : Bool) (j : ℕ) (s : State) : Prop where
  kind : s.kind = .trace
  target : s.targetCount.toNat = k
  small : k ≤ 0xffffffff
  executed : s.executed.toNat = j
  bound : j ≤ k
  ahead : opened = true → j < k
  finished : j = k → s.stopPending = true
  explained : s.stopPending = true → j = k ∨ s.observation.watchHit = true

theorem Tracing.active {k j : ℕ} {opened : Bool} (h : s.Tracing k opened j) : s.active = true := by
  rw [State.active, h.kind]
  rfl

theorem Tracing.begin {k j : ℕ} {opened : Bool} (h : s.Tracing k opened j)
    (hpass : (s.begin address).1 = false) : (s.begin address).2.Tracing k true j := by
  obtain ⟨hpending, heq⟩ := begin_passes hpass
  rw [heq, if_pos h.active]
  have hlt : j ≠ k := fun hj => absurd (h.finished hj) (hpending ▸ Bool.false_ne_true)
  refine ⟨h.kind, h.target, h.small, h.executed, h.bound, fun _ => Nat.lt_of_le_of_ne h.bound hlt,
    fun hj => absurd hj hlt, fun hp => ?_⟩
  rw [hpending] at hp
  cases hp

theorem Tracing.access {k j : ℕ} {opened : Bool} (h : s.Tracing k opened j) (x : Access) :
    (s.access x).Tracing k opened j := by
  rw [access_eq]
  exact ⟨h.kind, h.target, h.small, h.executed, h.bound, h.ahead, h.finished,
    fun hp => (h.explained hp).imp_right fun hhit => access_watchHit.mpr (.inl hhit)⟩

theorem Tracing.retired {k j : ℕ} (h : s.Tracing k true j) : s.retired.Tracing k false (j + 1) := by
  have hj := h.ahead rfl
  have hk := h.small
  have htally : s.tally.toNat = j + 1 := by
    rw [tally_toNat, h.executed]
    omega
  have hdone : (s.targetCount ≤ s.tally.toUInt64) ↔ j + 1 = k := by
    rw [UInt64.le_iff_toNat_le, UInt32.toNat_toUInt64, htally, h.target]
    omega
  rw [retired_active h.active]
  refine ⟨h.kind, h.target, h.small, htally, hj, nofun, fun hlast => ?_, fun hp => ?_⟩
  · simp [h.kind, hdone.mpr hlast]
  · simp only [Bool.or_eq_true, Bool.and_eq_true, decide_eq_true_eq, h.kind, true_and, hdone] at hp
    obtain (hp | hlast) | hhit := hp
    · refine .inr ((h.explained hp).resolve_left fun hlast => ?_)
      omega
    · exact .inl hlast
    · exact .inr hhit

/-- **A trace along its events.** -/
theorem Tracing.advance {k j : ℕ} {opened : Bool} (h : s.Tracing k opened j)
    (hrun : s.advance events = some s') (hpaired : Paired opened events) :
    ∃ opened', s'.Tracing k opened' (j + events.countP Event.isRetired) := by
  induction events generalizing s opened j with
  | nil =>
    cases hrun
    exact ⟨opened, h⟩
  | cons e events ih =>
    obtain ⟨t, hstep, hrest⟩ := advance_cons hrun
    cases e with
    | begin a =>
      obtain ⟨hpass, rfl⟩ := step_some hstep
      exact ih (h.begin hpass) hrest hpaired
    | access x =>
      obtain rfl := step_some hstep
      exact ih (h.access x) hrest hpaired
    | retired =>
      obtain rfl := step_some hstep
      obtain ⟨rfl, hpaired⟩ := hpaired
      obtain ⟨opened', h'⟩ := ih h.retired hrest hpaired
      refine ⟨opened', ?_⟩
      rw [List.countP_cons, Event.isRetired, if_pos rfl]
      rwa [Nat.add_right_comm] at h'
    | poll =>
      obtain rfl := step_some hstep
      exact ih h hrest hpaired

/-- **The stop of a trace**: all of its instructions have retired, unless a watch was hit. -/
theorem Tracing.stop {k j : ℕ} {opened : Bool} (h : s.Tracing k opened j)
    (hstop : (s.begin address).1 = true)
    (hclean : (s.begin address).2.observation.watchHit = false) : j = k := by
  obtain ⟨hp, hno⟩ | ⟨hbreaks, -⟩ := begin_without_hit hstop hclean
  · exact (h.explained hp).resolve_right (hno ▸ Bool.false_ne_true)
  · rw [h.kind] at hbreaks
    cases hbreaks

/-! ## A breakpoint -/

/-- A breakpoint under way: a stop is pending after a hit only. -/
structure Breaking (linear : UInt32) (held : Bool) (s : State) : Prop where
  kind : s.kind = .breakLinear
  address : s.address = linear
  held : s.heldAt linear = held
  explained : s.stopPending = true → s.observation.watchHit = true

theorem Breaking.active {linear : UInt32} {held : Bool} (h : s.Breaking linear held) :
    s.active = true := by
  rw [State.active, h.kind]
  rfl

/-- A beginning that passes is no arrival. -/
theorem Breaking.begin {linear : UInt32} {held : Bool} (h : s.Breaking linear held)
    (hpass : (s.begin address).1 = false) :
    ¬(address = linear ∧ held = false) ∧ (s.begin address).2.Breaking linear false := by
  obtain ⟨hpending, heq⟩ := begin_passes hpass
  constructor
  · rintro ⟨rfl, rfl⟩
    have hstop : (s.begin address).1 = true := begin_stops.mpr <| .inr
      ⟨.inr ⟨by rw [h.kind]; rfl, h.address⟩, fun hskip => by simpa [heldAt, hskip] using h.held⟩
    rw [hpass] at hstop
    cases hstop
  · rw [heq, if_pos h.active]
    refine ⟨h.kind, h.address, rfl, fun hp => ?_⟩
    rw [hpending] at hp
    cases hp

theorem Breaking.retired {linear : UInt32} {held : Bool} (h : s.Breaking linear held) :
    s.retired.Breaking linear held := by
  rw [retired_active h.active]
  refine ⟨h.kind, h.address, h.held, fun hp => ?_⟩
  simp only [h.kind, Bool.or_eq_true, reduceCtorEq, decide_false, Bool.false_and, or_false,
    Bool.false_eq_true] at hp
  exact hp.elim h.explained id

/-- **A breakpoint along its events**: none of them arrives. -/
theorem Breaking.advance {linear : UInt32} {held : Bool} (h : s.Breaking linear held)
    (hrun : s.advance events = some s') :
    arrivals linear held events = 0 ∧ ∃ held', s'.Breaking linear held' ∧
      ∀ a, arrivals linear held (events ++ [.begin a]) = if a = linear ∧ held' = false then 1 else 0 := by
  induction events generalizing s held with
  | nil =>
    cases hrun
    exact ⟨rfl, held, h, fun a => rfl⟩
  | cons e events ih =>
    obtain ⟨t, hstep, hrest⟩ := advance_cons hrun
    cases e with
    | begin a =>
      obtain ⟨hpass, rfl⟩ := step_some hstep
      obtain ⟨hnot, h'⟩ := h.begin hpass
      obtain ⟨hzero, held', hs', hlast⟩ := ih h' hrest
      refine ⟨?_, held', hs', fun b => ?_⟩
      · rw [arrivals, if_neg hnot, hzero]
      · rw [List.cons_append, arrivals, if_neg hnot, Nat.zero_add, hlast]
    | access x =>
      obtain rfl := step_some hstep
      refine ih ?_ hrest
      rw [access_eq]
      exact ⟨h.kind, h.address, h.held, fun hp => access_watchHit.mpr (.inl (h.explained hp))⟩
    | retired =>
      obtain rfl := step_some hstep
      exact ih h.retired hrest
    | poll =>
      obtain rfl := step_some hstep
      exact ih h hrest

/-- **The stop of a breakpoint**: the machine has arrived, unless a watch was hit. -/
theorem Breaking.stop {linear : UInt32} {held : Bool} (h : s.Breaking linear held)
    (hstop : (s.begin address).1 = true)
    (hclean : (s.begin address).2.observation.watchHit = false) : address = linear ∧ held = false := by
  obtain ⟨hp, hno⟩ | ⟨-, haddress, hheld⟩ := begin_without_hit hstop hclean
  · rw [h.explained hp] at hno
    cases hno
  · rw [h.address] at haddress
    rw [← h.held]
    subst haddress
    exact ⟨rfl, hheld⟩

/-! ## The plans -/

/-- The stop, taken: the result is there, and the machine is held at its address. -/
theorem stopped (hstop : (s.begin address).1 = true) :
    (s.begin address).2.takeDebugStop.2.resultReady = true ∧
      (s.begin address).2.takeDebugStop.2.observation = (s.begin address).2.observation ∧
      (s.begin address).2.takeDebugStop.2.stoppedAddress = address := by
  obtain ⟨t, ht⟩ := begin_stop hstop
  rw [ht]
  exact ⟨rfl, rfl, rfl⟩

theorem setPlan_tracing {count pc} (h : (s.setPlan ⟨1, count, 0, 0, 0⟩ pc).1 = .ok) :
    (s.setPlan ⟨1, count, 0, 0, 0⟩ pc).2.Tracing count.toNat false 0 := by
  have hcount := (@setPlan_resumes s [] _ _ h).count
  rw [setPlan] at h hcount ⊢
  split at h
  · cases h
  · rw [if_neg ‹_›] at hcount ⊢
    obtain ⟨-, hpos, hmax⟩ := hcount rfl
    refine ⟨rfl, rfl, hmax, rfl, Nat.zero_le _, nofun, fun hzero => ?_, nofun⟩
    rw [← hzero] at hpos
    cases hpos

theorem setPlan_breaking {linear pc : UInt32} :
    (s.setPlan ⟨3, 0, 0, 0, linear⟩ pc).2.Breaking linear
      ((s.setPlan ⟨3, 0, 0, 0, linear⟩ pc).2.heldAt linear) :=
  ⟨rfl, rfl, rfl, nofun⟩

end State

end SoftPC.Debug
