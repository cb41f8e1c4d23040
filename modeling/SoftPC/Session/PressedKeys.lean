import SoftPC.KvmBase.Event
import SoftPC.Machinery.SwapRemove
import SoftPC.Machinery.Transitions
import SoftPC.Session.ControlState

/-!
# Session/PressedKeys — which keys the guest still holds

`emulator/session/control.c`, the pressed-key ledger and `emulator_session_dispatch_input`.  The
ledger is an unordered array: removal moves its last entry into the hole, so everything here is said
up to order.

`recording` is the sink that always succeeds and keeps what it was given.
-/

namespace SoftPC

open scoped List

/-- `EMULATOR_SESSION_EVENT_PRESSED_CAPACITY`. -/
def pressedCapacity : ℕ := 256

/-- An entry of the ledger. -/
abbrev PressedKey := KeyInput

namespace KeyInput

/-- The entry's release: the same key, no longer pressed. -/
def release (p : PressedKey) : PressedKey := { p with key := { p.key with pressed := false } }

/-- What the ledger tells keys apart by. -/
def identity (p : PressedKey) : UInt64 × KeyId := (p.sourceIdentity, p.key.identity)

/-- The comparison in `emulator_session_forget_pressed`. -/
def sameKey (p q : PressedKey) : Bool :=
  p.sourceIdentity == q.sourceIdentity && p.key.sameKey q.key

theorem sameKey_iff (p q : PressedKey) : p.sameKey q = true ↔ p.identity = q.identity := by
  simp [sameKey, identity, KeyEvent.sameKey_iff]

@[simp] theorem identity_release (p : PressedKey) : p.release.identity = p.identity := rfl

end KeyInput

/-- The ledger of `emulator_session_queue`. -/
structure PressedKeys where
  keys : List PressedKey
  bounded : keys.length ≤ pressedCapacity

namespace PressedKeys

variable {σ : Type*}

/-! ## The ledger's operations -/

/-- The loop of `emulator_session_forget_pressed`: the first match goes. -/
def forgetKey (keys : List PressedKey) (event : PressedKey) : List PressedKey :=
  match keys.findIdx? (·.sameKey event) with
  | none => keys
  | some index => swapRemove keys index

theorem length_forgetKey_le (keys : List PressedKey) (event : PressedKey) :
    (forgetKey keys event).length ≤ keys.length := by
  unfold forgetKey
  split
  · exact Nat.le_refl _
  · rw [length_swapRemove]
    exact Nat.sub_le _ _

/-- `emulator_session_forget_pressed`. -/
def forgetPressed (ledger : PressedKeys) (event : PressedKey) : PressedKeys :=
  ⟨forgetKey ledger.keys event, (length_forgetKey_le _ _).trans ledger.bounded⟩

/-- `emulator_session_remember_pressed`; `false` is a full ledger. -/
def rememberPressed (ledger : PressedKeys) (event : PressedKey) : Bool × PressedKeys :=
  let forgotten := ledger.forgetPressed event
  if h : forgotten.keys.length = pressedCapacity then (false, forgotten)
  else (true, ⟨forgotten.keys ++ [event], by
    have := forgotten.bounded
    simp only [List.length_append, List.length_singleton]
    omega⟩)

/-- The loop of `emulator_session_release_source`, from `index` on.  The index stays where an entry
was removed: the last one has moved there. -/
def releaseKeys (running : Bool) (sink : Sink σ) (source : UInt64) (keys : List PressedKey)
    (index : ℕ) (context : σ) : Bool × List PressedKey × σ :=
  if h : index < keys.length then
    if keys[index].sourceIdentity ≠ source then
      releaseKeys running sink source keys (index + 1) context
    else
      let released := keys[index].release
      let marked := keys.set index released
      if running then
        match sink context released.toEvent with
        | (false, context) => (false, marked, context)
        | (true, context) =>
          releaseKeys running sink source (swapRemove marked index) index context
      else releaseKeys running sink source (swapRemove marked index) index context
  else (true, keys, context)
termination_by keys.length - index
decreasing_by
  · omega
  all_goals
    rw [length_swapRemove, List.length_set]
    omega

theorem length_releaseKeys_le (running : Bool) (sink : Sink σ) (source : UInt64)
    (keys : List PressedKey) (index : ℕ) (context : σ) :
    (releaseKeys running sink source keys index context).2.1.length ≤ keys.length := by
  fun_induction releaseKeys running sink source keys index context with
  | case1 keys index context h hs ih => exact ih
  | case2 keys index context h hs released marked hr after he => simp [marked]
  | case3 keys index context h hs released marked hr after he ih =>
    exact ih.trans (by simp [marked])
  | case4 keys index context h hs released marked hr ih => exact ih.trans (by simp [marked])
  | case5 keys index context h => exact Nat.le_refl _

/-- `emulator_session_release_source`. -/
def releaseSource (running : Bool) (sink : Sink σ) (ledger : PressedKeys) (source : UInt64)
    (context : σ) : Bool × PressedKeys × σ :=
  let result := releaseKeys running sink source ledger.keys 0 context
  (result.1, ⟨result.2.1, (length_releaseKeys_le _ _ _ _ _ _).trans ledger.bounded⟩, result.2.2)

/-- `emulator_session_dispatch_input`. -/
def dispatchInput (ledger : PressedKeys) (event : InputEvent) (state : SessionMachineState)
    (sink : Sink σ) (context : σ) : Bool × PressedKeys × σ :=
  let deliver (ledger : PressedKeys) : Bool × PressedKeys × σ :=
    if state ≠ .running then (true, ledger, context)
    else ((sink context event).1, ledger, (sink context event).2)
  match event.data with
  | .key k =>
    let entry : PressedKey := ⟨event.source, event.sourceIdentity, k⟩
    if k.pressed then
      match ledger.rememberPressed entry with
      | (false, ledger) => (false, ledger, context)
      | (true, ledger) => deliver ledger
    else deliver (ledger.forgetPressed entry)
  | .mouse _ => deliver ledger
  | .text _ => deliver ledger
  | .sourceRetired => ledger.releaseSource (state = .running) sink event.sourceIdentity context
  | .inputReset => ledger.releaseSource (state = .running) sink event.sourceIdentity context
  | .windowClose => (true, ledger, context)
  | .hotkey _ => (true, ledger, context)

/-! ## Up to order, each operation does what its name says -/

/-- The keys the ledger holds. -/
def identities (keys : List PressedKey) : List (UInt64 × KeyId) := keys.map (·.identity)

/-- **Forgetting removes the one entry of a key, if it is held.** -/
theorem forgetKey_perm {keys : List PressedKey} (hnodup : (identities keys).Nodup)
    (event : PressedKey) :
    forgetKey keys event ~ keys.filter (·.identity ≠ event.identity) := by
  unfold forgetKey
  split
  · rename_i hnone
    rw [List.filter_eq_self.mpr fun p hp => ?_]
    have := List.findIdx?_eq_none_iff.mp hnone p hp
    simpa [← KeyInput.sameKey_iff] using this
  · rename_i index hsome
    obtain ⟨hlt, hmatch, -⟩ := List.findIdx?_eq_some_iff_getElem.mp hsome
    have hperm := swapRemove_perm hlt
    have hid := (KeyInput.sameKey_iff _ _).mp hmatch
    have hrest : ∀ p ∈ swapRemove keys index, p.identity ≠ event.identity := by
      have hn := (hperm.map KeyInput.identity).nodup_iff.mp hnodup
      rw [List.map_cons, List.nodup_cons] at hn
      rintro p hp heq
      exact hn.1 (List.mem_map.mpr ⟨p, hp, heq.trans hid.symm⟩)
    have hself : (swapRemove keys index).filter (·.identity ≠ event.identity)
        = swapRemove keys index := List.filter_eq_self.mpr (by simpa using hrest)
    have hfilter := hperm.filter (·.identity ≠ event.identity)
    rw [List.filter_cons_of_neg (by simpa using hid), hself] at hfilter
    exact hfilter.symm

/-- **The release loop breaks every key of its source once and keeps every other key.**  The entries
before the index have been looked at. -/
theorem releaseKeys_spec (source : UInt64) (keys : List PressedKey) (index : ℕ)
    (log : List InputEvent) (hseen : ∀ p ∈ keys.take index, p.sourceIdentity ≠ source) :
    let result := releaseKeys true recording source keys index log
    result.1 = true ∧ result.2.1 ~ keys.filter (·.sourceIdentity ≠ source) ∧
      ∃ broken, broken ~ keys.filter (·.sourceIdentity = source) ∧
        result.2.2 = log ++ broken.map (·.release.toEvent) := by
  fun_induction releaseKeys true recording source keys index log with
  | case1 keys index log h hs ih =>
    refine ih fun p hp => ?_
    rw [List.take_succ_eq_append_getElem h] at hp
    rcases List.mem_append.mp hp with hp | hp
    · exact hseen p hp
    · rwa [List.mem_singleton.mp hp]
  | case2 keys index log h hs released marked hr after he => simp [recording] at he
  | case3 keys index log h hs released marked hr after he ih =>
    have hafter : after = log ++ [released.toEvent] := by simpa [recording] using he.symm
    have hmarked : swapRemove marked index = swapRemove keys index := swapRemove_set h _
    rw [hmarked] at ih ⊢
    have hperm := swapRemove_perm h
    obtain ⟨hok, hkeep, broken, hbroken, hlog⟩ :=
      ih (by rw [take_swapRemove h]; exact hseen)
    rw [not_not] at hs
    refine ⟨hok, hkeep.trans ?_, keys[index] :: broken, ?_, ?_⟩
    · have := hperm.filter (·.sourceIdentity ≠ source)
      rw [List.filter_cons_of_neg (by simpa using hs)] at this
      exact this.symm
    · have := hperm.filter (·.sourceIdentity = source)
      rw [List.filter_cons_of_pos (by simpa using hs)] at this
      exact (hbroken.cons _).trans this.symm
    · rw [hlog, hafter, List.map_cons, List.append_assoc]
      rfl
  | case4 keys index log h hs released marked hr ih => exact absurd rfl hr
  | case5 keys index log h =>
    rw [List.take_of_length_le (Nat.le_of_not_lt h)] at hseen
    refine ⟨rfl, ?_, [], ?_, by simp⟩
    · rw [List.filter_eq_self.mpr (by simpa using hseen)]
    · rw [List.filter_eq_nil_iff.mpr (by simpa using hseen)]

/-! ## What the guest was told -/

/-- The key, with its source, and the direction of a key transition. -/
def transition (event : InputEvent) : Option ((UInt64 × KeyId) × Bool) :=
  event.transition.map fun t => ((event.sourceIdentity, t.1), t.2)

/-- After a run of breaks their keys are up, and no other key has moved. -/
theorem last_breaks (broken : List PressedKey) (log : List InputEvent)
    (id : UInt64 × KeyId) :
    Transitions.last transition (log ++ broken.map (·.release.toEvent)) id
      = if id ∈ identities broken then some false else Transitions.last transition log id := by
  induction broken generalizing log with
  | nil => simp [identities]
  | cons p broken ih =>
    have hp : transition p.release.toEvent = some (p.identity, false) := rfl
    rw [List.map_cons, ← List.singleton_append, ← List.append_assoc, ih,
      Transitions.last_append_of_some hp]
    by_cases h1 : id ∈ identities broken
    · simp_all [identities]
    · by_cases h2 : p.identity = id
      · simp [h2, identities]
      · simp_all [identities, Ne.symm h2]

/-- A session's ledger and everything it delivered. -/
structure Deliveries where
  ledger : PressedKeys
  delivered : List InputEvent

namespace Deliveries

/-- One dispatch in a running machine whose sink succeeds. -/
def dispatch (s : Deliveries) (event : InputEvent) : Deliveries :=
  let result := s.ledger.dispatchInput event .running recording s.delivered
  ⟨result.2.1, result.2.2⟩

/-- Any sequence of dispatches, from an empty ledger. -/
def run (events : List InputEvent) : Deliveries :=
  events.foldl dispatch ⟨⟨[], by decide⟩, []⟩

/-- **A make is refused by a full ledger or replaces its key's entry and is delivered.** -/
theorem dispatch_make (s : Deliveries) (p : PressedKey) (hp : p.key.pressed = true) :
    s.dispatch p.toEvent = s ∨
    ((s.dispatch p.toEvent).ledger.keys = forgetKey s.ledger.keys p ++ [p] ∧
      (s.dispatch p.toEvent).delivered = s.delivered ++ [p.toEvent]) := by
  by_cases hfull : (forgetKey s.ledger.keys p).length = pressedCapacity
  · -- A full ledger had no entry to forget: had it forgotten one, there would be room.
    have hsame : forgetKey s.ledger.keys p = s.ledger.keys := by
      have hbound := s.ledger.bounded
      unfold forgetKey at hfull ⊢
      split
      · rfl
      · rename_i index hsome
        obtain ⟨hlt, -⟩ := List.findIdx?_eq_some_iff_getElem.mp hsome
        rw [hsome] at hfull
        simp only [length_swapRemove] at hfull
        omega
    rw [hsame] at hfull
    left
    simp [dispatch, dispatchInput, KeyInput.toEvent, hp, rememberPressed, forgetPressed, hfull,
      hsame]
  · right
    simp [dispatch, dispatchInput, KeyInput.toEvent, hp, rememberPressed, forgetPressed, hfull,
      recording]

/-- **A break drops its key's entry and is delivered.** -/
theorem dispatch_break (s : Deliveries) (p : PressedKey) (hp : p.key.pressed = false) :
    (s.dispatch p.toEvent).ledger.keys = forgetKey s.ledger.keys p ∧
      (s.dispatch p.toEvent).delivered = s.delivered ++ [p.toEvent] := by
  simp [dispatch, dispatchInput, KeyInput.toEvent, hp, forgetPressed, recording]

/-- **A retirement or a reset of a source breaks its keys once each and keeps the others.** -/
theorem dispatch_release (s : Deliveries) {event : InputEvent}
    (he : event.data = .sourceRetired ∨ event.data = .inputReset) :
    (s.dispatch event).ledger.keys
      ~ s.ledger.keys.filter (·.sourceIdentity ≠ event.sourceIdentity) ∧
    ∃ broken, broken ~ s.ledger.keys.filter (·.sourceIdentity = event.sourceIdentity) ∧
      (s.dispatch event).delivered = s.delivered ++ broken.map (·.release.toEvent) := by
  have hspec := releaseKeys_spec event.sourceIdentity s.ledger.keys 0 s.delivered (by simp)
  rcases he with he | he <;> simpa [dispatch, dispatchInput, he, releaseSource] using hspec.2

/-- **The ledger invariant**: no key twice, and the keys held are those whose last delivered
transition is a make. -/
structure Tracked (s : Deliveries) : Prop where
  nodup : (identities s.ledger.keys).Nodup
  held : ∀ id, id ∈ identities s.ledger.keys ↔ Transitions.last transition s.delivered id = some true

/-- Forgetting a key leaves the other keys, once each. -/
theorem mem_forgetKey {keys : List PressedKey} (hnodup : (identities keys).Nodup)
    (event : PressedKey) :
    (identities (forgetKey keys event)).Nodup ∧ ∀ id,
      id ∈ identities (forgetKey keys event) ↔ id ∈ identities keys ∧ id ≠ event.identity := by
  have hperm := forgetKey_perm hnodup event
  refine ⟨?_, fun id => ?_⟩
  · refine (hperm.map KeyInput.identity).nodup_iff.mpr ?_
    exact hnodup.sublist (List.filter_sublist.map _)
  · rw [identities, (hperm.map KeyInput.identity).mem_iff]
    simp only [identities, List.mem_map, List.mem_filter, decide_eq_true_eq]
    grind -linarith

/-- Delivering what is no key transition moves no key. -/
theorem Tracked.deliver {s : Deliveries} (h : s.Tracked) {event : InputEvent}
    (he : transition event = none) : Tracked ⟨s.ledger, s.delivered ++ [event]⟩ :=
  ⟨h.nodup, fun id => by rw [Transitions.last_append_of_none he]; exact h.held id⟩

theorem Tracked.make {s : Deliveries} (h : s.Tracked) {p : PressedKey}
    (hp : p.key.pressed = true) : (s.dispatch p.toEvent).Tracked := by
  obtain ⟨hnodup, hmem⟩ := mem_forgetKey h.nodup p
  have ht : transition p.toEvent = some (p.identity, true) := by
    rw [← hp]
    rfl
  rcases dispatch_make s p hp with hs | ⟨hkeys, hdel⟩
  · rwa [hs]
  · refine ⟨?_, fun id => ?_⟩
    · rw [hkeys, identities, List.map_append, ← identities]
      refine List.nodup_append.mpr ⟨hnodup, by simp, fun a ha b hb => ?_⟩
      rw [List.map_singleton, List.mem_singleton] at hb
      exact hb ▸ ((hmem a).mp ha).2
    · rw [hkeys, hdel, Transitions.last_append_of_some ht, identities, List.map_append,
        List.mem_append, ← identities, hmem id, h.held id]
      by_cases hid : p.identity = id
      · simp [hid]
      · simp [hid, Ne.symm hid]

theorem Tracked.break {s : Deliveries} (h : s.Tracked) {p : PressedKey}
    (hp : p.key.pressed = false) : (s.dispatch p.toEvent).Tracked := by
  obtain ⟨hnodup, hmem⟩ := mem_forgetKey h.nodup p
  obtain ⟨hkeys, hdel⟩ := dispatch_break s p hp
  have ht : transition p.toEvent = some (p.identity, false) := by
    rw [← hp]
    rfl
  refine ⟨by rwa [hkeys], fun id => ?_⟩
  rw [hkeys, hdel, Transitions.last_append_of_some ht, hmem id, h.held id]
  by_cases hid : p.identity = id
  · simp [hid]
  · simp [hid, Ne.symm hid]

theorem Tracked.release {s : Deliveries} (h : s.Tracked) {event : InputEvent}
    (he : event.data = .sourceRetired ∨ event.data = .inputReset) :
    (s.dispatch event).Tracked := by
  obtain ⟨hkeep, broken, hbroken, hdel⟩ := dispatch_release s he
  have hmem : ∀ id, id ∈ identities (s.dispatch event).ledger.keys ↔
      id ∈ identities s.ledger.keys ∧ id.1 ≠ event.sourceIdentity := by
    intro id
    rw [identities, (hkeep.map KeyInput.identity).mem_iff]
    simp only [identities, List.mem_map, List.mem_filter, decide_eq_true_eq, KeyInput.identity]
    grind -linarith
  have hmemb : ∀ id, id ∈ identities broken ↔
      id ∈ identities s.ledger.keys ∧ id.1 = event.sourceIdentity := by
    intro id
    rw [identities, (hbroken.map KeyInput.identity).mem_iff]
    simp only [identities, List.mem_map, List.mem_filter, decide_eq_true_eq, KeyInput.identity]
    grind -linarith
  refine ⟨?_, fun id => ?_⟩
  · refine (hkeep.map KeyInput.identity).nodup_iff.mpr ?_
    exact h.nodup.sublist (List.filter_sublist.map _)
  · rw [hdel, last_breaks, hmem id, h.held id]
    simp only [hmemb id, h.held id]
    grind -linarith

/-- **One dispatch keeps the ledger true to what the guest was told.** -/
theorem Tracked.dispatch {s : Deliveries} (h : s.Tracked) (event : InputEvent) :
    (s.dispatch event).Tracked := by
  obtain ⟨source, sourceIdentity, data⟩ := event
  cases data with
  | key k =>
    cases hp : k.pressed with
    | true => exact Tracked.make h (p := ⟨source, sourceIdentity, k⟩) hp
    | false => exact Tracked.break h (p := ⟨source, sourceIdentity, k⟩) hp
  | text scalar => exact h.deliver rfl
  | mouse m => exact h.deliver rfl
  | sourceRetired => exact h.release (.inl rfl)
  | inputReset => exact h.release (.inr rfl)
  | windowClose => exact h
  | hotkey identifier => exact h

theorem tracked_run (events : List InputEvent) : (run events).Tracked :=
  List.foldlRecOn events Deliveries.dispatch
    ⟨List.nodup_nil, fun id => by simp [identities, Transitions.last]⟩ fun _ h e _ => h.dispatch e

/-- **The ledger is what the guest holds.**  After any inputs no key is entered twice and the keys
entered are exactly those whose last delivered transition is a make; and when a source then retires
or resets, none of its keys remains, exactly one break went out for each it held, and every entry of
every other source stays as it was. -/
theorem pressed_ledger (events : List InputEvent) :
    let s := run events
    (identities s.ledger.keys).Nodup ∧
    (∀ id, id ∈ identities s.ledger.keys ↔ Transitions.last transition s.delivered id = some true) ∧
    ∀ event : InputEvent, event.data = .sourceRetired ∨ event.data = .inputReset →
      let t := s.dispatch event
      (∀ p ∈ t.ledger.keys, p.sourceIdentity ≠ event.sourceIdentity) ∧
      (∃ broken, broken ~ s.ledger.keys.filter (·.sourceIdentity = event.sourceIdentity) ∧
        t.delivered = s.delivered ++ broken.map (·.release.toEvent)) ∧
      t.ledger.keys ~ s.ledger.keys.filter (·.sourceIdentity ≠ event.sourceIdentity) := by
  intro s
  have h := tracked_run events
  refine ⟨h.nodup, h.held, fun event he => ?_⟩
  obtain ⟨hkeep, hbroken⟩ := dispatch_release s he
  refine ⟨fun p hp => ?_, hbroken, hkeep⟩
  simpa using (List.mem_filter.mp (hkeep.mem_iff.mp hp)).2

end Deliveries

end PressedKeys

end SoftPC
