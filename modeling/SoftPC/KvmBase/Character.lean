import Mathlib.Data.List.Induction
import Mathlib.Data.List.Nodup
import SoftPC.KvmBase.Hotkey

/-!
# KvmBase/Character — a character typed as a chord

    modifiers it adds ▾ ··· character key ▾ ▴ ··· modifiers it added ▴

`lib/kvm-base/input.c`.  The chord finds by logical key what is held already, and the ledger it is submitted to knows
a key by its scan code.  Where the two agree on the keys added, the ledger is left as it was (`typed_neutral`); the
character key's make is a repeat if the key was held, and no break of it follows (`held_key_repeats`).
-/

namespace SoftPC

/-- What `base_keyboard_map_scalar` yields: a key of the layout, and the modifiers it needs. -/
structure ScalarKey where
  scanCode : UInt16
  key : BaseKey
  modifiers : UInt8
  deriving DecidableEq

/-- `modifier_keys`, `modifier_scans`, and the bit of each. -/
def modifierKeys : List (BaseKey × UInt16 × UInt8) :=
  [(.control, 0x1d, modifierControl), (.alt, 0x38, modifierAlt), (.shift, 0x2a, modifierShift)]

/-- A key of the chord, and whether it is `owned`. -/
structure ChordKey where
  input : KeyInput
  owned : Bool

namespace ChordKey

variable (c : ChordKey)

/-- The physical key. -/
def identity : KeyId := c.input.key.identity

/-- Its make or break, under the modifiers then active. -/
def event (pressed : Bool) (modifiers : UInt8) : KeyInput :=
  { c.input with key := { c.input.key with pressed, modifiers } }

/-- The bit that an owned modifier adds. -/
def bit : UInt8 :=
  if c.input.key.key = .control then modifierControl
  else if c.input.key.key = .alt then modifierAlt
  else modifierShift

/-- The makes: of what is owned, and of the last key. -/
def makes : List ChordKey → UInt8 → List KeyInput × UInt8
  | [], active => ([], active)
  | [c], active => ([c.event true active], active)
  | c :: rest, active =>
    if !c.owned then makes rest active
    else
      let r := makes rest (active ||| c.bit)
      (c.event true (active ||| c.bit) :: r.1, r.2)

/-- The breaks of what is owned, last key first. -/
def breaks : List ChordKey → UInt8 → List KeyInput
  | [], _ => []
  | c :: rest, active =>
    if !c.owned then breaks rest active
    else
      let active := active &&& ~~~modifierBit c.input.key.key
      c.event false active :: breaks rest active

end ChordKey

namespace HotkeyMatcher

variable {σ : Type*}

/-- A key as it is held, or as the chord adds it. -/
def chordKey (m : HotkeyMatcher) (key : BaseKey) (scanCode : UInt16) : ChordKey :=
  match m.heldKey key with
  | some held => ⟨held, false⟩
  | none => ⟨⟨0, 0, { scanCode, key, flags := 0, modifiers := 0, pressed := false }⟩, true⟩

/-- The chord: the modifiers needed, then the key. -/
def chord (m : HotkeyMatcher) (k : ScalarKey) : List ChordKey :=
  ((modifierKeys.filter fun x => k.modifiers &&& x.2.2 ≠ 0).map fun x => m.chordKey x.1 x.2.1) ++
    [m.chordKey k.key k.scanCode]

/-- The modifiers held. -/
def activeModifiers (m : HotkeyMatcher) : UInt8 :=
  (modifierKeys.filter fun x => (m.heldKey x.1).isSome).foldl (fun active x => active ||| x.2.2) 0

/-- What is delivered for a key: it does not depend on the deliveries. -/
def typed (m : HotkeyMatcher) (k : ScalarKey) : List KeyInput :=
  let down := ChordKey.makes (m.chord k) m.activeModifiers
  down.1 ++ ChordKey.breaks (m.chord k).reverse down.2

end HotkeyMatcher

/-- Events to a sink, up to one that it refuses. -/
def deliverAll {σ : Type*} (sink : Sink σ) : List InputEvent → σ → Bool × σ
  | [], context => (true, context)
  | e :: events, context =>
    match sink context e with
    | (false, context) => (false, context)
    | (true, context) => deliverAll sink events context

/-- A scalar value of Unicode, not zero. -/
def scalarValid (scalar : UInt32) : Bool :=
  !(scalar == 0 || scalar > 0x10ffff || (scalar ≥ 0xd800 && scalar ≤ 0xdfff))

/-- What `kvm_keyboard_submit_character` delivers, for `mapScalar` the layout: a chord, or text. -/
def characterEvents (mapScalar : UInt32 → Option ScalarKey) (m : HotkeyMatcher) (scalar : UInt32) : List InputEvent :=
  match mapScalar scalar with
  | none => [⟨0, 0, .text scalar⟩]
  | some k => (m.typed k).map KeyInput.toEvent

/-- `kvm_keyboard_submit_character`. -/
def submitCharacter {σ : Type*} (mapScalar : UInt32 → Option ScalarKey) (m : HotkeyMatcher) (sink : Sink σ)
    (scalar : UInt32) (context : σ) : Bool × σ :=
  if !scalarValid scalar then (false, context) else deliverAll sink (characterEvents mapScalar m scalar) context

/-- `kvm_component_emit`: an event of the component's own, submitted to its matcher. -/
def componentEmit {σ : Type*} (storage : Allocation) (sink : Sink σ) (source : ℕ) (sourceIdentity : UInt64) :
    Sink (HotkeyMatcher × σ) := fun c e =>
  let r := c.1.submit storage sink ⟨source, sourceIdentity, e.data⟩ true c.2
  if r.1 then (true, r.2) else (false, r.2.1.discard, r.2.2)

/-! ## The keys of the ledger -/

/-- A key held from its make to its break. -/
def ledgerStep (ids : List KeyId) (t : KeyId × Bool) : List KeyId :=
  if t.2 then if t.1 ∈ ids then ids else ids ++ [t.1] else ids.erase t.1

namespace HotkeyMatcher

variable {σ : Type*} (sink : Sink σ) (context : σ)

theorem flushHeld_identities (held : List HeldKey) :
    identities (flushHeld sink held context).2.1 = identities held := by
  induction held generalizing context with
  | nil => rfl
  | cons h held ih =>
    rw [flushHeld]
    split
    · exact congrArg (h.identity :: ·) (ih context)
    split
    · split
      · rfl
      · exact congrArg (h.identity :: ·) (ih _)
    · exact congrArg (h.identity :: ·) (ih context)

theorem flushThen_identities (m : HotkeyMatcher) (event : InputEvent) :
    identities (m.flushThen sink event context).2.1.held = identities m.held := by
  have hflush : identities (m.flushPending sink context).2.1.held = identities m.held :=
    flushHeld_identities sink context m.held
  rw [flushThen]
  split
  · rename_i heq
    rw [heq] at hflush
    exact hflush
  · rename_i heq
    rw [heq] at hflush
    exact hflush

theorem press_identities (m : HotkeyMatcher) (key : HeldKey) (event : KeyInput) :
    identities (m.press sink key event context).2.1.held = identities m.held := by
  rw [press]
  split
  · exact flushThen_identities sink context m event.toEvent
  split
  · change identities (consume m.held) = identities m.held
    rw [identities, consume, List.map_map]
    exact List.map_congr_left fun h _ => h.settle_identity .consumed
  split
  · rfl
  split
  · rfl
  · exact flushHeld_identities sink context m.held

/-- The search finds the first entry of the key. -/
theorem eraseIdx_identities (held : List HeldKey) (k : KeyEvent) :
    (identities held).eraseIdx (held.findIdx fun h => h.make.key.sameKey k) = (identities held).erase k.identity := by
  induction held with
  | nil => rfl
  | cons h held ih =>
    rw [identities, List.map_cons, List.findIdx_cons]
    by_cases hk : h.identity = k.identity
    · have hsame : h.make.key.sameKey k = true := (KeyEvent.sameKey_iff _ _).mpr hk
      rw [hsame, cond_true, List.eraseIdx_cons_zero, hk, List.erase_cons_head]
    · have hsame : h.make.key.sameKey k = false := by
        rw [← Bool.not_eq_true, KeyEvent.sameKey_iff]
        exact hk
      rw [hsame, cond_false, List.eraseIdx_cons_succ, List.erase_cons_tail (by simpa using hk)]
      exact congrArg (h.identity :: ·) ih

/-- **What a transition does to the ledger**, if it succeeds. -/
theorem transition_identities (storage : Allocation) (m : HotkeyMatcher) (event : KeyInput) (allowReplay : Bool)
    (h : (m.transition storage sink event allowReplay context).1 = true) :
    identities (m.transition storage sink event allowReplay context).2.1.held =
      ledgerStep (identities m.held) (event.key.identity, event.key.pressed) := by
  rw [transition] at h ⊢
  rcases lookup_cases m.held event.key with ⟨hnone, hnew⟩ | ⟨held, hmem, hsome, hid⟩
  · rw [hnone] at h ⊢
    cases hpressed : event.key.pressed with
    | false => exact (List.erase_of_not_mem hnew).symm
    | true =>
      rw [hpressed] at h
      cases hentered : m.enter storage event allowReplay with
      | none =>
        rw [hentered] at h
        cases h
      | some entered =>
        obtain ⟨capacity, heq⟩ := enter_eq_some hentered
        refine (press_identities sink context entered ⟨event, .pending, allowReplay⟩ event).trans ?_
        rw [heq, ledgerStep, if_pos rfl, if_neg hnew]
        exact List.map_append
  · rw [hsome] at h ⊢
    have hin : event.key.identity ∈ identities m.held := hid ▸ List.mem_map.mpr ⟨held, hmem, rfl⟩
    have herase (after : List HeldKey) (hafter : identities after = identities m.held) :
        identities (after.eraseIdx (m.held.findIdx fun h => h.make.key.sameKey event.key)) =
          (identities m.held).erase event.key.identity := by
      rw [identities, ← List.eraseIdx_map, ← identities, hafter, eraseIdx_identities]
    cases hpressed : event.key.pressed with
    | false =>
      have hrelabel : (relabel event held.make.key.key).key.pressed = false := hpressed
      dsimp only at h ⊢
      rw [hrelabel] at h ⊢
      rw [Bool.not_false, if_pos rfl] at h ⊢
      rw [ledgerStep, if_neg Bool.false_ne_true]
      split
      · have hflush := flushThen_identities sink context m (relabel event held.make.key.key).toEvent
        rw [if_pos ‹_›] at h
        generalize m.flushThen sink (relabel event held.make.key.key).toEvent context = o at h hflush ⊢
        obtain ⟨ok, after, context'⟩ := o
        cases ok with
        | false => cases h
        | true => exact herase after.held hflush
      · exact herase m.held rfl
    | true =>
      have hrelabel : (relabel event held.make.key.key).key.pressed = true := hpressed
      dsimp only
      rw [hrelabel, Bool.not_true, if_neg Bool.false_ne_true, ledgerStep, if_pos rfl, if_pos hin]
      exact press_identities sink context m held _

theorem heldKey_identity {m : HotkeyMatcher} {key : BaseKey} {held : KeyInput} (h : m.heldKey key = some held) :
    held.key.identity ∈ identities m.held := by
  rw [heldKey, Option.map_eq_some_iff] at h
  obtain ⟨entry, hfind, rfl⟩ := h
  exact List.mem_map.mpr ⟨entry, List.mem_of_find?_eq_some hfind, rfl⟩

end HotkeyMatcher

/-- The transitions of events, in their order. -/
def transitions (events : List InputEvent) : List (KeyId × Bool) := events.filterMap InputEvent.transition

section Deliveries

variable {σ : Type*} {storage : Allocation} {sink : Sink σ} {source : ℕ} {sourceIdentity : UInt64}

/-- What a delivery does to the ledger, if it succeeds. -/
theorem componentEmit_identities {e : InputEvent} (hkey : (∃ k, e.data = .key k) ∨ ∃ c, e.data = .text c)
    {c : HotkeyMatcher × σ} (h : (componentEmit storage sink source sourceIdentity c e).1 = true) :
    HotkeyMatcher.identities (componentEmit storage sink source sourceIdentity c e).2.1.held =
      (transitions [e]).foldl ledgerStep (HotkeyMatcher.identities c.1.held) := by
  have hsubmit : (c.1.submit storage sink ⟨source, sourceIdentity, e.data⟩ true c.2).1 = true := by
    rw [componentEmit] at h
    by_contra hfail
    rw [if_neg hfail] at h
    cases h
  rw [componentEmit, hsubmit, if_pos rfl]
  obtain ⟨source', sourceIdentity', data⟩ := e
  rw [HotkeyMatcher.submit] at hsubmit ⊢
  split at hsubmit
  · cases hsubmit
  · rw [if_neg ‹_›]
    rcases hkey with ⟨k, hk⟩ | ⟨t, ht⟩
    · obtain rfl : data = .key k := hk
      dsimp only at hsubmit ⊢
      split at hsubmit
      · rename_i hok
        rw [if_pos hok]
        exact HotkeyMatcher.transition_identities sink c.2 storage c.1 ⟨source, sourceIdentity, k⟩ true hok
      · cases hsubmit
    · obtain rfl : data = .text t := ht
      dsimp only at hsubmit ⊢
      split at hsubmit
      · rename_i hok
        rw [if_pos hok]
        exact HotkeyMatcher.flushThen_identities sink c.2 c.1 ⟨source, sourceIdentity, .text t⟩
      · cases hsubmit

/-- **Deliveries that succeed** press and release the keys of the ledger. -/
theorem deliverAll_identities {events : List InputEvent}
    (hkeys : ∀ e ∈ events, (∃ k, e.data = .key k) ∨ ∃ c, e.data = .text c) {c : HotkeyMatcher × σ}
    (h : (deliverAll (componentEmit storage sink source sourceIdentity) events c).1 = true) :
    HotkeyMatcher.identities (deliverAll (componentEmit storage sink source sourceIdentity) events c).2.1.held =
      (transitions events).foldl ledgerStep (HotkeyMatcher.identities c.1.held) := by
  induction events generalizing c with
  | nil => rfl
  | cons e events ih =>
    have hfirst := @componentEmit_identities _ storage sink source sourceIdentity _ (hkeys e List.mem_cons_self) c
    rw [deliverAll] at h ⊢
    generalize componentEmit storage sink source sourceIdentity c e = o at h hfirst ⊢
    obtain ⟨ok, c'⟩ := o
    cases ok with
    | false => cases h
    | true =>
      have hcons : transitions (e :: events) = transitions [e] ++ transitions events :=
        List.filterMap_append (l := [e])
      rw [hcons, List.foldl_append, ← hfirst rfl]
      exact ih (fun e' he' => hkeys e' (.tail _ he')) h

end Deliveries

/-! ## The chord -/

namespace ChordKey

/-- The makes of a chord, as transitions. -/
theorem makes_transitions (cs : List ChordKey) (c : ChordKey) (active : UInt8) :
    (makes (cs ++ [c]) active).1.map (fun e => (e.key.identity, e.key.pressed)) =
      (cs.filter (·.owned) ++ [c]).map fun c => (c.identity, true) := by
  induction cs generalizing active with
  | nil => rfl
  | cons c' cs ih =>
    have hne : cs ++ [c] ≠ [] := List.append_ne_nil_of_right_ne_nil _ (List.cons_ne_nil _ _)
    rw [List.cons_append, makes]
    · cases howned : c'.owned with
      | false =>
        rw [Bool.not_false, if_pos rfl, ih, List.filter_cons_of_neg (by simpa using howned)]
      | true =>
        rw [Bool.not_true, if_neg Bool.false_ne_true, List.map_cons, ih, List.filter_cons_of_pos howned]
        rfl
    · exact hne

/-- …and its breaks. -/
theorem breaks_transitions (cs : List ChordKey) (active : UInt8) :
    (breaks cs active).map (fun e => (e.key.identity, e.key.pressed)) =
      (cs.filter (·.owned)).map fun c => (c.identity, false) := by
  induction cs generalizing active with
  | nil => rfl
  | cons c cs ih =>
    rw [breaks]
    cases howned : c.owned with
    | false => rw [Bool.not_false, if_pos rfl, ih, List.filter_cons_of_neg (by simpa using howned)]
    | true =>
      rw [Bool.not_true, if_neg Bool.false_ne_true, List.filter_cons_of_pos howned]
      exact congrArg (_ :: ·) (ih _)

end ChordKey

/-- Keys pressed that were not held. -/
theorem foldl_press {ids added : List KeyId} (hnodup : added.Nodup) (hnew : ∀ k ∈ added, k ∉ ids) :
    (added.map (·, true)).foldl ledgerStep ids = ids ++ added := by
  induction added generalizing ids with
  | nil => exact (List.append_nil ids).symm
  | cons k added ih =>
    obtain ⟨hk, hnodup⟩ := List.nodup_cons.mp hnodup
    have hrest : ∀ k' ∈ added, k' ∉ ids ++ [k] := fun k' hk' hmem => by
      rcases List.mem_append.mp hmem with hold | hlast
      · exact hnew k' (.tail _ hk') hold
      · exact hk (List.mem_singleton.mp hlast ▸ hk')
    rw [List.map_cons, List.foldl_cons, ledgerStep, if_pos rfl, if_neg (hnew k List.mem_cons_self), ih hnodup hrest,
      List.append_assoc]
    rfl

/-- …and released, the last first. -/
theorem foldl_release {ids added : List KeyId} (hnodup : added.Nodup) (hnew : ∀ k ∈ added, k ∉ ids) :
    (added.reverse.map (·, false)).foldl ledgerStep (ids ++ added) = ids := by
  induction added using List.reverseRecOn with
  | nil => exact List.append_nil ids
  | append_singleton added k ih =>
    have hk : k ∉ ids ++ added := fun hmem => by
      rcases List.mem_append.mp hmem with hold | hadded
      · exact hnew k (List.mem_append_right _ (List.mem_singleton_self k)) hold
      · exact List.disjoint_of_nodup_append hnodup hadded (List.mem_singleton_self k)
    rw [List.reverse_append, List.reverse_singleton, List.singleton_append, List.map_cons, List.foldl_cons, ledgerStep,
      if_neg Bool.false_ne_true, ← List.append_assoc, List.erase_append_right _ hk, List.erase_cons_head,
      List.append_nil]
    exact ih hnodup.of_append_left fun k' hk' => hnew k' (List.mem_append_left _ hk')

/-! ## A character typed -/

namespace HotkeyMatcher

variable {m : HotkeyMatcher} {k : ScalarKey}

/-- The physical keys a chord adds. -/
def added (m : HotkeyMatcher) (k : ScalarKey) : List KeyId := ((m.chord k).filter (·.owned)).map (·.identity)

/-- **What is added is new**: no key is added twice, nor is one held under another logical key. -/
def Fresh (m : HotkeyMatcher) (k : ScalarKey) : Prop :=
  (m.added k).Nodup ∧ ∀ id ∈ m.added k, id ∉ identities m.held

instance (m : HotkeyMatcher) (k : ScalarKey) : Decidable (m.Fresh k) := inferInstanceAs (Decidable (_ ∧ _))

/-- A key found by its logical key is held. -/
theorem chordKey_held {key : BaseKey} {scanCode : UInt16} (h : (m.chordKey key scanCode).owned = false) :
    (m.chordKey key scanCode).identity ∈ identities m.held := by
  rw [chordKey] at h ⊢
  split at h
  · rename_i held hheld
    exact heldKey_identity hheld
  · cases h

/-- What a chord delivers, as transitions: the keys added, the last of them held perhaps, and those added back. -/
theorem typed_transitions (m : HotkeyMatcher) (k : ScalarKey) : ∃ downs ups : List InputEvent,
    (m.typed k).map KeyInput.toEvent = downs ++ ups ∧ transitions ups = (m.added k).reverse.map (·, false) ∧
    (transitions downs = (m.added k).map (·, true) ∨
      ∃ id ∈ identities m.held, transitions downs = (m.added k).map (·, true) ++ [(id, true)]) := by
  have hmap (keys : List KeyInput) :
      transitions (keys.map KeyInput.toEvent) = keys.map fun e => (e.key.identity, e.key.pressed) := by
    rw [transitions, List.filterMap_map]
    exact congrFun (List.filterMap_eq_map (f := fun e : KeyInput => (e.key.identity, e.key.pressed))) keys
  rw [typed]
  refine ⟨_, _, List.map_append, ?_, ?_⟩
  · rw [hmap, ChordKey.breaks_transitions, List.filter_reverse, List.map_reverse, added, List.map_reverse, List.map_map]
    rfl
  · rw [hmap, chord, ChordKey.makes_transitions, added, chord, List.filter_append]
    cases howned : (m.chordKey k.key k.scanCode).owned with
    | true =>
      left
      rw [List.filter_singleton, howned, List.map_map]
      rfl
    | false =>
      refine .inr ⟨_, chordKey_held howned, ?_⟩
      rw [List.filter_singleton, howned, List.map_append, List.map_map]
      simp

end HotkeyMatcher

/-- Every make of the key is followed by a break of it. -/
def Closed (events : List InputEvent) (k : KeyId) : Prop :=
  ∀ before e after, events = before ++ e :: after → e.transition = some (k, true) →
    ∃ e' ∈ after, e'.transition = some (k, false)

theorem mem_transitions {events : List InputEvent} {t : KeyId × Bool} :
    t ∈ transitions events ↔ ∃ e ∈ events, e.transition = some t := List.mem_filterMap

/-- Makes first, then breaks. -/
theorem closed_append {downs ups : List InputEvent} {k : KeyId} (hups : (k, true) ∉ transitions ups)
    (hclosed : (k, true) ∈ transitions downs → (k, false) ∈ transitions ups) : Closed (downs ++ ups) k := by
  intro before e after heq hmake
  have hnot : e ∉ ups := fun hmem => hups (mem_transitions.2 ⟨e, hmem, hmake⟩)
  rcases List.append_eq_append_iff.mp heq with ⟨x, hbefore, hafter⟩ | ⟨x, hdowns, hrest⟩
  · exact absurd (hafter ▸ List.mem_append_right x List.mem_cons_self) hnot
  · cases x with
    | nil =>
      have hrest : e :: after = ups := hrest
      exact absurd (hrest ▸ List.mem_cons_self) hnot
    | cons e' x =>
      obtain ⟨rfl, rfl⟩ := List.cons.inj hrest
      have hdown : e ∈ downs := hdowns ▸ List.mem_append_right before List.mem_cons_self
      obtain ⟨e', hmem, hbreak⟩ := mem_transitions.1 (hclosed (mem_transitions.2 ⟨e, hdown, hmake⟩))
      exact ⟨e', List.mem_append_right x hmem, hbreak⟩

/-- **A character typed is neutral for held keys**: if every key it adds is new to the ledger, it leaves the same
keys held, breaks none of them, and breaks every key that it makes and that was not held. -/
theorem typed_neutral {σ : Type*} (mapScalar : UInt32 → Option ScalarKey) (storage : Allocation) (sink : Sink σ)
    (source : ℕ) (sourceIdentity : UInt64) (m : HotkeyMatcher) (context : σ) (scalar : UInt32)
    (hfresh : ∀ k ∈ mapScalar scalar, m.Fresh k)
    (hok : (submitCharacter mapScalar m (componentEmit storage sink source sourceIdentity) scalar (m, context)).1 =
      true) :
    HotkeyMatcher.identities
        (submitCharacter mapScalar m (componentEmit storage sink source sourceIdentity) scalar (m, context)).2.1.held =
      HotkeyMatcher.identities m.held ∧
    (∀ e ∈ characterEvents mapScalar m scalar, ∀ k ∈ HotkeyMatcher.identities m.held,
      e.transition ≠ some (k, false)) ∧
    ∀ k ∉ HotkeyMatcher.identities m.held, Closed (characterEvents mapScalar m scalar) k := by
  rw [submitCharacter] at hok ⊢
  split at hok
  · cases hok
  · rw [if_neg ‹_›]
    cases hmap : mapScalar scalar with
    | none =>
      have hevents : characterEvents mapScalar m scalar = [⟨0, 0, .text scalar⟩] := by rw [characterEvents, hmap]
      rw [hevents] at hok ⊢
      refine ⟨deliverAll_identities (fun e he => ?_) hok, fun e he k _ => ?_, fun k _ => ?_⟩
      · exact .inr ⟨scalar, (List.mem_singleton.mp he) ▸ rfl⟩
      · rw [List.mem_singleton.mp he]
        exact nofun
      · exact @closed_append [] _ _ nofun nofun
    | some k =>
      have hevents : characterEvents mapScalar m scalar = (m.typed k).map KeyInput.toEvent := by
        rw [characterEvents, hmap]
      obtain ⟨hnodup, hnew⟩ := hfresh k hmap
      obtain ⟨downs, ups, htyped, hups, hdowns⟩ := m.typed_transitions k
      have hbreaks (id : KeyId) : (id, false) ∈ transitions ups ↔ id ∈ m.added k := by
        rw [hups, List.mem_map]
        simp
      have hmakes (id : KeyId) (hmake : (id, true) ∈ transitions downs) :
          id ∈ m.added k ∨ id ∈ HotkeyMatcher.identities m.held := by
        rcases hdowns with hdowns | ⟨last, hlast, hdowns⟩
        · rw [hdowns] at hmake
          exact .inl (by simpa using hmake)
        · rw [hdowns] at hmake
          rcases List.mem_append.mp hmake with hadded | hrepeat
          · exact .inl (by simpa using hadded)
          · obtain rfl : id = last := congrArg Prod.fst (List.mem_singleton.mp hrepeat)
            exact .inr hlast
      have hnone (id : KeyId) : (id, true) ∉ transitions ups := by
        rw [hups]
        simp
      rw [hevents] at hok ⊢
      have hpressed : (transitions downs).foldl ledgerStep (HotkeyMatcher.identities m.held) =
          HotkeyMatcher.identities m.held ++ m.added k := by
        rcases hdowns with hdowns | ⟨last, hlast, hdowns⟩
        · rw [hdowns, foldl_press hnodup hnew]
        · rw [hdowns, List.foldl_append, foldl_press hnodup hnew, List.foldl_cons, List.foldl_nil, ledgerStep, if_pos rfl,
            if_pos (List.mem_append_left _ hlast)]
      refine ⟨?_, fun e he id hid hbreak => ?_, fun id hid => ?_⟩
      · have hkeys : ∀ e ∈ (m.typed k).map KeyInput.toEvent, (∃ k, e.data = .key k) ∨ ∃ c, e.data = .text c := by
          intro e he
          obtain ⟨key, -, rfl⟩ := List.mem_map.mp he
          exact .inl ⟨key.key, rfl⟩
        have hsplit : transitions (downs ++ ups) = transitions downs ++ transitions ups := List.filterMap_append
        rw [deliverAll_identities hkeys hok, htyped, hsplit, List.foldl_append, hpressed, hups]
        exact foldl_release hnodup hnew
      · rw [htyped] at he
        rcases List.mem_append.mp he with hdown | hup
        · have hmem := mem_transitions.2 ⟨e, hdown, hbreak⟩
          rcases hdowns with hdowns | ⟨last, -, hdowns⟩
          · rw [hdowns] at hmem
            simp at hmem
          · rw [hdowns] at hmem
            simp at hmem
        · exact hnew id ((hbreaks id).mp (mem_transitions.2 ⟨e, hup, hbreak⟩)) hid
      · rw [htyped]
        refine closed_append (hnone id) fun hmake => (hbreaks id).mpr ?_
        exact (hmakes id hmake).resolve_right hid

/-! ### Typing while a key is held -/

/-- A ledger with one key, delivered. -/
def holding (scanCode : UInt16) (key : BaseKey) : HotkeyMatcher where
  registry := .initialized
  held := [⟨⟨0, 0, { scanCode, key, flags := 0, modifiers := 0, pressed := true }⟩, .delivered, true⟩]
  heldCapacity := 8
  failed := false

/-- A layout with `a` and `A`. -/
def layoutA (scalar : UInt32) : Option ScalarKey :=
  if scalar = 0x61 then some ⟨0x1e, 0x41, 0⟩
  else if scalar = 0x41 then some ⟨0x1e, 0x41, modifierShift⟩
  else none

/-- Storage for a thousand entries. -/
def roomy : Allocation := ⟨1000, 1, true⟩

/-- `A` typed while the right Shift key is held. -/
theorem typed_neutral_shifted :
    HotkeyMatcher.identities (submitCharacter layoutA (holding 0x36 .shift) (componentEmit roomy recording 0 0) 0x41
        (holding 0x36 .shift, [])).2.1.held = HotkeyMatcher.identities (holding 0x36 .shift).held ∧
    (∀ e ∈ characterEvents layoutA (holding 0x36 .shift) 0x41,
      ∀ k ∈ HotkeyMatcher.identities (holding 0x36 .shift).held, e.transition ≠ some (k, false)) ∧
    ∀ k ∉ HotkeyMatcher.identities (holding 0x36 .shift).held,
      Closed (characterEvents layoutA (holding 0x36 .shift) 0x41) k :=
  typed_neutral layoutA roomy recording 0 0 (holding 0x36 .shift) [] 0x41 (by decide) (by decide)

/-- **`a` typed while it is held** repeats its make, and no break follows. -/
theorem held_key_repeats : ¬∀ k, Closed (characterEvents layoutA (holding 0x1e 0x41) 0x61) k := by
  intro h
  obtain ⟨e, hmem, -⟩ := h (.scan false 0x1e) [] _ [] rfl rfl
  exact List.not_mem_nil hmem

end SoftPC
