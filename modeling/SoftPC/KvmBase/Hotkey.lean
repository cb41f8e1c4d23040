import Mathlib.Data.List.InsertIdx
import SoftPC.KvmBase.Event

/-!
# KvmBase/Hotkey — held modifiers, replayed or swallowed

`lib/kvm-base/hotkey.c`.  The matcher keeps every physical key that is down, in make order, with what
became of its make: PENDING (not shown to the sink yet), DELIVERED, or CONSUMED by a chord.

`Moves` lists everything one submission can do when the sink succeeds (`submit_moves`);
`KvmBase/HotkeyStream` derives the stream law from it, one case a constructor, and never looks at
`submit` again.
-/

namespace SoftPC

open scoped List

/-- `KVM_HOTKEY_CAPACITY`. -/
def hotkeyCapacity : ℕ := 16

/-- `KVM_HOTKEY_IDENTIFIER_CAPACITY`. -/
def hotkeyIdentifierCapacity : ℕ := 64

/-- `kvm_hotkey_registration`. -/
structure HotkeyRegistration where
  key : BaseKey
  modifiers : UInt8
  identifier : List UInt8
  deriving DecidableEq

/-- `kvm_hotkey_registry`: no chord is registered twice. -/
structure HotkeyRegistry where
  entries : List HotkeyRegistration
  bounded : entries.length ≤ hotkeyCapacity
  distinct : entries.Pairwise fun a b => (a.key, a.modifiers) ≠ (b.key, b.modifiers)

namespace HotkeyRegistry

/-- `kvm_hotkey_registry_initialize`. -/
def initialized : HotkeyRegistry := ⟨[], by decide, .nil⟩

/-- `kvm_hotkey_registry_register`, for the bytes at `identifier`; what is copied ends at the first
NUL. -/
def register (registry : HotkeyRegistry) (key : BaseKey) (modifiers : UInt8)
    (identifier : List UInt8) : Status × HotkeyRegistry :=
  if key = 0 ∨ 0 ∉ identifier.take hotkeyIdentifierCapacity then (.invalidArgument, registry)
  else if hdup : registry.entries.any fun e => e.key = key ∧ e.modifiers = modifiers then
    (.invalidState, registry)
  else if hfull : registry.entries.length = hotkeyCapacity then (.limitExceeded, registry)
  else
    (.ok,
      { entries := registry.entries ++ [⟨key, modifiers, identifier.takeWhile (· ≠ 0)⟩]
        bounded := by
          have := registry.bounded
          simp only [List.length_append, List.length_singleton]
          omega
        distinct := by
          refine List.pairwise_append.mpr ⟨registry.distinct, List.pairwise_singleton _ _, ?_⟩
          intro a ha b hb
          obtain rfl := List.mem_singleton.mp hb
          simp only [List.any_eq_true, decide_eq_true_eq, not_exists, not_and] at hdup
          simpa using hdup a ha })

/-- `kvm_hotkey_registry_match`. -/
def match? (registry : HotkeyRegistry) (key : BaseKey) (modifiers : UInt8) :
    Option HotkeyRegistration :=
  registry.entries.find? fun e => e.key == key && e.modifiers == modifiers

/-- `kvm_hotkey_registry_has_modifier`. -/
def hasModifier (registry : HotkeyRegistry) (modifier : UInt8) : Bool :=
  modifier != 0 && registry.entries.any fun e => e.modifiers &&& modifier != 0

end HotkeyRegistry

/-- `kvm_hotkey_modifier_bit`. -/
def modifierBit (key : BaseKey) : UInt8 :=
  if key = .control then modifierControl
  else if key = .alt then modifierAlt
  else if key = .shift then modifierShift
  else 0

/-- `kvm_hotkey_key_state`. -/
inductive HotkeyState where
  | pending | delivered | consumed
  deriving DecidableEq

/-- `kvm_hotkey_held_key`. -/
structure HeldKey where
  make : KeyInput
  state : HotkeyState
  allowReplay : Bool
  deriving DecidableEq

namespace HeldKey

/-- The physical key held. -/
def identity (h : HeldKey) : KeyId := h.make.key.identity

/-- A pending key gets its disposition; any other keeps the one it has. -/
def settle (fate : HotkeyState) (h : HeldKey) : HeldKey :=
  if h.state = .pending then { h with state := fate } else h

@[simp] theorem settle_make (fate : HotkeyState) (h : HeldKey) : (h.settle fate).make = h.make := by
  unfold settle
  split <;> rfl

@[simp] theorem settle_allowReplay (fate : HotkeyState) (h : HeldKey) :
    (h.settle fate).allowReplay = h.allowReplay := by
  unfold settle
  split <;> rfl

@[simp] theorem settle_identity (fate : HotkeyState) (h : HeldKey) :
    (h.settle fate).identity = h.identity := by
  rw [identity, settle_make, identity]

theorem settle_state (fate : HotkeyState) (h : HeldKey) :
    (h.settle fate).state = if h.state = .pending then fate else h.state := by
  unfold settle
  split <;> simp_all

end HeldKey

/-- `kvm_hotkey_matcher`. -/
structure HotkeyMatcher where
  registry : HotkeyRegistry
  /-- In make order. -/
  held : List HeldKey
  heldCapacity : ℕ
  failed : Bool

namespace HotkeyMatcher

variable {σ : Type*}

/-- `kvm_hotkey_matcher_initialize`. -/
def initialized (registry : HotkeyRegistry) : HotkeyMatcher := ⟨registry, [], 0, false⟩

/-! ## Submission -/

/-- The loop of `kvm_hotkey_flush_pending`. -/
def flushHeld (sink : Sink σ) : List HeldKey → σ → Bool × List HeldKey × σ
  | [], context => (true, [], context)
  | h :: held, context =>
    let continue_ (h : HeldKey) (context : σ) :=
      let rest := flushHeld sink held context
      (rest.1, h :: rest.2.1, rest.2.2)
    if h.state ≠ .pending then continue_ h context
    else if h.allowReplay then
      match sink context h.make.toEvent with
      | (false, context) => (false, h :: held, context)
      | (true, context) => continue_ { h with state := .delivered } context
    else continue_ { h with state := .delivered } context

/-- `kvm_hotkey_flush_pending`. -/
def flushPending (sink : Sink σ) (m : HotkeyMatcher) (context : σ) : Bool × HotkeyMatcher × σ :=
  let result := flushHeld sink m.held context
  (result.1, { m with held := result.2.1 }, result.2.2)

/-- `kvm_hotkey_flush_pending(…) && sink(context, event)`. -/
def flushThen (sink : Sink σ) (m : HotkeyMatcher) (event : InputEvent) (context : σ) :
    Bool × HotkeyMatcher × σ :=
  match m.flushPending sink context with
  | (false, m, context) => (false, m, context)
  | (true, m, context) => ((sink context event).1, m, (sink context event).2)

/-- A new entry of the ledger; `none` is storage that cannot grow. -/
def enter (storage : Allocation) (m : HotkeyMatcher) (event : KeyInput) (allowReplay : Bool) :
    Option HotkeyMatcher :=
  let entered (capacity : ℕ) : HotkeyMatcher :=
    { m with held := m.held ++ [⟨event, .pending, allowReplay⟩], heldCapacity := capacity }
  if m.held.length = m.heldCapacity then
    let capacity := if m.heldCapacity ≠ 0 then storage.doubled m.heldCapacity else 8
    if capacity < m.heldCapacity ∨ storage.holds capacity = false then none
    else some (entered capacity)
  else some (entered m.heldCapacity)

/-- No delivered modifier takes part in the chord. -/
def eligible (m : HotkeyMatcher) (event : KeyInput) : Bool :=
  m.held.all fun h =>
    !(h.state == .delivered && modifierBit h.make.key.key &&& event.key.modifiers != 0)

/-- The chord an event completes. -/
def matched (m : HotkeyMatcher) (event : KeyInput) : Option HotkeyRegistration :=
  if m.eligible event then m.registry.match? event.key.key event.key.modifiers else none

/-- Every pending key joins the chord. -/
def consume (held : List HeldKey) : List HeldKey := held.map (·.settle .consumed)

/-- The KVM_EVENT_HOTKEY that replaces a chord's trigger. -/
def hotkeyEvent (event : KeyInput) (registration : HotkeyRegistration) : InputEvent :=
  ⟨event.source, event.sourceIdentity, .hotkey registration.identifier⟩

/-- A make, once its key has an entry: the tail of `kvm_hotkey_transition`. -/
def press (sink : Sink σ) (m : HotkeyMatcher) (key : HeldKey) (event : KeyInput) (context : σ) :
    Bool × HotkeyMatcher × σ :=
  if key.state = .delivered then m.flushThen sink event.toEvent context
  else
    match m.matched event with
    | some registration =>
      let result := sink context (hotkeyEvent event registration)
      (result.1, { m with held := consume m.held }, result.2)
    | none =>
      if key.state = .consumed then (true, m, context)
      else if m.registry.hasModifier (modifierBit event.key.key) then (true, m, context)
      -- The new ordinary make is already pending, in insertion order.
      else m.flushPending sink context

/-- The event under the logical key its physical key is held by: a layout or lock change does not
change a held key's lifetime. -/
def relabel (event : KeyInput) (key : BaseKey) : KeyInput :=
  { event with key := { event.key with key := key } }

/-- `kvm_hotkey_transition`. -/
def transition (storage : Allocation) (sink : Sink σ) (m : HotkeyMatcher) (event : KeyInput)
    (allowReplay : Bool) (context : σ) : Bool × HotkeyMatcher × σ :=
  let index := m.held.findIdx fun h => h.make.key.sameKey event.key
  match m.held[index]? with
  | none =>
    if !event.key.pressed then (true, m, context)
    else
      match m.enter storage event allowReplay with
      | none => (false, m, context)
      | some m => m.press sink ⟨event, .pending, allowReplay⟩ event context
  | some key =>
    let event := relabel event key.make.key.key
    if !event.key.pressed then
      if key.state ≠ .consumed then
        match m.flushThen sink event.toEvent context with
        | (false, m, context) => (false, m, context)
        | (true, m, context) => (true, { m with held := m.held.eraseIdx index }, context)
      else (true, { m with held := m.held.eraseIdx index }, context)
    else m.press sink key event context

/-- `kvm_hotkey_matcher_submit`. -/
def submit (storage : Allocation) (sink : Sink σ) (m : HotkeyMatcher) (event : InputEvent)
    (allowReplay : Bool) (context : σ) : Bool × HotkeyMatcher × σ :=
  if m.failed then (false, m, context)
  else
    let result :=
      match event.data with
      | .key k => m.transition storage sink ⟨event.source, event.sourceIdentity, k⟩ allowReplay context
      | .text _ => m.flushThen sink event context
      | _ => ((sink context event).1, m, (sink context event).2)
    if result.1 then result else (false, { result.2.1 with failed := true }, result.2.2)

/-- `kvm_hotkey_matcher_discard`. -/
def discard (m : HotkeyMatcher) : HotkeyMatcher :=
  { m with held := [], heldCapacity := 0, failed := false }

/-- `kvm_hotkey_matcher_held_key`. -/
def heldKey (m : HotkeyMatcher) (key : BaseKey) : Option KeyInput :=
  (m.held.find? fun h => h.make.key.key == key).map (·.make)

/-! ## What one submission can do -/

/-- The keys held. -/
def identities (held : List HeldKey) : List KeyId := held.map (·.identity)

/-- The held keys whose make the sink has not seen. -/
def pendings (held : List HeldKey) : List HeldKey := held.filter (·.state = .pending)

/-- The makes a flush delivers. -/
def replay (held : List HeldKey) : List InputEvent := (pendings held).map (·.make.toEvent)

/-- The ledger after a flush. -/
def flushed (held : List HeldKey) : List HeldKey := held.map (·.settle .delivered)

/-- The ledger without a key. -/
def without (held : List HeldKey) (k : KeyId) : List HeldKey := held.filter (·.identity ≠ k)

/-- The ledger with an entry for a make whose key the sink does not hold. -/
inductive Entered (held : List HeldKey) (event : KeyInput) : KeyInput → List HeldKey → Prop
  | new (hnew : event.key.identity ∉ identities held) :
      Entered held event event (held ++ [⟨event, .pending, true⟩])
  | old {h : HeldKey} (hmem : h ∈ held) (hid : h.identity = event.key.identity)
      (hstate : h.state ≠ .delivered) : Entered held event (relabel event h.make.key.key) held

/-- **Everything a submission can do when the sink succeeds**: the ledger before, the event, the
ledger after, and what is emitted. -/
inductive Moves (registry : HotkeyRegistry) :
    List HeldKey → InputEvent → List HeldKey → List InputEvent → Prop
  /-- A break of a key that is not held. -/
  | stray {held : List HeldKey} {event : KeyInput} (hup : event.key.pressed = false)
      (hnew : event.key.identity ∉ identities held) : Moves registry held event.toEvent held []
  /-- A break of a key a chord consumed. -/
  | swallow {held : List HeldKey} {event : KeyInput} {h : HeldKey}
      (hup : event.key.pressed = false) (hmem : h ∈ held) (hid : h.identity = event.key.identity)
      (hstate : h.state = .consumed) :
      Moves registry held event.toEvent (without held event.key.identity) []
  /-- A break of any other held key. -/
  | release {held : List HeldKey} {event : KeyInput} {h : HeldKey}
      (hup : event.key.pressed = false) (hmem : h ∈ held) (hid : h.identity = event.key.identity)
      (hstate : h.state ≠ .consumed) :
      Moves registry held event.toEvent (flushed (without held event.key.identity))
        (replay held ++ [(relabel event h.make.key.key).toEvent])
  /-- A repeat of a delivered key. -/
  | again {held : List HeldKey} {event : KeyInput} {h : HeldKey}
      (hdown : event.key.pressed = true) (hmem : h ∈ held)
      (hid : h.identity = event.key.identity) (hstate : h.state = .delivered) :
      Moves registry held event.toEvent (flushed held)
        (replay held ++ [(relabel event h.make.key.key).toEvent])
  /-- A make that completes a chord. -/
  | chord {held entered : List HeldKey} {event named : KeyInput}
      {registration : HotkeyRegistration} (hdown : event.key.pressed = true)
      (hent : Entered held event named entered)
      (hmatch : registry.match? named.key.key named.key.modifiers = some registration) :
      Moves registry held event.toEvent (consume entered) [hotkeyEvent named registration]
  /-- A make that waits, or whose key is consumed already. -/
  | wait {held entered : List HeldKey} {event named : KeyInput} (hdown : event.key.pressed = true)
      (hent : Entered held event named entered) : Moves registry held event.toEvent entered []
  /-- A make that ends the wait. -/
  | flow {held entered : List HeldKey} {event named : KeyInput} (hdown : event.key.pressed = true)
      (hent : Entered held event named entered) :
      Moves registry held event.toEvent (flushed entered) (replay entered)
  /-- Text. -/
  | text {held : List HeldKey} {event : InputEvent} (htext : event.transition = none) :
      Moves registry held event (flushed held) (replay held ++ [event])

theorem flushHeld_recording {held : List HeldKey} (hr : ∀ h ∈ held, h.allowReplay = true)
    (log : List InputEvent) :
    flushHeld recording held log = (true, flushed held, log ++ replay held) := by
  induction held generalizing log with
  | nil => simp [flushHeld, flushed, replay, pendings]
  | cons h held ih =>
    have htail := ih fun h' hh => hr h' (.tail _ hh)
    have hhead := hr h List.mem_cons_self
    by_cases hp : h.state = .pending
    · simp [flushHeld, hp, hhead, recording, htail, flushed, HeldKey.settle, replay, pendings]
    · simp [flushHeld, hp, htail, flushed, HeldKey.settle, replay, pendings]

theorem flushPending_recording {m : HotkeyMatcher} (hr : ∀ h ∈ m.held, h.allowReplay = true)
    (log : List InputEvent) :
    m.flushPending recording log
      = (true, { m with held := flushed m.held }, log ++ replay m.held) := by
  simp [flushPending, flushHeld_recording hr]

theorem flushThen_recording {m : HotkeyMatcher} (hr : ∀ h ∈ m.held, h.allowReplay = true)
    (event : InputEvent) (log : List InputEvent) :
    m.flushThen recording event log
      = (true, { m with held := flushed m.held }, log ++ (replay m.held ++ [event])) := by
  simp [flushThen, flushPending_recording hr, recording]

/-- Deleting the entry the search found deletes the key. -/
theorem eraseIdx_findIdx {held : List HeldKey} (hn : (identities held).Nodup) (k : KeyEvent) :
    held.eraseIdx (held.findIdx fun h => h.make.key.sameKey k) = without held k.identity := by
  induction held with
  | nil => rfl
  | cons h held ih =>
    rw [identities, List.map_cons, List.nodup_cons] at hn
    by_cases hk : h.identity = k.identity
    · have hsame : h.make.key.sameKey k = true := (KeyEvent.sameKey_iff _ _).mpr hk
      have hrest : ∀ h' ∈ held, h'.identity ≠ k.identity := fun h' hh heq =>
        hn.1 (List.mem_map.mpr ⟨h', hh, heq.trans hk.symm⟩)
      rw [List.findIdx_cons, hsame, cond_true, List.eraseIdx_cons_zero, without,
        List.filter_cons_of_neg (by simpa using hk), List.filter_eq_self.mpr (by simpa using hrest)]
    · have hsame : h.make.key.sameKey k = false := by
        rw [← Bool.not_eq_true, KeyEvent.sameKey_iff]
        exact hk
      rw [List.findIdx_cons, hsame, cond_false, List.eraseIdx_cons_succ, ih hn.2, without,
        without, List.filter_cons_of_pos (by simpa using hk)]

/-- The search finds the entry of the event's key, or there is none. -/
theorem lookup_cases (held : List HeldKey) (k : KeyEvent) :
    (held[held.findIdx fun h => h.make.key.sameKey k]? = none ∧ k.identity ∉ identities held) ∨
    ∃ h ∈ held, held[held.findIdx fun h => h.make.key.sameKey k]? = some h ∧
      h.identity = k.identity := by
  cases hk : held[held.findIdx fun h => h.make.key.sameKey k]? with
  | none =>
    refine .inl ⟨rfl, fun hmem => ?_⟩
    obtain ⟨h, hh, hid⟩ := List.mem_map.mp hmem
    have hlt : held.findIdx (fun h => h.make.key.sameKey k) < held.length :=
      List.findIdx_lt_length_of_exists ⟨h, hh, (KeyEvent.sameKey_iff _ _).mpr hid⟩
    rw [List.getElem?_eq_getElem hlt] at hk
    cases hk
  | some h =>
    obtain ⟨hlt, heq⟩ := List.getElem?_eq_some_iff.mp hk
    have hp := List.findIdx_getElem (w := hlt)
    refine .inr ⟨h, List.mem_of_getElem? hk, rfl, (KeyEvent.sameKey_iff _ _).mp ?_⟩
    simpa [heq] using hp

/-- What a submission to a healthy matcher leaves behind: a move, or a failure that emitted
nothing. -/
def Moved (m : HotkeyMatcher) (event : InputEvent) (log : List InputEvent)
    (result : Bool × HotkeyMatcher × List InputEvent) : Prop :=
  result.2.1.registry = m.registry ∧
  ((result.1 = false ∧ result.2.1.held = m.held ∧ result.2.2 = log) ∨
    (result.1 = true ∧ result.2.1.failed = m.failed ∧
      ∃ out, result.2.2 = log ++ out ∧ Moves m.registry m.held event result.2.1.held out))

theorem press_moved (m : HotkeyMatcher) {held : List HeldKey} (key : HeldKey)
    {event named : KeyInput} (log : List InputEvent) (hdown : event.key.pressed = true)
    (hent : Entered held event named m.held) (hr : ∀ h ∈ m.held, h.allowReplay = true)
    (hkey : key.state ≠ .delivered) :
    Moved { m with held := held } event.toEvent log (m.press recording key named log) := by
  unfold press
  rw [if_neg hkey]
  cases hm : m.matched named with
  | some registration =>
    have hmatch : m.registry.match? named.key.key named.key.modifiers = some registration := by
      unfold matched at hm
      split at hm
      · exact hm
      · cases hm
    exact ⟨rfl, .inr ⟨rfl, rfl, _, rfl, .chord hdown hent hmatch⟩⟩
  | none =>
    have hwait : Moved { m with held := held } event.toEvent log (true, m, log) :=
      ⟨rfl, .inr ⟨rfl, rfl, [], by simp, .wait hdown hent⟩⟩
    simp only
    split
    · exact hwait
    · split
      · exact hwait
      · rw [flushPending_recording hr]
        exact ⟨rfl, .inr ⟨rfl, rfl, _, rfl, .flow hdown hent⟩⟩

theorem enter_eq_some {storage : Allocation} {m entered : HotkeyMatcher} {event : KeyInput}
    {allowReplay : Bool} (h : m.enter storage event allowReplay = some entered) :
    ∃ capacity, entered = { m with
      held := m.held ++ [⟨event, .pending, allowReplay⟩], heldCapacity := capacity } := by
  simp only [enter] at h
  by_cases hfull : m.held.length = m.heldCapacity
  · rw [if_pos hfull, Option.ite_none_left_eq_some] at h
    exact ⟨_, (Option.some.inj h.2).symm⟩
  · rw [if_neg hfull] at h
    exact ⟨_, (Option.some.inj h).symm⟩

theorem transition_moved {m : HotkeyMatcher} (hn : (identities m.held).Nodup)
    (hr : ∀ h ∈ m.held, h.allowReplay = true) (storage : Allocation) (event : KeyInput)
    (log : List InputEvent) :
    Moved m event.toEvent log (m.transition storage recording event true log) := by
  simp only [transition]
  rcases lookup_cases m.held event.key with ⟨hnone, hnew⟩ | ⟨h, hmem, hsome, hid⟩
  · rw [hnone]
    cases hp : event.key.pressed with
    | false => exact ⟨rfl, .inr ⟨rfl, rfl, [], by simp, .stray hp hnew⟩⟩
    | true =>
      cases he : m.enter storage event true with
      | none => exact ⟨rfl, .inl ⟨rfl, rfl, rfl⟩⟩
      | some entered =>
        obtain ⟨capacity, hentered⟩ := enter_eq_some he
        have hall : ∀ h' ∈ m.held ++ [⟨event, .pending, true⟩], h'.allowReplay = true := by
          intro h' hh
          rcases List.mem_append.mp hh with hh | hh
          · exact hr h' hh
          · rw [List.mem_singleton.mp hh]
        subst hentered
        exact press_moved ⟨m.registry, m.held ++ [⟨event, .pending, true⟩], capacity, m.failed⟩
          ⟨event, .pending, true⟩ log hp (.new hnew) hall (by simp)
  · rw [hsome]
    simp only
    cases hp : event.key.pressed with
    | false =>
      have hup : (relabel event h.make.key.key).key.pressed = false := hp
      by_cases hstate : h.state = .consumed
      · simp only [hup, hstate, ne_eq, not_true, if_false, Bool.not_false, if_true]
        rw [eraseIdx_findIdx hn]
        exact ⟨rfl, .inr ⟨rfl, rfl, [], by simp, .swallow hp hmem hid hstate⟩⟩
      · simp only [hup, hstate, ne_eq, not_false_eq_true, if_true, Bool.not_false]
        rw [flushThen_recording hr]
        refine ⟨rfl, .inr ⟨rfl, rfl, _, rfl, ?_⟩⟩
        have herase : (flushed m.held).eraseIdx (m.held.findIdx fun h' => h'.make.key.sameKey event.key)
            = flushed (without m.held event.key.identity) := by
          rw [← eraseIdx_findIdx hn, flushed, flushed, List.eraseIdx_map]
        simp only [herase]
        exact .release hp hmem hid hstate
    | true =>
      have hdown : (relabel event h.make.key.key).key.pressed = true := hp
      simp only [hdown, Bool.not_true, Bool.false_eq_true, if_false]
      by_cases hstate : h.state = .delivered
      · rw [press, if_pos hstate, flushThen_recording hr]
        exact ⟨rfl, .inr ⟨rfl, rfl, _, rfl, .again hp hmem hid hstate⟩⟩
      · exact press_moved m h log hp (.old hmem hid hstate) hr hstate

/-- The events the stream law is about. -/
abbrev KeyText := { event : InputEvent // (∃ k, event.data = .key k) ∨ ∃ c, event.data = .text c }

/-- **One submission**, to a healthy matcher, of a key or text event. -/
theorem submit_moves {m : HotkeyMatcher} (hf : m.failed = false)
    (hn : (identities m.held).Nodup) (hr : ∀ h ∈ m.held, h.allowReplay = true)
    (storage : Allocation) (event : KeyText) (log : List InputEvent) :
    let result := m.submit storage recording event true log
    result.2.1.registry = m.registry ∧
    ((result.2.1.failed = true ∧ result.2.1.held = m.held ∧ result.2.2 = log) ∨
      (result.2.1.failed = false ∧
        ∃ out, result.2.2 = log ++ out ∧ Moves m.registry m.held event result.2.1.held out)) := by
  obtain ⟨⟨source, sourceIdentity, data⟩, hdata⟩ := event
  have hmoved : ∀ result : Bool × HotkeyMatcher × List InputEvent,
      Moved m ⟨source, sourceIdentity, data⟩ log result →
      let after := if result.1 then result else (false, { result.2.1 with failed := true }, result.2.2)
      after.2.1.registry = m.registry ∧
      ((after.2.1.failed = true ∧ after.2.1.held = m.held ∧ after.2.2 = log) ∨
        (after.2.1.failed = false ∧ ∃ out, after.2.2 = log ++ out ∧
          Moves m.registry m.held ⟨source, sourceIdentity, data⟩ after.2.1.held out)) := by
    rintro ⟨ok, after, log'⟩ ⟨hreg, ⟨rfl, hheld, hlog⟩ | ⟨rfl, hfail, hout⟩⟩
    · exact ⟨hreg, .inl ⟨rfl, hheld, hlog⟩⟩
    · exact ⟨hreg, .inr ⟨hfail.trans hf, hout⟩⟩
  rcases hdata with ⟨k, hk⟩ | ⟨c, hc⟩
  · obtain rfl : data = .key k := hk
    have h := hmoved _ (transition_moved hn hr storage ⟨source, sourceIdentity, k⟩ log)
    simpa only [submit, hf, Bool.false_eq_true, if_false] using h
  · obtain rfl : data = .text c := hc
    have h := hmoved _ (show Moved m ⟨source, sourceIdentity, .text c⟩ log
      (m.flushThen recording ⟨source, sourceIdentity, .text c⟩ log) by
        rw [flushThen_recording hr]
        exact ⟨rfl, .inr ⟨rfl, rfl, _, rfl, .text rfl⟩⟩)
    simpa only [submit, hf, Bool.false_eq_true, if_false] using h

end HotkeyMatcher

end SoftPC
