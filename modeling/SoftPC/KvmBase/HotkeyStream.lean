import Mathlib.Data.List.Forall2
import Mathlib.Data.List.Induction
import Mathlib.Data.List.Nodup
import Mathlib.Algebra.GroupWithZero.Nat
import SoftPC.KvmBase.Hotkey
import SoftPC.Machinery.Transitions

/-!
# KvmBase/HotkeyStream — what the matcher emits, against what it was given

The stream law of `lib/kvm-base/hotkey.c`.  `Shown` relates the ledger to the emitted log and
`Ordered` relates the emitted log to the submitted one; both are kept by every move.
-/

namespace SoftPC.HotkeyMatcher

open scoped List

/-! ## What the sink has been shown

`Shown` ties the ledger to the emitted log: a delivered key is down there, opened by the make the
ledger holds, and every other key is up. -/

/-- Relabelling a key by the make it is held by leaves its physical key. -/
theorem identity_relabel {event : KeyInput} {h : HeldKey}
    (hid : h.identity = event.key.identity) :
    (relabel event h.make.key.key).key.identity = event.key.identity := by
  unfold HeldKey.identity at hid
  by_cases hscan : event.key.scanCode = 0
  · have hkey : h.make.key.key = event.key.key := by
      rw [KeyEvent.identity, KeyEvent.identity, if_neg (not_not.mpr hscan)] at hid
      split at hid
      · cases hid
      · exact (KeyId.logical.inj hid).2
    rw [hkey]
    rfl
  · simp [relabel, KeyEvent.identity, KeyEvent.extended, hscan]

/-- A make of the log opened the key's present press: the key was up before it, and has not been
broken since. -/
def Opened (log : List InputEvent) (make : KeyInput) : Prop :=
  ∃ a b, log = a ++ make.toEvent :: b ∧
    Transitions.down InputEvent.transition a make.key.identity = false ∧
    ∀ e ∈ b, e.transition ≠ some (make.key.identity, false)

theorem Opened.append {log : List InputEvent} {make : KeyInput} (h : Opened log make)
    {es : List InputEvent} (hes : ∀ e ∈ es, e.transition ≠ some (make.key.identity, false)) :
    Opened (log ++ es) make := by
  obtain ⟨a, b, rfl, hup, hb⟩ := h
  refine ⟨a, b ++ es, by simp, hup, fun e he => ?_⟩
  exact (List.mem_append.mp he).elim (hb e) (hes e)

/-- The ledger agrees with what the sink was shown. -/
structure Shown (held : List HeldKey) (log : List InputEvent) : Prop where
  nodup : (identities held).Nodup
  makes : ∀ h ∈ held, h.make.key.pressed = true
  up : ∀ k, (∀ h ∈ held, h.identity = k → h.state ≠ .delivered) →
    Transitions.down InputEvent.transition log k = false
  opened : ∀ h ∈ held, h.state = .delivered → Opened log h.make

/-- One entry a key. -/
theorem eq_of_identity {held : List HeldKey} (hn : (identities held).Nodup) {h h' : HeldKey}
    (hh : h ∈ held) (hh' : h' ∈ held) (hid : h'.identity = h.identity) : h' = h :=
  List.inj_on_of_nodup_map hn hh' hh hid

theorem mem_identities {held : List HeldKey} {k : KeyId} :
    k ∈ identities held ↔ ∃ h ∈ held, h.identity = k := List.mem_map

@[simp] theorem identities_settle (fate : HotkeyState) (held : List HeldKey) :
    identities (held.map (·.settle fate)) = identities held := by
  simp [identities]

/-- The makes a flush delivers, as transitions. -/
theorem transition_of_mem_replay {held : List HeldKey}
    (hm : ∀ h ∈ held, h.make.key.pressed = true) {e : InputEvent} (he : e ∈ replay held) :
    ∃ h ∈ held, h.state = .pending ∧ e = h.make.toEvent ∧
      e.transition = some (h.identity, true) := by
  obtain ⟨h, hh, rfl⟩ := List.mem_map.mp he
  obtain ⟨hh, hp⟩ := List.mem_filter.mp hh
  exact ⟨h, hh, by simpa using hp, rfl, by rw [← hm h hh]; rfl⟩

theorem Shown.flush {held : List HeldKey} {log : List InputEvent} (hs : Shown held log) :
    Shown (flushed held) (log ++ replay held) := by
  have htr := fun e he => transition_of_mem_replay hs.makes (e := e) he
  refine ⟨by rw [flushed, identities_settle]; exact hs.nodup, fun h hh => ?_, fun k hk => ?_,
    fun h hh hd => ?_⟩
  · obtain ⟨g, hg, rfl⟩ := List.mem_map.mp hh
    rw [HeldKey.settle_make]
    exact hs.makes g hg
  · -- Neither delivered before nor by the flush.
    have hk' : ∀ g ∈ held, g.identity = k → g.state = .consumed := by
      intro g hg hid
      have := hk (g.settle .delivered) (List.mem_map_of_mem hg) (by simpa using hid)
      rw [HeldKey.settle_state] at this
      cases hst : g.state <;> simp_all
    rw [Transitions.down_append_of_forall]
    · exact hs.up k fun g hg hid => by simp [hk' g hg hid]
    · intro e he pressed ht
      obtain ⟨g, hg, hp, -, ht'⟩ := htr e he
      rw [ht'] at ht
      have hid : g.identity = k := congrArg Prod.fst (Option.some.inj ht)
      exact absurd (hk' g hg hid) (by simp [hp])
  · obtain ⟨g, hg, rfl⟩ := List.mem_map.mp hh
    rw [HeldKey.settle_make]
    by_cases hp : g.state = .pending
    · -- Its make is among those just delivered, and no other make of its key is.
      have hgp : g ∈ pendings held := List.mem_filter.mpr ⟨hg, by simpa using hp⟩
      obtain ⟨p, q, hpq⟩ := List.append_of_mem hgp
      have hsub : (p ++ g :: q).Sublist held := hpq ▸ List.filter_sublist
      have hnd := hs.nodup.sublist (hsub.map HeldKey.identity)
      rw [List.map_append, List.map_cons, List.nodup_append] at hnd
      refine ⟨log ++ p.map (·.make.toEvent), q.map (·.make.toEvent), by simp [replay, hpq], ?_, ?_⟩
      · rw [Transitions.down_append_of_forall]
        · refine hs.up _ fun g' hg' hid => ?_
          rw [eq_of_identity hs.nodup hg hg' hid, hp]
          simp
        · intro e he pressed ht
          obtain ⟨g', hg', rfl⟩ := List.mem_map.mp he
          have hid : g'.identity = g.identity := congrArg Prod.fst (Option.some.inj ht)
          exact hnd.2.2 _ (List.mem_map_of_mem hg') _ List.mem_cons_self hid
      · intro e he
        obtain ⟨g', -, -, -, ht⟩ := htr e (by
          rw [replay, hpq, List.map_append, List.map_cons]
          exact List.mem_append_right _ (.tail _ he))
        simp [ht]
    · refine (hs.opened g hg ?_).append fun e he => ?_
      · rwa [HeldKey.settle_state, if_neg hp] at hd
      · obtain ⟨g', -, -, -, ht⟩ := htr e he
        simp [ht]

/-- A chord changes nothing the sink has been shown. -/
theorem Shown.consume {held : List HeldKey} {log : List InputEvent} (hs : Shown held log) :
    Shown (consume held) log := by
  have hstate : ∀ g : HeldKey, (g.settle .consumed).state = .delivered ↔ g.state = .delivered := by
    intro g
    rw [HeldKey.settle_state]
    cases g.state <;> simp
  refine ⟨by rw [HotkeyMatcher.consume, identities_settle]; exact hs.nodup, fun h hh => ?_,
    fun k hk => ?_, fun h hh hd => ?_⟩
  · obtain ⟨g, hg, rfl⟩ := List.mem_map.mp hh
    rw [HeldKey.settle_make]
    exact hs.makes g hg
  · refine hs.up k fun g hg hid => ?_
    have := hk (g.settle .consumed) (List.mem_map_of_mem hg) (by simpa using hid)
    rwa [ne_eq, hstate] at this
  · obtain ⟨g, hg, rfl⟩ := List.mem_map.mp hh
    rw [HeldKey.settle_make]
    exact hs.opened g hg ((hstate g).mp hd)

theorem Entered.makes {held entered : List HeldKey} {event named : KeyInput}
    (hent : Entered held event named entered) (hdown : event.key.pressed = true)
    (hmake : ∀ h ∈ held, h.make.key.pressed = true) :
    ∀ h ∈ entered, h.make.key.pressed = true := by
  intro h hh
  cases hent with
  | old => exact hmake h hh
  | new hnew =>
    rcases List.mem_append.mp hh with hh | hh
    · exact hmake h hh
    · rw [List.mem_singleton.mp hh]
      exact hdown

theorem Shown.enter {held entered : List HeldKey} {event named : KeyInput}
    {log : List InputEvent} (hs : Shown held log) (hdown : event.key.pressed = true)
    (hent : Entered held event named entered) : Shown entered log := by
  cases hent with
  | old => exact hs
  | new hnew =>
    refine ⟨?_, fun h hh => ?_, fun k hk => ?_, fun h hh hd => ?_⟩
    · rw [identities, List.map_append]
      refine List.nodup_append.mpr ⟨hs.nodup, by simp, fun a ha b hb => ?_⟩
      rw [List.map_singleton, List.mem_singleton] at hb
      rintro rfl
      rw [hb] at ha
      exact hnew ha
    · exact (Entered.new hnew).makes hdown hs.makes h hh
    · exact hs.up k fun h hh => hk h (List.mem_append_left _ hh)
    · rcases List.mem_append.mp hh with hh | hh
      · exact hs.opened h hh hd
      · rw [List.mem_singleton.mp hh] at hd
        cases hd

/-- Dropping a key the sink does not hold down. -/
theorem Shown.without {held : List HeldKey} {log : List InputEvent} (hs : Shown held log)
    {k : KeyId} (hk : Transitions.down InputEvent.transition log k = false) :
    Shown (without held k) log := by
  refine ⟨hs.nodup.sublist (List.filter_sublist.map _), fun h hh => hs.makes h ?_,
    fun k' hk' => ?_, fun h hh => hs.opened h ?_⟩
  · exact (List.mem_filter.mp hh).1
  · by_cases hkk : k' = k
    · rwa [hkk]
    · refine hs.up k' fun h hh hid => hk' h (List.mem_filter.mpr ⟨hh, ?_⟩) hid
      simpa [hid] using hkk
  · exact (List.mem_filter.mp hh).1

/-- An event that moves no key. -/
theorem Shown.other {held : List HeldKey} {log : List InputEvent} (hs : Shown held log)
    {e : InputEvent} (he : e.transition = none) : Shown held (log ++ [e]) := by
  refine ⟨hs.nodup, hs.makes, fun k hk => ?_, fun h hh hd => ?_⟩
  · rw [Transitions.down_append_of_none he]
    exact hs.up k hk
  · exact (hs.opened h hh hd).append (by simp [he])

/-- A repeat of a delivered key. -/
theorem Shown.again {held : List HeldKey} {log : List InputEvent} (hs : Shown held log)
    {h : HeldKey} (hh : h ∈ held) (hd : h.state = .delivered) {e : InputEvent}
    (he : e.transition = some (h.identity, true)) : Shown held (log ++ [e]) := by
  refine ⟨hs.nodup, hs.makes, fun k hk => ?_, fun g hg hgd => ?_⟩
  · have hne : h.identity ≠ k := fun hid => hk h hh hid hd
    rw [Transitions.down_append_of_some he, if_neg hne]
    exact hs.up k hk
  · exact (hs.opened g hg hgd).append (by simp [he])

/-- A break of a delivered key. -/
theorem Shown.release {held : List HeldKey} {log : List InputEvent} (hs : Shown held log)
    {k : KeyId} {e : InputEvent} (he : e.transition = some (k, false)) :
    Shown (HotkeyMatcher.without held k) (log ++ [e]) := by
  refine ⟨hs.nodup.sublist (List.filter_sublist.map _), fun h hh => hs.makes h ?_,
    fun k' hk' => ?_, fun h hh hd => ?_⟩
  · exact (List.mem_filter.mp hh).1
  · rw [Transitions.down_append_of_some he]
    by_cases hkk : k = k'
    · rw [if_pos hkk]
    · rw [if_neg hkk]
      refine hs.up k' fun h hh hid => hk' h (List.mem_filter.mpr ⟨hh, ?_⟩) hid
      simpa [hid] using Ne.symm hkk
  · obtain ⟨hh, hne⟩ := List.mem_filter.mp hh
    refine (hs.opened h hh hd).append fun e' he' => ?_
    rw [List.mem_singleton.mp he', he]
    intro heq
    have hid : k = h.identity := congrArg Prod.fst (Option.some.inj heq)
    simp [hid] at hne

/-! ## One move -/

theorem without_flushed (held : List HeldKey) (k : KeyId) :
    flushed (without held k) = without (flushed held) k := by
  simp only [flushed, without, List.filter_map]
  congr 1
  refine List.filter_congr fun h _ => ?_
  simp

theorem not_mem_identities_without (held : List HeldKey) (k : KeyId) :
    k ∉ identities (without held k) := by
  simp [mem_identities, without]

theorem Shown.down_of_delivered {held : List HeldKey} {log : List InputEvent}
    (hs : Shown held log) {h : HeldKey} (hh : h ∈ held) (hd : h.state = .delivered) :
    Transitions.down InputEvent.transition log h.identity = true := by
  obtain ⟨a, b, rfl, -, hb⟩ := hs.opened h hh hd
  have hmake : h.make.toEvent.transition = some (h.identity, true) := by
    rw [← hs.makes h hh]
    rfl
  rw [← List.singleton_append, ← List.append_assoc]
  refine Transitions.down_append_of_no_break _ _ _ _ ?_ hb
  rw [Transitions.down_append_of_some hmake, if_pos rfl]

/-- **A move keeps the ledger true to the log.** -/
theorem Shown.move {registry : HotkeyRegistry} {held held' : List HeldKey}
    {e : InputEvent} {log out : List InputEvent} (hs : Shown held log)
    (hm : Moves registry held e held' out) : Shown held' (log ++ out) := by
  cases hm with
  | stray => simpa using hs
  | swallow hup hmem hid hstate =>
    rw [List.append_nil]
    refine hs.without (hs.up _ fun g hg hgid => ?_)
    rw [eq_of_identity hs.nodup hmem hg (hgid.trans hid.symm), hstate]
    simp
  | @release event h hup hmem hid hstate =>
    have ht : (relabel event h.make.key.key).toEvent.transition
        = some (event.key.identity, false) := by
      rw [← identity_relabel hid, ← hup]
      rfl
    rw [← List.append_assoc, without_flushed]
    exact hs.flush.release ht
  | @again event h hdown hmem hid hstate =>
    have ht : (relabel event h.make.key.key).toEvent.transition = some (h.identity, true) := by
      rw [hid, ← identity_relabel hid, ← hdown]
      rfl
    rw [← List.append_assoc]
    refine hs.flush.again (List.mem_map_of_mem hmem) ?_ (by simpa using ht)
    rw [HeldKey.settle_state, hstate]
    simp
  | chord hdown hent hmatch => exact (hs.enter hdown hent).consume.other rfl
  | wait hdown hent => simpa using hs.enter hdown hent
  | flow hdown hent => exact (hs.enter hdown hent).flush
  | text htext =>
    rw [← List.append_assoc]
    exact hs.flush.other htext

/-- **A disposition is final**: a delivered or consumed key keeps it while it is held. -/
theorem Moves.settled {registry : HotkeyRegistry} {held held' : List HeldKey} {e : InputEvent}
    {out : List InputEvent} (hm : Moves registry held e held' out)
    (hn : (identities held).Nodup) {h h' : HeldKey} (hh : h ∈ held) (hh' : h' ∈ held')
    (hid : h'.identity = h.identity) (hs : h.state ≠ .pending) : h'.state = h.state := by
  have hsettle : ∀ {l : List HeldKey} {g : HeldKey} (fate : HotkeyState), l.Sublist held →
      g ∈ l.map (·.settle fate) → g.identity = h.identity → g.state = h.state := by
    intro l g fate hl hg hgid
    obtain ⟨f, hf, rfl⟩ := List.mem_map.mp hg
    rw [HeldKey.settle_identity] at hgid
    rw [eq_of_identity hn hh (hl.subset hf) hgid, HeldKey.settle_state, if_neg hs]
  have hsame : ∀ {g : HeldKey}, g ∈ held → g.identity = h.identity → g.state = h.state :=
    fun hg hgid => by rw [eq_of_identity hn hh hg hgid]
  -- A new entry is another key's.
  have henter : ∀ {event named : KeyInput} {entered : List HeldKey},
      Entered held event named entered → ∀ g ∈ entered, g.identity = h.identity → g ∈ held := by
    rintro event named entered hent g hg hgid
    cases hent with
    | old => exact hg
    | new hnew =>
      rcases List.mem_append.mp hg with hg | hg
      · exact hg
      · rw [List.mem_singleton.mp hg] at hgid
        exact absurd (mem_identities.2 ⟨h, hh, hgid.symm⟩) hnew
  cases hm with
  | stray => exact hsame hh' hid
  | swallow => exact hsame (List.mem_filter.mp hh').1 hid
  | release => exact hsettle _ List.filter_sublist hh' hid
  | again => exact hsettle _ (List.Sublist.refl _) hh' hid
  | text => exact hsettle _ (List.Sublist.refl _) hh' hid
  | wait hdown hent => exact hsame (henter hent h' hh' hid) hid
  | chord hdown hent hmatch =>
    obtain ⟨g, hg, rfl⟩ := List.mem_map.mp hh'
    rw [HeldKey.settle_identity] at hid
    rw [eq_of_identity hn hh (henter hent g hg hid) hid, HeldKey.settle_state, if_neg hs]
  | flow hdown hent =>
    obtain ⟨g, hg, rfl⟩ := List.mem_map.mp hh'
    rw [HeldKey.settle_identity] at hid
    rw [eq_of_identity hn hh (henter hent g hg hid) hid, HeldKey.settle_state, if_neg hs]

/-- **An emitted transition belongs to a key the move leaves delivered, or releases unconsumed.** -/
theorem Moves.emitted {registry : HotkeyRegistry} {held held' : List HeldKey} {e : InputEvent}
    {out : List InputEvent} (hm : Moves registry held e held' out)
    (hmake : ∀ h ∈ held, h.make.key.pressed = true) {x : InputEvent} (hx : x ∈ out) {k : KeyId}
    {pressed : Bool} (ht : x.transition = some (k, pressed)) :
    (∃ h ∈ held', h.identity = k ∧ h.state = .delivered) ∨
      (k ∉ identities held' ∧ ∃ h ∈ held, h.identity = k ∧ h.state ≠ .consumed) := by
  -- A replayed make leaves its key delivered in whatever of the ledger is flushed.
  have hreplay : ∀ {l : List HeldKey}, (∀ h ∈ l, h.make.key.pressed = true) → x ∈ replay l →
      ∃ h ∈ l, h.identity = k ∧ h.state = .pending := by
    intro l hl hxl
    obtain ⟨h, hh, hp, -, htr⟩ := transition_of_mem_replay hl hxl
    rw [htr] at ht
    exact ⟨h, hh, congrArg Prod.fst (Option.some.inj ht), hp⟩
  have hflush : ∀ {l : List HeldKey}, (∃ h ∈ l, h.identity = k ∧ h.state = .pending) →
      ∃ h ∈ flushed l, h.identity = k ∧ h.state = .delivered := by
    rintro l ⟨h, hh, hid, hp⟩
    refine ⟨h.settle .delivered, List.mem_map_of_mem hh, by simpa using hid, ?_⟩
    rw [HeldKey.settle_state, if_pos hp]
  cases hm with
  | stray => cases hx
  | swallow => cases hx
  | @release event h hup hmem hid hstate =>
    rcases List.mem_append.mp hx with hx | hx
    · obtain ⟨g, hg, hgid, hgp⟩ := hreplay hmake hx
      by_cases hk : k = event.key.identity
      · refine .inr ⟨?_, g, hg, hgid, by simp [hgp]⟩
        rw [hk, without_flushed]
        exact not_mem_identities_without _ _
      · refine .inl (hflush ⟨g, List.mem_filter.mpr ⟨hg, ?_⟩, hgid, hgp⟩)
        simpa [hgid] using hk
    · have hk : k = event.key.identity := by
        rw [List.mem_singleton.mp hx] at ht
        rw [← identity_relabel hid]
        exact (congrArg Prod.fst (Option.some.inj ht)).symm
      refine .inr ⟨?_, h, hmem, hid.trans hk.symm, hstate⟩
      rw [hk, without_flushed]
      exact not_mem_identities_without _ _
  | @again event h hdown hmem hid hstate =>
    rcases List.mem_append.mp hx with hx | hx
    · exact .inl (hflush (hreplay hmake hx))
    · rw [List.mem_singleton.mp hx] at ht
      have hk : event.key.identity = k := by
        rw [← identity_relabel hid]
        exact congrArg Prod.fst (Option.some.inj ht)
      refine .inl ⟨h.settle .delivered, List.mem_map_of_mem hmem, ?_, ?_⟩
      · rw [HeldKey.settle_identity, hid, hk]
      · rw [HeldKey.settle_state, hstate]
        rfl
  | chord => rw [List.mem_singleton.mp hx] at ht; cases ht
  | wait => cases hx
  | flow hdown hent => exact .inl (hflush (hreplay (hent.makes hdown hmake) hx))
  | text htext =>
    rcases List.mem_append.mp hx with hx | hx
    · exact .inl (hflush (hreplay hmake hx))
    · rw [List.mem_singleton.mp hx, htext] at ht
      cases ht

/-! ## The order of the stream -/

/-- What may stand in the emitted stream for a submitted event; the flags say which makes are
repeats. -/
inductive Corresponds (registry : HotkeyRegistry) :
    InputEvent × Bool → InputEvent × Bool → Prop
  /-- The event itself. -/
  | same (e : InputEvent) (again : Bool) : Corresponds registry (e, again) (e, again)
  /-- A break or a repeat, under the logical key its physical key is held by. -/
  | held {event : KeyInput} {key : BaseKey} {again : Bool}
      (hheld : event.key.pressed = false ∨ again = true)
      (hid : (relabel event key).key.identity = event.key.identity) :
      Corresponds registry (event.toEvent, again) ((relabel event key).toEvent, again)
  /-- The hotkey a chord's trigger completes. -/
  | chord {event : KeyInput} {key : BaseKey} {again : Bool} {registration : HotkeyRegistration}
      (hdown : event.key.pressed = true)
      (hmatch : registry.match? key event.key.modifiers = some registration) :
      Corresponds registry (event.toEvent, again) (hotkeyEvent event registration, false)

/-- The makes still to be replayed, as the submitted stream has them. -/
def awaiting (held : List HeldKey) : List (InputEvent × Bool) :=
  (pendings held).map fun h => (h.make.toEvent, false)

/-- The emitted stream comes, in order, from the submitted one, all of it before what is still
pending. -/
def Ordered (registry : HotkeyRegistry) (held : List HeldKey) (submitted emitted : List InputEvent) :
    Prop :=
  ∃ before after, Transitions.mark InputEvent.transition submitted = before ++ after ∧
    (∃ source, source <+ before ∧ List.Forall₂ (Corresponds registry) source
      (Transitions.mark InputEvent.transition emitted)) ∧
    awaiting held <+ after

section Steps

variable {registry : HotkeyRegistry} {held held' : List HeldKey}
  {submitted emitted : List InputEvent} {e : InputEvent} {out : List InputEvent}

/-- The submitted event with its flag. -/
abbrev flagged (submitted : List InputEvent) (e : InputEvent) : InputEvent × Bool :=
  (e, Transitions.isRepeat InputEvent.transition submitted e)

/-- A move that emits nothing. -/
theorem Ordered.quiet (ho : Ordered registry held submitted emitted)
    (hp : awaiting held' <+ awaiting held ++ [flagged submitted e]) :
    Ordered registry held' (submitted ++ [e]) emitted := by
  obtain ⟨before, after, hmark, hsource, hafter⟩ := ho
  refine ⟨before, after ++ [flagged submitted e], ?_, hsource, ?_⟩
  · rw [Transitions.mark_append_singleton, hmark, List.append_assoc]
  · exact hp.trans (hafter.append (List.Sublist.refl _))

/-- A move that leaves nothing pending. -/
theorem Ordered.emit (ho : Ordered registry held submitted emitted)
    (hp : pendings held' = []) {source : List (InputEvent × Bool)}
    (hsource : source <+ awaiting held ++ [flagged submitted e])
    (hcorr : List.Forall₂ (Corresponds registry) source
      (Transitions.markFrom InputEvent.transition emitted out)) :
    Ordered registry held' (submitted ++ [e]) (emitted ++ out) := by
  obtain ⟨before, after, hmark, ⟨old, hold, holdcorr⟩, hafter⟩ := ho
  refine ⟨before ++ (after ++ [flagged submitted e]), [], ?_, ⟨old ++ source, ?_, ?_⟩, ?_⟩
  · rw [Transitions.mark_append_singleton, hmark, List.append_nil, List.append_assoc]
  · exact hold.append (hsource.trans (hafter.append (List.Sublist.refl _)))
  · rw [Transitions.mark_append]
    exact List.rel_append holdcorr hcorr
  · rw [awaiting, hp]
    exact List.Sublist.refl _

theorem pendings_settle {fate : HotkeyState} (hf : fate ≠ .pending) (held : List HeldKey) :
    pendings (held.map (·.settle fate)) = [] := by
  refine List.filter_eq_nil_iff.mpr fun h hh => ?_
  obtain ⟨g, -, rfl⟩ := List.mem_map.mp hh
  rw [HeldKey.settle_state]
  split <;> simp_all

/-- A flush shows every pending make as the opening of its press. -/
theorem markFrom_replay {log : List InputEvent} (hs : Shown held log) :
    Transitions.markFrom InputEvent.transition log (replay held) = awaiting held := by
  have key : ∀ (l : List HeldKey) (log : List InputEvent), (identities l).Nodup →
      (∀ h ∈ l, h.make.key.pressed = true) →
      (∀ h ∈ l, Transitions.down InputEvent.transition log h.identity = false) →
      Transitions.markFrom InputEvent.transition log (l.map (·.make.toEvent))
        = l.map fun h => (h.make.toEvent, false) := by
    intro l
    induction l with
    | nil => intros; rfl
    | cons h l ih =>
      intro log hn hm hup
      have hmake : h.make.toEvent.transition = some (h.identity, true) := by
        rw [← hm h List.mem_cons_self]
        rfl
      rw [identities, List.map_cons, List.nodup_cons] at hn
      rw [List.map_cons, Transitions.markFrom, List.map_cons,
        ih _ hn.2 (fun g hg => hm g (.tail _ hg)) fun g hg => ?_]
      · rw [Transitions.isRepeat, hmake]
        simp [hup h List.mem_cons_self]
      · have hne : h.identity ≠ g.identity := fun heq =>
          hn.1 (List.mem_map.mpr ⟨g, hg, heq.symm⟩)
        rw [Transitions.down_append_of_some hmake, if_neg hne]
        exact hup g (.tail _ hg)
  refine key (pendings held) log (hs.nodup.sublist (List.filter_sublist.map _))
    (fun h hh => hs.makes h (List.mem_filter.mp hh).1) fun h hh => ?_
  obtain ⟨hh, hp⟩ := List.mem_filter.mp hh
  refine hs.up _ fun g hg hid => ?_
  rw [eq_of_identity hs.nodup hh hg hid]
  simp_all

theorem forall₂_same (l : List (InputEvent × Bool)) :
    List.Forall₂ (Corresponds registry) l l :=
  List.forall₂_same.mpr fun x _ => .same x.1 x.2

/-- A flush, then one event. -/
theorem Ordered.flushThen (ho : Ordered registry held submitted emitted) (hs : Shown held emitted)
    (hp : pendings held' = []) {x : InputEvent}
    (hcorr : Corresponds registry (flagged submitted e)
      (x, Transitions.isRepeat InputEvent.transition (emitted ++ replay held) x)) :
    Ordered registry held' (submitted ++ [e]) (emitted ++ (replay held ++ [x])) := by
  refine ho.emit hp (List.Sublist.refl _) ?_
  rw [Transitions.markFrom_append, markFrom_replay hs, Transitions.markFrom, Transitions.markFrom]
  exact List.rel_append (forall₂_same _) (.cons hcorr .nil)

/-- **A move keeps the order of the stream.** -/
theorem Ordered.move (ho : Ordered registry held submitted emitted) (hs : Shown held emitted)
    (hdown : ∀ k, k ∈ identities held ↔
      Transitions.down InputEvent.transition submitted k = true)
    (hm : Moves registry held e held' out) :
    Ordered registry held' (submitted ++ [e]) (emitted ++ out) := by
  have hentered : ∀ {event named : KeyInput} {entered : List HeldKey},
      event.key.pressed = true → Entered held event named entered →
      awaiting entered <+ awaiting held ++ [flagged submitted event.toEvent] := by
    intro event named entered hp hent
    cases hent with
    | old => exact List.sublist_append_left _ _
    | new hnew =>
      have hup : Transitions.down InputEvent.transition submitted event.key.identity = false := by
        rw [← Bool.not_eq_true, ← hdown]
        exact hnew
      have hflag : flagged submitted event.toEvent = (event.toEvent, false) := by
        simp [flagged, Transitions.isRepeat, KeyInput.toEvent, InputEvent.transition, hp, hup]
      rw [hflag, awaiting, pendings, List.filter_append, List.map_append]
      exact List.Sublist.refl _
  cases hm with
  | stray => simpa using ho.quiet (List.sublist_append_left _ _)
  | swallow =>
    rw [List.append_nil]
    refine ho.quiet (List.Sublist.trans ?_ (List.sublist_append_left _ _))
    exact (List.filter_sublist.filter _).map _
  | @release event h hup hmem hid hstate =>
    refine ho.flushThen hs (pendings_settle (by simp) _) ?_
    have hflag : ∀ (log : List InputEvent) (k : KeyInput), k.key.pressed = false →
        Transitions.isRepeat InputEvent.transition log k.toEvent = false := by
      intro log k hk
      simp [Transitions.isRepeat, KeyInput.toEvent, InputEvent.transition, hk]
    rw [flagged, hflag _ _ hup, hflag _ (relabel event h.make.key.key) hup]
    exact .held (.inl hup) (identity_relabel hid)
  | @again event h hdown' hmem hid hstate =>
    refine ho.flushThen hs (pendings_settle (by simp) _) ?_
    have hsub : Transitions.down InputEvent.transition submitted event.key.identity = true :=
      (hdown _).mp (mem_identities.2 ⟨h, hmem, hid⟩)
    have hout : Transitions.down InputEvent.transition (emitted ++ replay held)
        event.key.identity = true := by
      refine Transitions.down_append_of_no_break _ _ _ _ (hid ▸ hs.down_of_delivered hmem hstate) ?_
      intro x hx
      obtain ⟨g, -, -, -, ht⟩ := transition_of_mem_replay hs.makes hx
      simp [ht]
    have hflag : flagged submitted event.toEvent = (event.toEvent, true) := by
      simp [flagged, Transitions.isRepeat, KeyInput.toEvent, InputEvent.transition, hdown', hsub]
    have hflag' : Transitions.isRepeat InputEvent.transition (emitted ++ replay held)
        (relabel event h.make.key.key).toEvent = true := by
      have ht : (relabel event h.make.key.key).toEvent.transition
          = some (event.key.identity, true) := by
        rw [← identity_relabel hid, ← hdown']
        rfl
      rw [Transitions.isRepeat, ht]
      exact hout
    rw [hflag, hflag']
    exact .held (.inr rfl) (identity_relabel hid)
  | @chord entered event named registration hdown' hent hmatch =>
    refine ho.emit (pendings_settle (by simp) _) (List.sublist_append_right _ _) ?_
    have hnamed : hotkeyEvent named registration = hotkeyEvent event registration ∧
        named.key.modifiers = event.key.modifiers := by
      cases hent <;> exact ⟨rfl, rfl⟩
    rw [hnamed.2] at hmatch
    rw [hnamed.1]
    exact .cons (.chord hdown' hmatch) .nil
  | wait hdown' hent => simpa using ho.quiet (hentered hdown' hent)
  | @flow entered event named hdown' hent =>
    refine ho.emit (pendings_settle (by simp) _) (hentered hdown' hent) ?_
    rw [markFrom_replay (hs.enter hdown' hent)]
    exact forall₂_same _
  | text htext =>
    refine ho.flushThen hs (pendings_settle (by simp) _) ?_
    have hflag : ∀ log, Transitions.isRepeat InputEvent.transition log e = false := by
      intro log
      rw [Transitions.isRepeat, htext]
    rw [flagged, hflag, hflag]
    exact .same _ _

end Steps

/-- **A key is held from its first make to its break.** -/
theorem Moves.identities {registry : HotkeyRegistry} {held held' : List HeldKey} {e : InputEvent}
    {out : List InputEvent} (hm : Moves registry held e held' out) :
    (e.transition = none ∧ identities held' = identities held) ∨
    ∃ k pressed, e.transition = some (k, pressed) ∧
      ∀ k', k' ∈ HotkeyMatcher.identities held' ↔
        if k = k' then pressed = true else k' ∈ HotkeyMatcher.identities held := by
  have hkey : ∀ event : KeyInput, event.toEvent.transition
      = some (event.key.identity, event.key.pressed) := fun _ => rfl
  have hwithout : ∀ (k k' : KeyId), k' ∈ HotkeyMatcher.identities (HotkeyMatcher.without held k) ↔
      if k = k' then false = true else k' ∈ HotkeyMatcher.identities held := by
    intro k k'
    simp only [mem_identities, HotkeyMatcher.without, List.mem_filter, decide_eq_true_eq]
    grind -linarith
  have hentered : ∀ {event named : KeyInput} {entered : List HeldKey},
      Entered held event named entered → ∀ k', k' ∈ HotkeyMatcher.identities entered ↔
        if event.key.identity = k' then true = true else k' ∈ HotkeyMatcher.identities held := by
    intro event named entered hent k'
    cases hent with
    | @old h hmem hid hstate =>
      have hin := mem_identities.2 ⟨h, hmem, hid⟩
      grind -linarith
    | new hnew =>
      rw [HotkeyMatcher.identities, List.map_append, List.mem_append, List.map_singleton,
        List.mem_singleton, ← HotkeyMatcher.identities]
      simp only [HeldKey.identity]
      grind -linarith
  cases hm with
  | @stray event hup hnew =>
    refine .inr ⟨_, _, hkey event, fun k' => ?_⟩
    rw [hup]
    grind -linarith
  | @swallow event h hup =>
    refine .inr ⟨_, _, hkey event, ?_⟩
    rw [hup]
    exact hwithout _
  | @release event h hup =>
    refine .inr ⟨_, _, hkey event, ?_⟩
    rw [hup, flushed, identities_settle]
    exact hwithout _
  | @again event h hdown hmem hid hstate =>
    refine .inr ⟨_, _, hkey event, fun k' => ?_⟩
    have hin := mem_identities.2 ⟨h, hmem, hid⟩
    rw [hdown, flushed, identities_settle]
    grind -linarith
  | @chord entered event named registration hdown hent hmatch =>
    refine .inr ⟨_, _, hkey event, ?_⟩
    rw [hdown, HotkeyMatcher.consume, identities_settle]
    exact hentered hent
  | @wait _ event named hdown hent =>
    refine .inr ⟨_, _, hkey event, ?_⟩
    rw [hdown]
    exact hentered hent
  | @flow entered event named hdown hent =>
    refine .inr ⟨_, _, hkey event, ?_⟩
    rw [hdown, flushed, identities_settle]
    exact hentered hent
  | text htext => exact .inl ⟨htext, identities_settle _ _⟩

/-- **A break goes out after a flush, under the logical key its key was pressed by.** -/
theorem Moves.broken {registry : HotkeyRegistry} {held held' : List HeldKey} {e : InputEvent}
    {out : List InputEvent} (hm : Moves registry held e held' out)
    (hmake : ∀ h ∈ held, h.make.key.pressed = true) {p q : List InputEvent} {x : InputEvent}
    (hout : out = p ++ x :: q) {k : KeyId} (hx : x.transition = some (k, false)) :
    ∃ h ∈ held, h.identity = k ∧ h.state ≠ .consumed ∧ p = replay held ∧
      ∃ event : KeyInput, x = event.toEvent ∧ event.key.key = h.make.key.key := by
  have hreplay : ∀ {l : List HeldKey}, (∀ h ∈ l, h.make.key.pressed = true) → x ∉ replay l := by
    intro l hl hmem
    obtain ⟨h, -, -, -, ht⟩ := transition_of_mem_replay hl hmem
    simp [ht] at hx
  -- The last event of a flush is the only one that can be a break.
  have hlast : ∀ {l : List HeldKey} {y : InputEvent}, (∀ h ∈ l, h.make.key.pressed = true) →
      replay l ++ [y] = p ++ x :: q → p = replay l ∧ x = y := by
    intro l y hl heq
    rcases List.eq_nil_or_concat q with rfl | ⟨q', z, rfl⟩
    · obtain ⟨h1, h2⟩ := List.append_inj' heq rfl
      exact ⟨h1.symm, (List.cons.inj h2).1.symm⟩
    · rw [List.concat_eq_append, ← List.cons_append, ← List.append_assoc] at heq
      obtain ⟨h1, -⟩ := List.append_inj' heq rfl
      exact absurd (h1 ▸ by simp) (hreplay hl)
  cases hm with
  | stray => simp at hout
  | swallow => simp at hout
  | @release event h hup hmem hid hstate =>
    obtain ⟨hp, rfl⟩ := hlast hmake hout
    refine ⟨h, hmem, ?_, hstate, hp, _, rfl, rfl⟩
    rw [hid, ← identity_relabel hid]
    exact congrArg Prod.fst (Option.some.inj hx)
  | @again event h hdown hmem hid hstate =>
    obtain ⟨-, rfl⟩ := hlast hmake hout
    have := congrArg Prod.snd (Option.some.inj hx)
    exact absurd this (by simpa [relabel] using hdown)
  | @chord entered event named registration hdown hent hmatch =>
    have hxm : x ∈ [hotkeyEvent named registration] := by
      rw [hout]
      simp
    rw [List.mem_singleton.mp hxm] at hx
    cases hx
  | wait => simp at hout
  | flow hdown hent => exact absurd (hout ▸ by simp) (hreplay (hent.makes hdown hmake))
  | text htext =>
    obtain ⟨-, rfl⟩ := hlast hmake hout
    rw [htext] at hx
    cases hx

/-! ## Whole streams -/

/-- A matcher and everything it emitted. -/
structure Stream where
  matcher : HotkeyMatcher
  emitted : List InputEvent

namespace Stream

/-- One submission with replay allowed, to a sink that succeeds. -/
def submit (s : Stream) (c : Allocation × KeyText) : Stream :=
  let result := s.matcher.submit c.1 recording c.2 true s.emitted
  ⟨result.2.1, result.2.2⟩

/-- Any sequence of key and text events. -/
def run (registry : HotkeyRegistry) (events : List (Allocation × KeyText)) : Stream :=
  events.foldl submit ⟨.initialized registry, []⟩

/-- The events as they were submitted. -/
def submitted (events : List (Allocation × KeyText)) : List InputEvent := events.map (·.2.1)

theorem run_append_singleton (registry : HotkeyRegistry) (events : List (Allocation × KeyText))
    (c : Allocation × KeyText) : run registry (events ++ [c]) = (run registry events).submit c := by
  rw [run, List.foldl_append, ← run]
  rfl

/-- Every break of a log closes a press that a make of the same physical and logical key opened. -/
def Balanced (log : List InputEvent) : Prop :=
  ∀ a x b k, log = a ++ x :: b → x.transition = some (k, false) →
    ∃ make : KeyInput, make.key.identity = k ∧ make.key.pressed = true ∧ Opened a make ∧
      ∃ event : KeyInput, x = event.toEvent ∧ event.key.key = make.key.key

/-- **The stream invariant.** -/
structure Lawful (registry : HotkeyRegistry) (submitted : List InputEvent) (s : Stream) : Prop where
  registry_eq : s.matcher.registry = registry
  replays : ∀ h ∈ s.matcher.held, h.allowReplay = true
  shown : Shown s.matcher.held s.emitted
  ordered : Ordered registry s.matcher.held submitted s.emitted
  down : s.matcher.failed = false → ∀ k, k ∈ identities s.matcher.held ↔
    Transitions.down InputEvent.transition submitted k = true
  balanced : Balanced s.emitted

theorem Balanced.move {registry : HotkeyRegistry} {held held' : List HeldKey} {e : InputEvent}
    {log out : List InputEvent} (hb : Balanced log) (hs : Shown held log)
    (hm : Moves registry held e held' out) : Balanced (log ++ out) := by
  have hnew : ∀ p x q k, out = p ++ x :: q → x.transition = some (k, false) →
      ∃ make : KeyInput, make.key.identity = k ∧ make.key.pressed = true ∧ Opened (log ++ p) make ∧
        ∃ event : KeyInput, x = event.toEvent ∧ event.key.key = make.key.key := by
    intro p x q k hout hx
    obtain ⟨h, hmem, hid, hstate, rfl, event, rfl, hkey⟩ := hm.broken hs.makes hout hx
    refine ⟨h.make, hid, hs.makes h hmem, ?_, event, rfl, hkey⟩
    have hopen := hs.flush.opened (h.settle .delivered) (List.mem_map_of_mem hmem) ?_
    · rwa [HeldKey.settle_make] at hopen
    · rw [HeldKey.settle_state]
      cases hst : h.state <;> simp_all
  intro a x b k heq hx
  rcases List.append_eq_append_iff.mp heq with ⟨as, rfl, hout⟩ | ⟨bs, hlog, hxb⟩
  · exact hnew as x b k hout hx
  · cases bs with
    | nil =>
      rw [List.append_nil] at hlog
      have h := hnew [] x b k hxb.symm hx
      rwa [List.append_nil, hlog] at h
    | cons y bs =>
      obtain ⟨rfl, -⟩ := List.cons.inj hxb
      exact hb a x bs k hlog hx

theorem Moves.replays {registry : HotkeyRegistry} {held held' : List HeldKey} {e : InputEvent}
    {out : List InputEvent} (hm : Moves registry held e held' out)
    (hr : ∀ h ∈ held, h.allowReplay = true) : ∀ h ∈ held', h.allowReplay = true := by
  have hsettle : ∀ {l : List HeldKey} (fate : HotkeyState), (∀ h ∈ l, h.allowReplay = true) →
      ∀ h ∈ l.map (·.settle fate), h.allowReplay = true := by
    intro l fate hl h hh
    obtain ⟨g, hg, rfl⟩ := List.mem_map.mp hh
    rw [HeldKey.settle_allowReplay]
    exact hl g hg
  have hwithout : ∀ k, ∀ h ∈ HotkeyMatcher.without held k, h.allowReplay = true :=
    fun k h hh => hr h (List.mem_filter.mp hh).1
  have hentered : ∀ {event named : KeyInput} {entered : List HeldKey},
      Entered held event named entered → ∀ h ∈ entered, h.allowReplay = true := by
    intro event named entered hent h hh
    cases hent with
    | old => exact hr h hh
    | new =>
      rcases List.mem_append.mp hh with hh | hh
      · exact hr h hh
      · rw [List.mem_singleton.mp hh]
  cases hm with
  | stray => exact hr
  | swallow => exact hwithout _
  | release => exact hsettle _ (hwithout _)
  | again => exact hsettle _ hr
  | chord hdown hent hmatch => exact hsettle _ (hentered hent)
  | wait hdown hent => exact hentered hent
  | flow hdown hent => exact hsettle _ (hentered hent)
  | text => exact hsettle _ hr

/-- **One submission**: nothing at all once the matcher has failed, a failure that emits nothing, or
a move. -/
theorem Lawful.cases {registry : HotkeyRegistry} {sub : List InputEvent} {s : Stream}
    (hl : Lawful registry sub s) (c : Allocation × KeyText) :
    ((s.submit c).matcher.failed = true ∧ (s.submit c).matcher.registry = registry ∧
      (s.submit c).matcher.held = s.matcher.held ∧ (s.submit c).emitted = s.emitted) ∨
    ((s.submit c).matcher.failed = false ∧ s.matcher.failed = false ∧
      (s.submit c).matcher.registry = registry ∧ ∃ out, (s.submit c).emitted = s.emitted ++ out ∧
        Moves registry s.matcher.held c.2 (s.submit c).matcher.held out) := by
  cases hf : s.matcher.failed with
  | true =>
    have hsame : s.submit c = s := by simp [Stream.submit, HotkeyMatcher.submit, hf]
    rw [hsame]
    exact .inl ⟨hf, hl.registry_eq, rfl, rfl⟩
  | false =>
    obtain ⟨hreg, ⟨hfail, hheld, hlog⟩ | ⟨hok, out, hlog, hm⟩⟩ :=
      submit_moves hf hl.shown.nodup hl.replays c.1 c.2 s.emitted
    · exact .inl ⟨hfail, hreg.trans hl.registry_eq, hheld, hlog⟩
    · rw [hl.registry_eq] at hm
      exact .inr ⟨hok, rfl, hreg.trans hl.registry_eq, out, hlog, hm⟩

theorem Lawful.submit {registry : HotkeyRegistry} {sub : List InputEvent} {s : Stream}
    (hl : Lawful registry sub s) (c : Allocation × KeyText) :
    Lawful registry (sub ++ [c.2.1]) (s.submit c) := by
  rcases hl.cases c with ⟨hfail, hreg, hheld, hlog⟩ | ⟨hok, hf, hreg, out, hlog, hm⟩
  · refine ⟨hreg, hheld ▸ hl.replays, ?_, ?_, fun h => absurd (hfail.symm.trans h) (by simp), ?_⟩
    · rw [hheld, hlog]
      exact hl.shown
    · rw [hheld, hlog]
      exact hl.ordered.quiet (List.sublist_append_left _ _)
    · rw [hlog]
      exact hl.balanced
  · refine ⟨hreg, Moves.replays hm hl.replays, ?_, ?_, fun _ k => ?_, ?_⟩
    · rw [hlog]
      exact hl.shown.move hm
    · rw [hlog]
      exact hl.ordered.move hl.shown (hl.down hf) hm
    · rcases hm.identities with ⟨hnone, hids⟩ | ⟨k', pressed, hsome, hids⟩
      · rw [Transitions.down_append_of_none hnone, hids]
        exact hl.down hf k
      · rw [Transitions.down_append_of_some hsome, hids]
        split
        · rfl
        · exact hl.down hf k
    · rw [hlog]
      exact hl.balanced.move hl.shown hm

theorem lawful_run (registry : HotkeyRegistry) (events : List (Allocation × KeyText)) :
    Lawful registry (submitted events) (run registry events) := by
  induction events using List.reverseRecOn with
  | nil =>
    refine ⟨rfl, by simp [run, initialized], ⟨?_, ?_, ?_, ?_⟩, ⟨[], [], rfl, ⟨[], ?_, ?_⟩, ?_⟩,
      ?_, ?_⟩ <;>
      simp [run, initialized, identities, submitted, Transitions.mark, Transitions.markFrom,
        awaiting, pendings, Balanced]
  | append_singleton events c ih =>
    rw [run_append_singleton, submitted, List.map_append, List.map_singleton, ← submitted]
    exact ih.submit c

/-! ## Presses -/

/-- What became of a key's make, while the key is held. -/
def stateOf (s : Stream) (k : KeyId) : Option HotkeyState :=
  (s.matcher.held.find? (·.identity = k)).map (·.state)

theorem stateOf_eq_some {s : Stream} (hn : (identities s.matcher.held).Nodup) {k : KeyId}
    {state : HotkeyState} :
    s.stateOf k = some state ↔ ∃ h ∈ s.matcher.held, h.identity = k ∧ h.state = state := by
  unfold stateOf
  rw [Option.map_eq_some_iff]
  constructor
  · rintro ⟨h, hfind, hs⟩
    exact ⟨h, List.mem_of_find?_eq_some hfind, by simpa using List.find?_some hfind, hs⟩
  · rintro ⟨h, hh, rfl, hs⟩
    have hex : (s.matcher.held.find? (·.identity = h.identity)).isSome :=
      List.find?_isSome.mpr ⟨h, hh, by simp⟩
    obtain ⟨g, hg⟩ := Option.isSome_iff_exists.mp hex
    have hgh : g = h := eq_of_identity hn hh (List.mem_of_find?_eq_some hg)
      (by simpa using List.find?_some hg)
    exact ⟨g, hg, hgh ▸ hs⟩

theorem stateOf_eq_none {s : Stream} {k : KeyId} :
    s.stateOf k = none ↔ k ∉ identities s.matcher.held := by
  simp [stateOf, mem_identities]

/-- **The law of a single press**: a disposition other than pending lasts as long as the key is held,
and a submission emits a transition of the key only if it finds it unconsumed and leaves it
delivered or released. -/
theorem Lawful.press {registry : HotkeyRegistry} {sub : List InputEvent} {s : Stream}
    (hl : Lawful registry sub s) (c : Allocation × KeyText) (k : KeyId) :
    (∀ state, s.stateOf k = some state → state ≠ .pending →
      (s.submit c).stateOf k = some state ∨ (s.submit c).stateOf k = none) ∧
    ∃ out, (s.submit c).emitted = s.emitted ++ out ∧
      ∀ x ∈ out, ∀ pressed, x.transition = some (k, pressed) →
        s.stateOf k ≠ some .consumed ∧
        ((s.submit c).stateOf k = some .delivered ∨ (s.submit c).stateOf k = none) := by
  have hn := hl.shown.nodup
  have hn' := (hl.submit c).shown.nodup
  rcases hl.cases c with ⟨-, -, hheld, hlog⟩ | ⟨-, -, -, out, hlog, hm⟩
  · have hsame : (s.submit c).stateOf k = s.stateOf k := by rw [stateOf, stateOf, hheld]
    exact ⟨fun state hs _ => .inl (hsame.trans hs), [], by simpa using hlog, by simp⟩
  have hkeep : ∀ state, s.stateOf k = some state → state ≠ .pending →
      (s.submit c).stateOf k = some state ∨ (s.submit c).stateOf k = none := by
    intro state hs hp
    obtain ⟨h, hh, hid, rfl⟩ := (stateOf_eq_some hn).mp hs
    cases hk : (s.submit c).stateOf k with
    | none => exact .inr rfl
    | some state' =>
      obtain ⟨h', hh', hid', rfl⟩ := (stateOf_eq_some hn').mp hk
      exact .inl (congrArg some (hm.settled hn hh hh' (hid'.trans hid.symm) hp))
  refine ⟨hkeep, out, hlog, fun x hx pressed ht => ?_⟩
  rcases hm.emitted hl.shown.makes hx ht with ⟨h', hh', hid', hd⟩ | ⟨hgone, h, hh, hid, hc⟩
  · have hdel := (stateOf_eq_some hn').mpr ⟨h', hh', hid', hd⟩
    refine ⟨fun hcons => ?_, .inl hdel⟩
    rcases hkeep _ hcons (by simp) with h1 | h1 <;> rw [hdel] at h1 <;> cases h1
  · refine ⟨fun hcons => ?_, .inr (stateOf_eq_none.2 hgone)⟩
    obtain ⟨g, hg, hgid, hgc⟩ := (stateOf_eq_some hn).mp hcons
    rw [eq_of_identity hn hh hg (hgid.trans hid.symm)] at hgc
    exact hc hgc

/-- What a run emits after a prefix of it. -/
def emittedSince (registry : HotkeyRegistry) (before after : List (Allocation × KeyText)) :
    List InputEvent :=
  (run registry (before ++ after)).emitted.drop (run registry before).emitted.length

theorem emittedSince_append_singleton (registry : HotkeyRegistry)
    (before after : List (Allocation × KeyText)) (c : Allocation × KeyText) :
    ∃ out, (run registry (before ++ after ++ [c])).emitted
        = (run registry (before ++ after)).emitted ++ out ∧
      emittedSince registry before (after ++ [c]) = emittedSince registry before after ++ out := by
  have hgrow : ∀ events : List (Allocation × KeyText), ∃ out,
      (run registry (before ++ events)).emitted = (run registry before).emitted ++ out := by
    intro events
    induction events using List.reverseRecOn with
    | nil => exact ⟨[], by simp⟩
    | append_singleton events c ih =>
      obtain ⟨out, hout⟩ := ih
      obtain ⟨-, more, hmore, -⟩ := (lawful_run registry (before ++ events)).press c (.scan false 0)
      refine ⟨out ++ more, ?_⟩
      rw [← List.append_assoc, run_append_singleton, hmore, hout, List.append_assoc]
  obtain ⟨-, out, hout, -⟩ := (lawful_run registry (before ++ after)).press c (.scan false 0)
  rw [← run_append_singleton] at hout
  refine ⟨out, hout, ?_⟩
  obtain ⟨so, hso⟩ := hgrow after
  rw [emittedSince, emittedSince, ← List.append_assoc, hout, hso, List.append_assoc,
    List.drop_left, List.drop_left]

/-- **While a press is not delivered, nothing of its key is emitted.** -/
theorem quiet_press (registry : HotkeyRegistry) (before after : List (Allocation × KeyText))
    (k : KeyId) (hheld : ∀ n, 0 < n → n ≤ after.length →
      (run registry (before ++ after.take n)).stateOf k ≠ none)
    (hstate : (run registry (before ++ after)).stateOf k ≠ some .delivered) :
    ∀ x ∈ emittedSince registry before after, ∀ pressed, x.transition ≠ some (k, pressed) := by
  induction after using List.reverseRecOn with
  | nil => simp [emittedSince]
  | append_singleton after c ih =>
    have hlaw := lawful_run registry (before ++ after)
    obtain ⟨hkeep, out, hout, hemit⟩ := hlaw.press c k
    rw [← run_append_singleton] at hkeep hout hemit
    obtain ⟨out', hout', hsince⟩ := emittedSince_append_singleton registry before after c
    obtain rfl : out = out' := List.append_cancel_left (hout.symm.trans hout')
    have hlast : (run registry (before ++ after ++ [c])).stateOf k ≠ none := by
      have := hheld (after ++ [c]).length (by simp) (Nat.le_refl _)
      rwa [List.take_length, ← List.append_assoc] at this
    rw [← List.append_assoc] at hstate
    -- A press delivered earlier would still be delivered.
    have hprev : (run registry (before ++ after)).stateOf k ≠ some .delivered := fun hd =>
      (hkeep _ hd (by simp)).elim hstate hlast
    have hold := ih (fun n hn hle => ?_) hprev
    · rw [hsince]
      intro x hx pressed ht
      rcases List.mem_append.mp hx with hx | hx
      · exact hold x hx pressed ht
      · exact (hemit x hx pressed ht).2.elim hstate hlast
    · have := hheld n hn (by simp; omega)
      rwa [List.take_append_of_le_length hle] at this

/-- **The stream law of the hotkey matcher.**  Over every registry and every sequence of events: no
physical key is held twice; what is emitted comes in order from what was submitted — the event, a
held key's break or repeat under the key it was pressed by, or a hotkey for a chord's trigger — and
repeats as it does; every emitted break closes a press that exactly one make opened; a press consumed
by a chord shows nothing of its key; and a delivered press is never consumed. -/
theorem stream_law (registry : HotkeyRegistry) (events : List (Allocation × KeyText)) :
    let s := run registry events
    (identities s.matcher.held).Nodup ∧
    (∃ source, source <+ Transitions.mark InputEvent.transition (submitted events) ∧
      List.Forall₂ (Corresponds registry) source
        (Transitions.mark InputEvent.transition s.emitted)) ∧
    (∀ a x b k, s.emitted = a ++ x :: b → x.transition = some (k, false) →
      ∃ make : KeyInput, make.key.identity = k ∧ make.key.pressed = true ∧ Opened a make ∧
        ∃ event : KeyInput, x = event.toEvent ∧ event.key.key = make.key.key) ∧
    (∀ before after c k, events = before ++ after ++ [c] →
      (run registry before).stateOf k = none →
      (∀ n, 0 < n → n ≤ after.length → (run registry (before ++ after.take n)).stateOf k ≠ none) →
      (run registry (before ++ after)).stateOf k = some .consumed →
      ∀ x ∈ emittedSince registry before (after ++ [c]), ∀ pressed,
        x.transition ≠ some (k, pressed)) ∧
    (∀ k, s.stateOf k = some .delivered ↔
      Transitions.down InputEvent.transition s.emitted k = true) ∧
    (∀ c k, s.stateOf k = some .delivered →
      (s.submit c).stateOf k = some .delivered ∨ (s.submit c).stateOf k = none) := by
  intro s
  have hl := lawful_run registry events
  refine ⟨hl.shown.nodup, ?_, hl.balanced, ?_, fun k => ?_, fun c k hd => ?_⟩
  · obtain ⟨before, after, hmark, ⟨source, hsource, hcorr⟩, -⟩ := hl.ordered
    exact ⟨source, hmark ▸ hsource.trans (List.sublist_append_left _ _), hcorr⟩
  · rintro before after c k rfl - hheld hcons x hx pressed ht
    obtain ⟨-, out, hout, hemit⟩ := (lawful_run registry (before ++ after)).press c k
    obtain ⟨out', hout', hsince⟩ := emittedSince_append_singleton registry before after c
    rw [← run_append_singleton] at hout
    obtain rfl : out = out' := List.append_cancel_left (hout.symm.trans hout')
    rw [hsince] at hx
    rcases List.mem_append.mp hx with hx | hx
    · exact quiet_press registry before after k hheld (by simp [hcons]) x hx pressed ht
    · exact (hemit x hx pressed ht).1 hcons
  · rw [stateOf_eq_some hl.shown.nodup]
    constructor
    · rintro ⟨h, hh, rfl, hd⟩
      exact hl.shown.down_of_delivered hh hd
    · intro hdown
      by_contra hnone
      have hup := hl.shown.up k fun h hh hid hd => hnone ⟨h, hh, hid, hd⟩
      exact absurd (hdown.symm.trans hup) (by simp)
  · exact (hl.press c k).1 _ hd (by simp)

/-- A key pressed as `a`, repeated, and released after the layout changed: its break goes out under
the key it was pressed by, which is not the event submitted, and after two makes. -/
theorem relabelled_break :
    let storage : Allocation := ⟨2 ^ 64 - 1, 112, true⟩
    let key (code : BaseKey) (pressed : Bool) : InputEvent :=
      ⟨0, 1, .key ⟨0x1e, code, 0, 0, pressed⟩⟩
    let events : List (Allocation × KeyText) :=
      [(storage, ⟨key 0x61 true, .inl ⟨_, rfl⟩⟩), (storage, ⟨key 0x61 true, .inl ⟨_, rfl⟩⟩),
        (storage, ⟨key 0x62 false, .inl ⟨_, rfl⟩⟩)]
    let s := run .initialized events
    s.emitted = [key 0x61 true, key 0x61 true, key 0x61 false] ∧
      ¬ s.emitted.Sublist (submitted events) := by
  decide

end Stream

end SoftPC.HotkeyMatcher
