import SoftPC.Machinery.Halves
import SoftPC.System.QueueSnapshot
import SoftPC.Machinery.Numerals
import Mathlib.Data.Fin.Basic
import Mathlib.Data.List.Nodup

/-!
# Compat/SoundEvents — the handles of sound devices in a snapshot

    handles of the lines, of the DSP ◂──one names one?──▸ queue entries of their kinds

`device_sound_events_valid` of `compat/devices/archive.c`.  Each entry of the two kinds belongs to a slot: the DSP, or
the line that is its parameter.  An accepted archive has one entry for each slot with a handle and no others
(`valid_spec`); but a handle is all that an event is deleted by, and nothing asks that two lines have two.
-/

namespace SoftPC.SoundEvents

open QuickEv

/-- `SOFTPC_DEVICE_QUEUE_SB_COMPLETION`. -/
def sbCompletion : BitVec 32 := 16#32

/-- `SOFTPC_DEVICE_QUEUE_DELAYED_IRQ`. -/
def delayedIrq : BitVec 32 := 17#32

/-- What is read of an archive: the entries of the queues, `DspCompletionEvent`, and the state of the delayed EOIs. -/
structure Archive where
  quickEntries : List QuickEv.Entry
  tickEntries : List QuickEv.Entry
  completionEvent : BitVec 32
  eoiMask : BitVec 32
  eoiHandles : Fin 16 → BitVec 32

/-- `irq_mask` and `completion`. -/
structure Seen where
  irqMask : BitVec 32 := 0#32
  completion : Bool := false

/-- The line of an entry. -/
def line (entry : QuickEv.Entry) : Fin 16 := Fin.ofNat 16 entry.param.toNat

/-- The loop over the entries, quick ones first; `none` is `FALSE`. -/
def step (a : Archive) (s : Seen) : Bool × QuickEv.Entry → Option Seen
  | (quick, entry) =>
    if entry.callbackId = sbCompletion then
      if ¬quick ∨ s.completion ∨ entry.param ≠ 0#32 ∨ entry.handle = 0 ∨ entry.handle ≠ a.completionEvent.toNat then
        none
      else some { s with completion := true }
    else if entry.callbackId = delayedIrq then
      if ¬quick ∨ entry.param.toInt < 0 ∨ entry.param.toInt ≥ 16 then none
      else
        let bit := 1#32 <<< (line entry : ℕ)
        if s.irqMask &&& bit ≠ 0#32 ∨ entry.handle = 0 ∨ entry.handle ≠ (a.eoiHandles (line entry)).toNat then none
        else some { s with irqMask := s.irqMask ||| bit }
    else some s

/-- The entries in the order of the loop. -/
def Archive.entries (a : Archive) : List (Bool × QuickEv.Entry) := a.quickEntries.map (true, ·) ++ a.tickEntries.map (false, ·)

def deviceSoundEventsValid (a : Archive) : Bool :=
  match a.entries.foldlM (step a) {} with
  | none => false
  | some s =>
    if s.completion ≠ decide (a.completionEvent ≠ 0#32) ∨ s.irqMask ≠ a.eoiMask then false
    else (List.finRange 16).all fun i => s.irqMask.getLsbD i = decide (a.eoiHandles i ≠ 0#32)

/-! ## Slots -/

/-- Where a handle is kept: `none` is the DSP, else a line. -/
abbrev Slot := Option (Fin 16)

namespace Archive

variable (a : Archive)

/-- The handle in a slot. -/
def handle : Slot → BitVec 32
  | none => a.completionEvent
  | some i => a.eoiHandles i

end Archive

/-- The kind of its entries. -/
def kind : Slot → BitVec 32
  | none => sbCompletion
  | some _ => delayedIrq

/-- The slot an entry belongs to. -/
def slotOf (entry : QuickEv.Entry) : Option Slot :=
  if entry.callbackId = sbCompletion then some none
  else if entry.callbackId = delayedIrq then some (some (line entry))
  else none

def slotOfPair (x : Bool × QuickEv.Entry) : Option Slot := slotOf x.2

/-- A slot has been seen. -/
def Seen.Has (s : Seen) : Slot → Prop
  | none => s.completion = true
  | some i => s.irqMask.getLsbD i = true

variable {a : Archive} {s t : Seen} {quick : Bool} {entry : QuickEv.Entry} {slot : Slot}

theorem kind_of_slotOf (h : slotOf entry = some slot) : entry.callbackId = kind slot := by
  unfold slotOf at h
  split at h
  next hsb =>
    cases h
    exact hsb
  next =>
    split at h
    next hirq =>
      cases h
      exact hirq
    next => cases h

theorem slotOf_of_kind (h : entry.callbackId = kind slot) :
    ∃ slot', slotOf entry = some slot' ∧ kind slot' = kind slot := by
  cases slot with
  | none => exact ⟨none, if_pos h, rfl⟩
  | some i =>
    have hirq : entry.callbackId = delayedIrq := h
    have hne : delayedIrq ≠ sbCompletion := by decide
    exact ⟨some (line entry), by rw [slotOf, hirq, if_neg hne, if_pos rfl], rfl⟩

/-- The bit of a line. -/
theorem and_bit_ne_zero (mask : BitVec 32) (i : Fin 16) : mask &&& (1#32 <<< (i : ℕ)) ≠ 0#32 ↔ mask.getLsbD i = true :=
  Halves.and_twoPow_ne_zero mask (Nat.lt_trans i.isLt (by decide))

theorem getLsbD_or_bit (mask : BitVec 32) (i j : Fin 16) :
    (mask ||| 1#32 <<< (i : ℕ)).getLsbD j = (mask.getLsbD j || decide (i = j)) := by
  have hj := j.isLt
  have hbit : (1#32 <<< (i : ℕ)).getLsbD j = decide (i = j) := by
    change (BitVec.twoPow 32 i).getLsbD j = _
    rw [BitVec.getLsbD_twoPow, decide_eq_true (show (i : ℕ) < 32 by omega), Bool.true_and]
    exact decide_eq_decide.mpr Fin.val_inj
  rw [BitVec.getLsbD_or, hbit]

/-- **What an entry is checked for**: a slot that has not been seen and has its handle. -/
theorem step_spec (h : step a s (quick, entry) = some t) :
    (∀ slot, slotOf entry = some slot →
      quick = true ∧ ¬s.Has slot ∧ entry.handle ≠ 0 ∧ entry.handle = (a.handle slot).toNat) ∧
      ∀ slot, t.Has slot ↔ s.Has slot ∨ slotOf entry = some slot := by
  unfold step at h
  unfold slotOf
  dsimp only at h
  by_cases hsb : entry.callbackId = sbCompletion
  · rw [if_pos hsb] at h ⊢
    split at h
    · cases h
    next hok =>
      cases h
      refine ⟨fun slot hslot => ?_, fun slot => ?_⟩
      · cases hslot
        simp only [not_or, not_not] at hok
        exact ⟨hok.1, hok.2.1, hok.2.2.2.1, hok.2.2.2.2⟩
      · cases slot with
        | none => exact ⟨fun _ => .inr rfl, fun _ => rfl⟩
        | some i => exact ⟨.inl, fun h => h.resolve_right nofun⟩
  · rw [if_neg hsb] at h ⊢
    by_cases hirq : entry.callbackId = delayedIrq
    · rw [if_pos hirq] at h ⊢
      split at h
      · cases h
      next hrange =>
        split at h
        · cases h
        next hok =>
          cases h
          refine ⟨fun slot hslot => ?_, fun slot => ?_⟩
          · cases hslot
            simp only [not_or, not_not] at hok hrange
            exact ⟨hrange.1, fun hseen => (and_bit_ne_zero _ _).mpr hseen hok.1, hok.2.1, hok.2.2⟩
          · cases slot with
            | none => exact ⟨.inl, fun h => h.resolve_right nofun⟩
            | some i =>
              rw [Seen.Has, getLsbD_or_bit, Bool.or_eq_true, decide_eq_true_iff, Option.some.injEq, Option.some.injEq]
              rfl
    · rw [if_neg hirq] at h ⊢
      cases h
      exact ⟨nofun, fun slot => ⟨.inl, fun h => h.resolve_right nofun⟩⟩

/-! ## The loop -/

/-- An entry that belongs to a slot is a quick one, and has its handle. -/
def Matches (a : Archive) (x : Bool × QuickEv.Entry) : Prop :=
  ∀ slot, slotOf x.2 = some slot → x.1 = true ∧ x.2.handle ≠ 0 ∧ x.2.handle = (a.handle slot).toNat

/-- **The loop sees every slot once**. -/
theorem run_spec {xs : List (Bool × QuickEv.Entry)} (h : xs.foldlM (step a) s = some t) :
    (∀ x ∈ xs, Matches a x) ∧ (xs.filterMap slotOfPair).Nodup ∧
      (∀ slot ∈ xs.filterMap slotOfPair, ¬s.Has slot) ∧
      ∀ slot, t.Has slot ↔ s.Has slot ∨ slot ∈ xs.filterMap slotOfPair := by
  induction xs generalizing s with
  | nil =>
    cases h
    exact ⟨nofun, List.nodup_nil, nofun, fun slot => ⟨.inl, fun h => h.resolve_right List.not_mem_nil⟩⟩
  | cons x xs ih =>
    obtain ⟨quick, entry⟩ := x
    rw [List.foldlM_cons] at h
    obtain ⟨u, hstep, hrest⟩ := Option.bind_eq_some_iff.mp h
    obtain ⟨hentry, hseen⟩ := step_spec hstep
    obtain ⟨hmatches, hnodup, hfresh, hhas⟩ := ih hrest
    have hmatch : Matches a (quick, entry) := fun slot hslot => by
      obtain ⟨hquick, -, hne, heq⟩ := hentry slot hslot
      exact ⟨hquick, hne, heq⟩
    refine ⟨List.forall_mem_cons.mpr ⟨hmatch, hmatches⟩, ?_⟩
    cases hslot : slotOf entry with
    | none =>
      have hnone : slotOfPair (quick, entry) = none := hslot
      rw [List.filterMap_cons_none hnone]
      have hsame : ∀ slot, u.Has slot ↔ s.Has slot := fun slot => by
        rw [hseen, hslot]
        exact ⟨fun h => h.resolve_right nofun, .inl⟩
      exact ⟨hnodup, fun slot hin hold => hfresh slot hin ((hsame slot).mpr hold),
        fun slot => (hhas slot).trans (or_congr_left (hsame slot))⟩
    | some slot =>
      have hsome : slotOfPair (quick, entry) = some slot := hslot
      rw [List.filterMap_cons_some hsome]
      have hnew : ∀ slot', u.Has slot' ↔ s.Has slot' ∨ slot' = slot := fun slot' => by
        rw [hseen, hslot, Option.some.injEq, eq_comm]
      refine ⟨List.nodup_cons.mpr ⟨fun hin => hfresh slot hin ((hnew slot).mpr (.inr rfl)), hnodup⟩,
        List.forall_mem_cons.mpr ⟨(hentry slot hslot).2.1, fun slot' hin hold => ?_⟩, fun slot' => ?_⟩
      · exact hfresh slot' hin ((hnew slot').mpr (.inl hold))
      · rw [hhas, hnew, List.mem_cons, or_assoc]

/-- What an archive that is accepted has. -/
structure Accepted (a : Archive) : Prop where
  matches' : ∀ entry ∈ a.quickEntries, ∀ slot, slotOf entry = some slot →
    entry.handle ≠ 0 ∧ entry.handle = (a.handle slot).toNat
  nodup : (a.quickEntries.filterMap slotOf).Nodup
  filled : ∀ slot, a.handle slot ≠ 0#32 ↔ slot ∈ a.quickEntries.filterMap slotOf

theorem Archive.filterMap_entries (a : Archive) : a.entries.filterMap slotOfPair =
    a.quickEntries.filterMap slotOf ++ a.tickEntries.filterMap slotOf := by
  rw [entries, List.filterMap_append, List.filterMap_map, List.filterMap_map]
  rfl

/-- **An archive that is accepted** has one entry for every slot with a handle, and no others of the two kinds. -/
theorem accepted_of_valid (h : deviceSoundEventsValid a = true) : Accepted a := by
  unfold deviceSoundEventsValid at h
  split at h
  · cases h
  next s hrun =>
    obtain ⟨hmatches, hnodup, -, hhas⟩ := run_spec hrun
    rw [Archive.filterMap_entries] at hnodup hhas
    split at h
    · cases h
    next hsame =>
      simp only [not_or, not_not] at hsame
      have hlines := fun i : Fin 16 => of_decide_eq_true (List.all_eq_true.mp h i (List.mem_finRange i))
      have htick : ∀ slot, slot ∉ a.tickEntries.filterMap slotOf := fun slot hin => by
        obtain ⟨entry, hentry, hslot⟩ := List.mem_filterMap.mp hin
        have hmem : (false, entry) ∈ a.entries := List.mem_append_right _ (List.mem_map_of_mem hentry)
        exact absurd (hmatches _ hmem slot hslot).1 nofun
      refine ⟨fun entry hentry slot hslot => ?_, (List.nodup_append.mp hnodup).1, fun slot => ?_⟩
      · have hmem : (true, entry) ∈ a.entries := List.mem_append_left _ (List.mem_map_of_mem hentry)
        exact (hmatches _ hmem slot hslot).2
      · have hslot : s.Has slot ↔ a.handle slot ≠ 0#32 := by
          cases slot with
          | none => rw [Seen.Has, hsame.1, decide_eq_true_iff]; rfl
          | some i => rw [Seen.Has, hlines i, decide_eq_true_iff]; rfl
        have hempty : ¬({} : Seen).Has slot := by
          cases slot with
          | none => nofun
          | some i =>
            rw [Seen.Has, BitVec.getLsbD_zero]
            nofun
        rw [← hslot, hhas, List.mem_append]
        exact ⟨fun h => (h.resolve_left hempty).resolve_right (htick slot), fun h => .inr (.inl h)⟩

/-! ## Handles and entries -/

namespace Archive

variable (a : Archive)

/-- A slot with a handle names an entry of its kind with that handle. -/
def Names (slot : Slot) (n : ℕ) : Prop :=
  a.handle slot ≠ 0#32 ∧
    ∃ entry, a.quickEntries[n]? = some entry ∧ entry.callbackId = kind slot ∧ entry.handle = (a.handle slot).toNat

/-- Handles and entries name each other: each handle one entry of its kind, and each entry of the kinds one handle. -/
structure Named : Prop where
  handles : ∀ slot, a.handle slot ≠ 0#32 → ∃! n, a.Names slot n
  entries : ∀ n entry, a.quickEntries[n]? = some entry →
    entry.callbackId = sbCompletion ∨ entry.callbackId = delayedIrq → ∃! slot, a.Names slot n

/-- No two lines have one handle. -/
def Distinct : Prop := ∀ i j, a.eoiHandles i ≠ 0#32 → a.eoiHandles i = a.eoiHandles j → i = j

end Archive

/-- One entry belongs to a slot. -/
theorem index_unique {α β : Type} {f : α → Option β} {l : List α} (h : (l.filterMap f).Nodup) {m n : ℕ} {x y : α}
    {b : β} (hx : l[m]? = some x) (hy : l[n]? = some y) (hfx : f x = some b) (hfy : f y = some b) : m = n := by
  obtain ⟨hm, rfl⟩ := List.getElem?_eq_some_iff.mp hx
  obtain ⟨hn, rfl⟩ := List.getElem?_eq_some_iff.mp hy
  have hpairs := List.pairwise_iff_getElem.mp (List.pairwise_filterMap.mp h)
  rcases Nat.lt_trichotomy m n with hlt | rfl | hlt
  · exact (hpairs m n hm hn hlt b hfx b hfy rfl).elim
  · rfl
  · exact (hpairs n m hn hm hlt b hfy b hfx rfl).elim

namespace Accepted

variable (h : Accepted a)
include h

/-- The entry of a slot with a handle. -/
theorem exists_entry (hslot : a.handle slot ≠ 0#32) :
    ∃ (n : ℕ) (entry : QuickEv.Entry), a.quickEntries[n]? = some entry ∧ slotOf entry = some slot := by
  obtain ⟨entry, hentry, hof⟩ := List.mem_filterMap.mp ((h.filled slot).mp hslot)
  obtain ⟨n, hn⟩ := List.mem_iff_getElem?.mp hentry
  exact ⟨n, entry, hn, hof⟩

theorem names_of_slotOf {n : ℕ} {entry : QuickEv.Entry} (hn : a.quickEntries[n]? = some entry)
    (hof : slotOf entry = some slot) : a.Names slot n := by
  have hmem := List.mem_of_getElem? hn
  have hhandle := (h.matches' entry hmem slot hof).2
  exact ⟨(h.filled slot).mpr (List.mem_filterMap.mpr ⟨entry, hmem, hof⟩), entry, hn, kind_of_slotOf hof, hhandle⟩

/-- What a slot names belongs to a slot of the same kind and handle. -/
theorem slotOf_of_names {n : ℕ} (hnames : a.Names slot n) : ∃ entry slot', a.quickEntries[n]? = some entry ∧
    slotOf entry = some slot' ∧ kind slot' = kind slot ∧ a.handle slot' = a.handle slot := by
  obtain ⟨-, entry, hn, hkind, hhandle⟩ := hnames
  obtain ⟨slot', hof, hsame⟩ := slotOf_of_kind hkind
  have heq := (h.matches' entry (List.mem_of_getElem? hn) slot' hof).2
  rw [hhandle, Nat.cast_inj] at heq
  exact ⟨entry, slot', hn, hof, hsame, (BitVec.eq_of_toNat_eq heq).symm⟩

omit h in
/-- Slots of one kind and handle are one, if the handles of the lines are distinct. -/
theorem slot_unique (hdistinct : a.Distinct) {slot' : Slot} (hslot : a.handle slot ≠ 0#32)
    (hkind : kind slot' = kind slot) (hhandle : a.handle slot' = a.handle slot) : slot' = slot := by
  have hne : sbCompletion ≠ delayedIrq := by decide
  cases slot with
  | none =>
    cases slot' with
    | none => rfl
    | some j => exact (hne hkind.symm).elim
  | some i =>
    cases slot' with
    | none => exact (hne hkind).elim
    | some j => rw [hdistinct i j hslot hhandle.symm]

theorem named (hdistinct : a.Distinct) : a.Named where
  handles slot hslot := by
    obtain ⟨n, entry, hn, hof⟩ := h.exists_entry hslot
    refine ⟨n, h.names_of_slotOf hn hof, fun m hnames => ?_⟩
    obtain ⟨entry', slot', hm, hof', hkind, hhandle⟩ := h.slotOf_of_names hnames
    obtain rfl := slot_unique hdistinct hslot hkind hhandle
    exact index_unique h.nodup hm hn hof' hof
  entries n entry hn hkind := by
    have hslot : ∃ slot, slotOf entry = some slot := by
      rcases hkind with hkind | hkind
      · exact ⟨none, if_pos hkind⟩
      · have hne : delayedIrq ≠ sbCompletion := by decide
        exact ⟨some (line entry), by rw [slotOf, hkind, if_neg hne, if_pos rfl]⟩
    obtain ⟨slot, hof⟩ := hslot
    refine ⟨slot, h.names_of_slotOf hn hof, fun slot' hnames => ?_⟩
    obtain ⟨entry', slot'', hn', hof', hkind', hhandle⟩ := h.slotOf_of_names hnames
    obtain rfl := Option.some.inj (hn.symm.trans hn')
    obtain rfl := Option.some.inj (hof.symm.trans hof')
    exact (slot_unique hdistinct hnames.1 hkind' hhandle).symm

theorem distinct (hnamed : a.Named) : a.Distinct := by
  intro i j hi hij
  have hi' : a.handle (some i) ≠ 0#32 := hi
  obtain ⟨m, entry, hm, hof⟩ := h.exists_entry hi'
  have hj : a.handle (some j) ≠ 0#32 := fun hzero => hi (hij.trans hzero)
  obtain ⟨n, entry', hn, hof'⟩ := h.exists_entry hj
  have hnames := h.names_of_slotOf hn hof'
  have hother : a.Names (some i) n := by
    obtain ⟨-, hrest⟩ := hnames
    rw [Archive.handle, ← hij] at hrest
    exact ⟨hi, hrest⟩
  obtain rfl := (hnamed.handles (some i) hi).unique (h.names_of_slotOf hm hof) hother
  obtain rfl := Option.some.inj (hm.symm.trans hn)
  exact Option.some.inj (Option.some.inj (hof.symm.trans hof'))

end Accepted

/-- **An archive that is accepted** has handles and entries that name each other, one to one, exactly if no two lines
have one handle. -/
theorem accepted_named_iff (a : Archive) (h : deviceSoundEventsValid a = true) : a.Named ↔ a.Distinct :=
  ⟨(accepted_of_valid h).distinct, (accepted_of_valid h).named⟩

/-- An event that releases a line. -/
def release (param : BitVec 32) (handle : ℤ) : QuickEv.Entry := ⟨100, 100, handle, param, 1, delayedIrq, 0⟩

/-- Two lines are delayed, with the handles `first` and `second`. -/
def twoLines (first second : BitVec 32) : Archive where
  quickEntries := [release 3 first.toNat, release 5 second.toNat]
  tickEntries := []
  completionEvent := 0
  eoiMask := 0x28
  eoiHandles i := if i = 3 then first else if i = 5 then second else 0

theorem accepted_named_iff_two : deviceSoundEventsValid (twoLines 7 8) = true ∧
    ((twoLines 7 8).Named ↔ (twoLines 7 8).Distinct) :=
  ⟨by decide, accepted_named_iff _ (by decide)⟩

/-- **Two lines with one handle** are accepted: the handle names the events of both. -/
theorem accepted_not_named : ¬∀ a : Archive, deviceSoundEventsValid a = true → a.Named := by
  intro h
  have hnamed := h (twoLines 7 7) (by decide)
  have hfirst : (twoLines 7 7).Names (some 3) 0 := ⟨by decide, _, rfl, rfl, rfl⟩
  have hsecond : (twoLines 7 7).Names (some 3) 1 := ⟨by decide, _, rfl, rfl, rfl⟩
  exact absurd ((hnamed.handles (some 3) (by decide)).unique hfirst hsecond) (by decide)

end SoftPC.SoundEvents
