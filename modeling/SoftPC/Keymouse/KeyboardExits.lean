import SoftPC.Keymouse.KeyboardLaws

/-!
# Keymouse/KeyboardExits — how a run of the keyboard interrupt comes to its end

    decode ──▸ Unlocked, or Relit: one more end of interrupt        leave ──▸ Left: one, and the markers cleared

What is decoded changes no lock, or changes it and has the lights updated; of the exits only `K26A` leaves a marker on.
-/

namespace SoftPC.BiosKeyboard

open Bits

variable {g : Guest} {t : Tables} {s s' s'' : Bios} {l : ℤ} {o : ℕ} {v mask code : BitVec 8} {fuel : ℕ}

/-! ## Up to the exit -/

/-- Nothing is acknowledged, and no lock is changed… -/
structure Unlocked (s s' : Bios) : Prop extends Inside s s' where
  locks : s'.flag &&& 0x70 = s.flag &&& 0x70
  valid : s.area.Valid → s'.area.Valid

/-- …or the lights are asked for after the change. -/
def Relit (g : Guest) (s s' : Bios) : Prop :=
  ∃ changed : Bios, Inside s changed ∧ changed.flag2 = s.flag2 ∧ Inside (changed.checkIndicators g true) s' ∧
    s'.flag = changed.flag ∧ (s.area.Valid → s'.area.Valid)

theorem Unlocked.refl (s : Bios) : Unlocked s s := ⟨.refl s, rfl, id⟩

theorem Unlocked.trans (h : Unlocked s s') (h' : Unlocked s' s'') : Unlocked s s'' :=
  ⟨h.toInside.trans h'.toInside, h'.locks.trans h.locks, fun hvalid => h'.valid (h.valid hvalid)⟩

theorem Unlocked.store (s : Bios) (h : o ≠ kbFlagAt ∧ (o < headAt ∨ endAt + 1 < o)) (v : BitVec 8) :
    Unlocked s (s.store o v) :=
  ⟨.store .., congrArg (· &&& 0x70) (store_of_ne h.1.symm), fun hvalid => valid_store hvalid h.2⟩

theorem Unlocked.flag (s : Bios) (h : v &&& 0x70 = s.flag &&& 0x70) : Unlocked s (s.store kbFlagAt v) :=
  ⟨.store .., (congrArg (· &&& 0x70) store_same).trans h, fun hvalid => valid_store hvalid (.inl (by decide))⟩

theorem low_mask (h : ¬0x10 ≤ mask) : mask &&& 0x70 = 0 := by
  revert mask
  decide

theorem Unlocked.clear (s : Bios) (h : mask &&& 0x70 = 0) : Unlocked s (s.clear kbFlagAt mask) :=
  .flag s (and_not_and_of_apart _ h)

theorem Unlocked.raise (s : Bios) (h : mask &&& 0x70 = 0) : Unlocked s (s.raise kbFlagAt mask) :=
  .flag s (or_and_of_apart _ h)

theorem testHold_unlocked (s : Bios) (code : BitVec 8) : Unlocked s (s.testHold t code).1 := by
  rw [Bios.testHold]
  split
  · exact .refl s
  · split
    · dsimp only
      split
      · exact .store s (by decide) _
      · exact .refl s
    · exact .refl s

theorem releaseBits_unlocked (s : Bios) (h : mask &&& 0x70 = 0) : Unlocked s (s.releaseBits mask) := by
  have hflag : Unlocked s (s.clear kbFlagAt mask) := .clear s h
  rw [Bios.releaseBits]
  generalize s.clear kbFlagAt mask = s1 at hflag ⊢
  split
  · refine (hflag.trans ?_).trans (.raise _ ?_)
    · split
      · exact .store s1 (by decide) _
      · exact .store s1 (by decide) _
    · rw [BitVec.and_assoc]
      exact BitVec.and_zero
  · exact hflag

theorem breakShift_unlocked (s : Bios) (mask code : BitVec 8) : Unlocked s (s.breakShift mask code).1 := by
  rw [Bios.breakShift]
  split
  · exact .store s (by decide) _
  · rename_i hlow
    have hbits := releaseBits_unlocked s (low_mask hlow)
    dsimp only
    split
    · exact hbits
    · exact hbits.trans (.store _ (by decide) _)

theorem makeShift_unlocked (s : Bios) (h : mask < 0x10) : Unlocked s (s.makeShift mask).1 := by
  have hflag : Unlocked s (s.raise kbFlagAt mask) := .raise s (low_mask (BitVec.not_le.mpr h))
  rw [Bios.makeShift]
  generalize s.raise kbFlagAt mask = s1 at hflag ⊢
  split
  · dsimp only
    split
    · exact hflag.trans (.store s1 (by decide) _)
    · exact hflag.trans (.store s1 (by decide) _)
  · exact hflag

theorem toggle_counted (hg : g.Lawful) (s : Bios) (mask : BitVec 8) :
    Unlocked s (s.toggle g mask) ∨ Relit g s (s.toggle g mask) := by
  have hseen : Unlocked s (s.raise kbFlag1At mask) := .store s (by decide) _
  have hflag2 : (s.raise kbFlag1At mask).flag2 = s.flag2 := store_of_ne (by decide)
  rw [Bios.toggle]
  generalize s.raise kbFlag1At mask = s1 at hseen hflag2 ⊢
  by_cases hlock : mask &&& 0x70 ≠ 0
  · have hframed := checkIndicators_framed hg (s1.store kbFlagAt (s1.flag ^^^ mask)) true
    rw [if_pos hlock]
    refine .inr ⟨s1.store kbFlagAt (s1.flag ^^^ mask), hseen.toInside.trans (.store ..), ?_, .refl _, hframed.flag, ?_⟩
    · exact (store_of_ne (by decide)).trans hflag2
    · exact fun hvalid => hframed.valid (valid_store (hseen.valid hvalid) (.inl (by decide)))
  · rw [if_neg hlock]
    refine .inl (hseen.trans (.flag s1 ((xor_and_eq_zero_iff _ _).mp ?_)))
    rw [BitVec.xor_comm s1.flag, BitVec.xor_assoc, BitVec.xor_self, BitVec.xor_zero]
    exact not_not.mp hlock

theorem makeToggle_counted (hg : g.Lawful) (s : Bios) (mask code : BitVec 8) :
    Unlocked s (s.makeToggle g t mask code).1 ∨ Relit g s (s.makeToggle g t mask code).1 := by
  rw [Bios.makeToggle]
  split
  · split
    · exact .inl (.refl s)
    · split
      · exact toggle_counted hg s mask
      · exact toggle_counted hg s mask
  · exact .inl (testHold_unlocked s code)

theorem marked_unlocked {last : BitVec 8} {out : Bios × Bios.Exit} (h : s.marked last code = some out) :
    Unlocked s out.1 := by
  rw [Bios.marked] at h
  split_ifs at h <;> first | exact Option.some.inj h ▸ .refl s | exact Option.some.inj h ▸ .store s (by decide) _

theorem scan_counted (hg : g.Lawful) (s : Bios) (last code : BitVec 8) :
    Unlocked s (s.scan g t last code).1 ∨ Relit g s (s.scan g t last code).1 := by
  rw [Bios.scan]
  split
  · rename_i out hout
    exact .inl (marked_unlocked hout)
  · split
    · exact .inl (testHold_unlocked s code)
    · split
      · exact .inl (breakShift_unlocked s _ code)
      · split
        · rename_i hmask
          exact .inl (makeShift_unlocked s hmask)
        · exact makeToggle_counted hg s _ code

theorem readId_counted (hg : g.Lawful) (s : Bios) (last code : BitVec 8) :
    Unlocked s (s.readId g last code).1 ∨ Relit g s (s.readId g last code).1 := by
  have hcleared : Unlocked s (s.clear kbFlag3At 0x40) := .store s (by decide) _
  have hflag2 : (s.clear kbFlag3At 0x40).flag2 = s.flag2 := store_of_ne (by decide)
  rw [Bios.readId]
  split
  · refine .inl ?_
    dsimp only
    split
    · exact (Unlocked.store s (by decide) _).trans (.store _ (by decide) _)
    · exact .store s (by decide) _
  · dsimp only
    generalize s.clear kbFlag3At 0x40 = s1 at hcleared hflag2 ⊢
    split
    · exact .inl (hcleared.trans (.store s1 (by decide) _))
    · split
      · split
        · refine .inr ⟨s1.raise kbFlagAt 0x20, hcleared.toInside.trans (.store ..), ?_, .store .., ?_,
            fun hvalid => ?_⟩
          · exact (store_of_ne (by decide)).trans hflag2
          · exact (store_of_ne (by decide)).trans (checkIndicators_framed hg _ true).flag
          · have hchanged : (s1.raise kbFlagAt 0x20).area.Valid := valid_store (hcleared.valid hvalid) (.inl (by decide))
            exact valid_store ((checkIndicators_framed hg _ true).valid hchanged) (.inr (by decide))
        · exact .inl (hcleared.trans (.store s1 (by decide) _))
      · exact .inl hcleared

/-- The code has changed Caps, Num or Scroll Lock, and no update of the lights was in progress. -/
def Relocked (s s' : Bios) : Prop := (s'.flag ^^^ s.flag) &&& 0x70 ≠ 0 ∧ s.flag2 &&& 0x40 = 0

instance : Decidable (Relocked s s') := by unfold Relocked; infer_instance

/-- **One end of interrupt for a lock that changes**, before the exit. -/
structure Counted (s s' : Bios) : Prop where
  level : s'.level = s.level
  eois : eois s.level s'.log = eois s.level s.log + if Relocked s s' then 1 else 0
  valid : s.area.Valid → s'.area.Valid

theorem Unlocked.counted (h : Unlocked s s') : Counted s s' where
  level := h.level
  eois := by
    rw [if_neg fun hrelocked => hrelocked.1 ((xor_and_eq_zero_iff _ _).mpr h.locks)]
    exact h.toInside.eois
  valid := h.valid

/-- The lights that differ after a change are asked for. -/
theorem relit_due (hg : g.Lawful) (hflag2 : s'.flag2 = (s.checkIndicators g false).flag2) :
    s'.LightsDue ↔ Relocked s s' := by
  by_cases hidle : s.flag2 &&& 0x40 = 0
  · have hlights : s'.flag2 &&& 0x47 = lightsOf s.flag := by
      rw [hflag2]
      exact checkIndicators_synced hg hidle false
    exact (lightsDue_iff hlights).trans (and_iff_left hidle).symm
  · rw [checkIndicators_of_not_due fun hdue => hidle hdue.2] at hflag2
    refine iff_of_false (fun hdue => hidle ?_) fun hrelocked => hidle hrelocked.2
    rw [← hflag2]
    exact hdue.2

theorem checkIndicators_counted (hg : g.Lawful) (s : Bios)
    (h : Unlocked (s.checkIndicators g false) s' ∨ Relit g (s.checkIndicators g false) s') : Counted s s' := by
  have hframed := checkIndicators_framed hg s false
  have hlevel := checkIndicators_level hg s false
  have heois : eois s.level (s.checkIndicators g false).log = eois s.level s.log := by
    rw [checkIndicators_eois hg, if_neg fun h => Bool.false_ne_true h.1, Nat.add_zero]
  rcases h with hunlocked | ⟨changed, hchange, hflag2, hlit, hflag, hvalid⟩
  · refine ⟨hunlocked.level.trans hlevel, ?_, fun hvalid => hunlocked.valid (hframed.valid hvalid)⟩
    have hlocks : s'.flag &&& 0x70 = s.flag &&& 0x70 := hunlocked.locks.trans (congrArg (· &&& 0x70) hframed.flag)
    rw [if_neg fun hrelocked => hrelocked.1 ((xor_and_eq_zero_iff _ _).mpr hlocks), ← heois, ← hlevel]
    exact hunlocked.toInside.eois
  · have hlevel' : changed.level = s.level := hchange.level.trans hlevel
    have hlit' := (checkIndicators_level hg changed true).trans hlevel'
    refine ⟨hlit.level.trans hlit', ?_, fun hbefore => hvalid (hframed.valid hbefore)⟩
    have hdue : changed.LightsDue ↔ Relocked s s' := by
      rw [relit_due hg hflag2, Relocked, Relocked, hflag]
    calc eois s.level s'.log = eois s.level (changed.checkIndicators g true).log := by
          rw [← hlit']; exact hlit.eois
      _ = eois s.level changed.log + if Relocked s s' then 1 else 0 := by
          rw [← hlevel', checkIndicators_eois hg]
          simp only [true_and, hdue]
      _ = eois s.level s.log + if Relocked s s' then 1 else 0 := by
          rw [← heois, ← hlevel, hchange.eois]

theorem receive_counted (hg : g.Lawful) (s : Bios) (code : BitVec 8) : Counted s (s.receive g t code).1 := by
  rw [Bios.receive]
  split
  · exact (Unlocked.store s (by decide) _).counted
  · split
    · exact (Unlocked.store s (by decide) _).counted
    · refine checkIndicators_counted hg s ?_
      generalize s.checkIndicators g false = lit
      dsimp only
      split_ifs
      · exact .inl (.refl lit)
      · exact readId_counted hg lit _ code
      · exact .inl (.store lit (by decide) _)
      · exact .inl (.store lit (by decide) _)
      · exact scan_counted hg lit _ code

/-- `keyboard_int` up to the code. -/
theorem enter_spec (hg : g.Lawful) (s : Bios) (code : BitVec 8) : (s.enter g code).1 = code ∧
    (s.enter g code).2.1 = true ∧ Keeps { s with level := s.level + 1 }.disable (s.enter g code).2.2 :=
  ⟨(hg.passes code _).1, (hg.passes code _).2, hg.int15 _ _⟩

theorem decode_eq (hg : g.Lawful) (s : Bios) (code : BitVec 8) :
    s.decode g t code = (s.enter g code).2.2.receive g t code := by
  obtain ⟨hcode, hcarry, -⟩ := enter_spec hg s code
  rw [Bios.decode, if_pos hcarry, hcode]

/-! ## What every run does -/

/-- **A run of `keyboard_int`**, of whatever code in whatever state. -/
structure Accounted (g : Guest) (t : Tables) (s : Bios) (code : BitVec 8) (s' : Bios) : Prop where
  level : s'.level = s.level
  eois : eois (s.level + 1) s'.log =
    eois (s.level + 1) s.log + (if Relocked s (s.decode g t code).1 then 2 else 1)
  enabled : lastCommand (s.level + 1) s'.log = some 0xae

theorem keyboardInt_accounted (hg : g.Lawful) (h : s.keyboardInt g t fuel code = some s')
    (hreboot : (s.decode g t code).2 ≠ .reboot) : Accounted g t s code s' := by
  obtain ⟨left, hleave, rfl⟩ := Option.map_eq_some_iff.mp h
  obtain ⟨-, -, hkeeps⟩ := enter_spec hg s code
  have hcounted := receive_counted (t := t) hg (s.enter g code).2.2 code
  rw [← decode_eq hg] at hcounted
  have hleft := leave_left hg hleave hreboot
  have hlevel : (s.enter g code).2.2.level = s.level + 1 := hkeeps.level
  have hrelocked : Relocked (s.enter g code).2.2 (s.decode g t code).1 ↔ Relocked s (s.decode g t code).1 := by
    have hflag : (s.enter g code).2.2.flag = s.flag := hkeeps.flag
    have hflag2 : (s.enter g code).2.2.flag2 = s.flag2 := hkeeps.flag2
    rw [Relocked, Relocked, hflag, hflag2]
  have hentered : eois (s.level + 1) (s.enter g code).2.2.log = eois (s.level + 1) s.log :=
    hkeeps.toInside.eois.trans (Quiet.outb { s with level := s.level + 1 } (by decide) _).eois
  have hexit : (s.decode g t code).1.level = s.level + 1 := hcounted.level.trans hlevel
  refine ⟨?_, ?_, ?_⟩
  · rw [Bios.exitFromKbdInt, hleft.level, hexit]
    exact Int.add_sub_cancel s.level 1
  · have heois := hcounted.eois
    have hone := hleft.eois
    rw [hlevel, hentered] at heois
    rw [hexit, heois] at hone
    refine hone.trans ?_
    simp only [hrelocked]
    split <;> rfl
  · have henabled := hleft.enabled
    rw [hexit] at henabled
    exact henabled

/-! ## The exits -/

/-- The exits that a translation comes to: it pauses if `old`, restarts if `chord`, and never ends by `K26A` alone. -/
def Bios.Exit.Only (old chord : Prop) : Bios.Exit → Prop
  | .pause => old
  | .reboot => chord
  | .k26a => False
  | .sysReq _ => False
  | _ => True

variable {old chord : Prop}

theorem only_ite {c : Prop} [Decidable c] {a b : Bios.Exit} (ha : c → a.Only old chord) (hb : b.Only old chord) :
    (if c then a else b).Only old chord := by
  split
  · rename_i hc
    exact ha hc
  · exact hb

theorem checkAndPut_only (c v : BitVec 8) : (Bios.checkAndPut c v).Only old chord := by
  rw [Bios.checkAndPut]
  split <;> exact trivial

theorem altKey_only (h : s.flag &&& 0x04 ≠ 0 ∧ code = 83 → chord) : (s.altKey t code).Only old chord := by
  rw [Bios.altKey]
  refine only_ite h ?_
  refine only_ite (fun _ => trivial) (only_ite (fun _ => trivial) (only_ite (fun _ => trivial) ?_))
  cases Bios.altIndex t 0 10 code with
  | some i => exact only_ite (fun _ => trivial) trivial
  | none =>
    refine only_ite (fun _ => trivial) (only_ite (fun _ => checkAndPut_only _ _) (only_ite (fun _ => trivial) ?_))
    refine only_ite (fun _ => trivial) (only_ite (fun _ => ?_) ?_)
    · exact only_ite (fun _ => trivial) (only_ite (fun _ => trivial) (only_ite (fun _ => trivial) trivial))
    · exact only_ite (fun _ => checkAndPut_only _ _) (only_ite (fun _ => trivial) trivial)

theorem ctlKey_only (h : s.flag3 &&& 0x10 = 0 → old) : (s.ctlKey t code).Only old chord := by
  rw [Bios.ctlKey]
  split
  · exact trivial
  · split
    · rename_i hold
      exact h hold.1
    · split_ifs
      all_goals first | exact trivial | exact checkAndPut_only _ _

theorem lastKey_only : (s.lastKey t code).Only old chord := by
  rw [Bios.lastKey]
  split
  · exact trivial
  · exact checkAndPut_only _ _

theorem lowKey_only : (s.lowKey t code).Only old chord := by
  rw [Bios.lowKey]
  repeat' split
  all_goals first | exact trivial | exact checkAndPut_only _ _

theorem highKey_only : (s.highKey t code).Only old chord := by
  rw [Bios.highKey]
  split_ifs
  all_goals first | exact trivial | exact checkAndPut_only _ _ | exact lastKey_only

theorem translate_only : (s.translate t code).Only (s.flag3 &&& 0x10 = 0)
    (s.flag &&& 0x08 ≠ 0 ∧ s.flag &&& 0x04 ≠ 0 ∧ code = 83) := by
  rw [Bios.translate]
  split
  · exact trivial
  split
  · rename_i halt
    exact altKey_only fun hreset => ⟨halt.1, hreset⟩
  split
  · exact ctlKey_only id
  split
  · exact lowKey_only
  split
  · exact highKey_only
  split
  · exact checkAndPut_only _ _
  · exact lastKey_only

/-- The buffer has no room. -/
def Area.Full (a : Area) : Prop := a.incBufferPtr a.tail = a.head

/-- A character is to be stored, and the buffer has no room. -/
def Bios.Overflows (g : Guest) (s : Bios) : Bios.Exit → Prop
  | .put _ _ => s.area.Full
  | .ctrlBreak =>
    (g.int1b (({ s with area := s.area.storeWord tailAt s.area.head }.store biosBreakAt 0x80).enable)).area.Full
  | _ => False

/-- The flags are left… -/
structure SameFlags (s s' : Bios) : Prop where
  flag : s'.flag = s.flag
  flag1 : s'.flag1 = s.flag1
  flag2 : s'.flag2 = s.flag2
  flag3 : s'.flag3 = s.flag3
  valid : s.area.Valid → s'.area.Valid

/-- …and the markers cleared. -/
structure Unmarked (s s' : Bios) : Prop where
  flag : s'.flag = s.flag
  flag1 : s'.flag1 = s.flag1
  flag2 : s'.flag2 = s.flag2
  flag3 : s'.flag3 = s.flag3 &&& ~~~marks
  valid : s.area.Valid → s'.area.Valid

theorem clear_of_clear {x m : BitVec 8} (h : x &&& m = 0) : x &&& ~~~m = x := by
  refine eq_of_bits fun i => ?_
  have hbit : (x.getLsbD i && m.getLsbD i) = false := by
    rw [← BitVec.getLsbD_and, h]
    exact BitVec.getLsbD_zero
  rw [BitVec.getLsbD_and, BitVec.getLsbD_not, decide_eq_true i.isLt, Bool.true_and]
  cases hx : x.getLsbD i
  · rfl
  · rw [hx, Bool.true_and] at hbit
    rw [hbit]
    rfl

namespace SameFlags

theorem of_keeps (h : Keeps s s') : SameFlags s s' := ⟨h.flag, h.flag1, h.flag2, h.flag3, h.valid⟩

theorem trans (h : SameFlags s s') (h' : SameFlags s' s'') : SameFlags s s'' :=
  ⟨h'.flag.trans h.flag, h'.flag1.trans h.flag1, h'.flag2.trans h.flag2, h'.flag3.trans h.flag3,
    fun hvalid => h'.valid (h.valid hvalid)⟩

/-- The ports are apart from the flags. -/
theorem of_area (h : SameFlags s s') (harea : s''.area = s'.area) : SameFlags s s'' where
  flag := (congrFun harea _).trans h.flag
  flag1 := (congrFun harea _).trans h.flag1
  flag2 := (congrFun harea _).trans h.flag2
  flag3 := (congrFun harea _).trans h.flag3
  valid hvalid := harea ▸ h.valid hvalid

/-- A byte stored apart from the flags and the buffer's pointers. -/
theorem store (s : Bios) (v : BitVec 8)
    (h : o ≠ kbFlagAt ∧ o ≠ kbFlag1At ∧ o ≠ kbFlag2At ∧ o ≠ kbFlag3At ∧ (o < headAt ∨ endAt + 1 < o ∨
      tailAt + 1 < o ∧ o < startAt)) : SameFlags s (s.store o v) where
  flag := store_of_ne h.1.symm
  flag1 := store_of_ne h.2.1.symm
  flag2 := store_of_ne h.2.2.1.symm
  flag3 := store_of_ne h.2.2.2.1.symm
  valid hvalid := valid_congr hvalid fun p hp => by
    have hapart := h.2.2.2.2
    rw [headAt, tailAt, startAt, endAt] at hp hapart
    rw [Area.word, Area.word, store_of_ne (by omega), store_of_ne (by omega)]

/-- The buffer emptied. -/
theorem empty (s : Bios) : SameFlags s { s with area := s.area.storeWord tailAt s.area.head } where
  flag := storeWord_of_ne (o := tailAt) (p := kbFlagAt) s.area s.area.head (by decide)
  flag1 := storeWord_of_ne (o := tailAt) (p := kbFlag1At) s.area s.area.head (by decide)
  flag2 := storeWord_of_ne (o := tailAt) (p := kbFlag2At) s.area s.area.head (by decide)
  flag3 := storeWord_of_ne (o := tailAt) (p := kbFlag3At) s.area s.area.head (by decide)
  valid := fun ⟨first, n, hold⟩ => by
    refine ⟨first, 0, hold.first, by decide, ?_, ?_, ?_, ?_⟩
    · exact (Area.word_storeWord_of_ne _ _ (by decide)).trans hold.head
    · refine (Area.word_storeWord _ _ _).trans (hold.head.trans ?_)
      rw [Nat.add_zero, Nat.mod_eq_of_lt hold.first]
    · exact (Area.word_storeWord_of_ne _ _ (by decide)).trans hold.start
    · exact (Area.word_storeWord_of_ne _ _ (by decide)).trans hold.stop

end SameFlags

namespace Unmarked

theorem clear (s : Bios) : Unmarked s (s.store kbFlag3At (s.flag3 &&& ~~~marks)) where
  flag := store_of_ne (by decide)
  flag1 := store_of_ne (by decide)
  flag2 := store_of_ne (by decide)
  flag3 := store_same
  valid h := valid_store h (.inr (by decide))

theorem of_area (h : Unmarked s s') (harea : s''.area = s'.area) : Unmarked s s'' where
  flag := (congrFun harea _).trans h.flag
  flag1 := (congrFun harea _).trans h.flag1
  flag2 := (congrFun harea _).trans h.flag2
  flag3 := (congrFun harea _).trans h.flag3
  valid hvalid := harea ▸ h.valid hvalid

theorem k26 (s : Bios) : Unmarked s s.k26 := (clear s).of_area rfl

theorem after (h : SameFlags s s') (h' : Unmarked s' s'') : Unmarked s s'' :=
  ⟨h'.flag.trans h.flag, h'.flag1.trans h.flag1, h'.flag2.trans h.flag2, by rw [h'.flag3, h.flag3],
    fun hvalid => h'.valid (h.valid hvalid)⟩

theorem followed (h : Unmarked s s') (h' : SameFlags s' s'') : Unmarked s s'' :=
  ⟨h'.flag.trans h.flag, h'.flag1.trans h.flag1, h'.flag2.trans h.flag2, h'.flag3.trans h.flag3,
    fun hvalid => h'.valid (h.valid hvalid)⟩

end Unmarked

/-- A word inserted leaves the flags. -/
theorem insert_of_ne {a : Area} (hvalid : a.Valid) (w : BitVec 16) {p : ℕ} (hp : p < headAt ∨ endAt + 1 < p) :
    (a.insert w).2 p = a p := by
  obtain ⟨first, n, hold⟩ := hvalid
  rw [Area.insert]
  split
  · rfl
  · have hslot := Area.toNat_slot (Nat.le_of_lt (Nat.mod_lt (first + n) (by decide : 0 < bufferSize)))
    have hlast := Nat.mod_lt (first + n) (by decide : 0 < bufferSize)
    refine (storeWord_of_ne (a.storeWord a.tail.toNat w) _ ?_).trans (storeWord_of_ne a w ?_)
    · rw [headAt, endAt] at hp
      rw [tailAt]
      omega
    · rw [hold.tail, hslot]
      rw [bufferSize] at *
      rw [headAt, endAt] at hp
      rw [bufferAt]
      omega

theorem insert_valid {a : Area} (hvalid : a.Valid) (w : BitVec 16) : (a.insert w).2.Valid := by
  obtain ⟨first, n, hold⟩ := hvalid
  obtain ⟨-, -, n', hnext⟩ := hold.insert w
  exact ⟨first, n', hnext⟩

theorem insert_fst (a : Area) (w : BitVec 16) : (a.insert w).1 = false ↔ a.Full := by
  rw [Area.insert, Area.Full]
  split
  · rename_i hfull
    exact iff_of_true rfl hfull
  · rename_i hroom
    exact iff_of_false (Bool.noConfusion) hroom

theorem putInBuffer_unmarked (hg : g.Lawful) (hvalid : s.area.Valid) (hmarks : ¬s.area.Full ∨ s.flag3 &&& marks = 0)
    (c v : BitVec 8) : Unmarked s (s.putInBuffer g c v) := by
  rw [Bios.putInBuffer]
  by_cases hroom : (s.area.insert (c ++ v)).1 = true
  · dsimp only
    rw [if_pos hroom]
    have hne {p : ℕ} (hp : p < headAt ∨ endAt + 1 < p) : (s.area.insert (c ++ v)).2 p = s.area p :=
      insert_of_ne hvalid _ hp
    have hsame : SameFlags s { s with area := (s.area.insert (c ++ v)).2 }.eoi :=
      ⟨hne (.inl (by decide)), hne (.inl (by decide)), hne (.inr (by decide)), hne (.inr (by decide)),
        fun hold => insert_valid hold _⟩
    exact .after (hsame.trans (.of_keeps (hg.int15 0x9102 _))) (.of_area (.clear _) rfl)
  · have hfull : s.area.Full := (insert_fst _ _).mp (Bool.eq_false_iff.mpr hroom)
    dsimp only
    rw [if_neg hroom]
    exact ⟨rfl, rfl, rfl, (clear_of_clear (hmarks.resolve_left (not_not.mpr hfull))).symm, id⟩

/-- **Every exit but `K26A` clears the markers**, and leaves the other flags. -/
theorem leave_unmarked (hg : g.Lawful) {e : Bios.Exit} (hvalid : s.area.Valid) (h : s.leave g fuel e = some s')
    (honly : e.Only False False ∨ ∃ ax, e = .sysReq ax ∧ s.flag3 &&& marks = 0)
    (hroom : ¬s.Overflows g e ∨ s.flag3 &&& marks = 0) : Unmarked s s' := by
  cases e with
  | k26 => exact Option.some.inj h ▸ .k26 s
  | k26a => exact (honly.elim id fun hsys => nomatch hsys.choose_spec.1).elim
  | put c v => exact Option.some.inj h ▸ putInBuffer_unmarked hg hvalid hroom c v
  | entry digit => exact Option.some.inj h ▸ .after (.store (o := altInputAt) s _ (by decide)) (.k26 _)
  | sysReq ax =>
    obtain ⟨-, -, hmarks⟩ := honly.resolve_left id
    have hstart : Unmarked s s.k26a := ⟨rfl, rfl, rfl, (clear_of_clear hmarks).symm, id⟩
    exact Option.some.inj h ▸ hstart.followed (.of_keeps (hg.int15 ax _))
  | pause => exact (honly.elim id fun hsys => nomatch hsys.choose_spec.1).elim
  | reboot => exact (honly.elim id fun hsys => nomatch hsys.choose_spec.1).elim
  | ctrlBreak =>
    have hempty := (SameFlags.empty s).trans (.store (o := biosBreakAt) _ 0x80 (by decide))
    have henabled : SameFlags s
        ({ s with area := s.area.storeWord tailAt s.area.head }.store biosBreakAt 0x80).enable := hempty.of_area rfl
    have hsame := henabled.trans (.of_keeps (hg.int1b _))
    refine Option.some.inj h ▸ .after hsame (putInBuffer_unmarked hg (hsame.valid hvalid) ?_ 0 0)
    rw [hsame.flag3]
    exact hroom
  | printScreen =>
    have hstart : SameFlags s s.enable.eoi := .of_area ⟨rfl, rfl, rfl, rfl, id⟩ rfl
    exact Option.some.inj h ▸ .after (hstart.trans (.of_keeps (hg.int05 _))) (.clear _)

theorem Bios.Exit.Only.weaken {old chord old' chord' : Prop} {e : Bios.Exit} (h : e.Only old chord)
    (hold : old → old') (hchord : chord → chord') : e.Only old' chord' := by
  cases e with
  | pause => exact hold h
  | reboot => exact hchord h
  | k26a => exact h
  | sysReq ax => exact h
  | _ => exact trivial

/-- A code that comes to the translation. -/
theorem testHold_only : (s.testHold t code).2.Only (s.flag3 &&& 0x10 = 0)
    (s.flag &&& 0x08 ≠ 0 ∧ s.flag &&& 0x04 ≠ 0 ∧ code = 83) := by
  rw [Bios.testHold]
  split
  · exact trivial
  · split
    · exact trivial
    · exact translate_only

theorem breakShift_only {old chord : Prop} : (s.breakShift mask code).2.Only old chord := by
  rw [Bios.breakShift]
  split
  · exact trivial
  · dsimp only
    split <;> exact trivial

theorem makeShift_only {old chord : Prop} : (s.makeShift mask).2.Only old chord := by
  rw [Bios.makeShift]
  split <;> exact trivial

/-- The markers may be cleared, not `KBX`. -/
theorem toggle_flag3 (hg : g.Lawful) (s : Bios) (mask : BitVec 8) :
    (s.toggle g mask).flag3 = s.flag3 ∨ (s.toggle g mask).flag3 = s.flag3 &&& ~~~marks := by
  have hstored : ((s.raise kbFlag1At mask).store kbFlagAt ((s.raise kbFlag1At mask).flag ^^^ mask)).flag3 = s.flag3 :=
    (store_of_ne (by decide)).trans (store_of_ne (by decide))
  rw [Bios.toggle]
  split
  · rw [← hstored]
    exact (checkIndicators_framed hg _ true).flag3
  · exact .inl hstored

theorem makeToggle_only (hg : g.Lawful) : (s.makeToggle g t mask code).2.Only (s.flag3 &&& 0x10 = 0)
    (s.flag &&& 0x08 ≠ 0 ∧ s.flag &&& 0x04 ≠ 0 ∧ code = 83) := by
  rw [Bios.makeToggle]
  split
  · split
    · exact trivial
    · split
      · rename_i hins
        refine translate_only.weaken (fun hold => ?_) fun hchord => ?_
        · rcases toggle_flag3 hg s mask with hflag3 | hflag3
          · rwa [hflag3] at hold
          · rw [hflag3, and_not_and_of_apart _ (by decide : marks &&& 0x10 = 0)] at hold
            exact hold
        · exact absurd (hins.symm.trans hchord.2.2) (by decide)
      · exact trivial
  · exact testHold_only

/-- How a code that is a key's leaves. -/
theorem scan_only (hg : g.Lawful) (hmarked : s.marked s.flag3 code = none) :
    (s.scan g t s.flag3 code).2.Only (s.flag3 &&& 0x10 = 0)
      (s.flag &&& 0x08 ≠ 0 ∧ s.flag &&& 0x04 ≠ 0 ∧ code = 83) := by
  rw [Bios.scan, hmarked]
  dsimp only
  split
  · exact testHold_only
  · split
    · exact breakShift_only
    · split
      · exact makeShift_only
      · exact makeToggle_only hg

/-- The exits that leave a marker on, by design: after a prefix, an overrun, or the code that follows the E1 marker. -/
def KeepsMarker (code : BitVec 8) (out : Bios × Bios.Exit) : Prop :=
  code = 0xff ∨ code = 0xe0 ∨ code = 0xe1 ∨ out.1.flag3 &&& 0x01 ≠ 0 ∨ out.2 = .pause ∨ out.2 = .reboot

theorem readId_only {last : BitVec 8} {old chord : Prop} : (s.readId g last code).2.Only old chord := by
  rw [Bios.readId]
  split
  · exact trivial
  · dsimp only
    split
    · exact trivial
    · split <;> exact trivial

theorem marks_eq_zero_iff (x : BitVec 8) : x &&& marks = 0 ↔ x &&& 0x02 = 0 ∧ x &&& 0x01 = 0 := by
  revert x
  decide

/-- How a run leaves, as far as the markers go. -/
def Cleared (out : Bios × Bios.Exit) : Prop :=
  out.2.Only False False ∨ ∃ ax, out.2 = .sysReq ax ∧ out.1.flag3 &&& marks = 0

theorem Bios.Exit.Only.strict {old chord : Prop} {e : Bios.Exit} (h : e.Only old chord) (hpause : e ≠ .pause)
    (hreboot : e ≠ .reboot) : e.Only False False := by
  cases e with
  | pause => exact absurd rfl hpause
  | reboot => exact absurd rfl hreboot
  | k26a => exact h
  | sysReq ax => exact h
  | _ => exact trivial

theorem marked_cleared {out : Bios × Bios.Exit} (h : s.marked s.flag3 code = some out) :
    Cleared out ∨ KeepsMarker code out := by
  have hsys (o : Bios) (ax : BitVec 16) (he0 : ¬s.flag3 &&& 0x02 ≠ 0) (he1 : ¬s.flag3 &&& 0x01 ≠ 0)
      (hflag3 : o.flag3 = s.flag3) : Cleared (o, .sysReq ax) ∨ KeepsMarker code (o, .sysReq ax) := by
    refine .inl (.inr ⟨ax, rfl, ?_⟩)
    rw [hflag3, marks_eq_zero_iff]
    exact ⟨not_not.mp he0, not_not.mp he1⟩
  rw [Bios.marked] at h
  split at h
  · split at h
    · exact Option.some.inj h ▸ .inl (.inl trivial)
    · exact nomatch h
  rename_i he0
  split at h
  · rename_i he1
    have hkeeps (e : Bios.Exit) : KeepsMarker code (s, e) := .inr (.inr (.inr (.inl he1)))
    split_ifs at h
    all_goals exact Option.some.inj h ▸ .inr (hkeeps _)
  rename_i he1
  split at h
  · split at h
    · exact Option.some.inj h ▸ hsys _ _ he0 he1 (store_of_ne (by decide))
    · split at h
      · exact Option.some.inj h ▸ .inl (.inl trivial)
      · exact Option.some.inj h ▸ hsys _ _ he0 he1 (store_of_ne (by decide))
  · exact nomatch h

theorem receive_cleared (hg : g.Lawful) (s : Bios) (code : BitVec 8) :
    Cleared (s.receive g t code) ∨ KeepsMarker code (s.receive g t code) := by
  rw [Bios.receive]
  split
  · exact .inl (.inl trivial)
  split
  · exact .inl (.inl trivial)
  generalize s.checkIndicators g false = lit
  dsimp only
  split
  · rename_i hcode
    exact .inr (.inl hcode)
  split
  · exact .inl (.inl readId_only)
  split
  · rename_i hcode
    exact .inr (.inr (.inl hcode))
  split
  · rename_i hcode
    exact .inr (.inr (.inr (.inl hcode)))
  cases hmarked : lit.marked lit.flag3 code with
  | some out =>
    rw [Bios.scan, hmarked]
    exact marked_cleared hmarked
  | none =>
    have honly := scan_only (t := t) hg hmarked
    by_cases hpause : (lit.scan g t lit.flag3 code).2 = .pause
    · exact .inr (.inr (.inr (.inr (.inr (.inl hpause)))))
    by_cases hreboot : (lit.scan g t lit.flag3 code).2 = .reboot
    · exact .inr (.inr (.inr (.inr (.inr (.inr hreboot)))))
    · exact .inl (.inl (honly.strict hpause hreboot))

/-- **The markers are cleared** by a run, unless the code keeps one or the buffer overflows. -/
theorem keyboardInt_markers (hg : g.Lawful) (hvalid : s.area.Valid) (h : s.keyboardInt g t fuel code = some s')
    (hkeeps : ¬KeepsMarker code (s.decode g t code))
    (hroom : ¬(s.decode g t code).1.Overflows g (s.decode g t code).2) : s'.flag3 &&& marks = 0 := by
  obtain ⟨left, hleave, rfl⟩ := Option.map_eq_some_iff.mp h
  obtain ⟨-, -, hentered⟩ := enter_spec hg s code
  have hcleared := receive_cleared (t := t) hg (s.enter g code).2.2 code
  have hvalid' := (receive_counted (t := t) hg (s.enter g code).2.2 code).valid (hentered.valid hvalid)
  rw [← decode_eq hg] at hcleared hvalid'
  have hflag3 := (leave_unmarked hg hvalid' hleave (hcleared.resolve_right hkeeps) (.inl hroom)).flag3
  have hexit : left.exitFromKbdInt.flag3 = left.flag3 := rfl
  rw [hexit, hflag3, BitVec.and_assoc]
  exact BitVec.and_zero

end SoftPC.BiosKeyboard
