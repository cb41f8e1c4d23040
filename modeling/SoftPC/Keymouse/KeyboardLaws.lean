import SoftPC.Keymouse.KeyboardInt
import SoftPC.Machinery.Bits
import Mathlib.Tactic.FinCases

/-!
# Keymouse/KeyboardLaws — what the parts of the keyboard BIOS leave alone

    Keeps ⊂ Answered ⊂ Framed        Inside: only deeper levels, and the keyboard itself, are written to

Of the guest it is assumed that it writes none of the flags (`Guest.Lawful`); what a keyboard interrupt does that
answers `send_data` is such a step (`answer_answered`).
-/

namespace SoftPC.BiosKeyboard

open Bits

/-! ## What is written -/

/-- The ends of interrupt of a level. -/
def eois (l : ℤ) (log : List Out) : ℕ := log.countP fun o => o.level = l ∧ o.port = 0x20 ∧ o.value = 0x20

/-- The last command of a level to the keyboard controller. -/
def lastCommand (l : ℤ) (log : List Out) : Option (BitVec 8) :=
  (log.find? fun o => o.level = l ∧ o.port = 0x64).map (·.value)

/-- The buffer is in order. -/
def Area.Valid (a : Area) : Prop := ∃ h n, a.Holds h n

/-- Nothing is written but at deeper levels, and to the keyboard. -/
structure Inside (s s' : Bios) : Prop where
  level : s'.level = s.level
  log : ∃ outs, s'.log = outs ++ s.log ∧ ∀ o ∈ outs, s.level < o.level ∨ o.port = 0x60

/-- The flags are as they were, but for `kb_flag_2` and the markers, which may be cleared. -/
structure Framed (s s' : Bios) : Prop where
  flag : s'.flag = s.flag
  flag1 : s'.flag1 = s.flag1
  flag3 : s'.flag3 = s.flag3 ∨ s'.flag3 = s.flag3 &&& ~~~marks
  altInput : s'.area altInputAt = s.area altInputAt
  valid : s.area.Valid → s'.area.Valid

/-- …and the lights too: what waiting for the keyboard to answer does. -/
structure Answered (s s' : Bios) : Prop extends Inside s s', Framed s s' where
  lights : s'.flag2 &&& 0x47 = s.flag2 &&& 0x47

/-- No flag is written. -/
structure Keeps (s s' : Bios) : Prop extends Inside s s' where
  flag : s'.flag = s.flag
  flag1 : s'.flag1 = s.flag1
  flag2 : s'.flag2 = s.flag2
  flag3 : s'.flag3 = s.flag3
  altInput : s'.area altInputAt = s.area altInputAt
  valid : s.area.Valid → s'.area.Valid

/-- A guest that passes scan codes unchanged and writes none of the flags. -/
structure Guest.Lawful (g : Guest) : Prop where
  passes (code : BitVec 8) (s : Bios) : (g.int15 (0x4f#8 ++ code) s).1 = code ∧ (g.int15 (0x4f#8 ++ code) s).2.1 = true
  int15 (ax : BitVec 16) (s : Bios) : Keeps s (g.int15 ax s).2.2
  int1b (s : Bios) : Keeps s (g.int1b s)
  int05 (s : Bios) : Keeps s (g.int05 s)
  reply (s : Bios) : Answered s (g.reply s)
  hold (s : Bios) : Inside s (g.hold s)
  poll (s : Bios) : Inside s (g.poll s)

variable {g : Guest} {t : Tables} {s s' s'' : Bios} {l : ℤ} {o : ℕ} {v mask code : BitVec 8} {fuel : ℕ}

namespace Inside

theorem refl (s : Bios) : Inside s s := ⟨rfl, [], rfl, nofun⟩

theorem trans (h : Inside s s') (h' : Inside s' s'') : Inside s s'' := by
  obtain ⟨outs, hlog, hout⟩ := h.log
  obtain ⟨outs', hlog', hout'⟩ := h'.log
  refine ⟨h'.level.trans h.level, outs' ++ outs, ?_, fun o ho => ?_⟩
  · rw [hlog', hlog, List.append_assoc]
  · rcases List.mem_append.mp ho with hnew | hold
    · rw [← h.level]
      exact hout' o hnew
    · exact hout o hold

theorem eois (h : Inside s s') : eois s.level s'.log = BiosKeyboard.eois s.level s.log := by
  obtain ⟨outs, hlog, hout⟩ := h.log
  have hnone : outs.countP (fun o => decide (o.level = s.level ∧ o.port = 0x20 ∧ o.value = 0x20)) = 0 := by
    refine List.countP_eq_zero.mpr fun o ho hcount => ?_
    obtain ⟨hlevel, hport, -⟩ := of_decide_eq_true hcount
    rcases hout o ho with hdeep | hkeyboard
    · exact absurd hlevel hdeep.ne'
    · exact absurd (hport.symm.trans hkeyboard) (by decide)
  rw [BiosKeyboard.eois, BiosKeyboard.eois, hlog, List.countP_append, hnone, Nat.zero_add]

theorem lastCommand (h : Inside s s') : lastCommand s.level s'.log = BiosKeyboard.lastCommand s.level s.log := by
  obtain ⟨outs, hlog, hout⟩ := h.log
  have hnone : outs.find? (fun o => decide (o.level = s.level ∧ o.port = 0x64)) = none := by
    refine List.find?_eq_none.mpr fun o ho hfound => ?_
    obtain ⟨hlevel, hport⟩ := of_decide_eq_true hfound
    rcases hout o ho with hdeep | hkeyboard
    · exact absurd hlevel hdeep.ne'
    · exact absurd (hport.symm.trans hkeyboard) (by decide)
  rw [BiosKeyboard.lastCommand, BiosKeyboard.lastCommand, hlog, List.find?_append, hnone, Option.none_or]

theorem store (s : Bios) (o : ℕ) (v : BitVec 8) : Inside s (s.store o v) := ⟨rfl, [], rfl, nofun⟩

theorem keyboard (s : Bios) (v : BitVec 8) : Inside s (s.outb 0x60 v) :=
  ⟨rfl, [⟨s.level, 0x60, v⟩], rfl, fun o ho => .inr (by rw [List.mem_singleton.mp ho])⟩

end Inside

/-! ## The flags apart -/

@[simp] theorem store_same : (s.store o v).area o = v := Function.update_self ..

theorem store_of_ne {p : ℕ} (h : p ≠ o) : (s.store o v).area p = s.area p := Function.update_of_ne h ..

/-- The buffer is in order while its pointers stay. -/
theorem valid_congr {a a' : Area} (h : a.Valid)
    (hword : ∀ p, p = headAt ∨ p = tailAt ∨ p = startAt ∨ p = endAt → a'.word p = a.word p) : a'.Valid := by
  obtain ⟨first, n, hold⟩ := h
  exact ⟨first, n, hold.first, hold.room, (hword _ (by decide)).trans hold.head,
    (hword _ (by decide)).trans hold.tail, (hword _ (by decide)).trans hold.start,
    (hword _ (by decide)).trans hold.stop⟩

/-- A flag stored leaves the buffer in order. -/
theorem valid_store (h : s.area.Valid) (ho : o < headAt ∨ endAt + 1 < o) : (s.store o v).area.Valid := by
  refine valid_congr h fun p hp => ?_
  rw [headAt, tailAt, startAt, endAt] at hp
  rw [headAt, endAt] at ho
  rw [Area.word, Area.word, store_of_ne (by omega), store_of_ne (by omega)]

/-- Storing `kb_flag_2` leaves the other flags. -/
theorem Framed.store_flag2 (s : Bios) (v : BitVec 8) : Framed s (s.store kbFlag2At v) where
  flag := store_of_ne (by decide)
  flag1 := store_of_ne (by decide)
  flag3 := .inl (store_of_ne (by decide))
  altInput := store_of_ne (by decide)
  valid h := valid_store h (.inr (by decide))

theorem Framed.refl (s : Bios) : Framed s s := ⟨rfl, rfl, .inl rfl, rfl, id⟩

theorem Framed.trans (h : Framed s s') (h' : Framed s' s'') : Framed s s'' where
  flag := h'.flag.trans h.flag
  flag1 := h'.flag1.trans h.flag1
  flag3 := by
    rcases h'.flag3 with heq' | heq' <;> rcases h.flag3 with heq | heq <;> rw [heq', heq]
    · exact .inl rfl
    · exact .inr rfl
    · exact .inr rfl
    · rw [BitVec.and_assoc, BitVec.and_self]
      exact .inr rfl
  altInput := h'.altInput.trans h.altInput
  valid hv := h'.valid (h.valid hv)

theorem Answered.refl (s : Bios) : Answered s s := ⟨.refl s, .refl s, rfl⟩

theorem Answered.trans (h : Answered s s') (h' : Answered s' s'') : Answered s s'' :=
  ⟨h.toInside.trans h'.toInside, h.toFramed.trans h'.toFramed, h'.lights.trans h.lights⟩

theorem Answered.store_flag2 (h : v &&& 0x47 = s.flag2 &&& 0x47) : Answered s (s.store kbFlag2At v) :=
  ⟨.store .., .store_flag2 .., (congrArg (· &&& 0x47) store_same).trans h⟩

theorem Answered.keyboard (s : Bios) (v : BitVec 8) : Answered s (s.outb 0x60 v) :=
  ⟨.keyboard s v, ⟨rfl, rfl, .inl rfl, rfl, id⟩, rfl⟩

/-! ## The lights -/

theorem awaitReply_answered (hg : g.Lawful) (wait : ℕ) {var : BitVec 8} (hvar : var &&& 0x47 = s.flag2 &&& 0x47) :
    Answered s (Bios.awaitReply g wait var s).2 ∧
      (Bios.awaitReply g wait var s).1 &&& 0x47 = (Bios.awaitReply g wait var s).2.flag2 &&& 0x47 := by
  induction wait generalizing var s with
  | zero => exact ⟨.refl s, hvar⟩
  | succ wait ih =>
    rw [Bios.awaitReply]
    split
    · obtain ⟨hanswered, hlast⟩ := ih (s := g.reply s) rfl
      exact ⟨(hg.reply s).trans hanswered, hlast⟩
    · exact ⟨.refl s, hvar⟩

theorem sendTries_answered (hg : g.Lawful) (data : BitVec 8) (retry : ℕ) {var : BitVec 8}
    (hvar : var &&& 0x47 = s.flag2 &&& 0x47) : Answered s (Bios.sendTries g data retry var s).2 ∧
      (Bios.sendTries g data retry var s).1 &&& 0x47 = (Bios.sendTries g data retry var s).2.flag2 &&& 0x47 := by
  induction retry generalizing var s with
  | zero => exact ⟨.refl s, hvar⟩
  | succ retry ih =>
    rw [Bios.sendTries]
    set cleared := var &&& ~~~0xb0 with hcleared
    have hlights : cleared &&& 0x47 = s.flag2 &&& 0x47 := (and_not_and_of_apart var (by decide)).trans hvar
    have hstore : Answered s (s.store kbFlag2At cleared) := .store_flag2 hlights
    have hsent : Answered s (if var &&& 0x20 ≠ 0 then (s.store kbFlag2At cleared).outb 0x60 data
        else s.store kbFlag2At cleared) := by
      split
      · exact hstore.trans (.keyboard _ data)
      · exact hstore
    generalize (if var &&& 0x20 ≠ 0 then (s.store kbFlag2At cleared).outb 0x60 data
        else s.store kbFlag2At cleared) = sent at hsent ⊢
    obtain ⟨hwait, hlast⟩ := awaitReply_answered hg 5 (hlights.trans hsent.lights.symm)
    split
    · exact ⟨hsent.trans hwait, hlast⟩
    · obtain ⟨hrest, hlast'⟩ := ih ((or_and_of_apart _ (by decide : 0x80#8 &&& 0x47 = 0)).trans hlast)
      exact ⟨(hsent.trans hwait).trans hrest, hlast'⟩

theorem sendData_answered (hg : g.Lawful) (s : Bios) (data : BitVec 8) : Answered s (s.sendData g data) := by
  obtain ⟨hsent, hlast⟩ := sendTries_answered hg data 3 (or_and_of_apart s.flag2 (by decide : 0x20#8 &&& 0x47 = 0))
  rw [Bios.sendData]
  split
  · exact hsent.trans (.store_flag2 hlast)
  · exact hsent

theorem checkIndicators_of_not_due (h : ¬s.LightsDue) (eoi : Bool) : s.checkIndicators g eoi = s := if_neg h

/-- What an update of the lights does. -/
structure Lit (eoi : Bool) (s s' : Bios) : Prop extends Framed s s' where
  inside : Inside (if eoi then s.eoi else s) s'
  lights : s'.flag2 &&& 0x47 = s.indicators

theorem checkIndicators_of_due (hg : g.Lawful) (h : s.LightsDue) (eoi : Bool) :
    Lit eoi s (s.checkIndicators g eoi) := by
  rw [Bios.checkIndicators, if_pos h]
  set s1 := s.store kbFlag2At (s.flag2 ||| 0x40)
  set s2 := if eoi then s1.eoi else s1
  have hframe2 : Framed s s2 := by
    have hstart : Framed s s1 := .store_flag2 s _
    cases eoi
    · exact hstart
    · exact hstart.trans ⟨rfl, rfl, .inl rfl, rfl, id⟩
  have hinside2 : Inside (if eoi then s.eoi else s) s2 := by
    cases eoi
    · exact .store s _ _
    · exact .store s.eoi _ _
  have hsent := sendData_answered hg s2 0xed
  set s3 := s2.sendData g 0xed
  set var := s3.flag2 &&& 0xf8 ||| s.indicators with hvar
  set s4 := s3.store kbFlag2At var
  have hstored : s4.flag2 = var := store_same
  have hlast : Answered s4 (if var &&& 0x80 = 0 then
      if (s4.sendData g s.indicators).flag2 &&& 0x80 ≠ 0 then (s4.sendData g s.indicators).sendData g 0xf4
      else s4.sendData g s.indicators else s4.sendData g 0xf4) := by
    split
    · have hlights := sendData_answered hg s4 s.indicators
      split
      · exact hlights.trans (sendData_answered hg _ _)
      · exact hlights
    · exact sendData_answered hg s4 _
  set s5 := if var &&& 0x80 = 0 then
      if (s4.sendData g s.indicators).flag2 &&& 0x80 ≠ 0 then (s4.sendData g s.indicators).sendData g 0xf4
      else s4.sendData g s.indicators else s4.sendData g 0xf4
  refine ⟨?_, ?_, ?_⟩
  · exact (((hframe2.trans hsent.toFramed).trans (.store_flag2 s3 var)).trans hlast.toFramed).trans (.store_flag2 s5 _)
  · exact (((hinside2.trans hsent.toInside).trans (.store s3 _ _)).trans hlast.toInside).trans (.store s5 _ _)
  · have hlow : s5.flag2 &&& 0x07 = s.indicators := by
      calc s5.flag2 &&& 0x07 = s5.flag2 &&& 0x47 &&& 0x07 := by rw [BitVec.and_assoc]; rfl
        _ = s3.flag2 &&& 0xf8 &&& 0x47 &&& 0x07 ||| s.indicators &&& 0x47 &&& 0x07 := by
          rw [hlast.lights, hstored, hvar, BitVec.and_or_distrib_right, BitVec.and_or_distrib_right]
        _ = 0 ||| s.indicators := by
          rw [BitVec.and_assoc, BitVec.and_assoc]
          congr 1
          · exact BitVec.and_zero
          · rw [Bios.indicators, BitVec.and_assoc]
            generalize s.flag = flag
            revert flag
            decide
        _ = s.indicators := BitVec.zero_or
    calc (s5.clear kbFlag2At 0xc0).flag2 &&& 0x47 = s5.flag2 &&& ~~~0xc0 &&& 0x47 := congrArg (· &&& 0x47) store_same
      _ = s5.flag2 &&& 0x07 := by rw [BitVec.and_assoc]; rfl
      _ = s.indicators := hlow

/-- The lights that a flag asks for. -/
def lightsOf (flag : BitVec 8) : BitVec 8 := (flag &&& 0x70) >>> 4

theorem lightsOf_xor (a b : BitVec 8) : (lightsOf a ^^^ lightsOf b) &&& 0x07 = lightsOf (a ^^^ b) := by
  rw [lightsOf, lightsOf, lightsOf]
  refine eq_of_bits fun i => ?_
  fin_cases i <;> simp

theorem lightsOf_eq_zero (a : BitVec 8) : lightsOf a = 0 ↔ a &&& 0x70 = 0 := by
  revert a
  decide

theorem lightsOf_idle (a : BitVec 8) : lightsOf a &&& 0x40 = 0 := by
  revert a
  decide

/-- Only the low lights are compared. -/
theorem xor_and_lights (a b : BitVec 8) : (a ^^^ b) &&& 0x07 = (a ^^^ b &&& 0x47) &&& 0x07 := by
  refine eq_of_bits fun i => ?_
  fin_cases i <;> simp

/-- The lights are as `flag` asked for, and differ as it has changed. -/
theorem lightsDue_iff {flag : BitVec 8} (h : s.flag2 &&& 0x47 = lightsOf flag) :
    s.LightsDue ↔ (s.flag ^^^ flag) &&& 0x70 ≠ 0 := by
  have hidle : s.flag2 &&& 0x40 = 0 := by
    calc s.flag2 &&& 0x40 = s.flag2 &&& 0x47 &&& 0x40 := by rw [BitVec.and_assoc]; rfl
      _ = 0 := by rw [h, lightsOf_idle]
  have hlow : (s.indicators ^^^ s.flag2) &&& 0x07 = lightsOf (s.flag ^^^ flag) := by
    rw [xor_and_lights, h]
    exact lightsOf_xor s.flag flag
  rw [Bios.LightsDue, hlow, Ne, lightsOf_eq_zero]
  exact and_iff_left hidle

theorem checkIndicators_synced (hg : g.Lawful) (h : s.flag2 &&& 0x40 = 0) (eoi : Bool) :
    (s.checkIndicators g eoi).flag2 &&& 0x47 = s.indicators := by
  by_cases hdue : s.LightsDue
  · exact (checkIndicators_of_due hg hdue eoi).lights
  · rw [checkIndicators_of_not_due hdue]
    have hequal : (s.indicators ^^^ s.flag2) &&& 0x07 = 0 := by
      by_contra hne
      exact hdue ⟨hne, h⟩
    have hlow : s.indicators &&& 0x07 = s.indicators := by
      rw [Bios.indicators]
      generalize s.flag = flag
      revert flag
      decide
    have hlights : s.flag2 &&& 0x47 = s.flag2 &&& 0x07 := by
      calc s.flag2 &&& 0x47 = s.flag2 &&& 0x40 ||| s.flag2 &&& 0x07 := by
            rw [← BitVec.and_or_distrib_left]; rfl
        _ = s.flag2 &&& 0x07 := by rw [h]; exact BitVec.zero_or
    exact hlights.trans (((xor_and_eq_zero_iff _ _).mp hequal).symm.trans hlow)
theorem checkIndicators_framed (hg : g.Lawful) (s : Bios) (eoi : Bool) : Framed s (s.checkIndicators g eoi) := by
  by_cases hdue : s.LightsDue
  · exact (checkIndicators_of_due hg hdue eoi).toFramed
  · rw [checkIndicators_of_not_due hdue]
    exact .refl s

/-! ## Ends of interrupt -/

/-- The level is kept, and no end of interrupt issued. -/
structure Quiet (s s' : Bios) : Prop where
  level : s'.level = s.level
  eois : eois s.level s'.log = eois s.level s.log

theorem Inside.quiet (h : Inside s s') : Quiet s s' := ⟨h.level, h.eois⟩

theorem Quiet.trans (h : Quiet s s') (h' : Quiet s' s'') : Quiet s s'' :=
  ⟨h'.level.trans h.level, h.level ▸ h'.eois |>.trans h.eois⟩

theorem eois_eoi (s : Bios) : eois s.level s.eoi.log = eois s.level s.log + 1 :=
  List.countP_cons_of_pos (decide_eq_true ⟨rfl, rfl, rfl⟩)

theorem Quiet.outb (s : Bios) {port : BitVec 16} (h : port ≠ 0x20) (v : BitVec 8) : Quiet s (s.outb port v) :=
  ⟨rfl, List.countP_cons_of_neg fun hcount => h (of_decide_eq_true hcount).2.1⟩

theorem Quiet.enable (s : Bios) : Quiet s s.enable := .outb s (by decide) _

theorem checkIndicators_level (hg : g.Lawful) (s : Bios) (eoi : Bool) : (s.checkIndicators g eoi).level = s.level := by
  by_cases hdue : s.LightsDue
  · refine (checkIndicators_of_due hg hdue eoi).inside.level.trans ?_
    cases eoi <;> rfl
  · rw [checkIndicators_of_not_due hdue]

theorem checkIndicators_eois (hg : g.Lawful) (s : Bios) (eoi : Bool) : eois s.level (s.checkIndicators g eoi).log =
    eois s.level s.log + if eoi = true ∧ s.LightsDue then 1 else 0 := by
  by_cases hdue : s.LightsDue
  · have hinside := (checkIndicators_of_due hg hdue eoi).inside
    cases eoi with
    | false =>
      rw [if_neg (fun h => Bool.false_ne_true h.1)]
      exact hinside.eois
    | true =>
      rw [if_pos ⟨rfl, hdue⟩, ← eois_eoi]
      exact hinside.eois
  · rw [checkIndicators_of_not_due hdue, if_neg (fun h => hdue h.2), Nat.add_zero]

theorem lastCommand_enable (s : Bios) : lastCommand s.level s.enable.log = some 0xae :=
  congrArg (Option.map Out.value) (List.find?_cons_of_pos (decide_eq_true ⟨rfl, rfl⟩))

theorem lastCommand_eoi (s : Bios) : lastCommand s.level s.eoi.log = lastCommand s.level s.log :=
  congrArg (Option.map Out.value)
    (List.find?_cons_of_neg fun h => absurd (of_decide_eq_true h).2 (by decide : (0x20#16) ≠ 0x64))

/-- The run is over but for `exit_from_kbd_int`: one end of interrupt, and the keyboard is enabled. -/
structure Left (s s' : Bios) : Prop where
  level : s'.level = s.level
  eois : eois s.level s'.log = eois s.level s.log + 1
  enabled : lastCommand s.level s'.log = some 0xae

namespace Left

theorem of_quiet (h : Quiet s s') (h' : Left s' s'') : Left s s'' where
  level := h'.level.trans h.level
  eois := by rw [← h.eois, ← h.level]; exact h'.eois
  enabled := by rw [← h.level]; exact h'.enabled

theorem inside (h : Left s s') (h' : Inside s' s'') : Left s s'' where
  level := h'.level.trans h.level
  eois := by rw [← h.eois, ← h.level]; exact h'.eois
  enabled := by rw [← h.enabled, ← h.level]; exact h'.lastCommand

/-- The keyboard is enabled after the one end of interrupt. -/
theorem enable (hlevel : s'.level = s.level)
    (heois : BiosKeyboard.eois s.level s'.log = BiosKeyboard.eois s.level s.log + 1) :
    Left s s'.enable where
  level := hlevel
  eois := by
    have hquiet := (Quiet.enable s').eois
    rw [hlevel] at hquiet
    exact hquiet.trans heois
  enabled := by
    rw [← hlevel]
    exact lastCommand_enable s'

theorem k26a (s : Bios) : Left s s.k26a := .enable rfl (eois_eoi s)

theorem k26 (s : Bios) : Left s s.k26 := of_quiet (Inside.store ..).quiet (k26a _)

end Left

theorem putInBuffer_left (hg : g.Lawful) (s : Bios) (c v : BitVec 8) : Left s (s.putInBuffer g c v) := by
  rw [Bios.putInBuffer]
  dsimp only
  split
  · have hstored : Inside s { s with area := (s.area.insert (c ++ v)).2 } := ⟨rfl, [], rfl, nofun⟩
    generalize { s with area := (s.area.insert (c ++ v)).2 } = stored at hstored ⊢
    have hcall := (hg.int15 0x9102 stored.eoi).toInside
    have hleft : Left stored (g.int15 0x9102 stored.eoi).2.2.enable :=
      .enable hcall.level (hcall.eois.trans (eois_eoi stored))
    exact .of_quiet hstored.quiet (hleft.inside (.store ..))
  · exact .k26a s

theorem holdOn_inside (hg : g.Lawful) (h : Bios.holdOn g fuel s = some s') : Inside s s' := by
  induction fuel generalizing s with
  | zero => exact nomatch h
  | succ fuel ih =>
    rw [Bios.holdOn] at h
    split at h
    · exact (hg.hold s).trans (ih h)
    · exact Option.some.inj h ▸ hg.hold s

/-- **Every exit issues one end of interrupt**, and enables the keyboard. -/
theorem leave_left (hg : g.Lawful) {e : Bios.Exit} (h : s.leave g fuel e = some s') (he : e ≠ .reboot) : Left s s' := by
  cases e with
  | k26 => exact Option.some.inj h ▸ .k26 s
  | k26a => exact Option.some.inj h ▸ .k26a s
  | put c v => exact Option.some.inj h ▸ putInBuffer_left hg s c v
  | entry digit => exact Option.some.inj h ▸ .of_quiet (Inside.store ..).quiet (.k26 _)
  | sysReq ax => exact Option.some.inj h ▸ (Left.k26a s).inside (hg.int15 ax _).toInside
  | pause =>
    obtain ⟨held, hheld, rfl⟩ := Option.map_eq_some_iff.mp h
    have hstart : Quiet s (s.raise kbFlag1At 0x08).enable := (Inside.store ..).quiet.trans (.enable _)
    have hinside := holdOn_inside hg hheld
    refine .of_quiet hstart (.enable hinside.level ?_)
    exact hinside.eois.trans (eois_eoi _)
  | reboot => exact absurd rfl he
  | ctrlBreak =>
    refine Option.some.inj h ▸ .of_quiet ?_ (putInBuffer_left hg _ 0 0)
    have hempty : Inside s { s with area := s.area.storeWord tailAt s.area.head } := ⟨rfl, [], rfl, nofun⟩
    exact ((hempty.trans (.store ..)).quiet.trans (.enable _)).trans (hg.int1b _).toInside.quiet
  | printScreen =>
    have hstart : Left s s.enable.eoi :=
      ⟨rfl, (eois_eoi s.enable).trans (congrArg (· + 1) (Quiet.enable s).eois),
        (lastCommand_eoi s.enable).trans (lastCommand_enable s)⟩
    exact Option.some.inj h ▸ (hstart.inside (hg.int05 _).toInside).inside (.store ..)

/-! ## INT 16h -/

/-- After an update the lights are as they should be. -/
theorem checkIndicators_settles (hg : g.Lawful) (s : Bios) (eoi : Bool) : ¬(s.checkIndicators g eoi).LightsDue := by
  by_cases hdue : s.LightsDue
  · have hlit := checkIndicators_of_due hg hdue eoi
    have hlights : (s.checkIndicators g eoi).flag2 &&& 0x47 = lightsOf (s.checkIndicators g eoi).flag := by
      rw [hlit.lights, hlit.flag]
      rfl
    rw [lightsDue_iff hlights, BitVec.xor_self]
    exact not_not.mpr BitVec.zero_and
  · rw [checkIndicators_of_not_due hdue]
    exact hdue

theorem checkIndicators_quiet (hg : g.Lawful) (s : Bios) : Quiet s (s.checkIndicators g false) :=
  ⟨checkIndicators_level hg s false, by
    rw [checkIndicators_eois hg, if_neg fun h => Bool.false_ne_true h.1, Nat.add_zero]⟩

/-- The buffer's pointers are apart from the flags. -/
theorem storeWord_of_ne (a : Area) {p : ℕ} (v : BitVec 16) (h : p ≠ o ∧ p ≠ o + 1) : a.storeWord o v p = a p := by
  rw [Area.storeWord, Function.update_of_ne h.2, Function.update_of_ne h.1]

/-- The head moved on makes no update due. -/
theorem dropHead_due : Bios.LightsDue { s with area := s.area.dropHead } ↔ s.LightsDue := by
  have hflag : Bios.flag { s with area := s.area.dropHead } = s.flag :=
    storeWord_of_ne s.area (s.area.incBufferPtr s.area.head) (by decide : kbFlagAt ≠ headAt ∧ kbFlagAt ≠ headAt + 1)
  have hflag2 : Bios.flag2 { s with area := s.area.dropHead } = s.flag2 :=
    storeWord_of_ne s.area (s.area.incBufferPtr s.area.head) (by decide : kbFlag2At ≠ headAt ∧ kbFlag2At ≠ headAt + 1)
  rw [Bios.LightsDue, Bios.LightsDue, Bios.indicators, Bios.indicators, hflag, hflag2]

theorem awaitKey_inside (hg : g.Lawful) (h : Bios.awaitKey g fuel s = some s') : Inside s s' := by
  induction fuel generalizing s with
  | zero => exact nomatch h
  | succ fuel ih =>
    rw [Bios.awaitKey] at h
    split at h
    · exact (hg.poll s).trans (ih h)
    · exact Option.some.inj h ▸ hg.poll s

theorem takeKey_inside (hg : g.Lawful) {out : BitVec 16 × Bios} (h : s.takeKey g fuel = some out) : Inside s out.2 := by
  obtain ⟨awaited, hawaited, rfl⟩ := Option.map_eq_some_iff.mp h
  have hinside : Inside s awaited := by
    split at hawaited
    · exact awaitKey_inside hg hawaited
    · exact Option.some.inj hawaited ▸ .refl s
  exact hinside.trans ⟨rfl, [], rfl, nofun⟩

theorem waitCall_inside (hg : g.Lawful) (s : Bios) : Inside s (s.waitCall g) := by
  rw [Bios.waitCall]
  split
  · exact (hg.int15 _ s).toInside
  · exact .refl s

theorem readStd_quiet (hg : g.Lawful) {out : BitVec 16 × Bios} (h : Bios.readStd g fuel s = some out) :
    Quiet s out.2 := by
  induction fuel generalizing s with
  | zero => exact nomatch h
  | succ fuel ih =>
    rw [Bios.readStd] at h
    split at h
    · exact nomatch h
    · rename_i ax taken htaken
      have hquiet := (checkIndicators_quiet hg s).trans (takeKey_inside hg htaken).quiet
      split at h
      · exact hquiet.trans (ih h)
      · exact Option.some.inj h ▸ hquiet

theorem peekStd_eois (hg : g.Lawful) {out : BitVec 16 × Bool × Bios} (h : Bios.peekStd g fuel s = some out) :
    eois s.level out.2.2.log = eois s.level s.log + if s.LightsDue then 1 else 0 := by
  induction fuel generalizing s with
  | zero => exact nomatch h
  | succ fuel ih =>
    have hcheck := checkIndicators_eois hg s true
    have hlevel := checkIndicators_level hg s true
    have hsettled := checkIndicators_settles hg s true
    simp only [true_and] at hcheck
    rw [Bios.peekStd] at h
    generalize s.checkIndicators g true = lit at h hcheck hlevel hsettled
    split at h
    · exact Option.some.inj h ▸ hcheck
    · split at h
      · have hrest := ih h
        rw [if_neg (dropHead_due.not.mpr hsettled), Nat.add_zero, hlevel] at hrest
        exact hrest.trans hcheck
      · exact Option.some.inj h ▸ hcheck

/-- **A call of INT 16h** issues an end of interrupt where AH is 01h or 11h and the lights are due, and else none. -/
theorem keyboardIo_eois (hg : g.Lawful) {r : Bios.Regs} {out : BitVec 16 × Bool × Bios}
    (h : s.keyboardIo g fuel r = some out) : eois s.level out.2.2.log =
      eois s.level s.log + if (r.ah = 0x01 ∨ r.ah = 0x11) ∧ s.LightsDue then 1 else 0 := by
  have hquiet (hah : r.ah ≠ 0x01 ∧ r.ah ≠ 0x11) (hout : Quiet s out.2.2) : eois s.level out.2.2.log =
      eois s.level s.log + if (r.ah = 0x01 ∨ r.ah = 0x11) ∧ s.LightsDue then 1 else 0 := by
    rw [if_neg fun hdue => hdue.1.elim hah.1 hah.2]
    exact hout.eois
  rw [Bios.keyboardIo] at h
  split at h
  · rename_i hah
    obtain ⟨taken, htaken, rfl⟩ := Option.map_eq_some_iff.mp h
    exact hquiet (by rw [hah]; decide) ((waitCall_inside hg s).quiet.trans (readStd_quiet hg htaken))
  split at h
  · rename_i hah
    have hpeek := peekStd_eois hg h
    simpa only [hah, true_or, true_and] using hpeek
  rename_i hpeek
  split at h
  · rename_i hah
    exact hquiet (by rw [hah]; decide) (Option.some.inj h ▸ (Inside.refl s).quiet)
  split at h
  · rename_i hah
    refine hquiet (by rw [hah]; decide) ?_
    split at h
    · exact Option.some.inj h ▸ ((sendData_answered hg s _).trans (sendData_answered hg _ _)).toInside.quiet
    · exact Option.some.inj h ▸ (Inside.refl s).quiet
  split at h
  · rename_i hah
    exact hquiet (by rw [hah]; decide) (Option.some.inj h ▸ ⟨rfl, rfl⟩)
  split at h
  · rename_i hah
    obtain ⟨taken, htaken, rfl⟩ := Option.map_eq_some_iff.mp h
    refine hquiet (by rw [hah]; decide) ?_
    exact ((waitCall_inside hg s).quiet.trans (checkIndicators_quiet hg _)).trans (takeKey_inside hg htaken).quiet
  split at h
  · rename_i hah
    have hcheck := checkIndicators_eois hg s true
    simp only [true_and] at hcheck
    rw [hah]
    simp only [or_true, true_and]
    dsimp only at h
    split at h
    · exact Option.some.inj h ▸ hcheck
    · exact Option.some.inj h ▸ hcheck
  rename_i hpeek'
  refine hquiet ⟨hpeek, hpeek'⟩ ?_
  split at h
  · exact Option.some.inj h ▸ (Inside.refl s).quiet
  · exact Option.some.inj h ▸ (Inside.refl s).quiet

end SoftPC.BiosKeyboard
