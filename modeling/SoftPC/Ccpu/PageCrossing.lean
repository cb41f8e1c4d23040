import SoftPC.Ccpu.PageChecked

/-!
# Ccpu/PageCrossing — items that go on in another page

    spr_read, spr_write:               lin2phy ──▸ bytes ──▸ lin2phy ──▸ bytes
    usr_chk; vir_read, vir_write:      lin2phy ──▸ lin2phy ──▸ bytes

What the operations of `base/ccpu386/c_page.c` move is at the places of its bytes, and a checked item is
moved without a fault.  Only the supervisor's writes do not look at the next page before they store in the
first one: if the next one is not there, the bytes before it have been written when the fault is taken.
`page_crossings_exact` says that this is all that goes wrong.
-/

namespace SoftPC.Ccpu

/-- The bytes of an item, the lowest first. -/
def itemBytes : (w : Width) → BitVec w.bits → List (BitVec 8)
  | .byte, v => [v]
  | .word, v => wordBytes v
  | .dword, v => dwordBytes v

namespace Paging

section

variable {M : Type} (p : Paging) (phys : Phys M)

/-- `spr_read_byte`, `spr_read_word` and `spr_read_dword`. -/
def sprRead (w : Width) (lin : Word) : EStateM Fault M (BitVec w.bits) :=
  match w with
  | .byte => p.sprReadByte phys lin
  | .word => p.sprReadWord phys lin
  | .dword => p.sprReadDword phys lin

/-- `spr_write_byte`, `spr_write_word` and `spr_write_dword`. -/
def sprWrite (w : Width) (lin : Word) (data : BitVec w.bits) : EStateM Fault M PUnit :=
  match w with
  | .byte => p.sprWriteByte phys lin data
  | .word => p.sprWriteWord phys lin data
  | .dword => p.sprWriteDword phys lin data

/-- `usr_chk`, and the item is read. -/
def chkRead (w : Width) (lin : Word) : EStateM Fault M (BitVec w.bits) := do
  p.virRead phys w lin (← p.usrChk w lin false)

/-- …or written. -/
def chkWrite (w : Width) (lin : Word) (data : BitVec w.bits) : EStateM Fault M PUnit := do
  p.virWrite phys w lin (← p.usrChk w lin true) data

end

/-! ## What they are to do -/

/-- As the supervisor has it. -/
def supervisor (p : Paging) : Paging := { p with cpl := 0 }

/-- Where each byte is for the supervisor, the first that cannot be accessed faulting. -/
def sprPlaces (p : Paging) (la : Word) (n : ℕ) (isWrite : Bool) : Except Fault (List Word) :=
  p.supervisor.places la n isWrite

/-- An item is read from these places, or faults; memory is as it was. -/
def ReadFrom {w : Width} (x : EStateM Fault Ram (BitVec w.bits)) (places : Except Fault (List Word)) : Prop :=
  ∀ ram, match places with
    | .ok l => ∃ v, x ram = .ok v ram ∧ itemBytes w v = l.map ram
    | .error e => x ram = .error e ram

/-- An item is written to them, the lowest byte first, or faults and leaves memory as it was. -/
def WrittenTo {w : Width} (x : BitVec w.bits → EStateM Fault Ram PUnit) (places : Except Fault (List Word)) : Prop :=
  ∀ data ram, match places with
    | .ok l => x data ram = .ok ⟨⟩ (scatter (l.zip (itemBytes w data)).reverse ram)
    | .error e => x data ram = .error e ram

/-- What has been checked does not fault, on any memory. -/
def CheckSuffices (p : Paging) (w : Width) (la : Word) : Prop :=
  ∀ (M : Type) (phys : Phys M) (m m' : M) (phy : Word),
    (p.usrChk w la false m = .ok phy m' → ∃ v t, p.virRead phys w la phy m' = .ok v t) ∧
      (p.usrChk w la true m = .ok phy m' → ∀ data, ∃ t, p.virWrite phys w la phy data m' = .ok ⟨⟩ t)

/-- The item goes on in another page, which is not there where the first one is. -/
def Torn (p : Paging) (w : Width) (la : Word) : Prop :=
  p.pg ∧ room la < bytes w ∧ (∃ a, p.place la true false = .ok a) ∧
    ∃ e, p.place (la + .ofNat 32 (room la)) true false = .error e

variable {p : Paging} {ram : Ram} {la a phy : Word} {n : ℕ} {w : Width} {isWrite : Bool} {e : Fault}
  {q : ℕ → Word}

/-! ## Places -/

theorem supervisor_place (p : Paging) (la : Word) (isWrite : Bool) :
    p.supervisor.place la isWrite (p.supervisor.cpl = 3) = p.place la isWrite false := by
  have hcpl : decide (p.supervisor.cpl = 3) = false := rfl
  rw [hcpl]
  rfl

theorem leads_of_sprPlaces {l : List Word} (h : p.sprPlaces la n isWrite = .ok l) :
    ∃ q, Leads p la 0 isWrite n q ∧ l = (List.range n).map q := by
  obtain ⟨q, hq, hl⟩ := of_places h
  refine ⟨q, fun i hi => ?_, hl⟩
  rw [if_neg (not_not.mpr rfl), ← supervisor_place]
  exact hq i hi

/-- The first page faults, or the next one does. -/
theorem sprPlaces_error (hn : n ≤ 4096) (h : p.sprPlaces la n isWrite = .error e) :
    p.place la isWrite false = .error e ∨ p.pg ∧ room la < n ∧ (∃ a, p.place la isWrite false = .ok a) ∧
      p.place (la + .ofNat 32 (room la)) isWrite false = .error e := by
  unfold sprPlaces at h
  rw [← supervisor_place, ← supervisor_place]
  cases ha : p.supervisor.place la isWrite (p.supervisor.cpl = 3) with
  | error e' =>
    have hpos : 0 < n := Nat.pos_of_ne_zero fun hzero => by
      rw [hzero] at h
      cases h
    rw [places_first ha hpos] at h
    exact .inl (congrArg Except.error (Except.error.inj h))
  | ok a =>
    refine .inr ?_
    by_cases hcross : p.pg ∧ room la < n
    · cases hb : p.supervisor.place (la + .ofNat 32 (room la)) isWrite (p.supervisor.cpl = 3) with
      | error e' =>
        rw [places_second ha hb hcross.2] at h
        exact ⟨hcross.1, hcross.2, ⟨a, rfl⟩, congrArg Except.error (Except.error.inj h)⟩
      | ok b =>
        rw [places_both ha hb hn] at h
        cases h
    · rw [places_within ha fun hp => not_lt.mp fun hlt => hcross ⟨hp, hlt⟩] at h
      cases h

/-- What can be written can be read. -/
theorem place_readable {isUser : Bool} (h : p.place la true isUser = .ok a) : p.place la false isUser = .ok a := by
  unfold place translate at *
  by_cases hp : p.pg
  · rw [if_pos hp] at h ⊢
    cases he : p.pages (pageOf la) with
    | none =>
      rw [he] at h
      cases h
    | some e =>
      have hread : e.refuses (access true isUser) = false → e.refuses (access false isUser) = false := by
        rw [e.refuses_eq, e.refuses_eq]
        generalize e.user = u, e.writable = v
        clear h
        revert isUser u v
        decide
      rw [he] at h
      dsimp only at h ⊢
      split at h
      · cases h
      · rename_i hrefuse
        rw [hread (Bool.eq_false_iff.mpr hrefuse)]
        exact h
  · rwa [if_neg hp] at h ⊢

theorem places_readable {l : List Word} (h : p.places la n true = .ok l) : p.places la n false = .ok l := by
  obtain ⟨q, hq, rfl⟩ := of_places h
  exact mapM_ok fun i hi => place_readable (hq i (List.mem_range.mp hi))

theorem room_pos (la : Word) : 0 < room la := Nat.sub_pos_of_lt (offsetIn_lt la)

/-- The rest of a page, after some of it. -/
theorem room_add {k : ℕ} (hk : k < room la) : room (la + .ofNat 32 k) = room la - k := by
  unfold room offsetIn at *
  rw [BitVec.toNat_add, BitVec.toNat_ofNat]
  omega

/-! ## Items that are all there -/

namespace Leads

/-- The places of an access are those of the other kind. -/
theorem either (h : Leads p la phy isWrite n q) (isWrite' : Bool) : Leads p la phy isWrite' n q := by
  intro i hi
  have hq := h i hi
  by_cases hphy : phy ≠ 0
  · rwa [if_pos hphy] at hq ⊢
  · rw [if_neg hphy] at hq ⊢
    exact place_supervisor hq isWrite'

theorem sprRead (h : Leads p la 0 false (bytes w) q) :
    ∃ v, p.sprRead ramPhys w la ram = .ok v ram ∧ itemBytes w v = ((List.range (bytes w)).map q).map ram := by
  cases w with
  | byte => exact ⟨_, sprReadByte_at (h.at_start (by decide)), rfl⟩
  | word => exact ⟨_, h.sprReadWord, wordBytes_append _ _⟩
  | dword => exact ⟨_, h.sprReadDword, by rw [itemBytes, dwordBytes_append, wordBytes_append, wordBytes_append]; rfl⟩

theorem sprWrite (h : Leads p la 0 true (bytes w) q) (data : BitVec w.bits) :
    p.sprWrite ramPhys w la data ram =
      .ok ⟨⟩ (scatter (((List.range (bytes w)).map q).zip (itemBytes w data)).reverse ram) := by
  cases w with
  | byte => exact sprWriteByte_at (h.at_start (by decide)) data
  | word => exact h.sprWriteWord data
  | dword => exact h.sprWriteDword data

theorem virRead (h : Leads p la phy false (bytes w) q) (ram : Ram) :
    ∃ v, p.virRead ramPhys w la phy ram = .ok v ram ∧ itemBytes w v = ((List.range (bytes w)).map q).map ram := by
  by_cases hphy : phy = 0
  · subst hphy
    have hspr : p.virRead ramPhys w la 0 = p.sprRead ramPhys w la := if_neg (not_not.mpr rfl)
    rw [hspr]
    exact h.sprRead
  · cases w with
    | byte =>
      refine ⟨ram phy, ?_, congrArg (fun b => [ram b]) (h.after_start hphy (by decide)).symm⟩
      exact congrFun (if_pos hphy) ram
    | word => exact ⟨_, h.readWord, wordBytes_append _ _⟩
    | dword => exact ⟨_, h.readDword, by rw [itemBytes, dwordBytes_append, wordBytes_append, wordBytes_append]; rfl⟩

theorem virWrite (h : Leads p la phy true (bytes w) q) (data : BitVec w.bits) (ram : Ram) :
    p.virWrite ramPhys w la phy data ram =
      .ok ⟨⟩ (scatter (((List.range (bytes w)).map q).zip (itemBytes w data)).reverse ram) := by
  by_cases hphy : phy = 0
  · subst hphy
    have hspr : p.virWrite ramPhys w la 0 data = p.sprWrite ramPhys w la data := if_neg (not_not.mpr rfl)
    rw [hspr]
    exact h.sprWrite data
  · cases w with
    | byte =>
      have hput : p.virWrite ramPhys .byte la phy data ram = .ok ⟨⟩ (Function.update ram phy data) :=
        congrFun (if_pos hphy) ram
      rw [hput, ← h.after_start hphy (by decide)]
      rfl
    | word => exact h.writeWord data
    | dword => exact h.writeDword data

end Leads

/-! ## Items that are not -/

theorem mapped_fault {M : Type} {m : M} (he : p.place la isWrite false = .error e) :
    p.mapped la (access isWrite false) m = .error e m := by
  have hlooks := mapped_looks (p := p) (m := m) la isWrite false
  rwa [he] at hlooks

theorem crosses_iff (w : Width) (la : Word) : (p.pg ∧ offsetIn la > lastOnPage w) ↔ p.pg ∧ room la < bytes w :=
  and_congr_right fun _ => lastOnPage_lt w la

theorem sprReadByte_fault (he : p.place la false false = .error e) : p.sprReadByte ramPhys la ram = .error e ram :=
  bind_error (mapped_fault he)

theorem sprReadWord_fault (he : p.place la false false = .error e) : p.sprReadWord ramPhys la ram = .error e ram := by
  unfold sprReadWord
  by_cases hcross : p.pg ∧ offsetIn la > 0xffe
  · rw [if_pos hcross]
    exact bind_error (sprReadByte_fault he)
  · rw [if_neg hcross]
    exact bind_error (mapped_fault he)

/-- The second byte of a word is not there. -/
theorem sprReadWord_torn (hp : p.pg) (hroom : room la = 1) (ha : p.place la false false = .ok a)
    (he : p.place (la + 1) false false = .error e) : p.sprReadWord ramPhys la ram = .error e ram := by
  have hcross : p.pg ∧ offsetIn la > 0xffe := (crosses_iff .word la).mpr ⟨hp, hroom ▸ (by decide)⟩
  unfold sprReadWord
  rw [if_pos hcross, bind_ok (sprReadByte_at ha),
    bind_error (sprReadByte_fault he)]

/-- A word that is in a page. -/
theorem sprReadWord_within (hroom : 2 ≤ room la) (ha : p.place la false false = .ok a) :
    ∃ v, p.sprReadWord ramPhys la ram = .ok v ram := by
  have hcross : ¬(p.pg ∧ offsetIn la > 0xffe) := fun h => absurd ((crosses_iff .word la).mp h).2 (not_lt.mpr hroom)
  exact ⟨_, sprReadWord_at ha (place_succ hcross ha)⟩

theorem sprReadDword_fault (he : p.place la false false = .error e) : p.sprReadDword ramPhys la ram = .error e ram := by
  unfold sprReadDword
  by_cases hcross : p.pg ∧ offsetIn la > 0xffc
  · rw [if_pos hcross, bind_error (sprReadWord_fault he)]
  · rw [if_neg hcross, bind_error (mapped_fault he)]

/-- A double word of which the last one, two or three bytes are not there. -/
theorem sprReadDword_torn (hp : p.pg) (hroom : room la < 4) (ha : p.place la false false = .ok a)
    (he : p.place (la + .ofNat 32 (room la)) false false = .error e) : p.sprReadDword ramPhys la ram = .error e ram := by
  have hpos := room_pos la
  have hcross : p.pg ∧ offsetIn la > 0xffc := (crosses_iff .dword la).mpr ⟨hp, hroom⟩
  unfold sprReadDword
  rw [if_pos hcross]
  obtain h1 | h2 | h3 : room la = 1 ∨ room la = 2 ∨ room la = 3 := by omega
  · rw [h1] at he
    rw [bind_error (sprReadWord_torn hp h1 ha he)]
  · rw [h2] at he
    have he2 : p.place (la + 2) false false = .error e := he
    obtain ⟨v, hv⟩ : ∃ v, p.sprReadWord ramPhys la ram = .ok v ram := sprReadWord_within h2.ge ha
    rw [bind_ok hv, bind_error (sprReadWord_fault he2)]
  · rw [h3] at he
    obtain ⟨v, hv⟩ : ∃ v, p.sprReadWord ramPhys la ram = .ok v ram := sprReadWord_within (h3.symm ▸ (by decide)) ha
    have hrest : room (la + 2) = 1 := (room_add (k := 2) (h3.symm ▸ (by decide))).trans (by rw [h3])
    have ha2 : p.place (la + 2) false false = .ok (a + 2) :=
      place_add (i := 2) ha fun _ => by unfold room at h3; omega
    have he3 : p.place (la + 2 + 1) false false = .error e := by
      rw [BitVec.add_assoc]
      exact he
    rw [bind_ok hv, bind_error (sprReadWord_torn hp hrest ha2 he3)]

theorem sprRead_error (h : p.sprPlaces la (bytes w) false = .error e) :
    p.sprRead ramPhys w la ram = .error e ram := by
  obtain he | ⟨hp, hroom, ⟨a, ha⟩, he⟩ := sprPlaces_error (by cases w <;> decide) h
  · cases w with
    | byte => exact sprReadByte_fault he
    | word => exact sprReadWord_fault he
    | dword => exact sprReadDword_fault he
  · cases w with
    | byte => exact absurd hroom (not_lt.mpr (room_pos la))
    | word =>
      have h1 : room la = 1 := le_antisymm (Nat.le_of_lt_succ hroom) (room_pos la)
      rw [h1] at he
      exact sprReadWord_torn hp h1 ha he
    | dword => exact sprReadDword_torn hp hroom ha he

theorem sprWriteByte_fault (he : p.place la true false = .error e) (v : BitVec 8) :
    p.sprWriteByte ramPhys la v ram = .error e ram :=
  bind_error (mapped_fault he)

theorem sprWriteWord_fault (he : p.place la true false = .error e) (v : BitVec 16) :
    p.sprWriteWord ramPhys la v ram = .error e ram := by
  unfold sprWriteWord
  by_cases hcross : p.pg ∧ offsetIn la > 0xffe
  · rw [if_pos hcross]
    exact bind_error (sprWriteByte_fault he _)
  · rw [if_neg hcross]
    exact bind_error (mapped_fault he)

theorem sprWriteWord_within (hroom : 2 ≤ room la) (ha : p.place la true false = .ok a) (v : BitVec 16) :
    p.sprWriteWord ramPhys la v ram = .ok ⟨⟩ (ram.store a (wordBytes v)) := by
  have hcross : ¬(p.pg ∧ offsetIn la > 0xffe) := fun h => absurd ((crosses_iff .word la).mp h).2 (not_lt.mpr hroom)
  unfold sprWriteWord
  rw [if_neg hcross]
  have hmapped : p.mapped la (access true false) ram = .ok a ram := by
    rw [mapped_looks la true false, ha]
  rw [bind_ok hmapped]
  rfl

theorem sprWriteWord_torn (hp : p.pg) (hroom : room la = 1) (ha : p.place la true false = .ok a)
    (he : p.place (la + 1) true false = .error e) (v : BitVec 16) :
    p.sprWriteWord ramPhys la v ram = .error e (ram.store a [v.setWidth 8]) := by
  have hcross : p.pg ∧ offsetIn la > 0xffe := (crosses_iff .word la).mpr ⟨hp, hroom ▸ (by decide)⟩
  unfold sprWriteWord
  rw [if_pos hcross, bind_ok (sprWriteByte_at ha _)]
  exact sprWriteByte_fault he _

theorem sprWriteDword_fault (he : p.place la true false = .error e) (v : BitVec 32) :
    p.sprWriteDword ramPhys la v ram = .error e ram := by
  unfold sprWriteDword
  by_cases hcross : p.pg ∧ offsetIn la > 0xffc
  · rw [if_pos hcross]
    exact bind_error (sprWriteWord_fault he _)
  · rw [if_neg hcross]
    exact bind_error (mapped_fault he)

theorem sprWriteDword_torn (hp : p.pg) (hroom : room la < 4) (ha : p.place la true false = .ok a)
    (he : p.place (la + .ofNat 32 (room la)) true false = .error e) (v : BitVec 32) :
    p.sprWriteDword ramPhys la v ram = .error e (ram.store a ((dwordBytes v).take (room la))) := by
  have hpos := room_pos la
  have hcross : p.pg ∧ offsetIn la > 0xffc := (crosses_iff .dword la).mpr ⟨hp, hroom⟩
  unfold sprWriteDword
  rw [if_pos hcross]
  obtain h1 | h2 | h3 : room la = 1 ∨ room la = 2 ∨ room la = 3 := by omega
  · rw [h1] at he ⊢
    rw [bind_error (sprWriteWord_torn hp h1 ha he _)]
    rfl
  · rw [h2] at he ⊢
    have he2 : p.place (la + 2) true false = .error e := he
    rw [bind_ok (sprWriteWord_within h2.ge ha _), sprWriteWord_fault he2]
    rfl
  · rw [h3] at he
    have hrest : room (la + 2) = 1 := (room_add (k := 2) (h3.symm ▸ (by decide))).trans (by rw [h3])
    have ha2 : p.place (la + 2) true false = .ok (a + 2) :=
      place_add (i := 2) ha fun _ => by unfold room at h3; omega
    have he3 : p.place (la + 2 + 1) true false = .error e := by
      rw [BitVec.add_assoc]
      exact he
    rw [bind_ok (sprWriteWord_within (h3.symm ▸ (by decide)) ha _), sprWriteWord_torn hp hrest ha2 he3, h3]
    congr 1
    change Ram.store (Ram.store ram a [_, _]) (a + 2) [_] = Ram.store (Ram.store ram a [_, _]) (a + 1 + 1) [_]
    rw [BitVec.add_assoc]
    rfl

/-- **What is stored before the fault**: the bytes in the first page. -/
theorem sprWrite_torn (hp : p.pg) (hroom : room la < bytes w) (ha : p.place la true false = .ok a)
    (he : p.place (la + .ofNat 32 (room la)) true false = .error e) (data : BitVec w.bits) :
    p.sprWrite ramPhys w la data ram = .error e (ram.store a ((itemBytes w data).take (room la))) := by
  cases w with
  | byte => exact absurd hroom (not_lt.mpr (room_pos la))
  | word =>
    have h1 : room la = 1 := le_antisymm (Nat.le_of_lt_succ hroom) (room_pos la)
    rw [h1] at he ⊢
    exact sprWriteWord_torn hp h1 ha he data
  | dword => exact sprWriteDword_torn hp hroom ha he data

theorem sprWrite_fault (he : p.place la true false = .error e) (data : BitVec w.bits) :
    p.sprWrite ramPhys w la data ram = .error e ram := by
  cases w with
  | byte => exact sprWriteByte_fault he data
  | word => exact sprWriteWord_fault he data
  | dword => exact sprWriteDword_fault he data

/-! ## What is moved -/

/-- An item is checked in all its pages. -/
theorem usrPlaces_item (p : Paging) (w : Width) (la : Word) (isWrite : Bool) :
    p.usrPlaces w la (bytes w) isWrite = p.places la (bytes w) isWrite :=
  (usrPlaces_eq_iff le_rfl (by cases w <;> decide)).mpr (.inr ((le_or_gt (bytes w) (room la)).imp_right .inl))

theorem sprRead_exact (p : Paging) (w : Width) (la : Word) :
    ReadFrom (p.sprRead ramPhys w la) (p.sprPlaces la (bytes w) false) := by
  intro ram
  cases h : p.sprPlaces la (bytes w) false with
  | error e => exact sprRead_error h
  | ok l =>
    obtain ⟨q, hq, rfl⟩ := leads_of_sprPlaces h
    exact hq.sprRead

theorem chkRead_exact (p : Paging) (w : Width) (la : Word) :
    ReadFrom (p.chkRead ramPhys w la) (p.places la (bytes w) false) := by
  intro ram
  have hchk : p.usrChk w la false ram = _ := usrChk_looks w la false
  rw [← usrPlaces_item]
  cases h : p.usrPlace w la false with
  | error e =>
    rw [h] at hchk
    rw [usrPlaces_error h]
    exact bind_error hchk
  | ok phy =>
    obtain ⟨q, hq, hplaces⟩ := leads_of_usrPlace (n := bytes w) h (by cases w <;> decide)
    rw [h] at hchk
    rw [hplaces]
    obtain ⟨v, hv, hbytes⟩ := hq.virRead ram
    exact ⟨v, (bind_ok hchk).trans hv, hbytes⟩

theorem chkWrite_exact (p : Paging) (w : Width) (la : Word) :
    WrittenTo (p.chkWrite ramPhys w la) (p.places la (bytes w) true) := by
  intro data ram
  have hchk : p.usrChk w la true ram = _ := usrChk_looks w la true
  rw [← usrPlaces_item]
  cases h : p.usrPlace w la true with
  | error e =>
    rw [h] at hchk
    rw [usrPlaces_error h]
    exact bind_error hchk
  | ok phy =>
    obtain ⟨q, hq, hplaces⟩ := leads_of_usrPlace (n := bytes w) h (by cases w <;> decide)
    rw [h] at hchk
    rw [hplaces]
    exact (bind_ok hchk).trans (hq.virWrite data ram)

/-- **A checked item does not fault**. -/
theorem checkSuffices (p : Paging) (w : Width) (la : Word) : CheckSuffices p w la := by
  intro M phys m m' phy
  have hplace {isWrite : Bool} (h : p.usrChk w la isWrite m = .ok phy m') : p.usrPlace w la isWrite = .ok phy := by
    have hlooks : p.usrChk w la isWrite m = _ := usrChk_looks w la isWrite
    rw [hlooks] at h
    cases hp : p.usrPlace w la isWrite with
    | error e =>
      rw [hp] at h
      cases h
    | ok phy' =>
      rw [hp] at h
      cases h
      rfl
  exact ⟨fun h => sure_virRead (hplace h) m', fun h data => (sure_virWrite (hplace h) data m').choose_spec⟩

/-- A byte that is stored over and over. -/
theorem store_replicate {b : BitVec 8} {n : ℕ} {c : Word} (h : ram a = b) : ram.store c (.replicate n b) a = b := by
  induction n generalizing ram c with
  | zero => exact h
  | succ n ih =>
    refine ih ?_
    by_cases hc : a = c
    · rw [hc, Function.update_self]
    · rwa [Function.update_of_ne hc]

theorem itemBytes_zero (w : Width) : itemBytes w 0 = .replicate (bytes w) 0 := by cases w <;> rfl

/-- **Where the supervisor's writes are exact**. -/
theorem sprWrite_exact_iff (p : Paging) (w : Width) (la : Word) :
    WrittenTo (p.sprWrite ramPhys w la) (p.sprPlaces la (bytes w) true) ↔ ¬Torn p w la := by
  constructor
  · rintro h ⟨hp, hroom, ⟨a, ha⟩, e, he⟩
    -- Zeros over ones are seen.
    have hwhole := h 0 fun _ => 1
    have hplaces : p.sprPlaces la (bytes w) true = .error e :=
      places_second ((supervisor_place p la true).trans ha) ((supervisor_place p _ true).trans he) hroom
    rw [hplaces] at hwhole
    obtain ⟨n, hn⟩ := Nat.exists_eq_succ_of_ne_zero (room_pos la).ne'
    have hsame := (sprWrite_torn hp hroom ha he 0).symm.trans hwhole
    rw [itemBytes_zero, List.take_replicate, Nat.min_eq_left hroom.le, hn] at hsame
    injection hsame with _ hram
    have hbyte : Ram.store (Function.update (fun _ => 1) a 0) (a + 1) (.replicate n 0) a = 1 := congrFun hram a
    rw [store_replicate (Function.update_self ..)] at hbyte
    exact absurd hbyte (by decide)
  · intro htorn data ram
    cases h : p.sprPlaces la (bytes w) true with
    | ok l =>
      obtain ⟨q, hq, rfl⟩ := leads_of_sprPlaces h
      exact hq.sprWrite data
    | error e =>
      obtain he | ⟨hp, hroom, ha, he⟩ := sprPlaces_error (by cases w <;> decide) h
      · exact sprWrite_fault he data
      · exact absurd ⟨hp, hroom, ha, e, he⟩ htorn

/-- An item is moved exactly: read, and written, by the supervisor or after a check, which suffices. -/
structure MovesExactly (p : Paging) (w : Width) (la : Word) : Prop where
  spr_read : ReadFrom (p.sprRead ramPhys w la) (p.sprPlaces la (bytes w) false)
  spr_write : WrittenTo (p.sprWrite ramPhys w la) (p.sprPlaces la (bytes w) true)
  chk_read : ReadFrom (p.chkRead ramPhys w la) (p.places la (bytes w) false)
  chk_write : WrittenTo (p.chkWrite ramPhys w la) (p.places la (bytes w) true)
  suffices_chk : CheckSuffices p w la

end Paging

/-- **Where items are moved exactly**. -/
theorem page_crossings_exact (p : Paging) (w : Width) (la : Word) : p.MovesExactly w la ↔ ¬p.Torn w la :=
  ⟨fun h => (Paging.sprWrite_exact_iff p w la).mp h.spr_write, fun h =>
    ⟨p.sprRead_exact w la, (p.sprWrite_exact_iff w la).mpr h, p.chkRead_exact w la, p.chkWrite_exact w la,
      p.checkSuffices w la⟩⟩

/-- Page 1 is in frame 5, and page 2 is not there. -/
def cut : Paging where
  pg := true
  cpl := 0
  pages n := if n = 1 then some ⟨5, true, true⟩ else none

/-- Half a double word is left in page 1. -/
theorem spr_write_torn : ¬cut.MovesExactly .dword 0x1ffe := by
  intro h
  have hwhole := h.spr_write 0xffffffff fun _ => 0
  injection hwhole with _ hram
  exact absurd (congrFun hram 0x5ffe) (by decide)

end SoftPC.Ccpu
