import SoftPC.Ccpu.Page

/-!
# Ccpu/IoMap — the I/O permission bitmap

    TR ──▸ TSS[66h] = map base ──+ port / 8──▸ two bytes ──>> port % 8──▸ width bits

`check_io_permission_map` of `base/ccpu386/c_main.c`.  The sum of map base and `port / 8` is kept in 16 bits,
so that past `0xffff` the bytes at the beginning of the TSS are asked instead of those of the bitmap: the
check is exact where the sum does not wrap (`io_map_exact`).
-/

namespace SoftPC.Ccpu

/-! ## The check -/

def mapBaseAddr : Word := 0x66

def widthMask : Width → BitVec 16
  | .byte => 0x1
  | .word => 0x3
  | .dword => 0xf

section

variable {M : Type} (p : Paging) (phys : Phys M) (tr : SystemRegister)

def checkIoPermissionMap (port : Word) (width : Width) : EStateM Fault M PUnit := do
  -- No TSS, or that of a 286.
  faultIf (tr.selector = 0 ∨ tr.super = .busyTss) (.gp 0)
  faultIf (mapBaseAddr ≥ tr.limit) (.gp 0)
  let mapStartOffset ← p.sprReadWord phys (tr.base + mapBaseAddr)
  let mapWordOffset : BitVec 16 := (mapStartOffset.setWidth 32 + port / 8).setWidth 16
  faultIf (mapWordOffset.setWidth 32 ≥ tr.limit) (.gp 0)
  let mapWord ← p.sprReadWord phys (tr.base + mapWordOffset.setWidth 32)
  faultIf (mapWord >>> (port % 8).toNat &&& widthMask width ≠ 0) (.gp 0)

end

/-! ## What is checked -/

section

variable (p : Paging) (tr : SystemRegister) (ram : Ram)

/-- TR holds the TSS of a 386, and a map base within its limit. -/
def HasMap : Prop := tr.selector ≠ 0 ∧ tr.super ≠ .busyTss ∧ mapBaseAddr < tr.limit

/-- The map base. -/
def mapBase : Except Fault (BitVec 16) := p.shownWord ram (tr.base + mapBaseAddr)

/-- The two bytes at an offset are within the limit, and the bits of the ports from the first on, which is at
`shift`, are zero. -/
def Clear (offset : ℕ) (shift : ℕ) (width : Width) : Prop :=
  offset + 1 ≤ tr.limit.toNat ∧
    ∃ word, p.shownWord ram (tr.base + .ofNat 32 offset) = .ok word ∧
      ∀ i < Paging.bytes width, word.getLsbD (shift + i) = false

/-- **What the bitmap permits.** -/
def Permits (port : Word) (width : Width) : Prop :=
  ∃ base, mapBase p tr ram = .ok base ∧ Clear p tr ram (base.toNat + port.toNat / 8) (port.toNat % 8) width

/-- The check completes. -/
def Passes (port : Word) (width : Width) : Prop :=
  ∃ m, checkIoPermissionMap p ramPhys tr port width ram = .ok ⟨⟩ m

end

/-! ## The check against the bitmap -/

theorem getLsbD_widthMask (width : Width) (i : ℕ) : (widthMask width).getLsbD i = decide (i < Paging.bytes width) := by
  by_cases hi : i < 16
  · revert i
    cases width <;> decide
  · have hbytes : Paging.bytes width ≤ 4 := by cases width <;> decide
    rw [BitVec.getLsbD_of_ge _ _ (by omega), decide_eq_false (by omega)]

/-- The mask leaves the bits of the ports. -/
theorem masked_eq_zero (word : BitVec 16) (shift : ℕ) (width : Width) :
    word >>> shift &&& widthMask width = 0 ↔ ∀ i < Paging.bytes width, word.getLsbD (shift + i) = false := by
  constructor
  · intro h i hi
    have hbit := congrArg (fun v => v.getLsbD i) h
    simpa [getLsbD_widthMask, hi] using hbit
  · intro h
    ext i hi
    by_cases hin : i < Paging.bytes width
    · have hbit := h i hin
      simp [← BitVec.getLsbD_eq_getElem, getLsbD_widthMask, hbit]
    · simp [← BitVec.getLsbD_eq_getElem, getLsbD_widthMask, hin]

section

variable {p : Paging} {tr : SystemRegister} {ram : Ram} {port : Word} {width : Width}

/-- The check past the map base. -/
def lookAt (p : Paging) (tr : SystemRegister) (ram : Ram) (port : Word) (width : Width) (base : BitVec 16) :
    Except Fault PUnit := do
  let offset : BitVec 16 := (base.setWidth 32 + port / 8).setWidth 16
  if offset.setWidth 32 ≥ tr.limit then .error (.gp 0)
  else
    let word ← p.shownWord ram (tr.base + offset.setWidth 32)
    if word >>> (port % 8).toNat &&& widthMask width ≠ 0 then .error (.gp 0) else .ok ⟨⟩

theorem check_eq (hmap : HasMap tr) : Looks (checkIoPermissionMap p ramPhys tr port width) ram
    (mapBase p tr ram >>= lookAt p tr ram port width) := by
  have hguard : ¬(tr.selector = 0 ∨ tr.super = .busyTss) := not_or.mpr ⟨hmap.1, hmap.2.1⟩
  unfold checkIoPermissionMap
  rw [faultIf_pass hguard, faultIf_pass (BitVec.not_le.mpr hmap.2.2)]
  refine (Paging.sprReadWord_looks _).bind fun base _ => ?_
  unfold lookAt
  by_cases hlimit : ((base.setWidth 32 + port / 8).setWidth 16).setWidth 32 ≥ tr.limit
  · rw [faultIf_fault hlimit, if_pos hlimit]
    exact .throw
  · rw [faultIf_pass hlimit, if_neg hlimit]
    exact (Paging.sprReadWord_looks _).bind fun word _ => .faultIf

theorem not_passes (hmap : ¬HasMap tr) : ¬Passes p tr ram port width := by
  rintro ⟨m, hm⟩
  unfold checkIoPermissionMap at hm
  by_cases hguard : tr.selector = 0 ∨ tr.super = .busyTss
  · rw [faultIf_fault hguard] at hm
    cases hm
  · have hlimit : mapBaseAddr ≥ tr.limit := by
      by_contra hlimit
      exact hmap ⟨fun h => hguard (.inl h), fun h => hguard (.inr h), BitVec.not_le.mp hlimit⟩
    rw [faultIf_pass hguard, faultIf_fault hlimit] at hm
    cases hm

theorem toNat_offset (base : BitVec 16) (port : Word) :
    ((base.setWidth 32 + port / 8).setWidth 16).toNat = (base.toNat + port.toNat / 8) % 2 ^ 16 := by
  have hbase := base.isLt
  have hport := port.isLt
  rw [BitVec.toNat_setWidth, BitVec.toNat_add, BitVec.toNat_setWidth, BitVec.toNat_udiv]
  rw [show (8 : Word).toNat = 8 from rfl]
  omega

/-- Past the map base the check completes where the bits are clear, 16 bits of the sum being kept. -/
theorem lookAt_eq_ok {base : BitVec 16} : lookAt p tr ram port width base = .ok ⟨⟩ ↔
    Clear p tr ram ((base.toNat + port.toNat / 8) % 2 ^ 16) (port.toNat % 8) width := by
  have hoffset := toNat_offset base port
  have hshift : (port % 8).toNat = port.toNat % 8 := by
    rw [BitVec.toNat_umod]
    rfl
  unfold lookAt
  rw [hshift]
  generalize (base.setWidth 32 + port / 8).setWidth 16 = offset at hoffset
  have haddr : offset.setWidth 32 = BitVec.ofNat 32 ((base.toNat + port.toNat / 8) % 2 ^ 16) := by
    rw [← hoffset, BitVec.ofNat_toNat]
  have hlimit : offset.setWidth 32 ≥ tr.limit ↔ ¬offset.toNat + 1 ≤ tr.limit.toNat := by
    have := offset.isLt
    rw [ge_iff_le, BitVec.le_def, BitVec.toNat_setWidth]
    omega
  unfold Clear
  rw [← haddr, ← hoffset]
  dsimp only
  by_cases hl : offset.setWidth 32 ≥ tr.limit
  · rw [if_pos hl]
    exact ⟨nofun, fun h => absurd h.1 (hlimit.mp hl)⟩
  · rw [if_neg hl]
    have hfits : offset.toNat + 1 ≤ tr.limit.toNat := not_not.mp fun h => hl (hlimit.mpr h)
    cases p.shownWord ram (tr.base + offset.setWidth 32) with
    | error e => exact ⟨nofun, fun ⟨_, _, hw, _⟩ => nomatch hw⟩
    | ok word =>
      have hmask := masked_eq_zero word (port.toNat % 8) width
      constructor
      · intro h
        refine ⟨hfits, word, rfl, hmask.mp ?_⟩
        by_contra hne
        change (if _ then _ else _) = _ at h
        rw [if_pos hne] at h
        cases h
      · rintro ⟨-, _, hw, hbits⟩
        injection hw with hw
        subst hw
        exact if_neg (not_not.mpr (hmask.mpr hbits))

/-- The check completes where the bits at the sum, 16 bits of it, are clear. -/
theorem passes_iff (hmap : HasMap tr) : Passes p tr ram port width ↔ ∃ base, mapBase p tr ram = .ok base ∧
    Clear p tr ram ((base.toNat + port.toNat / 8) % 2 ^ 16) (port.toNat % 8) width := by
  rw [Passes, (check_eq hmap).returns_iff]
  cases mapBase p tr ram with
  | error e => exact ⟨nofun, fun ⟨_, hb, _⟩ => nomatch hb⟩
  | ok base =>
    refine lookAt_eq_ok.trans ⟨fun h => ⟨base, rfl, h⟩, ?_⟩
    rintro ⟨_, hb, h⟩
    injection hb with hb
    exact hb ▸ h

variable (p tr ram port width) in
/-- The check goes by the bits that are meant: in a TSS with a map, the sum does not wrap, or what it wraps to
says the same; in any other, they are not clear. -/
def GoesBy (base : BitVec 16) : Prop :=
  let sum := base.toNat + port.toNat / 8
  HasMap tr ∧ (sum < 2 ^ 16 ∨
      (Clear p tr ram (sum % 2 ^ 16) (port.toNat % 8) width ↔ Clear p tr ram sum (port.toNat % 8) width)) ∨
    ¬HasMap tr ∧ ¬Clear p tr ram sum (port.toNat % 8) width

/-- **The I/O permission bitmap is checked exactly** where `map base + port / 8` is less than `0x10000`: the
check completes if and only if the two bytes at the sum are within the limit and the bits of the ports are
zero.  Past that it does if and only if the bytes the sum wraps to say the same. -/
theorem io_map_exact (p : Paging) (tr : SystemRegister) (ram : Ram) (port : Word) (width : Width) :
    (Passes p tr ram port width ↔ Permits p tr ram port width) ↔
      ∀ base, mapBase p tr ram = .ok base → GoesBy p tr ram port width base := by
  unfold Permits
  cases hbase : mapBase p tr ram with
  | error e =>
    refine ⟨fun _ _ h => (nomatch h), fun _ => ⟨fun h => ?_, fun ⟨_, h, _⟩ => (nomatch h)⟩⟩
    by_cases hmap : HasMap tr
    · obtain ⟨_, h, -⟩ := (passes_iff hmap).mp h
      rw [hbase] at h
      cases h
    · exact absurd h (not_passes hmap)
  | ok base =>
    have hpermits : (∃ b, Except.ok base = Except.ok (ε := Fault) b ∧
        Clear p tr ram (b.toNat + port.toNat / 8) (port.toNat % 8) width) ↔
        Clear p tr ram (base.toNat + port.toNat / 8) (port.toNat % 8) width :=
      ⟨fun ⟨_, hb, h⟩ => Except.ok.inj hb ▸ h, fun h => ⟨base, rfl, h⟩⟩
    have hgoes : (∀ b, Except.ok base = Except.ok (ε := Fault) b → GoesBy p tr ram port width b) ↔
        GoesBy p tr ram port width base := ⟨fun h => h base rfl, fun h b hb => Except.ok.inj hb ▸ h⟩
    rw [hpermits, hgoes]
    unfold GoesBy
    by_cases hmap : HasMap tr
    · have hpasses : Passes p tr ram port width ↔
          Clear p tr ram ((base.toNat + port.toNat / 8) % 2 ^ 16) (port.toNat % 8) width := by
        rw [passes_iff hmap, hbase]
        exact ⟨fun ⟨_, hb, h⟩ => Except.ok.inj hb ▸ h, fun h => ⟨base, rfl, h⟩⟩
      rw [hpasses]
      constructor
      · exact fun h => .inl ⟨hmap, .inr h⟩
      · rintro (⟨-, hsum | h⟩ | ⟨hnot, -⟩)
        · rw [Nat.mod_eq_of_lt hsum]
        · exact h
        · exact absurd hmap hnot
    · constructor
      · exact fun h => .inr ⟨hmap, fun hclear => not_passes hmap (h.mpr hclear)⟩
      · rintro (⟨hyes, -⟩ | ⟨-, hclear⟩)
        · exact absurd hyes hmap
        · exact ⟨fun h => absurd h (not_passes hmap), fun h => absurd h hclear⟩

end

/-- A TSS of 128 KB, its map base `0xffff`. -/
def largeTss : SystemRegister where
  selector := 0x28
  super := .xtndBusyTss
  limit := 0x1ffff

/-- Every bit of the bitmap is set. -/
def deniesAll : Ram := fun a => if a = 0x66 ∨ a = 0x67 ∨ a ≥ 0xffff then 0xff else 0

/-- Port 8 is denied, and passes: its bits are sought at the beginning of the TSS. -/
theorem io_map_not_exact :
    Passes ⟨false, 3, fun _ => none⟩ largeTss deniesAll 8 .byte ∧
      ¬Permits ⟨false, 3, fun _ => none⟩ largeTss deniesAll 8 .byte := by
  constructor
  · exact ⟨deniesAll, by rfl⟩
  · rintro ⟨base, hbase, -, word, hword, hbits⟩
    obtain rfl : 0xffff = base := Except.ok.inj hbase
    obtain rfl : 0xffff = word := Except.ok.inj hword
    exact absurd (hbits 0 (by decide)) (by decide)

end SoftPC.Ccpu
