import SoftPC.Keymouse.KeyboardExits
import SoftPC.Machinery.Numerals
import Mathlib.Data.Fin.VecNotation

/-!
# Keymouse/ShiftState — the shift state of the BIOS follows the keys that are held

    keyboard ──codes──▸ keyboard_int ──▸ kb_flag, kb_flag_1, kb_flag_3

`Keyboard` is what a 101-key keyboard shows: the keys held, and the locks.  A lock changes on the first make code of
a press that finds it free; Ctrl keeps every lock from changing, and Alt and the digits of the keypad keep Insert.
-/

namespace SoftPC.BiosKeyboard

open Bits

/-! ## The keyboard -/

/-- A key: whether the E0 marker goes before its code, and the code. -/
abbrev Key := Bool × BitVec 8

/-- The locks. -/
inductive Lock where
  | scroll
  | num
  | caps
  | ins
  deriving DecidableEq

def Lock.code : Lock → BitVec 8
  | .scroll => 0x46
  | .num => 0x45
  | .caps => 0x3a
  | .ins => 0x52

/-- The keys held, whether the press of a lock has counted, the locks, and whether the last code was the E0 marker. -/
structure Keyboard where
  held : Key → Bool
  counted : Lock → Bool
  state : Lock → Bool
  e0 : Bool

def leftShift : Key := (false, 0x2a)
def rightShift : Key := (false, 0x36)
def leftCtl : Key := (false, 0x1d)
def rightCtl : Key := (true, 0x1d)
def leftAlt : Key := (false, 0x38)
def rightAlt : Key := (true, 0x38)

/-- The grey keys, and the shifts that a keyboard puts around some of them. -/
def greyCodes : List (BitVec 8) :=
  [0x1c, 0x1d, 0x35, 0x37, 0x38, 0x47, 0x48, 0x49, 0x4b, 0x4d, 0x4f, 0x50, 0x51, 0x52, 0x53, 0x2a, 0x36]

namespace Keyboard

variable (k : Keyboard) (byte : BitVec 8)

def shift : Bool := k.held leftShift || k.held rightShift
def ctl : Bool := k.held leftCtl || k.held rightCtl
def alt : Bool := k.held leftAlt || k.held rightAlt

/-- The keypad gives digits. -/
def digits : Bool := k.state .num ^^ k.shift

/-- A make code of the lock's key changes it. -/
def free (l : Lock) : Bool := !k.ctl && (l != .ins || !k.alt && (k.e0 || !k.digits))

/-- A key goes down, or up. -/
def strike : Keyboard :=
  let code := byte &&& 0x7f
  let make := byte &&& 0x80 = 0
  { k with
    held := Function.update k.held (k.e0, code) make
    counted := fun l => if l.code = code then make && (k.counted l || k.free l) else k.counted l
    state := fun l => if l.code = code then k.state l ^^ (make && k.free l && !k.counted l) else k.state l }

/-- A code is sent. -/
def next : Keyboard := if byte = 0xe0 then { k with e0 := true } else { k.strike byte with e0 := false }

/-- The codes of a 101-key keyboard, but for Pause and SysRq. -/
def Sends : Prop :=
  if k.e0 then byte ≠ 0xe0 ∧ byte &&& 0x7f ∈ greyCodes
  else byte = 0xe0 ∨ (0 < byte &&& 0x7f ∧ byte &&& 0x7f ≤ 0x58 ∧ byte &&& 0x7f ≠ 0x54)

/-- Ctrl-Alt-Del. -/
def ResetChord : Prop := byte = 0x53 ∧ k.ctl ∧ k.alt

/-- The left Ctrl or Alt is released while the right one is held. -/
def LeftOfTwo : Prop := k.e0 = false ∧ (byte = 0x9d ∧ k.held rightCtl ∨ byte = 0xb8 ∧ k.held rightAlt)

/-- After POST: no key is held, and Num Lock is on. -/
def idle : Keyboard where
  held _ := false
  counted _ := false
  state l := l = .num
  e0 := false

/-- The bits of `kb_flag`, `kb_flag_1` and `kb_flag_3`. -/
def flagBits : Fin 8 → Bool :=
  ![k.held rightShift, k.held leftShift, k.ctl, k.alt, k.state .scroll, k.state .num, k.state .caps, k.state .ins]

def flag1Bits : Fin 8 → Bool :=
  ![k.held leftCtl, k.held leftAlt, false, false, k.counted .scroll, k.counted .num, k.counted .caps, k.counted .ins]

def flag3Bits : Fin 8 → Bool := ![false, k.e0, k.held rightCtl, k.held rightAlt, true, false, false, false]

end Keyboard

/-- **The flags follow the keyboard.** -/
structure Follows (k : Keyboard) (s : Bios) : Prop where
  flag : s.flag = ofBits k.flagBits
  flag1 : s.flag1 = ofBits k.flag1Bits
  flag3 : s.flag3 = ofBits k.flag3Bits
  lights : s.flag2 &&& 0x47 = lightsOf s.flag
  valid : s.area.Valid

variable {g : Guest} {t : Tables} {k : Keyboard} {s s' : Bios} {byte v : BitVec 8} {fuel : ℕ}

/-! ## What the flags say of the keyboard -/

namespace Follows

variable (h : Follows k s)

/-- A bit of `kb_flag`… -/
theorem flag_bit (h : Follows k s) {mask : BitVec 8} (i : Fin 8) (hm : mask = BitVec.twoPow 8 i) :
    s.flag &&& mask = 0 ↔ k.flagBits i = false := by
  rw [h.flag]
  exact ofBits_and_bit k.flagBits i hm

/-- …of `kb_flag_1`… -/
theorem flag1_bit (h : Follows k s) {mask : BitVec 8} (i : Fin 8) (hm : mask = BitVec.twoPow 8 i) :
    s.flag1 &&& mask = 0 ↔ k.flag1Bits i = false := by
  rw [h.flag1]
  exact ofBits_and_bit k.flag1Bits i hm

/-- …and of `kb_flag_3`. -/
theorem flag3_bit (h : Follows k s) {mask : BitVec 8} (i : Fin 8) (hm : mask = BitVec.twoPow 8 i) :
    s.flag3 &&& mask = 0 ↔ k.flag3Bits i = false := by
  rw [h.flag3]
  exact ofBits_and_bit k.flag3Bits i hm

theorem e0 (h : Follows k s) : s.e0 = k.e0 := by
  rw [Bios.e0, Bool.eq_iff_iff, decide_eq_true_iff, Ne, h.flag3_bit 1 (by decide), Bool.not_eq_false]
  rfl

theorem numeric (h : Follows k s) : s.numeric = k.digits := by
  rw [Bios.numeric, h.flag, Bool.eq_iff_iff, decide_eq_true_iff, ofBits_and_eq_iff, ofBits_and_eq_iff, Ne,
    ofBits_and_eq_iff]
  simp only [Fin.forall_fin_succ, Keyboard.flagBits, Keyboard.digits, Keyboard.shift]
  cases k.state .num <;> cases k.held leftShift <;> cases k.held rightShift <;> simp

/-- No marker is on. -/
theorem unmarked (h : Follows k s) (he0 : k.e0 = false) : s.flag3 &&& marks = 0 := by
  rw [marks_eq_zero_iff, h.flag3_bit 1 (by decide), h.flag3_bit 0 (by decide)]
  exact ⟨he0, rfl⟩

/-- The lights are as they should be. -/
theorem settled (h : Follows k s) : ¬s.LightsDue := by
  rw [lightsDue_iff h.lights, BitVec.xor_self]
  exact not_not.mpr BitVec.zero_and

/-- The flags stored, and the locks left. -/
theorem step {k' : Keyboard} (h : Follows k s) (hunlocked : Unlocked s s') (hflag2 : s'.flag2 = s.flag2)
    (hflag : s'.flag = ofBits k'.flagBits) (hflag1 : s'.flag1 = ofBits k'.flag1Bits)
    (hflag3 : s'.flag3 = ofBits k'.flag3Bits) : Follows k' s' where
  flag := hflag
  flag1 := hflag1
  flag3 := hflag3
  lights := by rw [hflag2, h.lights, lightsOf, lightsOf, hunlocked.locks]
  valid := hunlocked.valid h.valid

end Follows

/-! ## A key goes down or up -/

/-- The keys that set a bit. -/
inductive ShiftKey where
  | leftShift
  | rightShift
  | leftCtl
  | rightCtl
  | leftAlt
  | rightAlt

namespace ShiftKey

def key : ShiftKey → Key
  | leftShift => BiosKeyboard.leftShift
  | rightShift => BiosKeyboard.rightShift
  | leftCtl => BiosKeyboard.leftCtl
  | rightCtl => BiosKeyboard.rightCtl
  | leftAlt => BiosKeyboard.leftAlt
  | rightAlt => BiosKeyboard.rightAlt

def mask : ShiftKey → BitVec 8
  | leftShift => 0x02
  | rightShift => 0x01
  | leftCtl => 0x04
  | rightCtl => 0x04
  | leftAlt => 0x08
  | rightAlt => 0x08

end ShiftKey

/-- A key that is no lock's. -/
def Keyboard.hold (k : Keyboard) (key : Key) (down : Bool) : Keyboard :=
  { k with held := Function.update k.held key down }

theorem raise_apply (s : Bios) (o p : ℕ) (m : BitVec 8) :
    (s.raise o m).area p = if p = o then s.area o ||| m else s.area p := Function.update_apply ..

theorem clear_apply (s : Bios) (o p : ℕ) (m : BitVec 8) :
    (s.clear o m).area p = if p = o then s.area o &&& ~~~m else s.area p := Function.update_apply ..

/-- Left and right are told apart by the marker. -/
theorem makeShift_eq (s : Bios) (mask : BitVec 8) : (s.makeShift mask).1 =
    if mask &&& 0x0c = 0 then s.raise kbFlagAt mask
    else if s.e0 then (s.raise kbFlagAt mask).raise kbFlag3At mask
    else (s.raise kbFlagAt mask).raise kbFlag1At (mask >>> 2) := by
  have he0 : (s.raise kbFlagAt mask).e0 = s.e0 :=
    congrArg (fun x : BitVec 8 => decide (x &&& 0x02 ≠ 0)) (store_of_ne (by decide))
  rw [Bios.makeShift]
  by_cases hmask : mask &&& 0x0c = 0
  · rw [if_neg (not_not.mpr hmask), if_pos hmask]
  · rw [if_pos hmask, if_neg hmask, he0]

/-- The bits of a byte as they are said to be. -/
theorem ofBits_congr {f f' : Fin 8 → Bool} (h : ∀ i, f i = f' i) : ofBits f = ofBits f' := congrArg _ (funext h)

theorem makeShift_flag (s : Bios) (mask : BitVec 8) : (s.makeShift mask).1.flag = s.flag ||| mask := by
  rw [makeShift_eq, Bios.flag]
  split_ifs <;> simp [raise_apply, Bios.flag, kbFlagAt, kbFlag1At, kbFlag3At]

theorem makeShift_flag1 (s : Bios) (mask : BitVec 8) : (s.makeShift mask).1.flag1 =
    if mask &&& 0x0c = 0 ∨ s.e0 then s.flag1 else s.flag1 ||| mask >>> 2 := by
  rw [makeShift_eq, Bios.flag1]
  split_ifs <;> simp_all [raise_apply, Bios.flag1, kbFlagAt, kbFlag1At, kbFlag3At]

theorem makeShift_flag3 (s : Bios) (mask : BitVec 8) : (s.makeShift mask).1.flag3 =
    if mask &&& 0x0c = 0 ∨ ¬s.e0 then s.flag3 else s.flag3 ||| mask := by
  rw [makeShift_eq, Bios.flag3]
  split_ifs <;> simp_all [raise_apply, Bios.flag3, kbFlagAt, kbFlag1At, kbFlag3At]

theorem makeShift_flag2 (s : Bios) (mask : BitVec 8) : (s.makeShift mask).1.flag2 = s.flag2 := by
  rw [makeShift_eq, Bios.flag2]
  split_ifs <;> simp [raise_apply, Bios.flag2, kbFlagAt, kbFlag1At, kbFlag2At, kbFlag3At]

/-- **A shift key is pressed.** -/
theorem makeShift_follows (x : ShiftKey) (h : Follows k s) (he0 : x.mask &&& 0x0c ≠ 0 → k.e0 = x.key.1) :
    Follows (k.hold x.key true) (s.makeShift x.mask).1 := by
  refine h.step (makeShift_unlocked s (by cases x <;> decide)) (makeShift_flag2 ..) ?_ ?_ ?_
  · rw [makeShift_flag, h.flag, ofBits_or]
    refine ofBits_congr ?_
    cases x <;> simp [Fin.forall_fin_succ, ShiftKey.mask, ShiftKey.key, Keyboard.hold, Keyboard.flagBits, Keyboard.ctl,
      Keyboard.alt, leftShift, rightShift, leftCtl, rightCtl, leftAlt, rightAlt]
  · rw [makeShift_flag1, h.e0, h.flag1, ofBits_or]
    cases x <;> simp_all [ShiftKey.mask, ShiftKey.key] <;> refine ofBits_congr ?_ <;>
      simp [Fin.forall_fin_succ, Keyboard.hold, Keyboard.flag1Bits, leftShift, rightShift, leftCtl, rightCtl, leftAlt, rightAlt]
  · rw [makeShift_flag3, h.e0, h.flag3, ofBits_or]
    cases x <;> simp_all [ShiftKey.mask, ShiftKey.key] <;> refine ofBits_congr ?_ <;>
      simp [Fin.forall_fin_succ, Keyboard.hold, Keyboard.flag3Bits, leftShift, rightShift, leftCtl, rightCtl, leftAlt, rightAlt]

/-- The flags of a key that is released, left and right told apart. -/
theorem releaseBits_eq (s : Bios) (mask : BitVec 8) : s.releaseBits mask =
    let s1 := s.clear kbFlagAt mask
    if ¬0x04 ≤ mask then s1
    else if s.e0 then
      (s1.clear kbFlag3At mask).raise kbFlagAt ((((s.flag &&& ~~~mask) >>> 2 ||| s.flag1) <<< 2) &&& 0x0c)
    else (s1.clear kbFlag1At (mask >>> 2)).raise kbFlagAt
      ((((s.flag &&& ~~~mask) >>> 2 ||| s.flag1 &&& ~~~(mask >>> 2)) <<< 2) &&& 0x0c) := by
  have he0 : (s.clear kbFlagAt mask).e0 = s.e0 :=
    congrArg (fun x : BitVec 8 => decide (x &&& 0x02 ≠ 0)) (store_of_ne (by decide))
  rw [Bios.releaseBits]
  dsimp only
  split_ifs <;> simp_all [Bios.flag, Bios.flag1, clear_apply, kbFlagAt, kbFlag1At, kbFlag3At]

theorem releaseBits_flag (s : Bios) (mask : BitVec 8) : (s.releaseBits mask).flag =
    if ¬0x04 ≤ mask then s.flag &&& ~~~mask
    else s.flag &&& ~~~mask ||| ((((s.flag &&& ~~~mask) >>> 2 |||
      if s.e0 then s.flag1 else s.flag1 &&& ~~~(mask >>> 2)) <<< 2) &&& 0x0c) := by
  rw [releaseBits_eq, Bios.flag]
  dsimp only
  split_ifs <;> simp [raise_apply, clear_apply, Bios.flag, kbFlagAt, kbFlag1At, kbFlag3At]

theorem releaseBits_flag1 (s : Bios) (mask : BitVec 8) : (s.releaseBits mask).flag1 =
    if ¬0x04 ≤ mask ∨ s.e0 then s.flag1 else s.flag1 &&& ~~~(mask >>> 2) := by
  rw [releaseBits_eq, Bios.flag1]
  dsimp only
  split_ifs <;> simp_all [raise_apply, clear_apply, Bios.flag1, kbFlagAt, kbFlag1At, kbFlag3At]

theorem releaseBits_flag3 (s : Bios) (mask : BitVec 8) : (s.releaseBits mask).flag3 =
    if ¬0x04 ≤ mask ∨ ¬s.e0 then s.flag3 else s.flag3 &&& ~~~mask := by
  rw [releaseBits_eq, Bios.flag3]
  dsimp only
  split_ifs <;> simp_all [raise_apply, clear_apply, Bios.flag3, kbFlagAt, kbFlag1At, kbFlag3At]

theorem releaseBits_flag2 (s : Bios) (mask : BitVec 8) : (s.releaseBits mask).flag2 = s.flag2 := by
  rw [releaseBits_eq, Bios.flag2]
  dsimp only
  split_ifs <;> simp [raise_apply, clear_apply, Bios.flag2, kbFlagAt, kbFlag1At, kbFlag2At, kbFlag3At]

/-- The key on the right. -/
def ShiftKey.right : ShiftKey → Option Key
  | leftCtl => some BiosKeyboard.rightCtl
  | leftAlt => some BiosKeyboard.rightAlt
  | _ => none

/-- **A shift key is released**, and is not the left one of two that are held. -/
theorem releaseBits_follows (x : ShiftKey) (h : Follows k s) (he0 : x.mask &&& 0x0c ≠ 0 → k.e0 = x.key.1)
    (hright : ∀ key ∈ x.right, k.held key = false) : Follows (k.hold x.key false) (s.releaseBits x.mask) := by
  refine h.step (releaseBits_unlocked s (by cases x <;> decide)) (releaseBits_flag2 ..) ?_ ?_ ?_
  · rw [releaseBits_flag, h.e0, h.flag1, h.flag, ofBits_and_not, ofBits_and_not]
    refine eq_of_bits ?_
    cases x <;> simp_all [ShiftKey.mask, ShiftKey.key, ShiftKey.right] <;>
      simp_all [Fin.forall_fin_succ, Keyboard.hold, Keyboard.flagBits, Keyboard.flag1Bits, Keyboard.ctl, Keyboard.alt,
        leftShift, rightShift, leftCtl, rightCtl, leftAlt, rightAlt]
  · rw [releaseBits_flag1, h.e0, h.flag1, ofBits_and_not]
    cases x <;> simp_all [ShiftKey.mask, ShiftKey.key] <;> refine ofBits_congr ?_ <;>
      simp [Fin.forall_fin_succ, Keyboard.hold, Keyboard.flag1Bits, leftShift, rightShift, leftCtl, rightCtl, leftAlt, rightAlt]
  · rw [releaseBits_flag3, h.e0, h.flag3, ofBits_and_not]
    cases x <;> simp_all [ShiftKey.mask, ShiftKey.key] <;> refine ofBits_congr ?_ <;>
      simp [Fin.forall_fin_succ, Keyboard.hold, Keyboard.flag3Bits, leftShift, rightShift, leftCtl, rightCtl, leftAlt, rightAlt]

/-- Any other key. -/
theorem hold_other (h : Follows k s) {key : Key} (hother : ∀ x : ShiftKey, x.key ≠ key) (down : Bool) :
    Follows (k.hold key down) s := by
  have hheld (x : ShiftKey) : (k.hold key down).held x.key = k.held x.key := Function.update_of_ne (hother x) ..
  have hls := hheld .leftShift
  have hrs := hheld .rightShift
  have hlc := hheld .leftCtl
  have hrc := hheld .rightCtl
  have hla := hheld .leftAlt
  have hra := hheld .rightAlt
  simp only [ShiftKey.key] at hls hrs hlc hrc hla hra
  refine h.step (.refl s) rfl ?_ ?_ ?_
  · rw [h.flag, Keyboard.flagBits, Keyboard.flagBits, Keyboard.ctl, Keyboard.ctl, Keyboard.alt, Keyboard.alt, hls, hrs,
      hlc, hrc, hla, hra]
    rfl
  · rw [h.flag1, Keyboard.flag1Bits, Keyboard.flag1Bits, hlc, hla]
    rfl
  · rw [h.flag3, Keyboard.flag3Bits, Keyboard.flag3Bits, hrc, hra]
    rfl

/-! ## A lock -/

def Lock.mask : Lock → BitVec 8
  | .scroll => 0x10
  | .num => 0x20
  | .caps => 0x40
  | .ins => 0x80

/-- A lock changes. -/
def Keyboard.flip (k : Keyboard) (l : Lock) : Keyboard :=
  { k with counted := Function.update k.counted l true, state := Function.update k.state l (!k.state l) }

/-- The press of a lock's key is over. -/
def Keyboard.rest (k : Keyboard) (l : Lock) : Keyboard := { k with counted := Function.update k.counted l false }

theorem toggle_flag (hg : g.Lawful) (s : Bios) (mask : BitVec 8) : (s.toggle g mask).flag = s.flag ^^^ mask := by
  have hstored : ((s.raise kbFlag1At mask).store kbFlagAt ((s.raise kbFlag1At mask).flag ^^^ mask)).flag =
      s.flag ^^^ mask := store_same.trans (congrArg (· ^^^ mask) (store_of_ne (by decide)))
  rw [Bios.toggle]
  split
  · exact (checkIndicators_framed hg _ true).flag.trans hstored
  · exact hstored

theorem toggle_flag1 (hg : g.Lawful) (s : Bios) (mask : BitVec 8) : (s.toggle g mask).flag1 = s.flag1 ||| mask := by
  have hstored : ((s.raise kbFlag1At mask).store kbFlagAt ((s.raise kbFlag1At mask).flag ^^^ mask)).flag1 =
      s.flag1 ||| mask := (store_of_ne (by decide)).trans store_same
  rw [Bios.toggle]
  split
  · exact (checkIndicators_framed hg _ true).flag1.trans hstored
  · exact hstored

theorem toggle_valid (hg : g.Lawful) (s : Bios) (mask : BitVec 8) (h : s.area.Valid) :
    (s.toggle g mask).area.Valid := by
  rcases toggle_counted hg s mask with hunlocked | ⟨-, -, -, -, -, hvalid⟩
  · exact hunlocked.valid h
  · exact hvalid h

theorem lights_idle (h : s.flag2 &&& 0x47 = lightsOf s.flag) : s.flag2 &&& 0x40 = 0 := by
  calc s.flag2 &&& 0x40 = s.flag2 &&& 0x47 &&& 0x40 := by rw [BitVec.and_assoc]; rfl
    _ = 0 := by rw [h, lightsOf_idle]

theorem toggle_lights (hg : g.Lawful) (h : s.flag2 &&& 0x47 = lightsOf s.flag) (l : Lock) :
    (s.toggle g l.mask).flag2 &&& 0x47 = lightsOf (s.flag ^^^ l.mask) := by
  have hflag : ((s.raise kbFlag1At l.mask).store kbFlagAt ((s.raise kbFlag1At l.mask).flag ^^^ l.mask)).flag =
      s.flag ^^^ l.mask := store_same.trans (congrArg (· ^^^ l.mask) (store_of_ne (by decide)))
  have hflag2 : ((s.raise kbFlag1At l.mask).store kbFlagAt ((s.raise kbFlag1At l.mask).flag ^^^ l.mask)).flag2 =
      s.flag2 := (store_of_ne (by decide)).trans (store_of_ne (by decide))
  rw [Bios.toggle]
  split
  · rw [checkIndicators_synced hg (by rw [hflag2]; exact lights_idle h), Bios.indicators, hflag]
    rfl
  · rename_i hins
    rw [hflag2, h]
    cases l with
    | ins =>
      rw [← hflag, hflag]
      generalize s.flag = x
      revert x
      decide
    | scroll => exact absurd (by decide) hins
    | num => exact absurd (by decide) hins
    | caps => exact absurd (by decide) hins

/-- **A lock changes.** -/
theorem toggle_follows (hg : g.Lawful) (h : Follows k s) (l : Lock) (he0 : l ≠ .ins → k.e0 = false) :
    Follows (k.flip l) (s.toggle g l.mask) where
  flag := by
    rw [toggle_flag hg, h.flag, ofBits_xor]
    refine ofBits_congr ?_
    cases l <;> simp [Fin.forall_fin_succ, Lock.mask, Keyboard.flip, Keyboard.flagBits, Keyboard.ctl, Keyboard.alt]
  flag1 := by
    rw [toggle_flag1 hg, h.flag1, ofBits_or]
    refine ofBits_congr ?_
    cases l <;> simp [Fin.forall_fin_succ, Lock.mask, Keyboard.flip, Keyboard.flag1Bits]
  flag3 := by
    refine Eq.trans ?_ h.flag3
    by_cases hins : l = .ins
    · rw [hins, Bios.toggle, if_neg (by decide)]
      exact (store_of_ne (by decide)).trans (store_of_ne (by decide))
    · rcases toggle_flag3 hg s l.mask with hsame | hcleared
      · exact hsame
      · exact hcleared.trans (clear_of_clear (h.unmarked (he0 hins)))
  lights := by
    rw [toggle_lights hg h.lights, toggle_flag hg]
  valid := toggle_valid hg s _ h.valid

/-- The key of a lock is released. -/
theorem rest_follows (h : Follows k s) (l : Lock) : Follows (k.rest l) (s.clear kbFlag1At l.mask) := by
  refine h.step (.store s (by decide) _) (store_of_ne (by decide)) ?_ ?_ ?_
  · exact (store_of_ne (by decide)).trans h.flag
  · have hcleared : (s.clear kbFlag1At l.mask).flag1 = s.flag1 &&& ~~~l.mask := store_same
    rw [hcleared, h.flag1, ofBits_and_not]
    refine ofBits_congr ?_
    cases l <;> simp [Fin.forall_fin_succ, Lock.mask, Keyboard.rest, Keyboard.flag1Bits]
  · exact (store_of_ne (by decide)).trans h.flag3

/-- A lock is free as the flags say. -/
theorem free_iff (h : Follows k s) (l : Lock) :
    (s.flag &&& 0x04 = 0 ∧ ¬(l.code = 82 ∧ (s.flag &&& 0x08 ≠ 0 ∨ (¬s.e0 ∧ s.numeric)))) ↔ k.free l = true := by
  have hins : l.code = 82 ↔ l = .ins := by cases l <;> decide
  rw [h.flag_bit 2 (by decide), Ne, h.flag_bit 3 (by decide), h.e0, h.numeric, hins, Keyboard.free]
  have hctl : k.flagBits 2 = k.ctl := rfl
  have halt : k.flagBits 3 = k.alt := rfl
  rw [hctl, halt]
  cases l <;> cases k.ctl <;> cases k.alt <;> cases k.e0 <;> cases k.digits <;> simp

/-- The press of a lock has counted, as the flags say. -/
theorem counted_iff (h : Follows k s) (l : Lock) : l.mask &&& s.flag1 ≠ 0 ↔ k.counted l = true := by
  rw [BitVec.and_comm, Ne, ← Bool.not_eq_false]
  refine not_congr ?_
  cases l with
  | scroll => exact h.flag1_bit 4 (by decide)
  | num => exact h.flag1_bit 5 (by decide)
  | caps => exact h.flag1_bit 6 (by decide)
  | ins => exact h.flag1_bit 7 (by decide)

/-! ## A code -/

theorem lock_key (l : Lock) (x : ShiftKey) : l.code ≠ x.key.2 := by cases l <;> cases x <;> decide

theorem lock_code_inj {l l' : Lock} (h : l.code = l'.code) : l = l' := by
  revert h
  cases l <;> cases l' <;> decide

/-- A key that is no lock's… -/
theorem strike_hold (k : Keyboard) (hl : ∀ l : Lock, l.code ≠ byte &&& 0x7f) :
    k.strike byte = k.hold (k.e0, byte &&& 0x7f) (decide (byte &&& 0x80 = 0)) := by
  rw [Keyboard.strike, Keyboard.hold]
  congr 1
  · exact funext fun l => if_neg (hl l)
  · exact funext fun l => if_neg (hl l)

/-- …and a lock's, pressed… -/
theorem strike_press (k : Keyboard) {l : Lock} (hl : byte &&& 0x7f = l.code) (hmake : byte &&& 0x80 = 0) :
    k.strike byte = (if k.free l && !k.counted l then k.flip l else k).hold (k.e0, l.code) true := by
  have hcode (l' : Lock) : l'.code = l.code ↔ l' = l := ⟨lock_code_inj, congrArg _⟩
  rw [Keyboard.strike]
  simp only [hl, hmake, hcode]
  cases hchange : k.free l && !k.counted l with
  | true =>
    obtain ⟨hfree, hcounted⟩ := Bool.and_eq_true_iff.mp hchange
    rw [if_pos rfl, Keyboard.flip, Keyboard.hold]
    congr 1
    · funext l'
      by_cases heq : l' = l
      · simp [heq, hfree]
      · simp [heq]
    · funext l'
      by_cases heq : l' = l
      · simp [heq, hfree, hcounted]
      · simp [heq]
  | false =>
    rw [if_neg Bool.false_ne_true, Keyboard.hold]
    congr 1
    · funext l'
      by_cases heq : l' = l
      · subst heq
        revert hchange
        cases k.free l' <;> cases k.counted l' <;> simp
      · simp [heq]
    · funext l'
      by_cases heq : l' = l
      · simp [heq, hchange]
      · simp [heq]

/-- …and released. -/
theorem strike_release (k : Keyboard) {l : Lock} (hl : byte &&& 0x7f = l.code) (hbreak : byte &&& 0x80 ≠ 0) :
    k.strike byte = (k.rest l).hold (k.e0, l.code) false := by
  have hcode (l' : Lock) : l'.code = l.code ↔ l' = l := ⟨lock_code_inj, congrArg _⟩
  rw [Keyboard.strike, Keyboard.hold, Keyboard.rest]
  simp only [hl, hbreak, hcode, decide_false, Bool.false_and, Bool.xor_false, ite_self]
  congr 1
  funext l'
  by_cases heq : l' = l
  · simp [heq]
  · simp [heq]

theorem makeToggle_follows (hg : g.Lawful) (h : Follows k s) (l : Lock) (he0 : l ≠ .ins → k.e0 = false) :
    Follows (if k.free l && !k.counted l then k.flip l else k) (s.makeToggle g t l.mask l.code).1 := by
  rw [Bios.makeToggle]
  by_cases hfree : k.free l = true
  · rw [if_pos ((free_iff h l).mpr hfree), hfree, Bool.true_and]
    by_cases hcounted : k.counted l = true
    · rw [if_pos ((counted_iff h l).mpr hcounted), hcounted, if_neg (by decide)]
      exact h
    · rw [if_neg ((counted_iff h l).not.mpr hcounted), Bool.eq_false_iff.mpr hcounted, if_pos (by decide)]
      dsimp only
      split
      · exact toggle_follows hg h l he0
      · exact toggle_follows hg h l he0
  · rw [if_neg ((free_iff h l).not.mpr hfree), Bool.eq_false_iff.mpr hfree, Bool.false_and, if_neg Bool.false_ne_true,
      Bios.testHold, if_neg (by cases l <;> decide), if_neg (not_not.mpr ((h.flag1_bit 3 (by decide)).mpr rfl))]
    exact h

/-- What the keyboard sends is looked up as it is. -/
theorem marked_eq_none (h : Follows k s) (hfake : ¬(k.e0 = true ∧ (byte &&& 0x7f = 0x2a ∨ byte &&& 0x7f = 0x36)))
    (hsys : k.e0 = false → byte &&& 0x7f ≠ 84) : s.marked s.flag3 byte = none := by
  rw [Bios.marked]
  cases he0 : k.e0 with
  | true =>
    have hmark : s.flag3 &&& 0x02 ≠ 0 := fun hclear => by
      have hbit : k.e0 = false := (h.flag3_bit 1 (by decide)).mp hclear
      rw [he0] at hbit
      exact Bool.noConfusion hbit
    rw [if_pos hmark, if_neg fun hcode => hfake ⟨he0, hcode⟩]
  | false =>
    have hmark : s.flag3 &&& 0x02 = 0 := (h.flag3_bit 1 (by decide)).mpr he0
    have hone : s.flag3 &&& 0x01 = 0 := (h.flag3_bit 0 (by decide)).mpr rfl
    rw [if_neg (not_not.mpr hmark), if_neg (not_not.mpr hone), if_neg (hsys he0)]

theorem make_code (h : byte &&& 0x80 = 0) : byte &&& 0x7f = byte := by
  revert byte
  decide

theorem break_code (h : byte &&& 0x80 ≠ 0) : byte = byte &&& 0x7f ||| 0x80 := by
  revert byte
  decide

theorem scan_lock (hg : g.Lawful) (h : Follows k s) (hmarked : s.marked s.flag3 byte = none) {l : Lock}
    (hl : byte &&& 0x7f = l.code) (he0 : l ≠ .ins → k.e0 = false) :
    Follows (k.strike byte) (s.scan g t s.flag3 byte).1 := by
  have hother (x : ShiftKey) : x.key ≠ (k.e0, l.code) := fun heq => lock_key l x (congrArg Prod.snd heq).symm
  have hmask : shiftMask l.code = some l.mask := by cases l <;> decide
  rw [Bios.scan, hmarked, hl, hmask]
  dsimp only
  by_cases hmake : byte &&& 0x80 = 0
  · have hcode : byte = l.code := (make_code hmake).symm.trans hl
    have hhigh : ¬l.mask < 0x10 := by cases l <;> decide
    rw [if_neg (not_not.mpr hmake), if_neg hhigh, strike_press k hl hmake, hcode]
    exact hold_other (makeToggle_follows hg h l he0) hother true
  · rw [strike_release k hl hmake, if_pos hmake, Bios.breakShift, if_pos (by cases l <;> decide)]
    exact hold_other (rest_follows h l) hother false

theorem scan_shift (h : Follows k s) (hmarked : s.marked s.flag3 byte = none) {x : ShiftKey}
    (hx : (k.e0, byte &&& 0x7f) = x.key) (hslip : ¬k.LeftOfTwo byte) :
    Follows (k.strike byte) (s.scan g t s.flag3 byte).1 := by
  have hcode : byte &&& 0x7f = x.key.2 := congrArg Prod.snd hx
  have he0 : k.e0 = x.key.1 := congrArg Prod.fst hx
  have hmask : shiftMask (byte &&& 0x7f) = some x.mask := by rw [hcode]; cases x <;> decide
  rw [strike_hold k fun l => hcode ▸ lock_key l x, hx, Bios.scan, hmarked, hmask]
  dsimp only
  by_cases hmake : byte &&& 0x80 = 0
  · rw [if_neg (not_not.mpr hmake), if_pos (by cases x <;> decide), decide_eq_true hmake]
    exact makeShift_follows x h fun _ => he0
  · rw [if_pos hmake, decide_eq_false hmake, Bios.breakShift, if_neg (by cases x <;> decide)]
    have hreleased : Follows (k.hold x.key false) (s.releaseBits x.mask) := by
      refine releaseBits_follows x h (fun _ => he0) fun key hkey => ?_
      have hbyte : byte = x.key.2 ||| 0x80 := hcode ▸ break_code hmake
      by_contra hheld
      refine hslip ?_
      cases x with
      | leftCtl => exact ⟨he0, .inl ⟨hbyte, by rw [← Option.some.inj hkey] at hheld; exact Bool.not_eq_false _ ▸ hheld⟩⟩
      | leftAlt => exact ⟨he0, .inr ⟨hbyte, by rw [← Option.some.inj hkey] at hheld; exact Bool.not_eq_false _ ▸ hheld⟩⟩
      | _ => cases hkey
    dsimp only
    split
    · exact hreleased
    · exact hreleased.step (.store _ (by decide) _) (store_of_ne (by decide))
        ((store_of_ne (by decide)).trans hreleased.flag) ((store_of_ne (by decide)).trans hreleased.flag1)
        ((store_of_ne (by decide)).trans hreleased.flag3)

/-- A code that is no shift key's. -/
theorem scan_other (h : Follows k s) (hmarked : s.marked s.flag3 byte = none) (hcode : byte &&& 0x7f ∉ shiftKeys) :
    Follows (k.strike byte) (s.scan g t s.flag3 byte).1 := by
  have hmask : shiftMask (byte &&& 0x7f) = none := by
    revert hcode
    generalize byte &&& 0x7f = code
    revert code
    decide
  have hlock (l : Lock) : l.code ≠ byte &&& 0x7f := fun heq => hcode (heq ▸ by cases l <;> decide)
  have hother (x : ShiftKey) : x.key ≠ (k.e0, byte &&& 0x7f) := fun heq => by
    have hkey : byte &&& 0x7f = x.key.2 := (congrArg Prod.snd heq).symm
    exact hcode (hkey ▸ by cases x <;> decide)
  rw [strike_hold k hlock, Bios.scan, hmarked, hmask, Bios.testHold]
  dsimp only
  refine hold_other ?_ hother _
  split
  · exact h
  · rw [if_neg (not_not.mpr ((h.flag1_bit 3 (by decide)).mpr rfl))]
    exact h

/-- A shift that the keyboard puts around a grey key. -/
theorem scan_fake (h : Follows k s) (he0 : k.e0 = true) (hcode : byte &&& 0x7f = 0x2a ∨ byte &&& 0x7f = 0x36) :
    Follows (k.strike byte) (s.scan g t s.flag3 byte).1 ∧ (s.scan g t s.flag3 byte).2 = .k26 := by
  have hmark : s.flag3 &&& 0x02 ≠ 0 := fun hclear => by
    have hbit : k.e0 = false := (h.flag3_bit 1 (by decide)).mp hclear
    rw [he0] at hbit
    exact Bool.noConfusion hbit
  have hmarked : s.marked s.flag3 byte = some (s, .k26) := by rw [Bios.marked, if_pos hmark, if_pos hcode]
  rw [Bios.scan, hmarked]
  refine ⟨?_, rfl⟩
  rw [strike_hold k fun l => by rcases hcode with hcode | hcode <;> rw [hcode] <;> cases l <;> decide, he0]
  exact hold_other h (fun x => by rcases hcode with hcode | hcode <;> rw [hcode] <;> cases x <;> decide) _

theorem scan_follows (hg : g.Lawful) (h : Follows k s) (hsends : k.Sends byte) (hbyte : byte ≠ 0xe0)
    (hchord : ¬k.ResetChord byte) (hslip : ¬k.LeftOfTwo byte) :
    Follows (k.strike byte) (s.scan g t s.flag3 byte).1 ∧ (s.scan g t s.flag3 byte).2.Only False False := by
  by_cases hfake : k.e0 = true ∧ (byte &&& 0x7f = 0x2a ∨ byte &&& 0x7f = 0x36)
  · obtain ⟨hfollows, hexit⟩ := scan_fake (g := g) (t := t) h hfake.1 hfake.2
    rw [hexit]
    exact ⟨hfollows, trivial⟩
  have hplain (he0 : k.e0 = false) : byte &&& 0x7f ≠ 84 := by
    rw [Keyboard.Sends, he0, if_neg Bool.false_ne_true] at hsends
    exact (hsends.resolve_left hbyte).2.2
  have hgrey (he0 : k.e0 = true) : byte &&& 0x7f ∈ greyCodes := by
    rw [Keyboard.Sends, he0, if_pos rfl] at hsends
    exact hsends.2
  have hmarked := marked_eq_none h hfake hplain
  refine ⟨?_, (scan_only hg hmarked).weaken (fun hold => ?_) fun hreset => hchord ?_⟩
  · by_cases hcode : byte &&& 0x7f ∈ shiftKeys
    · have hlock (l : Lock) (hl : byte &&& 0x7f = l.code) : Follows (k.strike byte) (s.scan g t s.flag3 byte).1 := by
        refine scan_lock hg h hmarked hl fun hins => Bool.eq_false_iff.mpr fun he0 => ?_
        have hmem := hgrey he0
        rw [hl] at hmem
        cases l with
        | ins => exact hins rfl
        | _ => exact absurd hmem (by decide)
      have hshift (x : ShiftKey) (hx : (k.e0, byte &&& 0x7f) = x.key) := scan_shift (g := g) (t := t) h hmarked hx hslip
      simp only [shiftKeys, List.mem_cons, List.not_mem_nil, or_false] at hcode
      rcases hcode with hcode | hcode | hcode | hcode | hcode | hcode | hcode | hcode
      · exact hlock .ins hcode
      · exact hlock .caps hcode
      · exact hlock .num hcode
      · exact hlock .scroll hcode
      · cases he0 : k.e0 with
        | true => exact hshift .rightAlt (Prod.ext he0 hcode)
        | false => exact hshift .leftAlt (Prod.ext he0 hcode)
      · cases he0 : k.e0 with
        | true => exact hshift .rightCtl (Prod.ext he0 hcode)
        | false => exact hshift .leftCtl (Prod.ext he0 hcode)
      · exact hshift .leftShift (Prod.ext (Bool.eq_false_iff.mpr fun he0 => hfake ⟨he0, .inl hcode⟩) hcode)
      · exact hshift .rightShift (Prod.ext (Bool.eq_false_iff.mpr fun he0 => hfake ⟨he0, .inr hcode⟩) hcode)
    · exact scan_other h hmarked hcode
  · exact Bool.noConfusion ((h.flag3_bit 4 (by decide)).mp hold)
  · have halt := (h.flag_bit 3 (by decide)).not.mp hreset.1
    have hctl := (h.flag_bit 2 (by decide)).not.mp hreset.2.1
    exact ⟨hreset.2.2, Bool.not_eq_false _ ▸ hctl, Bool.not_eq_false _ ▸ halt⟩

/-! ## A run of `keyboard_int` -/

/-- Following the flags through what leaves them. -/
theorem Follows.keeps (h : Follows k s) (hkeeps : Keeps s s') : Follows k s' where
  flag := hkeeps.flag.trans h.flag
  flag1 := hkeeps.flag1.trans h.flag1
  flag3 := hkeeps.flag3.trans h.flag3
  lights := by rw [hkeeps.flag2, hkeeps.flag, h.lights]
  valid := hkeeps.valid h.valid

theorem Follows.of_area (h : Follows k s) (harea : s'.area = s.area) : Follows k s' where
  flag := (congrFun harea _).trans h.flag
  flag1 := (congrFun harea _).trans h.flag1
  flag3 := (congrFun harea _).trans h.flag3
  lights := by
    have hflag : s'.flag = s.flag := congrFun harea _
    have hflag2 : s'.flag2 = s.flag2 := congrFun harea _
    rw [hflag, hflag2, h.lights]
  valid := harea ▸ h.valid

/-- The markers cleared. -/
theorem Follows.unmark (h : Follows k s) (hunmarked : Unmarked s s') : Follows { k with e0 := false } s' where
  flag := hunmarked.flag.trans h.flag
  flag1 := hunmarked.flag1.trans h.flag1
  flag3 := by
    rw [hunmarked.flag3, h.flag3, ofBits_and_not]
    refine ofBits_congr ?_
    simp [Fin.forall_fin_succ, Keyboard.flag3Bits, marks]
  lights := by rw [hunmarked.flag2, hunmarked.flag, h.lights]
  valid := hunmarked.valid h.valid

/-- What the keyboard sends is none of its answers. -/
theorem sends_code (hsends : k.Sends byte) : byte ≠ 0xfe ∧ byte ≠ 0xfa ∧ byte ≠ 0xff ∧ byte ≠ 0xe1 := by
  rw [Keyboard.Sends] at hsends
  have hcode : byte = 0xe0 ∨ byte &&& 0x7f ≤ 0x58 := by
    split at hsends
    · refine .inr ?_
      have hmem := hsends.2
      revert hmem
      generalize byte &&& 0x7f = code
      revert code
      decide
    · exact hsends.imp id fun hplain => hplain.2.1
  clear hsends
  revert byte
  decide

theorem receive_eq (h : Follows k s) (hsends : k.Sends byte) : s.receive g t byte =
    if byte = 0xe0 then (s.raise kbFlag3At 0x12, .k26a) else s.scan g t s.flag3 byte := by
  obtain ⟨hresend, hack, hoverrun, hpause⟩ := sends_code hsends
  have hid : ¬s.flag3 &&& 0xc0 ≠ 0 := by
    rw [not_not, h.flag3, ofBits_and_eq_iff]
    simp [Fin.forall_fin_succ, Keyboard.flag3Bits]
  rw [Bios.receive, if_neg hresend, if_neg hack, checkIndicators_of_not_due h.settled]
  dsimp only
  rw [if_neg hoverrun, if_neg hid, if_neg hpause]

/-- The buffer overflows on a code that follows the E0 marker. -/
def MarkerStays (g : Guest) (t : Tables) (k : Keyboard) (s : Bios) (byte : BitVec 8) : Prop :=
  k.e0 = true ∧ (s.decode g t byte).1.Overflows g (s.decode g t byte).2

theorem leave_isSome (s : Bios) (fuel : ℕ) {e : Bios.Exit} (h : e ≠ .pause) : ∃ s', s.leave g fuel e = some s' := by
  cases e with
  | pause => exact absurd rfl h
  | _ => exact ⟨_, rfl⟩

/-- **A run of `keyboard_int`** returns, and the flags follow. -/
theorem keyboardInt_follows (hg : g.Lawful) (h : Follows k s) (hsends : k.Sends byte) (hchord : ¬k.ResetChord byte)
    (hslip : ¬k.LeftOfTwo byte) (hroom : ¬MarkerStays g t k s byte) (fuel : ℕ) :
    (s.decode g t byte).2 ≠ .reboot ∧ ∃ s', s.keyboardInt g t fuel byte = some s' ∧ Follows (k.next byte) s' := by
  obtain ⟨-, -, hkeeps⟩ := enter_spec hg s byte
  have hstart : Follows k { s with level := s.level + 1 }.disable := h.of_area rfl
  have hentered : Follows k (s.enter g byte).2.2 := hstart.keeps hkeeps
  have hdecode := decode_eq (t := t) hg s byte
  rw [receive_eq hentered hsends] at hdecode
  rw [Keyboard.next]
  by_cases hbyte : byte = 0xe0
  · rw [if_pos hbyte] at hdecode ⊢
    refine ⟨by rw [hdecode]; exact Bios.Exit.noConfusion, _, by rw [Bios.keyboardInt, hdecode]; rfl, ?_⟩
    have hraised : Follows { k with e0 := true } ((s.enter g byte).2.2.raise kbFlag3At 0x12) := by
      refine hentered.step (.store _ (by decide) _) (store_of_ne (by decide))
        ((store_of_ne (by decide)).trans hentered.flag) ((store_of_ne (by decide)).trans hentered.flag1) ?_
      have hstored : ((s.enter g byte).2.2.raise kbFlag3At 0x12).flag3 = (s.enter g byte).2.2.flag3 ||| 0x12 :=
        store_same
      rw [hstored, hentered.flag3, ofBits_or]
      refine ofBits_congr ?_
      simp [Fin.forall_fin_succ, Keyboard.flag3Bits]
    exact hraised.of_area rfl
  · rw [if_neg hbyte] at hdecode ⊢
    obtain ⟨hfollows, honly⟩ := scan_follows (t := t) hg hentered hsends hbyte hchord hslip
    rw [← hdecode] at hfollows honly
    have hpause : (s.decode g t byte).2 ≠ .pause := fun heq => by rw [heq] at honly; exact honly
    have hreboot : (s.decode g t byte).2 ≠ .reboot := fun heq => by rw [heq] at honly; exact honly
    obtain ⟨left, hleft⟩ := leave_isSome (g := g) (s.decode g t byte).1 fuel hpause
    refine ⟨hreboot, left.exitFromKbdInt, by rw [Bios.keyboardInt]; exact congrArg (Option.map _) hleft, ?_⟩
    have hmarks : ¬(s.decode g t byte).1.Overflows g (s.decode g t byte).2 ∨
        (s.decode g t byte).1.flag3 &&& marks = 0 := by
      cases he0 : k.e0 with
      | true => exact .inl fun hover => hroom ⟨he0, hover⟩
      | false => exact .inr (hfollows.unmarked he0)
    exact (hfollows.unmark (leave_unmarked hg hfollows.valid hleft (.inl honly) hmarks)).of_area rfl

/-! ## Sequences of codes -/

/-- What is reached from POST by scan codes, and by guests between them; not by Ctrl-Alt-Del, and not where a left
Ctrl or Alt is released while the right one is held, or where the buffer overflows after the E0 marker. -/
inductive Reach (g : Guest) (t : Tables) : Keyboard → Bios → Prop where
  | post (s : Bios) (hlevel : s.level = 0) : Reach g t .idle s.post
  | guest {k : Keyboard} {s s' : Bios} (h : Reach g t k s) (hkeeps : Keeps s s') : Reach g t k s'
  | code {k : Keyboard} {s s' : Bios} (h : Reach g t k s) (byte : BitVec 8) (fuel : ℕ) (hsends : k.Sends byte)
      (hchord : ¬k.ResetChord byte) (hslip : ¬k.LeftOfTwo byte) (hroom : ¬MarkerStays g t k s byte)
      (hrun : s.keyboardInt g t fuel byte = some s') : Reach g t (k.next byte) s'

theorem post_follows (s : Bios) : Follows .idle s.post := by
  have hflag : s.post.flag = 0x20 := by simp [Bios.post, Bios.flag, Bios.store, kbFlagAt, kbFlag1At, kbFlag2At,
    kbFlag3At, altInputAt]
  have hflag1 : s.post.flag1 = 0 := by simp [Bios.post, Bios.flag1, Bios.store, kbFlagAt, kbFlag1At, kbFlag2At,
    kbFlag3At, altInputAt]
  have hflag2 : s.post.flag2 = 2 := by simp [Bios.post, Bios.flag2, Bios.store, kbFlag2At, kbFlag3At, altInputAt]
  have hflag3 : s.post.flag3 = 0x10 := by simp [Bios.post, Bios.flag3, Bios.store, kbFlag3At, altInputAt]
  refine ⟨hflag.trans (by decide), hflag1.trans (by decide), hflag3.trans (by decide), ?_, ?_⟩
  · rw [hflag2, hflag]
    decide
  · have hpost : Area.Valid { s with area := s.area.keyboardPost }.area := ⟨0, 0, s.area.keyboardPost_holds⟩
    refine valid_store (valid_store (valid_store (valid_store (valid_store hpost ?_) ?_) ?_) ?_) ?_
    all_goals decide

theorem Reach.follows (hg : g.Lawful) (h : Reach g t k s) : Follows k s ∧ s.level = 0 := by
  induction h with
  | post s hlevel => exact ⟨post_follows s, hlevel⟩
  | guest h hkeeps ih => exact ⟨ih.1.keeps hkeeps, hkeeps.level.trans ih.2⟩
  | code h byte fuel hsends hchord hslip hroom hrun ih =>
    obtain ⟨hreboot, s', hrun', hfollows⟩ := keyboardInt_follows hg ih.1 hsends hchord hslip hroom fuel
    obtain rfl := Option.some.inj (hrun.symm.trans hrun')
    exact ⟨hfollows, (keyboardInt_accounted hg hrun hreboot).level.trans ih.2⟩

/-! ## A press of a lock -/

/-- The codes of a lock's key going up. -/
def Lock.Releases (l : Lock) (byte : BitVec 8) : Prop := byte &&& 0x7f = l.code ∧ byte &&& 0x80 ≠ 0

instance (l : Lock) (byte : BitVec 8) : Decidable (l.Releases byte) := by unfold Lock.Releases; infer_instance

/-- How often a lock changes. -/
def Keyboard.changes (l : Lock) : Keyboard → List (BitVec 8) → ℕ
  | _, [] => 0
  | k, byte :: codes => (if (k.next byte).state l ≠ k.state l then 1 else 0) + changes l (k.next byte) codes

/-- A code changes a lock and has its press counted, or neither. -/
theorem Keyboard.next_lock (k : Keyboard) (l : Lock) (hpressed : ¬l.Releases byte) :
    (k.next byte).counted l = (k.counted l || (k.next byte).counted l) ∧
      ((k.next byte).state l ≠ k.state l ↔ k.counted l = false ∧ (k.next byte).counted l = true) := by
  rw [Keyboard.next]
  by_cases hbyte : byte = 0xe0
  · rw [if_pos hbyte]
    cases k.counted l <;> simp
  · rw [if_neg hbyte, Keyboard.strike]
    by_cases hcode : l.code = byte &&& 0x7f
    · have hmake : byte &&& 0x80 = 0 := not_not.mp fun hbreak => hpressed ⟨hcode.symm, hbreak⟩
      simp only [if_pos hcode, hmake]
      cases k.counted l <;> cases k.free l <;> cases k.state l <;> simp
    · simp only [if_neg hcode]
      cases k.counted l <;> simp

theorem Keyboard.counted_stays (k : Keyboard) (l : Lock) (codes : List (BitVec 8))
    (hpressed : ∀ byte ∈ codes, ¬l.Releases byte) (hcounted : k.counted l = true) :
    (codes.foldl Keyboard.next k).counted l = true := by
  induction codes generalizing k with
  | nil => exact hcounted
  | cons byte codes ih =>
    refine ih _ (fun b hb => hpressed b (List.mem_cons_of_mem _ hb)) ?_
    rw [(k.next_lock l (hpressed byte (List.mem_cons_self ..))).1, hcounted, Bool.true_or]

/-- **While its key is not released a lock changes once**, if the press has come to count, and else never. -/
theorem Keyboard.changes_once (l : Lock) (k : Keyboard) (codes : List (BitVec 8))
    (hpressed : ∀ byte ∈ codes, ¬l.Releases byte) : Keyboard.changes l k codes =
      if k.counted l = false ∧ (codes.foldl Keyboard.next k).counted l = true then 1 else 0 := by
  induction codes generalizing k with
  | nil =>
    rw [if_neg fun h => Bool.noConfusion (h.1.symm.trans h.2)]
    rfl
  | cons byte codes ih =>
    obtain ⟨hcounted, hchange⟩ := k.next_lock l (hpressed byte (List.mem_cons_self ..))
    rw [Keyboard.changes, ih _ fun b hb => hpressed b (List.mem_cons_of_mem _ hb), List.foldl_cons]
    simp only [hchange]
    have hrest : ∀ b ∈ codes, ¬l.Releases b := fun b hb => hpressed b (List.mem_cons_of_mem _ hb)
    have hstays := (k.next byte).counted_stays l codes hrest
    cases hnow : k.counted l <;> cases hnext : (k.next byte).counted l
    · simp
    · simp [hstays hnext]
    · rw [hnow, hnext] at hcounted
      exact Bool.noConfusion hcounted
    · simp

/-! ## A keyboard that answers -/

/-- **A keyboard interrupt that answers a command** writes nothing that waiting for the answer may not. -/
theorem answer_answered (hpasses : ∀ code s, (g.int15 (0x4f#8 ++ code) s).1 = code ∧
      (g.int15 (0x4f#8 ++ code) s).2.1 = true) (hint15 : ∀ ax s, Keeps s (g.int15 ax s).2.2)
    (hcode : byte = 0xfa ∨ byte = 0xfe) (h : s.keyboardInt g t fuel byte = some s') : Answered s s' := by
  have hkeeps : Keeps { s with level := s.level + 1 }.disable (s.enter g byte).2.2 := hint15 _ _
  generalize hentered : (s.enter g byte).2.2 = entered at hkeeps
  obtain ⟨answer, hanswer, hdecode⟩ : ∃ answer : BitVec 8, answer &&& 0x47 = 0 ∧
      s.decode g t byte = (entered.raise kbFlag2At answer, .k26) := by
    have hreceive : s.decode g t byte = entered.receive g t byte := by
      have hpass : (s.enter g byte).1 = byte ∧ (s.enter g byte).2.1 = true := hpasses byte _
      rw [Bios.decode, if_pos hpass.2, hpass.1, hentered]
    rcases hcode with rfl | rfl
    · exact ⟨0x10, by decide, by rw [hreceive, Bios.receive, if_neg (by decide), if_pos rfl]⟩
    · exact ⟨0x20, by decide, by rw [hreceive, Bios.receive, if_pos rfl]⟩
  rw [Bios.keyboardInt, hdecode] at h
  obtain rfl := Option.some.inj h
  have hlevel : entered.level = s.level + 1 := hkeeps.level
  obtain ⟨outs, hlog, houts⟩ := hkeeps.log
  have hflags : Framed entered (entered.raise kbFlag2At answer).k26.exitFromKbdInt := by
    have hcleared := Unmarked.k26 (entered.raise kbFlag2At answer)
    have hframed := Framed.store_flag2 entered (entered.flag2 ||| answer)
    have halt : ((entered.raise kbFlag2At answer).clear kbFlag3At marks).area altInputAt =
        (entered.raise kbFlag2At answer).area altInputAt := store_of_ne (by decide)
    exact hframed.trans ⟨hcleared.flag, hcleared.flag1, .inr hcleared.flag3, halt, hcleared.valid⟩
  refine ⟨⟨?_, ⟨entered.level, 0x64, 0xae⟩ :: ⟨entered.level, 0x20, 0x20⟩ :: (outs ++ [⟨s.level + 1, 0x64, 0xad⟩]),
    ?_, fun o ho => ?_⟩, ?_, ?_⟩
  · exact (congrArg (· - 1) hlevel).trans (Int.add_sub_cancel s.level 1)
  · have hwritten : (entered.raise kbFlag2At answer).k26.exitFromKbdInt.log =
        ⟨entered.level, 0x64, 0xae⟩ :: ⟨entered.level, 0x20, 0x20⟩ :: entered.log := rfl
    rw [hwritten, hlog, List.cons_append, List.cons_append, List.append_assoc]
    rfl
  · have hdeep : s.level < s.level + 1 := Int.lt_succ s.level
    rcases List.mem_cons.mp ho with rfl | ho
    · exact .inl (hlevel ▸ hdeep)
    rcases List.mem_cons.mp ho with rfl | ho
    · exact .inl (hlevel ▸ hdeep)
    rcases List.mem_append.mp ho with ho | ho
    · exact (houts o ho).imp hdeep.trans id
    · rw [List.mem_singleton.mp ho]
      exact .inl hdeep
  · exact ⟨hflags.flag.trans hkeeps.flag, hflags.flag1.trans hkeeps.flag1, hkeeps.flag3 ▸ hflags.flag3,
      hflags.altInput.trans hkeeps.altInput, fun hvalid => hflags.valid (hkeeps.valid hvalid)⟩
  · have hstored : (entered.raise kbFlag2At answer).k26.exitFromKbdInt.flag2 = entered.flag2 ||| answer :=
      (Unmarked.k26 (entered.raise kbFlag2At answer)).flag2.trans store_same
    have hbefore : entered.flag2 = s.flag2 := hkeeps.flag2
    rw [hstored, or_and_of_apart _ hanswer, hbefore]

/-- A guest in which the keyboard answers at once. -/
def Guest.answering (g : Guest) (t : Tables) : Guest :=
  { g with reply := fun s => (s.keyboardInt g t 0 0xfa).getD s }

theorem Guest.Lawful.answering (hg : g.Lawful) (t : Tables) : (g.answering t).Lawful where
  passes := hg.passes
  int15 := hg.int15
  int1b := hg.int1b
  int05 := hg.int05
  reply s := by
    rw [Guest.answering]
    dsimp only
    cases hrun : s.keyboardInt g t 0 0xfa with
    | none => exact .refl s
    | some s' => exact answer_answered hg.passes hg.int15 (.inl rfl) hrun
  hold := hg.hold
  poll := hg.poll

/-- A guest that does nothing. -/
def Guest.silent : Guest where
  int15 ax s := (ax.setWidth 8, true, s)
  int1b := id
  int05 := id
  reply := id
  hold := id
  poll := id
  reboot := id

theorem Keeps.refl (s : Bios) : Keeps s s := ⟨.refl s, rfl, rfl, rfl, rfl, rfl, id⟩

theorem silent_lawful : Guest.silent.Lawful where
  passes code s := ⟨by rw [Guest.silent]; ext i hi; simp; grind, rfl⟩
  int15 ax s := .refl s
  int1b := .refl
  int05 := .refl
  reply := .refl
  hold := .refl
  poll := .refl

/-- Tables without characters. -/
def Tables.none : Tables := ⟨fun _ => 0xff, fun _ => 0xff, fun _ => 0xff, fun _ => 0xff⟩

/-- After POST. -/
def afterPost : Bios := Bios.post ⟨fun _ => 0, 0, []⟩

/-- A keyboard that answers at once. -/
def answers : Guest := Guest.silent.answering .none

/-- The flags after some codes, the end of interrupts of the last counted. -/
def afterCodes (codes : List (BitVec 8)) : Option (BitVec 8 × BitVec 8 × ℕ) :=
  (codes.foldlM (fun s code => Bios.keyboardInt answers .none { s with log := [] } 0 code) afterPost).map fun s =>
    (s.flag, s.flag3, eois 1 s.log)

/-- The left Ctrl released while the right one is held: `kb_flag` says that neither is. -/
example : afterCodes [0x1d, 0xe0, 0x1d, 0x9d] = some (0x20, 0x14, 1) := by decide

/-! ## What is promised -/

/-- **The shift state**, exactly: the flags follow the keyboard in every state that is reached; every run of
`keyboard_int` issues one end of interrupt, and one more for a lock whose light it changes; a call of INT 16h issues
one where AH is 01h or 11h and the lights are due, which they are in no state that is reached. -/
theorem shift_state_exact (hg : g.Lawful) (t : Tables) :
    (∀ k s, Reach g t k s → Follows k s ∧ s.level = 0 ∧
      (∀ byte fuel, k.Sends byte → ¬k.ResetChord byte → ¬k.LeftOfTwo byte → ¬MarkerStays g t k s byte →
        ∃ s', s.keyboardInt g t fuel byte = some s' ∧ Reach g t (k.next byte) s') ∧
      ∀ fuel r out, s.keyboardIo g fuel r = some out → eois 0 out.2.2.log = eois 0 s.log) ∧
    (∀ (k : Keyboard) l codes, (∀ byte ∈ codes, ¬Lock.Releases l byte) → Keyboard.changes l k codes =
      if k.counted l = false ∧ (codes.foldl Keyboard.next k).counted l = true then 1 else 0) ∧
    (∀ (s : Bios) fuel code s', s.keyboardInt g t fuel code = some s' → (s.decode g t code).2 ≠ .reboot →
      Accounted g t s code s' ∧ (s.area.Valid → ¬KeepsMarker code (s.decode g t code) →
        ¬(s.decode g t code).1.Overflows g (s.decode g t code).2 → s'.flag3 &&& marks = 0)) ∧
    ∀ (s : Bios) fuel r out, s.keyboardIo g fuel r = some out → eois s.level out.2.2.log =
      eois s.level s.log + if (r.ah = 0x01 ∨ r.ah = 0x11) ∧ s.LightsDue then 1 else 0 := by
  refine ⟨fun k s h => ?_, fun k l codes => k.changes_once l codes, fun s fuel code s' hrun hreboot => ?_,
    fun s fuel r out hcall => keyboardIo_eois hg hcall⟩
  · obtain ⟨hfollows, hlevel⟩ := h.follows hg
    refine ⟨hfollows, hlevel, fun byte fuel hsends hchord hslip hroom => ?_, fun fuel r out hcall => ?_⟩
    · obtain ⟨-, s', hrun, -⟩ := keyboardInt_follows hg hfollows hsends hchord hslip hroom fuel
      exact ⟨s', hrun, h.code byte fuel hsends hchord hslip hroom hrun⟩
    · have heois := keyboardIo_eois hg hcall
      rw [if_neg fun hdue => hfollows.settled hdue.2, hlevel] at heois
      exact heois
  · exact ⟨keyboardInt_accounted hg hrun hreboot, fun hvalid hkeeps hroom =>
      keyboardInt_markers hg hvalid hrun hkeeps hroom⟩

/-- Caps Lock pressed by the keyboard that answers. -/
theorem caps_lock_follows : ∃ s', afterPost.keyboardInt answers .none 0 0x3a = some s' ∧
    Follows (Keyboard.idle.next 0x3a) s' := by
  have hreach : Reach answers .none .idle afterPost := .post _ rfl
  have hexact := (shift_state_exact (silent_lawful.answering .none) .none).1
  obtain ⟨-, -, hrun, -⟩ := hexact .idle afterPost hreach
  obtain ⟨s', hrun', hreach'⟩ := hrun 0x3a 0 (.inr (by decide)) (fun h => absurd h.1 (by decide))
    (fun h => absurd h.2 (by decide)) (fun h => Bool.noConfusion h.1)
  exact ⟨s', hrun', (hexact _ s' hreach').1⟩

/-- **Caps Lock** pressed issues two ends of interrupt; pressed while Ctrl is held it does not change, and then does on
a repeat. -/
theorem caps_lock_not_so : afterCodes [0x3a] = some (0x60, 0x10, 2) ∧ afterCodes [0x1d, 0x3a] = some (0x24, 0x10, 1) ∧
    afterCodes [0x1d, 0x3a, 0x9d, 0x3a] = some (0x60, 0x10, 2) := by
  decide

end SoftPC.BiosKeyboard
