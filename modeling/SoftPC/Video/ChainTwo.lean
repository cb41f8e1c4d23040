import Mathlib.Data.Finset.Insert
import Mathlib.Data.Nat.Notation
import Mathlib.Tactic.Common

/-!
# Video/ChainTwo — the BIOS writes to chained planes

    CPU byte ──rotate──▸ ──set/reset──▸ ──function with the latch──▸ ──bit mask──▸ plane

In chain 2 an even offset is in planes 0 and 2 and an odd one in planes 1 and 3.  `ega_write_routines_update` selects
a byte and a word routine for the write mode; each has its own copy of the pipeline.
-/

namespace SoftPC.Video.ChainTwo

/-! ## The graphics controller -/

/-- `write_state.func`. -/
inductive Func where
  | assign
  | and
  | or
  | xor
  deriving DecidableEq

def Func.code : Func → BitVec 2
  | .assign => 0
  | .and => 1
  | .or => 2
  | .xor => 3

/-- What a register write leaves for the write routines; the function and the bit mask are never missed. -/
structure Controller where
  writeMode : BitVec 2
  rotate : BitVec 3
  setReset : BitVec 4
  srEnable : BitVec 4
  func : Func
  bitProt : BitVec 8
  planeEnable : BitVec 4
  funOrProtection : Bool
  complicated : func ≠ .assign ∨ bitProt ≠ 0xff → funOrProtection

namespace Controller

variable (c : Controller)

/-- The bit mask, replicated into 4 bytes. -/
def bitProtMask : BitVec 32 :=
  let mask := c.bitProt.setWidth 32 ||| c.bitProt.setWidth 32 <<< 8
  mask ||| mask <<< 16

/-- `getVideodata_and_mask`… -/
def dataAndMask : BitVec 32 :=
  match c.func with
  | .assign => 0xffffffff
  | .and => 0xffffffff
  | .or => 0
  | .xor => 0xffffffff

/-- …`getVideodata_xor_mask`… -/
def dataXorMask : BitVec 32 :=
  match c.func with
  | .assign => ~~~c.bitProtMask
  | .and => ~~~c.bitProtMask
  | .or => 0xffffffff
  | .xor => 0xffffffff

/-- …and `getVideolatch_xor_mask`, of the case `FUNCTION`. -/
def latchXorMask : BitVec 32 :=
  match c.func with
  | .assign => c.bitProtMask
  | .and => 0
  | .or => c.bitProtMask
  | .xor => c.bitProtMask

def doLogicals (val latch : BitVec 32) : BitVec 32 :=
  (latch &&& ((val &&& c.dataAndMask) ^^^ c.dataXorMask)) ||| (val &&& (latch ^^^ c.latchXorMask))

def srLookup : List (BitVec 32) :=
  [0x00000000, 0x000000ff, 0x0000ff00, 0x0000ffff, 0x00ff0000, 0x00ff00ff, 0x00ffff00, 0x00ffffff,
   0xff000000, 0xff0000ff, 0xff00ff00, 0xff00ffff, 0xffff0000, 0xffff00ff, 0xffffff00, 0xffffffff]

/-- A byte of `EGA_CPU.sr_value`. -/
def srValue (p : ℕ) : BitVec 32 := (srLookup.getD c.setReset.toNat 0 >>> (8 * p)) &&& 0xff

/-- `ega_state.mode_0.lookup`: all planes, the function, protection, set/reset. -/
def lookup : BitVec 5 :=
  BitVec.ofBool (c.srEnable ≠ 0) ++ BitVec.ofBool (c.bitProt ≠ 0xff) ++ c.func.code ++ BitVec.ofBool (c.planeEnable = 0xf)

/-- `getVideowplane`, from `EGA_planes`. -/
def wplane : ℕ := if c.planeEnable &&& 0xc ≠ 0 then 2 else 0

end Controller

def getLatch (latches : BitVec 32) (p : ℕ) : BitVec 32 := (latches >>> (8 * p)) &&& 0xff

/-- `rotate`, of a byte next to itself. -/
def rotate (value : BitVec 8) (nobits : ℕ) : BitVec 8 := ((value ++ value) >>> nobits).setWidth 8

/-- `EGA_planes`, the four planes interleaved, and the offsets that are marked. -/
structure Adapter where
  planes : ℕ → BitVec 8
  marked : Finset ℕ

namespace Adapter

variable (a : Adapter)

def store (i : ℕ) (value : BitVec 32) : Adapter := { a with planes := Function.update a.planes i (value.setWidth 8) }

/-- `update_alg.mark_byte`… -/
def markByte (offset : ℕ) : Adapter := { a with marked := insert offset a.marked }

/-- …and `update_alg.mark_word`. -/
def markWord (offset : ℕ) : Adapter := { a with marked := insert (offset + 1) (insert offset a.marked) }

end Adapter

/-- `(offset & ~1u) << 2`. -/
def shifted (offset : ℕ) : ℕ := offset / 2 * 2 * 4

/-! ## The routines -/

section

variable (c : Controller) (latches value : BitVec 32) (offset : ℕ) (a : Adapter)

def egaCopyBWrite : Adapter :=
  (a.markByte offset).store (c.wplane + (shifted offset + offset % 2)) value

def egaCopyWWrite : Adapter :=
  let a := a.markWord offset
  let planes := c.wplane + shifted offset
  if offset % 2 = 1 then (a.store (planes + 1) value).store (planes + 8) (value >>> 8)
  else (a.store planes value).store (planes + 1) (value >>> 8)

/-- A plane in `ega_mode0_chn_b_write`, which leaves what it has made of the value. -/
def mode0Plane (p : ℕ) (value : BitVec 32) (a : Adapter) : BitVec 32 × Adapter :=
  if c.planeEnable.getLsbD p then
    if c.srEnable.getLsbD p then
      let value := c.doLogicals (c.srValue p) (getLatch latches p)
      (value, a.store (shifted offset + p) value)
    else
      let value := if c.rotate ≠ 0 then (rotate (value.setWidth 8) c.rotate.toNat).setWidth 32 else value
      (value, a.store (shifted offset + p) (c.doLogicals value (getLatch latches p)))
  else (value, a)

def egaMode0ChnBWrite : Adapter :=
  let (value, a) := mode0Plane c latches offset (offset % 2) value (a.markByte offset)
  (mode0Plane c latches offset (offset % 2 + 2) value a).2

def egaMode0ChnWWrite : Adapter :=
  egaMode0ChnBWrite c latches (value >>> 8) (offset + 1) (egaMode0ChnBWrite c latches value offset a)

/-- A plane that is written if a bit of the map mask is set. -/
def storeIf (test i : ℕ) (value : BitVec 32) (a : Adapter) : Adapter :=
  if c.planeEnable.getLsbD test then a.store i value else a

def egaMode1ChnBWrite : Adapter :=
  let off := shifted offset
  let a := storeIf c (offset % 2) (off + offset % 2) (getLatch latches (offset % 2)) a
  let a := storeIf c (offset % 2 + 2) (off + offset % 2 + 2) (getLatch latches (offset % 2 + 2)) a
  a.markByte off

def egaMode1ChnWWrite : Adapter :=
  let off := shifted offset
  let a :=
    if offset % 2 = 1 then
      let a := storeIf c 1 (off + 1) (getLatch latches 1) a
      let a := storeIf c 0 (off + 8) (getLatch latches 0) a
      let a := storeIf c 3 (off + 3) (getLatch latches 3) a
      storeIf c 2 (off + 10) (getLatch latches 2) a
    else
      let a := storeIf c 0 off (getLatch latches 0) a
      let a := storeIf c 1 (off + 1) (getLatch latches 1) a
      let a := storeIf c 2 (off + 2) (getLatch latches 2) a
      storeIf c 3 (off + 3) (getLatch latches 3) a
  a.markWord off

/-- A bit of the value, over a plane. -/
def expand (value : BitVec 32) (p : ℕ) : BitVec 32 := if value.getLsbD p then 0xff else 0

/-- …with the function and the latch. -/
def expandLogicals (p : ℕ) : BitVec 32 := c.doLogicals (expand value p) (getLatch latches p)

def egaMode2ChnBWrite : Adapter :=
  let off := shifted offset
  let a :=
    if c.funOrProtection then
      if offset % 2 = 1 then
        let a := storeIf c 1 (off + 1) (expandLogicals c latches value 1) a
        storeIf c 3 (off + 3) (expandLogicals c latches value 3) a
      else
        let a := storeIf c 0 off (expandLogicals c latches value 0) a
        storeIf c 2 (off + 2) (expandLogicals c latches value 2) a
    else
      if offset % 2 = 1 then
        let a := storeIf c 1 (off + 1) (expand value 1) a
        storeIf c 3 (off + 3) (expand value 3) a
      else
        let a := storeIf c 0 off (expand value 0) a
        -- The bit tested is plane 3's.
        storeIf c 3 (off + 2) (expand value 2) a
  a.markByte off

def egaMode2ChnWWrite : Adapter :=
  let off := shifted offset
  let low := value &&& 0xff
  let high := value >>> 8
  let spread := fun value p => if c.funOrProtection then expandLogicals c latches value p else expand value p
  let a :=
    if offset % 2 = 1 then
      let a := storeIf c 1 (off + 1) (spread low 1) a
      let a := storeIf c 0 (off + 8) (spread high 0) a
      let a := storeIf c 3 (off + 3) (spread low 3) a
      storeIf c 2 (off + 10) (spread high 2) a
    else
      let a := storeIf c 0 off (spread low 0) a
      let a := storeIf c 1 (off + 1) (spread high 1) a
      let a := storeIf c 2 (off + 2) (spread low 2) a
      storeIf c 3 (off + 3) (spread high 3) a
  a.markWord off

/-- `bios_ch2_byte_wrt_fn`, as `ega_write_routines_update` selects it… -/
def byteWrite : Adapter :=
  if c.writeMode = 0 then
    if c.lookup = 0 then egaCopyBWrite c value offset a else egaMode0ChnBWrite c latches value offset a
  else if c.writeMode = 1 then egaMode1ChnBWrite c latches offset a
  else egaMode2ChnBWrite c latches value offset a

/-- …and `bios_ch2_word_wrt_fn`. -/
def wordWrite : Adapter :=
  if c.writeMode = 0 then
    if c.lookup = 0 then egaCopyWWrite c value offset a else egaMode0ChnWWrite c latches value offset a
  else if c.writeMode = 1 then egaMode1ChnWWrite c latches offset a
  else egaMode2ChnWWrite c latches value offset a

end

/-! ## The pipeline -/

/-- The logical function, of the byte and the latch. -/
def Func.apply : Func → BitVec 8 → BitVec 8 → BitVec 8
  | .assign, x, _ => x
  | .and, x, l => x &&& l
  | .or, x, l => x ||| l
  | .xor, x, l => x ^^^ l

/-- The bits of the mask, and the others from the latch. -/
def masked (c : Controller) (x l : BitVec 8) : BitVec 8 := (c.bitProt &&& c.func.apply x l) ||| (~~~c.bitProt &&& l)

def all (b : Bool) : BitVec 8 := if b then 0xff else 0

def latch (latches : BitVec 32) (p : ℕ) : BitVec 8 := (latches >>> (8 * p)).setWidth 8

/-- What a plane is given. -/
def pipeline (c : Controller) (latches : BitVec 32) (value : BitVec 8) (p : ℕ) : BitVec 8 :=
  if c.writeMode = 0 then
    masked c (if c.srEnable.getLsbD p then all (c.setReset.getLsbD p) else value.rotateRight c.rotate.toNat) (latch latches p)
  else if c.writeMode = 1 then latch latches p
  else masked c (all (value.getLsbD p)) (latch latches p)

/-- The enabled planes of the parity of the offset are given what they are, and the offset is marked. -/
def written (c : Controller) (latches : BitVec 32) (value : BitVec 8) (offset : ℕ) (a : Adapter) : Adapter where
  planes i :=
    if i / 4 = offset / 2 * 2 ∧ i % 2 = offset % 2 ∧ c.planeEnable.getLsbD (i % 4) then pipeline c latches value (i % 4)
    else a.planes i
  marked := insert offset a.marked

/-! ## Bytes -/

theorem setWidth_bitProtMask (c : Controller) : c.bitProtMask.setWidth 8 = c.bitProt := by
  have h : ∀ b : BitVec 8, ((b.setWidth 32 ||| b.setWidth 32 <<< 8) |||
      (b.setWidth 32 ||| b.setWidth 32 <<< 8) <<< 16).setWidth 8 = b := by decide
  exact h c.bitProt

theorem srValue_eq (c : Controller) {p : ℕ} (hp : p < 4) : (c.srValue p).setWidth 8 = all (c.setReset.getLsbD p) := by
  have h : ∀ v : BitVec 4, ∀ p < 4, ((Controller.srLookup.getD v.toNat 0 >>> (8 * p)) &&& 0xff).setWidth 8 =
      all (v.getLsbD p) := by decide
  exact h c.setReset p hp

theorem setWidth_low (x : BitVec 32) : (x &&& 0xff).setWidth 8 = x.setWidth 8 := by
  ext i hi
  have h : ∀ (i : ℕ) (hi : i < 8), (0xff#8)[i] = true := by decide
  simp [h i hi]

theorem getLatch_eq (latches : BitVec 32) (p : ℕ) : (getLatch latches p).setWidth 8 = latch latches p := setWidth_low _

theorem expand_eq (value : BitVec 32) {p : ℕ} (hp : p < 8) :
    (expand value p).setWidth 8 = all ((value.setWidth 8).getLsbD p) := by
  have h : (value.setWidth 8).getLsbD p = value.getLsbD p := by simp [hp]
  rw [h, expand, all]
  cases value.getLsbD p <;> rfl

/-- `do_logicals` is the function and the mask. -/
theorem doLogicals_eq (c : Controller) (val l : BitVec 32) :
    (c.doLogicals val l).setWidth 8 = masked c (val.setWidth 8) (l.setWidth 8) := by
  have hmask := setWidth_bitProtMask c
  unfold Controller.doLogicals masked Controller.dataAndMask Controller.dataXorMask Controller.latchXorMask
  rw [← hmask]
  generalize c.bitProtMask = mask
  ext i hi
  have hones : ∀ (i : ℕ) (hi : i < 8), (0xff#8)[i] = true := by decide
  cases c.func <;> simp [hones i hi, Func.apply] <;>
    -- The bits of the latch, the value and the mask.
    cases l.getLsbD i <;> cases val.getLsbD i <;> cases mask.getLsbD i <;> rfl

/-- Nothing but the value. -/
theorem masked_assign {c : Controller} (hfunc : c.func = .assign) (hprot : c.bitProt = 0xff) (x l : BitVec 8) :
    masked c x l = x := by
  have hones : ∀ (i : ℕ) (hi : i < 8), (0xff#8)[i] = true := by decide
  rw [masked, hfunc, hprot]
  ext i hi
  simp [Func.apply, hones i hi]

theorem masked_plain (c : Controller) (h : c.funOrProtection = false) (x l : BitVec 8) : masked c x l = x := by
  have hnot : ¬(c.func ≠ .assign ∨ c.bitProt ≠ 0xff) := fun hfun => by simp [c.complicated hfun] at h
  obtain ⟨hfunc, hprot⟩ := not_or.mp hnot
  exact masked_assign (not_not.mp hfunc) (not_not.mp hprot) x l

/-- A latch that the function shows the value over. -/
def clear (c : Controller) : BitVec 32 := if c.func = .and then 0xffffffff else 0

theorem masked_clear {c : Controller} {i : ℕ} (hi : i < 8) (h : c.bitProt.getLsbD i) {p : ℕ} (hp : p < 4) (x : BitVec 8) :
    (masked c x (latch (clear c) p)).getLsbD i = x.getLsbD i := by
  have hones : ∀ p < 4, latch 0xffffffff#32 p = 0xff#8 := by decide
  have hzero : ∀ p < 4, latch 0#32 p = 0#8 := by decide
  have hbit : ∀ (i : ℕ) (hi : i < 8), (0xff#8)[i] = true := by decide
  rw [BitVec.getLsbD_eq_getElem hi] at h
  unfold masked clear
  cases hfunc : c.func <;> simp [Func.apply, h, hi, hones p hp, hzero p hp, hbit i hi]

/-- Nothing but the latch. -/
theorem masked_zero {c : Controller} (h : c.bitProt = 0) (x l : BitVec 8) : masked c x l = l := by
  have hones : ∀ (i : ℕ) (hi : i < 8), (0xff#8)[i] = true := by decide
  rw [masked, h]
  ext i hi
  simp [hones i hi]

theorem rotateRight_not (x : BitVec 8) (r : ℕ) : (~~~x).rotateRight r = ~~~(x.rotateRight r) := by
  ext i hi
  simp only [BitVec.getElem_rotateRight, BitVec.getElem_not]
  split <;> rfl

theorem rotate_eq (c : Controller) (v : BitVec 8) :
    (if c.rotate ≠ 0 then rotate v c.rotate.toNat else v) = v.rotateRight c.rotate.toNat := by
  have h : ∀ r : BitVec 3, ∀ v : BitVec 8, (if r ≠ 0 then rotate v r.toNat else v) = v.rotateRight r.toNat := by
    decide
  exact h c.rotate v

/-! ## What is written where -/

/-- A byte that is written if so. -/
def put (b : Bool) (i : ℕ) (x : BitVec 8) (m : ℕ → BitVec 8) : ℕ → BitVec 8 := if b then Function.update m i x else m

theorem put_apply (b : Bool) (i j : ℕ) (x : BitVec 8) (m : ℕ → BitVec 8) :
    put b i x m j = if b ∧ j = i then x else m j := by
  cases b with
  | false => simp [put]
  | true => simp [put, Function.update_apply]

theorem put_inj {b b' : Bool} {x x' : BitVec 8} (h : ∀ y : BitVec 8, (if b then x else y) = if b' then x' else y) :
    b = b' ∧ (b → x = x') := by
  have hne : ∀ x : BitVec 8, x ≠ x + 1 := by decide
  cases b with
  | true =>
    cases b' with
    | true => exact ⟨rfl, fun _ => h x⟩
    | false => exact absurd (h (x + 1)) (hne x)
  | false =>
    cases b' with
    | true => exact absurd (h (x' + 1)).symm (hne x')
    | false => exact ⟨rfl, fun hb => nomatch hb⟩

/-- The two planes of the parity, and a mark. -/
def wrote (offset : ℕ) (b b' : Bool) (x x' : BitVec 8) (mark : ℕ) (a : Adapter) : Adapter where
  planes := put b' (shifted offset + (offset % 2 + 2)) x' (put b (shifted offset + offset % 2) x a.planes)
  marked := insert mark a.marked

theorem wrote_written (c : Controller) (latches : BitVec 32) (value : BitVec 8) (offset : ℕ) (a : Adapter) :
    written c latches value offset a =
      wrote offset (c.planeEnable.getLsbD (offset % 2)) (c.planeEnable.getLsbD (offset % 2 + 2))
        (pipeline c latches value (offset % 2)) (pipeline c latches value (offset % 2 + 2)) offset a := by
  have hshifted : shifted offset = offset / 2 * 2 * 4 := rfl
  simp only [written, wrote, Adapter.mk.injEq, and_true]
  funext i
  rw [put_apply, put_apply, hshifted]
  by_cases hq : i = offset / 2 * 2 * 4 + (offset % 2 + 2)
  · obtain ⟨hdiv, hodd, hplane⟩ : i / 4 = offset / 2 * 2 ∧ i % 2 = offset % 2 ∧ i % 4 = offset % 2 + 2 := by omega
    have hp : i ≠ offset / 2 * 2 * 4 + offset % 2 := by omega
    rw [hplane]
    by_cases hb : c.planeEnable.getLsbD (offset % 2 + 2)
    · rw [if_pos ⟨hdiv, hodd, hb⟩, if_pos ⟨hb, hq⟩]
    · rw [if_neg fun h => hb h.2.2, if_neg fun h => hb h.1, if_neg fun h => hp h.2]
  by_cases hp : i = offset / 2 * 2 * 4 + offset % 2
  · obtain ⟨hdiv, hodd, hplane⟩ : i / 4 = offset / 2 * 2 ∧ i % 2 = offset % 2 ∧ i % 4 = offset % 2 := by omega
    rw [hplane]
    by_cases hb : c.planeEnable.getLsbD (offset % 2)
    · rw [if_pos ⟨hdiv, hodd, hb⟩, if_neg fun h => hq h.2, if_pos ⟨hb, hp⟩]
    · rw [if_neg fun h => hb h.2.2, if_neg fun h => hq h.2, if_neg fun h => hb h.1]
  · have hi : ¬(i / 4 = offset / 2 * 2 ∧ i % 2 = offset % 2) := by omega
    rw [if_neg fun h => hi ⟨h.1, h.2.1⟩, if_neg fun h => hq h.2, if_neg fun h => hp h.2]

theorem wrote_iff {offset mark mark' : ℕ} {b b' e e' : Bool} {x x' y y' : BitVec 8} :
    (∀ a, wrote offset b b' x x' mark a = wrote offset e e' y y' mark' a) ↔
      ((b = e ∧ (b → x = y)) ∧ b' = e' ∧ (b' → x' = y')) ∧ mark = mark' := by
  constructor
  · intro h
    refine ⟨⟨put_inj fun z => ?_, put_inj fun z => ?_⟩, ?_⟩
    · have hfirst := congrFun (congrArg Adapter.planes (h ⟨fun _ => z, ∅⟩)) (shifted offset + offset % 2)
      simpa [wrote, put_apply] using hfirst
    · have hsecond := congrFun (congrArg Adapter.planes (h ⟨fun _ => z, ∅⟩)) (shifted offset + (offset % 2 + 2))
      simpa [wrote, put_apply] using hsecond
    · have hmark := congrArg Adapter.marked (h ⟨fun _ => 0, ∅⟩)
      simpa [wrote] using hmark
  · rintro ⟨⟨⟨rfl, hx⟩, rfl, hx'⟩, rfl⟩ a
    cases b <;> cases b' <;> simp [wrote, put, hx, hx']

/-! ## The routines -/

section

variable (c : Controller) (latches value : BitVec 32) (offset : ℕ) (a : Adapter)

theorem egaCopyBWrite_eq : egaCopyBWrite c value offset a =
    wrote offset (c.wplane = 0) (c.wplane = 2) (value.setWidth 8) (value.setWidth 8) offset a := by
  have hplace : 2 + (shifted offset + offset % 2) = shifted offset + (offset % 2 + 2) := by omega
  unfold egaCopyBWrite Controller.wplane wrote
  split
  · rw [hplace]
    rfl
  · rw [Nat.zero_add]
    rfl

/-- What a plane takes from a value in mode 0. -/
def staged (p : ℕ) (v : BitVec 8) : BitVec 8 :=
  if c.srEnable.getLsbD p then all (c.setReset.getLsbD p) else v.rotateRight c.rotate.toNat

/-- What is left of the value after a plane. -/
def after (p : ℕ) (v : BitVec 8) : BitVec 8 :=
  if c.planeEnable.getLsbD p then if c.srEnable.getLsbD p then masked c (staged c p v) (latch latches p) else staged c p v else v

theorem mode0Plane_eq {p : ℕ} (hp : p < 4) :
    ((mode0Plane c latches offset p value a).1.setWidth 8, (mode0Plane c latches offset p value a).2) =
      (after c latches p (value.setWidth 8),
        { a with
          planes := put (c.planeEnable.getLsbD p) (shifted offset + p)
            (masked c (staged c p (value.setWidth 8)) (latch latches p)) a.planes }) := by
  have hrotate : (if c.rotate ≠ 0 then (rotate (value.setWidth 8) c.rotate.toNat).setWidth 32 else value).setWidth 8 =
      (value.setWidth 8).rotateRight c.rotate.toNat := by
    rw [← rotate_eq]
    split
    · exact BitVec.setWidth_setWidth_of_le _ (by decide)
    · rfl
  unfold mode0Plane after staged put
  cases c.planeEnable.getLsbD p with
  | false => rfl
  | true =>
    cases c.srEnable.getLsbD p with
    | true =>
      have hval : (c.doLogicals (c.srValue p) (getLatch latches p)).setWidth 8 =
          masked c (all (c.setReset.getLsbD p)) (latch latches p) := by rw [doLogicals_eq, srValue_eq c hp, getLatch_eq]
      simp only [if_true, Adapter.store, hval]
    | false =>
      have hval := doLogicals_eq c (if c.rotate ≠ 0 then (rotate (value.setWidth 8) c.rotate.toNat).setWidth 32 else value)
        (getLatch latches p)
      rw [hrotate, getLatch_eq] at hval
      simp only [if_true, Bool.false_eq_true, if_false, Adapter.store, hval, hrotate]

theorem egaMode0ChnBWrite_eq : egaMode0ChnBWrite c latches value offset a =
    wrote offset (c.planeEnable.getLsbD (offset % 2)) (c.planeEnable.getLsbD (offset % 2 + 2))
      (masked c (staged c (offset % 2) (value.setWidth 8)) (latch latches (offset % 2)))
      (masked c (staged c (offset % 2 + 2) (after c latches (offset % 2) (value.setWidth 8))) (latch latches (offset % 2 + 2)))
      offset a := by
  have hparity : offset % 2 < 2 := Nat.mod_lt _ (by decide)
  have hfirst := @mode0Plane_eq c latches value offset (a.markByte offset) (offset % 2) (by omega)
  obtain ⟨hvalue, hadapter⟩ := Prod.mk.inj hfirst
  let first := mode0Plane c latches offset (offset % 2) value (a.markByte offset)
  refine (congrArg Prod.snd (@mode0Plane_eq c latches first.1 offset first.2 (offset % 2 + 2) (by omega))).trans ?_
  rw [hvalue, hadapter]
  rfl

theorem egaMode1ChnBWrite_eq : egaMode1ChnBWrite c latches offset a =
    wrote offset (c.planeEnable.getLsbD (offset % 2)) (c.planeEnable.getLsbD (offset % 2 + 2))
      (latch latches (offset % 2)) (latch latches (offset % 2 + 2)) (shifted offset) a := by
  rw [← getLatch_eq, ← getLatch_eq]
  unfold egaMode1ChnBWrite storeIf wrote put
  cases c.planeEnable.getLsbD (offset % 2) <;> cases c.planeEnable.getLsbD (offset % 2 + 2) <;> rfl

theorem egaMode2ChnBWrite_eq : egaMode2ChnBWrite c latches value offset a =
    wrote offset (c.planeEnable.getLsbD (offset % 2))
      (c.planeEnable.getLsbD (if offset % 2 = 1 ∨ c.funOrProtection then offset % 2 + 2 else 3))
      (masked c (all ((value.setWidth 8).getLsbD (offset % 2))) (latch latches (offset % 2)))
      (masked c (all ((value.setWidth 8).getLsbD (offset % 2 + 2))) (latch latches (offset % 2 + 2))) (shifted offset) a := by
  have hparity : offset % 2 < 2 := Nat.mod_lt _ (by decide)
  have hstore (test i : ℕ) (x : BitVec 32) (a : Adapter) :
      storeIf c test i x a = { a with planes := put (c.planeEnable.getLsbD test) i (x.setWidth 8) a.planes } := by
    unfold storeIf put
    cases c.planeEnable.getLsbD test <;> rfl
  have hover (p : ℕ) (hp : p < 4) : (expandLogicals c latches value p).setWidth 8 =
      masked c (all ((value.setWidth 8).getLsbD p)) (latch latches p) := by
    rw [expandLogicals, doLogicals_eq, expand_eq _ (by omega), getLatch_eq]
  have hplain (hfun : c.funOrProtection = false) (p : ℕ) (hp : p < 4) : (expand value p).setWidth 8 =
      masked c (all ((value.setWidth 8).getLsbD p)) (latch latches p) := by
    rw [expand_eq _ (by omega), masked_plain c hfun]
  unfold egaMode2ChnBWrite
  simp only [hstore]
  rcases Nat.mod_two_eq_zero_or_one offset with h0 | h1
  · cases hfun : c.funOrProtection with
    | true =>
      simp [wrote, h0, hover]
      rfl
    | false =>
      simp [wrote, h0, hplain hfun]
      rfl
  · cases hfun : c.funOrProtection with
    | true =>
      simp [wrote, h1, hover]
      rfl
    | false =>
      simp [wrote, h1, hplain hfun]
      rfl

end

/-! ## Where they are right -/

namespace Controller

variable (c : Controller)

/-- `ega_copy` writes the planes that are enabled, and there is nothing to rotate. -/
def CopyRight (parity : ℕ) : Prop :=
  c.rotate = 0 ∧ (c.wplane = 0 ↔ c.planeEnable.getLsbD parity) ∧ (c.wplane = 2 ↔ c.planeEnable.getLsbD (parity + 2))

/-- The second plane of mode 0 does not take the value from the first one, rotated or replaced. -/
def Mode0Right (parity : ℕ) : Prop :=
  ¬(c.planeEnable.getLsbD parity ∧ c.planeEnable.getLsbD (parity + 2) ∧ ¬c.srEnable.getLsbD (parity + 2) ∧ c.bitProt ≠ 0 ∧
    (c.srEnable.getLsbD parity ∨ c.rotate ≠ 0))

instance (parity : ℕ) : Decidable (c.CopyRight parity) := inferInstanceAs (Decidable (_ ∧ _))

instance (parity : ℕ) : Decidable (c.Mode0Right parity) := inferInstanceAs (Decidable ¬_)

/-- The byte routine is right. -/
def Right (offset : ℕ) : Prop :=
  if c.writeMode = 0 then if c.lookup = 0 then c.CopyRight (offset % 2) else c.Mode0Right (offset % 2)
  else offset = 0 ∧ (c.writeMode = 1 ∨ c.funOrProtection ∨ (c.planeEnable.getLsbD 2 ↔ c.planeEnable.getLsbD 3))

theorem lookup_eq_zero {c : Controller} (h : c.lookup = 0) : c.srEnable = 0 ∧ c.bitProt = 0xff ∧ c.func = .assign := by
  have hfields : ∀ b b' b'' : Bool, ∀ f : Func,
      (BitVec.ofBool b ++ BitVec.ofBool b' ++ f.code ++ BitVec.ofBool b'' : BitVec 5) = 0 →
        b = false ∧ b' = false ∧ f = .assign := by
    intro b b' b'' f
    cases f <;> revert b b' b'' <;> decide
  obtain ⟨hsr, hprot, hfunc⟩ := hfields _ _ _ _ h
  exact ⟨not_not.mp (of_decide_eq_false hsr), not_not.mp (of_decide_eq_false hprot), hfunc⟩

end Controller

variable {c : Controller} {offset : ℕ}

theorem copyRight_iff (hmode : c.writeMode = 0) (hlookup : c.lookup = 0) :
    (∀ latches value a, egaCopyBWrite c value offset a = written c latches (value.setWidth 8) offset a) ↔
      c.CopyRight (offset % 2) := by
  obtain ⟨hsr, hprot, hfunc⟩ := Controller.lookup_eq_zero hlookup
  have hpipe (latches : BitVec 32) (v : BitVec 8) (p : ℕ) : pipeline c latches v p = v.rotateRight c.rotate.toNat := by
    rw [pipeline, if_pos hmode, masked_assign hfunc hprot, hsr]
    simp
  have hwplane : c.wplane = 0 ∨ c.wplane = 2 := by
    unfold Controller.wplane
    split
    · exact .inr rfl
    · exact .inl rfl
  have hzero : ∀ v : BitVec 8, v.rotateRight 0 = v := by decide
  have hrotate : ∀ r : BitVec 3, (1#32).setWidth 8 = ((1#32).setWidth 8).rotateRight r.toNat → r = 0 := by decide
  simp only [egaCopyBWrite_eq, wrote_written, hpipe, wrote_iff, and_true]
  constructor
  · intro h
    obtain ⟨⟨hp, hx⟩, hq, hy⟩ := h 0 1
    refine ⟨hrotate _ ?_, by rw [← hp, decide_eq_true_iff], by rw [← hq, decide_eq_true_iff]⟩
    rcases hwplane with hw | hw
    · exact hx (decide_eq_true hw)
    · exact hy (decide_eq_true hw)
  · rintro ⟨hr, hp, hq⟩ latches value
    have hsame (v : BitVec 8) : v = v.rotateRight c.rotate.toNat := by
      rw [hr]
      exact (hzero v).symm
    exact ⟨⟨Bool.eq_iff_iff.mpr (decide_eq_true_iff.trans hp), fun _ => hsame _⟩,
      Bool.eq_iff_iff.mpr (decide_eq_true_iff.trans hq), fun _ => hsame _⟩

theorem mode0Right_iff (hmode : c.writeMode = 0) :
    (∀ latches value a, egaMode0ChnBWrite c latches value offset a = written c latches (value.setWidth 8) offset a) ↔
      c.Mode0Right (offset % 2) := by
  have hparity : offset % 2 < 2 := Nat.mod_lt _ (by decide)
  have hpipe (latches : BitVec 32) (v : BitVec 8) (p : ℕ) : pipeline c latches v p = masked c (staged c p v) (latch latches p) := by
    rw [pipeline, if_pos hmode, staged]
  simp only [egaMode0ChnBWrite_eq, wrote_written, hpipe, wrote_iff, and_true, true_and, implies_true]
  constructor
  · rintro h ⟨hp, hq, hsr, hprot, hvalue⟩
    obtain ⟨i, hi, hbit⟩ : ∃ i < 8, c.bitProt.getLsbD i := by
      by_contra hnone
      refine hprot (BitVec.eq_of_getLsbD_eq fun i hi => ?_)
      refine Eq.trans ?_ BitVec.getLsbD_zero.symm
      exact Bool.eq_false_iff.mpr fun hbit => hnone ⟨i, hi, hbit⟩
    have hshow (v : BitVec 8) := congrArg (BitVec.getLsbD · i) (h (clear c) (v.setWidth 32) hq)
    simp only [masked_clear hi hbit (show offset % 2 + 2 < 4 by omega), staged, if_neg hsr,
      BitVec.setWidth_setWidth_of_le _ (show 8 ≤ 32 by decide), BitVec.setWidth_eq, after, if_pos hp] at hshow
    by_cases hsr' : c.srEnable.getLsbD (offset % 2)
    · -- The first plane leaves one byte, whatever the value.
      simp only [if_pos hsr'] at hshow
      generalize masked c (all (c.setReset.getLsbD (offset % 2))) (latch (clear c) (offset % 2)) = left at hshow
      have hnot := hshow (~~~left)
      rw [rotateRight_not, BitVec.getLsbD_not] at hnot
      simp [hi] at hnot
    · -- The value is rotated twice.
      simp only [if_neg hsr'] at hshow
      have hr : c.rotate ≠ 0 := hvalue.resolve_left hsr'
      have htwice : ∀ r : BitVec 3, r ≠ 0 → ∀ i < 8,
          (((1#8 <<< ((i + r.toNat) % 8)).rotateRight r.toNat).rotateRight r.toNat).getLsbD i ≠
            ((1#8 <<< ((i + r.toNat) % 8)).rotateRight r.toNat).getLsbD i := by decide
      exact htwice _ hr i hi (hshow _)
  · intro h latches value hq
    by_cases hsr : c.srEnable.getLsbD (offset % 2 + 2)
    · rw [staged, staged, if_pos hsr, if_pos hsr]
    by_cases hprot : c.bitProt = 0
    · rw [masked_zero hprot, masked_zero hprot]
    · have hafter : after c latches (offset % 2) (value.setWidth 8) = value.setWidth 8 := by
        unfold after
        split
        · rename_i hp
          obtain ⟨hsr', hr⟩ := not_or.mp fun hvalue => h ⟨hp, hq, hsr, hprot, hvalue⟩
          have hzero : ∀ v : BitVec 8, v.rotateRight 0 = v := by decide
          rw [if_neg hsr', staged, if_neg hsr', not_not.mp hr]
          exact hzero _
        · rfl
      rw [hafter]

theorem byteWrite_right_iff (hmode : c.writeMode ≠ 3) :
    (∀ latches value a, byteWrite c latches value offset a = written c latches (value.setWidth 8) offset a) ↔
      c.Right offset := by
  have hmodes : ∀ m : BitVec 2, m ≠ 3 → m ≠ 0 → m ≠ 1 → m = 2 := by decide
  have hmark : shifted offset = offset ↔ offset = 0 := by
    unfold shifted
    omega
  by_cases h0 : c.writeMode = 0
  · rw [Controller.Right, if_pos h0]
    by_cases hlookup : c.lookup = 0
    · simp only [byteWrite, if_pos h0, if_pos hlookup]
      exact copyRight_iff h0 hlookup
    · simp only [byteWrite, if_pos h0, if_neg hlookup]
      exact mode0Right_iff h0
  rw [Controller.Right, if_neg h0]
  by_cases h1 : c.writeMode = 1
  · simp only [byteWrite, if_neg h0, if_pos h1, egaMode1ChnBWrite_eq, wrote_written, pipeline, wrote_iff, hmark]
    simp [h1]
  · have h2 := hmodes c.writeMode hmode h0 h1
    simp only [byteWrite, if_neg h0, if_neg h1, egaMode2ChnBWrite_eq, wrote_written, pipeline, wrote_iff, hmark]
    simp only [implies_true, true_and, and_true, h1, false_or]
    constructor
    · intro h
      obtain ⟨hq, rfl⟩ := h 0 0
      refine ⟨rfl, ?_⟩
      by_cases hfun : c.funOrProtection
      · exact .inl hfun
      · rw [if_neg (by simpa using hfun)] at hq
        exact .inr (Bool.eq_iff_iff.mp hq.symm)
    · rintro ⟨rfl, hplane⟩ latches value
      refine ⟨?_, rfl⟩
      by_cases hfun : c.funOrProtection
      · rw [if_pos (.inr hfun)]
      · rw [if_neg (by simpa using hfun)]
        exact (Bool.eq_iff_iff.mpr (hplane.resolve_left hfun)).symm

theorem storeIf_marked (c : Controller) (test i : ℕ) (x : BitVec 32) (a : Adapter) :
    (storeIf c test i x a).marked = a.marked := by
  unfold storeIf
  split <;> rfl

theorem egaCopyWWrite_eq (c : Controller) (value : BitVec 32) (offset : ℕ) (a : Adapter) :
    egaCopyWWrite c value offset a =
      egaCopyBWrite c (value >>> 8 &&& 0xff) (offset + 1) (egaCopyBWrite c (value &&& 0xff) offset a) := by
  unfold egaCopyWWrite egaCopyBWrite Adapter.store Adapter.markByte Adapter.markWord
  simp only [setWidth_low]
  rcases Nat.mod_two_eq_zero_or_one offset with h0 | h1
  · have hnext : (offset + 1) % 2 = 1 := by omega
    have hshifted : shifted (offset + 1) = shifted offset := by
      unfold shifted
      omega
    rw [h0, hnext, hshifted]
    rfl
  · have hnext : (offset + 1) % 2 = 0 := by omega
    have hshifted : shifted (offset + 1) = shifted offset + 8 := by
      unfold shifted
      omega
    rw [h1, hnext, hshifted]
    rfl

/-- Write modes 1 and 2 mark where in the planes a byte is… -/
theorem byteWrite_marked (h0 : c.writeMode ≠ 0) (latches value : BitVec 32) (a : Adapter) :
    (byteWrite c latches value offset a).marked = insert (shifted offset) a.marked := by
  unfold byteWrite
  rw [if_neg h0, egaMode1ChnBWrite_eq, egaMode2ChnBWrite_eq]
  split <;> rfl

/-- …and what follows it. -/
theorem wordWrite_marked (h0 : c.writeMode ≠ 0) (latches value : BitVec 32) (a : Adapter) :
    (wordWrite c latches value offset a).marked = insert (shifted offset + 1) (insert (shifted offset) a.marked) := by
  unfold wordWrite
  rw [if_neg h0]
  split
  · unfold egaMode1ChnWWrite
    dsimp only [Adapter.markWord]
    split <;> simp only [storeIf_marked]
  · unfold egaMode2ChnWWrite
    dsimp only [Adapter.markWord]
    split <;> simp only [storeIf_marked]

theorem wordWrite_bytes_iff :
    (∀ latches value a, wordWrite c latches value offset a =
      byteWrite c latches (value >>> 8 &&& 0xff) (offset + 1) (byteWrite c latches (value &&& 0xff) offset a)) ↔
      c.writeMode = 0 := by
  constructor
  · intro h
    by_contra h0
    have hmark := congrArg (shifted offset + 1 ∈ ·.marked) (h 0 0 ⟨fun _ => 0, ∅⟩)
    have hnext : shifted (offset + 1) ≠ shifted offset + 1 := by
      unfold shifted
      omega
    rw [wordWrite_marked h0, byteWrite_marked h0, byteWrite_marked h0] at hmark
    simp [hnext.symm] at hmark
  · intro h0 latches value a
    unfold wordWrite byteWrite
    rw [if_pos h0, if_pos h0, if_pos h0]
    by_cases hlookup : c.lookup = 0
    · rw [if_pos hlookup, if_pos hlookup, if_pos hlookup]
      exact egaCopyWWrite_eq c value offset a
    · rw [if_neg hlookup, if_neg hlookup, if_neg hlookup, egaMode0ChnWWrite]
      simp only [egaMode0ChnBWrite_eq, setWidth_low]

/-- **Where the BIOS writes follow the pipeline**: in write mode 0 only. -/
theorem chain2_writes_iff (c : Controller) (hmode : c.writeMode ≠ 3) (offset : ℕ) :
    (∀ latches value a,
      byteWrite c latches value offset a = written c latches (value.setWidth 8) offset a ∧
        wordWrite c latches value offset a =
          byteWrite c latches (value >>> 8 &&& 0xff) (offset + 1) (byteWrite c latches (value &&& 0xff) offset a)) ↔
      c.writeMode = 0 ∧ if c.lookup = 0 then c.CopyRight (offset % 2) else c.Mode0Right (offset % 2) := by
  simp only [forall_and, byteWrite_right_iff hmode, wordWrite_bytes_iff]
  rw [and_comm, and_congr_right_iff]
  intro h0
  rw [Controller.Right, if_pos h0]

/-- Text: planes 0 and 1, nothing else. -/
def text : Controller where
  writeMode := 0
  rotate := 0
  setReset := 0
  srEnable := 0
  func := .assign
  bitProt := 0xff
  planeEnable := 3
  funOrProtection := false
  complicated h := absurd h (by decide)

/-- The attribute byte of a cell of a blank screen. -/
theorem chain2_writes_text :
    byteWrite text 0 0x07 7 ⟨fun _ => 0, ∅⟩ = written text 0 ((0x07 : BitVec 32).setWidth 8) 7 ⟨fun _ => 0, ∅⟩ :=
  ((chain2_writes_iff text (by decide) 7).mpr (by decide) 0 0x07 ⟨fun _ => 0, ∅⟩).1

/-- Plane 2, in write mode 2, is not written at an even offset. -/
theorem chain2_write_missed :
    ¬∀ latches value a, byteWrite { text with writeMode := 2, planeEnable := 4 } latches value 0 a =
      written { text with writeMode := 2, planeEnable := 4 } latches (value.setWidth 8) 0 a := by
  intro h
  have hplane := congrFun (congrArg Adapter.planes (h 0 4 ⟨fun _ => 0, ∅⟩)) 2
  exact absurd hplane (by decide)

end SoftPC.Video.ChainTwo
