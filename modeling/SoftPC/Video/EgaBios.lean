import SoftPC.Machinery.Raster
import SoftPC.Video.ChainTwo
import SoftPC.Video.EgaMarks
import Mathlib.Data.List.Find

/-!
# Video/EgaBios — pixels and characters of the planar and the 256-colour modes

    ega_write_dot, ega_graphics_write_char ──▸ EGA_planes ──▸ ega_read_dot, ega_read_attrib_char
                         └──▸ mark_byte, mark_fill ──▸ video_copy, dirty_low, dirty_high, dirty_total

`ega_vide.c` and `vga_vide.c`.  A word of `EGA_planes` has the same byte of the four planes, plane 0 lowest
(`sr_lookup`).  `ega_read_dot` has plane 0 highest (`readDot_eq`), so a colour reads back as written only when it is
the same both ways.
-/

namespace SoftPC.Video.EgaBios

open ChainTwo.Controller (srLookup)
open Raster (place)

/-! ## The planes -/

/-- A byte in each plane. -/
def spread (data : BitVec 8) : BitVec 32 :=
  let data := data.setWidth 32
  let temp := data <<< 8
  let data := data ||| temp
  let temp := data <<< 16
  data ||| temp

/-- The colour of a pixel of a word: plane `k` has bit `k`. -/
def colourAt (w : BitVec 32) (s : ℕ) : BitVec 4 :=
  BitVec.ofBool (w.getLsbD (24 + s)) ++ BitVec.ofBool (w.getLsbD (16 + s)) ++ BitVec.ofBool (w.getLsbD (8 + s)) ++
    BitVec.ofBool (w.getLsbD s)

theorem colourAt_getLsbD (w : BitVec 32) (s : ℕ) {k : ℕ} (hk : k < 4) :
    (colourAt w s).getLsbD k = w.getLsbD (8 * k + s) := by
  obtain rfl | rfl | rfl | rfl : k = 0 ∨ k = 1 ∨ k = 2 ∨ k = 3 := by omega
  all_goals
    simp only [colourAt, BitVec.getLsbD_append, BitVec.getLsbD_ofBool]
    simp

/-- A byte in all planes. -/
theorem spread_getLsbD (data : BitVec 8) {s : ℕ} (hs : s < 8) {k : ℕ} (hk : k < 4) :
    (spread data).getLsbD (8 * k + s) = data.getLsbD s := by
  have hbeyond (n : ℕ) (h : 8 ≤ n) : data.getLsbD n = false := BitVec.getLsbD_of_ge data n h
  simp only [spread, BitVec.getLsbD_or, BitVec.getLsbD_shiftLeft, BitVec.getLsbD_setWidth]
  obtain rfl | rfl | rfl | rfl : k = 0 ∨ k = 1 ∨ k = 2 ∨ k = 3 := by omega
  · simp [show s < 32 by omega, show s < 16 by omega, hs]
  · simp [show 8 + s < 32 by omega, show 8 + s < 16 by omega, show s < 32 by omega]
  · simp [show 16 + s < 32 by omega, hbeyond (16 + s) (by omega), show s < 32 by omega, hs,
      hbeyond (16 + s - 8) (by omega)]
  · simp [show 24 + s < 32 by omega, hbeyond (24 + s) (by omega), show s < 32 by omega, hs,
      hbeyond (24 + s - 8) (by omega), show 24 + s - 16 - 8 = s by omega, hbeyond (24 + s - 16) (by omega),
      show 24 + s - 16 < 32 by omega, show ¬24 + s - 16 < 8 by omega, show 16 ≤ 24 + s by omega]

theorem colourAt_spread (data : BitVec 8) {s : ℕ} (hs : s < 8) :
    colourAt (spread data) s = if data.getLsbD s then BitVec.allOnes 4 else 0#4 := by
  ext k hk
  rw [← BitVec.getLsbD_eq_getElem, colourAt_getLsbD _ _ hk, spread_getLsbD data hs hk]
  have hones : ∀ (k : ℕ) (hk : k < 4), (15#4)[k] = true := by decide
  cases data.getLsbD s with
  | false => simp
  | true => simp [hones k hk]

theorem colourAt_srLookup (c : BitVec 4) {s : ℕ} (hs : s < 8) : colourAt (srLookup.getD c.toNat 0) s = c := by
  have h : ∀ c : BitVec 4, ∀ s < 8, colourAt (srLookup.getD c.toNat 0) s = c := by decide
  exact h c s hs

section

variable (v w : BitVec 32) (s : ℕ)

theorem colourAt_and : colourAt (v &&& w) s = colourAt v s &&& colourAt w s := by
  ext k hk
  simp [← BitVec.getLsbD_eq_getElem, colourAt_getLsbD _ _ hk]

theorem colourAt_or : colourAt (v ||| w) s = colourAt v s ||| colourAt w s := by
  ext k hk
  simp [← BitVec.getLsbD_eq_getElem, colourAt_getLsbD _ _ hk]

theorem colourAt_xor : colourAt (v ^^^ w) s = colourAt v s ^^^ colourAt w s := by
  ext k hk
  simp [← BitVec.getLsbD_eq_getElem, colourAt_getLsbD _ _ hk]

theorem colourAt_not (hs : s < 8) : colourAt (~~~w) s = ~~~colourAt w s := by
  ext k hk
  have hlt : 8 * k + s < 32 := by omega
  simp [← BitVec.getLsbD_eq_getElem, colourAt_getLsbD _ _ hk, hlt, hk]

end

/-! ## Dots -/

/-- What the routines read of the machine: the adapter, `vd_video_mode`, `VID_COLS`, `VID_LEN`, `ega_char_height`, and
the bytes at the pointer `EGA_FONT_INT`. -/
structure Bios where
  vga : Bool
  videoMode : BitVec 8
  cols : ℕ
  len : ℕ
  charHeight : ℕ
  font : ℕ → BitVec 8

/-- The words of `EGA_planes`. -/
abbrev Planes := ℕ → BitVec 32

def v7Mode64Munge : List (BitVec 8) := [0, 3, 12, 15]

namespace Bios

variable (b : Bios)

/-- The mode of 1024 by 768 in four colours. -/
def Munges : Prop := b.vga = true ∧ b.videoMode = 0x18

instance : Decidable b.Munges := inferInstanceAs (Decidable (_ ∧ _))

/-- The colour that is drawn. -/
def munge (colour : BitVec 8) : BitVec 8 :=
  if b.Munges then v7Mode64Munge.getD (colour &&& 3).toNat 0 else colour

/-- `pixmask`, before it is in all planes, and `mask`. -/
def pixmask (pixcol : ℕ) : BitVec 8 := (0x80 : BitVec 8) >>> (pixcol % 8)

/-- `ega_write_dot`. -/
def writeDot (colour : BitVec 8) (page pixcol row : ℕ) (planes : Planes) : Planes :=
  let screenOff := page * b.len + row * b.cols % 0x10000 + pixcol / 8
  let pixmask := spread (pixmask pixcol)
  let colour := b.munge colour
  let colourmask := srLookup.getD (colour &&& 0xf).toNat 0
  let setmask := pixmask &&& colourmask
  let temp := planes screenOff
  Function.update planes screenOff
    (if colour &&& 0x80 ≠ 0 then temp ^^^ setmask else (temp &&& ~~~pixmask) ||| setmask)

/-- `ega_read_dot`; `none` leaves AL as it is. -/
def readDot (page col row : ℕ) (planes : Planes) : Option (BitVec 8) :=
  if row.testBit 15 then none
  else
    let screenOff := page * b.len + row * b.cols + col / 8
    let mask := (pixmask col).setWidth 32
    let shift := 7 - col % 8
    let data := planes screenOff
    let val := ((data >>> 24) &&& mask) >>> shift
    let val := val ||| (((data >>> 16) &&& mask) >>> shift) <<< 1
    let val := val ||| (((data >>> 8) &&& mask) >>> shift) <<< 2
    let val := val ||| ((data &&& mask) >>> shift) <<< 3
    some (val.setWidth 8)

end Bios

/-- A pixel of a byte, from the right. -/
def shiftOf (pixcol : ℕ) : ℕ := 7 - pixcol % 8

theorem shiftOf_lt (pixcol : ℕ) : shiftOf pixcol < 8 := by
  unfold shiftOf
  omega

theorem pixmask_eq (pixcol : ℕ) : Bios.pixmask pixcol = BitVec.twoPow 8 (shiftOf pixcol) := by
  have h : ∀ i < 8, (0x80#8) >>> i = BitVec.twoPow 8 (7 - i) := by decide
  exact h (pixcol % 8) (Nat.mod_lt _ (by decide))

theorem colourAt_pixmask (pixcol : ℕ) {s : ℕ} (hs : s < 8) :
    colourAt (spread (Bios.pixmask pixcol)) s = if s = shiftOf pixcol then BitVec.allOnes 4 else 0#4 := by
  rw [colourAt_spread _ hs, pixmask_eq, BitVec.getLsbD_twoPow, decide_eq_true (shiftOf_lt pixcol), Bool.true_and]
  simp only [decide_eq_true_eq, eq_comm (a := s)]

/-- A bit under the mask, shifted down. -/
theorem masked_eq (data : BitVec 32) {s : ℕ} (hs : s < 8) :
    (data &&& (BitVec.twoPow 8 s).setWidth 32) >>> s = (BitVec.ofBool (data.getLsbD s)).setWidth 32 := by
  ext i hi
  simp only [← BitVec.getLsbD_eq_getElem, BitVec.getLsbD_ushiftRight, BitVec.getLsbD_and, BitVec.getLsbD_setWidth,
    BitVec.getLsbD_twoPow, BitVec.getLsbD_ofBool]
  by_cases hzero : i = 0
  · subst hzero
    simp [hs, (by omega : s < 32)]
  · simp [hzero]

/-- **The reader has the planes the other way around.** -/
theorem readDot_eq (b : Bios) {page col row : ℕ} (hrow : row.testBit 15 = false) (planes : Planes) :
    b.readDot page col row planes =
      some ((colourAt (planes (page * b.len + row * b.cols + col / 8)) (shiftOf col)).reverse.setWidth 8) := by
  unfold Bios.readDot
  rw [if_neg (by rw [hrow]; decide)]
  dsimp only
  generalize planes _ = data
  rw [pixmask_eq, show 7 - col % 8 = shiftOf col from rfl]
  simp only [masked_eq _ (shiftOf_lt col), colourAt, BitVec.getLsbD_ushiftRight]
  cases data.getLsbD (24 + shiftOf col) <;> cases data.getLsbD (16 + shiftOf col) <;>
    cases data.getLsbD (8 + shiftOf col) <;> cases data.getLsbD (shiftOf col) <;> rfl

/-- The colour that a dot leaves. -/
def Bios.put (b : Bios) (colour : BitVec 8) (old : BitVec 4) : BitVec 4 :=
  if b.munge colour &&& 0x80 ≠ 0 then old ^^^ (b.munge colour).setWidth 4 else (b.munge colour).setWidth 4

theorem srLookup_eq (colour : BitVec 8) {s : ℕ} (hs : s < 8) :
    colourAt (srLookup.getD (colour &&& 0xf).toNat 0) s = colour.setWidth 4 := by
  have h : (colour &&& 0xf).toNat = (colour.setWidth 4).toNat := by
    rw [BitVec.toNat_and, BitVec.toNat_setWidth]
    exact Nat.and_two_pow_sub_one_eq_mod colour.toNat 4
  rw [h, colourAt_srLookup _ hs]

variable (b : Bios) (colour : BitVec 8) (page pixcol row : ℕ) (planes : Planes)

/-- Where the writer has a dot. -/
def Bios.written : ℕ := page * b.len + row * b.cols % 0x10000 + pixcol / 8

theorem writeDot_of_ne {a : ℕ} (h : a ≠ b.written page pixcol row) :
    b.writeDot colour page pixcol row planes a = planes a := Function.update_of_ne h _ _

theorem writeDot_written {s : ℕ} (hs : s < 8) :
    colourAt (b.writeDot colour page pixcol row planes (b.written page pixcol row)) s =
      if s = shiftOf pixcol then b.put colour (colourAt (planes (b.written page pixcol row)) s)
      else colourAt (planes (b.written page pixcol row)) s := by
  unfold Bios.writeDot Bios.written Bios.put
  rw [Function.update_self]
  generalize planes _ = temp
  split_ifs with hxor hpixel hpixel
  · rw [colourAt_xor, colourAt_and, colourAt_pixmask _ hs, srLookup_eq _ hs, if_pos hpixel,
      BitVec.allOnes_and]
  · rw [colourAt_xor, colourAt_and, colourAt_pixmask _ hs, if_neg hpixel]
    simp
  · rw [colourAt_or, colourAt_and, colourAt_and, colourAt_not _ _ hs, colourAt_pixmask _ hs, srLookup_eq _ hs,
      if_pos hpixel, BitVec.allOnes_and, BitVec.not_allOnes, BitVec.and_zero, BitVec.zero_or]
  · rw [colourAt_or, colourAt_and, colourAt_and, colourAt_not _ _ hs, colourAt_pixmask _ hs, if_neg hpixel,
      BitVec.zero_and, BitVec.or_zero]
    exact BitVec.and_allOnes

/-! ## Characters -/

namespace Bios

/-- A row of a character. -/
def glyph (b : Bios) (ch : BitVec 8) (i : ℕ) : BitVec 8 := b.font (b.charHeight * ch.toNat + i)

/-- `colourmask` of `write_ch_set` and `write_ch_xor`. -/
def colourmask (b : Bios) (colour : BitVec 8) : BitVec 32 :=
  if b.videoMode = 0x11 then BitVec.allOnes 32 else srLookup.getD (colour &&& 0xf).toNat 0

/-- `write_ch_set` and `write_ch_xor`, which differ in what a word becomes.  One character is written by a loop of its
own. -/
def writeCh (b : Bios) (store : BitVec 32 → BitVec 32 → BitVec 32) (ch : BitVec 8) (screenOff : ℕ) (colour : BitVec 8)
    (nchs : ℕ) : Planes → Planes :=
  if nchs = 1 then
    inPlace (fun i => screenOff + i * b.cols)
      (fun i screen => store screen (spread (b.glyph ch i) &&& b.colourmask colour))
      (List.range b.charHeight)
  else
    inPlace (fun p => screenOff + place b.cols p)
      (fun p screen => store screen (spread (b.glyph ch p.1) &&& b.colourmask colour))
      (List.range b.charHeight ×ˢ List.range nchs)

def writeChSet (b : Bios) : BitVec 8 → ℕ → BitVec 8 → ℕ → Planes → Planes := b.writeCh fun _ data => data

def writeChXor (b : Bios) : BitVec 8 → ℕ → BitVec 8 → ℕ → Planes → Planes :=
  b.writeCh fun screen data => screen ^^^ data

/-- `screen_off` of a character. -/
def screenOff (b : Bios) (col row page : ℕ) : ℕ := page * b.len + row * b.cols * b.charHeight + col

/-- The marks of `ega_graphics_write_char`. -/
def markChar (b : Bios) (screenOff nchs : ℕ) (d : Dirty) : Dirty :=
  let nchs := (nchs : ℤ) - 1
  if nchs ≠ 0 then
    (List.range b.charHeight).foldl
      (fun d i => d.markString (screenOff + i * b.cols : ℕ) ((screenOff + i * b.cols : ℕ) + nchs)) d
  else (List.range b.charHeight).foldl (fun d i => d.markByte (screenOff + i * b.cols : ℕ)) d

/-- `ega_graphics_write_char`. -/
def graphicsWriteChar (b : Bios) (col row : ℕ) (ch colour : BitVec 8) (page nchs : ℕ) (s : Planes × Dirty) :
    Planes × Dirty :=
  let screenOff := b.screenOff col row page
  let colour := b.munge colour
  (if colour &&& 0x80 ≠ 0 then b.writeChXor ch screenOff colour nchs s.1 else b.writeChSet ch screenOff colour nchs s.1,
    b.markChar screenOff nchs s.2)

def searchFont (b : Bios) (theChar : List (BitVec 8)) : BitVec 8 :=
  match (List.range 256).find? fun i => (List.range b.charHeight).map (b.glyph (BitVec.ofNat 8 i)) == theChar with
  | some i => BitVec.ofNat 8 i
  | none => 0

/-- The byte of `ega_read_attrib_char`: where any plane has a bit. -/
def anyPlane (data : BitVec 32) : BitVec 8 :=
  let data := data.sshiftRight 16 ||| data
  (data.sshiftRight 8 ||| data).setWidth 8

/-- `ega_read_attrib_char`. -/
def readAttribChar (b : Bios) (col row page : ℕ) (planes : Planes) : BitVec 8 :=
  b.searchFont ((List.range b.charHeight).map fun i => anyPlane (planes (b.screenOff col row page + i * b.cols)))

end Bios

/-! ### The words and the marks of a row of characters -/

section

variable {store : BitVec 32 → BitVec 32 → BitVec 32} {ch : BitVec 8} {off nchs : ℕ}

/-- The words of the cells. -/
def Bios.cells (b : Bios) (off nchs : ℕ) : Set ℕ := Dirty.inRows b.charHeight b.cols off nchs

theorem writeCh_of_notMem {a : ℕ} (ha : a ∉ b.cells off nchs) :
    b.writeCh store ch off colour nchs planes a = planes a := by
  unfold Bios.writeCh
  split_ifs with hone
  · subst hone
    refine inPlace_of_ne fun i hi heq => ha ⟨i, List.mem_range.mp hi, 0, Nat.one_pos, heq.symm⟩
  · refine inPlace_of_ne fun p hp heq => ?_
    obtain ⟨hi, hj⟩ := List.mem_product.mp hp
    exact ha ⟨p.1, List.mem_range.mp hi, p.2, List.mem_range.mp hj, by rw [← heq, place, ← Nat.add_assoc]⟩

theorem writeCh_cell (hnchs : nchs ≤ b.cols) {i j : ℕ} (hi : i < b.charHeight) (hj : j < nchs) :
    b.writeCh store ch off colour nchs planes (off + i * b.cols + j) =
      store (planes (off + i * b.cols + j)) (spread (b.glyph ch i) &&& b.colourmask colour) := by
  unfold Bios.writeCh
  split_ifs with hone
  · subst hone
    obtain rfl : j = 0 := by omega
    refine inPlace_place List.nodup_range (fun k _ k' _ heq => ?_) (List.mem_range.mpr hi)
    exact Nat.eq_of_mul_eq_mul_right (by omega) (Nat.add_left_cancel heq)
  · have hplace : off + i * b.cols + j = off + place b.cols (i, j) := Nat.add_assoc _ _ _
    rw [hplace]
    refine inPlace_place (i := (i, j)) (List.Nodup.product List.nodup_range List.nodup_range)
      (fun p hp q hq heq => ?_) (List.mem_product.mpr ⟨List.mem_range.mpr hi, List.mem_range.mpr hj⟩)
    have hp := List.mem_range.mp (List.mem_product.mp hp).2
    have hq := List.mem_range.mp (List.mem_product.mp hq).2
    exact Raster.place_inj (by omega) (by omega) (Nat.add_left_cancel heq)

/-- A row of characters drawn twice by XOR is as before. -/
theorem writeChXor_twice (hnchs : nchs ≤ b.cols) :
    b.writeChXor ch off colour nchs (b.writeChXor ch off colour nchs planes) = planes := by
  funext a
  unfold Bios.writeChXor
  by_cases ha : a ∈ b.cells off nchs
  · obtain ⟨i, hi, j, hj, rfl⟩ := ha
    rw [writeCh_cell b colour _ hnchs hi hj, writeCh_cell b colour _ hnchs hi hj, BitVec.xor_assoc, BitVec.xor_self,
      BitVec.xor_zero]
  · rw [writeCh_of_notMem b colour _ ha, writeCh_of_notMem b colour _ ha]

/-- …and by the other only if it was there. -/
theorem writeChSet_twice (hnchs : nchs ≤ b.cols) :
    b.writeChSet ch off colour nchs (b.writeChSet ch off colour nchs planes) = planes ↔
      ∀ i < b.charHeight, ∀ j < nchs,
        planes (off + i * b.cols + j) = spread (b.glyph ch i) &&& b.colourmask colour := by
  unfold Bios.writeChSet
  constructor
  · intro h i hi j hj
    have hcell := congrFun h (off + i * b.cols + j)
    rw [writeCh_cell b colour _ hnchs hi hj] at hcell
    exact hcell.symm
  · intro h
    funext a
    by_cases ha : a ∈ b.cells off nchs
    · obtain ⟨i, hi, j, hj, rfl⟩ := ha
      rw [writeCh_cell b colour _ hnchs hi hj, h i hi j hj]
    · rw [writeCh_of_notMem b colour _ ha, writeCh_of_notMem b colour _ ha]

theorem markChar_eq (d : Dirty) :
    b.markChar off nchs d = d.markRows (fun i => (off + i * b.cols : ℕ)) (nchs - 1) b.charHeight := by
  unfold Bios.markChar Dirty.markRows
  dsimp only
  split_ifs with h
  · rfl
  · rw [not_ne_iff.mp h]
    simp only [Dirty.markByte_eq, add_zero]

end

/-! ### What is read -/

theorem searchFont_glyph (ch : BitVec 8) :
    IsLeast {i : BitVec 8 | ∀ k < b.charHeight, b.glyph i k = b.glyph ch k}
      (b.searchFont ((List.range b.charHeight).map (b.glyph ch))) := by
  have hlist (i : BitVec 8) : (List.range b.charHeight).map (b.glyph i) = (List.range b.charHeight).map (b.glyph ch) ↔
      ∀ k < b.charHeight, b.glyph i k = b.glyph ch k := by
    rw [List.map_inj_left]
    exact forall_congr' fun k => imp_congr_left List.mem_range
  have hch := ch.isLt
  unfold Bios.searchFont
  generalize hfind : List.find? _ _ = found
  cases found with
  | none =>
    refine absurd (List.find?_range_eq_none.mp hfind ch.toNat (by omega)) ?_
    simp
  | some i =>
    obtain ⟨hi, hmem, hleast⟩ := List.find?_range_eq_some.mp hfind
    have hlt := List.mem_range.mp hmem
    refine ⟨(hlist _).mp (beq_iff_eq.mp hi), fun j hj => ?_⟩
    have hnot : ¬ j.toNat < i := fun h => by
      have := hleast j.toNat h
      simp only [BitVec.ofNat_toNat, BitVec.setWidth_eq, Bool.not_eq_true', beq_eq_false_iff_ne, ne_eq] at this
      exact this ((hlist j).mpr hj)
    rw [BitVec.le_def, BitVec.toNat_ofNat]
    omega

theorem anyPlane_eq (w : BitVec 32) {s : ℕ} (hs : s < 8) : (Bios.anyPlane w).getLsbD s = decide (colourAt w s ≠ 0) := by
  have hand : (Bios.anyPlane w).getLsbD s =
      (w.getLsbD (24 + s) || w.getLsbD (8 + s) || (w.getLsbD (16 + s) || w.getLsbD s)) := by
    unfold Bios.anyPlane
    have hle : ¬ 32 ≤ s := by omega
    have hle' : ¬ 32 ≤ 8 + s := by omega
    simp only [BitVec.getLsbD_setWidth, BitVec.getLsbD_or, BitVec.getLsbD_sshiftRight, decide_eq_true hs,
      decide_eq_false hle, decide_eq_false hle', Bool.not_false, Bool.true_and, if_pos (by omega : 8 + s < 32),
      if_pos (by omega : 16 + s < 32), if_pos (by omega : 16 + (8 + s) < 32)]
    rw [← Nat.add_assoc]
  rw [hand]
  unfold colourAt
  cases w.getLsbD (24 + s) <;> cases w.getLsbD (16 + s) <;> cases w.getLsbD (8 + s) <;> cases w.getLsbD s <;> rfl

/-- A glyph in a colour that is not 0 reads as itself. -/
theorem anyPlane_spread (data : BitVec 8) {mask : BitVec 32} (hmask : ∀ s < 8, colourAt mask s ≠ 0) :
    Bios.anyPlane (spread data &&& mask) = data := by
  ext s hs
  rw [← BitVec.getLsbD_eq_getElem, ← BitVec.getLsbD_eq_getElem, anyPlane_eq _ hs, colourAt_and, colourAt_spread _ hs]
  cases data.getLsbD s
  · simp
  · rw [if_pos rfl, BitVec.allOnes_and]
    exact decide_eq_true (hmask s hs)

/-! ## The 256-colour modes -/

/-- The bytes of `EGA_plane0123`, a pixel each. -/
abbrev Pixels := ℕ → BitVec 8

namespace Bios

def vgaWriteDot (b : Bios) (colour : BitVec 8) (pixcol row : ℕ) (plane : Pixels) : Pixels :=
  Function.update plane (8 * row * b.cols + pixcol) colour

def vgaReadDot (b : Bios) (pixcol row : ℕ) (plane : Pixels) : BitVec 8 := plane (8 * row * b.cols + pixcol)

def scanLength (b : Bios) : ℕ := 8 * b.cols

/-- `screen_offset` of a character. -/
def screenOffset (b : Bios) (col row : ℕ) : ℕ := row * b.scanLength * b.charHeight + 8 * col

/-- The loops of `vga_graphics_write_char`, by row, character and pixel; the banks are 0. -/
def vgaWriteCh (b : Bios) (ch : BitVec 8) (screenOffset : ℕ) (colour : BitVec 8) (nchs : ℕ) : Pixels → Pixels :=
  inPlace (fun p => screenOffset + place b.scanLength (p.1, 8 * p.2.1 + p.2.2))
    (fun p _ => if b.glyph ch p.1 &&& pixmask p.2.2 ≠ 0 then colour else 0)
    (List.range b.charHeight ×ˢ List.range nchs ×ˢ List.range 8)

def vgaGraphicsWriteChar (b : Bios) (col row : ℕ) (ch colour : BitVec 8) (nchs : ℕ) (s : Pixels × Dirty) :
    Pixels × Dirty :=
  let screenOffset := b.screenOffset col row
  (b.vgaWriteCh ch screenOffset colour nchs s.1,
    s.2.markRows (fun i => (screenOffset + i * b.scanLength : ℕ)) ((8 * nchs : ℕ) - 1) b.charHeight)

/-- A byte of `vga_read_attrib_char`, of the pixels from `screen`. -/
def bytePixels (plane : Pixels) (screen : ℕ) : BitVec 8 :=
  (List.range 8).foldl (fun theChar k => if plane (screen + k) ≠ 0 then theChar ||| pixmask k else theChar) 0

def vgaReadAttribChar (b : Bios) (col row : ℕ) (plane : Pixels) : BitVec 8 :=
  b.searchFont ((List.range b.charHeight).map fun i => bytePixels plane (b.screenOffset col row + i * b.scanLength))

end Bios

theorem and_pixmask (val : BitVec 8) {k : ℕ} (hk : k < 8) :
    val &&& Bios.pixmask k ≠ 0 ↔ val.getLsbD (7 - k) = true := by
  have hmask : ∀ k < 8, Bios.pixmask k = BitVec.twoPow 8 (7 - k) ∧ BitVec.twoPow 8 (7 - k) ≠ 0#8 := by decide
  rw [(hmask k hk).1, BitVec.and_twoPow]
  cases val.getLsbD (7 - k) with
  | false => simp
  | true => simpa using (hmask k hk).2

theorem bytePixels_eq (plane : Pixels) (screen : ℕ) {s : ℕ} (hs : s < 8) :
    (Bios.bytePixels plane screen).getLsbD s = decide (plane (screen + (7 - s)) ≠ 0) := by
  have hfold : ∀ n ≤ 8, ((List.range n).foldl
      (fun theChar k => if plane (screen + k) ≠ 0 then theChar ||| Bios.pixmask k else theChar) 0).getLsbD s =
      decide (7 - s < n ∧ plane (screen + (7 - s)) ≠ 0) := by
    intro n hn
    induction n with
    | zero => simp
    | succ n ih =>
      have hbit : (Bios.pixmask n).getLsbD s = decide (n = 7 - s) := by
        rw [pixmask_eq, BitVec.getLsbD_twoPow, decide_eq_true (shiftOf_lt n), Bool.true_and, decide_eq_decide]
        unfold shiftOf
        omega
      rw [List.range_succ, List.foldl_append, List.foldl_cons, List.foldl_nil, apply_ite (BitVec.getLsbD · s),
        BitVec.getLsbD_or, ih (by omega), hbit]
      by_cases hlast : n = 7 - s
      · subst hlast
        simp
      · have hlt : 7 - s < n + 1 ↔ 7 - s < n := by omega
        simp [hlast, hlt]
  have hlt : 7 - s < 8 := by omega
  rw [Bios.bytePixels, hfold 8 le_rfl]
  simp only [hlt, true_and]

section

variable {ch : BitVec 8} {off nchs : ℕ} (plane : Pixels)

/-- The bytes of the cells. -/
def Bios.vgaCells (b : Bios) (off nchs : ℕ) : Set ℕ := Dirty.inRows b.charHeight b.scanLength off (8 * nchs)

theorem vgaWriteCh_of_notMem {a : ℕ} (ha : a ∉ b.vgaCells off nchs) :
    b.vgaWriteCh ch off colour nchs plane a = plane a := by
  refine inPlace_of_ne ?_
  rintro ⟨i, j, k⟩ hp heq
  simp only [List.mem_product, List.mem_range] at hp
  exact ha ⟨i, hp.1, 8 * j + k, by omega, by rw [← heq, place, ← Nat.add_assoc]⟩

theorem vgaWriteCh_cell (hnchs : nchs ≤ b.cols) {i j k : ℕ} (hi : i < b.charHeight) (hj : j < nchs) (hk : k < 8) :
    b.vgaWriteCh ch off colour nchs plane (off + i * b.scanLength + (8 * j + k)) =
      if (b.glyph ch i).getLsbD (7 - k) = true then colour else 0 := by
  have hplace : off + i * b.scanLength + (8 * j + k) = off + place b.scanLength (i, 8 * j + k) := Nat.add_assoc _ _ _
  have hmem {p : ℕ × ℕ × ℕ} (hp : p ∈ List.range b.charHeight ×ˢ List.range nchs ×ˢ List.range 8) :
      p.2.1 < nchs ∧ p.2.2 < 8 :=
    (List.mem_product.mp (List.mem_product.mp hp).2).imp List.mem_range.mp List.mem_range.mp
  rw [hplace]
  unfold Bios.vgaWriteCh
  rw [inPlace_place (i := (i, j, k)) (List.Nodup.product List.nodup_range
    (List.Nodup.product List.nodup_range List.nodup_range)) (fun p hp q hq heq => ?_)
    (List.mem_product.mpr ⟨List.mem_range.mpr hi, List.mem_product.mpr ⟨List.mem_range.mpr hj, List.mem_range.mpr hk⟩⟩)]
  · simp only [and_pixmask _ hk]
  · obtain ⟨hpj, hpk⟩ := hmem hp
    obtain ⟨hqj, hqk⟩ := hmem hq
    have hstride : b.scanLength = 8 * b.cols := rfl
    have hpq := Raster.place_inj (p := (p.1, 8 * p.2.1 + p.2.2)) (q := (q.1, 8 * q.2.1 + q.2.2)) (by dsimp only; omega)
      (by dsimp only; omega) (Nat.add_left_cancel heq)
    obtain ⟨hrow, hcol⟩ := Prod.mk.inj hpq
    exact Prod.ext hrow (Prod.ext (by omega) (by omega))

end

/-! ## What is drawn and read -/

/-- `EGA_planes` in words and in bytes, and what is marked. -/
structure Screen where
  planes : Planes
  plane : Pixels
  dirty : Dirty

/-- A dot or a row of characters: in the planar modes by a colour and its XOR bit, and in the 256-colour modes. -/
inductive Drawing where
  | dot (page row col : ℕ) (xor : Bool) (colour : BitVec 4)
  | chars (page row col nchs : ℕ) (ch : BitVec 8) (colour : BitVec 4)
  | twice (page row col nchs : ℕ) (ch : BitVec 8) (colour : BitVec 4)
  | vgaDot (row col : ℕ) (colour : BitVec 8)
  | vgaChars (row col nchs : ℕ) (ch : BitVec 8) (colour : BitVec 8)

/-- A colour, with bit 7 for XOR. -/
def withXor (xor : Bool) (colour : BitVec 4) : BitVec 8 := (if xor then 0x80 else 0) ||| colour.setWidth 8

/-- The colour that a dot should have. -/
def drawn (xor : Bool) (colour old : BitVec 4) : BitVec 4 := if xor then old ^^^ colour else colour

/-- Both ends of the colour agree, and both middle bits. -/
def Symmetric (colour : BitVec 4) : Prop :=
  colour.getLsbD 0 = colour.getLsbD 3 ∧ colour.getLsbD 1 = colour.getLsbD 2

namespace Bios

/-- Where a dot is. -/
def addressed (b : Bios) (page pixcol row : ℕ) : ℕ := page * b.len + row * b.cols + pixcol / 8

end Bios

namespace Drawing

/-- On the screen, in a colour of the mode; characters stay on their row, and their colour is not 0. -/
def OnScreen (b : Bios) : Drawing → Prop
  | dot _ row col _ colour => row < 0x8000 ∧ col < 8 * b.cols ∧ (b.Munges → colour < 4)
  | chars _ _ col nchs _ colour => col + nchs ≤ b.cols ∧ colour ≠ 0 ∧ (b.Munges → colour < 4)
  | twice _ _ col nchs _ colour => col + nchs ≤ b.cols ∧ colour ≠ 0 ∧ (b.Munges → colour < 4)
  | vgaDot _ col _ => col < 8 * b.cols
  | vgaChars _ col nchs _ colour => col + nchs ≤ b.cols ∧ colour ≠ 0

/-- What is drawn is read back, nothing else changes, and the marks are of what is written. -/
def Correct (b : Bios) (s : Screen) : Drawing → Prop
  | dot page row col xor colour =>
    let planes := b.writeDot (withXor xor colour) page col row s.planes
    let a := b.addressed page col row
    b.readDot page col row planes = some ((drawn xor colour (colourAt (s.planes a) (shiftOf col))).setWidth 8) ∧
      ∀ a', ∀ i < 8, (a', i) ≠ (a, shiftOf col) → colourAt (planes a') i = colourAt (s.planes a') i
  | chars page row col nchs ch colour =>
    let (planes, dirty) := b.graphicsWriteChar col row ch (withXor false colour) page nchs (s.planes, s.dirty)
    let cells := b.cells (b.screenOff col row page) nchs
    (∀ j < nchs, IsLeast {i | ∀ k < b.charHeight, b.glyph i k = b.glyph ch k}
      (b.readAttribChar (col + j) row page planes)) ∧
      (∀ a ∉ cells, planes a = s.planes a) ∧ s.dirty.Covers dirty ((↑) '' cells)
  | twice page row col nchs ch colour =>
    let draw := b.graphicsWriteChar col row ch (withXor true colour) page nchs
    (draw (draw (s.planes, s.dirty))).1 = s.planes
  | vgaDot row col colour =>
    let plane := b.vgaWriteDot colour col row s.plane
    b.vgaReadDot col row plane = colour ∧ ∀ a ≠ 8 * row * b.cols + col, plane a = s.plane a
  | vgaChars row col nchs ch colour =>
    let (plane, dirty) := b.vgaGraphicsWriteChar col row ch colour nchs (s.plane, s.dirty)
    let cells := b.vgaCells (b.screenOffset col row) nchs
    (∀ j < nchs, IsLeast {i | ∀ k < b.charHeight, b.glyph i k = b.glyph ch k}
      (b.vgaReadAttribChar (col + j) row plane)) ∧
      (∀ a ∉ cells, plane a = s.plane a) ∧ s.dirty.Covers dirty ((↑) '' cells)

/-- When that is so.  A dot: its row is not cut to 16 bits, and its colour is the same both ways; in the mode that
munges, the colour read is its own, by chance.  A cut row: the dot is there already, and so is the one written.  No
characters: no row's mark of none is seen. -/
def Meets (b : Bios) (s : Screen) : Drawing → Prop
  | dot page row col xor colour =>
    let old := colourAt (s.planes (b.addressed page col row)) (shiftOf col)
    if row * b.cols < 0x10000 then
      if b.Munges then
        if xor then old = colour ^^^ ((b.munge (withXor xor colour)).setWidth 4).reverse else colour = 0
      else Symmetric (drawn xor colour old)
    else
      old.reverse = drawn xor colour old ∧
        let other := colourAt (s.planes (b.written page col row)) (shiftOf col)
        b.put (withXor xor colour) other = other
  | chars page row col nchs _ _ =>
    nchs = 0 → ∀ i < b.charHeight, s.dirty.Quiet (b.screenOff col row page + i * b.cols : ℕ)
  | twice page row col nchs ch colour =>
    b.Munges → ∀ i < b.charHeight, ∀ j < nchs, s.planes (b.screenOff col row page + i * b.cols + j) =
      spread (b.glyph ch i) &&& b.colourmask (b.munge (withXor true colour))
  | vgaDot _ _ _ => True
  | vgaChars row col nchs _ _ =>
    nchs = 0 → ∀ i < b.charHeight, s.dirty.Quiet (b.screenOffset col row + i * b.scanLength : ℕ)

end Drawing

/-! ### Colours -/

theorem withXor_setWidth (xor : Bool) (colour : BitVec 4) : (withXor xor colour).setWidth 4 = colour := by
  revert xor colour
  decide

theorem withXor_and (xor : Bool) (colour : BitVec 4) : withXor xor colour &&& 0x80 ≠ 0 ↔ xor = true := by
  revert xor colour
  decide

theorem reverse_eq_iff (colour : BitVec 4) : colour.reverse = colour ↔ Symmetric colour := by
  unfold Symmetric
  revert colour
  decide

theorem munge_of_not (h : ¬ b.Munges) : b.munge colour = colour := if_neg h

theorem munge_of (h : b.Munges) : b.munge colour = v7Mode64Munge.getD (colour &&& 3).toNat 0 := if_pos h

/-- The colours that are drawn have no XOR bit. -/
theorem munge_and (h : b.Munges) : ¬ b.munge colour &&& 0x80 ≠ 0 := by
  have hall : ∀ colour : BitVec 8, ¬ v7Mode64Munge.getD (colour &&& 3).toNat 0 &&& 0x80 ≠ 0 := by decide
  rw [munge_of b colour h]
  exact hall colour

theorem put_eq (xor : Bool) (c old : BitVec 4) : b.put (withXor xor c) old =
    if b.Munges then (b.munge (withXor xor c)).setWidth 4 else drawn xor c old := by
  unfold Bios.put drawn
  by_cases h : b.Munges
  · rw [if_pos h, if_neg (munge_and b _ h)]
  · rw [if_neg h, munge_of_not b _ h, withXor_setWidth]
    exact if_congr (withXor_and xor c) rfl rfl

theorem setWidth_inj {c d : BitVec 4} : c.setWidth 8 = d.setWidth 8 ↔ c = d := by
  revert c d
  decide

theorem eq_xor_iff (x y z : BitVec 4) : x = y ^^^ z ↔ y = z ^^^ x := by
  constructor
  · rintro rfl
    rw [BitVec.xor_comm y z, ← BitVec.xor_assoc, BitVec.xor_self, BitVec.zero_xor]
  · rintro rfl
    rw [BitVec.xor_comm z x, BitVec.xor_assoc, BitVec.xor_self, BitVec.xor_zero]

/-- A munged colour reads as itself only if it is 0. -/
theorem munge_reverse (h : b.Munges) {c : BitVec 4} (hc : c < 4) :
    ((b.munge (withXor false c)).setWidth 4).reverse = c ↔ c = 0 := by
  have hall : ∀ c < (4 : BitVec 4),
      ((v7Mode64Munge.getD (withXor false c &&& 3).toNat 0).setWidth 4).reverse = c ↔ c = 0 := by decide
  rw [munge_of b _ h]
  exact hall c hc

/-! ### Dots -/

theorem written_eq_addressed (h : row * b.cols < 0x10000) :
    b.written page pixcol row = b.addressed page pixcol row := by
  unfold Bios.written Bios.addressed
  rw [Nat.mod_eq_of_lt h]

theorem written_ne_addressed (h : ¬ row * b.cols < 0x10000) :
    b.written page pixcol row ≠ b.addressed page pixcol row := by
  unfold Bios.written Bios.addressed
  omega

theorem readDot_writeDot (hrow : row < 0x8000) (old : BitVec 4) :
    b.readDot page pixcol row planes = some (old.setWidth 8) ↔
      (colourAt (planes (b.addressed page pixcol row)) (shiftOf pixcol)).reverse = old := by
  rw [readDot_eq b (Nat.testBit_lt_two_pow hrow), Option.some_inj, setWidth_inj]
  rfl

/-- Only the pixel written changes; when that is another than `p`, nothing may. -/
theorem others_unchanged (a : ℕ) :
    (∀ a', ∀ i < 8, (a', i) ≠ (a, shiftOf pixcol) →
      colourAt (b.writeDot colour page pixcol row planes a') i = colourAt (planes a') i) ↔
      b.written page pixcol row = a ∨ b.put colour (colourAt (planes (b.written page pixcol row)) (shiftOf pixcol)) =
        colourAt (planes (b.written page pixcol row)) (shiftOf pixcol) := by
  constructor
  · intro h
    refine or_iff_not_imp_left.mpr fun hne => ?_
    have hsame := h (b.written page pixcol row) (shiftOf pixcol) (shiftOf_lt pixcol) fun heq => hne (Prod.mk.inj heq).1
    rwa [writeDot_written b colour page pixcol row planes (shiftOf_lt pixcol), if_pos rfl] at hsame
  · intro h a' i hi hne
    by_cases ha : a' = b.written page pixcol row
    · subst ha
      rw [writeDot_written b colour page pixcol row planes hi]
      split_ifs with hpixel
      · subst hpixel
        obtain h | h := h
        · exact absurd (by rw [h]) hne
        · exact h
      · rfl
    · rw [writeDot_of_ne b colour page pixcol row planes ha]

theorem dot_iff (hrow : row < 0x8000) (xor : Bool) {c : BitVec 4} (hc : b.Munges → c < 4) (s : Screen) :
    (Drawing.dot page row pixcol xor c).Correct b s ↔ (Drawing.dot page row pixcol xor c).Meets b s := by
  unfold Drawing.Correct Drawing.Meets
  dsimp only
  rw [readDot_writeDot _ _ _ _ _ hrow, others_unchanged]
  by_cases hcut : row * b.cols < 0x10000
  · rw [if_pos hcut, written_eq_addressed _ _ _ _ hcut, ← written_eq_addressed b page pixcol row hcut,
      writeDot_written _ _ _ _ _ _ (shiftOf_lt pixcol), if_pos rfl, put_eq]
    generalize colourAt _ _ = old
    by_cases hmunges : b.Munges
    · cases xor with
      | false => simpa [hmunges, drawn] using munge_reverse b hmunges (hc hmunges)
      | true =>
        simp only [hmunges, if_true, drawn, true_or, and_true]
        exact eq_xor_iff _ _ _
    · simp only [hmunges, if_false, true_or, and_true]
      exact reverse_eq_iff _
  · have hne := written_ne_addressed b page pixcol row hcut
    rw [if_neg hcut, writeDot_of_ne b _ page pixcol row s.planes hne.symm, or_iff_right hne]

/-! ### Characters -/

theorem munge_char {c : BitVec 4} (hzero : c ≠ 0) (hc : b.Munges → c < 4) :
    b.munge (withXor false c) &&& 0x80 = 0 ∧ (b.munge (withXor false c)).setWidth 4 ≠ 0 := by
  by_cases h : b.Munges
  · have hall : ∀ c < (4 : BitVec 4), c ≠ 0 → (v7Mode64Munge.getD (withXor false c &&& 3).toNat 0) &&& 0x80 = 0 ∧
        (v7Mode64Munge.getD (withXor false c &&& 3).toNat 0).setWidth 4 ≠ 0 := by decide
    rw [munge_of b _ h]
    exact hall c (hc h) hzero
  · rw [munge_of_not b _ h, withXor_setWidth]
    exact ⟨not_not.mp (mt (withXor_and false c).mp (by decide)), hzero⟩

theorem colourmask_ne (h : colour.setWidth 4 ≠ 0) {s : ℕ} (hs : s < 8) : colourAt (b.colourmask colour) s ≠ 0 := by
  unfold Bios.colourmask
  split_ifs
  · have hall : ∀ s < 8, colourAt (BitVec.allOnes 32) s ≠ 0 := by decide
    exact hall s hs
  · rw [srLookup_eq _ hs]
    exact h

/-- **A character reads back as the first of its glyph.** -/
theorem readAttribChar_writeChSet {ch : BitVec 8} {col nchs : ℕ} (hnchs : nchs ≤ b.cols)
    (h : colour.setWidth 4 ≠ 0) {j : ℕ} (hj : j < nchs) : IsLeast {i | ∀ k < b.charHeight, b.glyph i k = b.glyph ch k}
      (b.readAttribChar (col + j) row page (b.writeChSet ch (b.screenOff col row page) colour nchs planes)) := by
  have hread : b.readAttribChar (col + j) row page (b.writeChSet ch (b.screenOff col row page) colour nchs planes) =
      b.searchFont ((List.range b.charHeight).map (b.glyph ch)) := by
    unfold Bios.readAttribChar
    congr 1
    refine List.map_congr_left fun i hi => ?_
    have hplace : b.screenOff (col + j) row page + i * b.cols = b.screenOff col row page + i * b.cols + j := by
      unfold Bios.screenOff
      omega
    rw [hplace, Bios.writeChSet, writeCh_cell b colour planes hnchs (List.mem_range.mp hi) hj]
    exact anyPlane_spread _ fun s hs => colourmask_ne b colour h hs
  rw [hread]
  exact searchFont_glyph b ch

/-- The marks of characters are of their cells, or there are none to be seen. -/
theorem covers_markChar_iff {off nchs : ℕ} (d : Dirty) : d.Covers (b.markChar off nchs d) ((↑) '' b.cells off nchs) ↔
    (nchs = 0 → ∀ i < b.charHeight, d.Quiet (off + i * b.cols : ℕ)) := by
  rw [markChar_eq]
  exact Dirty.covers_inRows

theorem chars_iff {ch : BitVec 8} {col nchs : ℕ} {c : BitVec 4} (hnchs : col + nchs ≤ b.cols) (hzero : c ≠ 0)
    (hc : b.Munges → c < 4) (s : Screen) :
    (Drawing.chars page row col nchs ch c).Correct b s ↔ (Drawing.chars page row col nchs ch c).Meets b s := by
  obtain ⟨hxor, hcolour⟩ := munge_char b hzero hc
  unfold Drawing.Correct Drawing.Meets Bios.graphicsWriteChar
  dsimp only
  rw [if_neg (not_not.mpr hxor), covers_markChar_iff]
  refine ⟨fun h => h.2.2, fun h => ⟨fun j hj => ?_, fun a ha => ?_, h⟩⟩
  · exact readAttribChar_writeChSet b _ page row s.planes (by omega) hcolour hj
  · exact writeCh_of_notMem b _ s.planes ha

theorem twice_iff {ch : BitVec 8} {col nchs : ℕ} {c : BitVec 4} (hnchs : col + nchs ≤ b.cols) (s : Screen) :
    (Drawing.twice page row col nchs ch c).Correct b s ↔ (Drawing.twice page row col nchs ch c).Meets b s := by
  unfold Drawing.Correct Drawing.Meets Bios.graphicsWriteChar
  dsimp only
  by_cases hmunges : b.Munges
  · rw [if_neg (munge_and b _ hmunges), if_neg (munge_and b _ hmunges), writeChSet_twice b _ _ (by omega)]
    simp only [hmunges, true_imp_iff]
  · have hxor := (withXor_and true c).mpr rfl
    rw [munge_of_not b _ hmunges, if_pos hxor, if_pos hxor, writeChXor_twice b _ _ (by omega)]
    exact iff_of_true rfl fun h => absurd h hmunges

/-! ### The 256-colour modes -/

theorem bytePixels_writeCh {ch : BitVec 8} {off nchs : ℕ} (plane : Pixels) (hnchs : nchs ≤ b.cols)
    (hcolour : colour ≠ 0) {i j : ℕ} (hi : i < b.charHeight) (hj : j < nchs) :
    Bios.bytePixels (b.vgaWriteCh ch off colour nchs plane) (off + i * b.scanLength + 8 * j) = b.glyph ch i := by
  ext s hs
  rw [← BitVec.getLsbD_eq_getElem, ← BitVec.getLsbD_eq_getElem, bytePixels_eq _ _ hs, Nat.add_assoc _ (8 * j),
    vgaWriteCh_cell b colour plane hnchs hi hj (by omega), Nat.sub_sub_self (by omega)]
  cases (b.glyph ch i).getLsbD s
  · rfl
  · exact decide_eq_true hcolour

theorem readAttribChar_vgaWriteCh {ch : BitVec 8} {col nchs : ℕ} (plane : Pixels) (hnchs : nchs ≤ b.cols)
    (hcolour : colour ≠ 0) {j : ℕ} (hj : j < nchs) : IsLeast {i | ∀ k < b.charHeight, b.glyph i k = b.glyph ch k}
      (b.vgaReadAttribChar (col + j) row (b.vgaWriteCh ch (b.screenOffset col row) colour nchs plane)) := by
  have hread : b.vgaReadAttribChar (col + j) row (b.vgaWriteCh ch (b.screenOffset col row) colour nchs plane) =
      b.searchFont ((List.range b.charHeight).map (b.glyph ch)) := by
    unfold Bios.vgaReadAttribChar
    congr 1
    refine List.map_congr_left fun i hi => ?_
    have hplace : b.screenOffset (col + j) row + i * b.scanLength =
        b.screenOffset col row + i * b.scanLength + 8 * j := by
      unfold Bios.screenOffset
      omega
    rw [hplace]
    exact bytePixels_writeCh b colour plane hnchs hcolour (List.mem_range.mp hi) hj
  rw [hread]
  exact searchFont_glyph b ch

theorem covers_vga_iff {off nchs : ℕ} (d : Dirty) :
    d.Covers (d.markRows (fun i => (off + i * b.scanLength : ℕ)) ((8 * nchs : ℕ) - 1) b.charHeight)
      ((↑) '' b.vgaCells off nchs) ↔
    (nchs = 0 → ∀ i < b.charHeight, d.Quiet (off + i * b.scanLength : ℕ)) := by
  have hzero : 8 * nchs = 0 ↔ nchs = 0 := by omega
  rw [← hzero]
  exact Dirty.covers_inRows

theorem vgaChars_iff {ch : BitVec 8} {col nchs : ℕ} (hnchs : col + nchs ≤ b.cols) (hcolour : colour ≠ 0) (s : Screen) :
    (Drawing.vgaChars row col nchs ch colour).Correct b s ↔ (Drawing.vgaChars row col nchs ch colour).Meets b s := by
  unfold Drawing.Correct Drawing.Meets Bios.vgaGraphicsWriteChar
  dsimp only
  rw [covers_vga_iff]
  refine ⟨fun h => h.2.2, fun h => ⟨fun j hj => ?_, fun a ha => ?_, h⟩⟩
  · exact readAttribChar_vgaWriteCh b colour row s.plane (by omega) hcolour hj
  · exact vgaWriteCh_of_notMem b colour s.plane ha

/-- **What is drawn reads back** exactly when the colour of a dot is the same both ways and its row is not cut, and
when no marks of no characters are seen. -/
theorem reads_back_exact (s : Screen) (d : Drawing) : d.OnScreen b → (d.Correct b s ↔ d.Meets b s) := by
  intro h
  cases d with
  | dot page row col xor c => exact dot_iff b page col row h.1 xor h.2.2 s
  | chars page row col nchs ch c => exact chars_iff b page row h.1 h.2.1 h.2.2 s
  | twice page row col nchs ch c => exact twice_iff b page row h.1 s
  | vgaDot row col c =>
    exact iff_of_true ⟨Function.update_self _ _ _, fun a ha => Function.update_of_ne ha _ _⟩ trivial
  | vgaChars row col nchs ch c => exact vgaChars_iff b c row h.1 h.2 s

/-- 320 by 200 in 16 colours, on an EGA. -/
def mode0D : Bios := ⟨false, 0x0d, 40, 0x2000, 8, fun _ => 0⟩

/-- A blank screen. -/
def blank : Screen := ⟨fun _ => 0, fun _ => 0, ⟨fun _ => false, 1000000, -1, 0⟩⟩

theorem reads_back_mode0D :
    (Drawing.dot 0 0 0 false 6).Correct mode0D blank ↔ (Drawing.dot 0 0 0 false 6).Meets mode0D blank :=
  reads_back_exact mode0D blank (.dot 0 0 0 false 6) ⟨by decide, by decide, fun h => absurd h.1 (by decide)⟩

/-- A dot of colour 1 reads as colour 8. -/
theorem planes_reversed : (Drawing.dot 0 0 0 false 1).OnScreen mode0D ∧
    ¬ (Drawing.dot 0 0 0 false 1).Correct mode0D blank ∧
    mode0D.readDot 0 0 0 (mode0D.writeDot 1 0 0 0 blank.planes) = some 8 := by
  have hread : mode0D.readDot 0 0 0 (mode0D.writeDot 1 0 0 0 blank.planes) = some 8 := by decide
  refine ⟨⟨by decide, by decide, fun h => absurd h.1 (by decide)⟩, fun h => ?_, hread⟩
  have hone : mode0D.readDot 0 0 0 (mode0D.writeDot 1 0 0 0 blank.planes) = some 1 := h.1
  exact absurd (hread.symm.trans hone) (by decide)

end SoftPC.Video.EgaBios
