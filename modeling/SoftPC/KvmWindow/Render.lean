import SoftPC.KvmWindow.Geometry
import SoftPC.Machinery.Raster

/-!
# KvmWindow/Render — a frame on the surface of a window

    frame ──▸ a colour for each pixel ──▸ compare, write ──▸ surface, and the hull of what changed

`kvm_window_render_frame` of `render.c`.  The loops go over the pixels of the frame once, in two layouts; what they do
to the surface and to the damage is read off the colours (`paint`).  The cursor is no part of a surface: it is laid
over what is displayed.
-/

namespace SoftPC.KvmWindow

open Raster

/-- `0x00RRGGBB`. -/
abbrev Colour := BitVec 32

/-- `kvm_text_cell`. -/
structure TextCell where
  glyphIndex : BitVec 8
  glyphBank : BitVec 8
  foreground : BitVec 8
  background : BitVec 8
  underline : BitVec 8

/-- `kvm_text_cursor_span`. -/
structure CursorSpan where
  start : ℕ
  height : ℕ

/-- `kvm_cursor_mode`. -/
inductive CursorMode
  | disabled
  | host
  | source
  deriving DecidableEq

/-- `kvm_window_text_frame`, with its base. -/
structure TextFrame where
  textColumns : ℕ
  textRows : ℕ
  stride : ℕ
  capacity : ℕ
  cursorColumn : ℤ
  cursorRow : ℤ
  cursor : List CursorSpan
  underlineRow : ℕ
  cursorMode : CursorMode
  cursorPhase : Bool
  cells : ℕ → TextCell
  textPalette : ℕ → Colour
  fontHeight : ℕ
  font : ℕ → BitVec 8
  secondaryFont : ℕ → BitVec 8

/-- `kvm_window_graphics_frame`. -/
structure GraphicsFrame where
  width : ℕ
  height : ℕ
  stride : ℕ
  capacity : ℕ
  pixels : ℕ → Colour

/-- `kvm_window_frame`. -/
structure Frame where
  text : Option TextFrame
  graphics : Option GraphicsFrame

/-- `KVM_TEXT_FONT_DEFAULT_HEIGHT` stands for zero. -/
def TextFrame.cellHeight (t : TextFrame) : ℕ := if t.fontHeight ≠ 0 then t.fontHeight else 16

/-- `LIB_SIZE_MAX`, of 64 bits. -/
def sizeMax : ℕ := 2 ^ 64 - 1

/-- `kvm_frame_extent`; `none` is an invalid argument. -/
def frameExtent (width height stride elementSize : ℕ) : Option ℕ :=
  if width = 0 ∨ height = 0 ∨ stride < width ∨ elementSize = 0 ∨ stride > sizeMax / height / elementSize then none
  else some (stride * height * elementSize)

/-- The check of a cell. -/
def TextCell.validate (cell : TextCell) : Bool :=
  cell.foreground ≤ 15 ∧ cell.background ≤ 15 ∧ cell.glyphBank ≤ 1 ∧ cell.underline ≤ 1

/-- `kvm_text_frame_validate`, and the height of the font. -/
def TextFrame.validate (t : TextFrame) : Bool :=
  match frameExtent t.textColumns t.textRows t.stride 5 with
  | none => false
  | some bytes =>
    decide (bytes / 5 ≤ t.capacity) &&
      ((List.range t.textRows).all fun row => (List.range t.textColumns).all fun column =>
        (t.cells (row * t.stride + column)).validate) && decide (t.fontHeight ≤ 32)

/-- The check of an image. -/
def GraphicsFrame.validate (g : GraphicsFrame) : Bool :=
  match frameExtent g.width g.height g.stride 4 with
  | none => false
  | some bytes =>
    decide (bytes / 4 ≤ g.capacity) &&
      (List.range g.height).all fun row => (List.range g.width).all fun column =>
        g.pixels (row * g.stride + column) &&& 0xff000000#32 = 0#32

/-- `kvm_window_frame_validate`. -/
def Frame.validate (frame : Frame) : Bool :=
  match frame.text, frame.graphics with
  | some t, none => t.validate
  | none, some g => g.validate
  | _, _ => false

/-- The last checks of `kvm_window_frame_size`. -/
def checkedSize (width height : ℕ) : Option (ℕ × ℕ) :=
  if width = 0 ∨ height = 0 ∨ width > 2147483647 ∨ height > 2147483647 ∨ width > sizeMax / height / 4 then none
  else some (width, height)

/-- `kvm_window_frame_size`. -/
def frameSize (frame : Frame) : Option (ℕ × ℕ) :=
  match frame.graphics, frame.text with
  | some g, _ => checkedSize g.width g.height
  | none, some t =>
    if t.textColumns > 2147483647 / 8 ∨ t.textRows > 2147483647 / t.cellHeight then none
    else checkedSize (t.textColumns * 8) (t.textRows * t.cellHeight)
  | none, none => none

/-- The damage, with one more pixel. -/
def Rect.add (r : Rect) (x y : ℤ) : Rect where
  left := if x < r.left then x else r.left
  top := if y < r.top then y else r.top
  right := if x + 1 > r.right then x + 1 else r.right
  bottom := if y + 1 > r.bottom then y + 1 else r.bottom

/-- The surface and the damage. -/
structure Drawing where
  pixels : ℕ → Colour
  damage : Rect

/-- `kvm_window_update_pixel`. -/
def updatePixel (destination : ℕ) (colour : Colour) (x y : ℕ) (valid : Bool) (s : Drawing) : Drawing :=
  if valid ∧ s.pixels destination = colour then s
  else ⟨Function.update s.pixels destination colour, s.damage.add x y⟩

/-- The loop over a row of an image. -/
def GraphicsFrame.drawRow (g : GraphicsFrame) (width : ℕ) (valid : Bool) (s : Drawing) (row : ℕ) : Drawing :=
  (List.range width).foldl
    (fun s column => updatePixel (row * width + column) (g.pixels (row * g.stride + column)) column row valid s) s

/-- The bits of a row of a cell. -/
def TextFrame.bits (t : TextFrame) (cell : TextCell) (row : ℕ) : BitVec 8 :=
  let font := if cell.glyphBank ≠ 0#8 then t.secondaryFont else t.font
  if cell.underline ≠ 0#8 ∧ row % t.cellHeight = t.underlineRow then 0xff#8
  else font (cell.glyphIndex.toNat * 32 + row % t.cellHeight)

/-- The loops over a row of text. -/
def TextFrame.drawRow (t : TextFrame) (width : ℕ) (valid : Bool) (s : Drawing) (row : ℕ) : Drawing :=
  (List.range t.textColumns).foldl
    (fun s column =>
      let cell := t.cells (row / t.cellHeight * t.stride + column)
      let bits := t.bits cell row
      (List.range 8).foldl
        (fun s bit =>
          let x := column * 8 + bit
          let colour :=
            t.textPalette (if bits &&& (0x80#8 >>> bit) ≠ 0#8 then cell.foreground else cell.background).toNat
          updatePixel (row * width + x) colour x row valid s) s) s

/-- A row of whichever there is. -/
def Frame.drawRow (frame : Frame) (width : ℕ) (valid : Bool) (s : Drawing) (row : ℕ) : Drawing :=
  match frame.graphics, frame.text with
  | some g, _ => g.drawRow width valid s row
  | none, some t => t.drawRow width valid s row
  | none, none => s

/-- What `kvm_window_render_frame` leaves: what it returns, the surface, `*valid`, and what it stores in `*changed`. -/
structure Rendered where
  returned : Bool
  pixels : ℕ → Colour
  valid : Bool
  changed : Option Rect

/-- `kvm_window_render_frame`. -/
def renderFrame (frame : Frame) (pixels : ℕ → Colour) (width height : ℕ) (valid : Bool) : Rendered :=
  if frameSize frame ≠ some (width, height) then ⟨false, pixels, valid, none⟩
  else
    let drawn := (List.range height).foldl (frame.drawRow width valid) ⟨pixels, ⟨width, height, 0, 0⟩⟩
    if drawn.damage.right = 0 then ⟨false, drawn.pixels, true, none⟩
    else ⟨true, drawn.pixels, true, some drawn.damage⟩

/-! ## The pure rendering -/

/-- The cell of a pixel. -/
def TextFrame.cellAt (t : TextFrame) (p : Pixel) : TextCell := t.cells (p.1 / t.cellHeight * t.stride + p.2 / 8)

/-- A pixel shows the foreground on the underline, and where the glyph has a bit, the first being the leftmost. -/
def TextFrame.ink (t : TextFrame) (p : Pixel) : Bool :=
  let cell := t.cellAt p
  let font := if cell.glyphBank ≠ 0#8 then t.secondaryFont else t.font
  (cell.underline ≠ 0#8 ∧ p.1 % t.cellHeight = t.underlineRow) ||
    (font (cell.glyphIndex.toNat * 32 + p.1 % t.cellHeight)).getMsbD (p.2 % 8)

/-- The colour of a pixel of text. -/
def TextFrame.colourAt (t : TextFrame) (p : Pixel) : Colour :=
  t.textPalette (if t.ink p then (t.cellAt p).foreground else (t.cellAt p).background).toNat

/-- The colour of a pixel of an image. -/
def GraphicsFrame.colourAt (g : GraphicsFrame) (p : Pixel) : Colour := g.pixels (place g.stride p)

/-- The colour of a pixel of a frame, less its cursor. -/
def Frame.colourAt (frame : Frame) (p : Pixel) : Colour :=
  match frame.graphics, frame.text with
  | some g, _ => g.colourAt p
  | none, some t => t.colourAt p
  | none, none => 0

/-! ## Valid frames -/

theorem frameExtent_eq {width height stride elementSize bytes : ℕ}
    (h : frameExtent width height stride elementSize = some bytes) :
    width ≤ stride ∧ 0 < elementSize ∧ bytes = stride * height * elementSize := by
  unfold frameExtent at h
  split at h
  · cases h
  · cases h
    exact ⟨by omega, by omega, rfl⟩

theorem TextFrame.cellHeight_pos (t : TextFrame) : 0 < t.cellHeight := by
  unfold cellHeight
  split <;> omega

/-- What is read for a pixel of a valid text is there: its cell, the row of the glyph, and the colours. -/
theorem TextFrame.reads_in_range {t : TextFrame} (h : t.validate = true) {p : Pixel}
    (hrow : p.1 < t.textRows * t.cellHeight) (hcolumn : p.2 < t.textColumns * 8) :
    p.1 / t.cellHeight * t.stride + p.2 / 8 < t.capacity ∧
      (t.cellAt p).glyphIndex.toNat * 32 + p.1 % t.cellHeight < 256 * 32 ∧
      (t.cellAt p).foreground.toNat < 16 ∧ (t.cellAt p).background.toNat < 16 := by
  unfold validate at h
  cases hextent : frameExtent t.textColumns t.textRows t.stride 5 with
  | none =>
    rw [hextent] at h
    cases h
  | some bytes =>
    rw [hextent] at h
    obtain ⟨hstride, -, rfl⟩ := frameExtent_eq hextent
    dsimp only at h
    rw [Bool.and_eq_true, Bool.and_eq_true, decide_eq_true_iff, decide_eq_true_iff] at h
    obtain ⟨⟨hcapacity, hcells⟩, hfont⟩ := h
    have hrow' : p.1 / t.cellHeight < t.textRows := (Nat.div_lt_iff_lt_mul t.cellHeight_pos).mpr hrow
    have hcolumn' : p.2 / 8 < t.textColumns := (Nat.div_lt_iff_lt_mul (by decide)).mpr hcolumn
    have hcell := List.all_eq_true.mp (List.all_eq_true.mp hcells _ (List.mem_range.mpr hrow')) _
      (List.mem_range.mpr hcolumn')
    have hcell : (t.cellAt p).validate = true := hcell
    rw [TextCell.validate, decide_eq_true_iff] at hcell
    obtain ⟨hforeground, hbackground, -, -⟩ := hcell
    have hplace : p.1 / t.cellHeight * t.stride + p.2 / 8 < t.textRows * t.stride :=
      place_lt (p := (p.1 / t.cellHeight, p.2 / 8)) hrow' (by dsimp only; omega)
    rw [Nat.mul_div_cancel _ (by decide), Nat.mul_comm] at hcapacity
    have hheight : t.cellHeight ≤ 32 := by
      unfold cellHeight
      split <;> omega
    have hrest := Nat.mod_lt p.1 t.cellHeight_pos
    have hglyph := (t.cellAt p).glyphIndex.isLt
    exact ⟨by omega, by omega, Nat.lt_succ_of_le hforeground, Nat.lt_succ_of_le hbackground⟩

theorem GraphicsFrame.reads_in_range {g : GraphicsFrame} (h : g.validate = true) {p : Pixel} (hrow : p.1 < g.height)
    (hcolumn : p.2 < g.width) : place g.stride p < g.capacity := by
  unfold validate at h
  cases hextent : frameExtent g.width g.height g.stride 4 with
  | none =>
    rw [hextent] at h
    cases h
  | some bytes =>
    rw [hextent] at h
    obtain ⟨hstride, -, rfl⟩ := frameExtent_eq hextent
    dsimp only at h
    rw [Bool.and_eq_true, decide_eq_true_iff, Nat.mul_div_cancel _ (by decide), Nat.mul_comm] at h
    exact (place_lt hrow (by omega)).trans_le h.1

/-! ## Painting -/

/-- A loop over pixels that have colours. -/
def paint (width : ℕ) (valid : Bool) (colour : Pixel → Colour) (s : Drawing) (l : List Pixel) : Drawing :=
  l.foldl (fun s p => updatePixel (place width p) (colour p) p.2 p.1 valid s) s

variable {width height : ℕ} {valid : Bool} {colour : Pixel → Colour} {s : Drawing} {l : List Pixel}

theorem paint_cons (p : Pixel) (l : List Pixel) : paint width valid colour s (p :: l) =
    paint width valid colour (updatePixel (place width p) (colour p) p.2 p.1 valid s) l := rfl

/-- The surface has the colour then, whether it was written or not. -/
theorem updatePixel_pixels (i : ℕ) (c : Colour) (x y : ℕ) :
    (updatePixel i c x y valid s).pixels = Function.update s.pixels i c := by
  unfold updatePixel
  split
  next h => rw [← h.2, Function.update_eq_self]
  next => rfl

theorem paint_pixels : (paint width valid colour s l).pixels = inPlace (place width) (fun p _ => colour p) l s.pixels := by
  induction l generalizing s with
  | nil => rfl
  | cons p l ih => rw [paint_cons, ih, updatePixel_pixels, inPlace_cons]

/-- The pixels that are written. -/
def written (width : ℕ) (valid : Bool) (colour : Pixel → Colour) (pixels : ℕ → Colour) (l : List Pixel) : List Pixel :=
  l.filter fun p => ¬(valid ∧ pixels (place width p) = colour p)

theorem updatePixel_damage (i : ℕ) (c : Colour) (x y : ℕ) : (updatePixel i c x y valid s).damage =
    if valid ∧ s.pixels i = c then s.damage else s.damage.add x y := by
  unfold updatePixel
  split <;> rfl

theorem written_update {p : Pixel} {pixels : ℕ → Colour} (hp : p ∉ l)
    (hinj : ∀ q ∈ l, place width p = place width q → p = q) (c : Colour) :
    written width valid colour (Function.update pixels (place width p) c) l = written width valid colour pixels l := by
  refine List.filter_congr fun q hq => ?_
  have hne : place width q ≠ place width p := fun heq => hp (hinj q hq heq.symm ▸ hq)
  rw [Function.update_of_ne hne]

/-- **The damage is that of the pixels that are written**. -/
theorem paint_damage (hl : l.Nodup) (hinj : ∀ p ∈ l, ∀ q ∈ l, place width p = place width q → p = q) :
    (paint width valid colour s l).damage =
      (written width valid colour s.pixels l).foldl (fun r p => r.add p.2 p.1) s.damage := by
  induction l generalizing s with
  | nil => rfl
  | cons p l ih =>
    obtain ⟨hp, hl⟩ := List.nodup_cons.mp hl
    have hinj' : ∀ q ∈ l, ∀ r ∈ l, place width q = place width r → q = r := fun q hq r hr =>
      hinj q (List.mem_cons_of_mem _ hq) r (List.mem_cons_of_mem _ hr)
    have hfirst : ∀ q ∈ l, place width p = place width q → p = q := fun q hq =>
      hinj p List.mem_cons_self q (List.mem_cons_of_mem _ hq)
    rw [paint_cons, ih hl hinj', updatePixel_pixels, written_update hp hfirst, updatePixel_damage]
    unfold written
    rw [List.filter_cons]
    by_cases hsame : valid ∧ s.pixels (place width p) = colour p
    · rw [if_pos hsame, if_neg (by rw [decide_eq_true_iff]; exact not_not_intro hsame)]
    · rw [if_neg hsame, if_pos (by rw [decide_eq_true_iff]; exact hsame)]
      rfl

/-! ## Damage -/

/-- A rectangle has a pixel. -/
def Rect.Has (r : Rect) (p : Pixel) : Prop := (r.left ≤ p.2 ∧ (p.2 : ℤ) < r.right) ∧ r.top ≤ p.1 ∧ (p.1 : ℤ) < r.bottom

/-- The least rectangle that has the pixels of a set. -/
structure IsHull (S : Set Pixel) (r : Rect) : Prop where
  has : ∀ p ∈ S, r.Has p
  least : ∀ r' : Rect, (∀ p ∈ S, r'.Has p) →
    (r'.left ≤ r.left ∧ r.right ≤ r'.right) ∧ r'.top ≤ r.top ∧ r.bottom ≤ r'.bottom

/-- What the sides of a damage are, after some pixels. -/
structure Added (r : Rect) (l : List Pixel) (r' : Rect) : Prop where
  left : ∀ a, a ≤ r'.left ↔ a ≤ r.left ∧ ∀ p ∈ l, a ≤ (p.2 : ℤ)
  top : ∀ a, a ≤ r'.top ↔ a ≤ r.top ∧ ∀ p ∈ l, a ≤ (p.1 : ℤ)
  right : ∀ a, r'.right ≤ a ↔ r.right ≤ a ∧ ∀ p ∈ l, (p.2 : ℤ) + 1 ≤ a
  bottom : ∀ a, r'.bottom ≤ a ↔ r.bottom ≤ a ∧ ∀ p ∈ l, (p.1 : ℤ) + 1 ≤ a

theorem le_add_left_iff {r : Rect} {x y a : ℤ} : a ≤ (r.add x y).left ↔ a ≤ r.left ∧ a ≤ x := by
  unfold Rect.add
  dsimp only
  split <;> omega

theorem le_add_top_iff {r : Rect} {x y a : ℤ} : a ≤ (r.add x y).top ↔ a ≤ r.top ∧ a ≤ y := by
  unfold Rect.add
  dsimp only
  split <;> omega

theorem add_right_le_iff {r : Rect} {x y a : ℤ} : (r.add x y).right ≤ a ↔ r.right ≤ a ∧ x + 1 ≤ a := by
  unfold Rect.add
  dsimp only
  split <;> omega

theorem add_bottom_le_iff {r : Rect} {x y a : ℤ} : (r.add x y).bottom ≤ a ↔ r.bottom ≤ a ∧ y + 1 ≤ a := by
  unfold Rect.add
  dsimp only
  split <;> omega

theorem added (r : Rect) (l : List Pixel) : Added r l (l.foldl (fun r p => r.add p.2 p.1) r) := by
  induction l generalizing r with
  | nil => constructor <;> intro a <;> exact ⟨fun h => ⟨h, nofun⟩, And.left⟩
  | cons p l ih =>
    rw [List.foldl_cons]
    constructor <;> intro a
    · rw [(ih _).left, le_add_left_iff, List.forall_mem_cons, and_assoc]
    · rw [(ih _).top, le_add_top_iff, List.forall_mem_cons, and_assoc]
    · rw [(ih _).right, add_right_le_iff, List.forall_mem_cons, and_assoc]
    · rw [(ih _).bottom, add_bottom_le_iff, List.forall_mem_cons, and_assoc]

namespace Added

variable {r : Rect} (h : Added ⟨width, height, 0, 0⟩ l r) (hl : ∀ p ∈ l, p.1 < height ∧ p.2 < width)
include h

theorem has {p : Pixel} (hp : p ∈ l) : r.Has p :=
  ⟨⟨((h.left _).mp le_rfl).2 p hp, Int.add_one_le_iff.mp (((h.right _).mp le_rfl).2 p hp)⟩,
    ((h.top _).mp le_rfl).2 p hp, Int.add_one_le_iff.mp (((h.bottom _).mp le_rfl).2 p hp)⟩

/-- No damage at all is told by the right side. -/
theorem right_eq_zero_iff : r.right = 0 ↔ l = [] := by
  constructor
  · intro hzero
    refine List.eq_nil_iff_forall_not_mem.mpr fun p hp => ?_
    have hhas := (h.has hp).1.2
    omega
  · rintro rfl
    have hle := (h.right 0).mpr ⟨le_rfl, nofun⟩
    have hge := ((h.right _).mp le_rfl).1
    exact le_antisymm hle hge

include hl

/-- **The damage is the hull.** -/
theorem isHull (hne : l ≠ []) : IsHull {p | p ∈ l} r where
  has _ := h.has
  least r' hr' := by
    obtain ⟨p, hp⟩ := List.exists_mem_of_ne_nil l hne
    obtain ⟨hrow, hcolumn⟩ := hl p hp
    obtain ⟨⟨hleft, hright⟩, htop, hbottom⟩ := hr' p hp
    refine ⟨⟨(h.left _).mpr ⟨?_, fun q hq => (hr' q hq).1.1⟩, (h.right _).mpr ⟨?_, fun q hq => (hr' q hq).1.2⟩⟩,
      (h.top _).mpr ⟨?_, fun q hq => (hr' q hq).2.1⟩, (h.bottom _).mpr ⟨?_, fun q hq => (hr' q hq).2.2⟩⟩
    all_goals dsimp only; omega

/-- The hull of all pixels is the surface. -/
theorem eq_surface (hall : ∀ p : Pixel, p.1 < height → p.2 < width → p ∈ l) (hwidth : 0 < width) (hheight : 0 < height) :
    r = ⟨0, 0, width, height⟩ := by
  have hfirst := h.has (hall (0, 0) hheight hwidth)
  have hlast := h.has (hall (height - 1, width - 1) (Nat.sub_lt hheight Nat.one_pos) (Nat.sub_lt hwidth Nat.one_pos))
  have hleft := (h.left 0).mpr ⟨Int.natCast_nonneg _, fun p _ => Int.natCast_nonneg _⟩
  have htop := (h.top 0).mpr ⟨Int.natCast_nonneg _, fun p _ => Int.natCast_nonneg _⟩
  have hright := (h.right width).mpr ⟨Int.natCast_nonneg _, fun p hp => by have := (hl p hp).2; omega⟩
  have hbottom := (h.bottom height).mpr ⟨Int.natCast_nonneg _, fun p hp => by have := (hl p hp).1; omega⟩
  obtain ⟨⟨hfirst, -⟩, hfirst', -⟩ := hfirst
  obtain ⟨⟨-, hlast⟩, -, hlast'⟩ := hlast
  dsimp only at hfirst hfirst' hlast hlast'
  obtain ⟨left, top, right, bottom⟩ := r
  dsimp only at *
  rw [Rect.mk.injEq]
  omega

end Added

/-! ## The loops -/

/-- The pixels of a surface. -/
def screen (width height : ℕ) : List Pixel := List.range height ×ˢ List.range width

theorem mem_screen {p : Pixel} : p ∈ screen width height ↔ p.1 < height ∧ p.2 < width := by
  obtain ⟨row, column⟩ := p
  exact List.pair_mem_product.trans (and_congr List.mem_range List.mem_range)

theorem nodup_screen : (screen width height).Nodup := List.nodup_range.product List.nodup_range

theorem screen_inj : ∀ p ∈ screen width height, ∀ q ∈ screen width height, place width p = place width q → p = q :=
  fun _ hp _ hq => place_inj (mem_screen.1 hp).2 (mem_screen.1 hq).2

/-- A loop of loops of one length. -/
theorem foldl_range_mul {σ : Type} (f : σ → ℕ → σ) (s : σ) (n k : ℕ) :
    (List.range n).foldl (fun s i => (List.range k).foldl (fun s j => f s (i * k + j)) s) s =
      (List.range (n * k)).foldl f s := by
  induction n with
  | zero => rw [Nat.zero_mul]; rfl
  | succ n ih =>
    rw [List.range_succ, List.foldl_append, ih, Nat.succ_mul, List.range_add, List.foldl_append, List.foldl_map]
    rfl

/-- A row of pixels. -/
def paintRow (width : ℕ) (valid : Bool) (colour : Pixel → Colour) (s : Drawing) (row : ℕ) : Drawing :=
  (List.range width).foldl (fun s x => updatePixel (place width (row, x)) (colour (row, x)) x row valid s) s

theorem foldl_paintRow :
    (List.range height).foldl (paintRow width valid colour) s = paint width valid colour s (screen width height) := by
  unfold paint screen paintRow
  change _ = ((List.range height).flatMap fun row => (List.range width).map (Prod.mk row)).foldl _ s
  rw [List.foldl_flatMap]
  simp only [List.foldl_map]

theorem GraphicsFrame.drawRow_eq (g : GraphicsFrame) (row : ℕ) :
    g.drawRow width valid s row = paintRow width valid g.colourAt s row := rfl

theorem mask_iff {bit : ℕ} (h : bit < 8) (b : BitVec 8) : b &&& (0x80#8 >>> bit) ≠ 0#8 ↔ b.getMsbD bit = true := by
  have hmask : ∀ bit < 8, 0x80#8 >>> bit = BitVec.twoPow 8 (7 - bit) ∧ BitVec.twoPow 8 (7 - bit) ≠ 0#8 := by decide
  rw [(hmask bit h).1, BitVec.and_twoPow, BitVec.getMsbD, decide_eq_true h, Bool.true_and]
  cases b.getLsbD (7 - bit) with
  | false => simp
  | true => simpa using (hmask bit h).2

theorem TextFrame.ink_eq (t : TextFrame) (p : Pixel) : t.ink p = (t.bits (t.cellAt p) p.1).getMsbD (p.2 % 8) := by
  have hones : ∀ bit < 8, (0xff#8).getMsbD bit = true := by decide
  unfold ink bits
  dsimp only
  by_cases hunder : (t.cellAt p).underline ≠ 0#8 ∧ p.1 % t.cellHeight = t.underlineRow
  · rw [if_pos hunder, decide_eq_true hunder, Bool.true_or, hones _ (Nat.mod_lt _ (by decide))]
  · rw [if_neg hunder, decide_eq_false hunder, Bool.false_or]

theorem TextFrame.drawRow_eq (t : TextFrame) (row : ℕ) :
    t.drawRow (t.textColumns * 8) valid s row = paintRow (t.textColumns * 8) valid t.colourAt s row := by
  unfold drawRow paintRow
  rw [← foldl_range_mul]
  refine List.foldl_ext _ _ _ fun s column _ => List.foldl_ext _ _ _ fun s bit hbit => ?_
  have hbit := List.mem_range.mp hbit
  have hcolumn : (column * 8 + bit) / 8 = column := by omega
  have hpixel : (column * 8 + bit) % 8 = bit := by omega
  dsimp only
  rw [colourAt, ink_eq, cellAt, hcolumn, hpixel]
  simp only [mask_iff hbit]
  rfl


theorem checkedSize_eq {w h : ℕ} (hsize : checkedSize w h = some (width, height)) :
    w = width ∧ h = height ∧ 0 < width ∧ 0 < height := by
  unfold checkedSize at hsize
  split at hsize
  · cases hsize
  · cases hsize
    omega

variable {frame : Frame} (hsize : frameSize frame = some (width, height))
include hsize

theorem size_pos_of_frameSize : 0 < width ∧ 0 < height := by
  unfold frameSize at hsize
  split at hsize
  · exact (checkedSize_eq hsize).2.2
  · split at hsize
    · cases hsize
    · exact (checkedSize_eq hsize).2.2
  · cases hsize

theorem Frame.drawRow_eq (s : Drawing) (row : ℕ) :
    frame.drawRow width valid s row = paintRow width valid frame.colourAt s row := by
  unfold frameSize at hsize
  unfold Frame.drawRow
  cases hgraphics : frame.graphics with
  | some g =>
    have hcolour : frame.colourAt = g.colourAt := by
      funext p
      rw [colourAt, hgraphics]
    rw [hcolour]
    exact g.drawRow_eq row
  | none =>
    cases htext : frame.text with
    | none =>
      rw [hgraphics, htext] at hsize
      cases hsize
    | some t =>
      have hcolour : frame.colourAt = t.colourAt := by
        funext p
        rw [colourAt, hgraphics, htext]
      rw [hgraphics, htext] at hsize
      dsimp only at hsize ⊢
      split at hsize
      · cases hsize
      · rw [hcolour, ← (checkedSize_eq hsize).1]
        exact t.drawRow_eq row

/-- What the loops come to. -/
theorem Frame.draw_eq (valid : Bool) (s : Drawing) : (List.range height).foldl (frame.drawRow width valid) s =
    paint width valid frame.colourAt s (screen width height) := by
  rw [← foldl_paintRow]
  exact List.foldl_ext _ _ _ fun s row _ => frame.drawRow_eq hsize s row

omit hsize

/-- The colours of a surface are those of the frame. -/
theorem paint_screen (p : Pixel) (hp : p ∈ screen width height) :
    (paint width valid colour s (screen width height)).pixels (place width p) = colour p := by
  rw [paint_pixels, inPlace_place nodup_screen screen_inj hp]

theorem paint_outside {i : ℕ} (hi : width * height ≤ i) :
    (paint width valid colour s (screen width height)).pixels i = s.pixels i := by
  rw [paint_pixels, inPlace_of_ne]
  intro p hp heq
  obtain ⟨hrow, hcolumn⟩ := mem_screen.1 hp
  have hlt := place_lt hrow hcolumn
  rw [Nat.mul_comm] at hlt
  omega

/-- The pixels that are written are those that change. -/
theorem mem_written {pixels : ℕ → Colour} {p : Pixel} : p ∈ written width valid colour pixels (screen width height) ↔
    (p.1 < height ∧ p.2 < width) ∧ (valid = true → pixels (place width p) ≠ colour p) := by
  rw [written, List.mem_filter, mem_screen, decide_eq_true_iff, not_and]

/-- **Rendering into a surface that is kept equals rendering the whole frame.**  Every pixel has the colour of the frame;
`LIB_FALSE` says that the surface was valid and already had them all; else the damage is the hull of the pixels that
change, or the whole surface if that was not valid. -/
theorem renderFrame_spec (frame : Frame) (pixels : ℕ → Colour) (width height : ℕ) (valid : Bool)
    (hsize : frameSize frame = some (width, height)) :
    let r := renderFrame frame pixels width height valid
    (∀ row < height, ∀ column < width, r.pixels (place width (row, column)) = frame.colourAt (row, column)) ∧
      (∀ i, width * height ≤ i → r.pixels i = pixels i) ∧ r.valid = true ∧
      (r.returned = false ↔ valid = true ∧
        ∀ row < height, ∀ column < width, r.pixels (place width (row, column)) = pixels (place width (row, column))) ∧
      (r.returned = false → r.changed = none) ∧
      (r.returned = true → ∃ changed, r.changed = some changed ∧
        if valid then
          IsHull {p | (p.1 < height ∧ p.2 < width) ∧ r.pixels (place width p) ≠ pixels (place width p)} changed
        else changed = ⟨0, 0, width, height⟩) := by
  have hdraw := frame.draw_eq hsize valid ⟨pixels, ⟨width, height, 0, 0⟩⟩
  obtain ⟨hwidth, hheight⟩ := size_pos_of_frameSize hsize
  intro r
  have hr : r = renderFrame frame pixels width height valid := rfl
  rw [renderFrame, if_neg (not_not_intro hsize), hdraw] at hr
  dsimp only at hr
  generalize hd : paint width valid frame.colourAt ⟨pixels, ⟨width, height, 0, 0⟩⟩ (screen width height) = d at hr
  have hcolour : ∀ p : Pixel, p.1 < height → p.2 < width → d.pixels (place width p) = frame.colourAt p :=
    fun p hrow hcolumn => hd ▸ paint_screen p (mem_screen.2 ⟨hrow, hcolumn⟩)
  have houtside : ∀ i, width * height ≤ i → d.pixels i = pixels i := fun i hi => hd ▸ paint_outside hi
  have hadded := added ⟨width, height, 0, 0⟩ (written width valid frame.colourAt pixels (screen width height))
  rw [← paint_damage (s := ⟨pixels, _⟩) nodup_screen screen_inj, hd] at hadded
  have hin : ∀ p ∈ written width valid frame.colourAt pixels (screen width height), p.1 < height ∧ p.2 < width :=
    fun p hp => (mem_written.1 hp).1
  by_cases hnone : written width valid frame.colourAt pixels (screen width height) = []
  · rw [if_pos (hadded.right_eq_zero_iff.mpr hnone)] at hr
    have hsame : ∀ p : Pixel, p.1 < height → p.2 < width → valid = true ∧ pixels (place width p) = frame.colourAt p := by
      intro p hrow hcolumn
      by_contra hnot
      have hmem := mem_written.2 ⟨⟨hrow, hcolumn⟩, fun hvalid heq => hnot ⟨hvalid, heq⟩⟩
      rw [hnone] at hmem
      cases hmem
    rw [hr]
    refine ⟨fun row hrow column hcolumn => hcolour _ hrow hcolumn, houtside, rfl, ⟨fun _ => ?_, fun _ => rfl⟩,
      fun _ => rfl, nofun⟩
    exact ⟨(hsame (0, 0) hheight hwidth).1, fun row hrow column hcolumn =>
      (hcolour (row, column) hrow hcolumn).trans (hsame (row, column) hrow hcolumn).2.symm⟩
  · rw [if_neg fun hzero => hnone (hadded.right_eq_zero_iff.mp hzero)] at hr
    rw [hr]
    refine ⟨fun row hrow column hcolumn => hcolour _ hrow hcolumn, houtside, rfl, ⟨nofun, fun hsame => ?_⟩, nofun,
      fun _ => ⟨_, rfl, ?_⟩⟩
    · obtain ⟨p, hp⟩ := List.exists_mem_of_ne_nil _ hnone
      obtain ⟨⟨hrow, hcolumn⟩, hne⟩ := mem_written.1 hp
      exact (hne hsame.1 ((hsame.2 p.1 hrow p.2 hcolumn).symm.trans (hcolour p hrow hcolumn))).elim
    · cases valid with
      | true =>
        have hset : {p | p ∈ written width true frame.colourAt pixels (screen width height)} =
            {p : Pixel | (p.1 < height ∧ p.2 < width) ∧ d.pixels (place width p) ≠ pixels (place width p)} := by
          refine Set.ext fun p => mem_written.trans (and_congr_right fun hp => ?_)
          rw [hcolour p hp.1 hp.2]
          exact ⟨fun hne heq => hne rfl heq.symm, fun hne _ heq => hne heq.symm⟩
        rw [if_pos rfl, ← hset]
        exact hadded.isHull hin hnone
      | false =>
        exact hadded.eq_surface hin (fun p hrow hcolumn => mem_written.2 ⟨⟨hrow, hcolumn⟩, nofun⟩) hwidth hheight

/-- Two pixels, one black. -/
def twoPixels : Frame where
  text := none
  graphics := some ⟨2, 1, 2, 2, fun i => if i = 1 then 0xffffff else 0⟩

theorem renderFrame_spec_two : ∃ changed, (renderFrame twoPixels (fun _ => 0) 2 1 true).changed = some changed ∧
    IsHull {p | (p.1 < 1 ∧ p.2 < 2) ∧
      (renderFrame twoPixels (fun _ => 0) 2 1 true).pixels (place 2 p) ≠ 0} changed :=
  (renderFrame_spec twoPixels (fun _ => 0) 2 1 true (by decide)).2.2.2.2.2 (by decide)

/-! ## Cursors, and surfaces that are not valid -/

/-- `kvm_text_cursor_shape`: where the cursor is, if it is on. -/
def TextFrame.cursorAt (t : TextFrame) (p : Pixel) : Bool :=
  t.cursorMode ≠ .disabled ∧ (t.cursorMode = .source → t.cursorPhase) ∧ ((p.2 / 8 : ℕ) : ℤ) = t.cursorColumn ∧
    ((p.1 / t.cellHeight : ℕ) : ℤ) = t.cursorRow ∧
    t.cursor.any fun span => span.start ≤ p.1 % t.cellHeight ∧ p.1 % t.cellHeight < span.start + span.height

/-- The colour of a pixel, with the cursor: it is inverted there. -/
def TextFrame.colourWithCursor (t : TextFrame) (p : Pixel) : Colour :=
  if t.cursorAt p then t.colourAt p ^^^ 0xffffff#32 else t.colourAt p

/-- A blank cell of two lines, with the cursor on it. -/
def blank : TextFrame where
  textColumns := 1
  textRows := 1
  stride := 1
  capacity := 1
  cursorColumn := 0
  cursorRow := 0
  cursor := [⟨0, 2⟩]
  underlineRow := 32
  cursorMode := .source
  cursorPhase := true
  cells _ := ⟨32, 0, 7, 0, 0⟩
  textPalette i := if i = 0 then 0 else 0xaaaaaa
  fontHeight := 2
  font _ := 0
  secondaryFont _ := 0

/-- **No cursor is rendered, and a surface that was not valid changes as a whole**: the cursor is not on the surface,
and damage is returned though every pixel was right. -/
theorem renderFrame_not_cursor :
    (¬∀ (t : TextFrame) (pixels : ℕ → Colour) (width height : ℕ) (valid : Bool),
      (Frame.mk (some t) none).validate = true → frameSize ⟨some t, none⟩ = some (width, height) →
        ∀ row < height, ∀ column < width,
          (renderFrame ⟨some t, none⟩ pixels width height valid).pixels (place width (row, column)) =
            t.colourWithCursor (row, column)) ∧
      ¬∀ (frame : Frame) (pixels : ℕ → Colour) (width height : ℕ) (valid : Bool),
        frame.validate = true → frameSize frame = some (width, height) →
          ((renderFrame frame pixels width height valid).returned = false ↔
            ∀ row < height, ∀ column < width,
              (renderFrame frame pixels width height valid).pixels (place width (row, column)) =
                pixels (place width (row, column))) := by
  constructor
  · intro h
    have hcursor := h blank (fun _ => 0) 8 2 true (by decide) (by decide) 0 (by decide) 0 (by decide)
    revert hcursor
    decide
  · intro h
    have hsame := h twoPixels (fun i => if i = 1 then 0xffffff else 0) 2 1 false (by decide) (by decide)
    revert hsame
    decide

/-! ## What is read -/

/-- **Rendering a valid frame reads only what is there**, for every pixel of the surface: the pixel of the image, or
the cell, the row of its glyph and its two colours. -/
theorem renderFrame_reads (frame : Frame) (width height : ℕ) (p : Pixel) (hvalid : frame.validate = true)
    (hsize : frameSize frame = some (width, height)) (hrow : p.1 < height) (hcolumn : p.2 < width) :
    (∀ g, frame.graphics = some g → place g.stride p < g.capacity) ∧
      ∀ t, frame.text = some t → p.1 / t.cellHeight * t.stride + p.2 / 8 < t.capacity ∧
        (t.cellAt p).glyphIndex.toNat * 32 + p.1 % t.cellHeight < 256 * 32 ∧
        (t.cellAt p).foreground.toNat < 16 ∧ (t.cellAt p).background.toNat < 16 := by
  rcases frame with ⟨_ | t, _ | g⟩
  · cases hvalid
  · obtain ⟨rfl, rfl, -⟩ := checkedSize_eq hsize
    refine ⟨fun g' hg => ?_, fun t ht => (by cases ht)⟩
    cases hg
    exact g.reads_in_range hvalid hrow hcolumn
  · have hsize := (Option.ite_none_left_eq_some.mp hsize).2
    obtain ⟨rfl, rfl, -⟩ := checkedSize_eq hsize
    refine ⟨fun g hg => (by cases hg), fun t' ht => ?_⟩
    cases ht
    exact t.reads_in_range hvalid hrow hcolumn
  · cases hvalid

theorem renderFrame_reads_blank : (blank.cellAt (1, 7)).glyphIndex.toNat * 32 + 1 % blank.cellHeight < 256 * 32 :=
  ((renderFrame_reads ⟨some blank, none⟩ 8 2 (1, 7) (by decide) (by decide) (by decide) (by decide)).2 blank rfl).2.1

end SoftPC.KvmWindow
