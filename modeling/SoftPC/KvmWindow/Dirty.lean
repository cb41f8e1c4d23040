import SoftPC.KvmWindow.Geometry

/-!
# KvmWindow/Dirty — what is dirty in a window, when it is scaled

    source   …├──dirty──┤…          floor ◂──┤ · width / source ├──▸ ceiling
    target …├───mapped───┤…

`kvm_window_map_dirty_rect`.  A target pixel shows a source pixel when the two meet, scaled; the mapped rectangle has
all target pixels that meet a dirty one (`mapSpan_covers`), wherever in the pixel the scaler samples.
-/

namespace SoftPC.KvmWindow

/-- A cast to `lib_i32`. -/
def toInt32 (n : ℤ) : ℤ := n.bmod (2 ^ 32)

theorem toInt32_eq {n : ℤ} (h : 0 ≤ n) (h' : n < 2 ^ 31) : toInt32 n = n := Int.bmod_eq_of_le (by omega) (by omega)

/-- One axis of `kvm_window_map_dirty_rect`: from `start` to `stop` of a source of `size`, on a display. -/
def mapSpan (start stop displayStart displayStop : ℤ) (size : ℕ) : ℤ × ℤ :=
  let width := displayStop - displayStart
  let first := displayStart + toInt32 ((start * width).tdiv size)
  let last := displayStart + toInt32 ((stop * width + size - 1).tdiv size)
  (first, if last ≤ first then first + 1 else last)

/-- `kvm_window_map_dirty_rect`; `none` stores nothing. -/
def mapDirtyRect (source display : Rect) (sourceWidth sourceHeight : ℕ) : Option Rect :=
  if sourceWidth = 0 ∨ sourceHeight = 0 then none
  else
    let (left, right) := mapSpan source.left source.right display.left display.right sourceWidth
    let (top, bottom) := mapSpan source.top source.bottom display.top display.bottom sourceHeight
    some ⟨left, top, right, bottom⟩

/-- The source pixel that a scaler takes for a target pixel: the nearest one. -/
def nearest (offset width size : ℤ) : ℤ := offset * size / width

/-! ## One axis -/

/-- A dirty span that is in the source and not empty, and a display that is not empty. -/
structure Dirty (start stop displayStart displayStop : ℤ) (size : ℕ) : Prop where
  nonneg : 0 ≤ start
  lt : start < stop
  le : stop ≤ size
  display : displayStart < displayStop
  short : displayStop - displayStart < 2 ^ 31

namespace Dirty

variable {start stop displayStart displayStop : ℤ} {size : ℕ} (h : Dirty start stop displayStart displayStop size)
include h

theorem size_pos : (0 : ℤ) < size := by
  have := h.nonneg
  have := h.lt
  have := h.le
  omega

theorem first_eq : (mapSpan start stop displayStart displayStop size).1 =
    displayStart + start * (displayStop - displayStart) / size := by
  have hwidth := h.display
  have hsize := h.size_pos
  have hprod : 0 ≤ start * (displayStop - displayStart) := mul_nonneg h.nonneg (by omega)
  have hle : start * (displayStop - displayStart) / size ≤ displayStop - displayStart :=
    Int.ediv_le_of_le_mul hsize (by nlinarith [h.lt, h.le])
  unfold mapSpan
  dsimp only
  rw [Int.tdiv_eq_ediv_of_nonneg hprod, toInt32_eq (Int.ediv_nonneg hprod hsize.le) (lt_of_le_of_lt hle h.short)]

/-- The far edge is past the near one, and within the display. -/
theorem edges : start * (displayStop - displayStart) / size <
      (stop * (displayStop - displayStart) + size - 1) / size ∧
    (stop * (displayStop - displayStart) + size - 1) / size ≤ displayStop - displayStart := by
  have hwidth := h.display
  have hsize := h.size_pos
  constructor
  · calc start * (displayStop - displayStart) / size
      _ < start * (displayStop - displayStart) / size + 1 := Int.lt_add_one_of_le le_rfl
      _ = (start * (displayStop - displayStart) + size) / size := by
        rw [Int.add_ediv_of_dvd_right (dvd_refl _), Int.ediv_self hsize.ne']
      _ ≤ _ := Int.ediv_le_ediv hsize (by nlinarith [h.lt])
  · refine Int.lt_add_one_iff.mp (Int.ediv_lt_of_lt_mul hsize ?_)
    nlinarith [h.le]

/-- The ceiling of the far edge. -/
theorem last_eq : (mapSpan start stop displayStart displayStop size).2 =
    displayStart + (stop * (displayStop - displayStart) + size - 1) / size := by
  have hwidth := h.display
  have hsize := h.size_pos
  obtain ⟨hlt, hle⟩ := h.edges
  have hprod : 0 ≤ start * (displayStop - displayStart) := mul_nonneg h.nonneg (by omega)
  have hnonneg := Int.ediv_nonneg hprod hsize.le
  have hstop : 0 ≤ stop * (displayStop - displayStart) + size - 1 := by nlinarith [h.nonneg, h.lt]
  have hfirst := h.first_eq
  unfold mapSpan at hfirst ⊢
  dsimp only at hfirst ⊢
  rw [Int.tdiv_eq_ediv_of_nonneg hstop, toInt32_eq (by omega) (lt_of_le_of_lt hle h.short), hfirst]
  exact if_neg (by omega)

/-- **No target pixel that meets a dirty one is left out.** -/
theorem mapSpan_covers {s t : ℤ} (hs : start ≤ s ∧ s < stop)
    (hlow : s * (displayStop - displayStart) < (t + 1) * size)
    (hhigh : t * size < (s + 1) * (displayStop - displayStart)) :
    (mapSpan start stop displayStart displayStop size).1 ≤ displayStart + t ∧
      displayStart + t < (mapSpan start stop displayStart displayStop size).2 := by
  have hwidth := h.display
  have hsize := h.size_pos
  rw [h.first_eq, h.last_eq]
  constructor
  · have : start * (displayStop - displayStart) / size < t + 1 :=
      Int.ediv_lt_of_lt_mul hsize (by nlinarith [hs.1])
    omega
  · have : t + 1 ≤ (stop * (displayStop - displayStart) + size - 1) / size :=
      Int.le_ediv_of_mul_le hsize (by nlinarith [hs.2])
    omega

theorem mapSpan_within : displayStart ≤ (mapSpan start stop displayStart displayStop size).1 ∧
    (mapSpan start stop displayStart displayStop size).1 < (mapSpan start stop displayStart displayStop size).2 ∧
    (mapSpan start stop displayStart displayStop size).2 ≤ displayStop := by
  have hwidth := h.display
  have hnonneg := Int.ediv_nonneg (mul_nonneg h.nonneg (by omega : 0 ≤ displayStop - displayStart)) h.size_pos.le
  obtain ⟨hlt, hle⟩ := h.edges
  rw [h.first_eq, h.last_eq]
  omega

end Dirty

/-- The nearest pixel meets the target pixel. -/
theorem nearest_meets {t width size : ℤ} (hwidth : 0 < width) (hsize : 0 < size) :
    nearest t width size * width < (t + 1) * size ∧ t * size < (nearest t width size + 1) * width := by
  have hle := Int.ediv_mul_le (t * size) hwidth.ne'
  have hlt := Int.lt_ediv_add_one_mul_self (t * size) hwidth
  unfold nearest
  constructor
  · linarith
  · exact hlt

/-- **A dirty rectangle is not mapped too small.**  The target has every pixel for which a dirty one is taken, stays on
the display, and is not empty. -/
theorem mapDirtyRect_covers (source display : Rect) (sourceWidth sourceHeight : ℕ)
    (hx : Dirty source.left source.right display.left display.right sourceWidth)
    (hy : Dirty source.top source.bottom display.top display.bottom sourceHeight) :
    ∃ target, mapDirtyRect source display sourceWidth sourceHeight = some target ∧
      (∀ x y, display.left ≤ x → x < display.right → display.top ≤ y → y < display.bottom →
        source.left ≤ nearest (x - display.left) (display.right - display.left) sourceWidth →
        nearest (x - display.left) (display.right - display.left) sourceWidth < source.right →
        source.top ≤ nearest (y - display.top) (display.bottom - display.top) sourceHeight →
        nearest (y - display.top) (display.bottom - display.top) sourceHeight < source.bottom →
          target.left ≤ x ∧ x < target.right ∧ target.top ≤ y ∧ y < target.bottom) ∧
      display.left ≤ target.left ∧ target.left < target.right ∧ target.right ≤ display.right ∧
      display.top ≤ target.top ∧ target.top < target.bottom ∧ target.bottom ≤ display.bottom := by
  have hw := hx.size_pos
  have hh := hy.size_pos
  refine ⟨_, if_neg (by omega), fun x y _ _ _ _ hleft hright htop hbottom => ?_, ?_⟩
  · obtain ⟨hxlow, hxhigh⟩ := nearest_meets (t := x - display.left) (sub_pos.mpr hx.display) hw
    obtain ⟨hylow, hyhigh⟩ := nearest_meets (t := y - display.top) (sub_pos.mpr hy.display) hh
    have hcoverX := hx.mapSpan_covers ⟨hleft, hright⟩ hxlow hxhigh
    have hcoverY := hy.mapSpan_covers ⟨htop, hbottom⟩ hylow hyhigh
    rw [add_sub_cancel] at hcoverX hcoverY
    exact ⟨hcoverX.1, hcoverX.2, hcoverY.1, hcoverY.2⟩
  · exact ⟨hx.mapSpan_within.1, hx.mapSpan_within.2.1, hx.mapSpan_within.2.2,
      hy.mapSpan_within.1, hy.mapSpan_within.2.1, hy.mapSpan_within.2.2⟩

theorem mapDirtyRect_covers_hundred :
    ∃ target, mapDirtyRect ⟨50, 60, 70, 80⟩ ⟨10, 20, 143, 151⟩ 100 100 = some target ∧
      (∀ x y, 10 ≤ x → x < 143 → 20 ≤ y → y < 151 →
        50 ≤ nearest (x - 10) (143 - 10) (100 : ℕ) → nearest (x - 10) (143 - 10) (100 : ℕ) < 70 →
        60 ≤ nearest (y - 20) (151 - 20) (100 : ℕ) → nearest (y - 20) (151 - 20) (100 : ℕ) < 80 →
          target.left ≤ x ∧ x < target.right ∧ target.top ≤ y ∧ y < target.bottom) ∧
      10 ≤ target.left ∧ target.left < target.right ∧ target.right ≤ 143 ∧
      20 ≤ target.top ∧ target.top < target.bottom ∧ target.bottom ≤ 151 :=
  mapDirtyRect_covers ⟨50, 60, 70, 80⟩ ⟨10, 20, 143, 151⟩ 100 100 ⟨by decide, by decide, by decide, by decide, by decide⟩
    ⟨by decide, by decide, by decide, by decide, by decide⟩

/-- A dirty rectangle that is empty is one pixel, and so is one on a display that is: it may be off the display. -/
theorem mapDirtyRect_off : ¬∀ (source display target : Rect) (sourceWidth sourceHeight : ℕ),
    mapDirtyRect source display sourceWidth sourceHeight = some target →
      display.left ≤ target.left ∧ target.right ≤ display.right ∧
        display.top ≤ target.top ∧ target.bottom ≤ display.bottom := by
  intro h
  have hoff := h ⟨640, 400, 640, 400⟩ ⟨0, 0, 640, 400⟩ ⟨640, 400, 641, 401⟩ 640 400 (by decide)
  revert hoff
  decide

end SoftPC.KvmWindow
