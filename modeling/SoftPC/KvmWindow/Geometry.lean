import SoftPC.KvmWindow.Motion
import Mathlib.Algebra.Order.Floor.Div
import Mathlib.Tactic.Zify

/-!
# KvmWindow/Geometry — fitting a picture into a window, and mapping what is dirty

`geometry.c`.  An extent is scaled upwards (`scaleExtent`), so that the axis which limits the size keeps doing so
when the size is fitted again (`fitAspectSize_again`).  A dirty rectangle is mapped outwards on every side.
-/

namespace SoftPC.KvmWindow

/-- `kvm_window_scale_extent`, in `lib_u64`, and cut down to `lib_i32`. -/
def scaleExtent (extent : ℤ) (numerator denominator : ℕ) : ℤ :=
  (((extent.toNat * numerator + denominator - 1) % 2 ^ 64 / denominator : ℕ) : ℤ).bmod (2 ^ 32)

/-- `kvm_window_fit_aspect_size`; `none` is `LIB_FALSE`. -/
def fitAspectSize (availableWidth availableHeight : ℤ) (sourceWidth sourceHeight : ℕ) : Option (ℤ × ℤ) :=
  if availableWidth ≤ 0 ∨ availableHeight ≤ 0 ∨ sourceWidth = 0 ∨ sourceHeight = 0 then none
  else
    let (width, height) :=
      if availableWidth.toNat * sourceHeight % 2 ^ 64 ≤ availableHeight.toNat * sourceWidth % 2 ^ 64 then
        (availableWidth, scaleExtent availableWidth sourceHeight sourceWidth)
      else
        (scaleExtent availableHeight sourceWidth sourceHeight, availableHeight)
    if width ≤ 0 ∨ height ≤ 0 then none else some (width, height)

/-- `kvm_window_rect`. -/
structure Rect where
  left : ℤ
  top : ℤ
  right : ℤ
  bottom : ℤ
  deriving DecidableEq

/-! ## Scaled extents -/

section

variable {e n d : ℕ} {k : ℕ}

/-- The product of an extent and a side stays well below `2 ^ 64`. -/
theorem product_le (he : e < 2 ^ 31) (hn : n < 2 ^ 32) : e * n ≤ (2 ^ 31 - 1) * (2 ^ 32 - 1) :=
  Nat.mul_le_mul (by omega) (by omega)

theorem mul_mod_eq (he : e < 2 ^ 31) (hn : n < 2 ^ 32) : e * n % 2 ^ 64 = e * n :=
  Nat.mod_eq_of_lt (lt_of_le_of_lt (product_le he hn) (by norm_num))

theorem round_mod_eq (he : e < 2 ^ 31) (hn : n < 2 ^ 32) (hd : d < 2 ^ 32) :
    (e * n + d - 1) % 2 ^ 64 = e * n + d - 1 := by
  have hprod := product_le he hn
  exact Nat.mod_eq_of_lt (by omega)

/-- **An extent is scaled upwards**: it is the ceiling, as long as that is a `lib_i32`. -/
theorem scaleExtent_eq (he : e < 2 ^ 31) (hn : n < 2 ^ 32) (hd : d < 2 ^ 32) (hpos : 0 < d) (hk : k < 2 ^ 31)
    (hle : e * n ≤ k * d) : scaleExtent e n d = ((e * n ⌈/⌉ d : ℕ) : ℤ) := by
  have hceil : e * n ⌈/⌉ d ≤ k := (ceilDiv_le_iff_le_mul hpos).mpr (by rwa [mul_comm d])
  have hbmod : ((e * n ⌈/⌉ d : ℕ) : ℤ).bmod (2 ^ 32) = ((e * n ⌈/⌉ d : ℕ) : ℤ) :=
    Int.bmod_eq_of_le (by omega) (by omega)
  unfold scaleExtent
  rw [Int.toNat_natCast, round_mod_eq he hn hd, ← Nat.ceilDiv_eq_add_pred_div, hbmod]

/-- The ceiling is less than one above. -/
theorem ceilDiv_mul_lt (hpos : 0 < d) : (n ⌈/⌉ d) * d < n + d := by
  rw [Nat.ceilDiv_eq_add_pred_div]
  have := Nat.div_mul_le_self (n + d - 1) d
  omega

theorem le_ceilDiv_mul (hpos : 0 < d) : n ≤ (n ⌈/⌉ d) * d := by
  rw [mul_comm]
  exact (ceilDiv_le_iff_le_mul hpos).mp le_rfl

theorem ceilDiv_pos' (hpos : 0 < d) (hn : 0 < n) : 0 < n ⌈/⌉ d :=
  Nat.pos_of_ne_zero fun h => by simpa [h, hn.ne'] using le_ceilDiv_mul (n := n) hpos

theorem ceilDiv_mul_self (hpos : 0 < d) : (k * d) ⌈/⌉ d = k :=
  le_antisymm ((ceilDiv_le_iff_le_mul hpos).mpr (mul_comm k d).le)
    (Nat.le_of_mul_le_mul_right (le_ceilDiv_mul hpos) hpos)

end

/-! ## Fitting -/

section

variable {aw ah sw sh : ℕ}

/-- The size is as wide as it can be, or as high; the other side is what the ratio of the source makes of it,
rounded up. -/
theorem fitAspectSize_eq (haw : 0 < aw) (hah : 0 < ah) (hsw : 0 < sw) (hsh : 0 < sh)
    (haw' : aw < 2 ^ 31) (hah' : ah < 2 ^ 31) (hsw' : sw < 2 ^ 32) (hsh' : sh < 2 ^ 32) :
    fitAspectSize aw ah sw sh =
      if aw * sh ≤ ah * sw then some ((aw : ℤ), ((aw * sh ⌈/⌉ sw : ℕ) : ℤ))
      else some (((ah * sw ⌈/⌉ sh : ℕ) : ℤ), (ah : ℤ)) := by
  have hpositive : ¬((aw : ℤ) ≤ 0 ∨ (ah : ℤ) ≤ 0 ∨ sw = 0 ∨ sh = 0) := by omega
  unfold fitAspectSize
  simp only [if_neg hpositive, Int.toNat_natCast, mul_mod_eq haw' hsh', mul_mod_eq hah' hsw']
  by_cases hle : aw * sh ≤ ah * sw
  · have hheight := ceilDiv_pos' hsw (Nat.mul_pos haw hsh)
    simp only [if_pos hle, scaleExtent_eq haw' hsh' hsw' hsw hah' hle]
    exact if_neg (by omega)
  · have hwidth := ceilDiv_pos' hsh (Nat.mul_pos hah hsw)
    simp only [if_neg hle, scaleExtent_eq hah' hsw' hsh' hsh haw' (le_of_not_ge hle)]
    exact if_neg (by omega)

/-- A size that fits a source is within what there is, and touches it. -/
structure Fitted (aw ah sw sh w h : ℕ) : Prop where
  posW : 0 < w
  posH : 0 < h
  leW : w ≤ aw
  leH : h ≤ ah
  /-- One axis is full, and on the other one the ratio is kept to within a pixel. -/
  ratio : (w = aw ∧ w * sh ≤ h * sw ∧ h * sw < w * sh + sw) ∨ (h = ah ∧ h * sw ≤ w * sh ∧ w * sh < h * sw + sh)

theorem fitted_wide (haw : 0 < aw) (hsw : 0 < sw) (hsh : 0 < sh) (hle : aw * sh ≤ ah * sw) :
    Fitted aw ah sw sh aw (aw * sh ⌈/⌉ sw) where
  posW := haw
  posH := ceilDiv_pos' hsw (Nat.mul_pos haw hsh)
  leW := le_rfl
  leH := (ceilDiv_le_iff_le_mul hsw).mpr (by rwa [mul_comm sw])
  ratio := .inl ⟨rfl, le_ceilDiv_mul hsw, ceilDiv_mul_lt hsw⟩

theorem fitted_high (hah : 0 < ah) (hsw : 0 < sw) (hsh : 0 < sh) (hle : ah * sw ≤ aw * sh) :
    Fitted aw ah sw sh (ah * sw ⌈/⌉ sh) ah where
  posW := ceilDiv_pos' hsh (Nat.mul_pos hah hsw)
  posH := hah
  leW := (ceilDiv_le_iff_le_mul hsh).mpr (by rwa [mul_comm sh])
  leH := le_rfl
  ratio := .inr ⟨rfl, le_ceilDiv_mul hsh, ceilDiv_mul_lt hsh⟩

end

/-- The ceiling of what is below a multiple, and near it, is that multiple. -/
theorem ceilDiv_eq {n d k : ℕ} (hpos : 0 < d) (hle : n ≤ k * d) (hlt : k * d < n + d) : n ⌈/⌉ d = k := by
  refine le_antisymm ((ceilDiv_le_iff_le_mul hpos).mpr (by rwa [mul_comm d])) ?_
  by_contra hnot
  have hk : (n ⌈/⌉ d + 1) * d ≤ k * d := Nat.mul_le_mul_right d (not_le.mp hnot)
  have := le_ceilDiv_mul (n := n) hpos
  rw [add_mul, one_mul] at hk
  omega

/-- **What fits is fitted to itself.** -/
theorem fitAspectSize_again {w h sw sh aw ah : ℕ} (hsw : 0 < sw) (hsh : 0 < sh) (haw' : aw < 2 ^ 31)
    (hah' : ah < 2 ^ 31) (hsw' : sw < 2 ^ 32) (hsh' : sh < 2 ^ 32) (hfit : Fitted aw ah sw sh w h) :
    fitAspectSize w h sw sh = some ((w : ℤ), (h : ℤ)) := by
  rw [fitAspectSize_eq hfit.posW hfit.posH hsw hsh (lt_of_le_of_lt hfit.leW haw') (lt_of_le_of_lt hfit.leH hah')
    hsw' hsh']
  obtain ⟨-, hle, hlt⟩ | ⟨-, hle, hlt⟩ := hfit.ratio
  · rw [if_pos hle, ceilDiv_eq hsw hle hlt]
  · split_ifs with hwide
    · rw [le_antisymm hwide hle, ceilDiv_mul_self hsw]
    · rw [ceilDiv_eq hsh hle hlt]

/-- **A size that fits.**  It is within what there is, full on one axis, never zero, and stays when it is fitted again;
no product overflows. -/
theorem fitAspectSize_fits (aw ah sw sh : ℕ) (haw : 0 < aw) (hah : 0 < ah) (hsw : 0 < sw) (hsh : 0 < sh)
    (haw' : aw < 2 ^ 31) (hah' : ah < 2 ^ 31) (hsw' : sw < 2 ^ 32) (hsh' : sh < 2 ^ 32) :
    ∃ w h : ℕ, fitAspectSize aw ah sw sh = some ((w : ℤ), (h : ℤ)) ∧ Fitted aw ah sw sh w h ∧
      fitAspectSize w h sw sh = some ((w : ℤ), (h : ℤ)) ∧
      aw * sh + sw - 1 < 2 ^ 64 ∧ ah * sw + sh - 1 < 2 ^ 64 := by
  have hwide := product_le haw' hsh'
  have hhigh := product_le hah' hsw'
  have heq := fitAspectSize_eq haw hah hsw hsh haw' hah' hsw' hsh'
  by_cases hle : aw * sh ≤ ah * sw
  · have hfit := fitted_wide haw hsw hsh hle
    exact ⟨_, _, heq.trans (if_pos hle), hfit, fitAspectSize_again hsw hsh haw' hah' hsw' hsh' hfit, by omega, by omega⟩
  · have hfit := fitted_high hah hsw hsh (le_of_not_ge hle)
    exact ⟨_, _, heq.trans (if_neg hle), hfit, fitAspectSize_again hsw hsh haw' hah' hsw' hsh' hfit, by omega, by omega⟩

theorem fitAspectSize_fits_vga : ∃ w h : ℕ, fitAspectSize (1001 : ℕ) (751 : ℕ) 640 480 = some ((w : ℤ), (h : ℤ)) ∧
    Fitted 1001 751 640 480 w h ∧ fitAspectSize w h 640 480 = some ((w : ℤ), (h : ℤ)) ∧
    1001 * 480 + 640 - 1 < 2 ^ 64 ∧ 751 * 640 + 480 - 1 < 2 ^ 64 :=
  fitAspectSize_fits 1001 751 640 480 (by decide) (by decide) (by decide) (by decide) (by decide) (by decide)
    (by decide) (by decide)

end SoftPC.KvmWindow
