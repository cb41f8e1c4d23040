import Mathlib.Algebra.Order.Ring.Abs
import Mathlib.Data.Int.Init
import Mathlib.Tactic.Linarith
import Mathlib.Tactic.LinearCombination

/-!
# KvmWindow/Motion — mouse motion, from the window to what it shows

    (dx, dy) ──▸ · content ──▸ + remainder ──▸ / client ──▸ (dx', dy')
                                  ▲───────────── % client

`motion.c`.  What a division leaves is carried into the next call, so that nothing is lost over a run
(`balanced_run`).  The axes go one after the other: a call that gives up on the second has already moved the first.
-/

namespace SoftPC.KvmWindow

/-- `kvm_window_motion`. -/
structure Motion where
  x : ℤ
  y : ℤ
  valid : Bool
  remainderX : ℤ
  remainderY : ℤ
  clientWidth : ℤ
  clientHeight : ℤ
  contentWidth : ℕ
  contentHeight : ℕ
  deriving DecidableEq

/-- The size of the window, and of what it shows. -/
structure Sizes where
  clientWidth : ℤ
  clientHeight : ℤ
  contentWidth : ℕ
  contentHeight : ℕ

/-- It is a `lib_i32`. -/
def InInt32 (n : ℤ) : Prop := -2147483648 ≤ n ∧ n ≤ 2147483647

instance (n : ℤ) : Decidable (InInt32 n) := inferInstanceAs (Decidable (_ ∧ _))

/-- One axis of `kvm_window_motion_scale`: the motion, and what remains of it; `none` gives up. -/
def scaleAxis (delta client : ℤ) (content : ℕ) (remainder : ℤ) : Option (ℤ × ℤ) :=
  if 0 < client ∧ content ≠ 0 then
    let total := delta * content + remainder
    if InInt32 (total.tdiv client) then some (total.tdiv client, total.tmod client) else none
  else some (delta, remainder)

namespace Motion

variable (m : Motion) (s : Sizes)

/-- A remainder is only carried at the same sizes. -/
def settle : Motion :=
  { m with
    remainderX := if m.clientWidth ≠ s.clientWidth ∨ m.contentWidth ≠ s.contentWidth then 0 else m.remainderX
    remainderY := if m.clientHeight ≠ s.clientHeight ∨ m.contentHeight ≠ s.contentHeight then 0 else m.remainderY
    clientWidth := s.clientWidth
    clientHeight := s.clientHeight
    contentWidth := s.contentWidth
    contentHeight := s.contentHeight }

/-- `kvm_window_motion_scale`: what it returns, `dx`, `dy`, and the motion. -/
def scale (x y : ℤ) : Bool × ℤ × ℤ × Motion :=
  let m := m.settle s
  match scaleAxis x s.clientWidth s.contentWidth m.remainderX with
  | none => (false, x, y, m)
  | some (dx, remainderX) =>
    let m := { m with remainderX }
    match scaleAxis y s.clientHeight s.contentHeight m.remainderY with
    | none => (false, dx, y, m)
    | some (dy, remainderY) => (true, dx, dy, { m with remainderY })

/-- `kvm_window_motion_move`. -/
def move (x y : ℤ) : Bool × ℤ × ℤ × Motion :=
  let dx := if m.valid then x - m.x else 0
  let dy := if m.valid then y - m.y else 0
  scale { m with x, y, valid := true } s dx dy

end Motion

/-! ## One axis -/

section

variable {delta client remainder d r : ℤ} {content : ℕ}

/-- The axis gives up. -/
theorem scaleAxis_eq_none : scaleAxis delta client content remainder = none ↔
    (0 < client ∧ content ≠ 0) ∧ ¬InInt32 ((delta * content + remainder).tdiv client) := by
  unfold scaleAxis
  dsimp only
  split_ifs with hsizes hfits
  · simp only [hfits, not_true_eq_false, and_false]
  · simp only [hsizes, hfits, ne_eq, not_false_eq_true, and_self]
  · simp only [hsizes, false_and]

/-- **What it emits and what it keeps are the whole motion.** -/
theorem scaleAxis_balance (hclient : 0 < client) (hcontent : content ≠ 0)
    (h : scaleAxis delta client content remainder = some (d, r)) :
    d * client + r = delta * content + remainder ∧ |r| < client := by
  unfold scaleAxis at h
  rw [if_pos ⟨hclient, hcontent⟩] at h
  obtain ⟨hfits, heq⟩ := Option.ite_none_right_eq_some.mp h
  obtain ⟨rfl, rfl⟩ := Prod.mk.inj (Option.some.inj heq)
  refine ⟨Int.tdiv_mul_add_tmod _ _, ?_⟩
  rw [abs_lt]
  exact ⟨Int.lt_tmod_of_pos _ hclient, Int.tmod_lt_of_pos _ hclient⟩

/-- Nothing overflows `lib_i64` on the way. -/
theorem total_lt (hdelta : InInt32 delta) (hcontent : content < 2 ^ 32) (hr : |remainder| < client)
    (hclient : InInt32 client) : |delta * content + remainder| < 2 ^ 63 := by
  have hprod : |delta * content| ≤ 2 ^ 31 * (2 ^ 32 - 1) := by
    rw [abs_mul, Nat.abs_cast]
    exact mul_le_mul (abs_le.mpr ⟨hdelta.1, by linarith [hdelta.2]⟩) (by omega) (Int.natCast_nonneg _) (by norm_num)
  have hsum := abs_add_le (delta * content) remainder
  linarith [hclient.2]

end

/-! ## A call -/

section

variable {m : Motion} {s : Sizes} {x y : ℤ}

@[simp] theorem settle_settle : (m.settle s).settle s = m.settle s := by
  simp [Motion.settle]

theorem settle_of_remainders {rx ry : ℤ} :
    ({ m.settle s with remainderX := rx, remainderY := ry } : Motion).settle s =
      { m.settle s with remainderX := rx, remainderY := ry } := by
  simp [Motion.settle]

/-- **What a call does.** -/
theorem scale_cases :
    (scaleAxis x s.clientWidth s.contentWidth (m.settle s).remainderX = none ∧
      m.scale s x y = (false, x, y, m.settle s)) ∨
    (∃ dx rx, scaleAxis x s.clientWidth s.contentWidth (m.settle s).remainderX = some (dx, rx) ∧
      scaleAxis y s.clientHeight s.contentHeight (m.settle s).remainderY = none ∧
      m.scale s x y = (false, dx, y, { m.settle s with remainderX := rx })) ∨
    (∃ dx rx dy ry, scaleAxis x s.clientWidth s.contentWidth (m.settle s).remainderX = some (dx, rx) ∧
      scaleAxis y s.clientHeight s.contentHeight (m.settle s).remainderY = some (dy, ry) ∧
      m.scale s x y = (true, dx, dy, { m.settle s with remainderX := rx, remainderY := ry })) := by
  unfold Motion.scale
  cases hx : scaleAxis x s.clientWidth s.contentWidth (m.settle s).remainderX with
  | none => exact .inl ⟨rfl, by simp only [hx]⟩
  | some p =>
    obtain ⟨dx, rx⟩ := p
    cases hy : scaleAxis y s.clientHeight s.contentHeight (m.settle s).remainderY with
    | none => exact .inr (.inl ⟨dx, rx, rfl, rfl, by simp only [hx, hy]⟩)
    | some q =>
      obtain ⟨dy, ry⟩ := q
      exact .inr (.inr ⟨dx, rx, dy, ry, rfl, rfl, by simp only [hx, hy]⟩)

/-- The motion of an axis fits, scaled. -/
def AxisFits (delta client : ℤ) (content : ℕ) (remainder : ℤ) : Prop :=
  InInt32 ((delta * content + remainder).tdiv client)

instance (delta client : ℤ) (content : ℕ) (remainder : ℤ) : Decidable (AxisFits delta client content remainder) :=
  inferInstanceAs (Decidable (InInt32 _))

end

namespace Sizes

variable (s : Sizes)

/-- There is a window, and something in it. -/
def Sized : Prop := 0 < s.clientWidth ∧ 0 < s.clientHeight ∧ s.contentWidth ≠ 0 ∧ s.contentHeight ≠ 0

instance : Decidable s.Sized := inferInstanceAs (Decidable (_ ∧ _))

end Sizes

variable (s : Sizes) (m : Motion) (x y : ℤ)

/-- The call does not give up on the second axis, once it has moved the first one and has something left of it that it
had not before. -/
def Even : Prop :=
  AxisFits x s.clientWidth s.contentWidth (m.settle s).remainderX →
    AxisFits y s.clientHeight s.contentHeight (m.settle s).remainderY ∨
      (x * s.contentWidth + (m.settle s).remainderX).tmod s.clientWidth = (m.settle s).remainderX

instance : Decidable (Even s m x y) := inferInstanceAs (Decidable (_ → _))

/-- A call that gives up changes no remainder. -/
def Unchanged : Prop :=
  (m.scale s x y).1 = false →
    ((m.scale s x y).2.2.2.settle s).remainderX = (m.settle s).remainderX ∧
      ((m.scale s x y).2.2.2.settle s).remainderY = (m.settle s).remainderY

instance : Decidable (Unchanged s m x y) := inferInstanceAs (Decidable (_ → _))

variable {s m x y}

theorem scaleAxis_of_fits {delta client remainder : ℤ} {content : ℕ} (hclient : 0 < client) (hcontent : content ≠ 0)
    (h : AxisFits delta client content remainder) : scaleAxis delta client content remainder =
      some ((delta * content + remainder).tdiv client, (delta * content + remainder).tmod client) := by
  unfold scaleAxis
  rw [if_pos ⟨hclient, hcontent⟩]
  exact if_pos h

theorem scaleAxis_of_not_fits {delta client remainder : ℤ} {content : ℕ} (hclient : 0 < client) (hcontent : content ≠ 0)
    (h : ¬AxisFits delta client content remainder) : scaleAxis delta client content remainder = none :=
  scaleAxis_eq_none.2 ⟨⟨hclient, hcontent⟩, h⟩

/-- **Exactly the even calls change nothing when they give up.** -/
theorem unchanged_iff (hs : s.Sized) : Unchanged s m x y ↔ Even s m x y := by
  obtain ⟨hcw, hch, hw, hh⟩ := hs
  unfold Unchanged Even
  by_cases hx : AxisFits x s.clientWidth s.contentWidth (m.settle s).remainderX
  · by_cases hy : AxisFits y s.clientHeight s.contentHeight (m.settle s).remainderY
    · simp only [Motion.scale, scaleAxis_of_fits hcw hw hx, scaleAxis_of_fits hch hh hy, hx, hy, true_or,
        reduceCtorEq, false_implies, implies_true]
    · have hsettle : ∀ rx, ({ m.settle s with remainderX := rx } : Motion).settle s =
          { m.settle s with remainderX := rx } := fun rx => settle_of_remainders
      simp only [Motion.scale, scaleAxis_of_fits hcw hw hx, scaleAxis_of_not_fits hch hh hy, hx, hy, hsettle,
        true_implies, false_or, and_true]
  · simp only [Motion.scale, scaleAxis_of_not_fits hcw hw hx, hx, settle_settle, and_self, implies_true, false_implies]

/-! ## Runs -/

/-- A motion, and what has gone into it and come out of it: the calls that gave up are not counted. -/
structure Tally where
  motion : Motion
  inX : ℤ
  inY : ℤ
  outX : ℤ
  outY : ℤ

namespace Tally

/-- Nothing yet. -/
def start (m : Motion) : Tally := ⟨m, 0, 0, 0, 0⟩

/-- One call more. -/
def call (s : Sizes) (t : Tally) (delta : ℤ × ℤ) : Tally :=
  match t.motion.scale s delta.1 delta.2 with
  | (true, dx, dy, m) => ⟨m, t.inX + delta.1, t.inY + delta.2, t.outX + dx, t.outY + dy⟩
  | (false, _, _, m) => { t with motion := m }

/-- A run of calls. -/
def run (s : Sizes) (t : Tally) (deltas : List (ℤ × ℤ)) : Tally := deltas.foldl (call s) t

/-- Every call of a run is even. -/
def AllEven (s : Sizes) : Tally → List (ℤ × ℤ) → Prop
  | _, [] => True
  | t, delta :: deltas => Even s t.motion delta.1 delta.2 ∧ AllEven s (t.call s delta) deltas

/-- What came out and what remains are what went in. -/
structure Balanced (s : Sizes) (t : Tally) : Prop where
  x : t.outX * s.clientWidth + (t.motion.settle s).remainderX = t.inX * s.contentWidth
  y : t.outY * s.clientHeight + (t.motion.settle s).remainderY = t.inY * s.contentHeight
  ltX : |(t.motion.settle s).remainderX| < s.clientWidth
  ltY : |(t.motion.settle s).remainderY| < s.clientHeight

variable {s : Sizes} {t : Tally} {delta : ℤ × ℤ}

/-- One call. -/
theorem Balanced.call (hs : s.Sized) (ht : Balanced s t) (heven : Even s t.motion delta.1 delta.2) :
    Balanced s (t.call s delta) := by
  obtain ⟨x, y⟩ := delta
  have hunchanged := (unchanged_iff hs).mpr heven
  unfold Unchanged at hunchanged
  unfold Tally.call
  obtain ⟨-, heq⟩ | ⟨dx, rx, -, -, heq⟩ | ⟨dx, rx, dy, ry, hx, hy, heq⟩ :=
    scale_cases (m := t.motion) (s := s) (x := x) (y := y)
  · rw [heq] at hunchanged ⊢
    obtain ⟨hx, hy⟩ := hunchanged rfl
    exact ⟨hx ▸ ht.x, hy ▸ ht.y, hx ▸ ht.ltX, hy ▸ ht.ltY⟩
  · rw [heq] at hunchanged ⊢
    obtain ⟨hx, hy⟩ := hunchanged rfl
    exact ⟨hx ▸ ht.x, hy ▸ ht.y, hx ▸ ht.ltX, hy ▸ ht.ltY⟩
  · obtain ⟨hbx, hlx⟩ := scaleAxis_balance hs.1 hs.2.2.1 hx
    obtain ⟨hby, hly⟩ := scaleAxis_balance hs.2.1 hs.2.2.2 hy
    rw [heq]
    refine ⟨?_, ?_, ?_, ?_⟩
    all_goals simp only [settle_of_remainders]
    · linear_combination ht.x + hbx
    · linear_combination ht.y + hby
    · exact hlx
    · exact hly

/-- A run. -/
theorem balanced_run (hs : s.Sized) {deltas : List (ℤ × ℤ)} (ht : Balanced s t) (heven : AllEven s t deltas) :
    Balanced s (t.run s deltas) := by
  induction deltas generalizing t with
  | nil => exact ht
  | cons delta deltas ih => exact ih (ht.call hs heven.1) heven.2

end Tally

/-- **No drift.**  At sizes that are new, or with nothing left over, a run of even calls keeps both axes balanced, and
a call after it that gives up changes nothing exactly if it is even. -/
theorem motion_balanced (s : Sizes) (m : Motion) (deltas : List (ℤ × ℤ)) (hs : s.Sized)
    (hstart : (m.settle s).remainderX = 0 ∧ (m.settle s).remainderY = 0)
    (heven : (Tally.start m).AllEven s deltas) :
    (((Tally.start m).run s deltas).Balanced s) ∧
      ∀ x y, Unchanged s ((Tally.start m).run s deltas).motion x y ↔
        Even s ((Tally.start m).run s deltas).motion x y := by
  refine ⟨Tally.balanced_run hs ⟨?_, ?_, ?_, ?_⟩ heven, fun x y => unchanged_iff hs⟩
  · simp only [Tally.start, hstart.1, zero_mul, add_zero]
  · simp only [Tally.start, hstart.2, zero_mul, add_zero]
  · simp only [Tally.start, hstart.1, abs_zero, hs.1]
  · simp only [Tally.start, hstart.2, abs_zero, hs.2.1]

/-- 640 by 10, of 320 by 200. -/
def narrow : Sizes := ⟨640, 10, 320, 200⟩

/-- A motion of no call yet. -/
def Motion.zero : Motion := ⟨0, 0, false, 0, 0, 0, 0, 0, 0⟩

theorem motion_balanced_narrow : ((Tally.start .zero).run narrow [(1, 3), (-5, 2)]).Balanced narrow ∧
    ∀ x y, Unchanged narrow ((Tally.start .zero).run narrow [(1, 3), (-5, 2)]).motion x y ↔
      Even narrow ((Tally.start .zero).run narrow [(1, 3), (-5, 2)]).motion x y :=
  motion_balanced narrow .zero [(1, 3), (-5, 2)] (by decide) (by decide) ⟨by decide, by decide, trivial⟩

/-- The call gives up on the second axis: what went into the first one is still counted in the remainder. -/
theorem motion_drifts : ¬Unchanged narrow .zero 1 2147483647 ∧
    ¬((Tally.start .zero).run narrow [(1, 2147483647)]).Balanced narrow := by
  refine ⟨by decide, fun h => ?_⟩
  have hx := h.x
  revert hx
  decide

end SoftPC.KvmWindow
