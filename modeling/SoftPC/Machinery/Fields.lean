import Mathlib.Data.Nat.Notation
import Mathlib.Tactic.Common

/-!
# Machinery/Fields — a field of a word

The field of `n` bits at `s`, taken, put and flipped; fields apart keep to themselves.
-/

namespace SoftPC

variable {w n s s' : ℕ}

/-- The low `n` bits. -/
def lowBits (w n : ℕ) : BitVec w := (BitVec.allOnes n).setWidth w

/-- The field, at the right. -/
def takeField (x : BitVec w) (n s : ℕ) : BitVec w := x >>> s &&& lowBits w n

/-- The field replaced. -/
def putField (x v : BitVec w) (n s : ℕ) : BitVec w := x &&& ~~~(lowBits w n <<< s) ||| (v &&& lowBits w n) <<< s

/-- The field flipped where `v` is set. -/
def flipField (x v : BitVec w) (n s : ℕ) : BitVec w := x ^^^ (v &&& lowBits w n) <<< s

@[simp] theorem getLsbD_lowBits (i : ℕ) : (lowBits w n).getLsbD i = (decide (i < w) && decide (i < n)) := by
  rw [lowBits, BitVec.getLsbD_setWidth, BitVec.getLsbD_allOnes]

theorem getLsbD_takeField (x : BitVec w) (i : ℕ) :
    (takeField x n s).getLsbD i = (x.getLsbD (s + i) && decide (i < w) && decide (i < n)) := by
  rw [takeField, BitVec.getLsbD_and, BitVec.getLsbD_ushiftRight, getLsbD_lowBits, Bool.and_assoc]

/-- Where a mask for the field is set. -/
theorem getLsbD_fieldMask (i : ℕ) : (lowBits w n <<< s).getLsbD i = decide (s ≤ i ∧ i < s + n ∧ i < w) := by
  rw [BitVec.getLsbD_shiftLeft, getLsbD_lowBits]
  grind

theorem getLsbD_fieldValue (v : BitVec w) (i : ℕ) : ((v &&& lowBits w n) <<< s).getLsbD i =
    (decide (s ≤ i ∧ i < s + n ∧ i < w) && v.getLsbD (i - s)) := by
  rw [BitVec.getLsbD_shiftLeft, BitVec.getLsbD_and, getLsbD_lowBits]
  grind

theorem getLsbD_putField (x v : BitVec w) (i : ℕ) : (putField x v n s).getLsbD i =
    if s ≤ i ∧ i < s + n ∧ i < w then v.getLsbD (i - s) else x.getLsbD i := by
  rw [putField, BitVec.getLsbD_or, BitVec.getLsbD_and, BitVec.getLsbD_not, getLsbD_fieldMask, getLsbD_fieldValue]
  split
  · simp [*]
  · have hx : w ≤ i → x.getLsbD i = false := BitVec.getLsbD_of_ge x i
    grind

theorem getLsbD_flipField (x v : BitVec w) (i : ℕ) : (flipField x v n s).getLsbD i =
    if s ≤ i ∧ i < s + n ∧ i < w then x.getLsbD i ^^ v.getLsbD (i - s) else x.getLsbD i := by
  rw [flipField, BitVec.getLsbD_xor, getLsbD_fieldValue]
  split <;> simp [*]

/-- **A field is taken as it was put**, in what room the word has. -/
theorem takeField_putField (x v : BitVec w) (h : s + n ≤ w) : takeField (putField x v n s) n s = v &&& lowBits w n := by
  ext i hi
  rw [← BitVec.getLsbD_eq_getElem, ← BitVec.getLsbD_eq_getElem, getLsbD_takeField, getLsbD_putField, BitVec.getLsbD_and,
    getLsbD_lowBits]
  by_cases hn : i < n
  · rw [if_pos (by omega), Nat.add_sub_cancel_left, Bool.and_assoc]
  · simp [hn]

theorem takeField_flipField (x v : BitVec w) (h : s + n ≤ w) :
    takeField (flipField x v n s) n s = takeField x n s ^^^ (v &&& lowBits w n) := by
  ext i hi
  rw [← BitVec.getLsbD_eq_getElem, ← BitVec.getLsbD_eq_getElem, getLsbD_takeField, getLsbD_flipField, BitVec.getLsbD_xor,
    getLsbD_takeField, BitVec.getLsbD_and, getLsbD_lowBits]
  by_cases hn : i < n
  · rw [if_pos (by omega), Nat.add_sub_cancel_left]
    simp [hn, hi]
  · simp [hn]

/-- …and another field as it was. -/
theorem takeField_congr {x y : BitVec w} (h : ∀ i, s ≤ i → i < s + n → y.getLsbD i = x.getLsbD i) :
    takeField y n s = takeField x n s := by
  ext i hi
  rw [← BitVec.getLsbD_eq_getElem, ← BitVec.getLsbD_eq_getElem, getLsbD_takeField, getLsbD_takeField]
  by_cases hn : i < n
  · rw [h (s + i) (by omega) (by omega)]
  · simp [hn]

theorem takeField_putField_of_ne (x v : BitVec w) (h : s' + n ≤ s ∨ s + n ≤ s') :
    takeField (putField x v n s) n s' = takeField x n s' :=
  takeField_congr fun i hlow hhigh => by rw [getLsbD_putField, if_neg (by omega)]

theorem takeField_flipField_of_ne (x v : BitVec w) (h : s' + n ≤ s ∨ s + n ≤ s') :
    takeField (flipField x v n s) n s' = takeField x n s' :=
  takeField_congr fun i hlow hhigh => by rw [getLsbD_flipField, if_neg (by omega)]

end SoftPC
