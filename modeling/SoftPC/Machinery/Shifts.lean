import Mathlib.Data.BitVec

/-!
# Machinery/Shifts — rotations, and shifts from word to word

A bit of a rotation comes from so many places down, around the word (`getLsbD_rotate_left`): so rotations add up,
and one to the right takes one to the left back.  A number in two words is shifted a word at a time, the one word
letting in what the other lets out (`pair_shiftLeft`, `pair_ushiftRight`).
-/

namespace SoftPC.Shifts

variable {n w : ℕ}

/-- A place around a word. -/
def around (w : ℕ) (i : ℤ) : ℕ := (i % w).toNat

theorem around_lt (hw : 0 < w) (i : ℤ) : around w i < w := by
  have hlt := Int.emod_lt_of_pos i (Int.natCast_pos.mpr hw)
  have hle := Int.emod_nonneg i (Int.natCast_ne_zero.mpr hw.ne')
  unfold around
  omega

theorem around_of_lt {i : ℕ} (hi : i < w) : around w i = i := by
  rw [around, Int.emod_eq_of_lt (Int.natCast_nonneg i) (Int.ofNat_lt.mpr hi), Int.toNat_natCast]

theorem cast_around (hw : 0 < w) (i : ℤ) : (around w i : ℤ) = i % w :=
  Int.toNat_of_nonneg (Int.emod_nonneg i (Int.natCast_ne_zero.mpr hw.ne'))

theorem getLsbD_rotate_left (x : BitVec w) (r : ℕ) {i : ℕ} (hi : i < w) :
    (x.rotateLeft r).getLsbD i = x.getLsbD (around w (i - r)) := by
  have hlt := Nat.mod_lt r (Nat.zero_lt_of_lt hi)
  have haround : around w (i - r) = if i < r % w then w - r % w + i else i - r % w := by
    have hmod : ((i : ℤ) - r) % w = ((i : ℤ) - (r % w : ℕ)) % w := by rw [Int.natCast_mod, Int.sub_emod_emod]
    unfold around
    rw [hmod]
    by_cases h : i < r % w
    · rw [if_pos h, ← Int.add_emod_right, Int.emod_eq_of_lt (by omega) (by omega)]
      omega
    · rw [if_neg h, Int.emod_eq_of_lt (by omega) (by omega)]
      omega
  rw [BitVec.getLsbD_rotateLeft, haround]
  by_cases h : i < r % w
  · rw [decide_eq_true h, if_pos h]
    rfl
  · rw [decide_eq_false h, if_neg h, decide_eq_true hi, Bool.true_and]
    rfl

theorem getLsbD_rotate_right (x : BitVec w) (r : ℕ) {i : ℕ} (hi : i < w) :
    (x.rotateRight r).getLsbD i = x.getLsbD (around w (i + r)) := by
  have hlt := Nat.mod_lt r (Nat.zero_lt_of_lt hi)
  have haround : around w (i + r) = if i < w - r % w then r % w + i else i - (w - r % w) := by
    have hmod : ((i : ℤ) + r) % w = ((i : ℤ) + (r % w : ℕ)) % w := by rw [Int.natCast_mod, Int.add_emod_emod]
    unfold around
    rw [hmod]
    by_cases h : i < w - r % w
    · rw [if_pos h, Int.emod_eq_of_lt (by omega) (by omega)]
      omega
    · rw [if_neg h, ← Int.sub_emod_right, Int.emod_eq_of_lt (by omega) (by omega)]
      omega
  rw [BitVec.getLsbD_rotateRight, haround]
  by_cases h : i < w - r % w
  · rw [decide_eq_true h, if_pos h]
    rfl
  · rw [decide_eq_false h, if_neg h, decide_eq_true hi, Bool.true_and]
    rfl

theorem rotateLeft_zero (x : BitVec w) : x.rotateLeft 0 = x := by
  refine BitVec.eq_of_getLsbD_eq fun i hi => ?_
  rw [getLsbD_rotate_left _ _ hi, Int.natCast_zero, Int.sub_zero, around_of_lt hi]

theorem rotateRight_zero (x : BitVec w) : x.rotateRight 0 = x := by
  refine BitVec.eq_of_getLsbD_eq fun i hi => ?_
  rw [getLsbD_rotate_right _ _ hi, Int.natCast_zero, Int.add_zero, around_of_lt hi]

/-- **Rotations add up**. -/
theorem rotateLeft_rotateLeft (x : BitVec w) (a b : ℕ) : (x.rotateLeft a).rotateLeft b = x.rotateLeft (a + b) := by
  refine BitVec.eq_of_getLsbD_eq fun i hi => ?_
  have hw := Nat.zero_lt_of_lt hi
  rw [getLsbD_rotate_left _ _ hi, getLsbD_rotate_left _ _ (around_lt hw _), getLsbD_rotate_left _ _ hi]
  congr 1
  rw [cast_around hw, around, around, Int.emod_sub_emod, Int.natCast_add]
  congr 2
  omega

theorem rotateRight_rotateRight (x : BitVec w) (a b : ℕ) : (x.rotateRight a).rotateRight b = x.rotateRight (a + b) := by
  refine BitVec.eq_of_getLsbD_eq fun i hi => ?_
  have hw := Nat.zero_lt_of_lt hi
  rw [getLsbD_rotate_right _ _ hi, getLsbD_rotate_right _ _ (around_lt hw _), getLsbD_rotate_right _ _ hi]
  congr 1
  rw [cast_around hw, around, around, Int.emod_add_emod, Int.natCast_add]
  congr 2
  omega

/-- **…and are taken back**. -/
theorem rotateRight_rotateLeft (x : BitVec w) (a : ℕ) : (x.rotateLeft a).rotateRight a = x := by
  refine BitVec.eq_of_getLsbD_eq fun i hi => ?_
  have hw := Nat.zero_lt_of_lt hi
  rw [getLsbD_rotate_right _ _ hi, getLsbD_rotate_left _ _ (around_lt hw _)]
  congr 1
  rw [cast_around hw, around, Int.emod_sub_emod, Int.add_sub_cancel]
  exact around_of_lt hi

/-! ## From word to word -/

theorem getLsbD_high {m : ℕ} (h : BitVec m) (l : BitVec n) (i : ℕ) : h.getLsbD i = (h ++ l).getLsbD (n + i) := by
  rw [BitVec.getLsbD_append, if_neg (by omega), Nat.add_sub_cancel_left]

theorem getLsbD_low {m : ℕ} (h : BitVec m) (l : BitVec n) {i : ℕ} (hi : i < n) : l.getLsbD i = (h ++ l).getLsbD i := by
  rw [BitVec.getLsbD_append, if_pos hi]

theorem getLsbD_shifted (x : BitVec w) {k i : ℕ} (hi : i < w) (hk : k ≤ i) : (x <<< k).getLsbD i = x.getLsbD (i - k) := by
  rw [BitVec.getLsbD_shiftLeft, decide_eq_true hi, decide_eq_false (Nat.not_lt.mpr hk), Bool.not_false, Bool.true_and,
    Bool.true_and]

theorem pair_shiftLeft (h l : BitVec n) {k : ℕ} (hk : k ≤ n) :
    (h ++ l) <<< k = (h <<< k ||| l >>> (n - k)) ++ l <<< k := by
  refine BitVec.eq_of_getLsbD_eq fun i hi => ?_
  rw [BitVec.getLsbD_shiftLeft, BitVec.getLsbD_append, BitVec.getLsbD_append, BitVec.getLsbD_or,
    BitVec.getLsbD_shiftLeft, BitVec.getLsbD_shiftLeft, BitVec.getLsbD_ushiftRight, decide_eq_true hi, Bool.true_and]
  by_cases hlow : i < n
  · rw [if_pos hlow, if_pos (by omega), decide_eq_true hlow, Bool.true_and]
  · rw [if_neg hlow, decide_eq_false (by omega : ¬i < k), Bool.not_false, Bool.true_and,
      decide_eq_true (by omega : i - n < n), Bool.true_and]
    by_cases hin : i - k < n
    · rw [if_pos hin, decide_eq_true (by omega : i - n < k), Bool.not_true, Bool.false_and, Bool.false_or]
      congr 1
      omega
    · rw [if_neg hin, decide_eq_false (by omega : ¬i - n < k), Bool.not_false, Bool.true_and,
        BitVec.getLsbD_of_ge l _ (by omega), Bool.or_false]
      congr 1
      omega

theorem pair_ushiftRight (h l : BitVec n) {k : ℕ} (hk : k ≤ n) :
    (h ++ l) >>> k = h >>> k ++ (l >>> k ||| h <<< (n - k)) := by
  refine BitVec.eq_of_getLsbD_eq fun i hi => ?_
  rw [BitVec.getLsbD_ushiftRight, BitVec.getLsbD_append, BitVec.getLsbD_append, BitVec.getLsbD_or,
    BitVec.getLsbD_shiftLeft, BitVec.getLsbD_ushiftRight, BitVec.getLsbD_ushiftRight]
  by_cases hlow : i < n
  · rw [if_pos hlow, decide_eq_true hlow, Bool.true_and]
    by_cases hin : k + i < n
    · rw [if_pos hin, decide_eq_true (by omega : i < n - k), Bool.not_true, Bool.false_and, Bool.or_false]
    · rw [if_neg hin, decide_eq_false (by omega : ¬i < n - k), Bool.not_false, Bool.true_and,
        BitVec.getLsbD_of_ge l _ (by omega), Bool.false_or]
      congr 1
      omega
  · rw [if_neg hlow, if_neg (by omega)]
    congr 1
    omega

end SoftPC.Shifts
