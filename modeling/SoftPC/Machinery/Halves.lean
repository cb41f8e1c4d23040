import Mathlib.Data.BitVec
import Mathlib.Tactic.Ring

/-!
# Machinery/Halves — a number in two words

A number too wide for a word is its high half before its low one, `h ++ l`, and is worked on a word at a time.
The low halves add on their own; the high ones add with what the low ones carry (`append_add_append`), and that
can be told from the sum by top bits alone (`carry_eq_msb`).  A product is the sum of four products of halves
(`append_mul_append`), and a negation carries only out of a low half of zeros (`neg_append`).
-/

namespace SoftPC.Halves

variable {m n w : ℕ}

/-- What a sum carries. -/
def carryOf (x y : BitVec n) : Bool := BitVec.carry n x y false

/-- **The carry is in the top bits**: both have theirs, or the sum has lost it. -/
theorem carry_eq_msb (hn : 0 < n) (x y : BitVec n) :
    carryOf x y = (x.msb && y.msb || !(x + y).msb && (x.msb || y.msb)) := by
  obtain ⟨k, rfl⟩ := Nat.exists_eq_add_one.mpr hn
  have hx : x.getLsbD k = x.msb := (BitVec.msb_eq_getLsbD_last x).symm
  have hy : y.getLsbD k = y.msb := (BitVec.msb_eq_getLsbD_last y).symm
  rw [carryOf, BitVec.carry_succ, BitVec.msb_add, Nat.add_sub_cancel, hx, hy]
  cases x.msb <;> cases y.msb <;> cases BitVec.carry k x y false <;> rfl

theorem carryOf_zero (l : BitVec n) : carryOf l 0 = false := by
  have hl := l.isLt
  rw [carryOf, BitVec.carry, Nat.mod_eq_of_lt hl]
  simpa using hl

theorem toNat_append (h : BitVec m) (l : BitVec n) : (h ++ l).toNat = h.toNat * 2 ^ n + l.toNat := by
  rw [BitVec.toNat_append, ← Nat.shiftLeft_add_eq_or_of_lt l.isLt, Nat.shiftLeft_eq]

theorem high_eq_zero (h : BitVec m) (l : BitVec n) : h = 0 ↔ (h ++ l).toNat < 2 ^ n := by
  have hl := l.isLt
  rw [toNat_append, ← BitVec.toNat_inj, BitVec.ofNat_eq_ofNat, BitVec.toNat_zero]
  constructor
  · intro h0
    rwa [h0, Nat.zero_mul, Nat.zero_add]
  · intro hlt
    by_contra hne
    have hle := Nat.mul_le_mul_right (2 ^ n) (Nat.one_le_iff_ne_zero.mpr hne)
    omega

theorem mod_halves (a : ℕ) {r : ℕ} (hr : r < 2 ^ n) : (a * 2 ^ n + r) % 2 ^ (m + n) = a % 2 ^ m * 2 ^ n + r := by
  have hlow : (a * 2 ^ n + r) % 2 ^ n = r := by rw [Nat.mul_add_mod_self_right, Nat.mod_eq_of_lt hr]
  have hhigh : (a * 2 ^ n + r) / 2 ^ n = a := by
    rw [Nat.mul_comm, Nat.mul_add_div (Nat.two_pow_pos n), Nat.div_eq_of_lt hr, Nat.add_zero]
  rw [Nat.add_comm m, Nat.pow_add, Nat.mod_mul, hlow, hhigh, Nat.mul_comm, Nat.add_comm]

/-- **Halves add**, the high ones with what the low ones carry. -/
theorem append_add_append (h h' : BitVec m) (l l' : BitVec n) :
    (h ++ l) + (h' ++ l') = (h + h' + if carryOf l l' then 1 else 0) ++ (l + l') := by
  have hl := l.isLt
  have hl' := l'.isLt
  have hsum : l.toNat + l'.toNat = (carryOf l l').toNat * 2 ^ n + (l + l').toNat := by
    rw [carryOf, BitVec.carry, Nat.mod_eq_of_lt hl, Nat.mod_eq_of_lt hl', Bool.toNat_false, Nat.add_zero,
      BitVec.toNat_add]
    by_cases hc : 2 ^ n ≤ l.toNat + l'.toNat
    · rw [decide_eq_true hc, Bool.toNat_true, Nat.mod_eq_sub_mod hc, Nat.mod_eq_of_lt (by omega)]
      omega
    · rw [decide_eq_false hc, Bool.toNat_false, Nat.mod_eq_of_lt (by omega)]
      omega
  have hone : ((if carryOf l l' then 1 else 0 : BitVec m)).toNat = (carryOf l l').toNat % 2 ^ m := by
    cases carryOf l l' with
    | false => simp
    | true => simp
  refine BitVec.eq_of_toNat_eq ?_
  rw [BitVec.toNat_add, toNat_append, toNat_append, toNat_append, BitVec.toNat_add, BitVec.toNat_add, hone,
    Nat.mod_add_mod, Nat.add_mod_mod, ← mod_halves _ (l + l').isLt]
  congr 1
  calc h.toNat * 2 ^ n + l.toNat + (h'.toNat * 2 ^ n + l'.toNat)
      = h.toNat * 2 ^ n + h'.toNat * 2 ^ n + (l.toNat + l'.toNat) := by ring
    _ = (h.toNat + h'.toNat + (carryOf l l').toNat) * 2 ^ n + (l + l').toNat := by rw [hsum]; ring

theorem one_append (hn : 0 < n) : (1 : BitVec (m + n)) = (0 : BitVec m) ++ (1 : BitVec n) := by
  have hpow : 1 < 2 ^ n := Nat.one_lt_two_pow hn.ne'
  have hpow' : 1 < 2 ^ (m + n) := Nat.one_lt_two_pow (by omega)
  refine BitVec.eq_of_toNat_eq ?_
  rw [toNat_append]
  simp only [BitVec.ofNat_eq_ofNat, BitVec.toNat_ofNat, Nat.zero_mod, Nat.zero_mul, Nat.zero_add]
  rw [Nat.mod_eq_of_lt hpow', Nat.mod_eq_of_lt hpow]

/-- Only ones carry when one is added. -/
theorem carryOf_one (hn : 0 < n) (l : BitVec n) : carryOf l 1 = decide (l = BitVec.allOnes n) := by
  have hl := l.isLt
  have hpow : 1 < 2 ^ n := Nat.one_lt_two_pow hn.ne'
  have hone : (1 : BitVec n).toNat = 1 := by
    rw [BitVec.ofNat_eq_ofNat, BitVec.toNat_ofNat, Nat.mod_eq_of_lt hpow]
  rw [carryOf, BitVec.carry, hone, Nat.mod_eq_of_lt hl, Nat.mod_eq_of_lt hpow, Bool.toNat_false, decide_eq_decide,
    ← BitVec.toNat_inj, BitVec.toNat_allOnes]
  omega

/-- **A negation in halves**. -/
theorem neg_append (hn : 0 < n) (h : BitVec m) (l : BitVec n) :
    -(h ++ l) = if ~~~l = BitVec.allOnes n then (~~~h + 1) ++ (0 : BitVec n) else ~~~h ++ (~~~l + 1) := by
  have hneg : -(h ++ l) = (~~~h ++ ~~~l) + ((0 : BitVec m) ++ (1 : BitVec n)) := by
    rw [BitVec.neg_eq_not_add, BitVec.not_append, ← one_append hn]
    rfl
  rw [hneg, append_add_append, carryOf_one hn]
  by_cases hl : ~~~l = BitVec.allOnes n
  · have hzero : ~~~l + 1 = 0 := by rw [hl, ← BitVec.neg_one_eq_allOnes]; exact BitVec.add_left_neg _
    rw [if_pos hl, hzero, decide_eq_true hl, if_pos rfl]
    simp
  · rw [if_neg hl, decide_eq_false hl, if_neg Bool.false_ne_true]
    simp

/-- The high half, masked off. -/
theorem setWidth_shift_and {mask : BitVec w} (hmask : ∀ i < n, mask.getLsbD i = true) (x : BitVec w) :
    (x >>> n &&& mask).setWidth n = x.extractLsb' n n := by
  refine BitVec.eq_of_getLsbD_eq fun i hi => ?_
  rw [BitVec.getLsbD_setWidth, BitVec.getLsbD_and, BitVec.getLsbD_ushiftRight, hmask i hi, BitVec.getLsbD_extractLsb',
    Bool.and_true]

/-- The halves of what is left of a number. -/
theorem extract_append (x : BitVec w) : x.extractLsb' n n ++ x.setWidth n = x.setWidth (n + n) := by
  refine BitVec.eq_of_getLsbD_eq fun i hi => ?_
  rw [BitVec.getLsbD_append, BitVec.getLsbD_setWidth, BitVec.getLsbD_setWidth, decide_eq_true hi, Bool.true_and]
  by_cases hin : i < n
  · rw [if_pos hin, decide_eq_true hin, Bool.true_and]
  · have hlt : i - n < n := by omega
    rw [if_neg hin, BitVec.getLsbD_extractLsb', decide_eq_true hlt, Bool.true_and, Nat.add_sub_cancel' (by omega)]

/-- A shift by one, with a bit let in. -/
theorem toNat_shift_bit (hw : 0 < w) (x : BitVec w) (c : Prop) [Decidable c] :
    (x <<< 1 ||| if c then 1 else 0).toNat = 2 * x.toNat % 2 ^ w + if c then 1 else 0 := by
  have hone : (if c then 1 else 0 : BitVec w).toNat = if c then 1 else 0 := by
    by_cases hc : c
    · simp [hc, Nat.mod_eq_of_lt (Nat.one_lt_two_pow hw.ne')]
    · simp [hc]
  have hshift : x.toNat <<< 1 % 2 ^ w = (x.toNat % 2 ^ (w - 1)) <<< 1 := by
    obtain ⟨k, rfl⟩ := Nat.exists_eq_add_one.mpr hw
    rw [Nat.shiftLeft_eq, Nat.shiftLeft_eq, pow_one, Nat.add_sub_cancel, Nat.pow_succ, Nat.mul_mod_mul_right]
  have hbit : (if c then 1 else 0) < 2 ^ 1 := by split_ifs <;> decide
  rw [BitVec.toNat_or, BitVec.toNat_shiftLeft, hone, hshift, ← Nat.shiftLeft_add_eq_or_of_lt hbit, ← hshift,
    Nat.shiftLeft_eq, pow_one, Nat.mul_comm]

/-- A field above `n` bits is clear in small numbers only. -/
theorem and_high_eq_zero {mask x : BitVec w} (hmask : ∀ i < w, mask.getLsbD i = decide (n ≤ i ∧ i < m))
    (hx : x.toNat < 2 ^ m) : x &&& mask = 0 ↔ x.toNat < 2 ^ n := by
  refine ⟨fun h => Nat.lt_pow_two_of_testBit _ fun i hi => ?_, fun h => BitVec.eq_of_getLsbD_eq fun i hi => ?_⟩
  · by_cases him : i < m
    · by_cases hiw : i < w
      · have hand := congrArg (·.getLsbD i) h
        have hbit : x.getLsbD i = false := by simpa [BitVec.getLsbD_and, hmask i hiw, hi, him] using hand
        exact hbit
      · exact BitVec.getLsbD_of_ge x i (Nat.le_of_not_lt hiw)
    · exact Nat.testBit_lt_two_pow (hx.trans_le (Nat.pow_le_pow_right (by decide) (Nat.le_of_not_lt him)))
  · rw [BitVec.getLsbD_and, hmask i hi]
    by_cases hin : n ≤ i
    · have hbit : x.getLsbD i = false := Nat.testBit_lt_two_pow (h.trans_le (Nat.pow_le_pow_right (by decide) hin))
      rw [hbit, Bool.false_and, BitVec.ofNat_eq_ofNat, BitVec.getLsbD_zero]
    · simp [hin]

/-! ## Signs -/

theorem and_twoPow_ne_zero (x : BitVec w) {i : ℕ} (hi : i < w) : x &&& BitVec.twoPow w i ≠ 0 ↔ x.getLsbD i := by
  rw [BitVec.and_twoPow]
  cases x.getLsbD i with
  | false => simp
  | true =>
    have htwo : BitVec.twoPow w i ≠ 0 := fun h => by
      have hbit := congrArg (·.getLsbD i) h
      simp [hi] at hbit
    simpa using htwo

/-- **A sign extended by hand**: where the top bit of a field is set, so is all above the field. -/
theorem signExtend_of_mask {bit mask : BitVec w} (hm : 0 < m) (hmw : m ≤ w) (hbit : bit = BitVec.twoPow w (m - 1))
    (hmask : ∀ i < w, mask.getLsbD i = decide (i < m)) (x : BitVec m) :
    (if x.setWidth w &&& bit ≠ 0 then x.setWidth w ||| ~~~mask else x.setWidth w) = x.signExtend w := by
  have htop : (x.setWidth w &&& bit ≠ 0) = (x.msb = true) := by
    rw [hbit, and_twoPow_ne_zero _ (by omega), BitVec.getLsbD_setWidth, BitVec.msb_eq_getLsbD_last]
    simp [show m - 1 < w by omega]
  simp only [htop]
  refine BitVec.eq_of_getLsbD_eq fun i hi => ?_
  rw [BitVec.getLsbD_signExtend, decide_eq_true hi, Bool.true_and]
  cases hx : x.msb with
  | false =>
    rw [if_neg Bool.false_ne_true, BitVec.getLsbD_setWidth, decide_eq_true hi, Bool.true_and]
    by_cases him : i < m
    · rw [if_pos him]
    · rw [if_neg him, BitVec.getLsbD_of_ge x i (by omega)]
  | true =>
    rw [if_pos rfl, BitVec.getLsbD_or, BitVec.getLsbD_not, hmask i hi, BitVec.getLsbD_setWidth, decide_eq_true hi,
      Bool.true_and]
    by_cases him : i < m
    · simp [him]
    · simp [him]

/-- **The bits from the sign up are alike** in a sign extension, and only there. -/
theorem alike_iff_signExtend {mask : BitVec w} (hm : 0 < m) (hmn : m ≤ n) (hnw : n ≤ w)
    (hmask : ∀ i < w, mask.getLsbD i = decide (m - 1 ≤ i ∧ i < n)) (x : BitVec w) :
    (x &&& mask = 0 ∨ x &&& mask = mask) ↔ x.setWidth n = ((x.setWidth n).setWidth m).signExtend n := by
  have hsign : ((x.setWidth n).setWidth m).msb = x.getLsbD (m - 1) := by
    rw [BitVec.msb_eq_getLsbD_last, BitVec.getLsbD_setWidth, BitVec.getLsbD_setWidth]
    simp [show m - 1 < n by omega, show m - 1 < m by omega]
  have hext : x.setWidth n = ((x.setWidth n).setWidth m).signExtend n ↔
      ∀ i, m - 1 ≤ i → i < n → x.getLsbD i = x.getLsbD (m - 1) := by
    refine ⟨fun h i him hin => ?_, fun h => BitVec.eq_of_getLsbD_eq fun i hi => ?_⟩
    · have hbit := congrArg (·.getLsbD i) h
      simp only [BitVec.getLsbD_signExtend, BitVec.getLsbD_setWidth, decide_eq_true hin, Bool.true_and, hsign] at hbit
      by_cases hlt : i < m
      · rw [show i = m - 1 by omega]
      · rwa [if_neg hlt] at hbit
    · simp only [BitVec.getLsbD_signExtend, BitVec.getLsbD_setWidth, decide_eq_true hi, Bool.true_and, hsign]
      by_cases hlt : i < m
      · simp [hlt]
      · rw [if_neg hlt, h i (by omega) hi]
  rw [hext]
  refine ⟨fun h i him hin => ?_, fun h => ?_⟩
  · have hbit : ∀ j, m - 1 ≤ j → j < n → x.getLsbD j = if x &&& mask = 0 then false else true := by
      intro j hmj hjn
      have hj : mask.getLsbD j = true := by rw [hmask j (by omega), decide_eq_true ⟨hmj, hjn⟩]
      have hand : (x &&& mask).getLsbD j = x.getLsbD j := by rw [BitVec.getLsbD_and, hj, Bool.and_true]
      by_cases hzero : x &&& mask = 0
      · rw [if_pos hzero, ← hand, hzero]
        exact BitVec.getLsbD_zero
      · rw [if_neg hzero, ← hand, h.resolve_left hzero, hj]
    rw [hbit i him hin, hbit (m - 1) le_rfl (by omega)]
  · cases hx : x.getLsbD (m - 1) with
    | false =>
      refine .inl (BitVec.eq_of_getLsbD_eq fun i hi => ?_)
      rw [BitVec.getLsbD_and, hmask i hi]
      by_cases hin : m - 1 ≤ i ∧ i < n
      · rw [h i hin.1 hin.2, hx, Bool.false_and, BitVec.ofNat_eq_ofNat, BitVec.getLsbD_zero]
      · rw [decide_eq_false hin, Bool.and_false, BitVec.ofNat_eq_ofNat, BitVec.getLsbD_zero]
    | true =>
      refine .inr (BitVec.eq_of_getLsbD_eq fun i hi => ?_)
      rw [BitVec.getLsbD_and, hmask i hi]
      by_cases hin : m - 1 ≤ i ∧ i < n
      · rw [h i hin.1 hin.2, hx, Bool.true_and]
      · rw [decide_eq_false hin, Bool.and_false]

/-- **A number is the extension of its low half** when its high one repeats the sign. -/
theorem append_eq_signExtend (h : BitVec m) (l : BitVec n) :
    h ++ l = l.signExtend (m + n) ↔ h = if l.msb then BitVec.allOnes m else 0 := by
  have hcast : l.signExtend (m + n) = (if l.msb then BitVec.allOnes m else 0) ++ l := by
    refine BitVec.eq_of_getLsbD_eq fun i hi => ?_
    rw [BitVec.getLsbD_signExtend, BitVec.getLsbD_append, decide_eq_true hi, Bool.true_and]
    by_cases hin : i < n
    · rw [if_pos hin, if_pos hin]
    · rw [if_neg hin, if_neg hin]
      cases l.msb with
      | false => exact BitVec.getLsbD_zero.symm
      | true => simp [show i - n < m by omega]
  rw [hcast]
  exact BitVec.append_left_inj _

/-- A negative number made positive. -/
theorem setWidth_neg (hmw : m ≤ w) {x : BitVec m} (hx : x.msb = true) :
    (-x).setWidth w = -(x.signExtend w) := by
  have hle : 2 ^ m ≤ 2 ^ w := Nat.pow_le_pow_right (by decide) hmw
  have hpos : 0 < x.toNat := by
    rw [BitVec.msb_eq_decide, decide_eq_true_eq] at hx
    exact lt_of_lt_of_le (Nat.two_pow_pos _) hx
  have hlt := x.isLt
  refine BitVec.eq_of_toNat_eq ?_
  have hsign : (x.signExtend w).toNat = x.toNat + (2 ^ w - 2 ^ m) := by
    rw [BitVec.toNat_signExtend, hx, if_pos rfl, BitVec.toNat_setWidth, Nat.mod_eq_of_lt (hlt.trans_le hle)]
  rw [BitVec.toNat_setWidth, BitVec.toNat_neg, BitVec.toNat_neg, hsign, Nat.mod_eq_of_lt (by omega),
    Nat.mod_eq_of_lt (by omega), Nat.mod_eq_of_lt (by omega)]
  omega

theorem setWidth_signExtend (hnw : n ≤ w) (x : BitVec m) : (x.signExtend w).setWidth n = x.signExtend n := by
  refine BitVec.eq_of_getLsbD_eq fun i hi => ?_
  rw [BitVec.getLsbD_setWidth, BitVec.getLsbD_signExtend, BitVec.getLsbD_signExtend, decide_eq_true hi,
    decide_eq_true (hi.trans_le hnw), Bool.true_and]

theorem setWidth_ofInt (hnw : n ≤ w) (z : ℤ) : (BitVec.ofInt w z).setWidth n = BitVec.ofInt n z := by
  have hdvd : ((2 ^ n : ℕ) : ℤ) ∣ ((2 ^ w : ℕ) : ℤ) := Int.natCast_dvd_natCast.mpr (Nat.pow_dvd_pow 2 hnw)
  refine BitVec.eq_of_toNat_eq ?_
  have hpos : (0 : ℤ) ≤ z % (2 ^ w : ℕ) := Int.emod_nonneg _ (by exact_mod_cast (Nat.two_pow_pos w).ne')
  rw [BitVec.toNat_setWidth, BitVec.toNat_ofInt, BitVec.toNat_ofInt, ← Int.toNat_natCast ((z % _).toNat % 2 ^ n),
    Int.natCast_mod, Int.toNat_of_nonneg hpos, Int.emod_emod_of_dvd _ hdvd]

/-- A signed number and its absolute value. -/
theorem toInt_of_negative {x : BitVec w} (hx : x.msb = true) : x.toInt = -((-x).toNat : ℤ) := by
  have hlt := x.isLt
  have hpos : 0 < x.toNat := by
    rw [BitVec.msb_eq_decide, decide_eq_true_eq] at hx
    exact lt_of_lt_of_le (Nat.two_pow_pos _) hx
  rw [BitVec.toInt_eq_msb_cond, if_pos hx, BitVec.toNat_neg, Nat.mod_eq_of_lt (by omega)]
  omega

theorem toInt_of_positive {x : BitVec w} (hx : ¬x.msb = true) : x.toInt = (x.toNat : ℤ) := by
  rw [BitVec.toInt_eq_msb_cond, if_neg hx]

/-- **Signed products fit twice the width**. -/
theorem toInt_signExtend_mul (hw : m + m ≤ w) (hm : 0 < m) (x y : BitVec m) :
    (x.signExtend w * y.signExtend w).toInt = x.toInt * y.toInt := by
  have hupper : x.toInt * y.toInt ≤ 2 ^ (m * 2 - 2) := BitVec.toInt_mul_toInt_le
  have hlower : -(2 ^ (m * 2 - 2)) ≤ x.toInt * y.toInt := BitVec.le_toInt_mul_toInt
  have hpow : (4 : ℤ) * 2 ^ (m * 2 - 2) ≤ ((2 ^ w : ℕ) : ℤ) := by
    have hnat : 4 * 2 ^ (m * 2 - 2) ≤ 2 ^ w := by
      rw [show 4 = 2 ^ 2 by rfl, ← Nat.pow_add]
      exact Nat.pow_le_pow_right (by decide) (by omega)
    exact_mod_cast hnat
  rw [BitVec.toInt_mul, BitVec.toInt_signExtend_of_le (by omega), BitVec.toInt_signExtend_of_le (by omega)]
  have hpos : (0 : ℤ) < 2 ^ (m * 2 - 2) := Int.pow_pos (by decide)
  exact Int.bmod_eq_of_le_mul_two (by omega) (by omega)

end SoftPC.Halves
