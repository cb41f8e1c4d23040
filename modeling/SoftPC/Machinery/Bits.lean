import Mathlib.Data.BitVec
import Mathlib.Data.List.OfFn

/-!
# Machinery/Bits — a word put together from its bits

A flag word is `ofBits f`.  What a mask does to it is said of `f`.
-/

namespace SoftPC.Bits

variable {w : ℕ} (f : Fin w → Bool) (m v : BitVec w)

/-- The word whose bits are `f`. -/
def ofBits : BitVec w := (BitVec.ofBoolListLE (List.ofFn f)).setWidth w

theorem eq_of_bits {x y : BitVec w} (h : ∀ i : Fin w, x.getLsbD i = y.getLsbD i) : x = y :=
  BitVec.eq_of_getLsbD_eq fun i hi => h ⟨i, hi⟩

@[simp] theorem getLsbD_ofBits (i : Fin w) : (ofBits f).getLsbD i = f i := by
  have hlt : (i : ℕ) < (List.ofFn f).length := by rw [List.length_ofFn]; exact i.isLt
  rw [ofBits, BitVec.getLsbD_setWidth, decide_eq_true i.isLt, Bool.true_and, BitVec.getLsbD_ofBoolListLE,
    List.getD_eq_getElem?_getD, List.getElem?_eq_getElem hlt, Option.getD_some, List.getElem_ofFn]

@[simp] theorem getElem_ofBits {i : ℕ} (hi : i < w) : (ofBits f)[i] = f ⟨i, hi⟩ :=
  (BitVec.getLsbD_eq_getElem hi).symm.trans (getLsbD_ofBits f ⟨i, hi⟩)

/-- Bits set… -/
theorem ofBits_or : ofBits f ||| m = ofBits fun i => f i || m.getLsbD i :=
  eq_of_bits fun i => by rw [BitVec.getLsbD_or, getLsbD_ofBits, getLsbD_ofBits]

/-- …cleared… -/
theorem ofBits_and_not : ofBits f &&& ~~~m = ofBits fun i => f i && !m.getLsbD i :=
  eq_of_bits fun i => by
    rw [BitVec.getLsbD_and, BitVec.getLsbD_not, getLsbD_ofBits, getLsbD_ofBits, decide_eq_true i.isLt, Bool.true_and]

/-- …flipped… -/
theorem ofBits_xor : ofBits f ^^^ m = ofBits fun i => f i ^^ m.getLsbD i :=
  eq_of_bits fun i => by rw [BitVec.getLsbD_xor, getLsbD_ofBits, getLsbD_ofBits]

/-- …and tested. -/
theorem ofBits_and_eq_iff : ofBits f &&& m = v ↔ ∀ i : Fin w, (f i && m.getLsbD i) = v.getLsbD i := by
  refine ⟨fun h i => ?_, fun h => eq_of_bits fun i => ?_⟩
  · rw [← h, BitVec.getLsbD_and, getLsbD_ofBits]
  · rw [BitVec.getLsbD_and, getLsbD_ofBits]
    exact h i

/-- A single bit tested. -/
theorem ofBits_and_bit {m : BitVec w} (i : Fin w) (hm : m = BitVec.twoPow w i) : ofBits f &&& m = 0#w ↔ f i = false := by
  rw [ofBits_and_eq_iff, hm]
  constructor
  · intro h
    have hbit := h i
    rw [BitVec.getLsbD_twoPow, decide_eq_true i.isLt, decide_eq_true rfl, Bool.true_and, Bool.and_true,
      BitVec.getLsbD_zero] at hbit
    exact hbit
  · intro h j
    rw [BitVec.getLsbD_twoPow, BitVec.getLsbD_zero, decide_eq_true i.isLt, Bool.true_and]
    by_cases heq : i = j
    · rw [← heq, h, Bool.false_and]
    · rw [decide_eq_false (Fin.val_ne_of_ne heq), Bool.and_false]

/-! ## Bits that a mask does not see -/

variable {m} {n : BitVec w}

theorem or_and_of_apart (x : BitVec w) (h : m &&& n = 0#w) : (x ||| m) &&& n = x &&& n := by
  rw [BitVec.and_or_distrib_right, h, BitVec.or_zero]

theorem and_not_and_of_apart (x : BitVec w) (h : m &&& n = 0#w) : (x &&& ~~~m) &&& n = x &&& n := by
  refine eq_of_bits fun i => ?_
  have hbit : (m.getLsbD i && n.getLsbD i) = false := by rw [← BitVec.getLsbD_and, h, BitVec.getLsbD_zero]
  rw [BitVec.getLsbD_and, BitVec.getLsbD_and, BitVec.getLsbD_and, BitVec.getLsbD_not, decide_eq_true i.isLt,
    Bool.true_and]
  cases hm : m.getLsbD i
  · rw [Bool.not_false, Bool.and_true]
  · rw [hm, Bool.true_and] at hbit
    rw [hbit, Bool.and_false, Bool.and_false]

theorem xor_and_eq_zero_iff (x y : BitVec w) : (x ^^^ y) &&& m = 0#w ↔ x &&& m = y &&& m := by
  have hdistrib : (x ^^^ y) &&& m = (x &&& m) ^^^ (y &&& m) := eq_of_bits fun i => by
    rw [BitVec.getLsbD_and, BitVec.getLsbD_xor, BitVec.getLsbD_xor, BitVec.getLsbD_and, BitVec.getLsbD_and,
      Bool.and_xor_distrib_right]
  rw [hdistrib, BitVec.xor_eq_zero_iff]

end SoftPC.Bits
