import SoftPC.Ccpu.Segments
import SoftPC.Machinery.Halves

/-!
# Ccpu/Multiply — products

`base/ccpu386/c_mul64.c`, `c_neg64.c` and `imul.c`, and the cases of `c_main.c` that call them.  A product of two
words is the sum of four products of their halves,

        res4  res1
      + res2 ▸ 16       `mulu64`
      + res3 ▸ 16

each of which carries into the high word at most once; signed operands are made positive first, and the product
negated after (`mul64`).  The narrower instructions sign extend their operands to the host's size instead.
Negation wraps, as `-` does on a host of two's complement.
-/

namespace SoftPC.Ccpu

open Halves

/-! ## The accumulator -/

/-- The registers that multiplication and division change. -/
structure Accumulator where
  eax : Word
  edx : Word
  flags : Flags

namespace Accumulator

variable (r : Accumulator)

/-- `GET_AL`, `GET_AX` and `GET_DX`. -/
def al : BitVec 8 := r.eax.setWidth 8
def ax : BitVec 16 := r.eax.setWidth 16
def dx : BitVec 16 := r.edx.setWidth 16

/-- `SET_AL`, `SET_AH`, `SET_AX` and `SET_DX`: the rest of the register stays. -/
def setAl (v : BitVec 8) : Accumulator := { r with eax := r.eax.extractLsb' 8 24 ++ v }
def setAh (v : BitVec 8) : Accumulator := { r with eax := r.eax.extractLsb' 16 16 ++ v ++ r.al }
def setAx (v : BitVec 16) : Accumulator := { r with eax := r.eax.extractLsb' 16 16 ++ v }
def setDx (v : BitVec 16) : Accumulator := { r with edx := r.edx.extractLsb' 16 16 ++ v }

/-- CF and OF, which say that a product needs its high half. -/
def setCarried (carried : Bool) : Accumulator := { r with flags := { r.flags with cf := carried, of := carried } }

theorem setAl_setAh (h l : BitVec 8) : (r.setAh h).setAl l = r.setAx (h ++ l) := by
  have heax : (r.eax.extractLsb' 16 16 ++ h ++ r.al).extractLsb' 8 24 = r.eax.extractLsb' 16 16 ++ h := by
    exact BitVec.extractLsb'_append_eq_left
  unfold setAl setAh setAx
  dsimp only
  rw [heax, BitVec.append_assoc]
  rfl

end Accumulator

/-! ## Products of words -/

/-- A partial product carries out of the low word: `BIT31_MASK` of both and of the sum, `BIT15_MASK` of what is
shifted. -/
def carries (lr res sum : Word) : Bool :=
  lr &&& 0x80000000 ≠ 0 && res &&& 0x8000 ≠ 0 ||
    (sum &&& 0x80000000 = 0 && lr &&& 0x80000000 ||| res &&& 0x8000 ≠ 0)

/-- `mulu64`: the high and the low word of the product. -/
def mulu64 (mcand mpy : Word) : Word × Word :=
  let la := mcand &&& 0xffff
  let ha := mcand >>> 16 &&& 0xffff
  let lb := mpy &&& 0xffff
  let hb := mpy >>> 16 &&& 0xffff
  let res1 := la * lb
  let res2 := ha * lb
  let res3 := la * hb
  let res4 := ha * hb
  let hr := res2 >>> 16
  let lr := res1 + res2 <<< 16
  let hr := if carries res1 res2 lr then hr + 1 else hr
  let hr := hr + res3 >>> 16
  let temp := lr + res3 <<< 16
  let hr := if carries lr res3 temp then hr + 1 else hr
  (hr + res4, temp)

def neg64 (x : Word × Word) : Word × Word :=
  let hr := ~~~x.1
  let lr := ~~~x.2
  if lr = 0xffffffff then (hr + 1, 0) else (hr, lr + 1)

def mul64 (mcand mpy : Word) : Word × Word :=
  if mcand &&& 0x80000000 ≠ 0 then
    if mpy &&& 0x80000000 ≠ 0 then mulu64 (-mcand) (-mpy) else neg64 (mulu64 (-mcand) mpy)
  else if mpy &&& 0x80000000 ≠ 0 then neg64 (mulu64 mcand (-mpy))
  else mulu64 mcand mpy

/-! ## The instructions -/

/-- An operand is sign extended to 32 bits, the size of the host's. -/
def hostSized (bit mask op : Word) : Word := if op &&& bit ≠ 0 then op ||| ~~~mask else op

/-- The bits of the mask are neither all clear nor all set. -/
def mixed (mask result : Word) : Bool := !(result &&& mask = 0 || result &&& mask = mask)

/-- `IMUL8`: what comes back through `pop1`, and the registers. -/
def imul8 (pop1 op2 : Word) (r : Accumulator) : Word × Accumulator :=
  let result := hostSized 0x80 0xff pop1 * hostSized 0x80 0xff op2
  (result, (r.setAh ((result >>> 8 &&& 0xff).setWidth 8)).setCarried (mixed 0xff80 result))

def imul16 (pop1 op2 : Word) (r : Accumulator) : Word × Accumulator :=
  let result := hostSized 0x8000 0xffff pop1 * hostSized 0x8000 0xffff op2
  (result, (r.setDx ((result >>> 16 &&& 0xffff).setWidth 16)).setCarried (mixed 0xffff8000 result))

def imul16T (op2 op3 : Word) (r : Accumulator) : Word × Accumulator :=
  let result := hostSized 0x8000 0xffff op2 * hostSized 0x8000 0xffff op3
  (result, r.setCarried (mixed 0xffff8000 result))

/-- A product in two words is not that of its low one. -/
def overflows (top result : Word) : Bool :=
  let isSigned := result &&& 0x80000000 ≠ 0
  !(top = 0 && !isSigned || top = 0xffffffff && isSigned)

def imul32 (pop1 op2 : Word) (r : Accumulator) : Word × Accumulator :=
  let (top, result) := mul64 pop1 op2
  (result, { r with edx := top }.setCarried (overflows top result))

def imul32T (op2 op3 : Word) (r : Accumulator) : Word × Accumulator :=
  let (top, result) := mul64 op2 op3
  (result, r.setCarried (overflows top result))

/-- IMUL Fal Eb: AL and a byte make AX. -/
def imulFalEb (op : BitVec 8) (r : Accumulator) : Accumulator :=
  let (pop1, r) := imul8 (r.al.setWidth 32) (op.setWidth 32) r
  r.setAl (pop1.setWidth 8)

/-- IMUL Fax Ew: AX and a word make DX and AX. -/
def imulFaxEw (op : BitVec 16) (r : Accumulator) : Accumulator :=
  let (pop1, r) := imul16 (r.ax.setWidth 32) (op.setWidth 32) r
  r.setAx (pop1.setWidth 16)

/-- IMUL Feax Ed: EAX and a double word make EDX and EAX. -/
def imulFeaxEd (op : Word) (r : Accumulator) : Accumulator :=
  let (pop1, r) := imul32 r.eax op r
  { r with eax := pop1 }

/-- IMUL Gw Ew and IMUL Gw Ew Iw: what the register gets. -/
def imulGw (op2 op3 : BitVec 16) (r : Accumulator) : BitVec 16 × Accumulator :=
  let (pop1, r) := imul16T (op2.setWidth 32) (op3.setWidth 32) r
  (pop1.setWidth 16, r)

/-- IMUL Gd Ed and IMUL Gd Ed Id. -/
def imulGd (op2 op3 : Word) (r : Accumulator) : Word × Accumulator := imul32T op2 op3 r

/-! ## Products of words are exact -/

theorem and_bit31 (x : Word) : (x &&& 0x80000000 ≠ 0) ↔ x.msb = true := by
  rw [BitVec.msb_eq_getLsbD_last]
  exact and_twoPow_ne_zero x (by decide : 31 < 32)

theorem and_bit15 (x : Word) : (x &&& 0x8000 ≠ 0) ↔ (x <<< 16).msb = true := by
  rw [BitVec.msb_shiftLeft]
  exact and_twoPow_ne_zero x (by decide : 15 < 32)

/-- The test is the carry. -/
theorem carries_eq (lr res : Word) : carries lr res (lr + res <<< 16) = carryOf lr (res <<< 16) := by
  have hor (x y : Word) : (x ||| y ≠ 0) ↔ (x ≠ 0 ∨ y ≠ 0) := (not_congr BitVec.or_eq_zero_iff).trans not_and_or
  have hsum : (lr + res <<< 16 &&& 0x80000000 = 0) ↔ (lr + res <<< 16).msb = false := by
    rw [← not_ne_iff, and_bit31, Bool.not_eq_true]
  rw [carry_eq_msb (by decide), Bool.eq_iff_iff]
  simp only [carries, Bool.or_eq_true, Bool.and_eq_true, decide_eq_true_eq, Bool.not_eq_true', hor, and_bit31,
    and_bit15, hsum]

/-- A word added in, shifted up by half a word. -/
theorem append_add_shifted (hr lr res : Word) :
    (hr ++ lr) + (res >>> 16 ++ res <<< 16) =
      (if carries lr res (lr + res <<< 16) then hr + res >>> 16 + 1 else hr + res >>> 16) ++ (lr + res <<< 16) := by
  rw [append_add_append, carries_eq]
  cases carryOf lr (res <<< 16) <;> simp

theorem toNat_shifted (x : Word) : (x >>> 16 ++ x <<< 16).toNat = x.toNat * 2 ^ 16 := by
  have hx := x.isLt
  rw [toNat_append, BitVec.toNat_ushiftRight, BitVec.toNat_shiftLeft, Nat.shiftRight_eq_div_pow, Nat.shiftLeft_eq]
  omega

theorem toNat_mul_halves {x y : Word} (hx : x.toNat < 2 ^ 16) (hy : y.toNat < 2 ^ 16) :
    (x * y).toNat = x.toNat * y.toNat := by
  have hlt : x.toNat * y.toNat < 2 ^ 16 * 2 ^ 16 := Nat.mul_lt_mul'' hx hy
  rw [BitVec.toNat_mul, Nat.mod_eq_of_lt (hlt.trans_le (by decide))]

theorem toNat_low (x : Word) : (x &&& 0xffff).toNat = x.toNat % 2 ^ 16 := Nat.and_two_pow_sub_one_eq_mod _ 16

theorem toNat_high (x : Word) : (x >>> 16 &&& 0xffff).toNat = x.toNat / 2 ^ 16 := by
  have hx := x.isLt
  rw [toNat_low, BitVec.toNat_ushiftRight, Nat.shiftRight_eq_div_pow]
  omega

/-- **The unsigned product** is the sum of the partial ones. -/
theorem mulu64_append (mcand mpy : Word) :
    (mulu64 mcand mpy).1 ++ (mulu64 mcand mpy).2 = mcand.setWidth 64 * mpy.setWidth 64 := by
  have hla : (mcand &&& 0xffff).toNat < 2 ^ 16 := by rw [toNat_low]; exact Nat.mod_lt _ (by decide)
  have hlb : (mpy &&& 0xffff).toNat < 2 ^ 16 := by rw [toNat_low]; exact Nat.mod_lt _ (by decide)
  have hha : (mcand >>> 16 &&& 0xffff).toNat < 2 ^ 16 := by rw [toNat_high]; have := mcand.isLt; omega
  have hhb : (mpy >>> 16 &&& 0xffff).toNat < 2 ^ 16 := by rw [toNat_high]; have := mpy.isLt; omega
  have hsum : ∀ res1 res2 res3 res4 : Word,
      (let hr := if carries res1 res2 (res1 + res2 <<< 16) then res2 >>> 16 + 1 else res2 >>> 16
       let lr := res1 + res2 <<< 16
       let hr := if carries lr res3 (lr + res3 <<< 16) then hr + res3 >>> 16 + 1 else hr + res3 >>> 16
       (hr + res4) ++ (lr + res3 <<< 16)) =
      ((0 : Word) ++ res1) + (res2 >>> 16 ++ res2 <<< 16) + (res3 >>> 16 ++ res3 <<< 16) + (res4 ++ (0 : Word)) := by
    intro res1 res2 res3 res4
    rw [append_add_shifted, append_add_shifted, append_add_append, carryOf_zero, zero_add, add_zero]
    simp
  have hmcand := Nat.div_add_mod mcand.toNat (2 ^ 16)
  have hmpy := Nat.div_add_mod mpy.toNat (2 ^ 16)
  refine (hsum _ _ _ _).trans (BitVec.eq_of_toNat_eq ?_)
  rw [BitVec.toNat_mul, BitVec.toNat_setWidth, BitVec.toNat_setWidth, Nat.mod_eq_of_lt (mcand.isLt.trans (by decide)),
    Nat.mod_eq_of_lt (mpy.isLt.trans (by decide)), BitVec.toNat_add, BitVec.toNat_add, BitVec.toNat_add, Nat.mod_add_mod,
    Nat.add_assoc, Nat.mod_add_mod, toNat_shifted, toNat_shifted, toNat_append, toNat_append, toNat_mul_halves hla hlb,
    toNat_mul_halves hha hlb, toNat_mul_halves hla hhb, toNat_mul_halves hha hhb, toNat_low, toNat_low, toNat_high,
    toNat_high]
  congr 1
  change 0 * 2 ^ 32 + _ + _ + (_ + (_ + 0)) = _
  nth_rewrite 5 [← hmcand]
  nth_rewrite 5 [← hmpy]
  ring

theorem toNat_mulu64 (mcand mpy : Word) :
    ((mulu64 mcand mpy).1 ++ (mulu64 mcand mpy).2).toNat = mcand.toNat * mpy.toNat := by
  have hlt : mcand.toNat * mpy.toNat < 2 ^ 32 * 2 ^ 32 := Nat.mul_lt_mul'' mcand.isLt mpy.isLt
  rw [mulu64_append, BitVec.toNat_mul, BitVec.toNat_setWidth, BitVec.toNat_setWidth,
    Nat.mod_eq_of_lt (mcand.isLt.trans (by decide)), Nat.mod_eq_of_lt (mpy.isLt.trans (by decide)),
    Nat.mod_eq_of_lt (hlt.trans_le (by decide))]

theorem neg64_append (x : Word × Word) : (neg64 x).1 ++ (neg64 x).2 = -(x.1 ++ x.2) := by
  have hones : (0xffffffff : Word) = BitVec.allOnes 32 := rfl
  rw [neg_append (by decide), neg64, hones]
  by_cases hl : ~~~x.2 = BitVec.allOnes 32
  · rw [if_pos hl, if_pos hl]
  · rw [if_neg hl, if_neg hl]

/-- **The signed product**. -/
theorem mul64_append (mcand mpy : Word) :
    (mul64 mcand mpy).1 ++ (mul64 mcand mpy).2 = mcand.signExtend 64 * mpy.signExtend 64 := by
  have hneg {x : Word} (hx : x.msb = true) : (-x).setWidth 64 = -(x.signExtend 64) :=
    setWidth_neg (by decide) hx
  have hpos {x : Word} (hx : ¬x.msb = true) : x.setWidth 64 = x.signExtend 64 :=
    (BitVec.signExtend_eq_setWidth_of_msb_false (by simpa using hx)).symm
  unfold mul64
  simp only [and_bit31]
  by_cases ha : mcand.msb = true
  · rw [if_pos ha]
    by_cases hb : mpy.msb = true
    · rw [if_pos hb, mulu64_append, hneg ha, hneg hb, neg_mul_neg]
    · rw [if_neg hb, neg64_append, mulu64_append, hneg ha, hpos hb, neg_mul, neg_neg]
  · rw [if_neg ha]
    by_cases hb : mpy.msb = true
    · rw [if_pos hb, neg64_append, mulu64_append, hpos ha, hneg hb, mul_neg, neg_neg]
    · rw [if_neg hb, mulu64_append, hpos ha, hpos hb]

/-! ## The instructions are exact -/

/-- A byte, sign extended. -/
theorem hostSized_byte (x : BitVec 8) : hostSized 0x80 0xff (x.setWidth 32) = x.signExtend 32 :=
  signExtend_of_mask (by decide) (by decide) (by decide) (by decide) x

/-- A word, sign extended. -/
theorem hostSized_word (x : BitVec 16) : hostSized 0x8000 0xffff (x.setWidth 32) = x.signExtend 32 :=
  signExtend_of_mask (by decide) (by decide) (by decide) (by decide) x

/-- The product is not the sign extension of its low half. -/
def NeedsHigh {n : ℕ} (product : BitVec (n + n)) : Prop := product ≠ (product.setWidth n).signExtend (n + n)

instance {n : ℕ} (product : BitVec (n + n)) : Decidable (NeedsHigh product) := inferInstanceAs (Decidable (_ ≠ _))

theorem mixed_eq (n : ℕ) {mask result : Word} (hn : 0 < n) (hle : n + n ≤ 32)
    (hmask : ∀ i < 32, mask.getLsbD i = decide (n - 1 ≤ i ∧ i < n + n)) :
    mixed mask result = decide (NeedsHigh (result.setWidth (n + n))) := by
  have halike := alike_iff_signExtend hn (Nat.le_add_left n n) hle hmask result
  rw [Bool.eq_iff_iff, decide_eq_true_iff, mixed, Bool.not_eq_true', Bool.or_eq_false_iff, decide_eq_false_iff_not,
    decide_eq_false_iff_not, ← not_or]
  exact not_congr halike

/-- The product of two narrow operands, in twice their width. -/
theorem toInt_narrow {n : ℕ} (hn : 0 < n) (hle : n + n ≤ 32) (x y : BitVec n) :
    ((x.signExtend 32 * y.signExtend 32).setWidth (n + n)).toInt = x.toInt * y.toInt := by
  rw [BitVec.setWidth_mul _ _ hle, setWidth_signExtend hle, setWidth_signExtend hle]
  exact toInt_signExtend_mul le_rfl hn x y

theorem overflows_eq (top result : Word) : overflows top result = decide (NeedsHigh (top ++ result)) := by
  have hlow : (top ++ result).setWidth 32 = result := BitVec.setWidth_append_eq_right
  have hext := append_eq_signExtend top result
  have hsign : (result &&& 0x80000000 ≠ 0) = (result.msb = true) := propext (and_bit31 result)
  rw [Bool.eq_iff_iff, decide_eq_true_iff, NeedsHigh, hlow, Ne, hext, overflows]
  simp only [hsign]
  cases hs : result.msb with
  | false => simp
  | true => simp

/-- **IMUL of a byte**. -/
theorem imulFalEb_eq (op : BitVec 8) (r : Accumulator) :
    ∃ product : BitVec (8 + 8), product.toInt = r.al.toInt * op.toInt ∧
      imulFalEb op r = (r.setAx product).setCarried (NeedsHigh product) := by
  refine ⟨(r.al.signExtend 32 * op.signExtend 32).setWidth (8 + 8), toInt_narrow (by decide) (by decide) _ _, ?_⟩
  rw [imulFalEb, imul8, hostSized_byte, hostSized_byte]
  dsimp only
  rw [mixed_eq 8 (by decide) (by decide) (by decide), setWidth_shift_and (by decide), ← extract_append,
    ← Accumulator.setAl_setAh]
  rfl

/-- **IMUL of a word**. -/
theorem imulFaxEw_eq (op : BitVec 16) (r : Accumulator) :
    ∃ product : BitVec (16 + 16), product.toInt = r.ax.toInt * op.toInt ∧
      imulFaxEw op r = ((r.setDx (product.extractLsb' 16 16)).setAx (product.setWidth 16)).setCarried (NeedsHigh product) := by
  refine ⟨(r.ax.signExtend 32 * op.signExtend 32).setWidth (16 + 16), toInt_narrow (by decide) (by decide) _ _, ?_⟩
  rw [imulFaxEw, imul16, hostSized_word, hostSized_word]
  dsimp only
  rw [mixed_eq 16 (by decide) (by decide) (by decide), setWidth_shift_and (by decide), BitVec.setWidth_eq]
  rfl

/-- **IMUL of a double word**. -/
theorem imulFeaxEd_eq (op : Word) (r : Accumulator) :
    ∃ product : BitVec (32 + 32), product.toInt = r.eax.toInt * op.toInt ∧
      imulFeaxEd op r =
        { r with edx := product.extractLsb' 32 32, eax := product.setWidth 32 }.setCarried (NeedsHigh product) := by
  refine ⟨(mul64 r.eax op).1 ++ (mul64 r.eax op).2, ?_, ?_⟩
  · rw [mul64_append]
    exact toInt_signExtend_mul le_rfl (by decide) _ _
  · rw [imulFeaxEd, imul32]
    dsimp only
    rw [overflows_eq, BitVec.extractLsb'_append_eq_left, BitVec.setWidth_append_eq_right]
    rfl

/-- **IMUL of two words**, truncated. -/
theorem imulGw_eq (op2 op3 : BitVec 16) (r : Accumulator) :
    ∃ product : BitVec (16 + 16), product.toInt = op2.toInt * op3.toInt ∧
      imulGw op2 op3 r = (product.setWidth 16, r.setCarried (NeedsHigh product)) := by
  refine ⟨(op2.signExtend 32 * op3.signExtend 32).setWidth (16 + 16), toInt_narrow (by decide) (by decide) _ _, ?_⟩
  rw [imulGw, imul16T, hostSized_word, hostSized_word]
  dsimp only
  rw [mixed_eq 16 (by decide) (by decide) (by decide), BitVec.setWidth_eq]

/-- **IMUL of two double words**, truncated. -/
theorem imulGd_eq (op2 op3 : Word) (r : Accumulator) :
    ∃ product : BitVec (32 + 32), product.toInt = op2.toInt * op3.toInt ∧
      imulGd op2 op3 r = (product.setWidth 32, r.setCarried (NeedsHigh product)) := by
  refine ⟨(mul64 op2 op3).1 ++ (mul64 op2 op3).2, ?_, ?_⟩
  · rw [mul64_append]
    exact toInt_signExtend_mul le_rfl (by decide) _ _
  · rw [imulGd, imul32T]
    dsimp only
    rw [overflows_eq, BitVec.setWidth_append_eq_right]

/-- **Multiplication is exact**: the words and the instructions give the whole product, in two halves or cut to the
low one, and say whether the high one is needed. -/
theorem multiplication_exact :
    (∀ mcand mpy : Word, ((mulu64 mcand mpy).1 ++ (mulu64 mcand mpy).2).toNat = mcand.toNat * mpy.toNat) ∧
    (∀ mcand mpy : Word, ((mul64 mcand mpy).1 ++ (mul64 mcand mpy).2).toInt = mcand.toInt * mpy.toInt) ∧
    (∀ (op : BitVec 8) (r : Accumulator), ∃ product : BitVec (8 + 8), product.toInt = r.al.toInt * op.toInt ∧
      imulFalEb op r = (r.setAx product).setCarried (NeedsHigh product)) ∧
    (∀ (op : BitVec 16) (r : Accumulator), ∃ product : BitVec (16 + 16), product.toInt = r.ax.toInt * op.toInt ∧
      imulFaxEw op r =
        ((r.setDx (product.extractLsb' 16 16)).setAx (product.setWidth 16)).setCarried (NeedsHigh product)) ∧
    (∀ (op : Word) (r : Accumulator), ∃ product : BitVec (32 + 32), product.toInt = r.eax.toInt * op.toInt ∧
      imulFeaxEd op r =
        { r with edx := product.extractLsb' 32 32, eax := product.setWidth 32 }.setCarried (NeedsHigh product)) ∧
    (∀ (op2 op3 : BitVec 16) (r : Accumulator), ∃ product : BitVec (16 + 16), product.toInt = op2.toInt * op3.toInt ∧
      imulGw op2 op3 r = (product.setWidth 16, r.setCarried (NeedsHigh product))) ∧
    ∀ (op2 op3 : Word) (r : Accumulator), ∃ product : BitVec (32 + 32), product.toInt = op2.toInt * op3.toInt ∧
      imulGd op2 op3 r = (product.setWidth 32, r.setCarried (NeedsHigh product)) := by
  refine ⟨toNat_mulu64, fun mcand mpy => ?_, imulFalEb_eq, imulFaxEw_eq, imulFeaxEd_eq, imulGw_eq, imulGd_eq⟩
  rw [mul64_append]
  exact toInt_signExtend_mul le_rfl (by decide) _ _

end SoftPC.Ccpu
