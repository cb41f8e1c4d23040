import SoftPC.Ccpu.Segments
import SoftPC.Machinery.Halves
import SoftPC.Machinery.Shifts

/-!
# Ccpu/Rotate — rotations through the carry, and double shifts

`base/ccpu386/rcl.c`, `rcr.c`, `shld.c` and `shrd.c`, with the operands as `c_main.c` fetches and stores them.

       ┌── CF ◂── operand ◂──┐        CF ◂── op1 ◂── op2 ( ◂── op2)      `SHLD`
       └─────────────────────┘          (op2 ──▸ ) op2 ──▸ op1 ──▸ CF    `SHRD`

RCL and RCR turn CF and the operand a bit at a time.  SHLD and SHRD shift by all but one, so that CF is at the end of
the operand, and then by one; a word lets its source in twice.  A shift of the host by 32 or more is undefined in C,
and `none` here.
-/

namespace SoftPC.Ccpu

open Halves Shifts

/-- `SZ2MSB` and `SZ2MASK`. -/
def sz2msb (opSz : ℕ) : Word := (0x80000000 : Word) >>> (32 - opSz)
def sz2mask (opSz : ℕ) : Word := (0xffffffff : Word) >>> (32 - opSz)

/-- `pf_table`: whether a byte has an even number of ones. -/
def pfTable (b : BitVec 8) : Bool := (List.range 8).foldl (fun even i => even ^^ b.getLsbD i) true

/-- `do_multiple_shiftrot_of`: `undef` says that `SHIFTROT_OF_UNDEF` is set, which leaves `UNDEFINED_FLAG`, 0. -/
def doMultipleShiftrotOf (undef newOf : Bool) (f : Flags) : Flags := { f with of := !undef && newOf }

/-- OF after a rotation by `count`. -/
def setRotateOf (undef : Bool) (count : Word) (newOf : Bool) (f : Flags) : Flags :=
  if count = 1 then { f with of := newOf } else doMultipleShiftrotOf undef newOf f

/-! ## Rotations through the carry -/

/-- The loop of `RCL`, once, on the result and CF. -/
def rclStep (feedback : Word) (s : Word × Bool) : Word × Bool :=
  if s.1 &&& feedback ≠ 0 then (s.1 <<< 1 ||| (if s.2 then 1 else 0), true)
  else (s.1 <<< 1 ||| (if s.2 then 1 else 0), false)

def rcl (undef : Bool) (pop1 op2 : Word) (opSz : ℕ) (f : Flags) : Word × Flags :=
  let op2 := op2 &&& 0x1f
  if op2 = 0 then (pop1, f)
  else
    let feedback := sz2msb opSz
    let (result, cf) := (rclStep feedback)^[op2.toNat] (pop1, f.cf)
    let newOf := cf ^^ (result &&& feedback ≠ 0)
    (result, setRotateOf undef op2 newOf { f with cf := cf })

/-- The loop of `RCR`, once. -/
def rcrStep (feedback : Word) (s : Word × Bool) : Word × Bool :=
  let result := s.1 >>> 1
  (if s.2 then result ||| feedback else result, s.1 &&& 1 ≠ 0)

def rcr (undef : Bool) (pop1 op2 : Word) (opSz : ℕ) (f : Flags) : Word × Flags :=
  let op2 := op2 &&& 0x1f
  if op2 = 0 then (pop1, f)
  else
    let feedback := sz2msb opSz
    let (result, cf) := (rcrStep feedback)^[op2.toNat] (pop1, f.cf)
    let newOf := (result ^^^ result <<< 1) &&& feedback ≠ 0
    (result, setRotateOf undef op2 newOf { f with cf := cf })

/-- An operand fetched, rotated and stored. -/
def rotateOperand (op : Word → Word → ℕ → Flags → Word × Flags) {n : ℕ} (x : BitVec n) (count : Word) (f : Flags) :
    BitVec n × Flags :=
  let (result, f) := op (x.setWidth 32) count n f
  (result.setWidth n, f)

/-! ## Double shifts -/

/-- Shifts of the host. -/
def hostShl (x count : Word) : Option Word := if count < 32 then some (x <<< count.toNat) else none
def hostShr (x count : Word) : Option Word := if count < 32 then some (x >>> count.toNat) else none

/-- The bits of an operand. -/
abbrev OperandSize.bits : OperandSize → ℕ
  | .use16 => 16
  | .use32 => 32

/-- What SHLD and SHRD leave in the flags: OF for a shift by one, `newOf`, or by more, `changed`. -/
def setDoubleFlags (cf one newOf changed : Bool) (opSz : ℕ) (result : Word) (f : Flags) : Flags :=
  { f with
    cf := cf
    pf := pfTable ((result &&& 0xff).setWidth 8)
    zf := result = 0
    sf := result &&& sz2msb opSz ≠ 0
    of := if one then newOf else changed
    af := false }

/-- "Do all but last shift", of what comes in as well. -/
def shiftLeftMost (pop1 op2 op3 : Word) : Option (Word × Word) :=
  if op3 ≠ 0 then do
    let high ← hostShl pop1 op3
    let low ← hostShr op2 (32 - op3)
    let op2 ← hostShl op2 op3
    pure (high ||| low, op2)
  else pure (pop1, op2)
def shiftRightMost (pop1 op2 op3 : Word) : Option (Word × Word) :=
  if op3 ≠ 0 then do
    let low ← hostShr pop1 op3
    let high ← hostShl op2 (32 - op3)
    let op2 ← hostShr op2 op3
    pure (low ||| high, op2)
  else pure (pop1, op2)

def shld (pop1 op2 op3 : Word) (opSz : ℕ) (f : Flags) : Option (Word × Flags) :=
  let op3 := op3 &&& 0x1f
  if op3 = 0 then some (pop1, f)
  else do
    let op2 := if opSz = 16 then op2 <<< 16 ||| op2 else op2
    let op3 := op3 - 1
    let (result, op2) ← shiftLeftMost pop1 op2 op3
    let cf : Bool := result &&& sz2msb opSz ≠ 0
    let result := (result <<< 1 ||| op2 >>> 31) &&& sz2mask opSz
    let sf : Bool := result &&& sz2msb opSz ≠ 0
    let changed : Bool := (result ^^^ pop1) &&& sz2msb opSz ≠ 0
    some (result, setDoubleFlags cf (op3 = 0) (cf ^^ sf) changed opSz result f)

/-- `SHRD`, which doubles a word up in `*pop1`. -/
def shrd (pop1 op2 op3 : Word) (opSz : ℕ) (f : Flags) : Option (Word × Flags) :=
  let op3 := op3 &&& 0x1f
  if op3 = 0 then some (pop1, f)
  else do
    let pop1 := if opSz = 16 then op2 <<< 16 ||| pop1 else pop1
    let op3 := op3 - 1
    let (result, op2) ← shiftRightMost pop1 op2 op3
    let cf : Bool := result &&& 1 ≠ 0
    let msb : Bool := result &&& sz2msb opSz ≠ 0
    let result := (result >>> 1 ||| op2 <<< 31) &&& sz2mask opSz
    let sf : Bool := result &&& sz2msb opSz ≠ 0
    let changed : Bool := (result ^^^ pop1) &&& sz2msb opSz ≠ 0
    some (result, setDoubleFlags cf (op3 = 0) (msb ^^ sf) changed opSz result f)

/-- Operands fetched, shifted and stored. -/
def shiftOperands (op : Word → Word → Word → ℕ → Flags → Option (Word × Flags)) (size : OperandSize)
    (op1 op2 : BitVec size.bits) (count : Word) (f : Flags) : Option (BitVec size.bits × Flags) := do
  let (result, f) ← op (op1.setWidth 32) (op2.setWidth 32) count size.bits f
  return (result.setWidth size.bits, f)

/-! ## Bits -/

section

variable {n : ℕ}

theorem getLsbD_sz2mask (hn : n ≤ 32) (i : ℕ) : (sz2mask n).getLsbD i = decide (i < n) := by
  have hones : (0xffffffff : Word) = BitVec.allOnes 32 := rfl
  rw [sz2mask, hones, BitVec.getLsbD_ushiftRight, BitVec.getLsbD_allOnes, decide_eq_decide]
  omega

theorem sz2msb_eq (hn : 0 < n) (hle : n ≤ 32) : sz2msb n = BitVec.twoPow 32 (n - 1) := by
  have htop : (0x80000000 : Word) = BitVec.twoPow 32 31 := rfl
  refine BitVec.eq_of_getLsbD_eq fun i hi => ?_
  rw [sz2msb, htop, BitVec.getLsbD_ushiftRight, BitVec.getLsbD_twoPow, BitVec.getLsbD_twoPow, Bool.eq_iff_iff]
  simp only [Bool.and_eq_true, decide_eq_true_eq]
  omega

theorem and_sz2msb (hn : 0 < n) (hle : n ≤ 32) (x : Word) : (x &&& sz2msb n ≠ 0) ↔ x.getLsbD (n - 1) := by
  rw [sz2msb_eq hn hle]
  exact and_twoPow_ne_zero x (by omega)

theorem setWidth_and_sz2mask (hn : n ≤ 32) (x : Word) : (x &&& sz2mask n).setWidth n = x.setWidth n := by
  refine BitVec.eq_of_getLsbD_eq fun i hi => ?_
  rw [BitVec.getLsbD_setWidth, BitVec.getLsbD_setWidth, BitVec.getLsbD_and, getLsbD_sz2mask hn, decide_eq_true hi,
    Bool.and_true]

theorem getLsbD_shift_bit {x : Word} {c : Bool} {i : ℕ} (hi : i < 32) :
    (x <<< 1 ||| (if c then 1 else 0)).getLsbD i = if i = 0 then c else x.getLsbD (i - 1) := by
  have hbit : (if c then 1 else 0 : Word).getLsbD i = (decide (i = 0) && c) := by
    cases c with
    | false => simp
    | true =>
      have hone : (1 : Word) = BitVec.twoPow 32 0 := rfl
      rw [if_pos rfl, hone, BitVec.getLsbD_twoPow, Bool.and_true, decide_eq_true (by decide : 0 < 32), Bool.true_and]
      exact decide_eq_decide.mpr eq_comm
  rw [BitVec.getLsbD_or, BitVec.getLsbD_shiftLeft, hbit, decide_eq_true hi, Bool.true_and]
  cases i with
  | zero => simp
  | succ i => simp

theorem toNat_count (count : Word) : (count &&& 0x1f).toNat = count.toNat % 32 := Nat.and_two_pow_sub_one_eq_mod _ 5

/-! ## Rotations through the carry -/

/-- CF and an operand. -/
def wide (cf : Bool) (x : BitVec n) : BitVec (1 + n) := BitVec.ofBool cf ++ x

theorem getLsbD_wide (cf : Bool) (x : BitVec n) {i : ℕ} (hi : i < 1 + n) :
    (wide cf x).getLsbD i = if i < n then x.getLsbD i else cf := by
  rw [wide, BitVec.getLsbD_append]
  by_cases hin : i < n
  · rw [if_pos hin, if_pos hin]
  · rw [if_neg hin, if_neg hin, show i - n = 0 by omega]
    cases cf <;> rfl

theorem wide_inj {cf cf' : Bool} {x x' : BitVec n} (h : wide cf x = wide cf' x') : cf = cf' ∧ x = x' := by
  have hbit : ∀ i, i < 1 + n → (if i < n then x.getLsbD i else cf) = if i < n then x'.getLsbD i else cf' := by
    intro i hi
    rw [← getLsbD_wide cf x hi, h, getLsbD_wide cf' x' hi]
  have hcf := hbit n (by omega)
  rw [if_neg (lt_irrefl n), if_neg (lt_irrefl n)] at hcf
  refine ⟨hcf, BitVec.eq_of_getLsbD_eq fun i hi => ?_⟩
  have hx := hbit i (by omega)
  rwa [if_pos hi, if_pos hi] at hx

/-- **A step of RCL** turns CF and the operand by one. -/
theorem wide_rclStep (hn : 0 < n) (hle : n ≤ 32) (s : Word × Bool) :
    wide (rclStep (sz2msb n) s).2 ((rclStep (sz2msb n) s).1.setWidth n) = (wide s.2 (s.1.setWidth n)).rotateLeft 1 := by
  have hstep : rclStep (sz2msb n) s = (s.1 <<< 1 ||| (if s.2 then 1 else 0), s.1.getLsbD (n - 1)) := by
    have htop : (s.1 &&& sz2msb n ≠ 0) = (s.1.getLsbD (n - 1) = true) := propext (and_sz2msb hn hle s.1)
    unfold rclStep
    simp only [htop]
    cases s.1.getLsbD (n - 1) <;> rfl
  rw [hstep]
  refine BitVec.eq_of_getLsbD_eq fun i hi => ?_
  rw [getLsbD_rotate_left _ _ hi, getLsbD_wide _ _ hi, getLsbD_wide _ _ (around_lt (by omega) _)]
  rcases Nat.eq_zero_or_pos i with rfl | hpos
  · -- What falls out at the bottom comes back at the top.
    have haround : around (1 + n) ((0 : ℕ) - (1 : ℕ)) = n := by
      unfold around
      rw [← Int.add_emod_right, Int.emod_eq_of_lt (by omega) (by omega)]
      omega
    rw [haround, if_pos hn, if_neg (lt_irrefl n), BitVec.getLsbD_setWidth, getLsbD_shift_bit (by omega), if_pos rfl,
      decide_eq_true hn, Bool.true_and]
  · have haround : around (1 + n) ((i : ℕ) - (1 : ℕ)) = i - 1 := by
      rw [← Int.ofNat_sub hpos]
      exact around_of_lt (by omega)
    have hbelow : (s.1.setWidth n).getLsbD (i - 1) = s.1.getLsbD (i - 1) := by
      rw [BitVec.getLsbD_setWidth, decide_eq_true (by omega : i - 1 < n), Bool.true_and]
    rw [haround, if_pos (by omega : i - 1 < n), hbelow]
    dsimp only
    by_cases hin : i < n
    · rw [if_pos hin, BitVec.getLsbD_setWidth, decide_eq_true hin, Bool.true_and, getLsbD_shift_bit (by omega),
        if_neg hpos.ne']
    · rw [if_neg hin, show i - 1 = n - 1 by omega]

/-- **A step of RCR** turns them back, if there is nothing above the operand. -/
theorem wide_rcrStep (hn : 0 < n) (hle : n ≤ 32) {s : Word × Bool} (habove : ∀ i, n ≤ i → s.1.getLsbD i = false) :
    wide (rcrStep (sz2msb n) s).2 ((rcrStep (sz2msb n) s).1.setWidth n) =
        (wide s.2 (s.1.setWidth n)).rotateRight 1 ∧
      ∀ i, n ≤ i → (rcrStep (sz2msb n) s).1.getLsbD i = false := by
  have hbit : ∀ i, (rcrStep (sz2msb n) s).1.getLsbD i = (s.1.getLsbD (i + 1) || (decide (i = n - 1) && s.2)) := by
    intro i
    unfold rcrStep
    cases hs : s.2 with
    | false => simp [Nat.add_comm]
    | true =>
      simp only [if_true, BitVec.getLsbD_or, BitVec.getLsbD_ushiftRight, sz2msb_eq hn hle, BitVec.getLsbD_twoPow,
        Bool.and_true, decide_eq_true (by omega : n - 1 < 32), Bool.true_and, Nat.add_comm 1 i]
      rw [show decide (n - 1 = i) = decide (i = n - 1) from decide_eq_decide.mpr eq_comm]
  refine ⟨BitVec.eq_of_getLsbD_eq fun i hi => ?_, fun i hi => ?_⟩
  · rw [getLsbD_rotate_right _ _ hi, getLsbD_wide _ _ hi, getLsbD_wide _ _ (around_lt (by omega) _)]
    by_cases hin : i < n
    · have haround : around (1 + n) ((i : ℕ) + (1 : ℕ)) = i + 1 := around_of_lt (by omega)
      rw [haround, if_pos hin, BitVec.getLsbD_setWidth, decide_eq_true hin, Bool.true_and, hbit]
      by_cases hlast : i + 1 < n
      · rw [if_pos hlast, BitVec.getLsbD_setWidth, decide_eq_true hlast, decide_eq_false (by omega : ¬i = n - 1),
          Bool.false_and, Bool.or_false, Bool.true_and]
      · rw [if_neg hlast, habove _ (by omega), decide_eq_true (by omega : i = n - 1), Bool.true_and, Bool.false_or]
    · have haround : around (1 + n) ((i : ℕ) + (1 : ℕ)) = 0 := by
        unfold around
        rw [show (i : ℤ) + (1 : ℕ) = (1 + n : ℕ) by omega, Int.emod_self]
        rfl
      rw [haround, if_neg hin, if_pos hn, BitVec.getLsbD_setWidth, decide_eq_true hn, Bool.true_and, Bool.eq_iff_iff]
      exact decide_eq_true_iff.trans (and_twoPow_ne_zero s.1 (by decide : 0 < 32))
  · rw [hbit, habove _ (by omega), decide_eq_false (by omega : ¬i = n - 1), Bool.false_and, Bool.or_false]

theorem wide_rcl (hn : 0 < n) (hle : n ≤ 32) (s : Word × Bool) (k : ℕ) :
    wide ((rclStep (sz2msb n))^[k] s).2 (((rclStep (sz2msb n))^[k] s).1.setWidth n) =
      (wide s.2 (s.1.setWidth n)).rotateLeft k := by
  induction k with
  | zero => exact (rotateLeft_zero _).symm
  | succ k ih => rw [Function.iterate_succ_apply', wide_rclStep hn hle, ih, rotateLeft_rotateLeft]

theorem wide_rcr (hn : 0 < n) (hle : n ≤ 32) {s : Word × Bool} (habove : ∀ i, n ≤ i → s.1.getLsbD i = false) (k : ℕ) :
    wide ((rcrStep (sz2msb n))^[k] s).2 (((rcrStep (sz2msb n))^[k] s).1.setWidth n) =
        (wide s.2 (s.1.setWidth n)).rotateRight k ∧
      ∀ i, n ≤ i → ((rcrStep (sz2msb n))^[k] s).1.getLsbD i = false := by
  induction k with
  | zero => exact ⟨(rotateRight_zero _).symm, habove⟩
  | succ k ih =>
    obtain ⟨hwide, hclear⟩ := wide_rcrStep hn hle ih.2
    rw [Function.iterate_succ_apply', hwide, ih.1, rotateRight_rotateRight]
    exact ⟨rfl, hclear⟩

theorem setRotateOf_cf (undef newOf : Bool) (count : Word) (f : Flags) : (setRotateOf undef count newOf f).cf = f.cf := by
  unfold setRotateOf doMultipleShiftrotOf
  split_ifs <;> rfl

variable (undef : Bool) (x : BitVec n) (count : Word) (f : Flags)

theorem setWidth_setWidth_operand (hle : n ≤ 32) : (x.setWidth 32).setWidth n = x := by
  rw [BitVec.setWidth_setWidth_of_le _ hle, BitVec.setWidth_eq]

theorem count_eq_zero : (count &&& 0x1f = 0) ↔ count.toNat % 32 = 0 := by
  rw [← toNat_count, ← BitVec.toNat_inj]
  rfl

/-- **RCL** of an operand. -/
theorem rcl_rotates (hn : 0 < n) (hle : n ≤ 32) :
    wide (rotateOperand (rcl undef) x count f).2.cf (rotateOperand (rcl undef) x count f).1 =
      (wide f.cf x).rotateLeft (count.toNat % 32) := by
  unfold rotateOperand rcl
  by_cases hzero : count &&& 0x1f = 0
  · simp only [if_pos hzero]
    rw [(count_eq_zero count).mp hzero, setWidth_setWidth_operand x hle, rotateLeft_zero]
  · simp only [if_neg hzero]
    rw [setRotateOf_cf, wide_rcl hn hle, setWidth_setWidth_operand x hle, toNat_count]

/-- **RCR** of an operand. -/
theorem rcr_rotates (hn : 0 < n) (hle : n ≤ 32) :
    wide (rotateOperand (rcr undef) x count f).2.cf (rotateOperand (rcr undef) x count f).1 =
      (wide f.cf x).rotateRight (count.toNat % 32) := by
  have habove : ∀ i, n ≤ i → (x.setWidth 32).getLsbD i = false := fun i hi => by
    rw [BitVec.getLsbD_setWidth, BitVec.getLsbD_of_ge x i hi, Bool.and_false]
  unfold rotateOperand rcr
  by_cases hzero : count &&& 0x1f = 0
  · simp only [if_pos hzero]
    rw [(count_eq_zero count).mp hzero, setWidth_setWidth_operand x hle, rotateRight_zero]
  · simp only [if_neg hzero]
    rw [setRotateOf_cf, (wide_rcr hn hle habove _).1, setWidth_setWidth_operand x hle, toNat_count]

/-- **RCR undoes RCL**. -/
theorem rcr_rcl (hn : 0 < n) (hle : n ≤ 32) :
    (rotateOperand (rcr undef) (rotateOperand (rcl undef) x count f).1 count (rotateOperand (rcl undef) x count f).2).1 = x ∧
      (rotateOperand (rcr undef) (rotateOperand (rcl undef) x count f).1 count
        (rotateOperand (rcl undef) x count f).2).2.cf = f.cf := by
  have hwide := rcr_rotates undef (rotateOperand (rcl undef) x count f).1 count (rotateOperand (rcl undef) x count f).2 hn hle
  rw [rcl_rotates undef x count f hn hle, rotateRight_rotateLeft] at hwide
  exact (wide_inj hwide).symm

/-! ## Double shifts -/

/-- What a shift lets in: a word twice. -/
def filler (size : OperandSize) (op2 : BitVec size.bits) : BitVec 32 :=
  match size with
  | .use16 => op2 ++ op2
  | .use32 => op2

/-- What is left of a word. -/
theorem toNat_rest {op3 : Word} (hlt : op3.toNat < 32) : (32 - op3).toNat = 32 - op3.toNat := by
  rw [BitVec.toNat_sub]
  change (2 ^ 32 - op3.toNat + 32) % 2 ^ 32 = 32 - op3.toNat
  omega

theorem rest_lt {op3 : Word} (hlt : op3.toNat < 32) (hzero : op3 ≠ 0) : 32 - op3 < 32 := by
  have hpos : op3.toNat ≠ 0 := fun h => hzero (BitVec.eq_of_toNat_eq h)
  rw [BitVec.lt_def, toNat_rest hlt]
  change 32 - op3.toNat < 32
  omega

theorem shiftLeftMost_eq (pop1 op2 : Word) {op3 : Word} (hlt : op3.toNat < 32) :
    ∃ r, shiftLeftMost pop1 op2 op3 = some r ∧ r.1 ++ r.2 = (pop1 ++ op2) <<< op3.toNat := by
  unfold shiftLeftMost
  by_cases hzero : op3 = 0
  · rw [if_neg (not_not.mpr hzero), hzero]
    exact ⟨_, rfl, (BitVec.shiftLeft_zero _).symm⟩
  · have hcount : op3 < 32 := hlt
    rw [if_pos hzero, hostShl, hostShr, hostShl, if_pos hcount, if_pos (rest_lt hlt hzero), if_pos hcount,
      toNat_rest hlt, pair_shiftLeft _ _ hlt.le]
    exact ⟨_, rfl, rfl⟩

theorem shiftRightMost_eq (pop1 op2 : Word) {op3 : Word} (hlt : op3.toNat < 32) :
    ∃ r, shiftRightMost pop1 op2 op3 = some r ∧ r.2 ++ r.1 = (op2 ++ pop1) >>> op3.toNat := by
  unfold shiftRightMost
  by_cases hzero : op3 = 0
  · rw [if_neg (not_not.mpr hzero), hzero]
    exact ⟨_, rfl, (BitVec.ushiftRight_zero _).symm⟩
  · have hcount : op3 < 32 := hlt
    rw [if_pos hzero, hostShr, hostShl, hostShr, if_pos hcount, if_pos (rest_lt hlt hzero), if_pos hcount,
      toNat_rest hlt, pair_ushiftRight _ _ hlt.le]
    exact ⟨_, rfl, rfl⟩

theorem toNat_count_sub_one (hcount : count.toNat % 32 ≠ 0) :
    ((count &&& 0x1f) - 1).toNat = count.toNat % 32 - 1 := by
  have hlt := Nat.mod_lt count.toNat (by decide : 32 > 0)
  rw [BitVec.toNat_sub, toNat_count]
  change (2 ^ 32 - 1 + count.toNat % 32) % 2 ^ 32 = _
  omega

theorem msb_setWidth (hn : 0 < n) (y : Word) : (y.setWidth n).msb = y.getLsbD (n - 1) := by
  rw [BitVec.msb_eq_getLsbD_last, BitVec.getLsbD_setWidth, decide_eq_true (by omega : n - 1 < n), Bool.true_and]

theorem decide_and_sz2msb (hn : 0 < n) (hle : n ≤ 32) (y : Word) :
    decide (y &&& sz2msb n ≠ 0) = y.getLsbD (n - 1) := by
  rw [Bool.eq_iff_iff, decide_eq_true_iff]
  exact and_sz2msb hn hle y

/-- **SHLD of `n` bits**, over the operands as one. -/
theorem shld_eq (hn : 0 < n) (hle : n ≤ 32) (op1 : BitVec n) (op2 : Word) {fill : Word}
    (hfill : (if n = 16 then op2 <<< 16 ||| op2 else op2) = fill) (hcount : count.toNat % 32 ≠ 0) :
    ∃ result f', shld (op1.setWidth 32) op2 count n f = some (result, f') ∧
      result.setWidth n = ((op1 ++ fill) <<< (count.toNat % 32)).extractLsb' 32 n ∧
      f'.cf = (op1 ++ fill).getLsbD (n + 32 - count.toNat % 32) ∧
      (count.toNat % 32 = 1 → f'.of = (op1.msb ^^ (result.setWidth n).msb)) := by
  have hlt := Nat.mod_lt count.toNat (by decide : 32 > 0)
  have hk := toNat_count_sub_one count hcount
  obtain ⟨r, hr, happend⟩ := shiftLeftMost_eq (op1.setWidth 32) fill (by omega : ((count &&& 0x1f) - 1).toNat < 32)
  rw [hk] at happend
  have hwhole (j : ℕ) : (op1.setWidth 32 ++ fill).getLsbD j = (op1 ++ fill).getLsbD j := by
    rw [BitVec.getLsbD_append, BitVec.getLsbD_append, BitVec.getLsbD_setWidth]
    by_cases hj : j - 32 < 32
    · rw [decide_eq_true hj, Bool.true_and]
    · rw [decide_eq_false hj, Bool.false_and, BitVec.getLsbD_of_ge op1 _ (by omega)]
  have hhigh (i : ℕ) (hi : i < 32) : r.1.getLsbD i = (op1 ++ fill).getLsbD (32 + i - (count.toNat % 32 - 1)) := by
    rw [getLsbD_high r.1 r.2, happend, getLsbD_shifted _ (by omega) (by omega), hwhole]
  have hlast (i : ℕ) (hi : i < 32) :
      (r.1 <<< 1 ||| r.2 >>> 31).getLsbD i = (op1 ++ fill).getLsbD (32 + i - count.toNat % 32) := by
    have hshift : (r.1 <<< 1 ||| r.2 >>> 31) ++ r.2 <<< 1 = (op1.setWidth 32 ++ fill) <<< (count.toNat % 32) := by
      rw [← pair_shiftLeft r.1 r.2 (by decide : 1 ≤ 32), happend, ← BitVec.shiftLeft_add, Nat.sub_add_cancel (by omega)]
    rw [getLsbD_high _ (r.2 <<< 1), hshift, getLsbD_shifted _ (by omega) (by omega), hwhole]
  have hzero : ¬count &&& 0x1f = 0 := mt (count_eq_zero count).mp hcount
  unfold shld
  dsimp only
  rw [if_neg hzero, hfill, hr]
  refine ⟨_, _, rfl, ?_, ?_, fun hone => ?_⟩
  · refine BitVec.eq_of_getLsbD_eq fun i hi => ?_
    rw [setWidth_and_sz2mask hle, BitVec.getLsbD_setWidth, decide_eq_true hi, Bool.true_and, hlast i (by omega),
      BitVec.getLsbD_extractLsb', decide_eq_true hi, Bool.true_and, getLsbD_shifted _ (by omega) (by omega)]
  · change decide (r.1 &&& sz2msb n ≠ 0) = _
    rw [decide_and_sz2msb hn hle, hhigh _ (by omega)]
    congr 1
    omega
  · have hone' : (count &&& 0x1f) - 1 = 0 := BitVec.eq_of_toNat_eq (by rw [hk, hone]; rfl)
    change (if decide ((count &&& 0x1f) - 1 = 0) = true then
      (decide (r.1 &&& sz2msb n ≠ 0) ^^ decide ((r.1 <<< 1 ||| r.2 >>> 31) &&& sz2mask n &&& sz2msb n ≠ 0)) else _) = _
    rw [if_pos (decide_eq_true hone'), decide_and_sz2msb hn hle, decide_and_sz2msb hn hle, msb_setWidth hn,
      hhigh _ (by omega), hone, BitVec.msb_eq_getLsbD_last, getLsbD_high op1 fill]
    congr 2

/-- **SHRD of `n` bits**, over the operands as one. -/
theorem shrd_eq (hn : 0 < n) (hle : n ≤ 32) (op1 : BitVec n) (op2 : Word) {pop1 : Word} {whole : BitVec (32 + n)}
    (hpop : (if n = 16 then op2 <<< 16 ||| op1.setWidth 32 else op1.setWidth 32) = pop1)
    (hwhole : ∀ j, (op2 ++ pop1).getLsbD j = whole.getLsbD j) (hmsb : whole.getLsbD (n - 1) = op1.msb)
    (hcount : count.toNat % 32 ≠ 0) :
    ∃ result f', shrd (op1.setWidth 32) op2 count n f = some (result, f') ∧
      result.setWidth n = (whole >>> (count.toNat % 32)).setWidth n ∧
      f'.cf = whole.getLsbD (count.toNat % 32 - 1) ∧
      (count.toNat % 32 = 1 → f'.of = (op1.msb ^^ (result.setWidth n).msb)) := by
  have hlt := Nat.mod_lt count.toNat (by decide : 32 > 0)
  have hk := toNat_count_sub_one count hcount
  obtain ⟨r, hr, happend⟩ := shiftRightMost_eq pop1 op2 (by omega : ((count &&& 0x1f) - 1).toNat < 32)
  rw [hk] at happend
  have hlow (i : ℕ) (hi : i < 32) : r.1.getLsbD i = whole.getLsbD (count.toNat % 32 - 1 + i) := by
    rw [getLsbD_low r.2 r.1 hi, happend, BitVec.getLsbD_ushiftRight, hwhole]
  have hlast (i : ℕ) (hi : i < 32) :
      (r.1 >>> 1 ||| r.2 <<< 31).getLsbD i = whole.getLsbD (count.toNat % 32 + i) := by
    have hshift : r.2 >>> 1 ++ (r.1 >>> 1 ||| r.2 <<< 31) = (op2 ++ pop1) >>> (count.toNat % 32) := by
      rw [← pair_ushiftRight r.2 r.1 (by decide : 1 ≤ 32), happend, ← BitVec.shiftRight_add,
        Nat.sub_add_cancel (by omega)]
    rw [getLsbD_low (r.2 >>> 1) _ hi, hshift, BitVec.getLsbD_ushiftRight, hwhole]
  have hzero : ¬count &&& 0x1f = 0 := mt (count_eq_zero count).mp hcount
  unfold shrd
  dsimp only
  rw [if_neg hzero, hpop, hr]
  refine ⟨_, _, rfl, ?_, ?_, fun hone => ?_⟩
  · refine BitVec.eq_of_getLsbD_eq fun i hi => ?_
    rw [setWidth_and_sz2mask hle, BitVec.getLsbD_setWidth, decide_eq_true hi, Bool.true_and, hlast i (by omega),
      BitVec.getLsbD_setWidth, decide_eq_true hi, Bool.true_and, BitVec.getLsbD_ushiftRight]
  · change decide (r.1 &&& 1 ≠ 0) = _
    have hbit : decide (r.1 &&& 1 ≠ 0) = r.1.getLsbD 0 := by
      rw [Bool.eq_iff_iff, decide_eq_true_iff]
      exact and_twoPow_ne_zero r.1 (by decide : 0 < 32)
    rw [hbit, hlow 0 (by decide), Nat.add_zero]
  · have hone' : (count &&& 0x1f) - 1 = 0 := BitVec.eq_of_toNat_eq (by rw [hk, hone]; rfl)
    change (if decide ((count &&& 0x1f) - 1 = 0) = true then
      (decide (r.1 &&& sz2msb n ≠ 0) ^^ decide ((r.1 >>> 1 ||| r.2 <<< 31) &&& sz2mask n &&& sz2msb n ≠ 0)) else _) = _
    rw [if_pos (decide_eq_true hone'), decide_and_sz2msb hn hle, decide_and_sz2msb hn hle, msb_setWidth hn,
      hlow _ (by omega), hone, Nat.sub_self, Nat.zero_add, hmsb]

end

theorem shiftOperands_zero {op : Word → Word → Word → ℕ → Flags → Option (Word × Flags)} {size : OperandSize}
    {op1 op2 : BitVec size.bits} {count : Word} {f : Flags}
    (hop : op (op1.setWidth 32) (op2.setWidth 32) count size.bits f = some (op1.setWidth 32, f)) :
    shiftOperands op size op1 op2 count f = some (op1, f) := by
  unfold shiftOperands
  rw [hop]
  cases size with
  | use16 => exact congrArg (fun x => some (x, f)) (setWidth_setWidth_operand op1 (by decide))
  | use32 => exact congrArg (fun x => some (x, f)) (setWidth_setWidth_operand op1 (by decide))

/-- **SHLD**: the high part of the operands shifted to the left as one. -/
theorem shld_shifts (size : OperandSize) (op1 op2 : BitVec size.bits) (count : Word) (f : Flags)
    (hcount : count.toNat % 32 ≠ 0) :
    ∃ result f', shiftOperands shld size op1 op2 count f = some (result, f') ∧
      result = ((op1 ++ filler size op2) <<< (count.toNat % 32)).extractLsb' 32 size.bits ∧
      f'.cf = (op1 ++ filler size op2).getLsbD (size.bits + 32 - count.toNat % 32) ∧
      (count.toNat % 32 = 1 → f'.of = (op1.msb ^^ result.msb)) := by
  have hfill : (if size.bits = 16 then op2.setWidth 32 <<< 16 ||| op2.setWidth 32 else op2.setWidth 32) =
      filler size op2 := by
    cases size with
    | use16 =>
      change op2.setWidth 32 <<< 16 ||| op2.setWidth 32 = op2 ++ op2
      rw [← BitVec.setWidth_append_eq_shiftLeft_setWidth_or, BitVec.setWidth_eq]
    | use32 => exact BitVec.setWidth_eq op2
  have hbits : 0 < size.bits ∧ size.bits ≤ 32 := by cases size <;> decide
  obtain ⟨result, f', hrun, hresult, hcf, hof⟩ := shld_eq count f hbits.1 hbits.2 op1 _ hfill hcount
  refine ⟨result.setWidth size.bits, f', ?_, hresult, hcf, hof⟩
  unfold shiftOperands
  rw [hrun]
  rfl

/-- A word doubled up, and once more above it. -/
theorem getLsbD_doubled (op1 op2 : BitVec 16) (j : ℕ) :
    (op2.setWidth 32 ++ (op2 ++ op1)).getLsbD j = ((op2 ++ op2) ++ op1).getLsbD j := by
  rw [BitVec.getLsbD_append, BitVec.getLsbD_append, BitVec.getLsbD_append, BitVec.getLsbD_append,
    BitVec.getLsbD_setWidth]
  rcases Nat.lt_or_ge j 16 with hj | hj
  · rw [if_pos (by omega), if_pos hj, if_pos hj]
  · rcases Nat.lt_or_ge j 32 with hj' | hj'
    · rw [if_pos hj', if_neg (by omega), if_neg (by omega), if_pos (by omega)]
    · rw [if_neg (by omega), if_neg (by omega), if_neg (by omega), show j - 16 - 16 = j - 32 by omega]
      by_cases hin : j - 32 < 32
      · rw [decide_eq_true hin, Bool.true_and]
      · rw [decide_eq_false hin, Bool.false_and, BitVec.getLsbD_of_ge op2 _ (by omega)]

/-- **SHRD**: the low part of the operands shifted to the right as one. -/
theorem shrd_shifts (size : OperandSize) (op1 op2 : BitVec size.bits) (count : Word) (f : Flags)
    (hcount : count.toNat % 32 ≠ 0) :
    ∃ result f', shiftOperands shrd size op1 op2 count f = some (result, f') ∧
      result = ((filler size op2 ++ op1) >>> (count.toNat % 32)).setWidth size.bits ∧
      f'.cf = (filler size op2 ++ op1).getLsbD (count.toNat % 32 - 1) ∧
      (count.toNat % 32 = 1 → f'.of = (op1.msb ^^ result.msb)) := by
  have hbits : 0 < size.bits ∧ size.bits ≤ 32 := by cases size <;> decide
  have hmsb : (filler size op2 ++ op1).getLsbD (size.bits - 1) = op1.msb := by
    rw [BitVec.getLsbD_append, if_pos (by omega), BitVec.msb_eq_getLsbD_last]
  have hwhole : ∀ j, (op2.setWidth 32 ++
      (if size.bits = 16 then op2.setWidth 32 <<< 16 ||| op1.setWidth 32 else op1.setWidth 32)).getLsbD j =
      (filler size op2 ++ op1).getLsbD j := by
    intro j
    cases size with
    | use16 =>
      have hpop : op2.setWidth 32 <<< 16 ||| op1.setWidth 32 = op2 ++ op1 := by
        rw [← BitVec.setWidth_append_eq_shiftLeft_setWidth_or, BitVec.setWidth_eq]
      change (op2.setWidth 32 ++ (op2.setWidth 32 <<< 16 ||| op1.setWidth 32)).getLsbD j = ((op2 ++ op2) ++ op1).getLsbD j
      rw [hpop]
      exact getLsbD_doubled op1 op2 j
    | use32 =>
      change (op2.setWidth 32 ++ op1.setWidth 32).getLsbD j = (op2 ++ op1).getLsbD j
      rw [BitVec.setWidth_eq, BitVec.setWidth_eq]
  obtain ⟨result, f', hrun, hresult, hcf, hof⟩ := shrd_eq count f hbits.1 hbits.2 op1 _ rfl hwhole hmsb hcount
  refine ⟨result.setWidth size.bits, f', ?_, hresult, hcf, hof⟩
  unfold shiftOperands
  rw [hrun]
  rfl

/-- **Rotations through the carry and double shifts** are those of CF and the operand, and of the two operands, as one
number: SHLD keeps the high part of what is shifted to the left, SHRD the low part of what is shifted to the right. -/
theorem wide_reference :
    (∀ (undef : Bool) (w : Width) (x : BitVec w.bits) (count : Word) (f : Flags),
      wide (rotateOperand (rcl undef) x count f).2.cf (rotateOperand (rcl undef) x count f).1 =
          (wide f.cf x).rotateLeft (count.toNat % 32) ∧
        wide (rotateOperand (rcr undef) x count f).2.cf (rotateOperand (rcr undef) x count f).1 =
          (wide f.cf x).rotateRight (count.toNat % 32) ∧
        (∀ y g, rotateOperand (rcl undef) x count f = (y, g) →
          (rotateOperand (rcr undef) y count g).1 = x ∧ (rotateOperand (rcr undef) y count g).2.cf = f.cf) ∧
        (count.toNat % 32 = 0 → rotateOperand (rcl undef) x count f = (x, f) ∧
          rotateOperand (rcr undef) x count f = (x, f))) ∧
    ∀ (size : OperandSize) (op1 op2 : BitVec size.bits) (count : Word) (f : Flags),
      (count.toNat % 32 = 0 → shiftOperands shld size op1 op2 count f = some (op1, f) ∧
        shiftOperands shrd size op1 op2 count f = some (op1, f)) ∧
      (count.toNat % 32 ≠ 0 →
        (∃ result f', shiftOperands shld size op1 op2 count f = some (result, f') ∧
          result = ((op1 ++ filler size op2) <<< (count.toNat % 32)).extractLsb' 32 size.bits ∧
          f'.cf = (op1 ++ filler size op2).getLsbD (size.bits + 32 - count.toNat % 32) ∧
          (count.toNat % 32 = 1 → f'.of = (op1.msb ^^ result.msb))) ∧
        ∃ result f', shiftOperands shrd size op1 op2 count f = some (result, f') ∧
          result = ((filler size op2 ++ op1) >>> (count.toNat % 32)).setWidth size.bits ∧
          f'.cf = (filler size op2 ++ op1).getLsbD (count.toNat % 32 - 1) ∧
          (count.toNat % 32 = 1 → f'.of = (op1.msb ^^ result.msb))) := by
  refine ⟨fun undef w x count f => ?_, fun size op1 op2 count f => ⟨fun hzero => ?_, fun hcount => ?_⟩⟩
  · have hbits : 0 < w.bits ∧ w.bits ≤ 32 := by cases w <;> decide
    refine ⟨rcl_rotates undef x count f hbits.1 hbits.2, rcr_rotates undef x count f hbits.1 hbits.2, ?_, fun hzero => ?_⟩
    · intro y g hrun
      have hback := rcr_rcl undef x count f hbits.1 hbits.2
      rwa [hrun] at hback
    · have hmasked := (count_eq_zero count).mpr hzero
      unfold rotateOperand rcl rcr
      simp only [if_pos hmasked]
      rw [setWidth_setWidth_operand x hbits.2]
      exact ⟨rfl, rfl⟩
  · have hmasked := (count_eq_zero count).mpr hzero
    exact ⟨shiftOperands_zero (if_pos hmasked), shiftOperands_zero (if_pos hmasked)⟩
  · exact ⟨shld_shifts size op1 op2 count f hcount, shrd_shifts size op1 op2 count f hcount⟩

/-- SHLD does not keep the low part, nor SHRD the high one: of 1:0 shifted to the left, and of 0:1 to the right. -/
theorem parts_not_exchanged :
    ¬∀ (op1 op2 : BitVec 16) (count : Word) (f : Flags),
      (shiftOperands shld .use16 op1 op2 count f).map Prod.fst =
          some (((op1 ++ op2 ++ op2) <<< (count.toNat % 32)).setWidth 16) ∧
        (shiftOperands shrd .use16 op1 op2 count f).map Prod.fst =
          some (((op1 ++ op2 ++ op2) >>> (count.toNat % 32)).extractLsb' 32 16) := by
  intro h
  exact absurd (h 1 0 1 {}).1 (by decide)

end SoftPC.Ccpu
