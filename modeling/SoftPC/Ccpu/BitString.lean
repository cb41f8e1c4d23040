import SoftPC.Ccpu.PageCrossing
import SoftPC.Ccpu.FpuOperand
import SoftPC.Machinery.Halves

/-!
# Ccpu/BitString — bits of a string in memory

    register ──▸ (op2 >> 3) & ~(size − 1) ──▸ m_off ──▸ limit_check, usr_chk ──▸ op2 % op_sz ──▸ CF

`bt.c`, `bts.c`, `btr.c` and `btc.c` of `base/ccpu386`, and the `BT_OPSw` and `BT_OPSd` macros of `c_oprnd.h`
for an operand in memory: a register says which bit of the string at the operand is meant, and what it counts
in whole operands is added to the operand's offset.  The shift takes the register for unsigned, and nothing
takes the sum back into 64K.  `bit_strings_exact` says that the right bit is meant otherwise.
-/

namespace SoftPC.Ccpu

open Paging

/-! ## The instructions -/

/-- The mask of a bit. -/
def bitMask (op2 opSz : Word) : Word := (1 : Word) <<< (op2 % opSz).toNat

/-- `BT`: CF. -/
def bt (op1 op2 opSz : Word) : Bool := op1 &&& bitMask op2 opSz ≠ 0

/-- `BTS`: CF, and the operand. -/
def bts (op1 op2 opSz : Word) : Bool × Word := (op1 &&& bitMask op2 opSz ≠ 0, op1 ||| bitMask op2 opSz)

def btr (op1 op2 opSz : Word) : Bool × Word := (op1 &&& bitMask op2 opSz ≠ 0, op1 &&& ~~~bitMask op2 opSz)

def btc (op1 op2 opSz : Word) : Bool × Word := (op1 &&& bitMask op2 opSz ≠ 0, op1 ^^^ bitMask op2 opSz)

inductive BitTest where
  | bt | bts | btr | btc
  deriving DecidableEq

namespace BitTest

/-- The operand is written. -/
def writes : BitTest → Bool
  | .bt => false
  | _ => true

/-- The instruction. -/
def inst : BitTest → Word → Word → Word → Bool × Word
  | .bt, op1, op2, opSz => (Ccpu.bt op1 op2 opSz, op1)
  | .bts, op1, op2, opSz => Ccpu.bts op1 op2 opSz
  | .btr, op1, op2, opSz => Ccpu.btr op1 op2 opSz
  | .btc, op1, op2, opSz => Ccpu.btc op1 op2 opSz

/-- What becomes of the bit. -/
def change : BitTest → Bool → Bool
  | .bt, v => v
  | .bts, _ => true
  | .btr, _ => false
  | .btc, v => !v

end BitTest

/-- Where segments and pages are. -/
structure Surroundings where
  prot : Protection
  reg : SegReg
  paging : Paging

/-- An operand in memory, at an offset as `d_mem` gives it, and the register that counts its bits. -/
structure BitString where
  size : OperandSize
  /-- `GET_ADDRESS_SIZE() == USE32`. -/
  addr32 : Bool
  off : Word
  off_lt : addr32 = false → off.toNat < 2 ^ 16
  gr : Word

namespace BitString

variable (b : BitString) (t : BitTest) (env : Surroundings)

abbrev width : Width := b.size.width

def opSz : Word := .ofNat 32 b.width.bits

/-- `F_Gw` and `F_Gd`. -/
def op2 : Word :=
  match b.size with
  | .use16 => (b.gr.setWidth 16).setWidth 32
  | .use32 => b.gr

/-- What is added to the offset. -/
def disp : Word :=
  match b.size with
  | .use16 => (b.op2 >>> 3) &&& ~~~1
  | .use32 => (b.op2 >>> 3) &&& ~~~3

/-- `RO0` or `RW0` finds the segment of the wrong kind. -/
def badType : Bool := if t.writes then !(env.prot.sr env.reg).r || !(env.prot.sr env.reg).w else !(env.prot.sr env.reg).r

/-- The limit is taken, and is passed. -/
def pastLimit (off : Word) : Prop :=
  env.prot.pe ∧ !env.prot.vm ∧ Registers.badLimit (env.prot.sr env.reg) off 1 b.size.bytes

instance (off : Word) : Decidable (b.pastLimit env off) := inferInstanceAs (Decidable (_ ∧ _))

def limitFault : Fault := if env.reg = .ss then .sf 0 else .gp 0

/-- The operand at an offset is checked, fetched, and put where it came from. -/
def access (off : Word) : EStateM Fault Ram Bool := do
  faultIf (badType t env) (.gp 0)
  faultIf (b.pastLimit env off) (limitFault env)
  let la := (env.prot.sr env.reg).base + off
  let pa ← env.paging.usrChk b.width la t.writes
  let op1 ← env.paging.virRead ramPhys b.width la pa
  let (cf, op1) := t.inst (op1.setWidth 32) b.op2 b.opSz
  if t.writes then env.paging.virWrite ramPhys b.width la pa (op1.setWidth _)
  return cf

/-- The instruction, which sets CF. -/
def run : EStateM Fault Ram Bool := b.access t env (b.off + b.disp)

/-! ## What it is to do -/

/-- The bit of the string: the register is signed. -/
def index : ℤ :=
  match b.size with
  | .use16 => (b.gr.setWidth 16).toInt
  | .use32 => b.gr.toInt

/-- The bytes of the string before the operand that has the bit. -/
def before : ℤ := Paging.bytes b.width * (b.index / b.width.bits)

/-- Where that operand is: offsets wrap at 64K under 16-bit addressing, and else at 4G. -/
def located : Word := .ofInt 32 ((b.off.toNat + b.before) % if b.addr32 then 2 ^ 32 else 2 ^ 16)

/-- The bit of that operand. -/
def bit : ℕ := (b.index % b.width.bits).toNat

/-- A byte with one of its bits changed. -/
def setBit (x : BitVec 8) (i : ℕ) (v : Bool) : BitVec 8 := if v then x ||| (1 : BitVec 8) <<< i else x &&& ~~~((1 : BitVec 8) <<< i)

/-- A bit of an operand is tested and changed, in the byte it is in. -/
def exactAt (off : Word) (bit : ℕ) (ram : Ram) : EStateM.Result Fault Ram Bool :=
  if badType t env then .error (.gp 0) ram
  else if b.pastLimit env off then .error (limitFault env) ram
  else
    match env.paging.places ((env.prot.sr env.reg).base + off) (Paging.bytes b.width) t.writes with
    | .error e => .error e ram
    | .ok l =>
      let a := l.getD (bit / 8) 0
      let v := (ram a).getLsbD (bit % 8)
      .ok v (Function.update ram a (setBit (ram a) (bit % 8) (t.change v)))

/-- The instruction tests and changes the bit that is meant, and no other. -/
def Exact : Prop := ∀ env ram, b.run t env ram = b.exactAt t env b.located b.bit ram

/-- The bit is not before the operand, and its own operand not past 64K under 16-bit addressing. -/
def Within : Prop := 0 ≤ b.index ∧ (b.addr32 ∨ (b.off.toNat : ℤ) + b.before < 2 ^ 16)

/-- What `BTS` sets `BT` finds set. -/
def SetThenTested : Prop :=
  ∀ env ram ram' cf, b.run .bts env ram = .ok cf ram' → b.run .bt env ram' = .ok true ram'

/-- What `BTC` does twice is undone. -/
def ComplementedTwice : Prop :=
  ∀ env ram ram' cf, b.run .btc env ram = .ok cf ram' → b.run .btc env ram' = .ok (!cf) ram

/-! ## Bits -/

theorem getLsbD_one_shiftLeft {n i k : ℕ} (hi : i < n) : ((1 : BitVec n) <<< k).getLsbD i = decide (i = k) := by
  have hn : 0 < n := Nat.zero_lt_of_lt hi
  rw [BitVec.getLsbD_shiftLeft, decide_eq_true hi, Bool.true_and, BitVec.ofNat_eq_ofNat, BitVec.getLsbD_one,
    decide_eq_true hn, Bool.true_and, Bool.eq_iff_iff, Bool.and_eq_true, Bool.not_eq_true', decide_eq_false_iff_not,
    decide_eq_true_eq, decide_eq_true_eq]
  omega

theorem getLsbD_setBit {x : BitVec 8} {i j : ℕ} {v : Bool} (hj : j < 8) :
    (setBit x i v).getLsbD j = if j = i then v else x.getLsbD j := by
  unfold setBit
  cases v with
  | true =>
    rw [if_pos rfl, BitVec.getLsbD_or, getLsbD_one_shiftLeft hj]
    by_cases h : j = i <;> simp [h]
  | false =>
    rw [if_neg Bool.false_ne_true, BitVec.getLsbD_and, BitVec.getLsbD_not, getLsbD_one_shiftLeft hj]
    by_cases h : j = i <;> simp [h, hj]

theorem setBit_self {x : BitVec 8} {i : ℕ} : setBit x i (x.getLsbD i) = x := by
  refine BitVec.eq_of_getLsbD_eq fun j hj => ?_
  rw [getLsbD_setBit hj]
  split_ifs with h
  · rw [h]
  · rfl

theorem setBit_setBit (x : BitVec 8) (i : ℕ) (v v' : Bool) : setBit (setBit x i v) i v' = setBit x i v' := by
  refine BitVec.eq_of_getLsbD_eq fun j hj => ?_
  rw [getLsbD_setBit hj, getLsbD_setBit hj, getLsbD_setBit hj]
  split_ifs <;> rfl

/-- What is not written does not change. -/
theorem change_bt {t : BitTest} (h : t.writes = false) (v : Bool) : t.change v = v := by
  cases t with
  | bt => rfl
  | _ => cases h

/-- A byte of an item has eight of its bits. -/
theorem getLsbD_itemBytes {w : Width} (v : BitVec w.bits) {i j : ℕ} (hj : j < Paging.bytes w) (hi : i < 8) :
    ((itemBytes w v).getD j 0).getLsbD i = v.getLsbD (8 * j + i) := by
  cases w with
  | byte =>
    obtain rfl : j = 0 := Nat.lt_one_iff.mp hj
    simp [itemBytes]
  | word =>
    have hj : j < 2 := hj
    obtain rfl | rfl : j = 0 ∨ j = 1 := by omega
    all_goals simp [itemBytes, wordBytes, hi]
  | dword =>
    have hlow : 8 + i < 16 := by omega
    have hj : j < 4 := hj
    obtain rfl | rfl | rfl | rfl : j = 0 ∨ j = 1 ∨ j = 2 ∨ j = 3 := by omega
    all_goals simp [itemBytes, dwordBytes, wordBytes, hi, hlow, Nat.lt_of_lt_of_le hi (by decide : 8 ≤ 16), ← Nat.add_assoc]

theorem getElem_eq_getD {α : Type} {l : List α} {j : ℕ} (hj : j < l.length) {d : α} : l[j] = l.getD j d := by
  rw [List.getD_eq_getElem?_getD, List.getElem?_eq_getElem hj, Option.getD_some]

theorem length_itemBytes {w : Width} (v : BitVec w.bits) : (itemBytes w v).length = Paging.bytes w := by
  cases w <;> rfl

/-- One bit of an item is changed in its byte. -/
theorem itemBytes_change {w : Width} {v v' : BitVec w.bits} {k : ℕ} {c : Bool}
    (h : ∀ i < w.bits, v'.getLsbD i = if i = k then c else v.getLsbD i) :
    itemBytes w v' = (itemBytes w v).set (k / 8) (setBit ((itemBytes w v).getD (k / 8) 0) (k % 8) c) := by
  have hbits : w.bits = 8 * Paging.bytes w := by cases w <;> rfl
  refine List.ext_getElem (by rw [List.length_set, length_itemBytes, length_itemBytes]) fun j hj hj' => ?_
  have hjw : j < Paging.bytes w := length_itemBytes v' ▸ hj
  have hjv : j < (itemBytes w v).length := length_itemBytes v ▸ hjw
  have hold : (itemBytes w v)[j] = (itemBytes w v).getD j 0 := getElem_eq_getD _
  have hnew : (itemBytes w v')[j] = (itemBytes w v').getD j 0 := getElem_eq_getD _
  rw [hnew, List.getElem_set]
  refine BitVec.eq_of_getLsbD_eq fun i hi => ?_
  rw [getLsbD_itemBytes v' hjw hi, h _ (by omega)]
  split_ifs with hk hj hj
  · rw [getLsbD_setBit hi, if_pos (by omega)]
  · omega
  · subst hj
    rw [getLsbD_setBit hi, if_neg (by omega), getLsbD_itemBytes v hjw hi]
  · rw [hold, getLsbD_itemBytes v hjw hi]

/-- The instruction reads the bit it is about. -/
theorem inst_cf (t : BitTest) (op1 op2 opSz : Word) (h : (op2 % opSz).toNat < 32) :
    (t.inst op1 op2 opSz).1 = op1.getLsbD (op2 % opSz).toNat := by
  have hand : decide (op1 &&& bitMask op2 opSz ≠ 0) = op1.getLsbD (op2 % opSz).toNat := by
    rw [Bool.eq_iff_iff, decide_eq_true_eq, ← Halves.and_twoPow_ne_zero _ h, BitVec.twoPow_eq]
    rfl
  cases t <;> exact hand

/-- …and changes no other. -/
theorem inst_bit (t : BitTest) (op1 op2 opSz : Word) {i : ℕ} (hi : i < 32) :
    (t.inst op1 op2 opSz).2.getLsbD i =
      if i = (op2 % opSz).toNat then t.change (op1.getLsbD i) else op1.getLsbD i := by
  have hmask : (bitMask op2 opSz).getLsbD i = decide (i = (op2 % opSz).toNat) := getLsbD_one_shiftLeft hi
  generalize (op2 % opSz).toNat = k at *
  cases t with
  | bt => exact (ite_self _).symm
  | bts =>
    change (op1 ||| bitMask op2 opSz).getLsbD i = _
    rw [BitVec.getLsbD_or, hmask]
    by_cases h : i = k <;> simp [h, BitTest.change]
  | btr =>
    change (op1 &&& ~~~bitMask op2 opSz).getLsbD i = _
    rw [BitVec.getLsbD_and, BitVec.getLsbD_not, hmask]
    by_cases h : i = k <;> simp [h, hi, BitTest.change]
  | btc =>
    change (op1 ^^^ bitMask op2 opSz).getLsbD i = _
    rw [BitVec.getLsbD_xor, hmask]
    by_cases h : i = k <;> simp [h, BitTest.change]

/-! ## An access -/

variable {b t env} {off : Word} {ram ram' : Ram}

/-- `op2 % op_sz`. -/
def bitNr (b : BitString) : ℕ := (b.op2 % b.opSz).toNat

theorem bits_eq (w : Width) : w.bits = 8 * Paging.bytes w := by cases w <;> rfl

theorem bitNr_lt (b : BitString) : b.bitNr < b.width.bits := by
  unfold bitNr opSz
  have hbits : b.width.bits % 2 ^ 32 = b.width.bits := by cases b.width <;> rfl
  rw [BitVec.toNat_umod, BitVec.toNat_ofNat, hbits]
  exact Nat.mod_lt _ (by cases b.width <;> decide)

theorem bits_le (b : BitString) : b.width.bits ≤ 32 := by cases hw : b.width <;> decide

/-- What is fetched is put back with one bit changed. -/
theorem put_change {q : ℕ → Word} {v : BitVec b.width.bits}
    (hv : itemBytes b.width v = ((List.range (Paging.bytes b.width)).map q).map ram)
    (hq : ((List.range (Paging.bytes b.width)).map q).Nodup) :
    let a := ((List.range (Paging.bytes b.width)).map q).getD (b.bitNr / 8) 0
    let r := t.inst (v.setWidth 32) b.op2 b.opSz
    r.1 = (ram a).getLsbD (b.bitNr % 8) ∧
      scatter (((List.range (Paging.bytes b.width)).map q).zip (itemBytes b.width (r.2.setWidth _))).reverse ram =
        Function.update ram a (setBit (ram a) (b.bitNr % 8) (t.change r.1)) := by
  intro a r
  have hk := b.bitNr_lt
  have hbits := bits_eq b.width
  have hle := b.bits_le
  have hj : b.bitNr / 8 < Paging.bytes b.width := by omega
  have hlist : b.bitNr / 8 < ((List.range (Paging.bytes b.width)).map q).length := by
    rwa [List.length_map, List.length_range]
  have ha : ((List.range (Paging.bytes b.width)).map q)[b.bitNr / 8] = a := getElem_eq_getD hlist
  have hbyte : (itemBytes b.width v).getD (b.bitNr / 8) 0 = ram a := by
    rw [hv, ← getElem_eq_getD (by rwa [List.length_map]), List.getElem_map, ha]
  have hcf : r.1 = v.getLsbD b.bitNr := by
    have hsmall : b.bitNr < 32 := hk.trans_le hle
    refine (inst_cf t _ _ _ hsmall).trans ?_
    rw [BitVec.getLsbD_setWidth]
    exact (Bool.and_eq_right_iff_imp.mpr fun _ => decide_eq_true hsmall)
  refine ⟨?_, ?_⟩
  · rw [hcf, ← hbyte, getLsbD_itemBytes v hj (Nat.mod_lt _ (by decide)), Nat.div_add_mod]
  · have hchange := @itemBytes_change _ v (r.2.setWidth _) b.bitNr (t.change r.1) fun i hi => by
      rw [BitVec.getLsbD_setWidth, decide_eq_true hi, Bool.true_and]
      refine (inst_bit t _ _ _ (hi.trans_le hle)).trans ?_
      rw [BitVec.getLsbD_setWidth, decide_eq_true (hi.trans_le hle), Bool.true_and, hcf]
      by_cases h : i = b.bitNr
      · rw [if_pos h, h]
        exact if_pos rfl
      · rw [if_neg h]
        exact if_neg h
    have hfst : ((((List.range (Paging.bytes b.width)).map q).zip (itemBytes b.width (r.2.setWidth _))).map Prod.fst).Nodup := by
      rwa [List.map_fst_zip]
      rw [length_itemBytes, List.length_map, List.length_range]
    rw [scatter_reverse hfst, hchange, hbyte, hv, scatter_set hq ram _ hlist, ha]

/-- **An access is of one bit of one operand**. -/
theorem access_eq (b : BitString) (t : BitTest) (env : Surroundings) (off : Word) (ram : Ram) :
    b.access t env off ram = b.exactAt t env off b.bitNr ram := by
  unfold access exactAt
  by_cases htype : badType t env
  · rw [if_pos htype, faultIf_fault htype]
    rfl
  rw [if_neg htype, faultIf_pass htype]
  by_cases hlimit : b.pastLimit env off
  · rw [if_pos hlimit, faultIf_fault hlimit]
    rfl
  rw [if_neg hlimit, faultIf_pass hlimit]
  dsimp only
  generalize hla : (env.prot.sr env.reg).base + off = la
  have hchk : env.paging.usrChk b.width la t.writes ram = _ := usrChk_looks b.width la t.writes
  rw [← usrPlaces_item]
  cases h : env.paging.usrPlace b.width la t.writes with
  | error e =>
    rw [h] at hchk
    rw [usrPlaces_error h]
    exact bind_error hchk
  | ok phy =>
    obtain ⟨q, hq, hplaces⟩ := leads_of_usrPlace (n := Paging.bytes b.width) h (by cases b.width <;> decide)
    rw [h] at hchk
    rw [hplaces, bind_ok hchk]
    obtain ⟨v, hread, hv⟩ := (hq.either false).virRead ram
    obtain ⟨hcf, hput⟩ := put_change (t := t) hv (hq.nodup (by cases b.width <;> decide))
    rw [bind_ok hread]
    dsimp only
    rw [← hcf]
    generalize t.inst (v.setWidth 32) b.op2 b.opSz = r at hcf hput ⊢
    cases hw : t.writes with
    | true =>
      have hwrite := (hq.either true).virWrite (r.2.setWidth b.width.bits) ram
      rw [hput] at hwrite
      exact bind_ok hwrite
    | false =>
      rw [hcf, change_bt hw, setBit_self, Function.update_eq_self]
      rfl

/-! ## Where the operand is -/

/-- The shift and the mask count whole operands. -/
theorem toNat_shift_mask (x : Word) (k : ℕ) :
    ((x >>> 3) &&& ~~~(.ofNat 32 (2 ^ k - 1))).toNat = 2 ^ k * (x.toNat / (8 * 2 ^ k)) := by
  have hbits : (x >>> 3) &&& ~~~(.ofNat 32 (2 ^ k - 1)) = (x >>> (3 + k)) <<< k := by
    refine BitVec.eq_of_getLsbD_eq fun i hi => ?_
    rw [BitVec.getLsbD_and, BitVec.getLsbD_not, BitVec.getLsbD_ushiftRight, BitVec.getLsbD_ofNat,
      Nat.testBit_two_pow_sub_one, BitVec.getLsbD_shiftLeft, BitVec.getLsbD_ushiftRight, decide_eq_true hi,
      Bool.true_and, Bool.true_and, Bool.true_and, Bool.and_comm]
    by_cases hk : i < k
    · rw [decide_eq_true hk]
      rfl
    · rw [decide_eq_false hk, show 3 + k + (i - k) = 3 + i by omega]
  have hdiv : x.toNat / (8 * 2 ^ k) * 2 ^ k ≤ x.toNat := by
    rw [Nat.mul_comm 8, ← Nat.div_div_eq_div_mul]
    exact (Nat.mul_le_mul_right _ (Nat.div_le_self _ _)).trans (Nat.div_mul_le_self _ _)
  rw [hbits, BitVec.toNat_shiftLeft, BitVec.toNat_ushiftRight, Nat.shiftRight_eq_div_pow, Nat.pow_add,
    Nat.shiftLeft_eq, Nat.mod_eq_of_lt (hdiv.trans_lt x.isLt), Nat.mul_comm]

theorem toNat_disp (b : BitString) : b.disp.toNat = Paging.bytes b.width * (b.op2.toNat / b.width.bits) := by
  unfold disp width
  cases b.size with
  | use16 => exact toNat_shift_mask b.op2 1
  | use32 => exact toNat_shift_mask b.op2 2

/-- The register, as a signed number. -/
theorem index_eq (b : BitString) :
    b.op2.toNat < 2 ^ b.width.bits ∧
      b.index = if 2 * b.op2.toNat < 2 ^ b.width.bits then (b.op2.toNat : ℤ) else b.op2.toNat - 2 ^ b.width.bits := by
  unfold index op2 width
  cases b.size with
  | use16 =>
    have hlt := (b.gr.setWidth 16).isLt
    have hop : ((b.gr.setWidth 16).setWidth 32).toNat = (b.gr.setWidth 16).toNat := by
      rw [BitVec.toNat_setWidth]
      omega
    dsimp only [OperandSize.width]
    rw [hop, BitVec.toInt_eq_toNat_cond]
    exact ⟨hlt, by norm_cast⟩
  | use32 => exact ⟨b.gr.isLt, by dsimp only [OperandSize.width]; rw [BitVec.toInt_eq_toNat_cond]; norm_cast⟩

/-- The bit of the operand is right in any case. -/
theorem bit_eq (b : BitString) : b.bit = b.bitNr := by
  obtain ⟨-, hindex⟩ := b.index_eq
  have hnr : b.bitNr = b.op2.toNat % b.width.bits := by
    unfold bitNr opSz
    have hbits : b.width.bits % 2 ^ 32 = b.width.bits := by cases b.width <;> rfl
    rw [BitVec.toNat_umod, BitVec.toNat_ofNat, hbits]
  unfold bit
  rw [hnr, hindex]
  cases b.width <;> dsimp only [Width.bits] <;> omega

/-- The displacement leaves out the sign, which stands for `s` bytes. -/
theorem before_eq (b : BitString) : ∃ s, (s = 2 ^ 13 ∨ s = 2 ^ 29) ∧ b.disp.toNat < s ∧
    (0 ≤ b.index ∧ b.before = b.disp.toNat ∨
      b.index < 0 ∧ s ≤ 2 * b.disp.toNat ∧ b.before = b.disp.toNat - s) := by
  obtain ⟨hlt, hindex⟩ := b.index_eq
  have hdisp := b.toNat_disp
  unfold before
  cases hw : b.width <;> rw [hw] at hlt hindex hdisp <;> dsimp only [Width.bits, Paging.bytes] at hlt hindex hdisp ⊢
  · exact absurd hw (by unfold width; cases b.size <;> nofun)
  · refine ⟨2 ^ 13, .inl rfl, by omega, ?_⟩
    split_ifs at hindex
    · exact .inl (by omega)
    · exact .inr (by omega)
  · refine ⟨2 ^ 29, .inr rfl, by omega, ?_⟩
    split_ifs at hindex
    · exact .inl (by omega)
    · exact .inr (by omega)

/-- **Where the operand is the right one**. -/
theorem located_iff (b : BitString) : b.located = b.off + b.disp ↔ b.Within := by
  obtain ⟨s, hs, hd, hbefore⟩ := b.before_eq
  have hoff := b.off_lt
  have hoff' := b.off.isLt
  rw [← BitVec.toNat_inj, BitVec.toNat_add]
  unfold located Within
  rw [BitVec.toNat_ofInt]
  generalize b.disp.toNat = d at hd hbefore ⊢
  rcases hbefore with ⟨hpos, hbefore⟩ | ⟨hneg, hhalf, hbefore⟩ <;> rw [hbefore]
  · rw [and_iff_right hpos]
    clear hbefore hpos
    cases ha : b.addr32
    · have := hoff ha
      rcases hs with rfl | rfl <;> simp only [Bool.false_eq_true, if_false, false_or] <;> omega
    · rcases hs with rfl | rfl <;> simp only [if_true, true_or, iff_true] <;> omega
  · refine iff_of_false (fun h => ?_) fun h => absurd h.1 (Int.not_le.mpr hneg)
    clear hbefore hneg
    cases ha : b.addr32 <;> rw [ha] at h
    · have := hoff ha
      rcases hs with rfl | rfl <;> simp only [Bool.false_eq_true, if_false] at h <;> omega
    · rcases hs with rfl | rfl <;> simp only [if_true] at h <;> omega

/-! ## The bit that is meant -/

/-- An access that completes. -/
theorem exactAt_ok {bit : ℕ} {cf : Bool} :
    b.exactAt t env off bit ram = .ok cf ram' ↔
      badType t env = false ∧ ¬b.pastLimit env off ∧
        ∃ l, env.paging.places ((env.prot.sr env.reg).base + off) (Paging.bytes b.width) t.writes = .ok l ∧
          cf = (ram (l.getD (bit / 8) 0)).getLsbD (bit % 8) ∧
          ram' = Function.update ram (l.getD (bit / 8) 0)
            (setBit (ram (l.getD (bit / 8) 0)) (bit % 8) (t.change cf)) := by
  unfold exactAt
  by_cases htype : badType t env
  · rw [if_pos htype]
    exact iff_of_false (fun h => by cases h) fun h => Bool.false_ne_true (h.1.symm.trans htype)
  rw [if_neg htype, and_iff_right (Bool.eq_false_iff.mpr htype)]
  by_cases hlimit : b.pastLimit env off
  · rw [if_pos hlimit]
    exact iff_of_false (fun h => by cases h) fun h => h.1 hlimit
  rw [if_neg hlimit, and_iff_right hlimit]
  cases env.paging.places ((env.prot.sr env.reg).base + off) (Paging.bytes b.width) t.writes with
  | error e => exact iff_of_false (fun h => by cases h) fun ⟨l, hl, _⟩ => by cases hl
  | ok l =>
    constructor
    · intro h
      cases h
      exact ⟨l, rfl, rfl, rfl⟩
    · rintro ⟨l, hl, rfl, rfl⟩
      cases hl
      rfl

/-- No limits and no pages. -/
def unpaged : Surroundings where
  prot := { pe := false, vm := false, cpl := 0, sr := fun _ => { r := true, w := true }, gdt := {}, idt := {}, ldt := {}, tr := {} }
  reg := .ds
  paging := { pg := false, cpl := 0, pages := fun _ => none }

theorem exactAt_unpaged {bit : ℕ} (hbit : bit / 8 < Paging.bytes b.width) :
    ∃ t', b.exactAt t unpaged off bit ram = .ok ((ram (off + .ofNat 32 (bit / 8))).getLsbD (bit % 8)) t' := by
  refine ⟨_, exactAt_ok.2 ⟨by cases t <;> rfl, fun h => Bool.false_ne_true h.1,
    (List.range (Paging.bytes b.width)).map fun i => off + .ofNat 32 i, ?_, ?_, rfl⟩⟩
  · refine mapM_ok fun i _ => ?_
    change Except.ok ((0 : Word) + off + .ofNat 32 i) = _
    exact congrArg (fun a => Except.ok (a + BitVec.ofNat 32 i)) (BitVec.zero_add off)
  · rw [← getElem_eq_getD (by rwa [List.length_map, List.length_range]), List.getElem_map, List.getElem_range]

/-- **Where the bit that is meant is tested and changed**. -/
theorem exact_iff (b : BitString) (t : BitTest) : b.Exact t ↔ b.Within := by
  have hk : b.bitNr / 8 < Paging.bytes b.width := by
    have := b.bitNr_lt
    have := bits_eq b.width
    omega
  rw [← located_iff]
  unfold Exact run
  rw [bit_eq]
  constructor
  · intro h
    by_contra hne
    -- Memory is zero but where the bit is.
    let ram : Ram := fun a => if a = b.located + .ofNat 32 (b.bitNr / 8) then 0xff else 0
    have hrun := h unpaged ram
    rw [access_eq] at hrun
    obtain ⟨t₁, h₁⟩ := @exactAt_unpaged b t (b.off + b.disp) ram _ hk
    obtain ⟨t₂, h₂⟩ := @exactAt_unpaged b t b.located ram _ hk
    rw [h₁, h₂] at hrun
    injection hrun with hcf
    have hzero : ram (b.off + b.disp + .ofNat 32 (b.bitNr / 8)) = 0 :=
      if_neg fun heq => hne ((BitVec.add_left_inj _).mp heq).symm
    have hones : ram (b.located + .ofNat 32 (b.bitNr / 8)) = 0xff := if_pos rfl
    rw [hzero, hones] at hcf
    have hbit : ∀ i < 8, (0 : BitVec 8).getLsbD i ≠ (0xff : BitVec 8).getLsbD i := by decide
    exact hbit _ (Nat.mod_lt _ (by decide)) hcf
  · intro h env ram
    rw [h, access_eq]

theorem setThenTested (b : BitString) : b.SetThenTested := by
  intro env ram ram' cf h
  unfold run at *
  rw [access_eq] at *
  obtain ⟨htype, hlimit, l, hl, -, rfl⟩ := exactAt_ok.1 h
  refine exactAt_ok.2 ⟨?_, hlimit, l, places_readable hl, ?_, ?_⟩
  · exact (Bool.or_eq_false_iff.mp htype).1
  · rw [Function.update_self, getLsbD_setBit (Nat.mod_lt _ (by decide)), if_pos rfl]
    rfl
  · rw [Function.update_self, Function.update_idem, setBit_setBit]
    rfl

theorem complementedTwice (b : BitString) : b.ComplementedTwice := by
  intro env ram ram' cf h
  unfold run at *
  rw [access_eq] at *
  obtain ⟨htype, hlimit, l, hl, hcf, rfl⟩ := exactAt_ok.1 h
  refine exactAt_ok.2 ⟨htype, hlimit, l, hl, ?_, ?_⟩
  · rw [Function.update_self, getLsbD_setBit (Nat.mod_lt _ (by decide)), if_pos rfl]
    rfl
  · have hback : BitTest.btc.change (!cf) = cf := Bool.not_not cf
    rw [Function.update_self, Function.update_idem, setBit_setBit, hback, hcf, setBit_self, Function.update_eq_self]

end BitString

/-- **Where the bit instructions reach the bit that is meant**; and they reach the same one each time. -/
theorem bit_strings_exact (b : BitString) :
    (∀ t, b.Exact t ↔ b.Within) ∧ b.SetThenTested ∧ b.ComplementedTwice :=
  ⟨b.exact_iff, b.setThenTested, b.complementedTwice⟩

/-- Bit −1 of a string at 0x1000 is not the one that is tested. -/
theorem bit_before_missed :
    ¬BitString.Exact ⟨.use32, true, 0x1000, fun h => absurd h Bool.noConfusion, 0xffffffff⟩ .bt := by
  intro h
  have hrun := h BitString.unpaged fun a => if a = 0xfff then 0x80 else 0
  injection hrun with hcf
  exact absurd hcf (by decide)

end SoftPC.Ccpu
