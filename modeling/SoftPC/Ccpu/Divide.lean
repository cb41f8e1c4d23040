import SoftPC.Ccpu.Multiply
import SoftPC.Machinery.Faulting
import SoftPC.Machinery.LongDivision

/-!
# Ccpu/Divide — quotients

`base/ccpu386/div.c`, `idiv.c` and `c_div64.c`, and the cases of `c_main.c` that call them.  Bytes and words are
divided by the host, on operands extended to its size; a double word divides two, a bit at a time:

      par_div │ hd │ ld  ◂── 0
         ▾         └── quotient
      divisor ≤ par_div ?

A divisor of zero, or a quotient too large for its register, is the divide exception, with nothing stored.  C
leaves a division by zero undefined, and that of the least number by -1: `hostDiv` and `hostRem` stop there.
-/

namespace SoftPC.Ccpu

open Halves LongDivision

/-! ## The host -/

/-- What ends a division early: `Int0`, or a division that C leaves undefined. -/
inductive DivStop where
  | int0
  | undefined
  deriving DecidableEq

/-- A division under way. -/
abbrev Division := EStateM DivStop Accumulator

/-- `/` of the host: of `IU32`, or of `IS32`, which has no quotient for its least number and -1. -/
def hostDivU (a b : Word) : Division Word := if b = 0 then throw .undefined else pure (a / b)
def hostDivS (a b : Word) : Division Word :=
  if b = 0 ∨ (a = BitVec.intMin 32 ∧ b = -1) then throw .undefined else pure (a.sdiv b)

/-- `%` of the host. -/
def hostRemU (a b : Word) : Division Word := if b = 0 then throw .undefined else pure (a % b)
def hostRemS (a b : Word) : Division Word :=
  if b = 0 ∨ (a = BitVec.intMin 32 ∧ b = -1) then throw .undefined else pure (a.srem b)

/-! ## Double words -/

/-- The dividend, which becomes the quotient, and the partial dividend. -/
structure Dividing where
  hd : Word
  ld : Word
  parDiv : Word

/-- The loop of `divu64`, once: `BIT31_MASK` tells what each shift carries. -/
def divu64Step (divisor : Word) (s : Dividing) : Dividing :=
  let carry1 : Word := if s.ld &&& 0x80000000 ≠ 0 then 1 else 0
  let carry2 : Word := if s.hd &&& 0x80000000 ≠ 0 then 1 else 0
  let carry3 : Word := if s.parDiv &&& 0x80000000 ≠ 0 then 1 else 0
  let ld := s.ld <<< 1
  let hd := s.hd <<< 1 ||| carry1
  let parDiv := s.parDiv <<< 1 ||| carry2
  if carry3 ≠ 0 ∨ divisor ≤ parDiv then ⟨hd, ld ||| 1, parDiv - divisor⟩ else ⟨hd, ld, parDiv⟩

/-- `divu64`: the quotient, as its high and its low word, and the remainder. -/
def divu64 (hr lr divisor : Word) : (Word × Word) × Word :=
  let s := (divu64Step divisor)^[64] ⟨hr, lr, 0⟩
  ((s.hd, s.ld), s.parDiv)

def div64 (hr lr divisor : Word) : (Word × Word) × Word :=
  if hr &&& 0x80000000 ≠ 0 then
    let (hr, lr) := neg64 (hr, lr)
    if divisor &&& 0x80000000 ≠ 0 then
      let (quotient, rem) := divu64 hr lr (-divisor)
      (quotient, -rem)
    else
      let (quotient, rem) := divu64 hr lr divisor
      (neg64 quotient, -rem)
  else if divisor &&& 0x80000000 ≠ 0 then
    let (quotient, rem) := divu64 hr lr (-divisor)
    (neg64 quotient, rem)
  else divu64 hr lr divisor

/-! ## The instructions -/

/-- The flags that DIV leaves, and those that IDIV does: `UNDEFINED_FLAG` is 0. -/
def divFlags (r : Accumulator) : Accumulator :=
  { r with flags := { r.flags with cf := true, zf := false, sf := false, of := false, pf := false, af := false } }
def idivFlags (r : Accumulator) : Accumulator :=
  { r with flags := { r.flags with cf := false, zf := false, sf := false, of := false, pf := false, af := false } }

/-- A division by the host, of an operand of the instruction, by `op2` extended: the quotient is stored if it is
not too large, and then the remainder. -/
def hostDivide (op1 : Accumulator → Word) (op2 extended : Word) (div rem : Word → Word → Division Word)
    (tooLarge : Word → Bool) (setQuotient setRemainder : Word → Accumulator → Accumulator) : Division PUnit := do
  faultIf (op2 = 0) .int0
  let op1 := op1 (← get)
  let result ← div op1 extended
  faultIf (tooLarge result) .int0
  modify (setQuotient result)
  let remainder ← rem op1 extended
  modify (setRemainder remainder)

def div8 (op2 : Word) : Division PUnit :=
  hostDivide (fun r => r.ax.setWidth 32) op2 op2 hostDivU hostRemU (fun result => result &&& 0xff00 ≠ 0)
    (fun result r => r.setAl (result.setWidth 8)) fun rem r => divFlags (r.setAh (rem.setWidth 8))

def div16 (op2 : Word) : Division PUnit :=
  hostDivide (fun r => r.dx.setWidth 32 <<< 16 ||| r.ax.setWidth 32) op2 op2 hostDivU hostRemU
    (fun result => result &&& 0xffff0000 ≠ 0)
    (fun result r => r.setAx (result.setWidth 16)) fun rem r => divFlags (r.setDx (rem.setWidth 16))

def div32 (op2 : Word) : Division PUnit := do
  faultIf (op2 = 0) .int0
  let r ← get
  let ((hr, lr), rem) := divu64 r.edx r.eax op2
  faultIf (hr ≠ 0) .int0
  set (divFlags { r with eax := lr, edx := rem })

/-- `IDIV8`: both operands are sign extended. -/
def idiv8 (op2 : Word) : Division PUnit :=
  hostDivide (fun r => hostSized 0x8000 0xffff (r.ax.setWidth 32)) op2 (hostSized 0x80 0xff op2) hostDivS hostRemS
    (mixed 0xff80)
    (fun sresult r => r.setAl (sresult.setWidth 8)) fun srem r => idivFlags (r.setAh (srem.setWidth 8))

/-- `IDIV16`: the dividend is of the host's size already. -/
def idiv16 (op2 : Word) : Division PUnit :=
  hostDivide (fun r => r.dx.setWidth 32 <<< 16 ||| r.ax.setWidth 32) op2 (hostSized 0x8000 0xffff op2) hostDivS hostRemS
    (mixed 0xffff8000)
    (fun sresult r => r.setAx (sresult.setWidth 16)) fun srem r => idivFlags (r.setDx (srem.setWidth 16))

def idiv32 (op2 : Word) : Division PUnit := do
  faultIf (op2 = 0) .int0
  let r ← get
  let ((shr, slr), srem) := div64 r.edx r.eax op2
  faultIf (overflows shr slr) .int0
  set (idivFlags { r with eax := slr, edx := srem })

/-- DIV and IDIV of a byte, a word or a double word, as the instruction fetches it. -/
def divide (signed : Bool) (w : Width) (op : BitVec w.bits) : Division PUnit :=
  match signed, w with
  | false, .byte => div8 (op.setWidth 32)
  | false, .word => div16 (op.setWidth 32)
  | false, .dword => div32 (op.setWidth 32)
  | true, .byte => idiv8 (op.setWidth 32)
  | true, .word => idiv16 (op.setWidth 32)
  | true, .dword => idiv32 (op.setWidth 32)

/-! ## Double words are divided exactly -/

/-- The registers of the loop as one. -/
def Dividing.work (s : Dividing) : Work := ⟨(s.hd ++ s.ld).toNat, s.parDiv.toNat⟩

theorem and_bit31_toNat (x : Word) : (x &&& 0x80000000 ≠ 0) ↔ 2 ^ 31 ≤ x.toNat := by
  rw [and_bit31, BitVec.msb_eq_decide, decide_eq_true_eq]

/-- **The loop is long division**. -/
theorem work_divu64Step {divisor : Word} {s : Dividing} (hpart : s.parDiv.toNat < divisor.toNat) :
    (divu64Step divisor s).work = LongDivision.step 64 divisor.toNat s.work := by
  have hd := s.hd.isLt
  have hl := s.ld.isLt
  have hp := s.parDiv.isLt
  have hdivisor := divisor.isLt
  have hone (x : Word) : (x <<< 1 ||| 1).toNat = 2 * x.toNat % 2 ^ 32 + 1 := toNat_shift_bit (by decide) x True
  have hshift (x y : Word) : (x <<< 1 ||| if y &&& 0x80000000 ≠ 0 then 1 else 0).toNat =
      2 * x.toNat % 2 ^ 32 + y.toNat / 2 ^ 31 := by
    have hy := y.isLt
    rw [toNat_shift_bit (by decide), if_congr (and_bit31_toNat _) rfl rfl]
    split_ifs <;> omega
  have hcarry3 : ((if s.parDiv &&& 0x80000000 ≠ 0 then 1 else 0 : Word) ≠ 0) ↔ 2 ^ 31 ≤ s.parDiv.toNat := by
    rw [← and_bit31_toNat]
    exact ⟨fun hne => by_contra fun h => hne (if_neg h), fun h => by rw [if_pos h]; decide⟩
  have hgoes : ((if s.parDiv &&& 0x80000000 ≠ 0 then 1 else 0 : Word) ≠ 0 ∨
      divisor ≤ s.parDiv <<< 1 ||| if s.hd &&& 0x80000000 ≠ 0 then 1 else 0) ↔
      divisor.toNat ≤ 2 * s.parDiv.toNat + s.hd.toNat / 2 ^ 31 := by
    rw [hcarry3, BitVec.le_def, hshift]
    omega
  have htop : (s.hd ++ s.ld).toNat / 2 ^ (64 - 1) = s.hd.toNat / 2 ^ 31 := by
    rw [toNat_append]
    omega
  unfold divu64Step LongDivision.step Dividing.work
  dsimp only
  rw [htop]
  by_cases hgo : divisor.toNat ≤ 2 * s.parDiv.toNat + s.hd.toNat / 2 ^ 31
  · rw [if_pos (hgoes.mpr hgo), if_pos hgo]
    dsimp only
    rw [toNat_append, toNat_append, hone, BitVec.toNat_sub, hshift, hshift, Work.mk.injEq]
    omega
  · rw [if_neg (mt hgoes.mp hgo), if_neg hgo]
    dsimp only
    rw [toNat_append, toNat_append, hshift, hshift, BitVec.toNat_shiftLeft, Nat.shiftLeft_eq, Work.mk.injEq]
    omega

/-- **`divu64`** gives the quotient and the remainder. -/
theorem divu64_eq (hr lr : Word) {divisor : Word} (hdivisor : divisor ≠ 0) :
    ((divu64 hr lr divisor).1.1 ++ (divu64 hr lr divisor).1.2).toNat = (hr ++ lr).toNat / divisor.toNat ∧
      (divu64 hr lr divisor).2.toNat = (hr ++ lr).toNat % divisor.toNat := by
  have hpos : 0 < divisor.toNat := Nat.pos_of_ne_zero fun h => hdivisor (BitVec.eq_of_toNat_eq h)
  have hstands : ∀ i m, m + i = 64 → ∃ q, Stands (hr ++ lr).toNat divisor.toNat m i q
      ((divu64Step divisor)^[i] ⟨hr, lr, 0⟩).work := by
    intro i
    induction i with
    | zero =>
      rintro m rfl
      exact ⟨0, .start hpos (hr ++ lr).isLt⟩
    | succ i ih =>
      intro m hm
      obtain ⟨q, hq⟩ := ih (m + 1) (by omega)
      obtain ⟨q', hq'⟩ := hq.step
      refine ⟨q', ?_⟩
      rw [Function.iterate_succ_apply', work_divu64Step hq.part]
      rwa [show m + 1 + i = 64 by omega] at hq'
  obtain ⟨q, hq⟩ := hstands 64 0 rfl
  have hwork := hq.result
  exact ⟨congrArg Work.rest hwork, congrArg Work.part hwork⟩

/-- **`div64`** gives the truncated quotient, and the remainder of the dividend's sign. -/
theorem div64_eq (hr lr : Word) {divisor : Word} (hdivisor : divisor ≠ 0) :
    (div64 hr lr divisor).1.1 ++ (div64 hr lr divisor).1.2 = BitVec.ofInt 64 ((hr ++ lr).toInt.tdiv divisor.toInt) ∧
      (div64 hr lr divisor).2 = BitVec.ofInt 32 ((hr ++ lr).toInt.tmod divisor.toInt) := by
  have hunsigned {n : ℕ} {x : BitVec n} {k : ℕ} (h : x.toNat = k) : x = BitVec.ofInt n k := by
    rw [BitVec.ofInt_natCast, ← h, BitVec.ofNat_toNat, BitVec.setWidth_eq]
  have hneg : -divisor ≠ 0 := fun h => hdivisor (by simpa using h)
  have hmsb : (hr ++ lr).msb = hr.msb := by rw [BitVec.msb_append]; rfl
  have habs : ((neg64 (hr, lr)).1 ++ (neg64 (hr, lr)).2).toNat = (-(hr ++ lr)).toNat := by rw [neg64_append]
  unfold div64
  simp only [and_bit31]
  by_cases ha : hr.msb = true
  · rw [if_pos ha, toInt_of_negative (hmsb ▸ ha)]
    by_cases hb : divisor.msb = true
    · obtain ⟨hq, hrem⟩ := divu64_eq (neg64 (hr, lr)).1 (neg64 (hr, lr)).2 hneg
      rw [habs] at hq hrem
      rw [if_pos hb, toInt_of_negative hb, Int.neg_tdiv_neg, Int.neg_tmod, Int.tmod_neg, BitVec.ofInt_neg,
        ← Int.ofNat_tdiv, ← Int.ofNat_tmod, ← hunsigned hq, ← hunsigned hrem]
      exact ⟨rfl, rfl⟩
    · obtain ⟨hq, hrem⟩ := divu64_eq (neg64 (hr, lr)).1 (neg64 (hr, lr)).2 hdivisor
      rw [habs] at hq hrem
      rw [if_neg hb, toInt_of_positive hb, Int.neg_tdiv, Int.neg_tmod, BitVec.ofInt_neg, BitVec.ofInt_neg,
        ← Int.ofNat_tdiv, ← Int.ofNat_tmod, ← hunsigned hq, ← hunsigned hrem]
      exact ⟨neg64_append _, rfl⟩
  · rw [if_neg ha, toInt_of_positive (hmsb ▸ ha)]
    by_cases hb : divisor.msb = true
    · obtain ⟨hq, hrem⟩ := divu64_eq hr lr hneg
      rw [if_pos hb, toInt_of_negative hb, Int.tdiv_neg, Int.tmod_neg, BitVec.ofInt_neg, ← Int.ofNat_tdiv,
        ← Int.ofNat_tmod, ← hunsigned hq, ← hunsigned hrem]
      exact ⟨neg64_append _, rfl⟩
    · obtain ⟨hq, hrem⟩ := divu64_eq hr lr hdivisor
      rw [if_neg hb, toInt_of_positive hb, ← Int.ofNat_tdiv, ← Int.ofNat_tmod, ← hunsigned hq, ← hunsigned hrem]
      exact ⟨rfl, rfl⟩

/-! ## What a division does -/

/-- A number, signed or not. -/
def value (signed : Bool) {n : ℕ} (x : BitVec n) : ℤ := if signed then x.toInt else x.toNat

/-- The numbers of `n` bits. -/
def Fits (signed : Bool) (n : ℕ) (z : ℤ) : Prop :=
  if signed then -2 ^ (n - 1) ≤ z ∧ z < 2 ^ (n - 1) else 0 ≤ z ∧ z < 2 ^ n

instance (signed : Bool) (n : ℕ) (z : ℤ) : Decidable (Fits signed n z) := inferInstanceAs (Decidable (ite _ _ _))

namespace Accumulator

variable (r : Accumulator)

/-- What is divided: AX, DX and AX, or EDX and EAX. -/
def dividend (w : Width) : BitVec (w.bits + w.bits) :=
  match w with
  | .byte => r.ax
  | .word => r.dx ++ r.ax
  | .dword => r.edx ++ r.eax

/-- The quotient and the remainder in their registers. -/
def divided (w : Width) (quotient remainder : BitVec w.bits) : Accumulator :=
  match w with
  | .byte => (r.setAl quotient).setAh remainder
  | .word => (r.setAx quotient).setDx remainder
  | .dword => { r with eax := quotient, edx := remainder }

end Accumulator

/-- **A division as it should be**: the divide exception with nothing changed, for a divisor of zero or a quotient
that does not fit; or the quotient, and the remainder with the sign of the dividend. -/
def Divides (signed : Bool) (w : Width) (op : BitVec w.bits) (r : Accumulator) :
    EStateM.Result DivStop Accumulator PUnit → Prop
  | .ok _ r' => op ≠ 0 ∧ Fits signed w.bits ((value signed (r.dividend w)).tdiv (value signed op)) ∧
      ∃ quotient remainder : BitVec w.bits, r' = { r.divided w quotient remainder with flags := r'.flags } ∧
        value signed (r.dividend w) = value signed quotient * value signed op + value signed remainder ∧
        |value signed remainder| < |value signed op| ∧
        (remainder = 0 ∨ (value signed remainder).sign = (value signed (r.dividend w)).sign)
  | .error .int0 r' => r' = r ∧ (op = 0 ∨ ¬Fits signed w.bits ((value signed (r.dividend w)).tdiv (value signed op)))
  | .error .undefined _ => False

theorem value_ofInt {signed : Bool} {n : ℕ} {z : ℤ} (hn : 0 < n) (hfits : Fits signed n z) :
    value signed (BitVec.ofInt n z) = z := by
  cases signed with
  | true => exact BitVec.toInt_ofInt_eq_self hn hfits.1 hfits.2
  | false =>
    obtain ⟨hle, hlt⟩ : 0 ≤ z ∧ z < 2 ^ n := hfits
    change ((BitVec.ofInt n z).toNat : ℤ) = z
    rw [BitVec.toNat_ofInt, Int.emod_eq_of_lt hle (by exact_mod_cast hlt), Int.toNat_of_nonneg hle]

/-- What a number leaves is smaller than it, and not negative where there are no negative numbers. -/
theorem fits_tmod (signed : Bool) {n : ℕ} (x : BitVec n) {z : ℤ} (hz : signed = false → 0 ≤ z)
    (hx : value signed x ≠ 0) : Fits signed n (z.tmod (value signed x)) := by
  have hsmall : (z.tmod (value signed x)).natAbs < (value signed x).natAbs := by
    rw [Int.natAbs_tmod]
    exact Nat.mod_lt _ (Int.natAbs_pos.mpr hx)
  cases signed with
  | true =>
    have hle : -2 ^ (n - 1) ≤ value true x := BitVec.le_toInt x
    have hlt : value true x < 2 ^ (n - 1) := BitVec.toInt_lt
    exact ⟨by omega, by omega⟩
  | false =>
    have hnonneg := Int.tmod_nonneg (value false x) (hz rfl)
    have hpos : 0 ≤ value false x := Int.natCast_nonneg _
    have hlt : value false x < 2 ^ n := by
      change ((x.toNat : ℤ)) < 2 ^ n
      exact_mod_cast x.isLt
    exact ⟨hnonneg, by omega⟩

theorem value_ne_zero (signed : Bool) {n : ℕ} {x : BitVec n} (hx : x ≠ 0) : value signed x ≠ 0 := by
  intro h
  cases signed with
  | true => exact hx (BitVec.eq_of_toInt_eq (h.trans BitVec.toInt_zero.symm))
  | false => exact hx (BitVec.eq_of_toNat_eq ((Int.natCast_eq_zero.mp h).trans BitVec.toNat_zero.symm))

/-- **A division that fits**. -/
theorem divides_ok {signed : Bool} {w : Width} {op : BitVec w.bits} {r : Accumulator} (hop : op ≠ 0)
    (hfits : Fits signed w.bits ((value signed (r.dividend w)).tdiv (value signed op))) (flags : Flags) :
    Divides signed w op r (.ok ⟨⟩ { r.divided w
      (BitVec.ofInt w.bits ((value signed (r.dividend w)).tdiv (value signed op)))
      (BitVec.ofInt w.bits ((value signed (r.dividend w)).tmod (value signed op))) with flags := flags }) := by
  have hw : 0 < w.bits := by cases w <;> decide
  have hne := value_ne_zero signed hop
  have hnonneg : signed = false → 0 ≤ value signed (r.dividend w) := by
    rintro rfl
    exact Int.natCast_nonneg _
  have hquotient := value_ofInt hw hfits
  have hremainder := value_ofInt hw (fits_tmod signed op hnonneg hne)
  refine ⟨hop, hfits, _, _, rfl, ?_, ?_, ?_⟩
  · rw [hquotient, hremainder, Int.tdiv_mul_add_tmod]
  · rw [hremainder, Int.abs_eq_natAbs, Int.abs_eq_natAbs, Int.natAbs_tmod]
    exact_mod_cast Nat.mod_lt _ (Int.natAbs_pos.mpr hne)
  · rw [hremainder, Int.sign_tmod]
    by_cases hdvd : value signed op ∣ value signed (r.dividend w)
    · exact .inl (by rw [Int.tmod_eq_zero_of_dvd hdvd]; exact BitVec.ofInt_natCast _ 0)
    · exact .inr (if_neg hdvd)

/-! ## The host's divisions -/

section

variable {op1 : Accumulator → Word} {op2 extended : Word} {div rem : Word → Word → Division Word} {tooLarge : Word → Bool}
  {setQuotient setRemainder : Word → Accumulator → Accumulator} {r : Accumulator}

theorem hostDivide_zero :
    hostDivide op1 0 extended div rem tooLarge setQuotient setRemainder r = .error .int0 r := by
  rw [hostDivide, faultIf_fault rfl]
  rfl

/-- What comes of a division that C defines. -/
theorem hostDivide_eq (hop : op2 ≠ 0) {q m : Word} (hdiv : div (op1 r) extended = pure q)
    (hrem : rem (op1 r) extended = pure m) :
    hostDivide op1 op2 extended div rem tooLarge setQuotient setRemainder r =
      if tooLarge q then .error .int0 r else .ok ⟨⟩ (setRemainder m (setQuotient q r)) := by
  have hget : (get : Division Accumulator) r = .ok r r := rfl
  rw [hostDivide, faultIf_pass hop, bind_ok hget, hdiv, pure_bind]
  by_cases hlarge : tooLarge q = true
  · rw [faultIf_fault hlarge, if_pos hlarge]
    rfl
  · have hmodify : (modify (setQuotient q) : Division PUnit) r = .ok ⟨⟩ (setQuotient q r) := rfl
    rw [faultIf_pass hlarge, if_neg hlarge, bind_ok hmodify, hrem, pure_bind]
    rfl

/-- …and of one that it does not. -/
theorem hostDivide_undefined (hop : op2 ≠ 0) (hdiv : div (op1 r) extended = throw .undefined) :
    hostDivide op1 op2 extended div rem tooLarge setQuotient setRemainder r = .error .undefined r := by
  have hget : (get : Division Accumulator) r = .ok r r := rfl
  rw [hostDivide, faultIf_pass hop, bind_ok hget, hdiv]
  rfl

end

/-- The quotient and the remainder, as numbers of the host. -/
theorem hostDivU_eq (a : Word) {b : Word} (hb : b ≠ 0) :
    hostDivU a b = pure (BitVec.ofInt 32 ((a.toNat : ℤ).tdiv b.toNat)) ∧
      hostRemU a b = pure (BitVec.ofInt 32 ((a.toNat : ℤ).tmod b.toNat)) := by
  refine ⟨(if_neg hb).trans (congrArg pure ?_), (if_neg hb).trans (congrArg pure ?_)⟩
  · rw [← Int.ofNat_tdiv, BitVec.ofInt_natCast, ← BitVec.toNat_udiv, BitVec.ofNat_toNat, BitVec.setWidth_eq]
  · rw [← Int.ofNat_tmod, BitVec.ofInt_natCast, ← BitVec.toNat_umod, BitVec.ofNat_toNat, BitVec.setWidth_eq]

theorem hostDivS_eq {a b : Word} (hb : b ≠ 0) (hdefined : ¬(a = BitVec.intMin 32 ∧ b = -1)) :
    hostDivS a b = pure (BitVec.ofInt 32 (a.toInt.tdiv b.toInt)) ∧
      hostRemS a b = pure (BitVec.ofInt 32 (a.toInt.tmod b.toInt)) := by
  have hnot : ¬(b = 0 ∨ (a = BitVec.intMin 32 ∧ b = -1)) := not_or.mpr ⟨hb, hdefined⟩
  refine ⟨(if_neg hnot).trans (congrArg pure ?_), (if_neg hnot).trans (congrArg pure ?_)⟩
  · exact BitVec.eq_of_toInt_eq (by rw [BitVec.toInt_sdiv, BitVec.toInt_ofInt])
  · rw [← BitVec.toInt_srem, BitVec.ofInt_toInt]

/-- The test of an unsigned quotient. -/
theorem tooLarge_unsigned (mask : Word) {n : ℕ} (hle : n + n ≤ 32)
    (hmask : ∀ i < 32, mask.getLsbD i = decide (n ≤ i ∧ i < n + n)) (dividend : BitVec (n + n)) (op : BitVec n) :
    (BitVec.ofInt 32 ((dividend.toNat : ℤ).tdiv op.toNat) &&& mask ≠ 0) ↔
      ¬Fits false n ((dividend.toNat : ℤ).tdiv op.toNat) := by
  have hlt : dividend.toNat / op.toNat < 2 ^ (n + n) := (Nat.div_le_self _ _).trans_lt dividend.isLt
  have hpow : 2 ^ (n + n) ≤ 2 ^ 32 := Nat.pow_le_pow_right (by decide) hle
  have hnat : (BitVec.ofInt 32 ((dividend.toNat : ℤ).tdiv op.toNat)).toNat = dividend.toNat / op.toNat := by
    rw [← Int.ofNat_tdiv, BitVec.ofInt_natCast, BitVec.toNat_ofNat, Nat.mod_eq_of_lt (hlt.trans_le hpow)]
  have hfits : Fits false n ((dividend.toNat : ℤ).tdiv op.toNat) ↔ dividend.toNat / op.toNat < 2 ^ n := by
    rw [← Int.ofNat_tdiv]
    exact ⟨fun h => by exact_mod_cast h.2, fun h => ⟨Int.natCast_nonneg _, by exact_mod_cast h⟩⟩
  rw [Ne, and_high_eq_zero hmask (hnat ▸ hlt), hnat, hfits]

/-- The test of a signed one. -/
theorem needsHigh_ofInt {n : ℕ} (hn : 0 < n) {q : ℤ} (hle : -2 ^ (n + n - 1) ≤ q) (hge : q ≤ 2 ^ (n + n - 1)) :
    NeedsHigh (BitVec.ofInt (n + n) q) ↔ ¬Fits true n q := by
  have hpow : (2 : ℤ) ^ (n - 1) < 2 ^ (n + n - 1) := by
    exact_mod_cast Nat.pow_lt_pow_right (a := 2) (by decide) (by omega : n - 1 < n + n - 1)
  have hint : q < 2 ^ (n + n - 1) → (BitVec.ofInt (n + n) q).toInt = q := BitVec.toInt_ofInt_eq_self (by omega) hle
  unfold NeedsHigh
  rw [not_iff_not, setWidth_ofInt (Nat.le_add_left n n)]
  refine ⟨fun h => ?_, fun h => BitVec.eq_of_toInt_eq ?_⟩
  · have heq := congrArg BitVec.toInt h
    rw [BitVec.toInt_signExtend_of_le (Nat.le_add_left n n)] at heq
    have hl := BitVec.le_toInt (BitVec.ofInt n q)
    have hu := BitVec.toInt_lt (x := BitVec.ofInt n q)
    by_cases hq : q < 2 ^ (n + n - 1)
    · rw [hint hq] at heq
      exact ⟨by omega, by omega⟩
    · -- The one number too large wraps to the least, which does not fit either.
      have htop : (2 : ℤ) ^ (n + n) = 2 * 2 ^ (n + n - 1) := by
        rw [← pow_succ', Nat.sub_add_cancel (by omega)]
      have hwrap : BitVec.ofInt (n + n) q = BitVec.ofInt (n + n) (q - (2 ^ (n + n) : ℕ)) :=
        BitVec.eq_of_toInt_eq (by rw [BitVec.toInt_ofInt, BitVec.toInt_ofInt, Int.sub_bmod_right])
      rw [hwrap, BitVec.toInt_ofInt_eq_self (by omega) (by push_cast; omega) (by push_cast; omega)] at heq
      push_cast at heq
      omega
  · have hq : q < 2 ^ (n + n - 1) := h.2.trans hpow
    rw [hint hq, BitVec.toInt_signExtend_of_le (Nat.le_add_left n n), BitVec.toInt_ofInt_eq_self hn h.1 h.2]

/-- A quotient is no larger than what is divided. -/
theorem tooLarge_signed {n : ℕ} (hn : 0 < n) (dividend : BitVec (n + n)) (op : BitVec n) :
    NeedsHigh (BitVec.ofInt (n + n) (dividend.toInt.tdiv op.toInt)) ↔ ¬Fits true n (dividend.toInt.tdiv op.toInt) := by
  have hle := BitVec.le_toInt dividend
  have hlt := BitVec.toInt_lt (x := dividend)
  have hsmall := Int.natAbs_tdiv_le_natAbs dividend.toInt op.toInt
  exact needsHigh_ofInt hn (by omega) (by omega)

theorem mixed_signed {n : ℕ} {mask : Word} (hn : 0 < n) (hle : n + n ≤ 32)
    (hmask : ∀ i < 32, mask.getLsbD i = decide (n - 1 ≤ i ∧ i < n + n)) (dividend : BitVec (n + n)) (op : BitVec n) :
    mixed mask (BitVec.ofInt 32 (dividend.toInt.tdiv op.toInt)) = true ↔
      ¬Fits true n (dividend.toInt.tdiv op.toInt) := by
  rw [mixed_eq n hn hle hmask, decide_eq_true_iff, setWidth_ofInt hle]
  exact tooLarge_signed hn dividend op

/-! ## The instructions divide -/

variable {r : Accumulator}

/-- A run that ends as a division should, by whether the quotient fits. -/
theorem divides_of_ite {signed : Bool} {w : Width} {op : BitVec w.bits} {x : EStateM.Result DivStop Accumulator PUnit}
    (hop : op ≠ 0) (flags : Flags) {c : Prop} [Decidable c]
    (hc : c ↔ ¬Fits signed w.bits ((value signed (r.dividend w)).tdiv (value signed op)))
    (hx : x = if c then .error .int0 r else .ok ⟨⟩ { r.divided w
      (BitVec.ofInt w.bits ((value signed (r.dividend w)).tdiv (value signed op)))
      (BitVec.ofInt w.bits ((value signed (r.dividend w)).tmod (value signed op))) with flags := flags }) :
    Divides signed w op r x := by
  rw [hx]
  by_cases hfits : c
  · rw [if_pos hfits]
    exact ⟨rfl, .inr (hc.mp hfits)⟩
  · rw [if_neg hfits]
    exact divides_ok hop (not_not.mp (mt hc.mpr hfits)) flags

/-- The dividend of a word, as the host has it. -/
theorem dividend_word (r : Accumulator) : r.dx.setWidth 32 <<< 16 ||| r.ax.setWidth 32 = r.dx ++ r.ax := by
  rw [← BitVec.setWidth_append_eq_shiftLeft_setWidth_or, BitVec.setWidth_eq]

theorem setWidth_ne_zero {m n : ℕ} (hmn : m ≤ n) {x : BitVec m} (hx : x ≠ 0) : x.setWidth n ≠ 0 := by
  intro h
  have hnat := congrArg BitVec.toNat h
  rw [BitVec.toNat_setWidth, Nat.mod_eq_of_lt (x.isLt.trans_le (Nat.pow_le_pow_right (by decide) hmn))] at hnat
  exact hx (BitVec.eq_of_toNat_eq (hnat.trans (by simp)))

theorem signExtend_ne_zero {m n : ℕ} (hmn : m ≤ n) {x : BitVec m} (hx : x ≠ 0) : x.signExtend n ≠ 0 := by
  intro h
  have hint := congrArg BitVec.toInt h
  rw [BitVec.toInt_signExtend_of_le hmn, BitVec.ofNat_eq_ofNat, BitVec.toInt_zero] at hint
  exact hx (BitVec.eq_of_toInt_eq (hint.trans BitVec.toInt_zero.symm))

theorem toNat_setWidth_of_le {m n : ℕ} (hmn : m ≤ n) (x : BitVec m) : (x.setWidth n).toNat = x.toNat := by
  rw [BitVec.toNat_setWidth, Nat.mod_eq_of_lt (x.isLt.trans_le (Nat.pow_le_pow_right (by decide) hmn))]

theorem divides_div8 {op : BitVec 8} (hop : op ≠ 0) : Divides false .byte op r (div8 (op.setWidth 32) r) := by
  have hne : op.setWidth 32 ≠ 0 := setWidth_ne_zero (by decide) hop
  obtain ⟨hdiv, hrem⟩ := hostDivU_eq (r.ax.setWidth 32) hne
  rw [toNat_setWidth_of_le (by decide), toNat_setWidth_of_le (by decide)] at hdiv hrem
  have htest := tooLarge_unsigned 0xff00 (by decide) (by decide) r.ax op
  refine divides_of_ite hop (divFlags r).flags htest ((hostDivide_eq hne hdiv hrem).trans ?_)
  rw [setWidth_ofInt (by decide), setWidth_ofInt (by decide)]
  simp only [decide_eq_true_eq]
  rfl

theorem divides_div16 {op : BitVec 16} (hop : op ≠ 0) : Divides false .word op r (div16 (op.setWidth 32) r) := by
  have hne : op.setWidth 32 ≠ 0 := setWidth_ne_zero (by decide) hop
  obtain ⟨hdiv, hrem⟩ := hostDivU_eq (r.dx.setWidth 32 <<< 16 ||| r.ax.setWidth 32) hne
  rw [congrArg BitVec.toNat (dividend_word r), toNat_setWidth_of_le (by decide)] at hdiv hrem
  have htest := tooLarge_unsigned 0xffff0000 (by decide) (by decide) (r.dx ++ r.ax) op
  refine divides_of_ite hop (divFlags r).flags htest ((hostDivide_eq hne hdiv hrem).trans ?_)
  rw [setWidth_ofInt (by decide), setWidth_ofInt (by decide)]
  simp only [decide_eq_true_eq]
  rfl

theorem divides_div32 {op : Word} (hop : op ≠ 0) : Divides false .dword op r (div32 op r) := by
  obtain ⟨hquotient, hremainder⟩ := divu64_eq r.edx r.eax hop
  have hget : (get : Division Accumulator) r = .ok r r := rfl
  have hwhole : (divu64 r.edx r.eax op).1.1 ++ (divu64 r.edx r.eax op).1.2 =
      BitVec.ofInt 64 (((r.edx ++ r.eax).toNat : ℤ).tdiv op.toNat) := by
    rw [← Int.ofNat_tdiv, BitVec.ofInt_natCast, ← hquotient, BitVec.ofNat_toNat, BitVec.setWidth_eq]
  have hq : (divu64 r.edx r.eax op).1.2 = BitVec.ofInt 32 (((r.edx ++ r.eax).toNat : ℤ).tdiv op.toNat) := by
    rw [← setWidth_ofInt (by decide : 32 ≤ 64), ← hwhole, BitVec.setWidth_append_eq_right]
  have hm : (divu64 r.edx r.eax op).2 = BitVec.ofInt 32 (((r.edx ++ r.eax).toNat : ℤ).tmod op.toNat) := by
    rw [← Int.ofNat_tmod, BitVec.ofInt_natCast, ← hremainder, BitVec.ofNat_toNat, BitVec.setWidth_eq]
  have htest : (divu64 r.edx r.eax op).1.1 ≠ 0 ↔ ¬Fits false 32 (((r.edx ++ r.eax).toNat : ℤ).tdiv op.toNat) := by
    rw [Ne, high_eq_zero _ (divu64 r.edx r.eax op).1.2, hquotient, ← Int.ofNat_tdiv]
    exact not_congr ⟨fun h => ⟨Int.natCast_nonneg _, by exact_mod_cast h⟩, fun h => by exact_mod_cast h.2⟩
  refine divides_of_ite hop (divFlags r).flags htest ?_
  rw [div32, faultIf_pass hop, bind_ok hget]
  dsimp only
  by_cases hhigh : (divu64 r.edx r.eax op).1.1 ≠ 0
  · rw [faultIf_fault hhigh, if_pos hhigh]
    rfl
  · rw [faultIf_pass hhigh, if_neg hhigh, hq, hm]
    rfl

theorem divides_idiv8 {op : BitVec 8} (hop : op ≠ 0) : Divides true .byte op r (idiv8 (op.setWidth 32) r) := by
  have hne : op.setWidth 32 ≠ 0 := setWidth_ne_zero (by decide) hop
  have hdefined : ¬(r.ax.signExtend 32 = BitVec.intMin 32 ∧ op.signExtend 32 = -1) := by
    rintro ⟨h, -⟩
    have hint := congrArg BitVec.toInt h
    rw [BitVec.toInt_signExtend_of_le (by decide)] at hint
    have hle := BitVec.le_toInt r.ax
    rw [hint] at hle
    exact absurd hle (by decide)
  obtain ⟨hdiv, hrem⟩ := hostDivS_eq (signExtend_ne_zero (by decide) hop) hdefined
  rw [BitVec.toInt_signExtend_of_le (by decide), BitVec.toInt_signExtend_of_le (by decide), ← hostSized_word,
    ← hostSized_byte] at hdiv hrem
  have htest := mixed_signed (by decide) (by decide) (by decide : ∀ i < 32, (0xff80 : Word).getLsbD i = _) r.ax op
  refine divides_of_ite hop (idivFlags r).flags htest ((hostDivide_eq hne hdiv hrem).trans ?_)
  rw [setWidth_ofInt (by decide), setWidth_ofInt (by decide)]
  rfl

/-- The one division of a word that C does not define. -/
def Overrun (op : BitVec 16) (r : Accumulator) : Prop := r.dx = 0x8000 ∧ r.ax = 0 ∧ op = 0xffff

theorem overrun_iff (op : BitVec 16) (r : Accumulator) :
    Overrun op r ↔ r.dx ++ r.ax = BitVec.intMin 32 ∧ op.signExtend 32 = -1 := by
  constructor
  · rintro ⟨hdx, hax, hop⟩
    rw [hdx, hax, hop]
    decide
  · rintro ⟨hdividend, hop⟩
    have hdx := congrArg (·.extractLsb' 16 16) hdividend
    have hax := congrArg (·.setWidth 16) hdividend
    have hlow := congrArg (·.setWidth 16) hop
    rw [BitVec.extractLsb'_append_eq_left] at hdx
    rw [BitVec.setWidth_append_eq_right] at hax
    rw [setWidth_signExtend (by decide), BitVec.signExtend_eq] at hlow
    exact ⟨hdx, hax, hlow⟩

theorem divides_idiv16 {op : BitVec 16} (hop : op ≠ 0) (hdefined : ¬Overrun op r) :
    Divides true .word op r (idiv16 (op.setWidth 32) r) := by
  have hne : op.setWidth 32 ≠ 0 := setWidth_ne_zero (by decide) hop
  obtain ⟨hdiv, hrem⟩ := hostDivS_eq (signExtend_ne_zero (by decide) hop) (mt (overrun_iff op r).mpr hdefined)
  rw [BitVec.toInt_signExtend_of_le (by decide), ← hostSized_word, ← dividend_word] at hdiv hrem
  rw [congrArg BitVec.toInt (dividend_word r)] at hdiv hrem
  have htest := mixed_signed (by decide) (by decide) (by decide : ∀ i < 32, (0xffff8000 : Word).getLsbD i = _) (r.dx ++ r.ax) op
  refine divides_of_ite hop (idivFlags r).flags htest ((hostDivide_eq hne hdiv hrem).trans ?_)
  rw [setWidth_ofInt (by decide), setWidth_ofInt (by decide)]
  rfl

theorem divides_idiv32 {op : Word} (hop : op ≠ 0) : Divides true .dword op r (idiv32 op r) := by
  obtain ⟨hwhole, hm⟩ := div64_eq r.edx r.eax hop
  have hget : (get : Division Accumulator) r = .ok r r := rfl
  have hq : (div64 r.edx r.eax op).1.2 = BitVec.ofInt 32 ((r.edx ++ r.eax).toInt.tdiv op.toInt) := by
    rw [← setWidth_ofInt (by decide : 32 ≤ 64), ← hwhole, BitVec.setWidth_append_eq_right]
  have htest : overflows (div64 r.edx r.eax op).1.1 (div64 r.edx r.eax op).1.2 = true ↔
      ¬Fits true 32 ((r.edx ++ r.eax).toInt.tdiv op.toInt) := by
    rw [overflows_eq, decide_eq_true_iff, hwhole]
    exact tooLarge_signed (n := 32) (by decide) (r.edx ++ r.eax) op
  refine divides_of_ite hop (idivFlags r).flags htest ?_
  rw [idiv32, faultIf_pass hop, bind_ok hget]
  dsimp only
  by_cases hhigh : overflows (div64 r.edx r.eax op).1.1 (div64 r.edx r.eax op).1.2 = true
  · rw [faultIf_fault hhigh, if_pos hhigh]
    rfl
  · rw [faultIf_pass hhigh, if_neg hhigh, hq, hm]
    rfl

/-- A divisor of zero. -/
theorem divides_zero (signed : Bool) (w : Width) : Divides signed w 0 r (divide signed w 0 r) := by
  have hrun : divide signed w 0 r = .error .int0 r := by
    cases signed <;> cases w
    · exact hostDivide_zero
    · exact hostDivide_zero
    · rw [divide, div32, faultIf_fault (by decide)]; rfl
    · exact hostDivide_zero
    · exact hostDivide_zero
    · rw [divide, idiv32, faultIf_fault (by decide)]; rfl
  rw [hrun]
  exact ⟨rfl, .inl rfl⟩

/-- **A division is as it should be**, but for IDIV of the least double word by the word -1, which the host is asked
to do although C leaves it undefined. -/
theorem divides_iff (signed : Bool) (w : Width) (op : BitVec w.bits) (r : Accumulator) :
    Divides signed w op r (divide signed w op r) ↔
      ¬(signed = true ∧ w = .word ∧ r.dx = 0x8000 ∧ r.ax = 0 ∧ op = BitVec.allOnes w.bits) := by
  by_cases hop : op = 0
  · subst hop
    refine iff_of_true (divides_zero signed w) ?_
    rintro ⟨-, -, -, -, hones⟩
    cases w <;> exact absurd hones (by decide)
  cases signed with
  | false =>
    refine iff_of_true ?_ nofun
    cases w with
    | byte => exact divides_div8 hop
    | word => exact divides_div16 hop
    | dword => exact divides_div32 hop
  | true =>
    cases w with
    | byte => exact iff_of_true (divides_idiv8 hop) nofun
    | dword => exact iff_of_true (divides_idiv32 hop) nofun
    | word =>
      by_cases hdefined : Overrun op r
      · refine iff_of_false ?_ (not_not.mpr ⟨rfl, rfl, hdefined⟩)
        obtain ⟨hdividend, hext⟩ := (overrun_iff op r).mp hdefined
        have hrun : divide true .word op r = .error .undefined r := by
          refine hostDivide_undefined (setWidth_ne_zero (by decide) hop) ?_
          rw [dividend_word, hostSized_word, hdividend, hext]
          rfl
        rw [hrun]
        exact id
      · exact iff_of_true (divides_idiv16 hop hdefined) fun h => hdefined h.2.2

/-- DX:AX of 0x80000000 divided by -1. -/
theorem idiv_overrun :
    ¬Divides true .word 0xffff ⟨0, 0x8000, {}⟩ (divide true .word 0xffff ⟨0, 0x8000, {}⟩) := id

end SoftPC.Ccpu
