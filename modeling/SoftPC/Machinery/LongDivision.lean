import Mathlib.Tactic.Ring
import Mathlib.Data.Nat.Basic

/-!
# Machinery/LongDivision — division a bit at a time

The dividend is shifted out of a register of `n` bits, from the top, into a partial dividend, and the quotient
shifted in under it.  After some bits the partial dividend is what the divisor leaves of those bits (`Stands`); one
more bit at most doubles it, so that one subtraction is enough (`Stands.step`).  When no bit is left the register
holds the quotient, and the partial dividend is the remainder (`Stands.result`).
-/

namespace SoftPC.LongDivision

/-- The register, and the partial dividend. -/
structure Work where
  rest : ℕ
  part : ℕ

/-- A bit of the dividend goes from the top of the register into the partial dividend. -/
def step (n d : ℕ) (s : Work) : Work :=
  let part := 2 * s.part + s.rest / 2 ^ (n - 1)
  let rest := 2 * s.rest % 2 ^ n
  if d ≤ part then ⟨rest + 1, part - d⟩ else ⟨rest, part⟩

/-- **After `done` bits**, with `m` to come. -/
structure Stands (dividend d m done quotient : ℕ) (s : Work) : Prop where
  bound : quotient < 2 ^ done
  rest : s.rest = dividend % 2 ^ m * 2 ^ done + quotient
  equation : dividend / 2 ^ m = quotient * d + s.part
  part : s.part < d

namespace Stands

variable {dividend d m i q n : ℕ} {s : Work}

theorem start (hd : 0 < d) (hlt : dividend < 2 ^ n) : Stands dividend d n 0 0 ⟨dividend, 0⟩ where
  bound := Nat.one_pos
  rest := by rw [Nat.mod_eq_of_lt hlt, pow_zero, Nat.mul_one, Nat.add_zero]
  equation := by rw [Nat.div_eq_of_lt hlt, Nat.zero_mul, Nat.zero_add]
  part := hd

/-- **One more bit**. -/
theorem step (h : Stands dividend d (m + 1) i q s) :
    ∃ q', Stands dividend d m (i + 1) q' (step (m + 1 + i) d s) := by
  obtain ⟨b, hb, hb2⟩ : ∃ b, b = dividend / 2 ^ m % 2 ∧ b < 2 := ⟨_, rfl, Nat.mod_lt _ (by decide)⟩
  have hlow : dividend % 2 ^ (m + 1) = b * 2 ^ m + dividend % 2 ^ m := by
    rw [Nat.mod_pow_succ, ← hb]
    ring
  have hhigh : dividend / 2 ^ m = 2 * (dividend / 2 ^ (m + 1)) + b := by
    rw [hb, Nat.pow_succ, ← Nat.div_div_eq_div_mul]
    omega
  -- Under the bit the register holds less than its place is worth.
  have hunder : dividend % 2 ^ m * 2 ^ i + q < 2 ^ (m + i) := by
    have hmod : dividend % 2 ^ m + 1 ≤ 2 ^ m := Nat.mod_lt _ (Nat.two_pow_pos m)
    calc dividend % 2 ^ m * 2 ^ i + q < dividend % 2 ^ m * 2 ^ i + 2 ^ i := Nat.add_lt_add_left h.bound _
      _ = (dividend % 2 ^ m + 1) * 2 ^ i := by ring
      _ ≤ 2 ^ m * 2 ^ i := Nat.mul_le_mul_right _ hmod
      _ = 2 ^ (m + i) := (Nat.pow_add 2 m i).symm
  have hrest : s.rest = b * 2 ^ (m + i) + (dividend % 2 ^ m * 2 ^ i + q) := by
    rw [h.rest, hlow, Nat.pow_add]
    ring
  have htop : s.rest / 2 ^ (m + 1 + i - 1) = b := by
    rw [show m + 1 + i - 1 = m + i by omega, hrest, Nat.mul_comm, Nat.mul_add_div (Nat.two_pow_pos _),
      Nat.div_eq_of_lt hunder, Nat.add_zero]
  have hshift : 2 * s.rest % 2 ^ (m + 1 + i) = 2 * (dividend % 2 ^ m * 2 ^ i + q) := by
    have hpow : 2 ^ (m + 1 + i) = 2 * 2 ^ (m + i) := by rw [Nat.add_right_comm, Nat.pow_succ, Nat.mul_comm]
    rw [hpow, Nat.mul_mod_mul_left, hrest, Nat.mul_comm b, Nat.mul_add_mod, Nat.mod_eq_of_lt hunder]
  have hequation : dividend / 2 ^ m = 2 * q * d + (2 * s.part + b) := by
    rw [hhigh, h.equation]
    ring
  unfold LongDivision.step
  rw [htop, hshift]
  dsimp only
  by_cases hd : d ≤ 2 * s.part + b
  · rw [if_pos hd]
    refine ⟨2 * q + 1, ?_, ?_, ?_, ?_⟩
    · have hbound := h.bound
      rw [Nat.pow_succ]
      omega
    · dsimp only
      rw [Nat.pow_succ]
      ring
    · have hsub := Nat.add_sub_cancel' hd
      dsimp only
      rw [hequation, Nat.add_mul, Nat.one_mul, Nat.add_assoc, hsub]
    · have hpart := h.part
      dsimp only
      omega
  · rw [if_neg hd]
    refine ⟨2 * q, ?_, ?_, hequation, Nat.lt_of_not_le hd⟩
    · have hbound := h.bound
      rw [Nat.pow_succ]
      omega
    · dsimp only
      rw [Nat.pow_succ]
      ring

/-- **No bit is left**. -/
theorem result (h : Stands dividend d 0 i q s) : s = ⟨dividend / d, dividend % d⟩ := by
  have hequation : dividend = q * d + s.part := by rw [← h.equation, pow_zero, Nat.div_one]
  have hquotient : dividend / d = q := by
    rw [hequation, Nat.mul_comm, Nat.mul_add_div (Nat.zero_lt_of_lt h.part), Nat.div_eq_of_lt h.part, Nat.add_zero]
  have hremainder : dividend % d = s.part := by
    rw [hequation, Nat.mul_comm, Nat.mul_add_mod, Nat.mod_eq_of_lt h.part]
  have hrest : s.rest = q := by rw [h.rest, pow_zero, Nat.mod_one, Nat.zero_mul, Nat.zero_add]
  rw [hquotient, hremainder, ← hrest]

end Stands

end SoftPC.LongDivision
