import SoftPC.Ccpu.FpuOperand

/-!
# Ccpu/Limits — what the limit checks admit

    limit_check:               the items that are accessed, of a segment register
    validate_new_stack_space:  the items that are pushed, of a stack that is not yet current

`limit_check` of `base/ccpu386/c_addr.c` and `validate_new_stack_space` of `c_stack.c`, against the table of
bounds in the first one's comment.  Items may go on at the bottom of a segment that ends where its offsets do,
if none of them straddles that end.  The test for it, `offset % op_sz`, takes every size for a power of two;
more items than a segment has room for are too many even when they lie in it; in an expand-down segment of
64K the room that is left underflows for them; and the lowest stack pointer that a new expand-down stack
admits wraps where its limit is near 4G.  `limit_checks_exact` says that nothing else goes wrong.
-/

namespace SoftPC.Ccpu

open Operand (past toNat_top)

/-! ## The bounds -/

/-- The offsets of a segment that is not big end at 64K. -/
def span (seg : Segment) : ℕ := if seg.x then 2 ^ 32 else 2 ^ 16

/-- The lower bound; `past` is what follows the upper one. -/
def lowest (seg : Segment) : ℕ := if seg.e then seg.limit.toNat + 1 else 0

/-- Where item `k` begins: a segment that ends where its offsets do goes on at its bottom.  Elsewhere there is
nothing to go on to, and an offset past the end is not brought back. -/
def itemAt (seg : Segment) (off : Word) (opSz k : ℕ) : ℕ :=
  if past seg = span seg ∧ off.toNat < past seg then (off.toNat + k * opSz) % span seg
  else off.toNat + k * opSz

/-- Every byte of every item is within the bounds, the end of the segment not within an item. -/
def WithinBounds (seg : Segment) (off : Word) (nrItems opSz : ℕ) : Prop :=
  ∀ k < nrItems, ∀ i < opSz, lowest seg ≤ itemAt seg off opSz k + i ∧ itemAt seg off opSz k + i < past seg

/-- What the callers ask for: one item, or several of a byte, a word or a double word. -/
structure Asked (nrItems opSz : Word) : Prop where
  some_item : 0 < nrItems.toNat
  some_byte : 0 < opSz.toNat
  total : nrItems.toNat * opSz.toNat < 2 ^ 31
  size : nrItems.toNat = 1 ∧ opSz.toNat ≤ 2 ^ 16 ∨ opSz.toNat ∣ 2 ^ 16

/-- The program goes on, whatever it finds. -/
def Succeeds {M : Type} (x : Exec M PUnit) (s : State M) : Prop := ∃ t, x s = .ok ⟨⟩ t

/-- The end of a segment of full size comes within items that are let past it, or that are too many for it; or
the items are too many for 64K and the room that is left of them underflows. -/
def Misjudged (seg : Segment) (off : Word) (nrItems opSz : ℕ) : Prop :=
  if seg.e then
    seg.x = false ∧ 2 ^ 16 < nrItems * opSz ∧ seg.limit.toNat < off.toNat ∧
      off.toNat + nrItems * opSz ≤ 2 ^ 32 + 2 ^ 16
  else
    past seg = span seg ∧ off.toNat < span seg ∧ span seg < off.toNat + nrItems * opSz ∧ opSz ∣ off.toNat ∧
      (¬opSz ∣ span seg ∨ span seg < nrItems * opSz)

instance (seg : Segment) (off : Word) (nrItems opSz : ℕ) : Decidable (Misjudged seg off nrItems opSz) :=
  inferInstanceAs (Decidable (ite _ _ _))

/-- The bounds of a segment that is described. -/
def Descr.segment (entry : Descr) : Segment := { e := arE entry.ar, x := arX entry.ar, limit := entry.limit }

/-- The bytes below the stack pointer are within the bounds. -/
def RoomBelow (entry : Descr) (stackTop bytes : Word) : Prop :=
  ∀ a : ℤ, (stackTop.toNat : ℤ) - bytes.toNat ≤ a → a < stackTop.toNat →
    lowest entry.segment ≤ a ∧ a < past entry.segment

/-- `limit + bytes` wraps, and the stack pointer is between what it wraps to and the top. -/
def LimitWraps (entry : Descr) (stackTop bytes : Word) : Prop :=
  arE entry.ar ∧ 2 ^ 32 ≤ entry.limit.toNat + bytes.toNat ∧
    entry.limit.toNat + bytes.toNat < stackTop.toNat + 2 ^ 32 ∧ stackTop.toNat ≤ past entry.segment

/-! ## Items and the end of the segment -/

/-- A byte of a run is in one of its items. -/
theorem exists_item {off opSz n a : ℕ} (ha : off ≤ a) (ha' : a < off + n * opSz) :
    ∃ k < n, ∃ i < opSz, off + k * opSz + i = a := by
  have hpos : 0 < opSz := Nat.pos_of_ne_zero fun h => by
    rw [h, Nat.mul_zero] at ha'
    omega
  refine ⟨(a - off) / opSz, Nat.div_lt_of_lt_mul ?_, (a - off) % opSz, Nat.mod_lt _ hpos, ?_⟩
  · rw [Nat.mul_comm]
    omega
  · have hdiv := Nat.div_add_mod' (a - off) opSz
    omega

/-- An item ends before the run does. -/
theorem item_le {opSz n k i : ℕ} (hk : k < n) (hi : i < opSz) : k * opSz + i < n * opSz :=
  calc
    k * opSz + i < k * opSz + opSz := Nat.add_lt_add_left hi _
    _ = (k + 1) * opSz := (Nat.succ_mul k opSz).symm
    _ ≤ n * opSz := Nat.mul_le_mul_right _ hk

/-- An aligned item does not straddle the end, if its size divides what wraps there. -/
theorem aligned_item {a opSz top i : ℕ} (ha : opSz ∣ a) (htop : opSz ∣ top) (hpos : 0 < top) (hi : i < opSz) :
    a % top + i < top := by
  have hdvd : opSz ∣ top - a % top := Nat.dvd_sub htop ((Nat.dvd_mod_iff htop).mpr ha)
  have hle := Nat.le_of_dvd (Nat.sub_pos_of_lt (Nat.mod_lt a hpos)) hdvd
  omega

/-- Items that go on past the end begin there. -/
theorem aligned_of_crossing {off opSz n top : ℕ} (hoff : off < top) (hcross : top < off + n * opSz)
    (hfit : ∀ k < n, ∀ i < opSz, (off + k * opSz) % top + i < top) : opSz ∣ top - off := by
  obtain ⟨k, hk, i, hi, hlast⟩ : ∃ k < n, ∃ i < opSz, off + k * opSz + i = top - 1 :=
    exists_item (Nat.le_sub_one_of_lt hoff) (by omega)
  have hbelow : (off + k * opSz) % top = off + k * opSz := Nat.mod_eq_of_lt (by omega)
  have hend := hfit k hk (opSz - 1) (by omega)
  rw [hbelow] at hend
  have hgap : top - off = (k + 1) * opSz := by
    rw [Nat.succ_mul]
    omega
  exact hgap ▸ Nat.dvd_mul_left _ _

/-! ## `limit_check` -/

theorem span_pos (seg : Segment) : 0 < span seg := by
  unfold span
  split <;> decide

theorem dvd_span {n : ℕ} (seg : Segment) (h : n ∣ 2 ^ 16) : n ∣ span seg := by
  unfold span
  split
  · exact h.trans (Nat.pow_dvd_pow 2 (by decide))
  · exact h

theorem span_le (seg : Segment) : span seg ≤ 2 ^ 32 := by
  unfold span
  split <;> decide

theorem le_span (seg : Segment) : 2 ^ 16 ≤ span seg := by
  unfold span
  split <;> decide

section

variable {seg : Segment} {off : Word} {n s : ℕ}

/-- Items that do not go on at the bottom are where the first and the last byte are. -/
theorem within_iff_of_straight (hn : 0 < n) (hs : 0 < s)
    (hat : ∀ k < n, itemAt seg off s k = off.toNat + k * s) :
    WithinBounds seg off n s ↔ lowest seg ≤ off.toNat ∧ off.toNat + n * s ≤ past seg := by
  constructor
  · intro h
    have hfirst := (h 0 hn 0 hs).1
    rw [hat 0 hn, Nat.zero_mul] at hfirst
    obtain ⟨k, hk, i, hi, hlast⟩ := @exists_item off.toNat s n (off.toNat + n * s - 1)
      (Nat.le_sub_one_of_lt (Nat.lt_add_of_pos_right (Nat.mul_pos hn hs)))
      (Nat.sub_one_lt (Nat.pos_iff_ne_zero.mp (Nat.add_pos_right _ (Nat.mul_pos hn hs))))
    have hend := (h k hk i hi).2
    rw [hat k hk, hlast] at hend
    exact ⟨hfirst, by omega⟩
  · rintro ⟨hlow, hhigh⟩ k hk i hi
    have hin := item_le hk hi
    rw [hat k hk]
    omega

/-- A segment that does not end where its offsets do has no way round. -/
theorem within_iff_of_short (hn : 0 < n) (hs : 0 < s) (h : ¬(past seg = span seg ∧ off.toNat < past seg)) :
    WithinBounds seg off n s ↔ lowest seg ≤ off.toNat ∧ off.toNat + n * s ≤ past seg :=
  within_iff_of_straight hn hs fun _ _ => if_neg h

/-- Nor do items that end before the segment does need one. -/
theorem within_iff_of_le (hn : 0 < n) (hs : 0 < s) (h : off.toNat + n * s ≤ span seg) :
    WithinBounds seg off n s ↔ lowest seg ≤ off.toNat ∧ off.toNat + n * s ≤ past seg :=
  within_iff_of_straight hn hs fun k hk => by
    have hin := item_le (i := 0) hk hs
    unfold itemAt
    split
    · exact Nat.mod_eq_of_lt (by omega)
    · rfl

/-- Items that pass the end of an expand-down segment have a byte below its limit. -/
theorem not_within_of_down (he : seg.e) (hs : 0 < s) (hpast : past seg = span seg) (hoff : off.toNat < span seg)
    (hcross : span seg < off.toNat + n * s) : ¬WithinBounds seg off n s := by
  intro h
  obtain ⟨k, hk, i, hi, hbyte⟩ := exists_item hoff.le hcross
  have hitem : itemAt seg off s k = (off.toNat + k * s) % span seg := if_pos ⟨hpast, hpast ▸ hoff⟩
  have hlow := (h k hk 0 hs).1
  have hhigh := (h k hk i hi).2
  rw [hitem, hpast] at *
  unfold lowest at hlow
  rw [if_pos he] at hlow
  rcases Nat.eq_zero_or_pos i with rfl | hpos
  · rw [Nat.add_zero] at hbyte
    rw [hbyte, Nat.mod_self] at hlow
    omega
  · rw [Nat.mod_eq_of_lt (by omega)] at hhigh
    omega

/-- The aligned items of a segment of full size are in it. -/
theorem within_of_aligned (he : seg.e = false) (hpast : past seg = span seg) (hoff : off.toNat < span seg)
    (halign : s ∣ off.toNat) (hsize : s ∣ span seg) : WithinBounds seg off n s := by
  intro k _ i hi
  have hitem : itemAt seg off s k = (off.toNat + k * s) % span seg := if_pos ⟨hpast, hpast ▸ hoff⟩
  have hdvd : s ∣ off.toNat + k * s := Nat.dvd_add halign (Nat.dvd_mul_left _ _)
  rw [hitem, hpast]
  unfold lowest
  rw [he]
  exact ⟨Nat.zero_le _, aligned_item hdvd hsize (span_pos seg) hi⟩

/-- Items that go on at the bottom of a segment of full size do it at an item. -/
theorem aligned_of_within (hpast : past seg = span seg) (hoff : off.toNat < span seg)
    (hcross : span seg < off.toNat + n * s) (h : WithinBounds seg off n s) : s ∣ span seg - off.toNat := by
  refine aligned_of_crossing hoff hcross fun k hk i hi => ?_
  have hitem : itemAt seg off s k = (off.toNat + k * s) % span seg := if_pos ⟨hpast, hpast ▸ hoff⟩
  have hhigh := (h k hk i hi).2
  rwa [hitem, hpast] at hhigh

theorem toNat_items {nrItems opSz : Word} (h : Asked nrItems opSz) :
    (nrItems * opSz - 1).toNat = nrItems.toNat * opSz.toNat - 1 := by
  have hpos := Nat.mul_pos h.some_item h.some_byte
  have htotal := h.total
  have hone : (1 : Word).toNat = 1 := rfl
  rw [BitVec.toNat_sub, BitVec.toNat_mul, hone]
  omega

theorem mod_opSz (opSz : Word) : off % opSz ≠ 0 ↔ ¬opSz.toNat ∣ off.toNat := by
  have hzero : (0 : Word).toNat = 0 := rfl
  rw [Nat.dvd_iff_mod_eq_zero, ne_eq, ← BitVec.toNat_inj, BitVec.toNat_umod, hzero]

theorem not_full_iff (he : seg.e = false) :
    (if seg.x then decide (seg.limit ≠ 0xffffffff) else decide (seg.limit ≠ 0xffff)) = true ↔ past seg ≠ span seg := by
  unfold past span
  rw [he]
  cases seg.x <;> simp [← BitVec.toNat_inj]

/-- `limit_check` of an expand-down segment. -/
theorem down_iff {nrItems opSz : Word} (he : seg.e) (h : Asked nrItems opSz) :
    Registers.badLimit seg off nrItems opSz = false ↔
      seg.limit.toNat < off.toNat ∧
        (off.toNat + nrItems.toNat * opSz.toNat ≤ span seg ∨
          seg.x = false ∧ 2 ^ 16 < nrItems.toNat * opSz.toNat ∧
            off.toNat + nrItems.toNat * opSz.toNat ≤ 2 ^ 32 + 2 ^ 16) := by
  have hrange := toNat_items h
  have hpos := Nat.mul_pos h.some_item h.some_byte
  have htotal := h.total
  have hoff := off.isLt
  unfold Registers.badLimit span
  generalize nrItems * opSz - 1 = r at *
  generalize nrItems.toNat * opSz.toNat = total at *
  rw [if_pos he, Bool.or_eq_false_iff, decide_eq_false_iff_not, decide_eq_false_iff_not, BitVec.le_def, gt_iff_lt,
    BitVec.lt_def, BitVec.toNat_sub, hrange, toNat_top]
  cases seg.x <;> simp only [if_true, Bool.false_eq_true, if_false, reduceCtorEq, true_and, false_and, or_false] <;>
    omega

/-- `limit_check` of an expand-up segment. -/
theorem up_iff {nrItems opSz : Word} (he : seg.e = false) (h : Asked nrItems opSz) :
    Registers.badLimit seg off nrItems opSz = false ↔
      off.toNat < past seg ∧ nrItems.toNat * opSz.toNat ≤ past seg ∧
        (off.toNat + nrItems.toNat * opSz.toNat ≤ past seg ∨ opSz.toNat ∣ off.toNat ∧ past seg = span seg) := by
  have hrange := toNat_items h
  have hpos := Nat.mul_pos h.some_item h.some_byte
  have hpast : past seg = seg.limit.toNat + 1 := by rw [past, he, if_neg Bool.false_ne_true]
  have hbad : Registers.badLimit seg off nrItems opSz = true ↔
      seg.limit.toNat < off.toNat ∨ seg.limit.toNat < (nrItems * opSz - 1).toNat ∨
        (seg.limit - (nrItems * opSz - 1)).toNat < off.toNat ∧
          (¬opSz.toNat ∣ off.toNat ∨ past seg ≠ span seg) := by
    unfold Registers.badLimit
    rw [he, if_neg Bool.false_ne_true, Bool.or_eq_true, Bool.or_eq_true, Bool.and_eq_true, decide_eq_true_eq,
      decide_eq_true_eq, decide_eq_true_eq, or_assoc]
    refine or_congr .rfl (or_congr .rfl (and_congr .rfl ?_))
    rw [Bool.or_eq_true, decide_eq_true_eq, mod_opSz, not_full_iff he]
  rw [← Bool.not_eq_true, hbad, BitVec.toNat_sub (x := seg.limit), hrange]
  clear hbad
  have hlimit := seg.limit.isLt
  have hoff := off.isLt
  by_cases hsmall : seg.limit.toNat < nrItems.toNat * opSz.toNat - 1
  · exact iff_of_false (fun h => h (.inr (.inl hsmall))) fun h => absurd h.2.1 (by omega)
  · have hroom : (2 ^ 32 - (nrItems.toNat * opSz.toNat - 1) + seg.limit.toNat) % 2 ^ 32 =
        seg.limit.toNat - (nrItems.toNat * opSz.toNat - 1) := by omega
    have htotal : nrItems.toNat * opSz.toNat ≤ past seg := by omega
    have hinside : seg.limit.toNat < off.toNat ↔ ¬off.toNat < past seg := by omega
    have hover : seg.limit.toNat - (nrItems.toNat * opSz.toNat - 1) < off.toNat ↔
        ¬off.toNat + nrItems.toNat * opSz.toNat ≤ past seg := by omega
    rw [hroom, hinside, hover]
    tauto

/-- **What `limit_check` misjudges**. -/
theorem judged_iff {nrItems opSz : Word} (h : Asked nrItems opSz) :
    (Registers.badLimit seg off nrItems opSz = false ↔ WithinBounds seg off nrItems.toNat opSz.toNat) ↔
      ¬Misjudged seg off nrItems.toNat opSz.toNat := by
  obtain ⟨hn, hs, -, hsize⟩ := id h
  unfold Misjudged
  cases he : seg.e with
  | true =>
    have hpast : past seg = span seg := if_pos he
    have hlow : lowest seg = seg.limit.toNat + 1 := if_pos he
    rw [down_iff he h, if_pos rfl]
    by_cases hcross : off.toNat + nrItems.toNat * opSz.toNat ≤ span seg
    · have hle := span_le seg
      rw [within_iff_of_le hn hs hcross, hpast, hlow]
      refine iff_of_true ⟨fun h => ⟨h.1, hcross⟩, fun h => ⟨h.1, .inl hcross⟩⟩ fun h => ?_
      have hspan : span seg = 2 ^ 16 := by rw [span, h.1, if_neg Bool.false_ne_true]
      omega
    · have hwithin : ¬WithinBounds seg off nrItems.toNat opSz.toNat := by
        by_cases hoff : off.toNat < span seg
        · exact not_within_of_down he hs hpast hoff (not_le.mp hcross)
        · rw [within_iff_of_short hn hs fun h => hoff (hpast ▸ h.2), hpast]
          exact fun h => hcross h.2
      rw [iff_false_right hwithin, or_iff_right hcross]
      tauto
  | false =>
    rw [up_iff he h, if_neg Bool.false_ne_true]
    have hlow : lowest seg = 0 := by rw [lowest, he, if_neg Bool.false_ne_true]
    by_cases hround : past seg = span seg ∧ off.toNat < past seg
    swap
    · rw [within_iff_of_short hn hs hround, hlow]
      refine iff_of_true ?_ fun h => hround ⟨h.1, h.1 ▸ h.2.1⟩
      have htotal := Nat.mul_pos hn hs
      constructor
      · rintro ⟨hoff, -, h | h⟩
        · exact ⟨Nat.zero_le _, h⟩
        · exact absurd ⟨h.2, hoff⟩ hround
      · rintro ⟨-, h⟩
        exact ⟨by omega, by omega, .inl h⟩
    obtain ⟨hpast, hoff⟩ := hround
    by_cases hcross : off.toNat + nrItems.toNat * opSz.toNat ≤ span seg
    · rw [within_iff_of_le hn hs hcross, hlow, hpast]
      refine iff_of_true (iff_of_true ⟨hpast ▸ hoff, by omega, .inl hcross⟩ ⟨Nat.zero_le _, hcross⟩) fun h => ?_
      exact absurd h.2.2.1 (not_lt.mpr hcross)
    rw [hpast] at hoff ⊢
    by_cases hdvd : opSz.toNat ∣ span seg
    · have hwithin : WithinBounds seg off nrItems.toNat opSz.toNat ↔ opSz.toNat ∣ off.toNat := by
        refine ⟨fun h => ?_, fun h => within_of_aligned he hpast hoff h hdvd⟩
        have hgap := aligned_of_within hpast hoff (not_le.mp hcross) h
        have hsub := Nat.dvd_sub hdvd hgap
        rwa [Nat.sub_sub_self hoff.le] at hsub
      rw [hwithin]
      have hlt := not_le.mp hcross
      by_cases halign : opSz.toNat ∣ off.toNat <;> simp [hoff, hcross, hlt, halign, hdvd]
    · obtain ⟨hone, hle⟩ := hsize.resolve_right fun h => hdvd (dvd_span seg h)
      have hwithin : ¬WithinBounds seg off nrItems.toNat opSz.toNat := fun h => by
        have hgap := aligned_of_within hpast hoff (not_le.mp hcross) h
        have hmul := Nat.le_of_dvd (Nat.sub_pos_of_lt hoff) hgap
        rw [hone, Nat.one_mul] at hcross
        have hexact : opSz.toNat = span seg - off.toNat ∨ opSz.toNat < span seg - off.toNat := by omega
        omega
      have hspan := le_span seg
      have hlt := not_le.mp hcross
      have hroom : nrItems.toNat * opSz.toNat ≤ span seg := by
        rw [hone]
        omega
      by_cases halign : opSz.toNat ∣ off.toNat <;> simp [hoff, hcross, hlt, halign, hdvd, hwithin, hroom]

end

/-- `limit_check` in protected mode. -/
theorem passes_limitCheck {M : Type} (s : State M) (reg : SegReg) (off nrItems opSz : Word) (hpe : s.regs.pe)
    (hvm : s.regs.vm = false) :
    Succeeds (limitCheck reg off nrItems opSz) s ↔ Registers.badLimit (s.regs.sr reg) off nrItems opSz = false := by
  have hrun : limitCheck reg off nrItems opSz s =
      faultIf (s.regs.pe ∧ !s.regs.vm ∧ Registers.badLimit (s.regs.sr reg) off nrItems opSz)
        (if reg = .ss then .sf 0 else .gp 0) s := rfl
  unfold Succeeds
  rw [hrun, hpe, hvm, faultIf]
  cases Registers.badLimit (s.regs.sr reg) off nrItems opSz with
  | true =>
    refine iff_of_false ?_ (by decide)
    rintro ⟨t, ht⟩
    cases ht
  | false => exact iff_of_true ⟨s, rfl⟩ rfl

/-! ## `validate_new_stack_space` -/

/-- A memory whose pages are all there. -/
def roomy : Bus Unit where
  phyReadWord _ := pure 0
  sprRead _ _ := pure 0
  sprWriteByte _ _ := pure ⟨⟩
  sprChk _ _ _ := pure ⟨⟩
  usrChk _ _ _ _ := pure ⟨⟩
  virRead _ _ := pure 0
  virWrite _ _ _ := pure ⟨⟩

theorem passes_sprChkItems (base : Word) (n : ℕ) (off : Word) (s : State Unit) :
    Succeeds (sprChkItems roomy base n off) s := by
  induction n generalizing off with
  | zero => exact ⟨s, rfl⟩
  | succ n ih => exact ih _

/-- What `validate_new_stack_space` finds wrong before the pages. -/
def NewStackBad (bytes stackTop : Word) (entry : Descr) : Prop :=
  if arE entry.ar then stackTop ≤ entry.limit + bytes ∨ stackTop - 1 > if arX entry.ar then 0xffffffff else 0xffff
  else stackTop < bytes ∨ stackTop - 1 > entry.limit

instance (bytes stackTop : Word) (entry : Descr) : Decidable (NewStackBad bytes stackTop entry) :=
  inferInstanceAs (Decidable (ite _ _ _))

theorem not_bad_of_passes {M : Type} {bus : Bus M} {s : State M} {nrItems stackTop : Word} {entry : Descr}
    (h : Succeeds (validateNewStackSpace bus nrItems stackTop entry) s) :
    ¬NewStackBad (nrItems * s.regs.operandSize.bytes) stackTop entry := by
  intro hbad
  obtain ⟨t, ht⟩ := h
  have hfault : validateNewStackSpace bus nrItems stackTop entry s = .error (.sf 0) s :=
    congrFun (faultIf_fault hbad _) s
  rw [hfault] at ht
  cases ht

theorem passes_of_not_bad {s : State Unit} {nrItems stackTop : Word} {entry : Descr}
    (h : ¬NewStackBad (nrItems * s.regs.operandSize.bytes) stackTop entry) :
    Succeeds (validateNewStackSpace roomy nrItems stackTop entry) s := by
  obtain ⟨t, ht⟩ := passes_sprChkItems entry.base nrItems.toNat (stackTop - nrItems * s.regs.operandSize.bytes) s
  exact ⟨t, (congrFun (faultIf_pass h _) s).trans ht⟩

/-- **What `validate_new_stack_space` misjudges**. -/
theorem room_iff (bytes stackTop : Word) (entry : Descr) :
    (¬NewStackBad bytes stackTop entry → RoomBelow entry stackTop bytes) ↔ ¬LimitWraps entry stackTop bytes := by
  have htop := stackTop.isLt
  have hlimit := entry.limit.isLt
  have hbytes := bytes.isLt
  have hone : (1 : Word).toNat = 1 := rfl
  unfold NewStackBad RoomBelow LimitWraps
  cases he : arE entry.ar with
  | false =>
    have hpast : past entry.segment = entry.limit.toNat + 1 := if_neg (Bool.eq_false_iff.mp he)
    have hlow : lowest entry.segment = 0 := if_neg (Bool.eq_false_iff.mp he)
    rw [if_neg Bool.false_ne_true, hpast, hlow, BitVec.lt_def, gt_iff_lt, BitVec.lt_def, BitVec.toNat_sub, hone]
    refine iff_of_true (fun h a ha ha' => ?_) fun h => Bool.false_ne_true h.1
    omega
  | true =>
    have hpast : past entry.segment = (if arX entry.ar then 0xffffffff else 0xffff : Word).toNat + 1 := by
      refine (if_pos he).trans ?_
      rw [toNat_top]
      change (if arX entry.ar then 2 ^ 32 else 2 ^ 16) = _
      cases arX entry.ar <;> rfl
    have hlow : lowest entry.segment = entry.limit.toNat + 1 := if_pos he
    rw [if_pos rfl, hpast, hlow, BitVec.le_def, gt_iff_lt, BitVec.lt_def, BitVec.toNat_sub, BitVec.toNat_add, hone]
    by_cases hwrap : 2 ^ 32 ≤ entry.limit.toNat + bytes.toNat
    · -- There are bytes, and no room for them anywhere.
      have hroom : ¬∀ a : ℤ, (stackTop.toNat : ℤ) - bytes.toNat ≤ a → a < stackTop.toNat →
          ((entry.limit.toNat + 1 : ℕ) : ℤ) ≤ a ∧
            a < ((if arX entry.ar then 0xffffffff else 0xffff : Word).toNat + 1 : ℕ) := fun h => by
        have := (h (stackTop.toNat - bytes.toNat) le_rfl (by omega)).1
        omega
      rw [iff_false_intro hroom, imp_false, not_not, and_iff_right rfl, and_iff_right hwrap]
      omega
    · refine iff_of_true (fun h a ha ha' => ?_) fun h => hwrap h.2.1
      omega

/-! ## Both -/

/-- `limit_check` raises no fault for items that are within the bounds, and for no others. -/
def JudgesItems {M : Type} (s : State M) (reg : SegReg) (off nrItems opSz : Word) : Prop :=
  Succeeds (limitCheck reg off nrItems opSz) s ↔ WithinBounds (s.regs.sr reg) off nrItems.toNat opSz.toNat

/-- `validate_new_stack_space` raises no fault, whatever the pages are, only if there is room. -/
def LeavesRoom (regs : Registers) (nrItems stackTop : Word) (entry : Descr) : Prop :=
  ∀ (M : Type) (bus : Bus M) (mem : M), Succeeds (validateNewStackSpace bus nrItems stackTop entry) ⟨regs, mem⟩ →
    RoomBelow entry stackTop (nrItems * regs.operandSize.bytes)

/-- **Where the limit checks admit what is in bounds**. -/
theorem limit_checks_exact {M : Type} (s : State M) (reg : SegReg) (off nrItems opSz : Word) (regs : Registers)
    (items stackTop : Word) (entry : Descr) (hpe : s.regs.pe) (hvm : s.regs.vm = false) (hasked : Asked nrItems opSz) :
    (JudgesItems s reg off nrItems opSz ↔ ¬Misjudged (s.regs.sr reg) off nrItems.toNat opSz.toNat) ∧
      (LeavesRoom regs items stackTop entry ↔ ¬LimitWraps entry stackTop (items * regs.operandSize.bytes)) := by
  constructor
  · unfold JudgesItems
    rw [passes_limitCheck s reg off nrItems opSz hpe hvm]
    exact judged_iff hasked
  · rw [← room_iff]
    constructor
    · exact fun h hgood => h Unit roomy () (passes_of_not_bad (s := ⟨regs, ()⟩) hgood)
    · exact fun h M bus mem hpass => h (not_bad_of_passes (s := ⟨regs, mem⟩) hpass)

/-- Segments of 64K, expand-up. -/
def full64K : Registers where
  pe := true
  vm := false
  cpl := 3
  sr _ := { r := true, w := true, limit := 0xffff }
  gdt := {}
  idt := {}
  ldt := {}
  tr := {}
  eip := 0
  esp := 0
  ebp := 0
  flags := {}
  operandSize := .use32

/-- Two double words, the second at the bottom. -/
theorem limit_checks_exact_around :
    JudgesItems (M := Unit) ⟨full64K, ()⟩ .ds 0xfffc 2 4 ∧ LeavesRoom full64K 5 0x10000 { limit := 0xffff } :=
  have hexact := @limit_checks_exact Unit ⟨full64K, ()⟩ .ds 0xfffc 2 4 full64K 5 0x10000 { limit := 0xffff } rfl rfl
    ⟨by decide, by decide, by decide, .inr (by decide)⟩
  ⟨hexact.1.mpr (by decide), hexact.2.mpr fun h => absurd h.1 (by decide)⟩

/-- An environment of 28 bytes is let past the end, which it straddles. -/
theorem limit_check_straddled : ¬JudgesItems (M := Unit) ⟨full64K, ()⟩ .ds 0xfff0 1 28 := by
  intro h
  have hin := h.mp ⟨_, rfl⟩ 0 (by decide) 16 (by decide)
  exact absurd hin.2 (by decide)

end SoftPC.Ccpu
