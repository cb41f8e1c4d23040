import Mathlib

/-!
# Video/EgaMarks — what the routines of the EGA mark to be painted

    ega_mark_byte, ega_mark_string ──▸ video_copy, dirty_low, dirty_high, dirty_total

The marks of `gfx_updt.c`: an entry of `video_copy` is of four bytes.  A mark of no bytes is not nothing
(`markString_empty`).
-/

namespace SoftPC.Video.EgaBios

/-- `video_copy` and the range of it that is to be painted. -/
@[ext]
structure Dirty where
  copy : ℤ → Bool
  low : ℤ
  high : ℤ
  total : ℤ

namespace Dirty

/-- `ega_mark_byte`. -/
def markByte (d : Dirty) (offIn : ℤ) : Dirty :=
  let offset := offIn / 4
  { copy := Function.update d.copy offset true
    low := if offset < d.low then offset else d.low
    high := if d.high < offset then offset else d.high
    total := d.total + 1 }

/-- `ega_mark_string`; `memfill` fills nothing when the last byte is before the first. -/
def markString (d : Dirty) (laddr haddr : ℤ) : Dirty :=
  let offset1 := laddr / 4
  let offset2 := haddr / 4
  { copy := fun k => decide (offset1 ≤ k ∧ k ≤ offset2) || d.copy k
    low := if offset1 < d.low then offset1 else d.low
    high := if d.high < offset2 then offset2 else d.high
    total := d.total + offset2 - offset1 + 1 }

theorem markByte_eq (d : Dirty) (a : ℤ) : d.markByte a = d.markString a a := by
  ext k
  · by_cases h : k = a / 4
    · simp [markByte, markString, h]
    · have hne : ¬ (a / 4 ≤ k ∧ k ≤ a / 4) := by omega
      simp [markByte, markString, Function.update_of_ne h, hne]
  · rfl
  · rfl
  · dsimp only [markByte, markString]
    omega

/-- The marks from `d` to `d'` are those of the bytes `w`: their entries, and a range that reaches no further. -/
structure Covers (d d' : Dirty) (w : Set ℤ) : Prop where
  copy : ∀ k, d'.copy k = true ↔ d.copy k = true ∨ k ∈ (· / 4) '' w
  low : IsLeast (insert d.low ((· / 4) '' w)) d'.low
  high : IsGreatest (insert d.high ((· / 4) '' w)) d'.high
  total : (w = ∅ ∧ d'.total = d.total) ∨ (w.Nonempty ∧ d.total < d'.total)

variable {d d' d'' : Dirty} {v w : Set ℤ}

theorem covers_empty : d.Covers d' ∅ ↔ d' = d := by
  constructor
  · rintro ⟨hcopy, hlow, hhigh, htotal⟩
    rw [Set.image_empty] at hcopy hlow hhigh
    ext k
    · simpa using hcopy k
    · exact (by simpa using hlow.1 : d'.low = d.low)
    · exact (by simpa using hhigh.1 : d'.high = d.high)
    · exact (by simpa using htotal : d'.total = d.total)
  · rintro rfl
    exact ⟨by simp, by simp, by simp, .inl ⟨rfl, rfl⟩⟩

theorem Covers.trans (hv : d.Covers d' v) (hw : d'.Covers d'' w) : d.Covers d'' (v ∪ w) where
  copy k := by rw [hw.copy, hv.copy, Set.image_union, Set.mem_union, or_assoc]
  low := by
    rw [Set.image_union, ← Set.insert_union]
    constructor
    · obtain h | h := hw.low.1
      · exact .inl (h ▸ hv.low.1)
      · exact .inr h
    · rintro k (hk | hk)
      · exact (hw.low.2 (Set.mem_insert _ _)).trans (hv.low.2 hk)
      · exact hw.low.2 (Set.mem_insert_of_mem _ hk)
  high := by
    rw [Set.image_union, ← Set.insert_union]
    constructor
    · obtain h | h := hw.high.1
      · exact .inl (h ▸ hv.high.1)
      · exact .inr h
    · rintro k (hk | hk)
      · exact (hv.high.2 hk).trans (hw.high.2 (Set.mem_insert _ _))
      · exact hw.high.2 (Set.mem_insert_of_mem _ hk)
  total := by
    obtain ⟨rfl, htotal⟩ | ⟨hne, htotal⟩ := hv.total <;> obtain ⟨rfl, htotal'⟩ | ⟨hne', htotal'⟩ := hw.total
    · exact .inl ⟨Set.union_empty _, htotal'.trans htotal⟩
    · exact .inr ⟨hne'.inr, htotal ▸ htotal'⟩
    · exact .inr ⟨hne.inl, htotal' ▸ htotal⟩
    · exact .inr ⟨hne.inl, htotal.trans htotal'⟩

/-- A mark of some bytes. -/
theorem covers_markString {lo hi : ℤ} (h : lo ≤ hi) : d.Covers (d.markString lo hi) (Set.Icc lo hi) := by
  have himage : (· / 4) '' Set.Icc lo hi = Set.Icc (lo / 4) (hi / 4) := by
    ext k
    constructor
    · rintro ⟨a, ⟨ha, ha'⟩, rfl⟩
      exact ⟨Int.ediv_le_ediv (by decide) ha, Int.ediv_le_ediv (by decide) ha'⟩
    · rintro ⟨hk, hk'⟩
      refine ⟨max lo (4 * k), ⟨le_max_left _ _, max_le h ?_⟩, ?_⟩
      · omega
      · dsimp only
        omega
  refine ⟨fun k => ?_, ?_, ?_, .inr ⟨⟨lo, le_rfl, h⟩, ?_⟩⟩
  · simp [markString, himage, or_comm]
  · rw [himage]
    dsimp only [markString]
    refine ⟨?_, fun k hk => ?_⟩
    · split_ifs
      · exact .inr ⟨le_rfl, Int.ediv_le_ediv (by decide) h⟩
      · exact .inl rfl
    · obtain rfl | ⟨hk, -⟩ := hk <;> split_ifs <;> omega
  · rw [himage]
    dsimp only [markString]
    refine ⟨?_, fun k hk => ?_⟩
    · split_ifs
      · exact .inr ⟨Int.ediv_le_ediv (by decide) h, le_rfl⟩
      · exact .inl rfl
    · obtain rfl | ⟨-, hk⟩ := hk <;> split_ifs <;> omega
  · dsimp only [markString]
    omega

/-! ### Rows -/

/-- The mark of a row after the other; `f` is where a row starts. -/
def markRows (f : ℕ → ℤ) (more : ℤ) (rows : ℕ) (d : Dirty) : Dirty :=
  (List.range rows).foldl (fun d i => d.markString (f i) (f i + more)) d

@[simp] theorem markRows_zero {f : ℕ → ℤ} {more : ℤ} : markRows f more 0 d = d := rfl

variable {f : ℕ → ℤ} {more : ℤ} {rows : ℕ}

theorem markRows_succ : markRows f more (rows + 1) d =
    (markRows f more rows d).markString (f rows) (f rows + more) := by
  simp [markRows, List.range_succ]

theorem covers_markRows (h : 0 ≤ more) :
    d.Covers (markRows f more rows d) {a | ∃ i < rows, a ∈ Set.Icc (f i) (f i + more)} := by
  induction rows with
  | zero => simpa using covers_empty.2 rfl
  | succ rows ih =>
    rw [markRows_succ]
    convert ih.trans (covers_markString (le_add_of_nonneg_right h)) using 1
    ext a
    simp only [Set.mem_ofPred_eq, Set.mem_union, Nat.lt_succ_iff_lt_or_eq, or_and_right, exists_or, exists_eq_left]

/-! ### The marks of no bytes -/

/-- No mark is taken back. -/
structure Grows (d d' : Dirty) : Prop where
  copy : ∀ k, d.copy k = true → d'.copy k = true
  low : d'.low ≤ d.low
  high : d.high ≤ d'.high
  total : d.total ≤ d'.total

theorem Grows.refl (d : Dirty) : d.Grows d := ⟨fun _ h => h, le_rfl, le_rfl, le_rfl⟩

theorem Grows.trans (h : d.Grows d') (h' : d'.Grows d'') : d.Grows d'' :=
  ⟨fun k hk => h'.copy k (h.copy k hk), h'.low.trans h.low, h.high.trans h'.high, h.total.trans h'.total⟩

theorem Grows.antisymm (h : d.Grows d') (h' : d'.Grows d) : d = d' :=
  Dirty.ext (funext fun k => Bool.eq_iff_iff.mpr ⟨h.copy k, h'.copy k⟩) (h'.low.antisymm h.low)
    (h.high.antisymm h'.high) (h.total.antisymm h'.total)

theorem grows_markString {lo hi : ℤ} (h : lo ≤ hi + 1) : d.Grows (d.markString lo hi) := by
  refine ⟨fun k hk => ?_, ?_, ?_, ?_⟩ <;> dsimp only [markString]
  · rw [hk, Bool.or_true]
  · split_ifs <;> omega
  · split_ifs <;> omega
  · omega

theorem grows_markRows (h : -1 ≤ more) : d.Grows (markRows f more rows d) := by
  induction rows with
  | zero => exact Grows.refl d
  | succ rows ih =>
    rw [markRows_succ]
    exact ih.trans (grows_markString (by omega))

/-- The mark of no byte at `a` leaves all as it is: `a` starts an entry that the range has or adjoins. -/
def Quiet (d : Dirty) (a : ℤ) : Prop := a % 4 = 0 ∧ d.low ≤ a / 4 ∧ a / 4 ≤ d.high + 1

theorem markString_empty {a : ℤ} : d.markString a (a + -1) = d ↔ d.Quiet a := by
  have hdiv : a % 4 = 0 → (a + -1) / 4 = a / 4 - 1 := by omega
  constructor
  · intro h
    have hlow := congrArg Dirty.low h
    have hhigh := congrArg Dirty.high h
    have htotal := congrArg Dirty.total h
    dsimp only [markString] at hlow hhigh htotal
    refine ⟨by omega, ?_, ?_⟩
    · split_ifs at hlow <;> omega
    · split_ifs at hhigh <;> omega
  · rintro ⟨ha, hlow, hhigh⟩
    ext k <;> dsimp only [markString]
    · rw [hdiv ha, decide_eq_false (by omega), Bool.false_or]
    · exact if_neg (by omega)
    · rw [hdiv ha]
      exact if_neg (by omega)
    · omega

/-- …of the rows. -/
theorem markRows_empty : markRows f (-1) rows d = d ↔ ∀ i < rows, d.Quiet (f i) := by
  induction rows with
  | zero => simp
  | succ rows ih =>
    have hsplit : (∀ i < rows + 1, d.Quiet (f i)) ↔ (∀ i < rows, d.Quiet (f i)) ∧ d.Quiet (f rows) := by
      simp only [Nat.lt_succ_iff_lt_or_eq, or_imp, forall_and, forall_eq]
    rw [markRows_succ, hsplit, ← ih]
    constructor
    · intro h
      have hrows : markRows f (-1) rows d = d :=
        (Grows.antisymm (grows_markRows le_rfl) (h.subst (grows_markString (by omega)))).symm
      rw [hrows] at h
      exact ⟨hrows, markString_empty.1 h⟩
    · rintro ⟨hrows, h⟩
      rw [hrows]
      exact markString_empty.2 h

/-! ### The places of rows -/

/-- The first `n` places of each row. -/
def inRows (rows stride off n : ℕ) : Set ℕ := {a | ∃ i < rows, ∃ j < n, a = off + i * stride + j}

/-- The marks of the rows are of their places, or there are none to be seen. -/
theorem covers_inRows {stride off n : ℕ} :
    d.Covers (d.markRows (fun i => (off + i * stride : ℕ)) (n - 1) rows) ((↑) '' inRows rows stride off n) ↔
      (n = 0 → ∀ i < rows, d.Quiet (off + i * stride : ℕ)) := by
  obtain rfl | hn := Nat.eq_zero_or_pos n
  · have hempty : inRows rows stride off 0 = ∅ := by
      ext a
      simp [inRows]
    rw [hempty, Set.image_empty, covers_empty]
    simp [markRows_empty]
  · refine iff_of_true ?_ fun h => absurd h hn.ne'
    convert covers_markRows (by omega : (0 : ℤ) ≤ n - 1) using 1
    ext a
    constructor
    · rintro ⟨a, ⟨i, hi, j, hj, rfl⟩, rfl⟩
      exact ⟨i, hi, by constructor <;> push_cast <;> omega⟩
    · rintro ⟨i, hi, hlo, hhi⟩
      obtain ⟨a, rfl⟩ := Int.eq_ofNat_of_zero_le ((Int.natCast_nonneg _).trans hlo)
      exact ⟨a, ⟨i, hi, a - (off + i * stride), by omega, by omega⟩, rfl⟩

end Dirty

end SoftPC.Video.EgaBios
