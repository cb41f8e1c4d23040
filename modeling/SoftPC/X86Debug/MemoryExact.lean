import SoftPC.Machinery.Copies
import SoftPC.X86Debug.Reading

/-!
# X86Debug/MemoryExact — the memory commands do what they say, but for two

    M  00:0  L 20  →  00:fff8      ↤ the destination wraps, and is over the source
    XS  0 100  "…33 characters…"   ↤ more than a packet

What a command is to do with its bytes (`Action.Exact`), and the arguments for which it does not
(`Action.Slips`).  Bytes are moved backward if the destination is above the source; where it wraps it goes on
below, and there writes over bytes that are not read yet.  Nor is anything moved if both ranges begin at one
place, although they part where one wraps.
-/

namespace SoftPC.X86Debug

/-! ## What is to be done -/

/-- Each position where `P` holds is reported, once, and nothing else is. -/
def ReportsExactly (reports : List Report) (P : ℕ → Prop) (report : ℕ → Report) : Prop :=
  reports.Nodup ∧ ∀ rep, rep ∈ reports ↔ ∃ i, P i ∧ report i = rep

/-- The range is filled with the list over and over, and nothing else is written. -/
def FilledExactly (place : ℕ → BitVec 32) (count : ℕ) (bytes : List (BitVec 8)) (ram ram' : Ram) : Prop :=
  (∀ i < count, ram' (place i) = bytes.getD (i % bytes.length) 0) ∧ ∀ a, (∀ i < count, place i ≠ a) → ram' a = ram a

/-- The destination is what the source was, and nothing else is written. -/
def MovedExactly (src dst : ℕ → BitVec 32) (count : ℕ) (ram ram' : Ram) : Prop :=
  (∀ i < count, ram' (dst i) = ram (src i)) ∧ ∀ a, (∀ i < count, dst i ≠ a) → ram' a = ram a

/-- The whole list is at a position, in the range. -/
def Matches (place : ℕ → BitVec 32) (count : ℕ) (bytes : List (BitVec 8)) (ram : Ram) (i : ℕ) : Prop :=
  i + bytes.length ≤ count ∧ ∀ j < bytes.length, ram (place (i + j)) = bytes.getD j 0

/-- What a command is for. -/
def Action.Exact (ram : Ram) (out : Outcome) : Action → Prop
  | .compare seg1 ptr1 seg ptr count =>
    out.ram = ram ∧ ReportsExactly out.reports
      (fun i => i < count ∧ ram (inSegment seg1 ptr1 i) ≠ ram (inSegment seg ptr i))
      fun i => .differ seg1 (ptr1 + .ofNat 16 i) (ram (inSegment seg1 ptr1 i)) (ram (inSegment seg ptr i))
        seg (ptr + .ofNat 16 i)
  | .fill seg ptr count bytes => FilledExactly (inSegment seg ptr) count bytes ram out.ram
  | .move seg1 ptr1 seg ptr count => MovedExactly (inSegment seg1 ptr1) (inSegment seg ptr) count ram out.ram
  | .search seg ptr count bytes =>
    out.ram = ram ∧ ReportsExactly out.reports (Matches (inSegment seg ptr) count bytes ram)
      fun i => .found seg (ptr + .ofNat 16 i)
  | .compareLinear lin1 lin2 count =>
    out.ram = ram ∧ ReportsExactly out.reports (fun i => i < count ∧ ram (inLine lin1 i) ≠ ram (inLine lin2 i))
      fun i => .differLinear (inLine lin1 i) (ram (inLine lin1 i)) (ram (inLine lin2 i)) (inLine lin2 i)
  | .fillLinear linear count bytes => FilledExactly (inLine linear) count bytes ram out.ram
  | .moveLinear lin1 lin2 count => MovedExactly (inLine lin1) (inLine lin2) count ram out.ram
  | .searchLinear linear count bytes =>
    out.ram = ram ∧ ReportsExactly out.reports (Matches (inLine linear) count bytes ram)
      fun i => .foundLinear (inLine linear i)

/-- When a command does something else: the destination wraps, and begins with the source or is written over
what is still to be read; or the list is more than a packet. -/
def Action.Slips : Action → Prop
  | .move seg1 ptr1 seg ptr count =>
    0x10000 < ptr.toNat + count ∧
      (real seg1 ptr1 = real seg ptr ∨
        (real seg1 ptr1).toNat < (real seg ptr).toNat ∧
          (real seg ptr).toNat - (real seg1 ptr1).toNat < 0x10000 ∧
            0x10000 < count + ((real seg ptr).toNat - (real seg1 ptr1).toNat))
  | .searchLinear _ count bytes => packet < bytes.length ∧ bytes.length ≤ count
  | _ => False

/-! ## Places -/

/-- Places of a range differ. -/
def Apart (place : ℕ → BitVec 32) (count : ℕ) : Prop := ∀ i < count, ∀ j < count, place i = place j → i = j

theorem Apart.mono {place : ℕ → BitVec 32} {n count : ℕ} (h : Apart place count) (hn : n ≤ count) : Apart place n :=
  fun i hi j hj => h i (Nat.lt_of_lt_of_le hi hn) j (Nat.lt_of_lt_of_le hj hn)

theorem real_toNat (seg off : BitVec 16) : (real seg off).toNat = seg.toNat * 16 + off.toNat := by
  have hseg := seg.isLt
  have hoff := off.isLt
  simp only [real, BitVec.toNat_add, BitVec.toNat_shiftLeft, BitVec.toNat_setWidth, Nat.shiftLeft_eq]
  omega

theorem offset_toNat (ptr : BitVec 16) (i : ℕ) : (ptr + .ofNat 16 i).toNat = (ptr.toNat + i) % 0x10000 := by
  simp [BitVec.toNat_add]

theorem inSegment_toNat (seg ptr : BitVec 16) (i : ℕ) :
    (inSegment seg ptr i).toNat = seg.toNat * 16 + (ptr.toNat + i) % 0x10000 := by
  rw [inSegment, real_toNat, offset_toNat]

theorem inLine_toNat {linear : BitVec 32} {i : ℕ} (h : linear.toNat + i < 2 ^ 32) :
    (inLine linear i).toNat = linear.toNat + i := by
  simp only [inLine, BitVec.toNat_add, BitVec.toNat_ofNat]
  omega

/-- 64K offsets differ… -/
theorem offset_inj {ptr : BitVec 16} {i j : ℕ} (hi : i < 0x10000) (hj : j < 0x10000)
    (h : ptr + .ofNat 16 i = ptr + .ofNat 16 j) : i = j := by
  have := congrArg BitVec.toNat h
  rw [offset_toNat, offset_toNat] at this
  omega

/-- …and so do their places. -/
theorem apart_inSegment (seg ptr : BitVec 16) {count : ℕ} (hcount : count ≤ 0x10000) :
    Apart (inSegment seg ptr) count := by
  intro i hi j hj h
  have := congrArg BitVec.toNat h
  rw [inSegment_toNat, inSegment_toNat] at this
  omega

theorem apart_inLine {linear : BitVec 32} {count : ℕ} (h : linear.toNat + count ≤ 2 ^ 32) :
    Apart (inLine linear) count := by
  intro i hi j hj heq
  have := congrArg BitVec.toNat heq
  rw [inLine_toNat (by omega), inLine_toNat (by omega)] at this
  omega

/-! ## Reports -/

/-- A report of each of some positions. -/
theorem reportsExactly_map {l : List ℕ} (hl : l.Nodup) {P : ℕ → Prop} (hP : ∀ i, i ∈ l ↔ P i) {report : ℕ → Report}
    (hreport : ∀ i j, P i → P j → report i = report j → i = j) : ReportsExactly (l.map report) P report := by
  constructor
  · exact List.Nodup.map_on (fun i hi j hj => hreport i j ((hP i).mp hi) ((hP j).mp hj)) hl
  · intro rep
    simp only [List.mem_map, hP]

/-- The positions at which ranges differ are reported. -/
theorem differing_exact {at1 at2 : ℕ → BitVec 32} {count : ℕ} {ram : Ram} {report : ℕ → Report}
    (hreport : ∀ i < count, ∀ j < count, report i = report j → i = j) :
    ReportsExactly ((differing at1 at2 count ram).map report) (fun i => i < count ∧ ram (at1 i) ≠ ram (at2 i)) report := by
  refine reportsExactly_map (List.nodup_range.filter _) (fun i => ?_) fun i j hi hj => hreport i hi.1 j hj.1
  simp

/-- The positions at which a list is are reported. -/
theorem matched_exact {place : ℕ → BitVec 32} {count : ℕ} {bytes : List (BitVec 8)} (hbytes : bytes ≠ []) {ram : Ram}
    {report : ℕ → Report} (hreport : ∀ i < count, ∀ j < count, report i = report j → i = j) :
    ReportsExactly ((matched place count bytes ram).map report) (Matches place count bytes ram) report := by
  have hlength := List.length_pos_iff.mpr hbytes
  have hlt {i : ℕ} (h : Matches place count bytes ram i) : i < count := by
    have := h.1
    omega
  refine reportsExactly_map ?_ (fun i => ?_) fun i j hi hj => hreport i (hlt hi) j (hlt hj)
  · unfold matched
    split
    · exact List.nodup_nil
    · exact List.nodup_range.filter _
  · unfold matched Matches
    split
    · constructor
      · exact fun h => absurd h List.not_mem_nil
      · rintro ⟨h, -⟩
        omega
    · simp only [List.mem_filter, List.mem_range, List.all_eq_true, decide_eq_true_eq]
      exact and_congr_left' (by omega)

/-! ## Filling -/

theorem filled_succ (place : ℕ → BitVec 32) (count : ℕ) (bytes : List (BitVec 8)) (ram : Ram) :
    filled place (count + 1) bytes ram =
      Function.update (filled place count bytes ram) (place count) (bytes.getD (count % bytes.length) 0) := by
  simp only [filled, List.range_succ, List.foldl_append, List.foldl_cons, List.foldl_nil]

/-- What is not in the range is kept… -/
theorem filled_of_ne {place : ℕ → BitVec 32} {count : ℕ} {a : BitVec 32} (ha : ∀ i < count, place i ≠ a)
    (bytes : List (BitVec 8)) (ram : Ram) : filled place count bytes ram a = ram a := by
  induction count with
  | zero => rfl
  | succ count ih =>
    rw [filled_succ, Function.update_of_ne (ha count (Nat.lt_succ_self count)).symm]
    exact ih fun i hi => ha i (Nat.lt_succ_of_lt hi)

/-- …and the range is filled. -/
theorem filled_exact {place : ℕ → BitVec 32} {count : ℕ} (h : Apart place count) (bytes : List (BitVec 8)) (ram : Ram) :
    FilledExactly place count bytes ram (filled place count bytes ram) := by
  refine ⟨?_, fun a ha => filled_of_ne ha bytes ram⟩
  induction count with
  | zero => exact fun i hi => absurd hi (Nat.not_lt_zero i)
  | succ count ih =>
    intro i hi
    rw [filled_succ]
    by_cases hlast : i = count
    · rw [hlast, Function.update_self]
    · have hne : place i ≠ place count := fun heq => hlast (h i hi count (Nat.lt_succ_self count) heq)
      rw [Function.update_of_ne hne, ih (h.mono (Nat.le_succ count)) i (by omega)]

/-! ## Moving -/

variable {src dst : ℕ → BitVec 32} {count : ℕ}

/-- The moves, in order. -/
def moves (src dst : ℕ → BitVec 32) (backward : Bool) (count : ℕ) : List (BitVec 32 × BitVec 32) :=
  (List.range count).map fun i => (src (step backward count i), dst (step backward count i))

theorem step_lt (backward : Bool) {i : ℕ} (hi : i < count) : step backward count i < count := by
  unfold step
  split <;> omega

theorem step_step (backward : Bool) {i : ℕ} (hi : i < count) : step backward count (step backward count i) = i := by
  unfold step
  split <;> omega

theorem mem_moves (backward : Bool) (p : BitVec 32 × BitVec 32) :
    p ∈ moves src dst backward count ↔ ∃ i < count, (src i, dst i) = p := by
  simp only [moves, List.mem_map, List.mem_range]
  constructor
  · rintro ⟨i, hi, rfl⟩
    exact ⟨_, step_lt backward hi, rfl⟩
  · rintro ⟨i, hi, rfl⟩
    exact ⟨_, step_lt backward hi, by rw [step_step backward hi]⟩

/-- The steps of moves are apart. -/
theorem Apart.nodup_step {place : ℕ → BitVec 32} (h : Apart place count) (backward : Bool) :
    ((List.range count).map fun i => place (step backward count i)).Nodup := by
  refine List.Nodup.map_on (fun i hi j hj heq => ?_) List.nodup_range
  rw [List.mem_range] at hi hj
  have hstep := h _ (step_lt backward hi) _ (step_lt backward hj) heq
  rw [← step_step backward hi, hstep, step_step backward hj]

theorem moved_eq_copies (src dst : ℕ → BitVec 32) (backward : Bool) (count : ℕ) (ram : Ram) :
    moved src dst backward count ram = copies (moves src dst backward count) ram := by
  rw [copies_eq_foldl, moves, List.foldl_map, moved]

/-- **Moves are exact** if what is at a place arrives. -/
theorem movedExactly_iff_arrives (backward : Bool) (ram : Ram) :
    MovedExactly src dst count ram (moved src dst backward count ram) ↔ Arrives (moves src dst backward count) ram := by
  rw [moved_eq_copies]
  constructor
  · rintro ⟨h, -⟩ p hp
    obtain ⟨i, hi, rfl⟩ := (mem_moves backward p).mp hp
    exact h i hi
  · intro h
    refine ⟨fun i hi => h (src i, dst i) ((mem_moves backward _).mpr ⟨i, hi, rfl⟩), fun a ha => copies_of_not_mem ?_ ram⟩
    intro hmem
    obtain ⟨p, hp, rfl⟩ := List.mem_map.mp hmem
    obtain ⟨i, hi, rfl⟩ := (mem_moves backward p).mp hp
    exact ha i hi rfl

/-- …which is so if nothing is written that is read later. -/
theorem moved_exact_iff (hsrc : Apart src count) (hdst : Apart dst count) (backward : Bool) :
    (∀ ram, MovedExactly src dst count ram (moved src dst backward count ram)) ↔
      ∀ i j, i < j → j < count → dst (step backward count i) ≠ src (step backward count j) := by
  have hfst := hsrc.nodup_step backward
  have hsnd := hdst.nodup_step backward
  rw [forall_congr' fun ram => movedExactly_iff_arrives backward ram,
    arrives_iff (by rwa [moves, List.map_map]) (by rwa [moves, List.map_map]) (by decide : (0 : BitVec 8) ≠ 1),
    Untouched, moves, List.pairwise_map, List.pairwise_iff_getElem]
  simp only [List.length_range, List.getElem_range]
  exact ⟨fun h i j hij hj => h i j (by omega) hj hij, fun h i j _ hj hij => h i j hij hj⟩

/-- Forward, an earlier byte is not moved to a later one. -/
theorem moved_forward_iff (hsrc : Apart src count) (hdst : Apart dst count) :
    (∀ ram, MovedExactly src dst count ram (moved src dst false count ram)) ↔
      ∀ i j, i < j → j < count → dst i ≠ src j := by
  simpa [step] using moved_exact_iff hsrc hdst false

/-- Backward, a later one is not moved to an earlier. -/
theorem moved_backward_iff (hsrc : Apart src count) (hdst : Apart dst count) :
    (∀ ram, MovedExactly src dst count ram (moved src dst true count ram)) ↔
      ∀ i j, i < j → j < count → dst j ≠ src i := by
  rw [moved_exact_iff hsrc hdst true]
  constructor
  · intro h i j hij hj
    have := h (count - 1 - j) (count - 1 - i) (by omega) (by omega)
    rwa [step, step, if_pos rfl, if_pos rfl, show count - 1 - (count - 1 - j) = j by omega,
      show count - 1 - (count - 1 - i) = i by omega] at this
  · intro h i j hij hj
    simp only [step, if_true]
    exact h _ _ (by omega) (by omega)

/-- Nothing needs to be moved only if it is there. -/
theorem unmoved_exact_iff : (∀ ram : Ram, MovedExactly src dst count ram ram) ↔ ∀ i < count, dst i = src i := by
  constructor
  · intro h i hi
    have hmoved := (h fun a => if a = src i then 1 else 0).1 i hi
    by_contra hne
    simp only [if_neg hne, if_true] at hmoved
    exact absurd hmoved (by decide)
  · exact fun h ram => ⟨fun i hi => congrArg ram (h i hi), fun _ _ => rfl⟩

theorem toNat_ne {a b : BitVec 32} (h : a.toNat ≠ b.toNat) : a ≠ b := fun heq => h (congrArg BitVec.toNat heq)

/-- **`m`** is exact but where it slips. -/
theorem m_exact_iff (seg1 ptr1 seg ptr : BitVec 16) {count : ℕ} (hfits : ptr1.toNat + count ≤ 0x10000) :
    (∀ ram, (Action.move seg1 ptr1 seg ptr count).Exact ram ((Action.move seg1 ptr1 seg ptr count).run ram)) ↔
      ¬(Action.move seg1 ptr1 seg ptr count).Slips := by
  have hsrc := apart_inSegment seg1 ptr1 (show count ≤ 0x10000 by omega)
  have hdst := apart_inSegment seg ptr (show count ≤ 0x10000 by omega)
  have hread {i : ℕ} (hi : i < count) : (inSegment seg1 ptr1 i).toNat = (real seg1 ptr1).toNat + i := by
    rw [inSegment_toNat, real_toNat, Nat.mod_eq_of_lt (by omega), Nat.add_assoc]
  have hwrite (i : ℕ) := inSegment_toNat seg ptr i
  have hlin := real_toNat seg ptr
  have hptr := ptr.isLt
  by_cases hsame : real seg1 ptr1 = real seg ptr
  · have hrun ram : ((Action.move seg1 ptr1 seg ptr count).run ram).ram = ram := by rw [Action.run, if_pos hsame]
    simp only [Action.Exact, Action.Slips, hrun, unmoved_exact_iff, hsame, true_or, and_true]
    rw [hsame] at hread
    constructor
    · intro h hwrap
      have hlast := congrArg BitVec.toNat (h (count - 1) (by omega))
      rw [hwrite, hread (by omega)] at hlast
      omega
    · intro h i hi
      apply BitVec.eq_of_toNat_eq
      rw [hwrite, hread hi]
      omega
  · have hne : (real seg1 ptr1).toNat ≠ (real seg ptr).toNat := fun h => hsame (BitVec.eq_of_toNat_eq h)
    by_cases hbelow : (real seg1 ptr1).toNat < (real seg ptr).toNat
    · have hrun ram : ((Action.move seg1 ptr1 seg ptr count).run ram).ram =
          moved (inSegment seg1 ptr1) (inSegment seg ptr) true count ram := by
        rw [Action.run, if_neg hsame, decide_eq_true (BitVec.lt_def.mpr hbelow)]
      simp only [Action.Exact, Action.Slips, hrun, moved_backward_iff hsrc hdst, hsame, hbelow, false_or, true_and]
      constructor
      · rintro h ⟨hwrap, hnear, hover⟩
        -- The last byte is moved to one that is not read yet.
        refine h (count + ((real seg ptr).toNat - (real seg1 ptr1).toNat) - 0x10001) (count - 1) (by omega) (by omega)
          (BitVec.eq_of_toNat_eq ?_)
        rw [hwrite, hread (by omega)]
        omega
      · intro h i j hij hj
        apply toNat_ne
        rw [hwrite, hread (by omega)]
        omega
    · have hrun ram : ((Action.move seg1 ptr1 seg ptr count).run ram).ram =
          moved (inSegment seg1 ptr1) (inSegment seg ptr) false count ram := by
        rw [Action.run, if_neg hsame, decide_eq_false (mt BitVec.lt_def.mp hbelow)]
      simp only [Action.Exact, Action.Slips, hrun, moved_forward_iff hsrc hdst, hsame, hbelow, false_or, false_and,
        and_false, not_false_eq_true, iff_true]
      intro i j hij hj
      apply toNat_ne
      rw [hwrite, hread hj]
      omega

/-- `xm` is exact. -/
theorem xm_exact {lin1 lin2 : BitVec 32} {count : ℕ} (h1 : lin1.toNat + count ≤ 2 ^ 32)
    (h2 : lin2.toNat + count ≤ 2 ^ 32) (ram : Ram) :
    (Action.moveLinear lin1 lin2 count).Exact ram ((Action.moveLinear lin1 lin2 count).run ram) := by
  have hread {i : ℕ} (hi : i < count) := inLine_toNat (show lin1.toNat + i < 2 ^ 32 by omega)
  have hwrite {i : ℕ} (hi : i < count) := inLine_toNat (show lin2.toNat + i < 2 ^ 32 by omega)
  simp only [Action.Exact, Action.run]
  by_cases hsame : lin1 = lin2
  · rw [if_pos hsame, hsame]
    exact unmoved_exact_iff.2 (fun _ _ => rfl) ram
  · rw [if_neg hsame]
    by_cases hbelow : lin1 < lin2
    · rw [decide_eq_true hbelow]
      refine (moved_backward_iff (apart_inLine h1) (apart_inLine h2)).mpr (fun i j hij hj => toNat_ne ?_) ram
      rw [hread (by omega), hwrite hj]
      have := BitVec.lt_def.mp hbelow
      omega
    · rw [decide_eq_false hbelow]
      refine (moved_forward_iff (apart_inLine h1) (apart_inLine h2)).mpr (fun i j hij hj => toNat_ne ?_) ram
      rw [hread hj, hwrite (by omega)]
      have := BitVec.le_def.mp (BitVec.not_lt.mp hbelow)
      omega

/-! ## Commands -/

/-- **`xs`** is exact but where it slips. -/
theorem xs_exact_iff {linear : BitVec 32} {count : ℕ} {bytes : List (BitVec 8)}
    (h : linear.toNat + count ≤ 2 ^ 32) (hbytes : bytes ≠ []) (hshort : bytes.length < 256) :
    (∀ ram, (Action.searchLinear linear count bytes).Exact ram ((Action.searchLinear linear count bytes).run ram)) ↔
      ¬(Action.searchLinear linear count bytes).Slips := by
  have hplace {i : ℕ} (hi : i < count) := inLine_toNat (show linear.toNat + i < 2 ^ 32 by omega)
  have hexact (ram : Ram) : ReportsExactly
      ((matched (inLine linear) count bytes ram).map fun i => .foundLinear (inLine linear i))
      (Matches (inLine linear) count bytes ram) fun i => .foundLinear (inLine linear i) :=
    matched_exact hbytes fun i hi j hj heq => apart_inLine h i hi j hj (Report.foundLinear.inj heq)
  have hmod : bytes.length % 2 ^ 8 = bytes.length := Nat.mod_eq_of_lt hshort
  simp only [Action.Exact, Action.Slips, Action.run, hmod]
  by_cases hfew : count < bytes.length
  · have hnone ram : matched (inLine linear) count bytes ram = [] := by rw [matched, if_pos hfew]
    refine iff_of_true (fun ram => ?_) fun hslip => by omega
    have := hexact ram
    rw [hnone] at this
    rw [if_pos hfew]
    exact ⟨rfl, this⟩
  · simp only [if_neg hfew]
    by_cases hlong : packet < bytes.length
    · refine iff_of_false (fun hall => ?_) fun hslip => hslip ⟨hlong, by omega⟩
      -- The list is at the start of the range.
      let ram : Ram := fun a => bytes.getD (a.toNat - linear.toNat) 0
      have hmatch : Matches (inLine linear) count bytes ram 0 := by
        refine ⟨by omega, fun j hj => ?_⟩
        simp only [ram]
        rw [hplace (by omega), show linear.toNat + (0 + j) - linear.toNat = j by omega]
      have hreport := (hall ram).2.2 (.foundLinear (inLine linear 0))
      rw [if_pos hlong] at hreport
      exact absurd (hreport.mpr ⟨0, hmatch, rfl⟩) List.not_mem_nil
    · refine iff_of_true (fun ram => ?_) fun hslip => hlong hslip.1
      rw [if_neg hlong]
      exact ⟨rfl, hexact ram⟩

/-- **A command is exact** but where it slips. -/
theorem Action.exact_iff (action : Action) (h : action.Sound) :
    (∀ ram, action.Exact ram (action.run ram)) ↔ ¬action.Slips := by
  cases action with
  | compare seg1 ptr1 seg ptr count =>
    have hfits : ptr1.toNat + count ≤ 0x10000 := h
    refine iff_of_true (fun ram => ⟨rfl, differing_exact fun i hi j hj heq => ?_⟩) not_false
    exact offset_inj (by omega) (by omega) (Report.differ.inj heq).2.1
  | fill seg ptr count bytes =>
    have hfits : ptr.toNat + count ≤ 0x10000 := h.1
    exact iff_of_true (filled_exact (apart_inSegment seg ptr (by omega)) bytes) not_false
  | move seg1 ptr1 seg ptr count => exact m_exact_iff seg1 ptr1 seg ptr h
  | search seg ptr count bytes =>
    have hfits : ptr.toNat + count ≤ 0x10000 := h.1
    refine iff_of_true (fun ram => ⟨rfl, matched_exact h.2 fun i hi j hj heq => ?_⟩) not_false
    exact offset_inj (by omega) (by omega) (Report.found.inj heq).2
  | compareLinear lin1 lin2 count =>
    refine iff_of_true (fun ram => ⟨rfl, differing_exact fun i hi j hj heq => ?_⟩) not_false
    exact apart_inLine h.1 i hi j hj (Report.differLinear.inj heq).1
  | fillLinear linear count bytes => exact iff_of_true (filled_exact (apart_inLine h.1) bytes) not_false
  | moveLinear lin1 lin2 count => exact iff_of_true (xm_exact h.1 h.2) not_false
  | searchLinear linear count bytes => exact xs_exact_iff h.1 h.2.1 h.2.2

/-! ## Lines -/

/-- The command that a line is carried out as. -/
def accepted (regs : SegmentRegs) (r : Reading) (line : Text) : Option Action :=
  if 256 ≤ line.length then none else (readLine regs r line).bind (·.1)

/-- A memory command does what it is for, and one that is not accepted does nothing. -/
def Described (regs : SegmentRegs) (r : Reading) (line : Text) : Prop :=
  ∀ ram out nErrPos, submit regs r line ram = some (out, nErrPos) →
    match accepted regs r line with
    | some action => action.Exact ram out
    | none => out.ram = ram

theorem sound_of_accepted {regs : SegmentRegs} {r : Reading} {line : Text} {action : Action}
    (h : accepted regs r line = some action) : action.Sound := by
  unfold accepted at h
  split at h
  · cases h
  · obtain ⟨⟨_, r'⟩, hread, rfl⟩ := Option.bind_eq_some_iff.mp h
    exact (readLine_answered (Nat.not_le.mp ‹_›) hread).2

/-- A line that is accepted is carried out. -/
theorem submit_accepted {regs : SegmentRegs} {r : Reading} {line : Text} {action : Action}
    (h : accepted regs r line = some action) (ram : Ram) :
    ∃ nErrPos, submit regs r line ram = some (action.run ram, nErrPos) := by
  unfold accepted at h
  unfold submit
  split at h
  · cases h
  · obtain ⟨⟨_, r'⟩, hread, rfl⟩ := Option.bind_eq_some_iff.mp h
    rw [if_neg ‹_›, hread]
    exact ⟨_, rfl⟩

theorem Described.exact {regs : SegmentRegs} {r : Reading} {line : Text} {action : Action}
    (h : Described regs r line) (haccepted : accepted regs r line = some action) (ram : Ram) :
    action.Exact ram (action.run ram) := by
  obtain ⟨nErrPos, hsubmit⟩ := submit_accepted haccepted ram
  have hexact := h ram _ nErrPos hsubmit
  rwa [haccepted] at hexact

/-- One that is not leaves memory as it is. -/
theorem submit_rejected {regs : SegmentRegs} {r : Reading} {line : Text} (h : accepted regs r line = none)
    {ram : Ram} {out : Outcome} {nErrPos : ℕ} (hsubmit : submit regs r line ram = some (out, nErrPos)) :
    out.ram = ram := by
  unfold accepted at h
  unfold submit at hsubmit
  split at h
  · rw [if_pos ‹_›] at hsubmit
    cases hsubmit
    rfl
  · rw [if_neg ‹_›] at hsubmit
    obtain ⟨⟨action, r'⟩, hread, hout⟩ := Option.map_eq_some_iff.mp hsubmit
    rw [hread] at h
    cases action with
    | some action => cases h
    | none =>
      cases hout
      rfl

/-- **Memory commands do what they are for** exactly where they do not slip. -/
theorem memory_commands_exact (regs : SegmentRegs) (r : Reading) (line : Text) :
    Described regs r line ↔ ∀ action, accepted regs r line = some action → ¬action.Slips := by
  cases haccepted : accepted regs r line with
  | none =>
    refine iff_of_true (fun ram out nErrPos hout => ?_) fun _ h => nomatch h
    rw [haccepted]
    exact submit_rejected haccepted hout
  | some action =>
    simp only [Option.some.injEq, forall_eq']
    rw [← action.exact_iff (sound_of_accepted haccepted)]
    constructor
    · exact fun h => h.exact haccepted
    · intro h ram out nErrPos hout
      obtain ⟨_, hsubmit⟩ := submit_accepted haccepted ram
      obtain rfl := (Prod.mk.inj (Option.some.inj (hsubmit.symm.trans hout))).1
      rw [haccepted]
      exact h ram

/-- Two bytes are moved to the last place of their segment and over the first. -/
theorem move_wrapped_torn : ¬Described ⟨0, 0, 0, 0⟩ {} ("m 0:0 l 2 0:ffff".toList.map ch) := by
  intro h
  have hexact := h.exact (show accepted _ _ _ = some (.move 0 0 0 0xffff 2) by decide +kernel) (·.setWidth 8)
  have hmoved := hexact.1 0 (by decide)
  exact absurd hmoved (by decide)

end SoftPC.X86Debug
