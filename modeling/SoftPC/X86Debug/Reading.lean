import SoftPC.X86Debug.Memory

/-!
# X86Debug/Reading — what has been read is sound

    parse: Σ (length + 1) ≤ line + 1        scanrange: ptr + count ≤ 64K        xcheckrange: linear + count ≤ 4G

A command that is carried out has a range that does not pass the end of its segment, or 4G, and a list of at
least one byte that is shorter than the line; one that is not has been told where the error is
(`readLine_sound`).
-/

namespace SoftPC.X86Debug

variable {α β : Type} {regs : SegmentRegs} {args : List Arg} {r : Reading}

/-! ## What a scan ensures -/

/-- From a reading where `P` holds to one where `Q` does. -/
def Ensures (P : Reading → Prop) (x : Scan α) (Q : α → Reading → Prop) : Prop := ∀ r, P r → Q (x r).1 (x r).2

namespace Ensures

variable {P P' : Reading → Prop} {x y : Scan α} {Q Q' : α → Reading → Prop}

theorem pure {a : α} (h : ∀ r, P r → Q a r) : Ensures P (pure a) Q := h

theorem get : Ensures P get fun s r => s = r ∧ P r := fun _ h => ⟨rfl, h⟩

theorem bind {g : α → Scan β} {Q : β → Reading → Prop} (R : α → Reading → Prop) (hx : Ensures P x R)
    (hg : ∀ a, Ensures (R a) (g a) Q) : Ensures P (x >>= g) Q := fun r hr => hg _ _ (hx r hr)

theorem ite {p : Prop} [Decidable p] (hx : p → Ensures P x Q) (hy : ¬p → Ensures P y Q) :
    Ensures P (if p then x else y) Q := by
  split
  · exact hx ‹_›
  · exact hy ‹_›

theorem seterr (args : List Arg) (pos : ℕ) : Ensures P (seterr args pos) fun _ r => r.nErrPos ≠ 0 :=
  fun _ _ => Nat.succ_ne_zero _

theorem any (x : Scan α) : Ensures P x fun _ _ => True := fun _ _ => trivial

theorem and (h : Ensures P x Q) (h' : Ensures P' x Q') :
    Ensures (fun r => P r ∧ P' r) x fun a r => Q a r ∧ Q' a r := fun r hr => ⟨h r hr.1, h' r hr.2⟩

theorem mono (h : Ensures P x Q) (hP : ∀ r, P' r → P r) (hQ : ∀ a r, Q a r → Q' a r) : Ensures P' x Q' :=
  fun r hr => hQ _ _ (h r (hP r hr))

end Ensures

/-- The address that was read is kept. -/
def KeepsAddress (x : Scan α) : Prop := ∀ r, (x r).2.seg = r.seg ∧ (x r).2.ptr = r.ptr

namespace KeepsAddress

theorem pure (a : α) : KeepsAddress (pure a : Scan α) := fun _ => ⟨rfl, rfl⟩

theorem bind {x : Scan α} {g : α → Scan β} (hx : KeepsAddress x) (hg : ∀ a, KeepsAddress (g a)) :
    KeepsAddress (x >>= g) := fun r =>
  ⟨((hg _ _).1).trans (hx r).1, ((hg _ _).2).trans (hx r).2⟩

theorem seterr (args : List Arg) (pos : ℕ) : KeepsAddress (seterr args pos) := fun _ => ⟨rfl, rfl⟩

theorem get : KeepsAddress (get : Scan Reading) := fun _ => ⟨rfl, rfl⟩

theorem ite {p : Prop} [Decidable p] {x y : Scan α} (hx : KeepsAddress x) (hy : KeepsAddress y) :
    KeepsAddress (if p then x else y) := by
  split
  · exact hx
  · exact hy

theorem scannubFrom {w : ℕ} (args : List Arg) (digits i : ℕ) (ans : BitVec w) (s : Text) :
    KeepsAddress (scannubFrom args digits i ans s) := by
  induction s generalizing i ans with
  | nil => exact pure _
  | cons c s ih =>
    unfold X86Debug.scannubFrom
    refine ite (pure _) (ite (bind (seterr _ _) fun _ => pure _) ?_)
    cases digit c with
    | some d => exact ih _ _
    | none => exact bind (seterr _ _) fun _ => ih _ _

theorem scannubit8 (args : List Arg) (s : Text) : KeepsAddress (scannubit8 args s) := by
  unfold X86Debug.scannubit8
  split
  · exact pure _
  · exact scannubFrom _ _ _ _ _

theorem scanElement (args : List Arg) (i : ℕ) : KeepsAddress (scanElement args i) := by
  unfold X86Debug.scanElement
  cases argText args i with
  | nil => exact bind (scannubit8 _ _) fun _ => pure _
  | cons c rest =>
    refine ite ?_ (bind (scannubit8 _ _) fun _ => pure _)
    cases unquote c rest with
    | some bytes => exact pure _
    | none => exact bind (seterr _ _) fun _ => pure _

theorem scanElements (args : List Arg) (n i : ℕ) : KeepsAddress (scanElements args n i) := by
  induction n generalizing i with
  | zero => exact pure _
  | succ n ih =>
    exact bind (scanElement _ _) fun _ => bind get fun _ => ite (pure _) (bind (ih _) fun _ => pure _)

theorem scanlist (args : List Arg) (first : ℕ) : KeepsAddress (scanlist args first) :=
  bind (scanElements _ _ _) fun _ => bind get fun _ =>
    ite (bind (seterr _ _) fun _ => bind get fun _ => pure _) (bind get fun _ => pure _)

theorem ensures {x : Scan α} (h : KeepsAddress x) (I : BitVec 16 → Prop) :
    Ensures (fun r => I r.ptr) x fun _ r => I r.ptr := fun r hr =>
  (congrArg I (h r).2).mpr hr

end KeepsAddress

/-! ## Ranges and lists -/

/-- So many bytes from the offset on are in the segment. -/
def Fits (count : ℕ) (r : Reading) : Prop := count ≤ 0x10000 - r.ptr.toNat

/-- A range does not pass the end of its segment. -/
theorem scanrange_fits (regs : SegmentRegs) (args : List Arg) (seg : BitVec 16) (n : ℕ) :
    Ensures (fun _ => True) (scanrange regs args seg n) fun range r => Fits range.1 r := by
  unfold scanrange
  refine .ite (fun _ => .bind _ (.any _) fun _ => .pure fun _ _ => Nat.zero_le _) fun _ =>
    .bind _ (.any _) fun _ => .bind _ (.any _) fun extent => ?_
  match extent with
  | none => exact .pure fun _ _ => Nat.zero_le _
  | some (count, next) =>
    refine .bind _ .get fun s => .ite (fun _ => ?_) fun hshort => ?_
    · refine .bind _ (.seterr _ _) fun _ => .bind _ .get fun s' => .pure ?_
      rintro r ⟨rfl, herr⟩
      rw [if_pos herr]
      exact Nat.zero_le _
    · refine .bind _ .get fun s' => .pure ?_
      rintro r ⟨rfl, rfl, -⟩
      split
      · exact Nat.zero_le _
      · exact Nat.not_lt.mp hshort

/-- A list has at least one byte. -/
theorem scanlist_ne_nil (args : List Arg) (first : ℕ) :
    Ensures (fun _ => True) (scanlist args first) fun bytes r => r.nErrPos = 0 → bytes ≠ [] := by
  unfold scanlist
  refine .bind _ (.any _) fun bytes => .bind _ .get fun s => .ite (fun _ => ?_) fun hbytes => ?_
  · refine .bind _ (.seterr _ _) fun _ => .bind _ .get fun s' => .pure ?_
    rintro r ⟨rfl, herr⟩ h
    exact absurd h herr
  · refine .bind _ .get fun s' => .pure ?_
    rintro r ⟨rfl, rfl, -⟩ h
    rw [if_pos h]
    exact fun hnil => hbytes ⟨hnil, .inl h⟩

/-! ## Lengths -/

/-- The length of arguments, with what is between them. -/
def weight (args : List Arg) : ℕ := (args.map fun a => a.text.length + 1).sum

@[simp] theorem weight_nil : weight [] = 0 := rfl

@[simp] theorem weight_cons (a : Arg) (args : List Arg) : weight (a :: args) = a.text.length + 1 + weight args := rfl

/-- Every argument weighs something. -/
theorem weight_drop (args : List Arg) (i : ℕ) (hi : i ≤ args.length) : weight (args.drop i) + i ≤ weight args := by
  induction args generalizing i with
  | nil => simpa using hi
  | cons a args ih =>
    cases i with
    | zero => exact Nat.le_refl _
    | succ i =>
      have := ih i (Nat.le_of_succ_le_succ hi)
      rw [List.drop_succ_cons, weight_cons]
      omega

/-- An argument and what follows it are the line. -/
theorem token_length (quote : Option (BitVec 8)) (line : Text) :
    (token quote line).1.length + (token quote line).2.1.length = line.length := by
  fun_induction token quote line <;> simp_all <;> omega

theorem parseFrom_nil (rounds pos : ℕ) : parseFrom rounds pos [] = ([], false) := by
  cases rounds <;> rfl

/-- All arguments are from the line. -/
theorem weight_parseFrom (rounds pos : ℕ) (line : Text) : weight (parseFrom rounds pos line).1 ≤ line.length + 1 := by
  induction rounds generalizing pos line with
  | zero => exact Nat.zero_le _
  | succ rounds ih =>
    unfold parseFrom
    have hdrop := (List.dropWhile_sublist isDelimiter (l := line)).length_le
    cases hline : line.dropWhile isDelimiter with
    | nil => exact Nat.zero_le _
    | cons c cs =>
      have htoken := token_length none (c :: cs)
      rcases ht : token none (c :: cs) with ⟨text, rest, isOpen⟩
      rw [hline] at hdrop
      simp only [ht, List.length_cons] at htoken hdrop ⊢
      cases isOpen with
      | true =>
        simp only [if_true, weight_cons, weight_nil]
        omega
      | false =>
        -- A delimiter goes between the argument and the rest.
        cases rest with
        | nil =>
          simp only [List.tail_nil, parseFrom_nil, weight_cons, weight_nil, Bool.false_eq_true, if_false]
          simp only [List.length_nil] at htoken
          omega
        | cons d rest =>
          have hrest := ih (pos + (line.takeWhile isDelimiter).length + text.length + 1) rest
          simp only [List.tail_cons, weight_cons, Bool.false_eq_true, if_false]
          simp only [List.length_cons] at htoken
          omega

/-- What follows a letter without a blank is not longer for being an argument. -/
theorem weight_splitFirst (args : List Arg) : weight (splitFirst args).tail ≤ weight args := by
  cases args with
  | nil => exact Nat.le_refl _
  | cons a args =>
    by_cases hlong : 1 < a.text.length
    · simp only [splitFirst, if_pos hlong, List.tail_cons, weight_cons, List.length_tail]
      omega
    · simp only [splitFirst, if_neg hlong, List.tail_cons, weight_cons]
      omega

/-- So are the arguments of a command. -/
theorem weight_parse (line : Text) : weight (parse line).1.tail ≤ line.length + 1 :=
  Nat.le_trans (weight_splitFirst _) (weight_parseFrom _ _ _)

theorem unquote_length {quote : BitVec 8} {s bytes : Text} (h : unquote quote s = some bytes) :
    bytes.length ≤ s.length := by
  fun_induction unquote quote s generalizing bytes with
  | case1 => cases h
  | case2 =>
    cases h
    exact Nat.zero_le _
  | case3 => cases h
  | case4 rest ih =>
    obtain ⟨bytes, hrest, rfl⟩ := Option.map_eq_some_iff.mp h
    exact Nat.succ_le_succ (Nat.le_succ_of_le (ih hrest))
  | case5 => cases h
  | case6 c c' rest _ ih =>
    obtain ⟨bytes, hrest, rfl⟩ := Option.map_eq_some_iff.mp h
    exact Nat.succ_le_succ (ih hrest)

/-- An element is no longer than its argument, or is a byte. -/
theorem scanElement_length (args : List Arg) (i : ℕ) :
    Ensures (fun _ => True) (scanElement args i) fun bytes _ => bytes.length ≤ (argText args i).length + 1 := by
  unfold scanElement
  cases argText args i with
  | nil => exact .bind _ (.any _) fun _ => .pure fun _ _ => Nat.le_refl _
  | cons c rest =>
    refine .ite (fun _ => ?_) fun _ => .bind _ (.any _) fun _ => .pure fun _ _ => Nat.le_add_left _ _
    cases h : unquote c rest with
    | some bytes => exact .pure fun _ _ => Nat.le_trans (unquote_length h) (Nat.le_add_right _ 2)
    | none => exact .bind _ (.any _) fun _ => .pure fun _ _ => Nat.zero_le _

theorem scanElements_length (args : List Arg) (n i : ℕ) (hn : i + n ≤ args.length) :
    Ensures (fun _ => True) (scanElements args n i) fun bytes _ => bytes.length ≤ weight (args.drop i) := by
  induction n generalizing i with
  | zero => exact .pure fun _ _ => Nat.zero_le _
  | succ n ih =>
    have hi : i < args.length := by omega
    have htext : argText args i = args[i].text := by simp [argText, hi]
    rw [List.drop_eq_getElem_cons hi, weight_cons, ← htext]
    refine .bind _ (scanElement_length args i) fun bytes => .bind _ .get fun s => .ite
      (fun _ => .pure fun _ _ => Nat.zero_le _) fun _ =>
      .bind (fun rest _ => bytes.length ≤ (argText args i).length + 1 ∧ rest.length ≤ weight (args.drop (i + 1)))
        (fun r hr => ⟨hr.2, ih (i + 1) (by omega) r trivial⟩) fun rest => .pure ?_
    rintro r ⟨hbytes, hrest⟩
    rw [List.length_append]
    exact Nat.add_le_add hbytes hrest

/-- A list is no longer than its arguments. -/
theorem scanlist_length (args : List Arg) (first : ℕ) :
    Ensures (fun _ => True) (scanlist args first) fun bytes _ => bytes.length ≤ weight (args.drop first) := by
  have helements : Ensures (fun _ => True) (scanElements args (args.length - first) first)
      fun bytes _ => bytes.length ≤ weight (args.drop first) := by
    by_cases hfirst : first ≤ args.length
    · exact scanElements_length args _ first (by omega)
    · rw [Nat.sub_eq_zero_of_le (by omega)]
      exact .pure fun _ _ => Nat.zero_le _
  have hkept (bytes : List (BitVec 8)) : Ensures (fun _ => bytes.length ≤ weight (args.drop first))
      (do return if (← get).nErrPos = 0 then bytes else []) fun bytes _ => bytes.length ≤ weight (args.drop first) := by
    refine .bind _ .get fun s => .pure fun r hr => ?_
    split
    · exact hr.2
    · exact Nat.zero_le _
  unfold scanlist
  refine .bind _ helements fun bytes => .bind _ .get fun s => .ite (fun _ => ?_) fun _ => ?_
  · exact .bind (fun _ _ => bytes.length ≤ weight (args.drop first)) (fun r hr => hr.2) fun _ => hkept bytes
  · exact (hkept bytes).mono (fun r hr => hr.2) fun _ _ h => h

/-! ## Commands -/

/-- A command that can be carried out. -/
def Action.Sound : Action → Prop
  | .compare _ ptr1 _ _ count => ptr1.toNat + count ≤ 0x10000
  | .fill _ ptr count bytes => ptr.toNat + count ≤ 0x10000 ∧ bytes ≠ []
  | .move _ ptr1 _ _ count => ptr1.toNat + count ≤ 0x10000
  | .search _ ptr count bytes => ptr.toNat + count ≤ 0x10000 ∧ bytes ≠ []
  | .compareLinear lin1 lin2 count => lin1.toNat + count ≤ 2 ^ 32 ∧ lin2.toNat + count ≤ 2 ^ 32
  | .fillLinear linear count bytes => linear.toNat + count ≤ 2 ^ 32 ∧ bytes ≠ []
  | .moveLinear lin1 lin2 count => lin1.toNat + count ≤ 2 ^ 32 ∧ lin2.toNat + count ≤ 2 ^ 32
  | .searchLinear linear count bytes => linear.toNat + count ≤ 2 ^ 32 ∧ bytes ≠ [] ∧ bytes.length < 256

/-- A command that can be carried out, or the place of an error. -/
def Answered (action : Option Action) (r : Reading) : Prop :=
  match action with
  | some action => r.nErrPos = 0 ∧ action.Sound
  | none => r.nErrPos ≠ 0

/-- An error is answered. -/
theorem answered_seterr {P : Reading → Prop} (args : List Arg) (pos : ℕ) :
    Ensures P (do seterr args pos; return none) Answered :=
  .bind _ (.seterr args pos) fun _ => .pure fun _ h => h

theorem Fits.add_le {count : ℕ} {r : Reading} (h : Fits count r) : r.ptr.toNat + count ≤ 0x10000 := by
  have := r.ptr.isLt
  unfold Fits at h
  omega

/-- `c` and `m`. -/
theorem readPair_answered (regs : SegmentRegs) (args : List Arg)
    {act : BitVec 16 → BitVec 16 → BitVec 16 → BitVec 16 → ℕ → Action}
    (hact : ∀ seg1 ptr1 seg ptr count, ptr1.toNat + count ≤ 0x10000 → (act seg1 ptr1 seg ptr count).Sound) :
    Ensures (fun _ => True) (readPair regs args act) Answered := by
  unfold readPair
  refine .bind _ (scanrange_fits regs args regs.ds 128) fun ⟨count, next⟩ => .bind _ .get fun s => .ite
    (fun herr => .pure fun r hr => hr.1 ▸ herr) fun _ => .ite (fun _ => answered_seterr args _) fun _ => ?_
  refine .bind (fun _ _ => Fits count s) (fun r hr => hr.1 ▸ hr.2) fun _ => .bind _ .get fun s' => .pure ?_
  rintro r ⟨rfl, hfits⟩
  split
  · exact ‹_›
  · exact ⟨not_not.mp ‹_›, hact _ _ _ _ _ hfits.add_le⟩

/-- `f` and `s`. -/
theorem readList_answered (regs : SegmentRegs) (args : List Arg)
    {act : BitVec 16 → BitVec 16 → ℕ → List (BitVec 8) → Action}
    (hact : ∀ seg ptr count bytes, ptr.toNat + count ≤ 0x10000 → bytes ≠ [] → (act seg ptr count bytes).Sound) :
    Ensures (fun _ => True) (readList regs args act) Answered := by
  unfold readList
  refine .bind _ (scanrange_fits regs args regs.ds 128) fun ⟨count, next⟩ => .bind _ .get fun s => .ite
    (fun herr => .pure fun r hr => hr.1 ▸ herr) fun _ => ?_
  have hlist := ((KeepsAddress.scanlist args next).ensures fun ptr => count ≤ 0x10000 - ptr.toNat).and
    (scanlist_ne_nil args next)
  refine .bind _ (hlist.mono (fun r hr => ⟨hr.2, trivial⟩) fun _ _ h => h) fun bytes => .bind _ .get fun s' => .pure ?_
  rintro r ⟨rfl, hfits, hbytes⟩
  split
  · exact ‹_›
  · exact ⟨not_not.mp ‹_›, hact _ _ _ _ (Fits.add_le hfits) (hbytes (not_not.mp ‹_›))⟩

theorem c_answered (regs : SegmentRegs) (args : List Arg) : Ensures (fun _ => True) (c regs args) Answered :=
  @readPair_answered regs args .compare fun _ _ _ _ _ h => h

theorem f_answered (regs : SegmentRegs) (args : List Arg) : Ensures (fun _ => True) (f regs args) Answered :=
  @readList_answered regs args .fill fun _ _ _ _ h h' => ⟨h, h'⟩

theorem m_answered (regs : SegmentRegs) (args : List Arg) : Ensures (fun _ => True) (m regs args) Answered :=
  @readPair_answered regs args .move fun _ _ _ _ _ h => h

theorem s_answered (regs : SegmentRegs) (args : List Arg) : Ensures (fun _ => True) (s regs args) Answered :=
  @readList_answered regs args .search fun _ _ _ _ h h' => ⟨h, h'⟩

/-- A count that is checked ends below 4G. -/
theorem xcheckrange_le (args : List Arg) (linear : BitVec 32) (count : ℕ) {P : Reading → Prop} :
    Ensures P (xcheckrange args linear count) fun ok r =>
      if ok then P r ∧ linear.toNat + count ≤ 2 ^ 32 else r.nErrPos ≠ 0 := by
  have := linear.isLt
  unfold xcheckrange
  refine .ite (fun _ => .bind _ (.seterr _ _) fun _ => .pure fun _ h => h) fun h => .pure fun r hr => ⟨hr, ?_⟩
  omega

theorem readLinear_error (args : List Arg) (i : ℕ) {P : Reading → Prop} :
    Ensures P (readLinear args i) fun linear r => linear.isSome ↔ r.nErrPos = 0 := by
  unfold readLinear
  refine .bind _ (.any _) fun _ => .bind _ .get fun s => .pure ?_
  rintro r ⟨rfl, -⟩
  split
  · exact iff_of_false Bool.false_ne_true ‹_›
  · exact iff_of_true rfl (not_not.mp ‹_›)

/-- `xc` and `xm`. -/
theorem readLinearPair_answered (args : List Arg) {act : BitVec 32 → BitVec 32 → ℕ → Action}
    (hact : ∀ lin1 lin2 count, lin1.toNat + count ≤ 2 ^ 32 → lin2.toNat + count ≤ 2 ^ 32 →
      (act lin1 lin2 count).Sound) :
    Ensures (fun _ => True) (readLinearPair args act) Answered := by
  have hnone (r : Reading) (h : (none : Option (BitVec 32)).isSome ↔ r.nErrPos = 0) : Answered none r :=
    fun herr => Bool.false_ne_true (h.mpr herr)
  unfold readLinearPair
  refine .ite (fun _ => answered_seterr args _) fun _ => .bind _ (readLinear_error args 1) fun lin1 => ?_
  cases lin1 with
  | none => exact .pure hnone
  | some lin1 =>
    refine .bind _ (readLinear_error args 2) fun lin2 => ?_
    cases lin2 with
    | none => exact .pure hnone
    | some lin2 =>
      refine .bind _ (readLinear_error args 3) fun count => ?_
      cases count with
      | none => exact .pure hnone
      | some count =>
        refine .bind _ (xcheckrange_le args lin1 count.toNat) fun ok1 => .ite (fun hok1 => ?_) fun hok1 => .pure ?_
        · refine .bind _ (xcheckrange_le args lin2 count.toNat) fun ok2 => .ite (fun hok2 => .pure ?_) fun hok2 => .pure ?_
          · intro r hr
            rw [if_pos hok2, if_pos hok1] at hr
            exact ⟨hr.1.1.mp rfl, hact _ _ _ hr.1.2 hr.2⟩
          · intro r hr
            rwa [if_neg hok2] at hr
        · intro r hr
          rwa [if_neg hok1] at hr

theorem xc_answered (args : List Arg) : Ensures (fun _ => True) (xc args) Answered :=
  @readLinearPair_answered args .compareLinear fun _ _ _ h h' => ⟨h, h'⟩

theorem xm_answered (args : List Arg) : Ensures (fun _ => True) (xm args) Answered :=
  @readLinearPair_answered args .moveLinear fun _ _ _ h h' => ⟨h, h'⟩

/-- `xf`. -/
theorem xf_answered (args : List Arg) : Ensures (fun _ => True) (xf args) Answered := by
  unfold xf
  refine .ite (fun _ => answered_seterr args _) fun _ => .bind _ (.any _) fun linear => .bind _ (.any _) fun count =>
    .bind _ (scanlist_ne_nil args 3) fun bytes => .bind _ .get fun s => .ite (fun herr => .pure fun r hr => hr.1 ▸ herr)
    fun herr => .bind _ (xcheckrange_le args linear count.toNat) fun ok => .ite (fun hok => .pure ?_) fun hok => .pure ?_
  · intro r hr
    rw [if_pos hok] at hr
    obtain ⟨⟨rfl, hbytes⟩, hrange⟩ := hr
    exact ⟨not_not.mp herr, hrange, hbytes (not_not.mp herr)⟩
  · intro r hr
    rwa [if_neg hok] at hr

/-- `xs`, of a line's arguments. -/
theorem xs_answered (args : List Arg) (hargs : weight args ≤ 256) : Ensures (fun _ => True) (xs args) Answered := by
  have hnone (r : Reading) (h : (none : Option (BitVec 32)).isSome ↔ r.nErrPos = 0) : Answered none r :=
    fun herr => Bool.false_ne_true (h.mpr herr)
  unfold xs
  refine .ite (fun _ => answered_seterr args _) fun hlength => .bind _ (readLinear_error args 1) fun linear => ?_
  cases linear with
  | none => exact .pure hnone
  | some linear =>
    refine .bind _ (readLinear_error args 2) fun count => ?_
    cases count with
    | none => exact .pure hnone
    | some count =>
      have hdrop := weight_drop args 3 (by omega)
      have hlist := (scanlist_ne_nil args 3).and (scanlist_length args 3)
      refine .bind _ (hlist.mono (fun _ _ => ⟨trivial, trivial⟩) fun _ _ h => h) fun bytes => .bind _ .get fun s =>
        .ite (fun herr => .pure fun r hr => hr.1 ▸ herr) fun herr =>
        .bind _ (xcheckrange_le args linear count.toNat) fun ok => .ite (fun hok => .pure ?_) fun hok => .pure ?_
      · intro r hr
        rw [if_pos hok] at hr
        obtain ⟨⟨rfl, hbytes, hshort⟩, hrange⟩ := hr
        exact ⟨not_not.mp herr, hrange, hbytes (not_not.mp herr), by omega⟩
      · intro r hr
        rwa [if_neg hok] at hr

/-- A memory command, by its letters. -/
theorem exec_answered (regs : SegmentRegs) (args : List Arg) (hargs : weight args.tail ≤ 256)
    {read : Scan (Option Action)} (h : exec regs args = some read) : Ensures (fun _ => True) read Answered := by
  revert h
  fun_cases exec regs args
  all_goals intro h; cases h
  · exact c_answered _ _
  · exact f_answered _ _
  · exact m_answered _ _
  · exact s_answered _ _
  · exact xc_answered _
  · exact xf_answered _
  · exact xm_answered _
  · exact xs_answered _ hargs

/-- **A line that is read is sound**, or there is an error. -/
theorem readLine_answered {regs : SegmentRegs} {r r' : Reading} {line : Text} {action : Option Action}
    (hline : line.length < 256) (h : readLine regs r line = some (action, r')) : Answered action r' := by
  have hargs : weight (parse line).1.tail ≤ 256 := Nat.le_trans (weight_parse line) hline
  unfold readLine at h
  cases hexec : exec regs (parse line).1 with
  | none => simp [hexec] at h
  | some read =>
    simp only [hexec] at h
    split at h
    · cases h
      exact answered_seterr (P := fun _ => True) _ _ _ trivial
    · have hread := exec_answered regs _ hargs hexec { r with nErrPos := 0 } trivial
      rwa [Option.some.inj h] at hread

end SoftPC.X86Debug
