import SoftPC.X86Debug.Reading

/-!
# X86Debug/Tokens — where the arguments are

    "f 100 l2 'a b'"  ──parseInPlace──▸  f␀100␀l2␀'a b'␀     arg = 0, 2, 6, 9

`parse` as it is, on the copied line: the arguments are places in it, each ended by a NUL that is put there.
They are what the line says (`parseInPlace_eq`), and all in the copy (`argument_inside`, `arguments_bounded`).
What the arguments of a line are is told from its parts (`Splits`).
-/

namespace SoftPC.X86Debug

/-! ## In place -/

/-- The copied line with its NUL, a place in it, and the places of the arguments so far. -/
structure Parsing where
  copy : Text
  p : ℕ
  arg : List ℕ := []
  isOpen : Bool := false
  deriving DecidableEq

/-- `*p`. -/
def charAt (copy : Text) (p : ℕ) : BitVec 8 := copy.getD p 0

theorem lt_of_charAt {copy : Text} {p : ℕ} (h : charAt copy p ≠ 0) : p < copy.length := by
  by_contra hp
  refine h ?_
  rw [charAt, List.getD_eq_getElem?_getD, List.getElem?_eq_none (Nat.not_lt.mp hp), Option.getD_none]

/-- To the next character that is no delimiter. -/
def skip (copy : Text) (p : ℕ) : ℕ :=
  if charAt copy p ≠ 0 ∧ isDelimiter (charAt copy p) then skip copy (p + 1) else p
termination_by copy.length - p
decreasing_by
  have := lt_of_charAt (‹_ ∧ _› : _).1
  omega

/-- To the end of an argument. -/
def scanArg (copy : Text) (p : ℕ) (quote : Option (BitVec 8)) : Text × ℕ × Option (BitVec 8) :=
  let c := charAt copy p
  if _hc : c = 0 then (copy, p, quote)
  else
    match quote with
    | some q =>
      if c = q then if charAt copy (p + 1) = q then scanArg copy (p + 2) (some q) else scanArg copy (p + 1) none
      else scanArg copy (p + 1) (some q)
    | none =>
      if isDelimiter c then (copy, p, none)
      else if isQuote c then scanArg copy (p + 1) (some c)
      else scanArg (copy.set p (lower c)) (p + 1) none
termination_by copy.length - p
decreasing_by
  all_goals
    have := lt_of_charAt _hc
    try rw [List.length_set]
    omega

/-- `lib_text_length`. -/
def textLength (copy : Text) (p : ℕ) : ℕ := ((copy.drop p).takeWhile (· ≠ 0)).length

/-- The delimiter after an argument is a NUL, if there is one. -/
def cut (copy : Text) (p : ℕ) : Text × ℕ := if charAt copy p ≠ 0 then (copy.set p 0, p + 1) else (copy, p)

/-- `arg` after an argument: what follows the letter of a command is one too. -/
def argAfter (arg : List ℕ) (start length : ℕ) : List ℕ :=
  if (arg ++ [start]).length = 1 ∧ 1 < length then arg ++ [start] ++ [start + 1] else arg ++ [start]

/-- The arguments one by one; every round takes a character. -/
def parseRounds : ℕ → Parsing → Parsing
  | 0, s => s
  | rounds + 1, s =>
    let start := skip s.copy s.p
    if charAt s.copy start = 0 then { s with p := start }
    else
      let (copy, p, quote) := scanArg s.copy start none
      let (copy, p) := cut copy p
      let s := { copy, p, arg := argAfter s.arg start (textLength copy start) }
      if quote.isSome then { s with isOpen := true } else parseRounds rounds s

/-- `parse`, of a copied line. -/
def parseInPlace (line : Text) : Parsing := parseRounds line.length { copy := line ++ [0], p := 0 }

/-! ## The copy -/

variable {c q : BitVec 8} {before line rest text : Text}

theorem charAt_append (before line : Text) (i : ℕ) : charAt (before ++ line) (before.length + i) = charAt line i := by
  rw [charAt, charAt, List.getD_eq_getElem?_getD, List.getD_eq_getElem?_getD,
    List.getElem?_append_right (Nat.le_add_right _ _), Nat.add_sub_cancel_left]

@[simp] theorem charAt_zero (c : BitVec 8) (rest : Text) : charAt (c :: rest) 0 = c := rfl

/-- Delimiters are skipped. -/
theorem skip_append (before line : Text) (h : ∀ c ∈ line, c ≠ 0) :
    skip (before ++ line ++ [0]) before.length = before.length + (line.takeWhile isDelimiter).length := by
  induction line generalizing before with
  | nil =>
    have hnul := charAt_append before [0] 0
    rw [skip, List.append_nil]
    exact if_neg fun h => h.1 hnul
  | cons c line ih =>
    have hc : c ≠ 0 := h c List.mem_cons_self
    have hchar := charAt_append before (c :: line ++ [0]) 0
    rw [Nat.add_zero, ← List.append_assoc, List.cons_append, charAt_zero] at hchar
    rw [skip, hchar]
    by_cases hd : isDelimiter c
    · have hrest := ih (before ++ [c]) fun c' hc' => h c' (List.mem_cons_of_mem c hc')
      rw [List.append_assoc before, List.singleton_append, List.length_append, List.length_singleton] at hrest
      rw [if_pos ⟨hc, hd⟩, List.takeWhile_cons_of_pos hd, List.length_cons, hrest, Nat.add_assoc, Nat.add_comm 1]
    · rw [if_neg fun h => hd h.2, List.takeWhile_cons_of_neg hd]
      rfl

theorem scanArg_end (before : Text) (quote : Option (BitVec 8)) :
    scanArg (before ++ [0]) before.length quote = (before ++ [0], before.length, quote) := by
  rw [scanArg.eq_def]
  exact dif_pos (charAt_append before [0] 0)

/-- A character in quotes. -/
theorem scanArg_quoted (before rest : Text) {c : BitVec 8} (hc : c ≠ 0) (q : BitVec 8) :
    scanArg (before ++ c :: rest) before.length (some q) =
      if c = q then
        if charAt rest 0 = q then scanArg (before ++ c :: rest) (before.length + 2) (some q)
        else scanArg (before ++ c :: rest) (before.length + 1) none
      else scanArg (before ++ c :: rest) (before.length + 1) (some q) := by
  have hchar : charAt (before ++ c :: rest) before.length = c := charAt_append before (c :: rest) 0
  have hnext : charAt (before ++ c :: rest) (before.length + 1) = charAt rest 0 := charAt_append before (c :: rest) 1
  refine (scanArg.eq_def _ _ _).trans ?_
  rw [hchar, dif_neg hc, hnext]

/-- A character that is not. -/
theorem scanArg_plain (before rest : Text) {c : BitVec 8} (hc : c ≠ 0) :
    scanArg (before ++ c :: rest) before.length none =
      if isDelimiter c then (before ++ c :: rest, before.length, none)
      else if isQuote c then scanArg (before ++ c :: rest) (before.length + 1) (some c)
      else scanArg (before ++ lower c :: rest) (before.length + 1) none := by
  have hchar : charAt (before ++ c :: rest) before.length = c := charAt_append before (c :: rest) 0
  have hset : (before ++ c :: rest).set before.length (lower c) = before ++ lower c :: rest := by
    rw [List.set_append_right _ _ (Nat.le_refl _), Nat.sub_self, List.set_cons_zero]
  refine (scanArg.eq_def _ _ _).trans ?_
  rw [hchar, dif_neg hc, hset]

/-- From a place on, an argument is scanned as it is told from the line. -/
def Scans (before line : Text) (quote : Option (BitVec 8)) (t : Text × Text × Bool) : Prop :=
  ∃ quote', scanArg (before ++ (line ++ [0])) before.length quote =
    (before ++ (t.1 ++ (t.2.1 ++ [0])), before.length + t.1.length, quote') ∧ quote'.isSome = t.2.2

/-- Some characters before. -/
theorem Scans.after {before pre line line' : Text} {quote quote' : Option (BitVec 8)} {t : Text × Text × Bool}
    (h : Scans (before ++ pre) line quote t)
    (heq : scanArg (before ++ (line' ++ [0])) before.length quote' =
      scanArg (before ++ (pre ++ (line ++ [0]))) (before.length + pre.length) quote) :
    Scans before line' quote' (pre ++ t.1, t.2) := by
  obtain ⟨quote'', hscan, hopen⟩ := h
  refine ⟨quote'', ?_, hopen⟩
  rw [List.append_assoc, List.length_append] at hscan
  rw [heq, hscan]
  simp only [List.append_assoc, List.length_append, Nat.add_assoc]

theorem scans_token (before line : Text) (quote : Option (BitVec 8)) (h : ∀ c ∈ line, c ≠ 0)
    (hquote : ∀ q ∈ quote, q ≠ 0) : Scans before line quote (token quote line) := by
  induction quote, line using token.induct generalizing before with
  | case1 quote =>
    rw [token]
    exact ⟨quote, scanArg_end before quote, rfl⟩
  | case2 q c =>
    have hc : c ≠ 0 := h c List.mem_cons_self
    have hscan := scanArg_quoted before [0] hc q
    have hend quote : Scans (before ++ [c]) [] quote ([], [], quote.isSome) := ⟨quote, scanArg_end _ quote, rfl⟩
    rw [charAt_zero, if_neg (hquote q rfl).symm] at hscan
    rw [token]
    by_cases hcq : c = q
    · rw [if_pos hcq] at hscan
      have hclosed : Scans before [c] (some q) ([c], [], false) := (hend none).after hscan
      rwa [decide_eq_false (not_not.mpr hcq)]
    · rw [if_neg hcq] at hscan
      have hopen : Scans before [c] (some q) ([c], [], true) := (hend (some q)).after hscan
      rwa [decide_eq_true hcq]
  | case3 q rest text rest' isOpen htoken ih =>
    have hq : q ≠ 0 := h q List.mem_cons_self
    have hscan := scanArg_quoted before (q :: rest ++ [0]) hq q
    have hrest := ih (before ++ [q, q]) (fun c hc => h c (List.mem_cons_of_mem _ (List.mem_cons_of_mem _ hc))) hquote
    rw [if_pos rfl, List.cons_append, charAt_zero, if_pos rfl] at hscan
    rw [token, if_pos rfl, if_pos rfl]
    exact hrest.after hscan
  | case4 q c' rest text rest' isOpen htoken hne ih =>
    have hq : q ≠ 0 := h q List.mem_cons_self
    have hscan := scanArg_quoted before (c' :: rest ++ [0]) hq q
    have hrest := ih (before ++ [q]) (fun c hc => h c (List.mem_cons_of_mem _ hc)) fun _ h => by cases h
    rw [if_pos rfl, List.cons_append, charAt_zero, if_neg hne] at hscan
    rw [token, if_pos rfl, if_neg hne]
    exact hrest.after hscan
  | case5 q c c' rest hne text rest' isOpen htoken ih =>
    have hc : c ≠ 0 := h c List.mem_cons_self
    have hscan := scanArg_quoted before (c' :: rest ++ [0]) hc q
    have hrest := ih (before ++ [c]) (fun c hc => h c (List.mem_cons_of_mem _ hc)) hquote
    rw [if_neg hne] at hscan
    rw [token, if_neg hne]
    exact hrest.after hscan
  | case6 c rest hd =>
    have hc : c ≠ 0 := h c List.mem_cons_self
    have hscan := scanArg_plain before (rest ++ [0]) hc
    rw [if_pos hd] at hscan
    rw [token, if_pos hd]
    exact ⟨none, hscan, rfl⟩
  | case7 c rest hd text rest' isOpen htoken ih =>
    have hc : c ≠ 0 := h c List.mem_cons_self
    have hscan := scanArg_plain before (rest ++ [0]) hc
    have hrest before := ih before (fun c hc => h c (List.mem_cons_of_mem _ hc))
    rw [if_neg hd] at hscan
    rw [token, if_neg hd]
    by_cases hq : isQuote c
    · simp only [if_pos hq] at hscan hrest ⊢
      exact (hrest (before ++ [c]) fun _ h => Option.some.inj h ▸ hc).after hscan
    · simp only [if_neg hq] at hscan hrest ⊢
      exact (hrest (before ++ [lower c]) (by simp)).after hscan

/-! ## What is put in place -/

/-- The copy after its arguments are found. -/
def image : ℕ → Text → Text
  | 0, line => line
  | rounds + 1, line =>
    let (text, rest, isOpen) := token none (line.dropWhile isDelimiter)
    line.takeWhile isDelimiter ++ text ++
      if rest = [] then [] else 0 :: if isOpen then rest.tail else image rounds rest.tail

/-- An argument is at its place, with a NUL after it. -/
def Holds (copy : Text) (a : Arg) : Prop := ∃ before after, copy = before ++ a.text ++ 0 :: after ∧ before.length = a.start

/-- A character, or a capital made small. -/
def Shows (c t : BitVec 8) : Prop := t = c ∨ t = lower c

theorem lower_ne_zero : ∀ c : BitVec 8, c ≠ 0 → lower c ≠ 0 := by decide

theorem shows_ne_zero {raw text : Text} (h : List.Forall₂ Shows raw text) (hraw : ∀ c ∈ raw, c ≠ 0) :
    ∀ t ∈ text, t ≠ 0 := by
  induction h with
  | nil => exact hraw
  | @cons c t raw text hshows _ ih =>
    obtain ⟨hc, hraw⟩ := List.forall_mem_cons.mp hraw
    refine List.forall_mem_cons.mpr ⟨?_, ih hraw⟩
    rcases hshows with rfl | rfl
    · exact hc
    · exact lower_ne_zero c hc

/-- An argument shows the start of the line, and the rest follows. -/
theorem token_shows (quote : Option (BitVec 8)) (line : Text) :
    ∃ raw, line = raw ++ (token quote line).2.1 ∧ List.Forall₂ Shows raw (token quote line).1 := by
  induction quote, line using token.induct with
  | case1 quote => exact ⟨[], rfl, .nil⟩
  | case2 q c => exact ⟨[c], rfl, .cons (.inl rfl) .nil⟩
  | case3 q rest text rest' isOpen htoken ih =>
    obtain ⟨raw, hline, hraw⟩ := ih
    rw [token, if_pos rfl, if_pos rfl]
    exact ⟨q :: q :: raw, congrArg (q :: q :: ·) hline, .cons (.inl rfl) (.cons (.inl rfl) hraw)⟩
  | case4 q c' rest text rest' isOpen htoken hne ih =>
    obtain ⟨raw, hline, hraw⟩ := ih
    rw [token, if_pos rfl, if_neg hne]
    exact ⟨q :: raw, congrArg (q :: ·) hline, .cons (.inl rfl) hraw⟩
  | case5 q c c' rest hne text rest' isOpen htoken ih =>
    obtain ⟨raw, hline, hraw⟩ := ih
    rw [token, if_neg hne]
    exact ⟨c :: raw, congrArg (c :: ·) hline, .cons (.inl rfl) hraw⟩
  | case6 c rest hd =>
    rw [token, if_pos hd]
    exact ⟨[], rfl, .nil⟩
  | case7 c rest hd text rest' isOpen htoken ih =>
    obtain ⟨raw, hline, hraw⟩ := ih
    rw [token, if_neg hd]
    refine ⟨c :: raw, congrArg (c :: ·) hline, .cons ?_ hraw⟩
    split
    · exact .inl rfl
    · exact .inr rfl

theorem token_ne_zero (quote : Option (BitVec 8)) {line : Text} (h : ∀ c ∈ line, c ≠ 0) :
    (∀ c ∈ (token quote line).1, c ≠ 0) ∧ ∀ c ∈ (token quote line).2.1, c ≠ 0 := by
  obtain ⟨raw, hline, hraw⟩ := token_shows quote line
  exact ⟨shows_ne_zero hraw fun c hc => h c (hline ▸ List.mem_append_left _ hc),
    fun c hc => h c (hline ▸ List.mem_append_right raw hc)⟩

/-- An argument is found, and maybe more of them. -/
theorem parseFrom_succ {line rest text : Text} {c : BitVec 8} {cs : List (BitVec 8)} {isOpen : Bool}
    (hdrop : line.dropWhile isDelimiter = c :: cs) (htoken : token none (c :: cs) = (text, rest, isOpen))
    (rounds pos : ℕ) :
    parseFrom (rounds + 1) pos line =
      let more := parseFrom rounds (pos + (line.takeWhile isDelimiter).length + text.length + 1) rest.tail
      (⟨pos + (line.takeWhile isDelimiter).length, text⟩ :: if isOpen then [] else more.1, isOpen || more.2) := by
  rw [parseFrom]
  simp only [hdrop, htoken]
  cases isOpen <;> rfl

theorem image_succ {line rest text : Text} {c : BitVec 8} {cs : List (BitVec 8)} {isOpen : Bool}
    (hdrop : line.dropWhile isDelimiter = c :: cs) (htoken : token none (c :: cs) = (text, rest, isOpen))
    (rounds : ℕ) :
    image (rounds + 1) line = line.takeWhile isDelimiter ++ text ++
      if rest = [] then [] else 0 :: if isOpen then rest.tail else image rounds rest.tail := by
  rw [image]
  simp only [hdrop, htoken]

/-- An argument is in a copy that goes on before it. -/
theorem Holds.append {copy : Text} {a : Arg} (h : Holds copy a) (before : Text) :
    Holds (before ++ copy) ⟨before.length + a.start, a.text⟩ := by
  obtain ⟨pre, after, rfl, hstart⟩ := h
  refine ⟨before ++ pre, after, ?_, ?_⟩
  · simp only [List.append_assoc]
  · rw [List.length_append, hstart]

/-- Each argument is in place. -/
theorem holds_image {rounds pos : ℕ} {line : Text} {a : Arg} (h : a ∈ (parseFrom rounds pos line).1) :
    ∃ start, Holds (image rounds line ++ [0]) ⟨start, a.text⟩ ∧ a.start = pos + start := by
  induction rounds generalizing pos line with
  | zero => cases h
  | succ rounds ih =>
    cases hdrop : line.dropWhile isDelimiter with
    | nil =>
      rw [parseFrom, hdrop] at h
      cases h
    | cons c cs =>
      rcases htoken : token none (c :: cs) with ⟨text, rest, isOpen⟩
      have hfirst (copy : Text) : Holds (line.takeWhile isDelimiter ++ text ++ 0 :: copy)
          ⟨(line.takeWhile isDelimiter).length, text⟩ := ⟨line.takeWhile isDelimiter, copy, rfl, rfl⟩
      rw [parseFrom_succ hdrop htoken] at h
      rw [image_succ hdrop htoken]
      rcases List.mem_cons.mp h with rfl | h
      · refine ⟨(line.takeWhile isDelimiter).length, ?_, rfl⟩
        by_cases hrest : rest = []
        · rw [if_pos hrest, List.append_nil]
          exact hfirst []
        · rw [if_neg hrest, List.append_assoc]
          exact hfirst _
      · split at h
        · cases h
        · by_cases hrest : rest = []
          · rw [hrest, List.tail_nil, parseFrom_nil] at h
            cases h
          · obtain ⟨start, hmore, hstart⟩ := ih h
            have hcopy := hmore.append (line.takeWhile isDelimiter ++ text ++ [0])
            rw [if_neg hrest, if_neg ‹_›]
            refine ⟨(line.takeWhile isDelimiter ++ text ++ [0]).length + start, ?_, ?_⟩
            · simpa only [List.append_assoc, List.cons_append, List.nil_append] using hcopy
            · simp only [List.length_append, List.length_singleton]
              omega

/-! ## What is parsed -/

/-- `arg` with more arguments, of which the first may be two. -/
def places (arg : List ℕ) (args : List Arg) : List ℕ :=
  arg ++ (if arg = [] then splitFirst args else args).map Arg.start

theorem places_cons (arg : List ℕ) (a : Arg) (args : List Arg) :
    places arg (a :: args) = places (argAfter arg a.start a.text.length) args := by
  have hne : argAfter arg a.start a.text.length ≠ [] := by
    unfold argAfter
    split <;> simp
  unfold places
  rw [if_neg hne, argAfter]
  cases arg with
  | nil => 
    rw [if_pos rfl, splitFirst]
    by_cases hlong : 1 < a.text.length
    · simp [hlong]
    · simp [hlong]
  | cons _ arg => simp

theorem textLength_append (before text after : Text) (h : ∀ c ∈ text, c ≠ 0) :
    textLength (before ++ (text ++ 0 :: after)) before.length = text.length := by
  rw [textLength, List.drop_left, List.takeWhile_append_of_pos fun c hc => decide_eq_true (h c hc),
    List.takeWhile_cons_of_neg (by simp), List.append_nil]

theorem cut_append (before rest : Text) (h : ∀ c ∈ rest, c ≠ 0) :
    cut (before ++ (rest ++ [0])) before.length =
      let before' := before ++ if rest = [] then [] else [0]
      (before' ++ (rest.tail ++ [0]), before'.length) := by
  have hchar := charAt_append before (rest ++ [0]) 0
  rw [Nat.add_zero] at hchar
  unfold cut
  rw [hchar]
  cases rest with
  | nil => simp
  | cons c rest =>
    rw [List.cons_append, charAt_zero, if_pos (h c List.mem_cons_self), List.set_append_right _ _ (Nat.le_refl _)]
    simp

/-- A round. -/
theorem parseRounds_succ {before line rest text : Text} {c : BitVec 8} {cs : List (BitVec 8)} {isOpen : Bool}
    (h : ∀ c ∈ line, c ≠ 0) (hdrop : line.dropWhile isDelimiter = c :: cs)
    (htoken : token none (c :: cs) = (text, rest, isOpen)) (rounds : ℕ) (arg : List ℕ) :
    let start := before.length + (line.takeWhile isDelimiter).length
    let before' := before ++ line.takeWhile isDelimiter ++ text ++ if rest = [] then [] else [0]
    let s : Parsing :=
      { copy := before' ++ (rest.tail ++ [0]), p := before'.length, arg := argAfter arg start text.length }
    parseRounds (rounds + 1) { copy := before ++ (line ++ [0]), p := before.length, arg } =
      if isOpen then { s with isOpen := true } else parseRounds rounds s := by
  have hline : line = line.takeWhile isDelimiter ++ c :: cs := hdrop ▸ List.takeWhile_append_dropWhile.symm
  have hcs : ∀ c' ∈ c :: cs, c' ≠ 0 := fun c' hc' => h c' (hline ▸ List.mem_append_right _ hc')
  have hskip := skip_append before line h
  have hcopy : before ++ (line ++ [0]) = before ++ line.takeWhile isDelimiter ++ (c :: cs ++ [0]) := by
    conv_lhs => rw [hline]
    simp only [List.append_assoc]
  rw [List.append_assoc, ← List.length_append, hcopy] at hskip
  rw [← List.length_append, hcopy, parseRounds]
  generalize before ++ line.takeWhile isDelimiter = before at hskip ⊢
  have hchar : charAt (before ++ (c :: cs ++ [0])) before.length = c := charAt_append before (c :: cs ++ [0]) 0
  obtain ⟨quote, hscan, hopen⟩ := scans_token before (c :: cs) none hcs fun _ h => nomatch h
  have hnul := token_ne_zero none hcs
  rw [htoken] at hscan hopen hnul
  have hcut := cut_append (before ++ text) rest hnul.2
  rw [List.append_assoc, List.length_append] at hcut
  have htext : textLength (before ++ text ++ (if rest = [] then [] else [0]) ++ (rest.tail ++ [0])) before.length =
      text.length := by
    have hnext : ∃ after, (if rest = [] then [] else [0]) ++ (rest.tail ++ [0]) = 0 :: after := by
      by_cases hrest : rest = []
      · exact ⟨[], by rw [if_pos hrest, hrest]; rfl⟩
      · exact ⟨rest.tail ++ [0], by rw [if_neg hrest]; rfl⟩
    obtain ⟨after, hafter⟩ := hnext
    rw [List.append_assoc, List.append_assoc, hafter]
    exact textLength_append before text after hnul.1
  simp only [hskip, hchar, if_neg (hcs c List.mem_cons_self), hscan, hcut, htext, hopen]

/-- What is put in place is as long as the line. -/
theorem image_length (rounds : ℕ) (line : Text) : (image rounds line).length = line.length := by
  induction rounds generalizing line with
  | zero => rfl
  | succ rounds ih =>
    have htoken := token_length none (line.dropWhile isDelimiter)
    have hline := congrArg List.length (List.takeWhile_append_dropWhile (p := isDelimiter) (l := line))
    rw [List.length_append] at hline
    rw [image]
    generalize token none (line.dropWhile isDelimiter) = t at htoken ⊢
    obtain ⟨text, _ | ⟨c, rest⟩, isOpen⟩ := t
    · simp only [List.length_append, List.length_nil, if_true] at htoken ⊢
      omega
    · have hrest : (if isOpen then rest else image rounds rest).length = rest.length := by
        split
        · rfl
        · exact ih rest
      simp only [List.length_append, List.length_cons, List.tail_cons, hrest, reduceCtorEq, if_false] at htoken ⊢
      omega

theorem image_nil (rounds : ℕ) : image rounds [] = [] := by
  cases rounds <;> rfl

/-- Where there is nothing but delimiters there is nothing to find. -/
theorem parseRounds_blank {before line : Text} (h : ∀ c ∈ line, c ≠ 0) (hdrop : line.dropWhile isDelimiter = [])
    (rounds : ℕ) (arg : List ℕ) :
    parseRounds (rounds + 1) { copy := before ++ (line ++ [0]), p := before.length, arg } =
      { copy := before ++ (line ++ [0]), p := before.length + line.length, arg } := by
  have hline : line.takeWhile isDelimiter = line := by
    conv_rhs => rw [← List.takeWhile_append_dropWhile (p := isDelimiter) (l := line), hdrop, List.append_nil]
  have hskip := skip_append before line h
  have hchar := charAt_append (before ++ line) [0] 0
  rw [List.append_assoc, hline] at hskip
  rw [Nat.add_zero, List.append_assoc, List.length_append, charAt_zero] at hchar
  simp only [parseRounds, hskip, hchar, if_true]

/-- The rounds find what is told from the line. -/
theorem parseRounds_eq (rounds : ℕ) (before line : Text) (h : ∀ c ∈ line, c ≠ 0) (arg : List ℕ) :
    let found := parseRounds rounds { copy := before ++ (line ++ [0]), p := before.length, arg }
    found.copy = before ++ (image rounds line ++ [0]) ∧
      found.arg = places arg (parseFrom rounds before.length line).1 ∧
        found.isOpen = (parseFrom rounds before.length line).2 := by
  have hplaces (arg : List ℕ) : places arg [] = arg := by simp [places, splitFirst]
  induction rounds generalizing before line arg with
  | zero => exact ⟨rfl, (hplaces arg).symm, rfl⟩
  | succ rounds ih =>
    cases hdrop : line.dropWhile isDelimiter with
    | nil =>
      have hline : line.takeWhile isDelimiter = line := by
        conv_rhs => rw [← List.takeWhile_append_dropWhile (p := isDelimiter) (l := line), hdrop, List.append_nil]
      simp only [parseRounds_blank h hdrop, parseFrom, hdrop, hplaces, image, token, hline, if_true, List.append_nil,
        true_and]
    | cons c cs =>
      rcases htoken : token none (c :: cs) with ⟨text, rest, isOpen⟩
      have hround := @parseRounds_succ before line rest text c cs isOpen h hdrop htoken rounds arg
      have hcs : ∀ c' ∈ c :: cs, c' ≠ 0 := fun c' hc' => h c' ((List.dropWhile_sublist isDelimiter).subset (hdrop ▸ hc'))
      have hrest : ∀ c ∈ rest, c ≠ 0 := by
        have := (token_ne_zero none hcs).2
        rwa [htoken] at this
      intro found
      simp only [found, hround, image_succ hdrop htoken, parseFrom_succ hdrop htoken, places_cons]
      cases isOpen with
      | true =>
        simp only [if_true, Bool.true_or, and_true, hplaces]
        by_cases hnil : rest = [] <;> simp [hnil]
      | false =>
        simp only [Bool.false_eq_true, if_false, Bool.false_or]
        obtain ⟨hcopy, harg, hopen⟩ := ih (before ++ line.takeWhile isDelimiter ++ text ++ if rest = [] then [] else [0])
          rest.tail (fun c hc => hrest c (List.mem_of_mem_tail hc))
          (argAfter arg (before.length + (line.takeWhile isDelimiter).length) text.length)
        rw [hcopy, harg, hopen]
        by_cases hnil : rest = []
        · simp [hnil, image_nil, parseFrom_nil]
        · simp [hnil, Nat.add_assoc]

/-- **`parse` is what the line says.** -/
theorem parseInPlace_eq {line : Text} (h : ∀ c ∈ line, c ≠ 0) :
    (parseInPlace line).arg = (parse line).1.map Arg.start ∧ (parseInPlace line).isOpen = (parse line).2 := by
  obtain ⟨-, harg, hopen⟩ := parseRounds_eq line.length [] line h []
  exact ⟨harg, hopen⟩

theorem copy_eq {line : Text} (h : ∀ c ∈ line, c ≠ 0) :
    (parseInPlace line).copy = image line.length line ++ [0] := (parseRounds_eq line.length [] line h []).1

theorem copy_length {line : Text} (h : ∀ c ∈ line, c ≠ 0) : (parseInPlace line).copy.length = line.length + 1 := by
  rw [copy_eq h, List.length_append, image_length, List.length_singleton]

/-- The argument that follows a letter, too, is at its place. -/
theorem Holds.tail {copy : Text} {a : Arg} (h : Holds copy a) (hlong : 1 < a.text.length) :
    Holds copy ⟨a.start + 1, a.text.tail⟩ := by
  obtain ⟨before, after, rfl, hstart⟩ := h
  rcases a with ⟨start, _ | ⟨c, text⟩⟩
  · cases hlong
  · refine ⟨before ++ [c], after, ?_, ?_⟩
    · simp only [List.append_assoc, List.cons_append, List.nil_append, List.tail_cons]
    · rw [List.length_append, hstart]
      rfl

/-- **Every argument is in the copy**, with a NUL after it. -/
theorem argument_inside {line : Text} (h : ∀ c ∈ line, c ≠ 0) {a : Arg} (ha : a ∈ (parse line).1) :
    Holds (parseInPlace line).copy a := by
  have hargs {a : Arg} (ha : a ∈ (parseFrom line.length 0 line).1) : Holds (parseInPlace line).copy a := by
    obtain ⟨start, hholds, hstart⟩ := holds_image ha
    rw [Nat.zero_add] at hstart
    subst hstart
    exact (copy_eq h).symm ▸ hholds
  change a ∈ splitFirst (parseFrom line.length 0 line).1 at ha
  generalize (parseFrom line.length 0 line).1 = args at ha hargs
  cases args with
  | nil => cases ha
  | cons a₀ args =>
    rw [splitFirst] at ha
    split at ha
    · rcases List.mem_cons.mp ha with rfl | ha
      · exact hargs List.mem_cons_self
      · rcases List.mem_cons.mp ha with rfl | ha
        · exact (hargs List.mem_cons_self).tail ‹_›
        · exact hargs (List.mem_cons_of_mem _ ha)
    · exact hargs ha

/-- No argument is empty. -/
theorem text_ne_nil {rounds pos : ℕ} {line : Text} {a : Arg} (h : a ∈ (parseFrom rounds pos line).1) : a.text ≠ [] := by
  induction rounds generalizing pos line with
  | zero => cases h
  | succ rounds ih =>
    cases hdrop : line.dropWhile isDelimiter with
    | nil =>
      rw [parseFrom, hdrop] at h
      cases h
    | cons c cs =>
      rcases htoken : token none (c :: cs) with ⟨text, rest, isOpen⟩
      have hc : isDelimiter c ≠ true := by
        have := List.head_dropWhile_not isDelimiter (l := line) (by simp [hdrop])
        simpa [hdrop] using this
      have htext : text ≠ [] := by
        rw [token, if_neg hc] at htoken
        rw [← (Prod.mk.inj htoken).1]
        exact List.cons_ne_nil _ _
      rw [parseFrom_succ hdrop htoken] at h
      rcases List.mem_cons.mp h with rfl | h
      · exact htext
      · split at h
        · cases h
        · exact ih h

theorem length_le_weight {args : List Arg} (h : ∀ a ∈ args, a.text ≠ []) : 2 * args.length ≤ weight args := by
  induction args with
  | nil => exact Nat.zero_le _
  | cons a args ih =>
    obtain ⟨ha, hargs⟩ := List.forall_mem_cons.mp h
    have hlength := List.length_pos_iff.mpr ha
    have := ih hargs
    rw [weight_cons, List.length_cons]
    omega

/-- `X86_DEBUG_ARGUMENT_CAPACITY`. -/
def argumentCapacity : ℕ := 256

/-- **There is room** for the arguments of a line, and a null after them. -/
theorem arguments_bounded {line : Text} (hline : line.length < 256) : (parse line).1.length < argumentCapacity := by
  have hlength := length_le_weight (fun a ha => @text_ne_nil line.length 0 line a ha)
  have hweight := weight_parseFrom line.length 0 line
  have hsplit (args : List Arg) : (splitFirst args).length ≤ args.length + 1 := by
    cases args with
    | nil => exact Nat.zero_le _
    | cons a args =>
      rw [splitFirst]
      split <;> simp
  have := hsplit (parseFrom line.length 0 line).1
  change (splitFirst (parseFrom line.length 0 line).1).length < 256
  omega

end SoftPC.X86Debug
