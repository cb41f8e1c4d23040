import SoftPC.X86Debug.Tokens
import Mathlib.Data.List.TakeWhile

/-!
# X86Debug/Lists — a list of bytes comes through as it is written

    41 4f "it''s" 'it''s'   ↤   41, 4F, i t ' ' s, i t ' s

A list is items with delimiters between them (`Item`): a byte of one or two hexadecimal digits, or a text in
quotes in which the quote is doubled.  Quotes are seen twice, by `parse` and by `scanlist`, and are the same to
both: a line ends in the arguments that its items are (`parse_list`), these are read as the bytes that are written
(`scanlist_items`), and an argument that is no item is an error before anything is done (`lists_lossless`).
-/

namespace SoftPC.X86Debug

/-! ## The parts of a line -/

/-- What may follow an argument. -/
def Ends (rest : Text) : Prop := ∀ d ∈ rest.head?, isDelimiter d

theorem ends_nil : Ends [] := fun _ h => nomatch h

theorem token_of_ends {rest : Text} (h : Ends rest) : token none rest = ([], rest, false) := by
  cases rest with
  | nil => rfl
  | cons d rest => rw [token, if_pos (h d rfl)]

/-- A quote that closes. -/
theorem token_close {q : BitVec 8} {line : Text} (h : ∀ c ∈ line.head?, c ≠ q) :
    token (some q) (q :: line) = (q :: (token none line).1, (token none line).2) := by
  cases line with
  | nil =>
    rw [token, token]
    simp
  | cons c line =>
    rw [token.eq_3, if_pos rfl, if_neg (h c rfl)]

/-- A character in quotes. -/
theorem token_inner {q c : BitVec 8} (h : c ≠ q) (line : Text) :
    token (some q) (c :: line) = (c :: (token (some q) line).1, (token (some q) line).2) := by
  cases line with
  | nil =>
    rw [token, token]
    simp [h]
  | cons c' line => rw [token.eq_3, if_neg h]

theorem quote_not_delimiter : ∀ c : BitVec 8, isQuote c → ¬isDelimiter c := by decide

/-- An argument that is closed is told from its own characters. -/
theorem token_closed (quote : Option (BitVec 8)) (line : Text) (hquote : ∀ q ∈ quote, isQuote q)
    (h : (token quote line).2.2 = false) :
    ∃ raw, line = raw ++ (token quote line).2.1 ∧ Ends (token quote line).2.1 ∧
      ∀ rest, Ends rest → token quote (raw ++ rest) = ((token quote line).1, rest, false) := by
  induction quote, line using token.induct with
  | case1 quote =>
    cases quote with
    | some q => cases h
    | none => exact ⟨[], rfl, ends_nil, fun rest hrest => token_of_ends hrest⟩
  | case2 q c =>
    have hc : c = q := by
      rw [token] at h
      simpa using h
    subst hc
    refine ⟨[c], rfl, ends_nil, fun rest hrest => ?_⟩
    have hne : ∀ d ∈ rest.head?, d ≠ c := fun d hd hdc => quote_not_delimiter c (hquote c rfl) (hdc ▸ hrest d hd)
    rw [List.singleton_append, token_close hne, token_of_ends hrest, token]
  | case3 q rest text rest' isOpen htoken ih =>
    rw [token, if_pos rfl, if_pos rfl] at h ⊢
    obtain ⟨raw, hline, hends, hreads⟩ := ih hquote h
    refine ⟨q :: q :: raw, congrArg (q :: q :: ·) hline, hends, fun rest hrest => ?_⟩
    rw [List.cons_append, List.cons_append, token.eq_3, if_pos rfl, if_pos rfl, hreads rest hrest]
  | case4 q c' rest text rest' isOpen htoken hne ih =>
    rw [token_close fun c hc => Option.some.inj hc ▸ hne] at h ⊢
    obtain ⟨raw, hline, hends, hreads⟩ := ih (fun _ h => by cases h) h
    refine ⟨q :: raw, congrArg (q :: ·) hline, hends, fun rest hrest => ?_⟩
    have hnext : ∀ c ∈ (raw ++ rest).head?, c ≠ q := by
      intro c hc
      cases raw with
      | nil => exact fun hcq => quote_not_delimiter q (hquote q rfl) (hcq ▸ hrest c hc)
      | cons c₀ raw =>
        rw [← Option.some.inj hc, ← (List.cons.inj hline).1]
        exact hne
    rw [List.cons_append, token_close hnext, hreads rest hrest]
  | case5 q c c' rest hne text rest' isOpen htoken ih =>
    rw [token_inner hne] at h ⊢
    obtain ⟨raw, hline, hends, hreads⟩ := ih hquote h
    refine ⟨c :: raw, congrArg (c :: ·) hline, hends, fun rest hrest => ?_⟩
    rw [List.cons_append, token_inner hne, hreads rest hrest]
  | case6 c rest hd =>
    have hends : Ends (c :: rest) := fun d hcd => Option.some.inj hcd ▸ hd
    rw [token_of_ends hends]
    exact ⟨[], rfl, hends, fun rest hrest => token_of_ends hrest⟩
  | case7 c rest hd text rest' isOpen htoken ih =>
    rw [token, if_neg hd] at h ⊢
    have hquote' : ∀ q ∈ (if isQuote c then some c else none), isQuote q := by
      intro q hq
      split at hq
      · exact Option.some.inj hq ▸ ‹_›
      · cases hq
    obtain ⟨raw, hline, hends, hreads⟩ := ih hquote' h
    refine ⟨c :: raw, congrArg (c :: ·) hline, hends, fun rest hrest => ?_⟩
    rw [List.cons_append, token, if_neg hd, hreads rest hrest]

/-- Characters that are an argument, wherever they are. -/
structure IsToken (raw text : Text) : Prop where
  start : ∃ c cs, raw = c :: cs ∧ ¬isDelimiter c
  reads : ∀ rest, Ends rest → token none (raw ++ rest) = (text, rest, false)

/-- A line, and the texts of the arguments in it; every quote is closed. -/
inductive Splits : Text → List Text → Prop where
  | blank {sep : Text} (hsep : ∀ c ∈ sep, isDelimiter c) : Splits sep []
  | cons {sep raw text rest : Text} {texts : List Text} (hsep : ∀ c ∈ sep, isDelimiter c) (htoken : IsToken raw text)
      (hrest : Ends rest) (h : Splits rest texts) : Splits (sep ++ (raw ++ rest)) (text :: texts)

namespace Splits

variable {line tail : Text} {texts texts' : List Text}

/-- One more delimiter… -/
theorem delimit (h : Splits line texts) {d : BitVec 8} (hd : isDelimiter d) : Splits (d :: line) texts := by
  cases h with
  | blank hsep => exact .blank (List.forall_mem_cons.mpr ⟨hd, hsep⟩)
  | cons hsep htoken hrest h => exact .cons (List.forall_mem_cons.mpr ⟨hd, hsep⟩) htoken hrest h

/-- …or one less. -/
theorem undelimit (h : Splits line texts) (hline : Ends line) : Splits line.tail texts := by
  cases h with
  | blank hsep => exact .blank fun c hc => hsep c (List.mem_of_mem_tail hc)
  | @cons sep raw text rest texts hsep htoken hrest h =>
    cases sep with
    | nil =>
      obtain ⟨c, cs, rfl, hc⟩ := htoken.start
      exact absurd (hline c rfl) hc
    | cons d sep => exact .cons (List.forall_mem_cons.mp hsep).2 htoken hrest h

/-- What follows. -/
theorem append (h : Splits line texts) (h' : Splits tail texts') (htail : Ends tail) :
    Splits (line ++ tail) (texts ++ texts') := by
  induction h with
  | @blank sep hsep =>
    induction sep with
    | nil => exact h'
    | cons d sep ih =>
      obtain ⟨hd, hsep⟩ := List.forall_mem_cons.mp hsep
      exact (ih hsep).delimit hd
  | @cons sep raw text rest texts hsep htoken hrest h ih =>
    have hends : Ends (rest ++ tail) := by
      cases rest with
      | nil => exact htail
      | cons d rest => exact hrest
    rw [List.append_assoc, List.append_assoc]
    exact .cons hsep htoken hends ih

/-- The parts of a line are its arguments. -/
theorem parseFrom (h : Splits line texts) (rounds pos : ℕ) (hrounds : line.length ≤ rounds) :
    (parseFrom rounds pos line).1.map Arg.text = texts ∧ (parseFrom rounds pos line).2 = false := by
  induction rounds generalizing line texts pos with
  | zero =>
    cases h with
    | blank hsep => exact ⟨rfl, rfl⟩
    | cons hsep htoken hrest h =>
      obtain ⟨c, cs, rfl, -⟩ := htoken.start
      simp at hrounds
  | succ rounds ih =>
    cases h with
    | blank hsep =>
      have hdrop : line.dropWhile isDelimiter = [] := List.dropWhile_eq_nil_iff.mpr hsep
      rw [X86Debug.parseFrom, hdrop]
      exact ⟨rfl, rfl⟩
    | @cons sep raw text rest texts hsep htoken hrest h =>
      obtain ⟨c, cs, rfl, hc⟩ := htoken.start
      have hdrop : (sep ++ (c :: cs ++ rest)).dropWhile isDelimiter = c :: (cs ++ rest) := by
        rw [List.dropWhile_append_of_pos hsep, List.cons_append, List.dropWhile_cons_of_neg hc]
      have htail : rest.tail.length ≤ rounds := by
        simp only [List.length_append, List.length_cons, List.length_tail] at hrounds ⊢
        omega
      obtain ⟨htexts, hopen⟩ := ih (h.undelimit hrest)
        (pos + ((sep ++ (c :: cs ++ rest)).takeWhile isDelimiter).length + text.length + 1) htail
      rw [parseFrom_succ hdrop (htoken.reads rest hrest)]
      exact ⟨congrArg (text :: ·) htexts, hopen⟩

end Splits

/-- …and a line in which every quote is closed has parts. -/
theorem splits_parseFrom {rounds pos : ℕ} {line : Text} (hrounds : line.length ≤ rounds)
    (h : (parseFrom rounds pos line).2 = false) : Splits line ((parseFrom rounds pos line).1.map Arg.text) := by
  induction rounds generalizing pos line with
  | zero =>
    rw [List.length_eq_zero_iff.mp (Nat.le_zero.mp hrounds)]
    exact .blank fun c hc => by cases hc
  | succ rounds ih =>
    cases hdrop : line.dropWhile isDelimiter with
    | nil =>
      rw [parseFrom, hdrop]
      exact .blank (List.dropWhile_eq_nil_iff.mp hdrop)
    | cons c cs =>
      have hline := List.takeWhile_append_dropWhile (p := isDelimiter) (l := line)
      have hc : ¬isDelimiter c := by
        have := List.head_dropWhile_not isDelimiter (l := line) (by simp [hdrop])
        simpa [hdrop] using this
      have hsep : ∀ c ∈ line.takeWhile isDelimiter, isDelimiter c := fun c hc => List.mem_takeWhile_imp hc
      rcases htoken : token none (c :: cs) with ⟨text, rest, isOpen⟩
      rw [parseFrom_succ hdrop htoken] at h ⊢
      cases isOpen with
      | true => cases h
      | false =>
        obtain ⟨raw, hraw, hends, hreads⟩ := token_closed none (c :: cs) (fun _ h => by cases h) (by rw [htoken])
        rw [htoken] at hraw hends hreads
        have hstart : ∃ c' cs', raw = c' :: cs' ∧ ¬isDelimiter c' := by
          cases raw with
          | nil => exact absurd (hends c (congrArg List.head? hraw).symm) hc
          | cons c' cs' => exact ⟨c', cs', rfl, (List.cons.inj hraw).1 ▸ hc⟩
        have htail : rest.tail.length ≤ rounds := by
          obtain ⟨c', cs', rfl, -⟩ := hstart
          have := congrArg List.length hline
          rw [hdrop, hraw] at this
          simp only [List.length_append, List.length_cons, List.length_tail] at this ⊢
          omega
        have hmore := ih htail h
        have hrest : Splits rest ((parseFrom rounds
            (pos + (line.takeWhile isDelimiter).length + text.length + 1) rest.tail).1.map Arg.text) := by
          cases rest with
          | nil => exact hmore
          | cons d rest => exact hmore.delimit (hends d rfl)
        have hparts := Splits.cons hsep ⟨hstart, hreads⟩ hends hrest
        rwa [← hraw, ← hdrop, hline] at hparts

/-! ## Items -/

/-- A hexadecimal digit, of either case. -/
def HexDigit := {c : BitVec 8 // (digit (lower c)).isSome}

/-- Its value. -/
def HexDigit.value (d : HexDigit) : ℕ := (digit (lower d.1)).get d.2

/-- A text with each of its quotes doubled. -/
def doubled (q : BitVec 8) (content : Text) : Text := content.flatMap fun c => if c = q then [c, c] else [c]

/-- An item of a list. -/
inductive Item where
  | hex (first : HexDigit) (second : Option HexDigit)
  | quoted (quote : {q : BitVec 8 // isQuote q}) (content : Text)

namespace Item

/-- As it is written… -/
def text : Item → Text
  | .hex first none => [first.1]
  | .hex first (some second) => [first.1, second.1]
  | .quoted quote content => quote.1 :: (doubled quote.1 content ++ [quote.1])

/-- …as an argument… -/
def shown : Item → Text
  | .hex first second => (Item.hex first second).text.map lower
  | .quoted quote content => (Item.quoted quote content).text

/-- …and what it is. -/
def bytes : Item → List (BitVec 8)
  | .hex first none => [.ofNat 8 first.value]
  | .hex first (some second) => [.ofNat 8 (16 * first.value + second.value)]
  | .quoted _ content => content

end Item

theorem digit_plain : ∀ c : BitVec 8, (digit (lower c)).isSome → ¬isDelimiter c ∧ ¬isQuote c ∧ ¬isQuote (lower c) := by
  decide

theorem doubled_quote (q : BitVec 8) (content : Text) : doubled q (q :: content) = q :: q :: doubled q content := by
  rw [doubled, List.flatMap_cons, if_pos rfl]
  rfl

theorem doubled_other {q c : BitVec 8} (hc : c ≠ q) (content : Text) :
    doubled q (c :: content) = c :: doubled q content := by
  rw [doubled, List.flatMap_cons, if_neg hc]
  rfl

/-- A doubled text is read to its end by `parse`… -/
theorem token_doubled {q : BitVec 8} (hq : isQuote q) (content : Text) {rest : Text} (hrest : Ends rest) :
    token (some q) (doubled q content ++ q :: rest) = (doubled q content ++ [q], rest, false) := by
  induction content with
  | nil =>
    have hne : ∀ d ∈ rest.head?, d ≠ q := fun d hd hdq => quote_not_delimiter q hq (hdq ▸ hrest d hd)
    exact (token_close hne).trans (by rw [token_of_ends hrest]; rfl)
  | cons c content ih =>
    by_cases hc : c = q
    · rw [hc, doubled_quote, List.cons_append, List.cons_append, token.eq_3, if_pos rfl, if_pos rfl, ih]
      rfl
    · rw [doubled_other hc, List.cons_append, token_inner hc, ih]
      rfl

/-- …and by `scanlist`. -/
theorem unquote_doubled (q : BitVec 8) (content : Text) : unquote q (doubled q content ++ [q]) = some content := by
  induction content with
  | nil => exact if_pos rfl
  | cons c content ih =>
    by_cases hc : c = q
    · rw [hc, doubled_quote, List.cons_append, List.cons_append, unquote, if_pos rfl, if_pos rfl, ih]
      rfl
    · rw [doubled_other hc, List.cons_append]
      cases hrest : doubled q content ++ [q] with
      | nil => simp at hrest
      | cons c' rest =>
        rw [unquote, if_neg hc, ← hrest, ih]
        rfl

/-- Nothing else is. -/
theorem eq_doubled {q : BitVec 8} {s content : Text} (h : unquote q s = some content) : s = doubled q content ++ [q] := by
  fun_induction unquote q s generalizing content with
  | case1 => cases h
  | case2 =>
    cases h
    rfl
  | case3 => cases h
  | case4 rest ih =>
    obtain ⟨content, hrest, rfl⟩ := Option.map_eq_some_iff.mp h
    rw [ih hrest, doubled_quote]
    rfl
  | case5 => cases h
  | case6 c c' rest hc ih =>
    obtain ⟨content, hrest, rfl⟩ := Option.map_eq_some_iff.mp h
    rw [ih hrest, doubled_other hc]
    rfl

/-- A character that is neither a delimiter nor a quote. -/
theorem token_plain {c : BitVec 8} (hd : ¬isDelimiter c) (hq : ¬isQuote c) (line : Text) :
    token none (c :: line) = (lower c :: (token none line).1, (token none line).2) := by
  rw [token, if_neg hd, if_neg hq, if_neg hq]

/-- An item is an argument. -/
theorem Item.isToken (item : Item) : IsToken item.text item.shown := by
  cases item with
  | quoted quote content =>
    obtain ⟨q, hq⟩ := quote
    refine ⟨⟨q, _, rfl, quote_not_delimiter q hq⟩, fun rest hrest => ?_⟩
    rw [Item.text, List.cons_append, List.append_assoc, List.singleton_append, token, if_neg (quote_not_delimiter q hq),
      if_pos hq, token_doubled hq content hrest, if_pos hq]
    rfl
  | hex first second =>
    obtain ⟨c, hc⟩ := first
    obtain ⟨hd, hq, -⟩ := digit_plain c hc
    cases second with
    | none =>
      refine ⟨⟨c, _, rfl, hd⟩, fun rest hrest => ?_⟩
      change token none (c :: rest) = _
      rw [token_plain hd hq, token_of_ends hrest]
      rfl
    | some second =>
      obtain ⟨c', hc'⟩ := second
      obtain ⟨hd', hq', -⟩ := digit_plain c' hc'
      refine ⟨⟨c, _, rfl, hd⟩, fun rest hrest => ?_⟩
      change token none (c :: c' :: rest) = _
      rw [token_plain hd hq, token_plain hd' hq', token_of_ends hrest]
      rfl

/-- Items as they are written, with delimiters before each. -/
def written (list : List (Text × Item)) : Text := list.flatMap fun (sep, item) => sep ++ item.text

/-- Delimiters, at least one before each item. -/
def Separated (list : List (Text × Item)) (trail : Text) : Prop :=
  (∀ e ∈ list, e.1 ≠ [] ∧ ∀ c ∈ e.1, isDelimiter c) ∧ ∀ c ∈ trail, isDelimiter c

theorem splits_written {list : List (Text × Item)} {trail : Text} (h : Separated list trail) :
    Splits (written list ++ trail) (list.map (·.2.shown)) ∧ Ends (written list ++ trail) := by
  obtain ⟨hlist, htrail⟩ := h
  induction list with
  | nil => exact ⟨.blank htrail, fun d hd => htrail d (List.mem_of_mem_head? hd)⟩
  | cons e list ih =>
    obtain ⟨⟨hne, hsep⟩, hlist⟩ := List.forall_mem_cons.mp hlist
    obtain ⟨hsplits, hends⟩ := ih hlist
    rw [written, List.flatMap_cons, ← written, List.append_assoc, List.append_assoc]
    refine ⟨.cons hsep e.2.isToken hends hsplits, fun d hd => ?_⟩
    obtain ⟨d', sep, hsep'⟩ := List.exists_cons_of_ne_nil hne
    rw [hsep'] at hd hsep
    exact Option.some.inj hd ▸ hsep d' List.mem_cons_self

/-- The letter of a command is told from its text. -/
theorem splitFirst_texts {args args' : List Arg} {texts : List Text} (hne : args ≠ [])
    (h : args'.map Arg.text = args.map Arg.text ++ texts) :
    (splitFirst args').map Arg.text = (splitFirst args).map Arg.text ++ texts := by
  obtain ⟨a, args, rfl⟩ := List.exists_cons_of_ne_nil hne
  cases args' with
  | nil => cases h
  | cons a' args' =>
    obtain ⟨ha, hargs⟩ : a'.text = a.text ∧ args'.map Arg.text = args.map Arg.text ++ texts := List.cons.inj h
    rw [splitFirst, splitFirst, ha]
    split
    · simp only [List.map_cons, ha, List.cons_append, hargs]
    · simp only [List.map_cons, ha, List.cons_append, hargs]

/-- **A line ends in the arguments that its items are.** -/
theorem parse_list {head trail : Text} {list : List (Text × Item)} (hhead : (parse head).2 = false)
    (hne : (parse head).1 ≠ []) (h : Separated list trail) :
    let line := head ++ (written list ++ trail)
    (parse line).1.map Arg.text = (parse head).1.map Arg.text ++ list.map (·.2.shown) ∧ (parse line).2 = false := by
  obtain ⟨hlist, hends⟩ := splits_written h
  have hhead : (parseFrom head.length 0 head).2 = false := hhead
  have hsplits := (splits_parseFrom (Nat.le_refl head.length) hhead).append hlist hends
  have hargs : (parseFrom head.length 0 head).1 ≠ [] := fun hnil => hne (congrArg splitFirst hnil)
  obtain ⟨htexts, hopen⟩ := hsplits.parseFrom _ 0 (Nat.le_refl _)
  exact ⟨splitFirst_texts hargs htexts, hopen⟩

/-! ## Reading them -/

section

variable {args : List Arg} {i : ℕ} {r : Reading}

/-- A digit, with no error. -/
theorem scannubFrom_digit {w digits n d : ℕ} (hn : n < digits) {c : BitVec 8} (hc : digit c = some d) (ans : BitVec w)
    (s : Text) : scannubFrom args digits n ans (c :: s) = scannubFrom args digits (n + 1) (ans <<< 4 + .ofNat w d) s := by
  have hline : c ≠ 0x0a := by
    rintro rfl
    cases hc
  rw [scannubFrom, if_neg hline, if_neg (Nat.not_le.mpr hn), hc]

theorem scannubFrom_nil {w digits n : ℕ} (ans : BitVec w) (r : Reading) : scannubFrom args digits n ans [] r = (ans, r) :=
  rfl

theorem lower_lower : ∀ c : BitVec 8, lower (lower c) = lower c := by decide

theorem HexDigit.digit_eq (d : HexDigit) : digit (lower (lower d.1)) = some d.value := by
  rw [lower_lower]
  exact (Option.some_get d.2).symm

/-- What is not in quotes is a number. -/
theorem scanElement_plain {c : BitVec 8} {s : Text} (h : argText args i = c :: s) (hq : ¬isQuote c) (r : Reading) :
    scanElement args i r =
      ([(scannubFrom args 2 0 (0 : BitVec 8) ((c :: s).map lower) r).1],
        (scannubFrom args 2 0 (0 : BitVec 8) ((c :: s).map lower) r).2) := by
  have hread : scannubit8 args (c :: s) = scannubFrom args 2 0 0 ((c :: s).map lower) := by
    unfold scannubit8
    split
    · rename_i hs
      rw [(List.cons.inj hs).1] at hq
      exact absurd (by decide) hq
    · rfl
  rw [scanElement, h]
  simp only [if_neg hq, hread]
  rfl

/-- An item is read as what it is. -/
theorem scanElement_item {item : Item} (h : argText args i = item.shown) (r : Reading) :
    scanElement args i r = (item.bytes, r) := by
  cases item with
  | quoted quote content =>
    obtain ⟨q, hq⟩ := quote
    rw [scanElement, h, Item.shown, Item.text]
    simp only [hq, if_true, unquote_doubled]
    rfl
  | hex first second =>
    have hfirst := first.digit_eq
    obtain ⟨-, -, hq⟩ := digit_plain first.1 first.2
    cases second with
    | none =>
      have hread : scannubFrom args 2 0 (0 : BitVec 8) [lower (lower first.1)] r = (.ofNat 8 first.value, r) := by
        rw [scannubFrom_digit (by decide) hfirst, scannubFrom_nil]
        simp
      rw [scanElement_plain h hq]
      exact congrArg (fun x : BitVec 8 × Reading => ([x.1], x.2)) hread
    | some second =>
      have hsecond := second.digit_eq
      have hread : scannubFrom args 2 0 (0 : BitVec 8) [lower (lower first.1), lower (lower second.1)] r =
          (.ofNat 8 (16 * first.value + second.value), r) := by
        rw [scannubFrom_digit (by decide) hfirst, scannubFrom_digit (by decide) hsecond, scannubFrom_nil]
        have hshift : (BitVec.ofNat 8 first.value) <<< 4 = BitVec.ofNat 8 (16 * first.value) := by
          apply BitVec.eq_of_toNat_eq
          simp only [BitVec.toNat_shiftLeft, BitVec.toNat_ofNat, Nat.shiftLeft_eq]
          omega
        simp [hshift, BitVec.ofNat_add]
      rw [scanElement_plain h hq]
      exact congrArg (fun x : BitVec 8 × Reading => ([x.1], x.2)) hread

theorem scanElements_succ (args : List Arg) (n i : ℕ) (r : Reading) :
    scanElements args (n + 1) i r =
      if (scanElement args i r).2.nErrPos ≠ 0 then ([], (scanElement args i r).2)
      else ((scanElement args i r).1 ++ (scanElements args n (i + 1) (scanElement args i r).2).1,
        (scanElements args n (i + 1) (scanElement args i r).2).2) := by
  change (if (scanElement args i r).2.nErrPos ≠ 0 then _ else _ : Scan (List (BitVec 8))) (scanElement args i r).2 = _
  by_cases herr : (scanElement args i r).2.nErrPos ≠ 0
  · rw [if_pos herr, if_pos herr]
    rfl
  · rw [if_neg herr, if_neg herr]
    rfl

/-- Items are read one after the other… -/
theorem scanElements_items {items : List Item} (h : (args.drop i).map Arg.text = items.map Item.shown)
    (hr : r.nErrPos = 0) : scanElements args items.length i r = (items.flatMap Item.bytes, r) := by
  induction items generalizing i with
  | nil => rfl
  | cons item items ih =>
    cases hdrop : args.drop i with
    | nil =>
      rw [hdrop] at h
      cases h
    | cons a more =>
      rw [hdrop] at h
      obtain ⟨htext, hmore⟩ := List.cons.inj h
      have harg : argText args i = item.shown := by
        have hget : args[i]? = some a := by
          rw [← Nat.add_zero i, ← List.getElem?_drop, hdrop]
          rfl
        rw [argText, hget]
        exact htext
      have hrest : (args.drop (i + 1)).map Arg.text = items.map Item.shown := by
        rw [← List.tail_drop, hdrop]
        exact hmore
      have hitem := scanElement_item harg r
      rw [List.length_cons, scanElements_succ, hitem]
      simp only [hr, ne_eq, not_true, if_false, ih hrest, List.flatMap_cons]

/-- **…and are the list**; one with nothing in it is an error. -/
theorem scanlist_items {items : List Item} {first : ℕ} (h : (args.drop first).map Arg.text = items.map Item.shown)
    (hr : r.nErrPos = 0) :
    (scanlist args first r).1 = items.flatMap Item.bytes ∧
      ((scanlist args first r).2.nErrPos = 0 ↔ items.flatMap Item.bytes ≠ []) := by
  have hlength : args.length - first = items.length := by
    have := congrArg List.length h
    rwa [List.length_map, List.length_map, List.length_drop] at this
  have helements : Ensures (fun r' => r' = r) (scanElements args (args.length - first) first)
      fun bytes r' => bytes = items.flatMap Item.bytes ∧ r' = r := by
    rintro _ rfl
    rw [hlength, scanElements_items h hr]
    exact ⟨rfl, rfl⟩
  have hlist : Ensures (fun r' => r' = r) (scanlist args first)
      fun bytes r' => bytes = items.flatMap Item.bytes ∧ (r'.nErrPos = 0 ↔ items.flatMap Item.bytes ≠ []) := by
    unfold scanlist
    refine .bind _ helements fun bytes => .bind _ .get fun s => .ite (fun hnil => ?_) fun hbytes => ?_
    · refine .bind (fun _ r' => bytes = items.flatMap Item.bytes ∧ r'.nErrPos ≠ 0)
        (fun r' hr' => ⟨hr'.2.1, Nat.succ_ne_zero _⟩) fun _ => .bind _ .get fun s' => .pure ?_
      rintro _ ⟨rfl, rfl, herr⟩
      rw [if_neg herr]
      exact ⟨hnil.1.symm, iff_of_false herr (not_not.mpr hnil.1)⟩
    · refine .bind _ .get fun s' => .pure ?_
      rintro _ ⟨rfl, rfl, rfl, rfl⟩
      rw [if_pos hr]
      exact ⟨rfl, iff_of_true hr fun hnil => hbytes ⟨hnil, .inl hr⟩⟩
  exact hlist r rfl

/-! ## What is no item -/

/-- An argument as an item is written. -/
def IsItem (text : Text) : Prop := ∃ item : Item, item.text = text

/-- An argument that the letter of a command is not split from. -/
def IsWhole (text : Text) : Prop := text ≠ [] ∧ ∃ line, text = (token none line).1

theorem lower_plain : ∀ c : BitVec 8, ¬isDelimiter c → ¬isQuote c → ¬isDelimiter (lower c) := by decide

/-- What is not in quotes is no delimiter. -/
theorem token_cons {line text : Text} {c : BitVec 8} (h : (token none line).1 = c :: text) :
    (isQuote c ∨ ¬isDelimiter c) ∧ (¬isQuote c → ∃ rest, text = (token none rest).1) := by
  cases line with
  | nil => cases h
  | cons c₀ line =>
    by_cases hd : isDelimiter c₀
    · rw [token, if_pos hd] at h
      cases h
    · by_cases hq : isQuote c₀
      · rw [token, if_neg hd, if_pos hq, if_pos hq] at h
        obtain rfl : c₀ = c := (List.cons.inj h).1
        exact ⟨.inl hq, fun hnq => absurd hq hnq⟩
      · rw [token_plain hd hq] at h
        obtain ⟨rfl, rfl⟩ := List.cons.inj h
        exact ⟨.inr (lower_plain c₀ hd hq), fun _ => ⟨line, rfl⟩⟩

theorem ne_newline : ∀ c : BitVec 8, isQuote c ∨ ¬isDelimiter c → lower c ≠ 0x0a := by decide

/-- An error stays. -/
theorem scannubFrom_error {w digits n : ℕ} (ans : BitVec w) (s : Text) (h : r.nErrPos ≠ 0) :
    (scannubFrom args digits n ans s r).2.nErrPos ≠ 0 := by
  induction s generalizing n ans r with
  | nil => exact h
  | cons c s ih =>
    unfold scannubFrom
    split
    · exact h
    · split
      · exact Nat.succ_ne_zero _
      · cases digit c with
        | some d => exact ih _ h
        | none => exact ih _ (Nat.succ_ne_zero _)

/-- A character that is no digit, or one too many, is an error. -/
theorem scannubFrom_bad {w digits n : ℕ} {c : BitVec 8} (hc : c ≠ 0x0a) (h : digit c = none ∨ digits ≤ n) (ans : BitVec w)
    (s : Text) (r : Reading) : (scannubFrom args digits n ans (c :: s) r).2.nErrPos ≠ 0 := by
  rw [scannubFrom, if_neg hc]
  split
  · exact Nat.succ_ne_zero _
  · rw [h.resolve_right ‹_›]
    exact scannubFrom_error (r := { r with nErrPos := _ }) _ s (Nat.succ_ne_zero _)

/-- **What is no item is an error.** -/
theorem scanElement_error (hwhole : IsWhole (argText args i)) (h : ¬IsItem (argText args i)) (r : Reading) :
    (scanElement args i r).2.nErrPos ≠ 0 := by
  obtain ⟨hne, line, hline⟩ := hwhole
  cases htext : argText args i with
  | nil => exact absurd htext hne
  | cons c s =>
    rw [htext] at hline h
    by_cases hq : isQuote c
    · rw [scanElement, htext]
      simp only [if_pos hq]
      cases hunquote : unquote c s with
      | some content =>
        refine absurd ⟨.quoted ⟨c, hq⟩ content, ?_⟩ h
        rw [Item.text, ← eq_doubled hunquote]
      | none => exact Nat.succ_ne_zero _
    · rw [scanElement_plain htext hq]
      obtain ⟨hc, hrest⟩ := token_cons hline.symm
      obtain ⟨line', hline'⟩ := hrest hq
      change (scannubFrom args 2 0 (0 : BitVec 8) (lower c :: s.map lower) r).2.nErrPos ≠ 0
      cases hdigit : digit (lower c) with
      | none => exact scannubFrom_bad (ne_newline c hc) (.inl hdigit) 0 _ r
      | some d =>
        have hc' : (digit (lower c)).isSome := by rw [hdigit]; rfl
        rw [scannubFrom_digit (by decide) hdigit]
        cases s with
        | nil => exact absurd ⟨.hex ⟨c, hc'⟩ none, rfl⟩ h
        | cons e s =>
          obtain ⟨he, hrest⟩ := token_cons hline'.symm
          cases hdigit' : digit (lower e) with
          | none => exact scannubFrom_bad (ne_newline e he) (.inl hdigit') _ _ r
          | some d' =>
            have he' : (digit (lower e)).isSome := by rw [hdigit']; rfl
            have hnq : ¬isQuote e := (digit_plain e he').2.1
            rw [List.map_cons, scannubFrom_digit (by decide) hdigit']
            cases s with
            | nil => exact absurd ⟨.hex ⟨c, hc'⟩ (some ⟨e, he'⟩), rfl⟩ h
            | cons g s =>
              obtain ⟨line'', hline''⟩ := hrest hnq
              exact scannubFrom_bad (ne_newline g (token_cons hline''.symm).1) (.inr (Nat.le_refl _)) _ _ r

/-- …wherever it is in the list. -/
theorem scanElements_error {n k : ℕ} (hk : i ≤ k) (hkn : k < i + n) (hwhole : IsWhole (argText args k))
    (h : ¬IsItem (argText args k)) (r : Reading) : (scanElements args n i r).2.nErrPos ≠ 0 := by
  induction n generalizing i r with
  | zero => omega
  | succ n ih =>
    rw [scanElements_succ]
    by_cases herr : (scanElement args i r).2.nErrPos ≠ 0
    · rw [if_pos herr]
      exact herr
    · rw [if_neg herr]
      have hne : i ≠ k := fun heq => herr (heq ▸ scanElement_error hwhole h r)
      exact ih (by omega) (by omega) _

/-- …and the list is no list. -/
theorem scanlist_error {first k : ℕ} (hk : first ≤ k) (hlt : k < args.length) (hwhole : IsWhole (argText args k))
    (h : ¬IsItem (argText args k)) : Ensures (fun _ => True) (scanlist args first) fun _ r => r.nErrPos ≠ 0 := by
  unfold scanlist
  refine .bind (fun _ r => r.nErrPos ≠ 0) (fun r _ => scanElements_error hk (by omega) hwhole h r) fun bytes =>
    .bind _ .get fun s => .ite (fun _ => .bind _ (.seterr _ _) fun _ => ?_) fun _ => ?_
  · exact .bind _ .get fun s => .pure fun r hr => hr.2
  · exact .bind _ .get fun s' => .pure fun r hr => hr.2.2

end

/-- Every argument of a line is whole… -/
theorem isWhole_parseFrom {rounds pos : ℕ} {line : Text} {a : Arg} (h : a ∈ (parseFrom rounds pos line).1) :
    IsWhole a.text := by
  refine ⟨text_ne_nil h, ?_⟩
  induction rounds generalizing pos line with
  | zero => cases h
  | succ rounds ih =>
    cases hdrop : line.dropWhile isDelimiter with
    | nil =>
      rw [parseFrom, hdrop] at h
      cases h
    | cons c cs =>
      rcases htoken : token none (c :: cs) with ⟨text, rest, isOpen⟩
      rw [parseFrom_succ hdrop htoken] at h
      rcases List.mem_cons.mp h with rfl | h
      · exact ⟨c :: cs, by rw [htoken]⟩
      · split at h
        · cases h
        · exact ih h

/-- …from the third on. -/
theorem isWhole_parse {line : Text} {k : ℕ} (hk : 2 ≤ k) (hlt : k < (parse line).1.length) :
    IsWhole (argText (parse line).1 k) := by
  have hsplit (args : List Arg) (hlt : k < (splitFirst args).length) : ∃ a ∈ args, argText (splitFirst args) k = a.text := by
    obtain ⟨k, rfl⟩ := Nat.exists_eq_add_of_le' hk
    cases args with
    | nil => cases hlt
    | cons a args =>
      rw [splitFirst] at hlt ⊢
      split at hlt
      · rw [if_pos ‹_›, argText]
        have hlt : k < args.length := Nat.lt_of_succ_lt_succ (Nat.lt_of_succ_lt_succ hlt)
        exact ⟨args[k], List.mem_cons_of_mem _ (List.getElem_mem hlt), by simp [hlt]⟩
      · rw [if_neg ‹_›, argText]
        have hlt : k + 1 < args.length := Nat.lt_of_succ_lt_succ hlt
        exact ⟨args[k + 1], List.mem_cons_of_mem _ (List.getElem_mem hlt), by simp [hlt]⟩
  obtain ⟨a, ha, htext⟩ := hsplit _ hlt
  exact htext ▸ isWhole_parseFrom ha

/-! ## Commands -/

/-- `e`, with a list. -/
def e (regs : SegmentRegs) (args : List Arg) : Scan (Option Action) := do
  addrparse regs args regs.ds (argText args 1)
  let bytes ← scanlist args 2
  let r ← get
  return if r.nErrPos ≠ 0 then none else some (.fill r.seg r.ptr bytes.length bytes)

/-- `xe`, with a list. -/
def xe (args : List Arg) : Scan (Option Action) := do
  let linear ← scannubit32 args (argText args 1)
  let bytes ← scanlist args 2
  if (← get).nErrPos ≠ 0 then return none
  else if ← xcheckrange args linear bytes.length then return some (.fillLinear linear bytes.length bytes)
  else return none

/-- A command that takes a list. -/
inductive ListCommand where
  | e
  | f
  | s
  | xe
  | xf
  | xs

namespace ListCommand

/-- The arguments, in which an `x` goes. -/
def args (line : Text) : ListCommand → List Arg
  | .e | .f | .s => (parse line).1
  | .xe | .xf | .xs => (parse line).1.tail

/-- What is read from them. -/
def read (regs : SegmentRegs) (args : List Arg) : ListCommand → Scan (Option Action)
  | .e => X86Debug.e regs args
  | .f => X86Debug.f regs args
  | .s => X86Debug.s regs args
  | .xe => X86Debug.xe args
  | .xf => X86Debug.xf args
  | .xs => X86Debug.xs args

/-- Where the list is in them. -/
def first (regs : SegmentRegs) (args : List Arg) (r : Reading) : ListCommand → ℕ
  | .e | .xe => 2
  | .f | .s => (scanrange regs args regs.ds 128 r).1.2
  | .xf | .xs => 3

/-- The command: memory, and `nErrPos`. -/
def perform (regs : SegmentRegs) (r : Reading) (line : Text) (ram : Ram) (command : ListCommand) : Ram × ℕ :=
  let args := command.args line
  let read : Scan (Option Action) :=
    if (parse line).2 then do
      seterr args (args.length - 1)
      return none
    else command.read regs args
  match read { r with nErrPos := 0 } with
  | (some action, r) => ((action.run ram).ram, r.nErrPos)
  | (none, r) => (ram, r.nErrPos)

end ListCommand

/-- A range is followed by an argument that is not of the address. -/
theorem scanrange_next (regs : SegmentRegs) (args : List Arg) (seg : BitVec 16) (n : ℕ) :
    Ensures (fun _ => True) (scanrange regs args seg n) fun range r => r.nErrPos = 0 → 2 ≤ range.2 := by
  have hextent : Ensures (fun _ => True) (scanExtent args n) fun extent r =>
      match extent with
      | some (_, next) => 2 ≤ next
      | none => r.nErrPos ≠ 0 := by
    unfold scanExtent
    refine .bind _ .get fun s => .ite (fun _ => ?_) fun _ => .pure fun _ _ => Nat.le_refl 2
    cases argText args 2 with
    | nil => exact .pure fun _ _ => Nat.le_refl 2
    | cons c rest =>
      refine .ite (fun _ => ?_) fun _ => .ite (fun _ => ?_) fun _ => .pure fun _ _ => Nat.le_refl 2
      · have hnext (length : Text) (next : ℕ) (hnext : 2 ≤ next) : Ensures (fun r => s = r ∧ True)
            (if length = [] then do seterr args (next - 1); return none
             else do
               let count ← scannubit16 args length
               return some (if count = 0 then 0x10000 else count.toNat, next))
            fun extent r => match extent with
              | some (_, next) => 2 ≤ next
              | none => r.nErrPos ≠ 0 :=
          .ite (fun _ => .bind _ (.seterr _ _) fun _ => .pure fun _ herr => herr) fun _ =>
            .bind _ (.any _) fun _ => .pure fun _ _ => hnext
        by_cases hown : rest = [] ∧ 3 < args.length
        · simp only [if_pos hown]
          exact hnext _ 4 (by decide)
        · simp only [if_neg hown]
          exact hnext _ 3 (by decide)
      · refine .bind _ (.any _) fun last => .ite (fun _ => ?_) fun _ => .pure fun _ _ => Nat.le_succ 2
        exact .bind _ (.seterr _ _) fun _ => .pure fun _ herr => herr
  unfold scanrange
  refine .ite (fun _ => .bind _ (.seterr _ _) fun _ => .pure fun _ herr h => absurd h herr) fun _ =>
    .bind _ (.any _) fun _ => .bind _ hextent fun extent => ?_
  match extent with
  | none => exact .pure fun _ herr h => absurd h herr
  | some (count, next) =>
    refine .bind _ .get fun s => .ite (fun _ => ?_) fun hshort => ?_
    · refine .bind _ (.seterr _ _) fun _ => .bind _ .get fun s' => .pure ?_
      rintro r ⟨rfl, herr⟩ h
      exact absurd h herr
    · refine .bind _ .get fun s' => .pure ?_
      rintro r ⟨rfl, rfl, hnext⟩ -
      exact hnext

section

variable {regs : SegmentRegs} {args : List Arg} {k : ℕ}

/-- `f` and `s`, with an argument in the list that is no item. -/
theorem readList_error {act : BitVec 16 → BitVec 16 → ℕ → List (BitVec 8) → Action} {r : Reading}
    (hk : (scanrange regs args regs.ds 128 r).1.2 ≤ k) (hlt : k < args.length)
    (hwhole : 2 ≤ k → IsWhole (argText args k)) (h : ¬IsItem (argText args k)) :
    (readList regs args act r).1 = none ∧ (readList regs args act r).2.nErrPos ≠ 0 := by
  have hread : Ensures (fun r' => r' = r) (readList regs args act) fun action r' => action = none ∧ r'.nErrPos ≠ 0 := by
    unfold readList
    refine .bind (fun range r' => range = (scanrange regs args regs.ds 128 r).1 ∧ (r'.nErrPos = 0 → 2 ≤ range.2))
      (fun r' hr => ⟨by rw [hr], scanrange_next regs args regs.ds 128 r' trivial⟩) fun ⟨count, next⟩ =>
      .bind _ .get fun s => .ite (fun herr => .pure fun r' hr => ⟨rfl, hr.1 ▸ herr⟩) fun hok => ?_
    rintro r' ⟨rfl, hrange, hnext⟩
    have hfirst : next ≤ k := by
      rw [← hrange] at hk
      exact hk
    have hlist := scanlist_error hfirst hlt (hwhole (Nat.le_trans (hnext (not_not.mp hok)) hfirst)) h
    have hrest : Ensures (fun _ => True) (do
        let bytes ← scanlist args next
        let r ← get
        return if r.nErrPos ≠ 0 then none else some (act r.seg r.ptr count bytes))
        fun action r' => action = none ∧ r'.nErrPos ≠ 0 :=
      .bind _ hlist fun bytes => .bind _ .get fun r => .pure fun r' hr => ⟨if_pos (hr.1 ▸ hr.2), hr.2⟩
    exact hrest s trivial
  exact hread r rfl

/-- An argument of the list that is no item is an error of the command. -/
theorem ListCommand.read_error {r : Reading} (command : ListCommand) (hk : command.first regs args r ≤ k)
    (hlt : k < args.length) (hwhole : 2 ≤ k → IsWhole (argText args k)) (h : ¬IsItem (argText args k)) :
    (command.read regs args r).1 = none ∧ (command.read regs args r).2.nErrPos ≠ 0 := by
  cases command with
  | f => exact readList_error hk hlt hwhole h
  | s => exact readList_error hk hlt hwhole h
  | e =>
    have hlist := scanlist_error hk hlt (hwhole hk) h
    have hread : Ensures (fun _ => True) (X86Debug.e regs args) fun action r => action = none ∧ r.nErrPos ≠ 0 :=
      .bind _ (.any _) fun _ => .bind _ hlist fun _ => .bind _ .get fun s => .pure fun r hr =>
        ⟨if_pos (hr.1 ▸ hr.2), hr.2⟩
    exact hread r trivial
  | xe =>
    have hlist := scanlist_error hk hlt (hwhole hk) h
    have hread : Ensures (fun _ => True) (X86Debug.xe args) fun action r => action = none ∧ r.nErrPos ≠ 0 :=
      .bind _ (.any _) fun _ => .bind _ hlist fun _ => .bind _ .get fun s => .ite (fun _ => .pure fun r hr => ⟨rfl, hr.2⟩)
        fun hok r hr => absurd (hr.1.symm ▸ hr.2) hok
    exact hread r trivial
  | xf =>
    have hlist := scanlist_error hk hlt (hwhole (Nat.le_of_succ_le hk)) h
    have hread : Ensures (fun _ => True) (X86Debug.xf args) fun action r => action = none ∧ r.nErrPos ≠ 0 := by
      refine .ite (fun _ => .bind _ (.seterr _ _) fun _ => .pure fun _ herr => ⟨rfl, herr⟩) fun _ => ?_
      exact .bind _ (.any _) fun _ => .bind _ (.any _) fun _ => .bind _ hlist fun _ => .bind _ .get fun s =>
        .ite (fun _ => .pure fun r hr => ⟨rfl, hr.2⟩) fun hok r hr => absurd (hr.1.symm ▸ hr.2) hok
    exact hread r trivial
  | xs =>
    have hlist := scanlist_error hk hlt (hwhole (Nat.le_of_succ_le hk)) h
    have hnone (r : Reading) (h : (none : Option (BitVec 32)).isSome ↔ r.nErrPos = 0) :
        (none : Option Action) = none ∧ r.nErrPos ≠ 0 := ⟨rfl, fun herr => Bool.false_ne_true (h.mpr herr)⟩
    have hread : Ensures (fun _ => True) (X86Debug.xs args) fun action r => action = none ∧ r.nErrPos ≠ 0 := by
      refine .ite (fun _ => .bind _ (.seterr _ _) fun _ => .pure fun _ herr => ⟨rfl, herr⟩) fun _ =>
        .bind _ (readLinear_error args 1) fun linear => ?_
      cases linear with
      | none => exact .pure hnone
      | some linear =>
        refine .bind _ (readLinear_error args 2) fun count => ?_
        cases count with
        | none => exact .pure hnone
        | some count =>
          exact .bind _ (hlist.mono (fun _ _ => trivial) fun _ _ h => h) fun _ => .bind _ .get fun s =>
            .ite (fun _ => .pure fun r hr => ⟨rfl, hr.2⟩) fun hok r hr => absurd (hr.1.symm ▸ hr.2) hok
    exact hread r trivial

/-- The command leaves memory alone. -/
theorem ListCommand.perform_error {r : Reading} {line : Text} (command : ListCommand)
    (hk : command.first regs (command.args line) { r with nErrPos := 0 } ≤ k) (hlt : k < (command.args line).length)
    (h : ¬IsItem (argText (command.args line) k)) (ram : Ram) :
    (command.perform regs r line ram).1 = ram ∧ (command.perform regs r line ram).2 ≠ 0 := by
  have hwhole (hthird : 2 ≤ k) : IsWhole (argText (command.args line) k) := by
    have htail (hlt : k < (parse line).1.tail.length) : IsWhole (argText (parse line).1.tail k) := by
      rw [List.length_tail] at hlt
      rw [argText, List.getElem?_tail]
      exact isWhole_parse (Nat.le_succ_of_le hthird) (by omega)
    cases command with
    | e => exact isWhole_parse hthird hlt
    | f => exact isWhole_parse hthird hlt
    | s => exact isWhole_parse hthird hlt
    | xe => exact htail hlt
    | xf => exact htail hlt
    | xs => exact htail hlt
  have hread := command.read_error hk hlt hwhole h
  cases hopen : (parse line).2 with
  | true =>
    rw [perform, hopen]
    exact ⟨rfl, Nat.succ_ne_zero _⟩
  | false =>
    rw [perform, hopen]
    simp only [Bool.false_eq_true, if_false]
    rcases hr : command.read regs (command.args line) { r with nErrPos := 0 } with ⟨action, r'⟩
    rw [hr] at hread
    obtain ⟨rfl, herr⟩ := hread
    exact ⟨rfl, herr⟩

end

/-- `X86_DEBUG_LINE_CAPACITY`. -/
def lineCapacity : ℕ := 256

/-- **What a line says is what was written**: its arguments are told apart with room to spare, a list is the bytes
of its items, and what is no item leaves memory alone. -/
theorem lists_lossless :
    (∀ line : Text, (∀ c ∈ line, c ≠ 0) → line.length < lineCapacity →
      (parseInPlace line).copy.length ≤ lineCapacity ∧ (parseInPlace line).arg.length < argumentCapacity ∧
      (parseInPlace line).arg = (parse line).1.map Arg.start ∧ ∀ a ∈ (parse line).1, Holds (parseInPlace line).copy a) ∧
    (∀ (head trail : Text) (list : List (Text × Item)) (k : ℕ) (r : Reading), (parse head).2 = false →
      k < (parse head).1.length → Separated list trail → r.nErrPos = 0 →
      let args := (parse (head ++ (written list ++ trail))).1.drop k
      let bytes := list.flatMap (·.2.bytes)
      (scanlist args ((parse head).1.length - k) r).1 = bytes ∧
        ((scanlist args ((parse head).1.length - k) r).2.nErrPos = 0 ↔ bytes ≠ [])) ∧
    (∀ (line : Text) (k first : ℕ) (r : Reading), line.length < lineCapacity → 0 < k + first →
      (scanlist ((parse line).1.drop k) first r).1.length ≤ lineCapacity) ∧
    (∀ (command : ListCommand) (regs : SegmentRegs) (r : Reading) (line : Text) (ram : Ram) (k : ℕ),
      command.first regs (command.args line) { r with nErrPos := 0 } ≤ k → k < (command.args line).length →
      ¬IsItem (argText (command.args line) k) →
      (command.perform regs r line ram).1 = ram ∧ (command.perform regs r line ram).2 ≠ 0) := by
  refine ⟨fun line h hline => ?_, fun head trail list k r hhead hk hlist hr => ?_, fun line k first r hline hk => ?_,
    fun command regs r line ram k hk hlt h => command.perform_error hk hlt h ram⟩
  · obtain ⟨harg, -⟩ := parseInPlace_eq h
    rw [copy_length h, harg, List.length_map]
    exact ⟨hline, arguments_bounded hline, rfl, fun a ha => argument_inside h ha⟩
  · have hne : (parse head).1 ≠ [] := List.ne_nil_of_length_pos (by omega)
    obtain ⟨htexts, -⟩ := parse_list hhead hne hlist
    have hitems := @scanlist_items ((parse (head ++ (written list ++ trail))).1.drop k) r (list.map (·.2))
      ((parse head).1.length - k)
    rw [List.flatMap_map] at hitems
    refine hitems ?_ hr
    rw [List.drop_drop, Nat.add_sub_cancel' hk.le, List.map_drop, htexts, List.drop_left' (List.length_map _),
      List.map_map]
    rfl
  · have hlength := scanlist_length ((parse line).1.drop k) first r trivial
    have hparse := weight_parse line
    have htail : weight (((parse line).1.drop k).drop first) ≤ weight (parse line).1.tail := by
      obtain ⟨n, hn⟩ : ∃ n, k + first = n + 1 := ⟨k + first - 1, by omega⟩
      rw [List.drop_drop, hn, ← List.drop_tail]
      by_cases hn : n ≤ (parse line).1.tail.length
      · exact Nat.le_of_add_right_le (weight_drop _ n hn)
      · rw [List.drop_eq_nil_of_le (Nat.le_of_not_le hn)]
        exact Nat.zero_le _
    exact Nat.le_trans hlength (Nat.le_trans htail (Nat.le_trans hparse hline))

theorem lists_lossless_enter :
    (scanlist (parse ("e 100 'A b',4F".toList.map ch)).1 2 {}).1 = "A bO".toList.map ch := by
  have hlist := lists_lossless.2.1 ("e 100".toList.map ch) [] [([0x20], .quoted ⟨0x27, rfl⟩ ("A b".toList.map ch)),
    ([0x2c], .hex ⟨ch '4', rfl⟩ (some ⟨ch 'F', rfl⟩))] 0 {} (by decide) (by decide)
    ⟨by decide, by decide⟩ rfl
  have hlength : (parse ("e 100".toList.map ch)).1.length - 0 = 2 := by decide
  rw [hlength] at hlist
  exact hlist.1

end SoftPC.X86Debug
