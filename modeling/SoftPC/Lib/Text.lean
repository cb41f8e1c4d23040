import Mathlib.Data.List.Basic
import Mathlib.Data.Nat.Notation
import Mathlib.Tactic.Common
import Mathlib.Algebra.GroupWithZero.Nat

/-!
# Lib/Text — well-formed UTF-8

    lead byte ──▸ value, count, minimum ──▸ count continuation bytes ──▸ a scalar of that length, or none

`base_text_utf8_valid_bytes` of `text.c`.  A text is well formed when it is the encoding of characters
(`WellFormed`); a character is a scalar value, and `String.utf8EncodeChar` its shortest form.  A read past the bytes
that are there is `none`.
-/

namespace SoftPC.Text

/-- A lead byte: the bits of the value it holds, the continuation bytes that follow, and the least value that needs
as many. -/
def lead (byte : UInt8) : Option (ℕ × ℕ × ℕ) :=
  let value := byte.toNat
  if 0xc2 ≤ value ∧ value ≤ 0xdf then some (value &&& 0x1f, 1, 0x80)
  else if 0xe0 ≤ value ∧ value ≤ 0xef then some (value &&& 0x0f, 2, 0x800)
  else if 0xf0 ≤ value ∧ value ≤ 0xf4 then some (value &&& 0x07, 3, 0x10000)
  else none

/-- The continuation bytes: the value and the bytes that follow, unless one is no continuation byte. -/
def continuation : ℕ → ℕ → List UInt8 → Option (Option (ℕ × List UInt8))
  | 0, value, next => some (some (value, next))
  | _ + 1, _, [] => none
  | count + 1, value, byte :: next =>
    if byte.toNat &&& 0xc0 ≠ 0x80 then some none
    else continuation count ((value <<< 6) ||| (byte.toNat &&& 0x3f)) next

/-- The loop of `base_text_utf8_valid_bytes`. -/
def scan (length : ℕ) (next : List UInt8) : Option Bool :=
  if length = 0 then some true
  else
    match next with
    | [] => none
    | byte :: next =>
      if byte.toNat < 0x80 then scan (length - 1) next
      else
        match lead byte with
        | none => some false
        | some (value, count, minimum) =>
          if count > length - 1 then some false
          else
            match continuation count value next with
            | none => none
            | some none => some false
            | some (some (value, next)) =>
              if value < minimum ∨ value > 0x10ffff ∨ 0xd800 ≤ value ∧ value ≤ 0xdfff then some false
              else scan (length - 1 - count) next
  termination_by length

/-- `base_text_utf8_valid_bytes`; no bytes at all are `NULL`. -/
def baseTextUtf8ValidBytes (text : Option (List UInt8)) (length : ℕ) : Option Bool :=
  match text with
  | none => some (decide (length = 0))
  | some next => scan length next

/-- The encoding of characters. -/
def WellFormed (bytes : List UInt8) : Prop := ∃ cs : List Char, bytes = cs.flatMap String.utf8EncodeChar

/-! ## Continuation bytes -/

/-- The bytes `10xxxxxx`. -/
def isContinuation (byte : UInt8) : Prop := 0x80 ≤ byte.toNat ∧ byte.toNat < 0xc0

instance (byte : UInt8) : Decidable (isContinuation byte) := inferInstanceAs (Decidable (_ ∧ _))

theorem and_eq_iff_isContinuation (byte : UInt8) : byte.toNat &&& 0xc0 = 0x80 ↔ isContinuation byte := by
  have hall : ∀ n < 256, n &&& 0xc0 = 0x80 ↔ 0x80 ≤ n ∧ n < 0xc0 := by decide +kernel
  exact hall byte.toNat byte.toNat_lt

/-- Six more bits. -/
theorem shift_or_eq (value n : ℕ) : (value <<< 6) ||| (n &&& 0x3f) = value * 64 + n % 64 := by
  have hmask : n &&& 0x3f = n % 64 := Nat.and_two_pow_sub_one_eq_mod n 6
  rw [hmask, ← Nat.shiftLeft_add_eq_or_of_lt (i := 6) (Nat.mod_lt _ (by decide)), Nat.shiftLeft_eq]

variable {value count : ℕ} {byte : UInt8} {next : List UInt8}

theorem continuation_cons (h : isContinuation byte) : continuation (count + 1) value (byte :: next) =
    continuation count (value * 64 + byte.toNat % 64) next := by
  rw [continuation, if_neg (not_not_intro ((and_eq_iff_isContinuation byte).mpr h)), shift_or_eq]

theorem continuation_not (h : ¬isContinuation byte) : continuation (count + 1) value (byte :: next) = some none := by
  rw [continuation, if_pos fun h' => h ((and_eq_iff_isContinuation byte).mp h')]

/-- Enough bytes are read. -/
theorem exists_continuation (value : ℕ) (h : count ≤ next.length) : ∃ r, continuation count value next = some r := by
  induction count generalizing value next with
  | zero => exact ⟨_, rfl⟩
  | succ count ih =>
    cases next with
    | nil => cases h
    | cons byte next =>
      by_cases hbyte : isContinuation byte
      · rw [continuation_cons hbyte]
        exact ih _ (Nat.le_of_succ_le_succ h)
      · exact ⟨_, continuation_not hbyte⟩

theorem continuation_zero_eq {v : ℕ} {rest : List UInt8} (h : continuation 0 value next = some (some (v, rest))) :
    value = v ∧ next = rest :=
  Prod.mk.inj (Option.some.inj (Option.some.inj h))

theorem continuation_succ_eq {v : ℕ} {rest : List UInt8}
    (h : continuation (count + 1) value next = some (some (v, rest))) : ∃ byte next', next = byte :: next' ∧
      isContinuation byte ∧ continuation count (value * 64 + byte.toNat % 64) next' = some (some (v, rest)) := by
  cases next with
  | nil => cases h
  | cons byte next =>
    by_cases hbyte : isContinuation byte
    · rw [continuation_cons hbyte] at h
      exact ⟨byte, next, rfl, hbyte, h⟩
    · rw [continuation_not hbyte] at h
      cases h

theorem continuation_length {v : ℕ} {rest : List UInt8} (h : continuation count value next = some (some (v, rest))) :
    next.length = count + rest.length := by
  induction count generalizing value next with
  | zero => rw [(continuation_zero_eq h).2, Nat.zero_add]
  | succ count ih =>
    obtain ⟨byte, next, rfl, -, hread⟩ := continuation_succ_eq h
    rw [List.length_cons, ih hread, Nat.succ_add]

/-! ## Lead bytes -/

theorem and_eq_sub {byte : UInt8} {low k : ℕ} (hlow : low ≤ byte.toNat) (hbyte : byte.toNat < low + 2 ^ k)
    (hdvd : 2 ^ k ∣ low) : byte.toNat &&& (2 ^ k - 1) = byte.toNat - low := by
  obtain ⟨m, rfl⟩ := hdvd
  obtain ⟨d, hd⟩ := Nat.exists_eq_add_of_le hlow
  rw [Nat.and_two_pow_sub_one_eq_mod, hd, Nat.mul_add_mod_self_left, Nat.add_sub_cancel_left]
  exact Nat.mod_eq_of_lt (by omega)

theorem lead_two (hlow : 0xc2 ≤ byte.toNat) (hhigh : byte.toNat ≤ 0xdf) :
    lead byte = some (byte.toNat - 0xc0, 1, 0x80) := by
  have hvalue : byte.toNat &&& 0x1f = byte.toNat - 0xc0 := and_eq_sub (k := 5) (by omega) (by omega) (by decide)
  rw [lead, if_pos ⟨hlow, hhigh⟩, hvalue]

theorem lead_three (hlow : 0xe0 ≤ byte.toNat) (hhigh : byte.toNat ≤ 0xef) :
    lead byte = some (byte.toNat - 0xe0, 2, 0x800) := by
  have hvalue : byte.toNat &&& 0x0f = byte.toNat - 0xe0 := and_eq_sub (k := 4) (by omega) (by omega) (by decide)
  rw [lead, if_neg (by omega), if_pos ⟨hlow, hhigh⟩, hvalue]

theorem lead_four (hlow : 0xf0 ≤ byte.toNat) (hhigh : byte.toNat ≤ 0xf4) :
    lead byte = some (byte.toNat - 0xf0, 3, 0x10000) := by
  have hvalue : byte.toNat &&& 0x07 = byte.toNat - 0xf0 := and_eq_sub (k := 3) (by omega) (by omega) (by decide)
  rw [lead, if_neg (by omega), if_neg (by omega), if_pos ⟨hlow, hhigh⟩, hvalue]

/-- Those are all of them. -/
theorem lead_cases {minimum : ℕ} (h : lead byte = some (value, count, minimum)) :
    0xc2 ≤ byte.toNat ∧ byte.toNat ≤ 0xdf ∧ byte.toNat - 0xc0 = value ∧ 1 = count ∧ 0x80 = minimum ∨
      0xe0 ≤ byte.toNat ∧ byte.toNat ≤ 0xef ∧ byte.toNat - 0xe0 = value ∧ 2 = count ∧ 0x800 = minimum ∨
      0xf0 ≤ byte.toNat ∧ byte.toNat ≤ 0xf4 ∧ byte.toNat - 0xf0 = value ∧ 3 = count ∧ 0x10000 = minimum := by
  by_cases htwo : 0xc2 ≤ byte.toNat ∧ byte.toNat ≤ 0xdf
  · rw [lead_two htwo.1 htwo.2, Option.some.injEq, Prod.mk.injEq, Prod.mk.injEq] at h
    exact .inl ⟨htwo.1, htwo.2, h⟩
  by_cases hthree : 0xe0 ≤ byte.toNat ∧ byte.toNat ≤ 0xef
  · rw [lead_three hthree.1 hthree.2, Option.some.injEq, Prod.mk.injEq, Prod.mk.injEq] at h
    exact .inr (.inl ⟨hthree.1, hthree.2, h⟩)
  by_cases hfour : 0xf0 ≤ byte.toNat ∧ byte.toNat ≤ 0xf4
  · rw [lead_four hfour.1 hfour.2, Option.some.injEq, Prod.mk.injEq, Prod.mk.injEq] at h
    exact .inr (.inr ⟨hfour.1, hfour.2, h⟩)
  · rw [lead, if_neg htwo, if_neg hthree, if_neg hfour] at h
    cases h

/-! ## Characters -/

/-- The byte of a value. -/
theorem toNat_ofNat_of_lt {n : ℕ} (h : n < 256) : (UInt8.ofNat n).toNat = n := by
  rw [UInt8.toNat_ofNat', Nat.mod_eq_of_lt h]

theorem ofNat_eq_of_toNat (byte : UInt8) {n : ℕ} (h : byte.toNat = n) : UInt8.ofNat n = byte := by
  rw [← h, UInt8.ofNat_toNat]

theorem encode_ascii {c : Char} (h : c.toNat < 0x80) : String.utf8EncodeChar c = [UInt8.ofNat c.toNat] :=
  if_pos (Nat.le_of_lt_succ h)

/-- Six bits of a value are read as they are written. -/
theorem continuation_ofNat (n value : ℕ) (next : List UInt8) :
    continuation (count + 1) value (UInt8.ofNat (n % 64 + 0x80) :: next) =
      continuation count (value * 64 + n % 64) next := by
  have hbyte := toNat_ofNat_of_lt (n := n % 64 + 0x80) (by omega)
  rw [continuation_cons (by rw [isContinuation, hbyte]; omega), hbyte, Nat.add_mod, Nat.mod_mod]
  simp

/-- **A character is read as it is encoded**. -/
theorem encode_read {c : Char} (h : 0x80 ≤ c.toNat) : ∃ byte ks value count minimum,
    String.utf8EncodeChar c = byte :: ks ∧ 0x80 ≤ byte.toNat ∧ lead byte = some (value, count, minimum) ∧
      minimum ≤ c.toNat ∧ ks.length = count ∧
      ∀ rest, continuation count value (ks ++ rest) = some (some (c.toNat, rest)) := by
  have hvalid : c.toNat < 0x110000 := by
    rcases c.valid with hlow | hhigh
    · exact Nat.lt_trans hlow (by decide)
    · exact hhigh.2
  generalize hv : c.toNat = v at h hvalid
  have hv' : c.val.toNat = v := hv
  clear hv
  unfold String.utf8EncodeChar
  rw [hv']
  clear hv'
  dsimp only
  rw [if_neg (by omega)]
  by_cases htwo : v ≤ 0x7ff
  · rw [if_pos htwo]
    have hbits : v / 64 % 32 = v / 64 := Nat.mod_eq_of_lt (by omega)
    have hlow : 2 ≤ v / 64 := by omega
    rw [hbits]
    have hlead := toNat_ofNat_of_lt (n := v / 64 + 0xc0) (by omega)
    refine ⟨_, _, _, _, _, rfl, by rw [hlead]; omega, lead_two (by rw [hlead]; omega) (by rw [hlead]; omega), h, rfl,
      fun rest => ?_⟩
    rw [List.cons_append, continuation_ofNat, hlead, Nat.add_sub_cancel, continuation, Nat.div_add_mod']
    rfl
  rw [if_neg htwo]
  by_cases hthree : v ≤ 0xffff
  · rw [if_pos hthree]
    have hbits : v / 4096 % 16 = v / 4096 := Nat.mod_eq_of_lt (by omega)
    have hsum : (v / 4096 * 64 + v / 64 % 64) * 64 + v % 64 = v := by omega
    rw [hbits]
    have hlead := toNat_ofNat_of_lt (n := v / 4096 + 0xe0) (by omega)
    refine ⟨_, _, _, _, _, rfl, by rw [hlead]; omega, lead_three (by rw [hlead]; omega) (by rw [hlead]; omega),
      by omega, rfl, fun rest => ?_⟩
    rw [List.cons_append, continuation_ofNat, List.cons_append, continuation_ofNat, hlead, Nat.add_sub_cancel,
      continuation, hsum]
    rfl
  · rw [if_neg hthree]
    have hbits : v / 262144 % 8 = v / 262144 := Nat.mod_eq_of_lt (by omega)
    have hsum : ((v / 262144 * 64 + v / 4096 % 64) * 64 + v / 64 % 64) * 64 + v % 64 = v := by omega
    rw [hbits]
    have hlead := toNat_ofNat_of_lt (n := v / 262144 + 0xf0) (by omega)
    refine ⟨_, _, _, _, _, rfl, by rw [hlead]; omega, lead_four (by rw [hlead]; omega) (by rw [hlead]; omega),
      by omega, rfl, fun rest => ?_⟩
    rw [List.cons_append, continuation_ofNat, List.cons_append, continuation_ofNat, List.cons_append,
      continuation_ofNat, hlead, Nat.add_sub_cancel, continuation, hsum]
    rfl

theorem isContinuation_of_continuation {v : ℕ} {ks rest : List UInt8}
    (h : continuation count value (ks ++ rest) = some (some (v, rest))) : ∀ k ∈ ks, isContinuation k := by
  induction count generalizing value ks with
  | zero =>
    rw [List.append_left_eq_self.mp (continuation_zero_eq h).2]
    nofun
  | succ count ih =>
    obtain ⟨byte, next, hcons, hbyte, hread⟩ := continuation_succ_eq h
    cases ks with
    | nil => nofun
    | cons k ks =>
      rw [List.cons_append] at hcons
      cases hcons
      exact List.forall_mem_cons.mpr ⟨hbyte, ih hread⟩

/-- An encoding is one byte that is no continuation byte, and up to three that are. -/
theorem encode_shape (c : Char) : ∃ byte ks, String.utf8EncodeChar c = byte :: ks ∧ ¬isContinuation byte ∧
    (∀ k ∈ ks, isContinuation k) ∧ ks.length ≤ 3 := by
  by_cases hc : c.toNat < 0x80
  · refine ⟨_, [], encode_ascii hc, fun h => ?_, nofun, Nat.zero_le 3⟩
    have hlow := h.1
    rw [toNat_ofNat_of_lt (by omega)] at hlow
    omega
  · obtain ⟨byte, ks, value, count, minimum, hencode, -, hlead, -, hlength, hread⟩ :=
      encode_read (c := c) (by omega)
    refine ⟨byte, ks, hencode, fun h => ?_, isContinuation_of_continuation (hread []), ?_⟩
    · have hhigh := h.2
      rcases lead_cases hlead with h | h | h <;> omega
    · rcases lead_cases hlead with h | h | h <;> omega

theorem six_bits {x y v : ℕ} (h : x * 64 + y % 64 = v) : v / 64 = x ∧ v % 64 = y % 64 := by omega

theorem ofNat_of_isContinuation {n : ℕ} (h : isContinuation byte) (hn : n = byte.toNat % 64) :
    UInt8.ofNat (n + 0x80) = byte := by
  refine ofNat_eq_of_toNat byte ?_
  obtain ⟨hlow, hhigh⟩ := h
  omega

/-- **What is read is the encoding of a character**, if its value is one that needs so many bytes. -/
theorem read_encode {minimum v : ℕ} {rest : List UInt8} (hlead : lead byte = some (value, count, minimum))
    (hread : continuation count value next = some (some (v, rest))) (hmin : minimum ≤ v) (hv : v.isValidChar) :
    byte :: next = String.utf8EncodeChar (Char.ofNatAux v hv) ++ rest := by
  have hval : (Char.ofNatAux v hv).val.toNat = v := rfl
  unfold String.utf8EncodeChar
  rw [hval]
  clear hval
  dsimp only
  obtain ⟨hlow, hhigh, rfl, rfl, rfl⟩ | ⟨hlow, hhigh, rfl, rfl, rfl⟩ | ⟨hlow, hhigh, rfl, rfl, rfl⟩ := lead_cases hlead
  · obtain ⟨first, next, rfl, hfirst, hread⟩ := continuation_succ_eq hread
    obtain ⟨hsum, rfl⟩ := continuation_zero_eq hread
    obtain ⟨hhead, hlast⟩ := six_bits hsum
    rw [if_neg (by omega), if_pos (by omega), hhead, ofNat_eq_of_toNat byte (by omega),
      ofNat_of_isContinuation hfirst hlast]
    rfl
  · obtain ⟨first, next, rfl, hfirst, hread⟩ := continuation_succ_eq hread
    obtain ⟨second, next, rfl, hsecond, hread⟩ := continuation_succ_eq hread
    obtain ⟨hsum, rfl⟩ := continuation_zero_eq hread
    obtain ⟨hhead, hlast⟩ := six_bits hsum
    obtain ⟨htop, hmiddle⟩ := six_bits hhead.symm
    have hdiv : v / 64 / 64 = v / 4096 := Nat.div_div_eq_div_mul v 64 64
    rw [if_neg (by omega), if_neg (by omega), if_pos (by omega), ← hdiv, htop, ofNat_eq_of_toNat byte (by omega),
      ofNat_of_isContinuation hfirst hmiddle, ofNat_of_isContinuation hsecond hlast]
    rfl
  · obtain ⟨first, next, rfl, hfirst, hread⟩ := continuation_succ_eq hread
    obtain ⟨second, next, rfl, hsecond, hread⟩ := continuation_succ_eq hread
    obtain ⟨third, next, rfl, hthird, hread⟩ := continuation_succ_eq hread
    obtain ⟨hsum, rfl⟩ := continuation_zero_eq hread
    obtain ⟨hhead, hlast⟩ := six_bits hsum
    obtain ⟨hhead, hmiddle⟩ := six_bits hhead.symm
    obtain ⟨htop, hnext⟩ := six_bits hhead.symm
    have hdiv : v / 64 / 64 = v / 4096 := Nat.div_div_eq_div_mul v 64 64
    have hdiv' : v / 64 / 64 / 64 = v / 262144 := by rw [hdiv, Nat.div_div_eq_div_mul]
    rw [hdiv] at hnext
    have hlt : v < 0x110000 := hv.elim (fun h => Nat.lt_trans h (by decide)) And.right
    rw [if_neg (by omega), if_neg (by omega), if_neg (by omega), ← hdiv', htop, ofNat_eq_of_toNat byte (by omega),
      ofNat_of_isContinuation hfirst hnext, ofNat_of_isContinuation hsecond hmiddle,
      ofNat_of_isContinuation hthird hlast]
    rfl

/-! ## Texts -/

theorem wellFormed_nil : WellFormed [] := ⟨[], rfl⟩

theorem wellFormed_append {bytes bytes' : List UInt8} (h : WellFormed bytes) (h' : WellFormed bytes') :
    WellFormed (bytes ++ bytes') := by
  obtain ⟨cs, rfl⟩ := h
  obtain ⟨cs', rfl⟩ := h'
  exact ⟨cs ++ cs', List.flatMap_append.symm⟩

theorem wellFormed_encode (c : Char) : WellFormed (String.utf8EncodeChar c) :=
  ⟨[c], (List.append_nil _).symm⟩

/-- A first byte, if it is one, is the first of the encoding of the first character. -/
theorem WellFormed.cons_eq (h : WellFormed (byte :: next)) : ∃ c rest,
    byte :: next = String.utf8EncodeChar c ++ rest ∧ WellFormed rest := by
  obtain ⟨cs, hcs⟩ := h
  cases cs with
  | nil => cases hcs
  | cons c cs => exact ⟨c, cs.flatMap String.utf8EncodeChar, hcs, cs, rfl⟩

theorem wellFormed_cons_ascii (h : byte.toNat < 0x80) : WellFormed (byte :: next) ↔ WellFormed next := by
  constructor
  · intro hwell
    obtain ⟨c, rest, hcons, hrest⟩ := hwell.cons_eq
    by_cases hc : c.toNat < 0x80
    · rw [encode_ascii hc] at hcons
      cases hcons
      exact hrest
    · obtain ⟨byte', ks, _, _, _, hencode, hbyte, -⟩ := encode_read (c := c) (by omega)
      rw [hencode] at hcons
      cases hcons
      omega
  · intro hwell
    have hc : (Char.ofNatAux byte.toNat (.inl (by omega))).toNat < 0x80 := h
    have hone := wellFormed_encode (Char.ofNatAux byte.toNat (.inl (by omega)))
    rw [encode_ascii hc, ofNat_eq_of_toNat byte (n := (Char.ofNatAux byte.toNat _).toNat) rfl] at hone
    exact wellFormed_append hone hwell

/-- What a text with such a first byte is read as. -/
theorem wellFormed_cons_iff (h : ¬byte.toNat < 0x80) : WellFormed (byte :: next) ↔
    ∃ value count minimum v rest, lead byte = some (value, count, minimum) ∧
      continuation count value next = some (some (v, rest)) ∧ minimum ≤ v ∧ v.isValidChar ∧ WellFormed rest := by
  constructor
  · intro hwell
    obtain ⟨c, rest, hcons, hrest⟩ := hwell.cons_eq
    have hc : 0x80 ≤ c.toNat := by
      by_contra hc
      rw [encode_ascii (by omega)] at hcons
      cases hcons
      rw [toNat_ofNat_of_lt (by omega)] at h
      omega
    obtain ⟨byte', ks, value, count, minimum, hencode, -, hlead, hmin, -, hread⟩ := encode_read hc
    rw [hencode] at hcons
    cases hcons
    exact ⟨value, count, minimum, c.toNat, rest, hlead, hread rest, hmin, c.valid, hrest⟩
  · rintro ⟨value, count, minimum, v, rest, hlead, hread, hmin, hv, hrest⟩
    rw [read_encode hlead hread hmin hv]
    exact wellFormed_append (wellFormed_encode _) hrest

theorem not_wellFormed_of_lead (h : ¬byte.toNat < 0x80) (hlead : lead byte = none) : ¬WellFormed (byte :: next) := by
  rw [wellFormed_cons_iff h, hlead]
  rintro ⟨_, _, _, _, _, hsome, -⟩
  cases hsome

theorem wellFormed_iff_of_lead {minimum : ℕ} (h : ¬byte.toNat < 0x80)
    (hlead : lead byte = some (value, count, minimum)) : WellFormed (byte :: next) ↔
      ∃ v rest, continuation count value next = some (some (v, rest)) ∧ minimum ≤ v ∧ v.isValidChar ∧
        WellFormed rest := by
  rw [wellFormed_cons_iff h, hlead]
  constructor
  · rintro ⟨_, _, _, v, rest, hsome, hread⟩
    cases hsome
    exact ⟨v, rest, hread⟩
  · rintro ⟨v, rest, hread⟩
    exact ⟨_, _, _, v, rest, rfl, hread⟩

theorem not_isValidChar_iff {v : ℕ} : ¬v.isValidChar ↔ v > 0x10ffff ∨ 0xd800 ≤ v ∧ v ≤ 0xdfff := by
  unfold Nat.isValidChar
  omega

/-- **The loop accepts exactly the encodings of characters**, and reads no byte past its length. -/
theorem scan_eq {length : ℕ} {bytes : List UInt8} (h : bytes.length = length) :
    ∃ valid, scan length bytes = some valid ∧ (valid ↔ WellFormed bytes) := by
  induction length using Nat.strongRecOn generalizing bytes with
  | ind length ih =>
    cases bytes with
    | nil =>
      obtain rfl : length = 0 := h.symm
      rw [scan, if_pos rfl]
      exact ⟨true, rfl, fun _ => wellFormed_nil, fun _ => rfl⟩
    | cons byte next =>
      rw [List.length_cons] at h
      rw [scan, if_neg (by omega)]
      by_cases hascii : byte.toNat < 0x80
      · obtain ⟨valid, hscan, hvalid⟩ := ih (length - 1) (by omega) (show next.length = length - 1 by omega)
        rw [if_pos hascii]
        exact ⟨valid, hscan, hvalid.trans (wellFormed_cons_ascii hascii).symm⟩
      rw [if_neg hascii]
      cases hlead : lead byte with
      | none => exact ⟨false, rfl, nofun, fun hwell => (not_wellFormed_of_lead hascii hlead hwell).elim⟩
      | some x =>
        obtain ⟨value, count, minimum⟩ := x
        dsimp only
        rw [wellFormed_iff_of_lead hascii hlead]
        by_cases hcount : count > length - 1
        · rw [if_pos hcount]
          refine ⟨false, rfl, nofun, ?_⟩
          rintro ⟨v, rest, hread, -⟩
          have hlength := continuation_length hread
          omega
        rw [if_neg hcount]
        obtain ⟨r, hr⟩ := exists_continuation value (show count ≤ next.length by omega)
        rw [hr]
        cases r with
        | none => exact ⟨false, rfl, nofun, by rintro ⟨_, _, hread, -⟩; cases hread⟩
        | some r =>
          obtain ⟨v, rest⟩ := r
          have hlength := continuation_length hr
          dsimp only
          by_cases hbad : v < minimum ∨ v > 0x10ffff ∨ 0xd800 ≤ v ∧ v ≤ 0xdfff
          · rw [if_pos hbad]
            refine ⟨false, rfl, nofun, ?_⟩
            rintro ⟨_, _, hread, hmin, hv, -⟩
            cases hread
            rcases hbad with hbad | hbad
            · omega
            · exact (not_isValidChar_iff.2 hbad hv).elim
          · rw [if_neg hbad]
            obtain ⟨valid, hscan, hvalid⟩ := ih (length - 1 - count) (by omega) (show rest.length = length - 1 - count by omega)
            refine ⟨valid, hscan, hvalid.trans ⟨fun hrest => ⟨v, rest, rfl, by omega, ?_, hrest⟩, ?_⟩⟩
            · by_contra hv
              exact hbad (.inr (not_isValidChar_iff.1 hv))
            · rintro ⟨_, _, hread, -, -, hrest⟩
              cases hread
              exact hrest

/-- **`base_text_utf8_valid_bytes` accepts exactly the well-formed texts**: it reads no byte past the length it is
given, and says whether the bytes are the encodings of characters. -/
theorem baseTextUtf8ValidBytes_iff (bytes : List UInt8) : ∃ valid,
    baseTextUtf8ValidBytes (some bytes) bytes.length = some valid ∧ (valid ↔ WellFormed bytes) :=
  scan_eq rfl

end SoftPC.Text
