import Mathlib.Data.List.Basic
import Mathlib.Data.Nat.Notation

/-!
# Lib/Input — keyboard text in units of UTF-16

    records ──▸ tokens: units, and cuts between them ──▸ scalars
                   high, low, of one count ──▸ one scalar

`base_keyboard_decode` of `input.c`.  A high surrogate waits for the unit that follows it directly, in
`pending_high_surrogate`; a transition of a key, if the platform knows it, cuts the two apart.  What the decoder emits
is read off the tokens, each with the one before it (`scalars`).
-/

namespace SoftPC.TextInput

/-- `base_keyboard_record_kind`; `other` is no kind. -/
inductive Kind
  | transition
  | character
  | combined
  | other
  deriving DecidableEq

/-- `base_keyboard_record`. -/
structure Record where
  kind : Kind
  scan : BitVec 16
  key : BitVec 16
  utf16 : BitVec 16
  flags : BitVec 8
  modifiers : BitVec 8
  pressed : Bool
  repeatCount : BitVec 16

/-- `base_key_input`. -/
structure Input where
  key : BitVec 32 := 0#32
  scalar : BitVec 32 := 0#32
  scanCode : BitVec 16 := 0#16
  modifiers : BitVec 8 := 0#8
  extended : Bool := false
  pressed : Bool := false
  repeatCount : BitVec 16 := 0#16

/-- What `base_keyboard_decode` returns. -/
inductive Result
  | rejected
  | accepted
  | unmapped
  deriving DecidableEq

/-- `base_keyboard_decoder`. -/
structure Decoder where
  pendingHighSurrogate : BitVec 16
  pendingRepeatCount : BitVec 16
  deriving DecidableEq

/-- `BASE_KEY_FLAG_EXTENDED`. -/
def flagExtended : BitVec 8 := 1

def isHigh (unit : BitVec 16) : Prop := 0xd800 ≤ unit ∧ unit ≤ 0xdbff
def isLow (unit : BitVec 16) : Prop := 0xdc00 ≤ unit ∧ unit ≤ 0xdfff

instance (unit : BitVec 16) : Decidable (isHigh unit) := inferInstanceAs (Decidable (_ ∧ _))
instance (unit : BitVec 16) : Decidable (isLow unit) := inferInstanceAs (Decidable (_ ∧ _))

/-- A repeat count of zero means one. -/
def Record.count (r : Record) : BitVec 16 := if r.repeatCount ≠ 0#16 then r.repeatCount else 1

/-- The scalar of a surrogate pair. -/
def pair (high low : BitVec 16) : BitVec 32 :=
  0x10000#32 + ((high.setWidth 32 - 0xd800#32) <<< 10) + (low.setWidth 32 - 0xdc00#32)

namespace Decoder

variable (d : Decoder) (r : Record)

/-- The text part of `base_keyboard_decode`. -/
def text : Result × Input × Decoder :=
  let high := d.pendingHighSurrogate
  let priorCount := d.pendingRepeatCount
  if isHigh r.utf16 then (.accepted, {}, ⟨r.utf16, r.count⟩)
  else if isLow r.utf16 ∧ (high = 0#16 ∨ r.count ≠ priorCount) then (.rejected, {}, ⟨0#16, 0#16⟩)
  else
    let scalar := if isLow r.utf16 then pair high r.utf16 else r.utf16.setWidth 32
    if scalar = 0#32 then (.rejected, {}, ⟨0#16, 0#16⟩)
    else (.accepted, { scalar, pressed := true, repeatCount := r.count }, ⟨0#16, 0#16⟩)

variable (transition : BitVec 16 → BitVec 16 → Option (BitVec 16 × BitVec 32))

/-- `base_keyboard_decode`, over the platform's `base_keyboard_platform_transition`. -/
def decode : Result × Input × Decoder :=
  match r.kind with
  | .other => (.rejected, {}, d)
  | .character => d.text r
  | kind =>
    match transition r.scan r.key with
    | some (scanCode, key) =>
      (.accepted,
        { key, scanCode,
          modifiers := r.modifiers
          extended := decide (r.flags &&& flagExtended ≠ 0)
          pressed := r.pressed
          repeatCount := if r.pressed ∧ r.repeatCount ≠ 0#16 then r.repeatCount else 1 }, ⟨0#16, 0#16⟩)
    | none =>
      if kind = .transition then (.unmapped, {}, d)
      else if ¬r.pressed ∨ r.utf16 = 0#16 then (.accepted, {}, d)
      else d.text r

end Decoder

/-- What the decoder emits from a record. -/
def emitted : Result × Input × Decoder → Option (BitVec 32)
  | (.accepted, input, _) => if input.scalar = 0#32 then none else some input.scalar
  | _ => none

/-- The decoder over a sequence of records. -/
def run (transition : BitVec 16 → BitVec 16 → Option (BitVec 16 × BitVec 32)) :
    Decoder → List Record → List (BitVec 32) × Decoder
  | d, [] => ([], d)
  | d, r :: rs =>
    let step := d.decode r transition
    let rest := run transition step.2.2 rs
    ((emitted step).toList ++ rest.1, rest.2)

/-! ## Tokens -/

/-- What a record is to the text: a unit with its count, or a cut. -/
inductive Token
  | unit (u count : BitVec 16)
  | cut

/-- A record that is neither a unit nor a key the platform knows is nothing to the text. -/
def tokenOf (transition : BitVec 16 → BitVec 16 → Option (BitVec 16 × BitVec 32)) (r : Record) : Option Token :=
  match r.kind with
  | .other => none
  | .character => some (.unit r.utf16 r.count)
  | .transition => if (transition r.scan r.key).isSome then some .cut else none
  | .combined =>
    if (transition r.scan r.key).isSome then some .cut
    else if r.pressed ∧ r.utf16 ≠ 0#16 then some (.unit r.utf16 r.count) else none

/-- The scalar of a token, after the one before it: a unit on its own that is no surrogate and not zero, or the low
half of a pair of one count. -/
def scalarOf : Option Token → Token → Option (BitVec 32)
  | _, .cut => none
  | before, .unit u count =>
    if isHigh u then none
    else if isLow u then
      match before with
      | some (.unit high count') => if isHigh high ∧ count = count' then some (pair high u) else none
      | _ => none
    else if u = 0#16 then none
    else some (u.setWidth 32)

/-- The scalars of a sequence of tokens, in order, after the token `before`. -/
def scalars : Option Token → List Token → List (BitVec 32)
  | _, [] => []
  | before, t :: ts => (scalarOf before t).toList ++ scalars (some t) ts

/-- What waits for the next unit: the token before it, if it is a high surrogate. -/
def pendingOf : Option Token → Decoder
  | some (.unit u count) => if isHigh u then ⟨u, count⟩ else ⟨0#16, 0#16⟩
  | _ => ⟨0#16, 0#16⟩

/-! ## One record -/

section

variable {before : Option Token} {r : Record} {u high low count : BitVec 16} {t : Token} {v : BitVec 32}

theorem isHigh_iff : isHigh u ↔ 0xd800 ≤ u.toNat ∧ u.toNat ≤ 0xdbff := Iff.rfl

theorem isLow_iff : isLow u ↔ 0xdc00 ≤ u.toNat ∧ u.toNat ≤ 0xdfff := Iff.rfl

theorem ne_zero_of_isHigh (h : isHigh u) : u ≠ 0#16 := by
  rintro rfl
  exact absurd h (by decide)

/-- **A pair is a scalar beyond the basic plane.** -/
theorem pair_toNat (hhigh : isHigh high) (hlow : isLow low) :
    (pair high low).toNat = 0x10000 + (high.toNat - 0xd800) * 0x400 + (low.toNat - 0xdc00) := by
  rw [isHigh_iff] at hhigh
  rw [isLow_iff] at hlow
  have hsub : (high.setWidth 32 - 0xd800#32).toNat = high.toNat - 0xd800 := by
    simp only [BitVec.toNat_sub, BitVec.toNat_setWidth, BitVec.toNat_ofNat]
    omega
  have hsub' : (low.setWidth 32 - 0xdc00#32).toNat = low.toNat - 0xdc00 := by
    simp only [BitVec.toNat_sub, BitVec.toNat_setWidth, BitVec.toNat_ofNat]
    omega
  simp only [pair, BitVec.toNat_add, BitVec.toNat_shiftLeft, hsub, hsub', Nat.shiftLeft_eq, BitVec.toNat_ofNat]
  omega

theorem pair_ne_zero (hhigh : isHigh high) (hlow : isLow low) : pair high low ≠ 0#32 := by
  intro h
  have hnat := pair_toNat hhigh hlow
  rw [h] at hnat
  simp only [BitVec.toNat_ofNat] at hnat
  omega

theorem setWidth_ne_zero (h : u ≠ 0#16) : u.setWidth 32 ≠ 0#32 := by
  intro hzero
  refine h (BitVec.eq_of_toNat_eq ?_)
  have hnat := congrArg BitVec.toNat hzero
  simp only [BitVec.toNat_setWidth, BitVec.toNat_ofNat] at hnat ⊢
  omega

/-- **No surrogate is emitted, and no zero.** -/
theorem scalarOf_valid (h : scalarOf before t = some v) : v ≠ 0#32 ∧ v.toNat.isValidChar := by
  cases t with
  | cut => cases h
  | unit u count =>
    unfold scalarOf at h
    dsimp only at h
    split_ifs at h with hhigh hlow hzero
    · split at h
      · rename_i high count'
        obtain ⟨⟨hhigh', rfl⟩, heq⟩ := Option.ite_none_right_eq_some.mp h
        obtain rfl := Option.some.inj heq
        refine ⟨pair_ne_zero hhigh' hlow, .inr ?_⟩
        rw [isHigh_iff] at hhigh'
        rw [isLow_iff] at hlow
        rw [pair_toNat hhigh' hlow]
        omega
      · cases h
    · obtain rfl := Option.some.inj h
      refine ⟨setWidth_ne_zero hzero, ?_⟩
      have hlt := u.isLt
      rw [isHigh_iff] at hhigh
      rw [isLow_iff] at hlow
      rw [BitVec.toNat_setWidth, Nat.mod_eq_of_lt (by omega), Nat.isValidChar]
      omega

/-- The text part of a record, after the token `before`. -/
theorem text_eq (before : Option Token) (r : Record) :
    emitted ((pendingOf before).text r) = scalarOf before (.unit r.utf16 r.count) ∧
    ((pendingOf before).text r).2.2 = pendingOf (some (.unit r.utf16 r.count)) := by
  by_cases hhigh : isHigh r.utf16
  · simp only [Decoder.text, scalarOf, pendingOf, hhigh, if_true, emitted, and_self]
  by_cases hlow : isLow r.utf16
  · -- a low surrogate takes what waits, if the counts are the same
    have hnone : ∀ d : Decoder, d.pendingHighSurrogate = 0#16 ∨ r.count ≠ d.pendingRepeatCount →
        emitted (d.text r) = none ∧ (d.text r).2.2 = ⟨0#16, 0#16⟩ := fun d hd => by
      simp only [Decoder.text, hhigh, hlow, if_false, true_and, if_pos hd, emitted, and_self]
    cases before with
    | none => simpa only [scalarOf, pendingOf, hhigh, hlow, if_false, if_true] using hnone ⟨0#16, 0#16⟩ (.inl rfl)
    | some t =>
      cases t with
      | cut => simpa only [scalarOf, pendingOf, hhigh, hlow, if_false, if_true] using hnone ⟨0#16, 0#16⟩ (.inl rfl)
      | unit high count' =>
        by_cases hbefore : isHigh high
        · by_cases hcount : r.count = count'
          · have hpair := pair_ne_zero hbefore hlow
            simp only [Decoder.text, scalarOf, pendingOf, hhigh, hlow, hbefore, hcount, ne_zero_of_isHigh hbefore, hpair,
              if_false, if_true, ne_eq, not_true_eq_false, or_self, and_false, and_self, emitted]
          · simpa only [scalarOf, pendingOf, hhigh, hlow, hbefore, hcount, if_false, if_true, and_false] using
              hnone ⟨high, count'⟩ (.inr hcount)
        · simpa only [scalarOf, pendingOf, hhigh, hlow, hbefore, if_false, if_true, false_and] using
            hnone ⟨0#16, 0#16⟩ (.inl rfl)
  · by_cases hzero : r.utf16 = 0#16
    · have hwidth : r.utf16.setWidth 32 = 0#32 := by rw [hzero]; rfl
      simp only [Decoder.text, scalarOf, pendingOf, hhigh, hlow, if_pos hzero, hwidth, if_true, if_false, false_and,
        emitted, and_self]
    · have hwidth := setWidth_ne_zero hzero
      simp only [Decoder.text, scalarOf, pendingOf, hhigh, hlow, hzero, hwidth, if_false, false_and, emitted, and_self]

variable {transition : BitVec 16 → BitVec 16 → Option (BitVec 16 × BitVec 32)}

/-- **One record.**  It emits the scalar of its token, and what waits after it is read off the token alone; a record that
is no token does nothing. -/
theorem decode_eq (transition : BitVec 16 → BitVec 16 → Option (BitVec 16 × BitVec 32)) (before : Option Token)
    (r : Record) : match tokenOf transition r with
    | none => emitted ((pendingOf before).decode r transition) = none ∧
        ((pendingOf before).decode r transition).2.2 = pendingOf before
    | some t => emitted ((pendingOf before).decode r transition) = scalarOf before t ∧
        ((pendingOf before).decode r transition).2.2 = pendingOf (some t) := by
  have htext := text_eq before r
  cases hkind : r.kind with
  | other => simp only [tokenOf, Decoder.decode, hkind, emitted, and_self]
  | character => simpa only [tokenOf, Decoder.decode, hkind] using htext
  | transition =>
    cases htrans : transition r.scan r.key with
    | some p => simp [tokenOf, Decoder.decode, hkind, htrans, emitted, scalarOf, pendingOf]
    | none => simp [tokenOf, Decoder.decode, hkind, htrans, emitted]
  | combined =>
    cases htrans : transition r.scan r.key with
    | some p => simp [tokenOf, Decoder.decode, hkind, htrans, emitted, scalarOf, pendingOf]
    | none =>
      by_cases hunit : r.pressed = true ∧ r.utf16 ≠ 0#16
      · simpa [tokenOf, Decoder.decode, hkind, htrans, hunit] using htext
      · have hskip : r.pressed = false ∨ r.utf16 = 0#16 := by
          rw [← Bool.not_eq_true]
          tauto
        simp [tokenOf, Decoder.decode, hkind, htrans, hunit, hskip, emitted]

theorem run_cons {d : Decoder} {rs : List Record} : run transition d (r :: rs) =
    ((emitted (d.decode r transition)).toList ++ (run transition (d.decode r transition).2.2 rs).1,
      (run transition (d.decode r transition).2.2 rs).2) := rfl

/-- A sequence of records. -/
theorem run_eq (before : Option Token) (rs : List Record) : run transition (pendingOf before) rs =
    (scalars before (rs.filterMap (tokenOf transition)),
      pendingOf ((rs.filterMap (tokenOf transition)).getLast?.or before)) := by
  induction rs generalizing before with
  | nil => rfl
  | cons r rs ih =>
    have hone := decode_eq transition before r
    rw [run_cons]
    cases htoken : tokenOf transition r with
    | none =>
      rw [htoken] at hone
      rw [List.filterMap_cons_none htoken, hone.1, hone.2, ih before]
      rfl
    | some t =>
      rw [htoken] at hone
      rw [List.filterMap_cons_some htoken, hone.1, hone.2, ih (some t), List.getLast?_cons]
      cases (rs.filterMap (tokenOf transition)).getLast? <;> rfl

end

theorem scalars_valid {before : Option Token} {ts : List Token} :
    ∀ v ∈ scalars before ts, v ≠ 0#32 ∧ v.toNat.isValidChar := by
  induction ts generalizing before with
  | nil => nofun
  | cons t ts ih =>
    intro v hv
    obtain hv | hv := List.mem_append.mp hv
    · exact scalarOf_valid (Option.mem_toList.mp hv)
    · exact ih v hv

/-- **The scalars of the text.**  From a fresh decoder, a sequence of records emits the scalars of its units, in order:
those of the units that are no surrogates and not zero, and those of high and low surrogates with one count and nothing
between them.  Every one is a scalar, and not zero; and what waits at the end is the last token, if that is a high
surrogate. -/
theorem run_scalars (transition : BitVec 16 → BitVec 16 → Option (BitVec 16 × BitVec 32)) (rs : List Record) :
    (run transition ⟨0#16, 0#16⟩ rs).1 = scalars none (rs.filterMap (tokenOf transition)) ∧
      (∀ v ∈ (run transition ⟨0#16, 0#16⟩ rs).1, v ≠ 0#32 ∧ v.toNat.isValidChar) ∧
      (run transition ⟨0#16, 0#16⟩ rs).2 = pendingOf (rs.filterMap (tokenOf transition)).getLast? := by
  have hrun : run transition ⟨0#16, 0#16⟩ rs = _ := run_eq none rs
  rw [Option.or_none] at hrun
  rw [hrun]
  exact ⟨rfl, scalars_valid, rfl⟩

/-- A unit of text. -/
def Record.ofUnit (utf16 repeatCount : BitVec 16) : Record := ⟨.character, 0, 0, utf16, 0, 0, true, repeatCount⟩

/-- **A pair of two counts is no pair.** -/
theorem run_pair_of_two_counts : ¬∀ (transition : BitVec 16 → BitVec 16 → Option (BitVec 16 × BitVec 32))
    (units : List (BitVec 16 × BitVec 16)),
    (run transition ⟨0#16, 0#16⟩ (units.map fun u => .ofUnit u.1 u.2)).1 =
      scalars none (units.map fun u => .unit u.1 1) := by
  intro h
  have hpair := h (fun _ _ => none) [(0xd83d, 1), (0xde00, 2)]
  revert hpair
  decide

end SoftPC.TextInput
