import Mathlib.Data.List.GetD
import Mathlib.Data.Nat.Find
import Mathlib.Data.Nat.Prime.Basic

/-!
# Machinery/Sha256 — the secure hash SHA-256 of a bit string

FIPS 180-4: a message is padded to a multiple of 512 bits (5.1.1) and parsed into blocks of sixteen
words (5.2.1); each block is expanded to a schedule of 64 words, which 64 rounds fold into the digest
(6.2.2).  The constants are leading bits of the roots of the first primes (4.2.2, 5.3.3), not a table.

`digestAfter` is the digest after so many blocks.  It does not see what follows those blocks
(`digestAfter_append`), which is what makes hashing in pieces possible.
-/

namespace SoftPC.Sha256

abbrev Bits := List Bool

abbrev Word := BitVec 32

/-! ## Bit strings and words -/

/-- The bits of a word, the most significant first. -/
def bitsOf {w : ℕ} (x : BitVec w) : Bits := (List.range w).map x.getMsbD

/-- The word of the first 32 bits. -/
def wordOf (bits : Bits) : Word :=
  (BitVec.ofBoolListBE ((List.range 32).map fun i => bits.getD i false)).cast (by simp)

/-- The bit string of a byte string. -/
def bitsOfBytes (bytes : List UInt8) : Bits := bytes.flatMap fun b => bitsOf b.toBitVec

@[simp] theorem length_bitsOf {w : ℕ} (x : BitVec w) : (bitsOf x).length = w := by simp [bitsOf]

@[simp] theorem bitsOfBytes_nil : bitsOfBytes [] = [] := rfl

@[simp] theorem bitsOfBytes_cons (b : UInt8) (bytes : List UInt8) :
    bitsOfBytes (b :: bytes) = bitsOf b.toBitVec ++ bitsOfBytes bytes := rfl

@[simp] theorem bitsOfBytes_append (xs ys : List UInt8) :
    bitsOfBytes (xs ++ ys) = bitsOfBytes xs ++ bitsOfBytes ys := List.flatMap_append

@[simp] theorem length_bitsOfBytes :
    ∀ bytes : List UInt8, (bitsOfBytes bytes).length = 8 * bytes.length
  | [] => rfl
  | b :: bytes => by
    rw [bitsOfBytes_cons, List.length_append, length_bitsOf, length_bitsOfBytes bytes,
      List.length_cons]
    omega

theorem drop_bitsOfBytes (bytes : List UInt8) (n : ℕ) :
    (bitsOfBytes bytes).drop (8 * n) = bitsOfBytes (bytes.drop n) := by
  rcases Nat.lt_or_ge bytes.length n with h | h
  · rw [List.drop_eq_nil_of_le (by rw [length_bitsOfBytes]; omega),
      List.drop_eq_nil_of_le (by omega), bitsOfBytes_nil]
  · conv_lhs => rw [← List.take_append_drop n bytes, bitsOfBytes_append]
    rw [List.drop_left' (by rw [length_bitsOfBytes, List.length_take, Nat.min_eq_left h])]

theorem getMsbD_wordOf (bits : Bits) {i : ℕ} (hi : i < 32) :
    (wordOf bits).getMsbD i = bits.getD i false := by
  rw [wordOf, BitVec.getMsbD_cast, BitVec.getMsbD_ofBoolListBE,
    List.getD_eq_getElem _ _ (by simpa using hi)]
  simp

theorem getD_bitsOf {w : ℕ} (x : BitVec w) {i : ℕ} (hi : i < w) :
    (bitsOf x).getD i false = x.getMsbD i := by
  rw [List.getD_eq_getElem _ _ (by rwa [length_bitsOf])]
  simp [bitsOf]

theorem getD_bitsOfBytes :
    ∀ (bytes : List UInt8) (i : ℕ), i < 8 * bytes.length →
      (bitsOfBytes bytes).getD i false = (bytes.getD (i / 8) 0).toBitVec.getMsbD (i % 8)
  | [], _, h => absurd h (Nat.not_lt_zero _)
  | b :: bytes, i, h => by
    rw [bitsOfBytes_cons]
    rcases Nat.lt_or_ge i 8 with hi | hi
    · rw [List.getD_append _ _ _ _ (by rwa [length_bitsOf]), getD_bitsOf _ hi,
        Nat.div_eq_of_lt hi, Nat.mod_eq_of_lt hi, List.getD_cons_zero]
    · rw [List.getD_append_right _ _ _ _ (by rwa [length_bitsOf]), length_bitsOf,
        getD_bitsOfBytes bytes (i - 8) (by rw [List.length_cons] at h; omega),
        show i / 8 = (i - 8) / 8 + 1 by omega, List.getD_cons_succ, ← Nat.mod_eq_sub_mod hi]

/-- Byte `k` of a word of `n` bytes, the highest first. -/
theorem getMsbD_byte {w n : ℕ} (hw : w = 8 * n) (x : BitVec w) {i : ℕ} (hi : i < w) :
    ((x >>> (8 * (n - 1 - i / 8))).setWidth 8).getMsbD (i % 8) = x.getMsbD i := by
  have hi8 : i % 8 < 8 := Nat.mod_lt i (by decide)
  rw [BitVec.getMsbD_eq_getLsbD, BitVec.getMsbD_eq_getLsbD, BitVec.getLsbD_setWidth,
    BitVec.getLsbD_ushiftRight, show 8 * (n - 1 - i / 8) + (8 - 1 - i % 8) = w - 1 - i by omega]
  simp only [hi8, hi, show 8 - 1 - i % 8 < 8 by omega, decide_true, Bool.true_and]

/-- A word does not see what follows its 32 bits. -/
theorem wordOf_append {x : Bits} (h : 32 ≤ x.length) (y : Bits) : wordOf (x ++ y) = wordOf x := by
  refine BitVec.eq_of_getMsbD_eq fun i hi => ?_
  rw [getMsbD_wordOf _ hi, getMsbD_wordOf _ hi, List.getD_append _ _ _ _ (by omega)]

/-! ## Functions and constants -/

def ch (x y z : Word) : Word := (x &&& y) ^^^ (~~~x &&& z)
def maj (x y z : Word) : Word := (x &&& y) ^^^ (x &&& z) ^^^ (y &&& z)
def bigSigma0 (x : Word) : Word := x.rotateRight 2 ^^^ x.rotateRight 13 ^^^ x.rotateRight 22
def bigSigma1 (x : Word) : Word := x.rotateRight 6 ^^^ x.rotateRight 11 ^^^ x.rotateRight 25
def smallSigma0 (x : Word) : Word := x.rotateRight 7 ^^^ x.rotateRight 18 ^^^ (x >>> 3)
def smallSigma1 (x : Word) : Word := x.rotateRight 17 ^^^ x.rotateRight 19 ^^^ (x >>> 10)

/-- The whole part of the `k`-th root of `n`. -/
def floorRoot (k n : ℕ) : ℕ := Nat.findGreatest (fun r => r ^ k ≤ n) n

/-- The first 32 bits of the fractional part of the `k`-th root of `p`. -/
def rootBits (k p : ℕ) : Word := BitVec.ofNat 32 (floorRoot k (p * 2 ^ (32 * k)))

/-- The first 64 primes. -/
def primes : List ℕ := (List.range 312).filter Nat.Prime

/-- `K_t`: from the cube root of the `t`-th prime. -/
def roundConstant (t : ℕ) : Word := rootBits 3 (primes.getD t 0)

/-- `H_j` at the beginning: from the square root of the `j`-th prime. -/
def initialWord (j : ℕ) : Word := rootBits 2 (primes.getD j 0)

/-- A certificate for a root. -/
theorem floorRoot_eq {k n r : ℕ} (hk : k ≠ 0) (hlow : r ^ k ≤ n) (hhigh : n < (r + 1) ^ k) :
    floorRoot k n = r := by
  rw [floorRoot, Nat.findGreatest_eq_iff]
  refine ⟨(Nat.le_self_pow hk r).trans hlow, fun _ => hlow, fun q hq _ hle => ?_⟩
  exact absurd (Nat.pow_le_pow_left hq k) (Nat.not_le.mpr (hle.trans_lt hhigh))

/-- Below 18 · 18 the divisors below 18 tell a prime. -/
theorem prime_iff {p : ℕ} (hp : p < 312) :
    Nat.Prime p ↔ 2 ≤ p ∧ ∀ m < 18, 2 ≤ m → m < p → p % m ≠ 0 := by
  constructor
  · intro h
    refine ⟨h.two_le, fun m _ hm hmp hmod => ?_⟩
    rcases (Nat.dvd_prime h).mp (Nat.dvd_of_mod_eq_zero hmod) with rfl | rfl <;> omega
  · rintro ⟨h2, h⟩
    rw [Nat.prime_def_le_sqrt]
    refine ⟨h2, fun m hm hsqrt hdvd => ?_⟩
    have hmm : m * m ≤ p := Nat.le_sqrt.mp hsqrt
    have h18 : m < 18 := by
      by_contra hlarge
      have := Nat.mul_le_mul (Nat.not_lt.mp hlarge) (Nat.not_lt.mp hlarge)
      omega
    have hlt : m < p := (Nat.lt_mul_self_iff.mpr hm).trans_le hmm
    exact h m h18 hm hlt (Nat.mod_eq_zero_of_dvd hdvd)

theorem primes_eq : primes =
    [2, 3, 5, 7, 11, 13, 17, 19, 23, 29, 31, 37, 41, 43, 47, 53, 59, 61, 67, 71, 73, 79, 83, 89, 97,
      101, 103, 107, 109, 113, 127, 131, 137, 139, 149, 151, 157, 163, 167, 173, 179, 181, 191, 193,
      197, 199, 211, 223, 227, 229, 233, 239, 241, 251, 257, 263, 269, 271, 277, 281, 283, 293, 307,
      311] := by
  have hcongr : primes =
      (List.range 312).filter fun p => 2 ≤ p ∧ ∀ m < 18, 2 ≤ m → m < p → p % m ≠ 0 :=
    List.filter_congr fun p hp => by
      rw [decide_eq_decide]
      exact prime_iff (List.mem_range.mp hp)
  rw [hcongr]
  decide

/-! ## Padding and parsing -/

/-- How many zeros follow the message and its one. -/
def zeros (length : ℕ) : ℕ := (959 - length % 512) % 512

/-- The zeros are the fewest that leave room for the length and nothing else in the last block. -/
theorem zeros_spec (length : ℕ) :
    (length + 1 + zeros length) % 512 = 448 ∧ zeros length < 512 := by
  unfold zeros
  omega

/-- The padded message. -/
def pad (message : Bits) : Bits :=
  message ++ true :: List.replicate (zeros message.length) false ++
    bitsOf (BitVec.ofNat 64 message.length)

/-- Word `t` of block `i`. -/
def blockWord (padded : Bits) (i t : ℕ) : Word := wordOf (padded.drop (512 * i + 32 * t))

theorem blockWord_append {x : Bits} {i t : ℕ} (h : 512 * (i + 1) ≤ x.length) (ht : t < 16)
    (y : Bits) : blockWord (x ++ y) i t = blockWord x i t := by
  rw [blockWord, List.drop_append_of_le_length (by omega),
    wordOf_append (by rw [List.length_drop]; omega)]
  rfl

/-! ## The computation -/

/-- `W_t`. -/
def schedule (block : ℕ → Word) (t : ℕ) : Word :=
  if t < 16 then block t
  else
    smallSigma1 (schedule block (t - 2)) + schedule block (t - 7) +
      smallSigma0 (schedule block (t - 15)) + schedule block (t - 16)
termination_by t

theorem schedule_lt (block : ℕ → Word) {t : ℕ} (ht : t < 16) : schedule block t = block t := by
  rw [schedule, if_pos ht]

theorem schedule_add (block : ℕ → Word) (t : ℕ) :
    schedule block (t + 16) =
      smallSigma1 (schedule block (t + 14)) + schedule block (t + 9) +
        smallSigma0 (schedule block (t + 1)) + schedule block t := by
  rw [schedule, if_neg (by omega)]
  rfl

/-- The schedule is made of the sixteen words of the block. -/
theorem schedule_congr {block block' : ℕ → Word} (h : ∀ t < 16, block t = block' t) (t : ℕ) :
    schedule block t = schedule block' t := by
  induction t using Nat.strong_induction_on with
  | _ t ih =>
    rcases Nat.lt_or_ge t 16 with ht | ht
    · rw [schedule_lt block ht, schedule_lt block' ht, h t ht]
    · obtain ⟨n, rfl⟩ := Nat.exists_eq_add_of_le' ht
      rw [schedule_add, schedule_add, ih _ (by omega), ih (n + 9) (by omega), ih (n + 1) (by omega),
        ih n (by omega)]

/-- The working variables, and the words of a digest. -/
structure Words where
  a : Word
  b : Word
  c : Word
  d : Word
  e : Word
  f : Word
  g : Word
  h : Word
  deriving DecidableEq

/-- One round, with its constant and its word of the schedule. -/
def round (s : Words) (k w : Word) : Words :=
  let t1 := s.h + bigSigma1 s.e + ch s.e s.f s.g + k + w
  let t2 := bigSigma0 s.a + maj s.a s.b s.c
  ⟨t1 + t2, s.a, s.b, s.c, s.d + t1, s.e, s.f, s.g⟩

/-- The working variables after so many rounds. -/
def rounds (s : Words) (w : ℕ → Word) : ℕ → Words
  | 0 => s
  | t + 1 => round (rounds s w t) (roundConstant t) (w t)

/-- The next digest, of a digest and a block. -/
def compress (s : Words) (block : ℕ → Word) : Words :=
  let r := rounds s (schedule block) 64
  ⟨r.a + s.a, r.b + s.b, r.c + s.c, r.d + s.d, r.e + s.e, r.f + s.f, r.g + s.g, r.h + s.h⟩

theorem compress_congr {block block' : ℕ → Word} (h : ∀ t < 16, block t = block' t) (s : Words) :
    compress s block = compress s block' := by
  rw [compress, compress, funext (schedule_congr h)]

def initial : Words :=
  ⟨initialWord 0, initialWord 1, initialWord 2, initialWord 3, initialWord 4, initialWord 5,
    initialWord 6, initialWord 7⟩

/-- The digest after so many blocks of a padded message. -/
def digestAfter (padded : Bits) : ℕ → Words
  | 0 => initial
  | i + 1 => compress (digestAfter padded i) (blockWord padded i)

/-- **The digest after so many blocks does not see what follows them.** -/
theorem digestAfter_append (x y : Bits) :
    ∀ n, 512 * n ≤ x.length → digestAfter (x ++ y) n = digestAfter x n
  | 0, _ => rfl
  | n + 1, h => by
    rw [digestAfter, digestAfter, digestAfter_append x y n (by omega)]
    exact compress_congr (fun t ht => blockWord_append h ht y) _

def Words.bits (s : Words) : Bits :=
  [s.a, s.b, s.c, s.d, s.e, s.f, s.g, s.h].flatMap bitsOf

/-- **SHA-256** of a message of fewer than 2^64 bits. -/
def sha256 (message : Bits) : Bits :=
  (digestAfter (pad message) ((pad message).length / 512)).bits

end SoftPC.Sha256
