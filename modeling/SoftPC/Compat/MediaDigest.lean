import SoftPC.Compat.MediaSnapshot
import SoftPC.Machinery.Sha256
import Mathlib.Data.Nat.NthRoot.Defs
import Mathlib.Tactic.IntervalCases

/-!
# Compat/MediaDigest — the digest of a base is SHA-256, however it is read

`hash_begin`, `hash_add` and `hash_end` of `compat/media_snapshot.c` against FIPS 180-4
(`Machinery/Sha256`).  `Holds hash m` says what a hash keeps of the bytes `m` given to it: the digest
after the whole blocks of `m`, the rest of `m`, and its length; `hash_add` appends to `m`.
-/

namespace SoftPC.Snapshot

open Sha256 (Word Words Bits bitsOf bitsOfBytes)

/-! ## The constants -/

/-- The table of `hash_block` is what the standard takes from the primes. -/
theorem roundConstant_eq {t : ℕ} (ht : t < 64) :
    Sha256.roundConstant t = (roundConstants.getD t 0).toBitVec := by
  have hroot : ∀ t < 64,
      let n := Sha256.primes.getD t 0 * 2 ^ (32 * 3)
      let r := Nat.nthRoot 3 n
      r ^ 3 ≤ n ∧ n < (r + 1) ^ 3 ∧ BitVec.ofNat 32 r = (roundConstants.getD t 0).toBitVec := by
    rw [Sha256.primes_eq]
    decide
  obtain ⟨hlow, hhigh, heq⟩ := hroot t ht
  rw [Sha256.roundConstant, Sha256.rootBits, Sha256.floorRoot_eq (by decide) hlow hhigh, heq]

theorem map_roundConstants :
    roundConstants.map UInt32.toBitVec = (List.range 64).map Sha256.roundConstant := by
  have htable : roundConstants = (List.range 64).map fun t => roundConstants.getD t 0 := by
    decide
  rw [htable, List.map_map]
  refine List.map_congr_left fun t ht => ?_
  rw [roundConstant_eq (List.mem_range.mp ht), Function.comp_apply]

/-- The words of `hash_block`, as the standard's. -/
def HashWords.words (s : HashWords) : Words :=
  ⟨s.a.toBitVec, s.b.toBitVec, s.c.toBitVec, s.d.toBitVec, s.e.toBitVec, s.f.toBitVec,
    s.g.toBitVec, s.h.toBitVec⟩

theorem words_hashBegin : hashBegin.h.words = Sha256.initial := by
  have hroot : ∀ j < 8,
      let n := Sha256.primes.getD j 0 * 2 ^ (32 * 2)
      let r := Nat.nthRoot 2 n
      r ^ 2 ≤ n ∧ n < (r + 1) ^ 2 ∧
        BitVec.ofNat 32 r = (#[0x6a09e667, 0xbb67ae85, 0x3c6ef372, 0xa54ff53a, 0x510e527f,
          0x9b05688c, 0x1f83d9ab, 0x5be0cd19] : Array Word).getD j 0 := by
    rw [Sha256.primes_eq]
    decide
  have hinitial : ∀ j < 8, Sha256.initialWord j = (#[0x6a09e667, 0xbb67ae85, 0x3c6ef372,
      0xa54ff53a, 0x510e527f, 0x9b05688c, 0x1f83d9ab, 0x5be0cd19] : Array Word).getD j 0 :=
    fun j hj => by
      obtain ⟨hlow, hhigh, heq⟩ := hroot j hj
      rw [Sha256.initialWord, Sha256.rootBits, Sha256.floorRoot_eq (by decide) hlow hhigh, heq]
  rw [Sha256.initial, hinitial 0 (by decide), hinitial 1 (by decide), hinitial 2 (by decide),
    hinitial 3 (by decide), hinitial 4 (by decide), hinitial 5 (by decide), hinitial 6 (by decide),
    hinitial 7 (by decide)]
  rfl

/-! ## One block -/

theorem toBitVec_rotate (n : UInt32) {bits : UInt32} (hpos : 0 < bits.toNat)
    (h : bits.toNat < 32) : (rotate n bits).toBitVec = n.toBitVec.rotateRight bits.toNat := by
  simp [rotate, BitVec.rotateRight_def, Nat.mod_eq_of_lt h]
  congr 2
  omega

theorem words_hashRound (s : HashWords) (kw : UInt32 × UInt32) :
    (hashRound s kw).words = Sha256.round s.words kw.1.toBitVec kw.2.toBitVec := by
  simp [hashRound, HashWords.words, Sha256.round, toBitVec_rotate, Sha256.bigSigma0,
    Sha256.bigSigma1, Sha256.ch, Sha256.maj]

/-- The rounds, over constants and words that are the standard's. -/
theorem words_foldl_hashRound (s : HashWords) (w : ℕ → Word) :
    ∀ (n : ℕ) (kws : List (UInt32 × UInt32)),
      (kws.map fun kw => (kw.1.toBitVec, kw.2.toBitVec)) =
        ((List.range n).map fun t => (Sha256.roundConstant t, w t)) →
      (kws.foldl hashRound s).words = Sha256.rounds s.words w n := by
  intro n kws h
  have hfold : (kws.foldl hashRound s).words =
      (kws.map fun kw => (kw.1.toBitVec, kw.2.toBitVec)).foldl
        (fun s kw => Sha256.round s kw.1 kw.2) s.words := by
    rw [List.foldl_map]
    exact (List.foldl_hom HashWords.words fun s kw => (words_hashRound s kw).symm).symm
  rw [hfold, h, List.foldl_map]
  clear h hfold
  induction n with
  | zero => rfl
  | succ n ih => rw [List.range_succ, List.foldl_append, ih]; rfl

/-- A list whose words are those of `f` reads as `f`. -/
theorem toBitVec_getD {w : List UInt32} {f : ℕ → Word} {n k : ℕ}
    (h : w.map UInt32.toBitVec = (List.range n).map f) (hk : k < n) :
    (w.getD k 0).toBitVec = f k := by
  have hget : (w.map UInt32.toBitVec).getD k 0 = f k := by
    rw [h, List.getD_eq_getElem _ _ (by simpa using hk), List.getElem_map, List.getElem_range]
  rwa [show (0 : Word) = (0 : UInt32).toBitVec from rfl, List.getD_map] at hget

/-- The words of a block of bytes. -/
def blockOf (block : List UInt8) : ℕ → Word := Sha256.blockWord (bitsOfBytes block) 0

/-- A word of the block, highest byte first. -/
theorem wordOf_bytes (p0 p1 p2 p3 : UInt8) (rest : List UInt8) :
    Sha256.wordOf (bitsOfBytes (p0 :: p1 :: p2 :: p3 :: rest)) =
      ((p0.toUInt32 <<< 24) ||| (p1.toUInt32 <<< 16) ||| (p2.toUInt32 <<< 8) |||
        p3.toUInt32).toBitVec := by
  refine BitVec.eq_of_getMsbD_eq fun i hi => ?_
  rw [Sha256.getMsbD_wordOf _ hi,
    Sha256.getD_bitsOfBytes _ i (by simp only [List.length_cons]; omega)]
  interval_cases i <;> simp

theorem map_blockWords {block : List UInt8} (h : block.length = 64) :
    (blockWords block).map UInt32.toBitVec = (List.range 16).map (blockOf block) := by
  rw [blockWords, List.map_map]
  refine List.map_congr_left fun i hi => ?_
  have hi16 := List.mem_range.mp hi
  have hdrop : block.drop (4 * i) =
      block.getD (4 * i) 0 :: block.getD (4 * i + 1) 0 :: block.getD (4 * i + 2) 0 ::
        block.getD (4 * i + 3) 0 :: block.drop (4 * i + 4) := by
    rw [List.drop_eq_getElem_cons (by omega), List.drop_eq_getElem_cons (by omega),
      List.drop_eq_getElem_cons (by omega), List.drop_eq_getElem_cons (by omega),
      List.getD_eq_getElem _ _ (by omega), List.getD_eq_getElem _ _ (by omega),
      List.getD_eq_getElem _ _ (by omega), List.getD_eq_getElem _ _ (by omega)]
  rw [blockOf, Sha256.blockWord, show 512 * 0 + 32 * i = 8 * (4 * i) by omega,
    Sha256.drop_bitsOfBytes, hdrop, wordOf_bytes]
  rfl

/-- The word that the second loop of `hash_block` puts behind `i + 16` words. -/
def scheduleNext (w : List UInt32) (i : ℕ) : UInt32 :=
  let x := w.getD (i + 1) 0
  let y := w.getD (i + 14) 0
  w.getD i 0 + (rotate x 7 ^^^ rotate x 18 ^^^ (x >>> 3)) + w.getD (i + 9) 0 +
    (rotate y 17 ^^^ rotate y 19 ^^^ (y >>> 10))

theorem schedule_eq (block : List UInt8) :
    schedule block =
      (List.range 48).foldl (fun w i => w ++ [scheduleNext w i]) (blockWords block) := rfl

theorem toBitVec_scheduleNext {w : List UInt32} {block : ℕ → Word} {n : ℕ}
    (h : w.map UInt32.toBitVec = (List.range (n + 16)).map (Sha256.schedule block)) :
    (scheduleNext w n).toBitVec = Sha256.schedule block (n + 16) := by
  have h0 := toBitVec_getD h (k := n) (by omega)
  have h1 := toBitVec_getD h (k := n + 1) (by omega)
  have h9 := toBitVec_getD h (k := n + 9) (by omega)
  have h14 := toBitVec_getD h (k := n + 14) (by omega)
  rw [Sha256.schedule_add, ← h0, ← h1, ← h9, ← h14]
  simp only [scheduleNext, UInt32.toBitVec_add, UInt32.toBitVec_xor, Sha256.smallSigma0,
    Sha256.smallSigma1]
  rw [toBitVec_rotate _ (by decide) (by decide), toBitVec_rotate _ (by decide) (by decide),
    toBitVec_rotate _ (by decide) (by decide), toBitVec_rotate _ (by decide) (by decide)]
  simp
  ac_rfl

/-- **The schedule of `hash_block` is the standard's.** -/
theorem map_schedule {block : List UInt8} (h : block.length = 64) :
    (schedule block).map UInt32.toBitVec =
      (List.range 64).map (Sha256.schedule (blockOf block)) := by
  have hgrow : ∀ n,
      ((List.range n).foldl (fun w i => w ++ [scheduleNext w i]) (blockWords block)).map
        UInt32.toBitVec = (List.range (n + 16)).map (Sha256.schedule (blockOf block)) := by
    intro n
    induction n with
    | zero =>
      rw [List.range_zero, List.foldl_nil, map_blockWords h]
      exact List.map_congr_left fun t ht =>
        (Sha256.schedule_lt _ (by simpa using ht)).symm
    | succ n ih =>
      rw [List.range_succ, List.foldl_append, List.foldl_cons, List.foldl_nil, List.map_append, ih,
        show n + 1 + 16 = n + 16 + 1 by omega, List.range_succ (n := n + 16), List.map_append,
        List.map_singleton, List.map_singleton, toBitVec_scheduleNext ih]
  rw [schedule_eq]
  exact hgrow 48

/-- **`hash_block` compresses the block as the standard does.** -/
theorem words_hashBlock (h : HashWords) {block : List UInt8} (hlen : block.length = 64) :
    (hashBlock h block).words = Sha256.compress h.words (blockOf block) := by
  have hzip : (roundConstants.zip (schedule block)).map
        (fun kw => (kw.1.toBitVec, kw.2.toBitVec)) =
      (List.range 64).map fun t =>
        (Sha256.roundConstant t, Sha256.schedule (blockOf block) t) := by
    have hmaps : (roundConstants.map UInt32.toBitVec).zip ((schedule block).map UInt32.toBitVec) =
        (roundConstants.zip (schedule block)).map (Prod.map UInt32.toBitVec UInt32.toBitVec) :=
      List.zip_map
    rw [map_roundConstants, map_schedule hlen, List.zip_map'] at hmaps
    exact hmaps.symm
  have hrounds := words_foldl_hashRound h _ 64 _ hzip
  rw [Sha256.compress, ← hrounds]
  simp [hashBlock, HashWords.words, BitVec.add_comm]

/-! ## What a hash keeps of its bytes -/

/-- Of the bytes `m`: whole blocks, folded into the digest, and the rest. -/
def Absorbed (hash : MediaHash) (m : List UInt8) : Prop :=
  ∃ (i : ℕ) (whole : List UInt8), whole.length = 64 * i ∧ m = whole ++ hash.block ∧
    hash.h.words = Sha256.digestAfter (bitsOfBytes whole) i

/-- One more block behind whole blocks. -/
theorem words_hashBlock_append {h : HashWords} {whole block : List UInt8} {i : ℕ}
    (hwhole : whole.length = 64 * i) (hlen : block.length = 64)
    (hh : h.words = Sha256.digestAfter (bitsOfBytes whole) i) :
    (hashBlock h block).words = Sha256.digestAfter (bitsOfBytes (whole ++ block)) (i + 1) := by
  have hword : Sha256.blockWord (bitsOfBytes (whole ++ block)) i = blockOf block := by
    funext t
    rw [blockOf, Sha256.blockWord, Sha256.blockWord, ← List.drop_drop,
      show 512 * i = 8 * (64 * i) by omega, Sha256.drop_bitsOfBytes, List.drop_left' hwhole]
    rw [Nat.mul_zero, Nat.zero_add]
  rw [words_hashBlock h hlen, Sha256.digestAfter, hword,
    Sha256.bitsOfBytes_append,
    Sha256.digestAfter_append _ _ i (by rw [Sha256.length_bitsOfBytes, hwhole]; omega), hh]

theorem absorbed_hashBegin : Absorbed hashBegin [] := ⟨0, [], rfl, rfl, words_hashBegin⟩

theorem bytes_hashFill (hash : MediaHash) (input : List UInt8) :
    (hashFill hash input).bytes = hash.bytes := by
  fun_induction hashFill hash input with
  | case1 => rfl
  | case2 _ _ _ _ _ _ ih => exact ih
  | case3 _ _ _ _ _ _ ih => exact ih

/-- **The loop of `hash_add` appends its bytes.** -/
theorem absorbed_hashFill (hash : MediaHash) (input m : List UInt8) (h : Absorbed hash m) :
    Absorbed (hashFill hash input) (m ++ input) := by
  fun_induction hashFill hash input generalizing m with
  | case1 hash input hnil =>
    rwa [List.length_eq_zero_iff.mp hnil, List.append_nil]
  | case2 hash input _ n block hfull ih =>
    obtain ⟨i, whole, hwhole, hm, hh⟩ := h
    have hblock := words_hashBlock_append hwhole hfull hh
    have hnext := ih (m ++ input.take n)
      ⟨i + 1, whole ++ block, by rw [List.length_append, hwhole, hfull]; omega,
        by rw [hm, List.append_nil, List.append_assoc], hblock⟩
    rwa [List.append_assoc, List.take_append_drop] at hnext
  | case3 hash input _ n block _ ih =>
    obtain ⟨i, whole, hwhole, hm, hh⟩ := h
    have hnext := ih (m ++ input.take n)
      ⟨i, whole, hwhole, by rw [hm, List.append_assoc], hh⟩
    rwa [List.append_assoc, List.take_append_drop] at hnext

/-- What a hash keeps of the bytes given to it. -/
structure Holds (hash : MediaHash) (m : List UInt8) : Prop where
  absorbed : Absorbed hash m
  bytes : hash.bytes = UInt64.ofNat m.length

theorem Holds.hashAdd {hash : MediaHash} {m : List UInt8} (h : Holds hash m)
    (input : List UInt8) : Holds (hashAdd hash input) (m ++ input) where
  absorbed := absorbed_hashFill _ input m h.absorbed
  bytes := by
    rw [Snapshot.hashAdd, bytes_hashFill, h.bytes, List.length_append, UInt64.ofNat_add]

/-- **However the bytes are split.** -/
theorem Holds.foldl {hash : MediaHash} :
    ∀ (pieces : List (List UInt8)) {m : List UInt8}, Holds hash m →
      Holds (pieces.foldl Snapshot.hashAdd hash) (m ++ pieces.flatten) := by
  intro pieces
  induction pieces generalizing hash with
  | nil => intro m h; rwa [List.flatten_nil, List.append_nil]
  | cons piece pieces ih =>
    intro m h
    rw [List.foldl_cons, List.flatten_cons, ← List.append_assoc]
    exact ih (h.hashAdd piece)

/-! ## The last blocks -/

/-- The eight bytes of `hash_end`'s length, highest first. -/
def lengthBytes (bits : UInt64) : List UInt8 :=
  (List.range 8).map fun i => (bits >>> UInt64.ofNat (8 * (7 - i))).toUInt8

/-- The four bytes of a word of the digest, highest first. -/
def wordBytes (word : UInt32) : List UInt8 :=
  (List.range 4).map fun i => (word >>> UInt32.ofNat (24 - 8 * i)).toUInt8

/-- Bit strings of one length are compared bit by bit. -/
theorem bits_ext {x y : Bits} (hlen : x.length = y.length)
    (h : ∀ i < y.length, x.getD i false = y.getD i false) : x = y := by
  refine List.ext_getElem hlen fun i hx hy => ?_
  have := h i hy
  rwa [List.getD_eq_getElem _ _ hx, List.getD_eq_getElem _ _ hy] at this

theorem bitsOfBytes_lengthBytes (bits : UInt64) :
    bitsOfBytes (lengthBytes bits) = bitsOf bits.toBitVec := by
  have hlen : (lengthBytes bits).length = 8 := by simp [lengthBytes]
  refine bits_ext (by simp [hlen]) fun i hi => ?_
  rw [Sha256.length_bitsOf] at hi
  have hbyte : ((lengthBytes bits).getD (i / 8) 0).toBitVec =
      (bits.toBitVec >>> (8 * (8 - 1 - i / 8))).setWidth 8 := by
    have hi8 : i / 8 < 8 := by omega
    rw [List.getD_eq_getElem _ _ (by omega)]
    simp only [lengthBytes, List.getElem_map, List.getElem_range]
    interval_cases i / 8 <;> rfl
  rw [Sha256.getD_bitsOf _ hi, Sha256.getD_bitsOfBytes _ _ (by omega), hbyte,
    Sha256.getMsbD_byte (by decide) _ hi]

theorem bitsOfBytes_wordBytes (word : UInt32) :
    bitsOfBytes (wordBytes word) = bitsOf word.toBitVec := by
  have hlen : (wordBytes word).length = 4 := by simp [wordBytes]
  refine bits_ext (by simp [hlen]) fun i hi => ?_
  rw [Sha256.length_bitsOf] at hi
  have hbyte : ((wordBytes word).getD (i / 8) 0).toBitVec =
      (word.toBitVec >>> (8 * (4 - 1 - i / 8))).setWidth 8 := by
    have hi4 : i / 8 < 4 := by omega
    rw [List.getD_eq_getElem _ _ (by omega)]
    simp only [wordBytes, List.getElem_map, List.getElem_range]
    interval_cases i / 8 <;> rfl
  rw [Sha256.getD_bitsOf _ hi, Sha256.getD_bitsOfBytes _ _ (by omega), hbyte,
    Sha256.getMsbD_byte (by decide) _ hi]

theorem bitsOfBytes_zeros : ∀ n, bitsOfBytes (List.replicate n 0) = List.replicate (8 * n) false
  | 0 => rfl
  | n + 1 => by
    rw [List.replicate_succ, Sha256.bitsOfBytes_cons, bitsOfBytes_zeros n,
      show 8 * (n + 1) = 8 + 8 * n by omega, List.replicate_add]
    rfl

/-- The bytes that pad `n` bytes. -/
def padding (n : ℕ) : List UInt8 :=
  0x80 :: List.replicate ((119 - n % 64) % 64) 0 ++ lengthBytes (UInt64.ofNat n * 8)

/-- The padding of the standard, in bytes. -/
theorem pad_bitsOfBytes (m : List UInt8) :
    Sha256.pad (bitsOfBytes m) = bitsOfBytes (m ++ padding m.length) := by
  have hzeros : Sha256.zeros (8 * m.length) = 7 + 8 * ((119 - m.length % 64) % 64) := by
    have hspec := Sha256.zeros_spec (8 * m.length)
    omega
  have hmark : bitsOf (0x80 : UInt8).toBitVec = true :: List.replicate 7 false := by decide
  have hlength : (UInt64.ofNat m.length * 8).toBitVec = BitVec.ofNat 64 (8 * m.length) := by
    rw [UInt64.toBitVec_mul, mul_comm, BitVec.ofNat_mul]
    rfl
  rw [Sha256.pad, padding, Sha256.length_bitsOfBytes, hzeros, Sha256.bitsOfBytes_append,
    Sha256.bitsOfBytes_append, Sha256.bitsOfBytes_cons, hmark, bitsOfBytes_zeros,
    bitsOfBytes_lengthBytes, hlength, List.replicate_add]
  simp only [List.cons_append, List.append_assoc]

/-- The digest that `hash_end` stores. -/
def digestBytes (h : HashWords) : List UInt8 :=
  [h.a, h.b, h.c, h.d, h.e, h.f, h.g, h.h].flatMap wordBytes

theorem bits_digestBytes (h : HashWords) : bitsOfBytes (digestBytes h) = h.words.bits := by
  simp [digestBytes, HashWords.words, Words.bits, bitsOfBytes_wordBytes]

/-- What follows `rest` in the last block. -/
def lastBlock (rest : List UInt8) (bits : UInt64) : List UInt8 :=
  rest ++ List.replicate (56 - rest.length) 0 ++ lengthBytes bits

theorem length_lastBlock (rest : List UInt8) (bits : UInt64) (h : rest.length ≤ 56) :
    (lastBlock rest bits).length = 64 := by
  simp only [lastBlock, lengthBytes, List.length_append, List.length_replicate, List.length_map,
    List.length_range]
  omega

/-- The marker and its zeros, when they fill a block of their own. -/
def markedBlock (block : List UInt8) : List UInt8 :=
  block ++ [0x80] ++ List.replicate (64 - (block ++ [0x80]).length) 0

theorem hashEnd_long {hash : MediaHash} (h : 55 < hash.block.length) :
    hashEnd hash = digestBytes
      (hashBlock (hashBlock hash.h (markedBlock hash.block)) (lastBlock [] (hash.bytes * 8))) := by
  have hspill : (hash.block ++ [0x80]).length > 56 := by
    rw [List.length_append, List.length_singleton]
    omega
  unfold hashEnd
  dsimp only
  rw [if_pos hspill]
  rfl

theorem hashEnd_short {hash : MediaHash} (h : hash.block.length ≤ 55) :
    hashEnd hash =
      digestBytes (hashBlock hash.h (lastBlock (hash.block ++ [0x80]) (hash.bytes * 8))) := by
  have hfits : ¬(hash.block ++ [0x80]).length > 56 := by
    rw [List.length_append, List.length_singleton]
    omega
  unfold hashEnd
  dsimp only
  rw [if_neg hfits]
  rfl

/-- The padding of a message that ends in a long rest takes two blocks. -/
theorem padding_long {block : List UInt8} {n : ℕ} (hn : n % 64 = block.length)
    (h : 55 < block.length) :
    block ++ padding n = markedBlock block ++ lastBlock [] (UInt64.ofNat n * 8) := by
  have hlt := Nat.mod_lt n (show 0 < 64 by decide)
  have hzeros : (119 - n % 64) % 64 = 63 - block.length + 56 := by omega
  rw [padding, hzeros, List.replicate_add, markedBlock, lastBlock, List.length_append,
    List.length_singleton, show 64 - (block.length + 1) = 63 - block.length by omega]
  simp only [List.length_nil, List.append_assoc, List.cons_append, List.nil_append]

theorem padding_short {block : List UInt8} {n : ℕ} (hn : n % 64 = block.length)
    (h : block.length ≤ 55) :
    block ++ padding n = lastBlock (block ++ [0x80]) (UInt64.ofNat n * 8) := by
  have hzeros : (119 - n % 64) % 64 = 56 - (block.length + 1) := by omega
  rw [padding, hzeros, lastBlock, List.length_append, List.length_singleton]
  simp only [List.append_assoc, List.cons_append, List.nil_append]

/-- A digest after whole blocks that end with the padding. -/
theorem sha256_eq {m whole : List UInt8} {i : ℕ} (hlen : whole.length = 64 * i)
    (hpad : m ++ padding m.length = whole) :
    Sha256.sha256 (bitsOfBytes m) = (Sha256.digestAfter (bitsOfBytes whole) i).bits := by
  rw [Sha256.sha256, pad_bitsOfBytes, hpad, Sha256.length_bitsOfBytes, hlen,
    show 8 * (64 * i) / 512 = i by omega]

theorem bits_hashEnd {hash : MediaHash} {m : List UInt8} (h : Holds hash m) :
    bitsOfBytes (hashEnd hash) = Sha256.sha256 (bitsOfBytes m) := by
  obtain ⟨i, whole, hwhole, hm, hh⟩ := h.absorbed
  have hused := hash.used_lt
  have hmod : m.length % 64 = hash.block.length := by
    rw [hm, List.length_append, hwhole]
    omega
  have hpad : m ++ padding m.length = whole ++ (hash.block ++ padding m.length) := by
    conv_lhs => rw [hm, List.append_assoc]
    rw [← hm]
  rcases Nat.lt_or_ge 55 hash.block.length with hlong | hshort
  · have hfirst : (markedBlock hash.block).length = 64 := by
      simp only [markedBlock, List.length_append, List.length_replicate, List.length_singleton]
      omega
    have hsecond := length_lastBlock [] (hash.bytes * 8) (by decide)
    have hblocks : (whole ++ markedBlock hash.block).length = 64 * (i + 1) := by
      rw [List.length_append, hwhole, hfirst]
      omega
    have hdigest := words_hashBlock_append hblocks hsecond
      (words_hashBlock_append hwhole hfirst hh)
    rw [hashEnd_long hlong, bits_digestBytes, hdigest]
    rw [padding_long hmod hlong, ← h.bytes, ← List.append_assoc] at hpad
    exact (sha256_eq (by rw [List.length_append, hblocks, hsecond]; omega) hpad).symm
  · have hlast := length_lastBlock (hash.block ++ [0x80]) (hash.bytes * 8)
      (by rw [List.length_append, List.length_singleton]; omega)
    rw [hashEnd_short hshort, bits_digestBytes, words_hashBlock_append hwhole hlast hh]
    rw [padding_short hmod hshort, ← h.bytes] at hpad
    exact (sha256_eq (by rw [List.length_append, hwhole, hlast]; omega) hpad).symm

/-- **The digest of a base is SHA-256**: for every split of the bytes, empty pieces included. -/
theorem bits_hashEnd_foldl_hashAdd (pieces : List (List UInt8)) :
    bitsOfBytes (hashEnd (pieces.foldl hashAdd hashBegin)) =
      Sha256.sha256 (bitsOfBytes pieces.flatten) :=
  bits_hashEnd (Holds.foldl pieces ⟨absorbed_hashBegin, rfl⟩)

/-- The digest of `abc`. -/
example : hashEnd (hashAdd hashBegin [0x61, 0x62, 0x63]) =
    [0xba, 0x78, 0x16, 0xbf, 0x8f, 0x01, 0xcf, 0xea, 0x41, 0x41, 0x40, 0xde, 0x5d, 0xae, 0x22, 0x23,
      0xb0, 0x03, 0x61, 0xa3, 0x96, 0x17, 0x7a, 0x9c, 0xb4, 0x10, 0xff, 0x61, 0xf2, 0x00, 0x15, 0xad] := by
  decide +kernel

end SoftPC.Snapshot
