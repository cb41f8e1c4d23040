import SoftPC.Lib.Types
import SoftPC.Machinery.Decoder
import Mathlib.Data.List.FinRange
import Mathlib.Algebra.GroupWithZero.Nat

/-!
# Compat/SnapshotStream — little-endian words of a snapshot

`compat/snapshot_stream.c`.  A word is written with its lowest byte first.
-/

namespace SoftPC.Snapshot

open Decoder

/-- What reads a snapshot. -/
abbrev Reader := Decoder Status UInt8

variable {w : ℕ}

/-- `softpc_snapshot_stream_write_u16` and its kin: a word of `count` bytes. -/
def writeWord (count : ℕ) (value : BitVec w) : List UInt8 :=
  (List.range count).map fun index => UInt8.ofBitVec ((value >>> (8 * index)).setWidth 8)

/-- The word of some bytes. -/
def ofBytes : List UInt8 → BitVec w
  | [] => 0
  | byte :: rest => byte.toBitVec.setWidth w ||| ofBytes rest <<< 8

/-- `softpc_snapshot_stream_read_u16` and its kin. -/
def readWord (count : ℕ) : Reader (BitVec w) := do
  let bytes ← cells count
  pure (ofBytes bytes)

def writeU16 : BitVec 16 → List UInt8 := writeWord 2
def writeU32 : BitVec 32 → List UInt8 := writeWord 4
def writeU64 : BitVec 64 → List UInt8 := writeWord 8
def readU16 : Reader (BitVec 16) := readWord 2
def readU32 : Reader (BitVec 32) := readWord 4
def readU64 : Reader (BitVec 64) := readWord 8

theorem getLsbD_ofBytes (bytes : List UInt8) {j : ℕ} (hj : j < w) :
    (ofBytes bytes : BitVec w).getLsbD j = (bytes[j / 8]?.getD 0).toBitVec.getLsbD (j % 8) := by
  induction bytes generalizing j with
  | nil => simp [ofBytes]
  | cons byte rest ih =>
    rw [ofBytes, BitVec.getLsbD_or, BitVec.getLsbD_setWidth, BitVec.getLsbD_shiftLeft]
    rcases Nat.lt_or_ge j 8 with h | h
    · simp [hj, h, Nat.div_eq_of_lt h, Nat.mod_eq_of_lt h]
    · have hdiv : j / 8 = (j - 8) / 8 + 1 := by omega
      have hmod : (j - 8) % 8 = j % 8 := by omega
      rw [ih (by omega), hdiv, List.getElem?_cons_succ, hmod]
      simp [hj, h, show ¬j < 8 by omega]

theorem writeWord_length (count : ℕ) (value : BitVec w) : (writeWord count value).length = count := by
  simp [writeWord]

/-- A word is read back. -/
theorem ofBytes_writeWord {count : ℕ} (hw : w = 8 * count) (value : BitVec w) :
    ofBytes (writeWord count value) = value := by
  apply BitVec.eq_of_getLsbD_eq
  intro j hj
  rw [getLsbD_ofBytes _ hj]
  have hindex : j / 8 < count := by omega
  have hmod : j % 8 < 8 := Nat.mod_lt _ (by decide)
  rw [writeWord, List.getElem?_map, List.getElem?_range hindex]
  simp [hmod, Nat.div_add_mod]

/-- Bytes are written again. -/
theorem writeWord_ofBytes {count : ℕ} (hw : w = 8 * count) {bytes : List UInt8}
    (hlength : bytes.length = count) : writeWord count (ofBytes bytes : BitVec w) = bytes := by
  refine List.ext_getElem (by rw [writeWord_length, hlength]) fun i hi hi' => ?_
  rw [← UInt8.toBitVec_inj]
  apply BitVec.eq_of_getLsbD_eq
  intro j hj
  have hdiv : (8 * i + j) / 8 = i := by omega
  have hmod : (8 * i + j) % 8 = j := by omega
  have hbound : 8 * i + j < w := by omega
  simp only [writeWord, List.getElem_map, List.getElem_range, UInt8.toBitVec_ofBitVec]
  rw [BitVec.getLsbD_setWidth, BitVec.getLsbD_ushiftRight, getLsbD_ofBytes _ hbound, hdiv, hmod,
    List.getElem?_eq_getElem hi']
  simp [hj]

/-- **Words** are written as they are read. -/
theorem pairs_word {count : ℕ} (hw : w = 8 * count) :
    Pairs (readWord count : Reader (BitVec w)) (writeWord count) fun _ => True := by
  refine (Pairs.cells count).map (fun bytes hbytes => ⟨?_, trivial⟩) fun value _ => ⟨?_, ?_⟩
  · exact writeWord_ofBytes hw hbytes
  · exact ofBytes_writeWord hw value
  · exact writeWord_length count value

theorem pairs_u16 : Pairs readU16 writeU16 fun _ => True := pairs_word rfl
theorem pairs_u32 : Pairs readU32 writeU32 fun _ => True := pairs_word rfl
theorem pairs_u64 : Pairs readU64 writeU64 fun _ => True := pairs_word rfl

/-! ## Arrays and records of words -/

section Arrays

variable {α ν : Type} {n : ℕ} {read : Reader α} {write : α → List UInt8} {ok : α → Prop}

/-- The elements of an array, one after the other. -/
def writeArray (write : α → List UInt8) (values : Fin n → α) : List UInt8 :=
  writeFields (fun _ => write) (List.finRange n) values

def readArray (read : Reader α) (initial : Fin n → α) : Reader (Fin n → α) :=
  readFields (fun _ => read) (List.finRange n) initial

theorem pairs_array (h : Pairs read write ok) (initial : Fin n → α) :
    Pairs (readArray read initial) (writeArray write) fun values => ∀ i, ok (values i) :=
  Pairs.fields (fun _ => h) (List.nodup_finRange n) List.mem_finRange initial

variable {width : ν → ℕ}

/-- The words of a record, in some order. -/
def writeWords (width : ν → ℕ) : List ν → (∀ field, BitVec (width field)) → List UInt8 :=
  writeFields fun field => writeWord (width field / 8)

/-- … read into a record of zeros. -/
def readWords [DecidableEq ν] (width : ν → ℕ) (order : List ν) : Reader (∀ field, BitVec (width field)) :=
  readFields (fun field => readWord (width field / 8)) order fun _ => 0

theorem pairs_words [DecidableEq ν] {order : List ν} (hwidth : ∀ field, width field = 8 * (width field / 8))
    (hnodup : order.Nodup) (hall : ∀ field, field ∈ order) :
    Pairs (readWords width order) (writeWords width order) fun _ => True :=
  (Pairs.fields (fun field => pairs_word (hwidth field)) hnodup hall _).congr
    (fun _ => ⟨fun _ _ => trivial, fun _ => trivial⟩) fun _ _ => rfl

theorem flatMap_length {k : ℕ} (h : ∀ value, (write value).length = k) (values : List α) :
    (values.flatMap write).length = values.length * k := by
  simp only [List.length_flatMap, h, List.map_const', List.sum_replicate_nat]

theorem writeArray_length {k : ℕ} (h : ∀ value, (write value).length = k) (values : Fin n → α) :
    (writeArray write values).length = n * k := by
  simp only [writeArray, writeFields, List.length_flatMap, h, List.map_const', List.length_finRange,
    List.sum_replicate_nat]

theorem writeWords_length (order : List ν) (record : ∀ field, BitVec (width field)) :
    (writeWords width order record).length = (order.map fun field => width field / 8).sum := by
  simp only [writeWords, writeFields, List.length_flatMap, writeWord_length]

end Arrays

end SoftPC.Snapshot
