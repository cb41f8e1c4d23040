import SoftPC.Ccpu.Tlb

/-!
# Ccpu/Sas — memory by the types of its pages

`base/ccpu386/ccpusas4.c`: the tables that a physical access indexes.  Every page of memory has a
type, which says what a write there does; for types that have a handler it selects one of the
`TYPE_RANGE` entries of `b_write_ptrs` or `w_write_ptrs`.  An index past the end of a table, and the
recursion of `phyR` on a page that is of the type `SAS_DANGEROUS` itself, is `none`.
-/

namespace SoftPC.Ccpu

/-- The types that are connected to memory. -/
inductive MemType where
  | ram | video | rom | wrap | io | mmLim | inaccessible
  deriving DecidableEq

/-- `SAS_MEM_TYPE`. -/
def MemType.code : MemType → UInt8
  | .ram => 0
  | .video => 1
  | .rom => 2
  | .wrap => 3
  | .io => 4
  | .mmLim => 5
  | .inaccessible => 6

/-- `SAS_DANGEROUS`: two types. -/
def dangerous : UInt8 := 7

/-- The memory's length, the mask of its addresses, and the types of its pages. -/
structure Sas where
  lengthOfM : Word
  wrapMask : Word
  memoryType : List UInt8

namespace Sas

variable (s : Sas)

/-- `READ_SELF_MOD`. -/
def pageType (addr : Word) : Option UInt8 := s.memoryType[(addr >>> 12).toNat]?

def readSelfMod (addr : Word) (typeSize : Word) : Option UInt8 := do
  let startType ← s.pageType addr
  let endType ← s.pageType (addr + typeSize - 1)
  some (if startType = endType then startType else dangerous)

/-- An access of `typeSize` bytes lies within memory, as `phyR` asks. -/
def readable (addr typeSize : Word) : Bool := !(addr ≥ s.lengthOfM || typeSize > s.lengthOfM - addr)

/-- `phyR` of a byte. -/
def phyRByte (addr : Word) : Option Unit :=
  let addr := addr &&& s.wrapMask
  if !s.readable addr 1 then some ()
  else do
    let type ← s.readSelfMod addr 1
    if type = dangerous then none else some ()

def phyR (addr typeSize : Word) : Option Unit :=
  let addr := addr &&& s.wrapMask
  if !s.readable addr typeSize then some ()
  else do
    let type ← s.readSelfMod addr typeSize
    if type = dangerous then
      (List.range typeSize.toNat).forM fun byte => s.phyRByte (addr + .ofNat 32 byte)
    else some ()

def phyR32 (addr : Word) : Option Unit := do
  s.phyR addr 2
  s.phyR (addr + 2) 2

/-- What a write does with a type: nothing, or memory, or a handler. -/
def handler (type : UInt8) : Option Unit :=
  if type = MemType.ram.code ∨ type = MemType.mmLim.code ∨ type = MemType.inaccessible.code ∨
      type = MemType.rom.code then some ()
  else if type.toNat < 6 then some () else none

def phyW8 (addr : Word) : Option Unit :=
  let addr := addr &&& s.wrapMask
  if addr < s.lengthOfM then do
    let type ← s.readSelfMod addr 1
    handler type
  else some ()

def phyW16 (addr : Word) : Option Unit :=
  let addr := addr &&& s.wrapMask
  if addr + 1 < s.lengthOfM then do
    let type ← s.readSelfMod addr 2
    handler type
  else some ()

def phyW32 (addr : Word) : Option Unit := do
  s.phyW16 addr
  s.phyW16 (addr + 2)

/-- `c_sas_connect_memory`. -/
def connectMemory (low high : Word) (type : MemType) : Option Sas :=
  let high := if high &&& 0xfff = 0 ∧ high ≠ 0 then high - 1 else high
  if (high >>> 12).toNat < s.memoryType.length then
    some { s with
      memoryType := s.memoryType.mapIdx fun page old =>
        if (low >>> 12).toNat ≤ page ∧ page ≤ (high >>> 12).toNat then type.code else old }
  else none

/-! ## Types that select something -/

variable {s}

/-- A type for every page of memory, each of which a write knows what to do with. -/
structure Typed (s : Sas) : Prop where
  length_lt : s.lengthOfM.toNat + 0x10020 < 2 ^ 32
  length : s.memoryType.length = (s.lengthOfM.toNat + 0x10020) / 4096
  types : ∀ type ∈ s.memoryType, type.toNat ≤ 6

theorem Typed.pageType (h : s.Typed) {addr : Word} (hlt : addr.toNat < s.lengthOfM.toNat) :
    ∃ type, s.pageType addr = some type ∧ type.toNat ≤ 6 := by
  have hpage : (addr >>> 12).toNat < s.memoryType.length := by
    rw [h.length, BitVec.toNat_ushiftRight, Nat.shiftRight_eq_div_pow]
    omega
  exact ⟨_, List.getElem?_eq_getElem hpage, h.types _ (List.getElem_mem hpage)⟩

theorem ne_dangerous {type : UInt8} (h : type.toNat ≤ 6) : type ≠ dangerous := by
  rintro rfl
  exact absurd h (by decide)

theorem handler_some {type : UInt8} (h : type.toNat ≤ 6) : handler type = some () := by
  unfold handler
  split
  · rfl
  · rename_i hother
    refine if_pos (lt_of_le_of_ne h fun hsix => hother (.inr (.inr (.inl ?_))))
    exact UInt8.toNat_inj.mp hsix

/-- A byte is of one type. -/
theorem Typed.readSelfMod_byte (h : s.Typed) {addr : Word} (hlt : addr.toNat < s.lengthOfM.toNat) :
    ∃ type, s.readSelfMod addr 1 = some type ∧ type.toNat ≤ 6 := by
  obtain ⟨type, htype, hle⟩ := h.pageType hlt
  have hlast : addr + 1 - 1 = addr := BitVec.add_sub_cancel addr 1
  refine ⟨type, ?_, hle⟩
  rw [readSelfMod, hlast, htype]
  exact congrArg some (if_pos rfl)

theorem Typed.phyRByte (h : s.Typed) (addr : Word) : s.phyRByte addr = some () := by
  unfold Sas.phyRByte
  dsimp only
  split
  · rfl
  · rename_i hin
    have hlt : (addr &&& s.wrapMask).toNat < s.lengthOfM.toNat := by
      simp only [readable, ge_iff_le, gt_iff_lt, Bool.not_eq_true', Bool.not_eq_false', Bool.or_eq_true,
        decide_eq_true_eq, not_or, BitVec.not_le] at hin
      exact hin.1
    obtain ⟨type, htype, hle⟩ := h.readSelfMod_byte hlt
    rw [htype]
    exact if_neg (ne_dangerous hle)

theorem Typed.phyRBytes (h : s.Typed) (addr : Word) (bytes : List ℕ) :
    (bytes.forM fun byte => s.phyRByte (addr + .ofNat 32 byte)) = some () := by
  induction bytes with
  | nil => rfl
  | cons byte rest ih =>
    change (s.phyRByte (addr + .ofNat 32 byte) >>= fun _ => rest.forM _) = some ()
    rw [h.phyRByte]
    exact ih

/-- **Reads** of up to a word stay within the tables, wherever they are made. -/
theorem Typed.phyR (h : s.Typed) (addr : Word) {typeSize : Word} (hsize : 0 < typeSize.toNat) :
    s.phyR addr typeSize = some () := by
  unfold Sas.phyR
  dsimp only
  split
  · rfl
  · rename_i hin
    simp only [readable, ge_iff_le, gt_iff_lt, Bool.not_eq_true', Bool.not_eq_false', Bool.or_eq_true,
      decide_eq_true_eq, not_or, BitVec.not_le, BitVec.not_lt] at hin
    obtain ⟨hlt, hle⟩ := hin
    rw [BitVec.lt_def] at hlt
    rw [BitVec.le_def, BitVec.toNat_sub_of_le (BitVec.le_of_lt hlt)] at hle
    have hlast : (addr &&& s.wrapMask) + typeSize - 1 = (addr &&& s.wrapMask) + (typeSize - 1) :=
      add_sub_assoc _ _ _
    have hend : ((addr &&& s.wrapMask) + typeSize - 1).toNat < s.lengthOfM.toNat := by
      have hone : (typeSize - 1).toNat = typeSize.toNat - 1 := by
        rw [BitVec.toNat_sub_of_le]
        · rfl
        · exact hsize
      rw [hlast, BitVec.toNat_add, hone, Nat.mod_eq_of_lt (by omega)]
      omega
    obtain ⟨first, hfirst, -⟩ := h.pageType hlt
    obtain ⟨last, hlast', -⟩ := h.pageType hend
    rw [readSelfMod, hfirst, hlast']
    dsimp only [bind, Option.bind]
    generalize (if first = last then first else dangerous) = type
    split
    · exact h.phyRBytes _ _
    · rfl

theorem Typed.phyR32 (h : s.Typed) (addr : Word) : s.phyR32 addr = some () := by
  unfold Sas.phyR32
  rw [h.phyR addr (by decide)]
  exact h.phyR (addr + 2) (by decide)

/-- **Byte writes** do too. -/
theorem Typed.phyW8 (h : s.Typed) (addr : Word) : s.phyW8 addr = some () := by
  unfold Sas.phyW8
  dsimp only
  split
  · rename_i hlt
    obtain ⟨type, htype, hle⟩ := h.readSelfMod_byte hlt
    rw [htype]
    exact handler_some hle
  · rfl

/-- A word written here begins and ends in pages of one type, and does not begin at the last address:
where it does not, `phy_w16` takes `SAS_DANGEROUS` for a type with a handler, or its address plus one
for an address in memory. -/
def Whole (s : Sas) (addr : Word) : Prop :=
  let addr := addr &&& s.wrapMask
  addr ≠ 0xffffffff ∧ (addr + 1 < s.lengthOfM → s.pageType addr = s.pageType (addr + 1))

theorem Typed.phyW16 (h : s.Typed) {addr : Word} (hwhole : s.Whole addr) :
    s.phyW16 addr = some () := by
  obtain ⟨hne, hsame⟩ := hwhole
  unfold Sas.phyW16
  dsimp only
  split
  · rename_i hlt
    have hnat : (addr &&& s.wrapMask).toNat + 1 < 2 ^ 32 := by
      have hlt := (addr &&& s.wrapMask).isLt
      refine Nat.lt_of_le_of_ne hlt fun heq => hne (BitVec.eq_of_toNat_eq ?_)
      exact Nat.succ.inj heq
    have hsucc : ((addr &&& s.wrapMask) + 1).toNat = (addr &&& s.wrapMask).toNat + 1 := by
      rw [BitVec.toNat_add]
      exact Nat.mod_eq_of_lt hnat
    have hstart : (addr &&& s.wrapMask).toNat < s.lengthOfM.toNat := by
      rw [BitVec.lt_def, hsucc] at hlt
      omega
    obtain ⟨type, htype, hle⟩ := h.pageType hstart
    have hlast : (addr &&& s.wrapMask) + 2 - 1 = (addr &&& s.wrapMask) + 1 :=
      add_sub_assoc _ _ _
    rw [readSelfMod, hlast, ← hsame hlt, htype]
    dsimp only [bind, Option.bind]
    rw [if_pos rfl]
    exact handler_some hle
  · rfl

-- A word between a page of memory and one of the display, and one at the last address.
example : (Sas.mk 8192 0xfffff (0 :: List.replicate 17 1)).phyW16 0xfff = none := by decide
example : (Sas.mk 8192 0xffffffff (List.replicate 18 0)).phyW16 0xffffffff = none := by decide

theorem Typed.phyW32 (h : s.Typed) {addr : Word} (hfirst : s.Whole addr) (hsecond : s.Whole (addr + 2)) :
    s.phyW32 addr = some () := by
  unfold Sas.phyW32
  rw [h.phyW16 hfirst]
  exact h.phyW16 hsecond

/-- Connecting memory keeps the types ones that select something. -/
theorem Typed.connectMemory (h : s.Typed) {low high : Word} {type : MemType} {s' : Sas}
    (hs : s.connectMemory low high type = some s') :
    s'.Typed ∧ s'.lengthOfM = s.lengthOfM := by
  unfold Sas.connectMemory at hs
  dsimp only at hs
  generalize (if high &&& 0xfff = 0 ∧ high ≠ 0 then high - 1 else high) = last at hs
  split at hs
  · obtain rfl := Option.some.inj hs
    refine ⟨⟨h.length_lt, by rw [List.length_mapIdx]; exact h.length, fun t ht => ?_⟩, rfl⟩
    obtain ⟨page, hpage, rfl⟩ := List.mem_mapIdx.mp ht
    split
    · cases type <;> decide
    · exact h.types _ (List.getElem_mem hpage)
  · cases hs

end Sas

end SoftPC.Ccpu
