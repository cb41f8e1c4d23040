import Mathlib.Data.BitVec
import Mathlib.Logic.Function.Basic
import Mathlib.Tactic.Common

/-!
# Ccpu/Tlb — the translation lookaside buffer

`base/ccpu386/c_tlb.c`.  The buffer is held twice: as the Intel one (`entries`, four sets of eight
entries), and as a fast table that is asked first — `pageIndex`, which names for a linear page the
set and entry that hold it, and `pageAddress`, which has for each of those an address for every
access the entry grants.  `lin2phy` is the CPU's translation, `xtrn2phy` that of the rest of the
machine.

Page directory and table entries are aligned, so that memory is a map of double words.
-/

namespace SoftPC.Ccpu

abbrev Word := BitVec 32

/-- Bit 0 asks for a write, bit 1 for the user's level. -/
abbrev Access := BitVec 2

structure TlbEntry where
  la : Word := 0
  pa : Word := 0
  v : Bool := false
  d : Bool := false
  mode : Word := 0

/-- The buffer in its two forms. -/
structure Tlb where
  entries : BitVec 2 → BitVec 3 → TlbEntry := fun _ _ => {}
  nextSet : BitVec 3 → BitVec 2 := fun _ => 0
  pageIndex : BitVec 20 → BitVec 8 := fun _ => 0
  pageAddress : BitVec 7 → Word := fun _ => 0

/-- What translation works on: the buffer, memory, and the registers. -/
structure Mmu where
  tlb : Tlb
  memory : Word → Word
  /-- `CR_PDBR`. -/
  pdbr : Word
  /-- `CR_PFLA`. -/
  pfla : Word
  /-- `TR_TCR`. -/
  tcr : Word
  /-- `TR_TDR`. -/
  tdr : Word

/-- What comes of a translation. -/
inductive Translation where
  | physical (address : Word)
  /-- `PF` with its error code. -/
  | pageFault (code : BitVec 16)
  /-- `access_check` is read past its end. -/
  | outOfBounds
  deriving DecidableEq

/-- What `xtrn2phy` returns: an address, or `FALSE`. -/
inductive Mapping where
  | mapped (address : Word)
  | unmapped
  | outOfBounds
  deriving DecidableEq

/-! ## Words -/

/-- `lin >> DIR_TBL_SHIFT`. -/
def pageOf (lin : Word) : BitVec 20 := (lin >>> 12).setWidth 20

/-- Bits 14 to 12. -/
def entryOf (lin : Word) : BitVec 3 := (lin >>> 12).setWidth 3

/-- `lin & ~OFFSET_MASK`. -/
def frameOf (lin : Word) : Word := lin &&& 0xfffff000

/-- `pa | lin & OFFSET_MASK`. -/
def within (pa lin : Word) : Word := pa ||| lin &&& 0xfff

def Access.writes (access : Access) : Bool := access.getLsbD 0

/-- `access_check`: the access fails. -/
def accessCheck : List (List Bool) :=
  [[false, false, false, false],
   [false, false, false, false],
   [true, true, false, false],
   [true, true, true, false]]

/-- `access_check[access][mode]`. -/
def accessFails (access : Access) (mode : Word) : Option Bool := do
  let row ← accessCheck[access.toNat]?
  row[mode.toNat]?

/-- Present, read/write and user/supervisor, accessed, and dirty, of a directory or table entry. -/
def present (entry : Word) : Bool := entry &&& 1 ≠ 0
def writable (entry : Word) : Bool := entry &&& 2 ≠ 0
def user (entry : Word) : Bool := entry &&& 4 ≠ 0
def accessed (entry : Word) : Bool := entry &&& 0x20 ≠ 0
def dirty (entry : Word) : Bool := entry &&& 0x40 ≠ 0

/-- A protection in the buffer's format. -/
def protection (isUser isWritable : Bool) : Word :=
  (if isUser then 2 else 0) ||| (if isWritable then 1 else 0)

/-- `set << PI_SET_SHIFT | entry << PI_ENTRY_SHIFT`. -/
def indexOf (set : BitVec 2) (entry : BitVec 3) : BitVec 8 :=
  set.setWidth 8 <<< 5 ||| entry.setWidth 8 <<< 2

/-- `(pi & PI_SET_ENTRY_MASK) + access`. -/
def addressSlot (pi : BitVec 8) (access : Access) : BitVec 7 :=
  (pi &&& 0x7c).setWidth 7 + access.setWidth 7

/-! ## The buffer -/

namespace Tlb

variable (tlb : Tlb)

/-- An entry takes the place of another, whose page is taken out of the index. -/
def replace (set : BitVec 2) (entry : BitVec 3) (e : TlbEntry) : Tlb :=
  let old := tlb.entries set entry
  { tlb with
    pageIndex := if old.v then Function.update tlb.pageIndex (pageOf old.la) 0 else tlb.pageIndex
    entries := Function.update tlb.entries set (Function.update (tlb.entries set) entry e) }

/-- The four sets, and the eight entries of each, in the order of the loops. -/
def sets : List (BitVec 2) := [0, 1, 2, 3]

def places : List (BitVec 2 × BitVec 3) :=
  sets.flatMap fun set => [0, 1, 2, 3, 4, 5, 6, 7].map fun entry => (set, entry)

/-- `flush_tlb`. -/
def flush : Tlb :=
  places.foldl (fun tlb place => tlb.replace place.1 place.2
    { tlb.entries place.1 place.2 with v := false }) tlb

/-- The search of the fast table. -/
def fastHit (lin : Word) (access : Access) : Option Word :=
  let pi := tlb.pageIndex (pageOf lin)
  if pi ≠ 0 then
    let ma := tlb.pageAddress (addressSlot pi access)
    if ma ≠ 0 then some ma else none
  else none

/-- The search of the Intel one.  An entry that is not dirty does not serve a write. -/
def intelHit (lin : Word) (access : Access) : Option TlbEntry :=
  (sets.map fun set => tlb.entries set (entryOf lin)).find? fun e =>
    e.v && e.la == frameOf lin && (!access.writes || e.d)

/-- `next_set[entry]`, and the buffer with the cursor moved on. -/
def advance (entry : BitVec 3) : Tlb :=
  { tlb with nextSet := Function.update tlb.nextSet entry (tlb.nextSet entry + 1) }

/-- The accesses for which an entry has an address in the fast table. -/
def grants (mode : Word) (d : Bool) (access : Access) : Bool :=
  match access with
  | 0 => true
  | 1 => d
  | 2 => 2 ≤ mode
  | 3 => 2 ≤ mode && mode &&& 1 ≠ 0 && d

/-- The fast table for a new entry: the page in the index, and the four addresses of its place. -/
def enter (set : BitVec 2) (entry : BitVec 3) (e : TlbEntry) : Tlb :=
  let pi := indexOf set entry
  { tlb with
    pageIndex := Function.update tlb.pageIndex (pageOf e.la) (0x80 ||| pi)
    pageAddress := [0, 1, 2, 3].foldl (fun pageAddress access =>
      Function.update pageAddress (addressSlot pi access)
        (if grants e.mode e.d access then e.pa else 0)) tlb.pageAddress }

end Tlb

/-! ## Translation -/

namespace Mmu

variable (m : Mmu)

/-- The address of the directory entry. -/
def pdeAddr (lin : Word) : Word := (m.pdbr &&& 0xfffff000) + ((lin >>> 22 &&& 0x3ff) <<< 2)

/-- The address of the table entry. -/
def pteAddr (pde lin : Word) : Word := (pde &&& 0xfffff000) + ((lin >>> 12 &&& 0x3ff) <<< 2)

/-- `SET_CR(CR_PFLA, lin)`, then `PF`. -/
def fault (lin : Word) (code : BitVec 16) : Translation × Mmu :=
  (.pageFault code, { m with pfla := lin })

/-- An error code: the access, and whether the protection is what fails. -/
def faultCode (access : Access) (isProtection : Bool) : BitVec 16 :=
  access.setWidth 16 <<< 1 ||| if isProtection then 1 else 0

/-- The protection of `lin2phy`: that of the numerically lower entry. -/
def lower (pde pte : Word) : Word :=
  if pde &&& 6 < pte &&& 6 then protection (user pde) (writable pde)
  else protection (user pte) (writable pte)

/-- The protection of `xtrn2phy`. -/
def either (pde pte : Word) : Word := protection (user (pde ||| pte)) (writable (pde &&& pte))

/-- The page entries in memory, with what the access leaves in them. -/
def markEntries (pdeAddr pde pteAddr pte : Word) (isWrite : Bool) : Mmu :=
  let newPde := pde ||| 0x20
  let newPte := pte ||| 0x20 ||| if isWrite then 0x40 else 0
  let memory := if newPte ≠ pte then Function.update m.memory pteAddr newPte else m.memory
  { m with memory := if newPde ≠ pde then Function.update memory pdeAddr newPde else memory }

/-- `lin2phy` after a miss: the walk, and the new entry. -/
def walk (lin : Word) (access : Access) : Translation × Mmu :=
  let pdeAddr := m.pdeAddr lin
  let pde := m.memory pdeAddr
  if !present pde then m.fault lin (faultCode access false)
  else
    let pteAddr := pteAddr pde lin
    let pte := m.memory pteAddr
    if !present pte then m.fault lin (faultCode access false)
    else
      match accessFails access (lower pde pte) with
      | none => (.outOfBounds, m)
      | some true => m.fault lin (faultCode access true)
      | some false =>
        let entry := entryOf lin
        let set := m.tlb.nextSet entry
        let e : TlbEntry :=
          { la := frameOf lin, v := true, mode := lower pde pte, pa := frameOf pte,
            d := access.writes }
        let tlb := (((m.tlb.advance entry).replace set entry e).enter set entry e)
        (.physical (within e.pa lin),
          { m with tlb }.markEntries pdeAddr pde pteAddr pte access.writes)

def lin2phy (lin : Word) (access : Access) : Translation × Mmu :=
  match m.tlb.fastHit lin access with
  | some ma => (.physical (within ma lin), m)
  | none =>
    match m.tlb.intelHit lin access with
    | some e =>
      match accessFails access e.mode with
      | none => (.outOfBounds, m)
      | some true => m.fault lin (faultCode access true)
      | some false => (.physical (within e.pa lin), m)
    | none => m.walk lin access

/-- `xtrn2phy`; bit 2 of the request asks for the accessed and dirty bits to be set. -/
def xtrn2phy (lin : Word) (request : BitVec 3) : Mapping × Mmu :=
  let access : Access := request.setWidth 2
  match m.tlb.fastHit lin access with
  | some ma => (.mapped (within ma lin), m)
  | none =>
    match m.tlb.intelHit lin access with
    | some e =>
      match accessFails access e.mode with
      | none => (.outOfBounds, m)
      | some true => (.unmapped, m)
      | some false => (.mapped (within e.pa lin), m)
    | none =>
      let pdeAddr := m.pdeAddr lin
      let pde := m.memory pdeAddr
      if !present pde then (.unmapped, m)
      else
        let pteAddr := pteAddr pde lin
        let pte := m.memory pteAddr
        if !present pte then (.unmapped, m)
        else
          match accessFails access (either pde pte) with
          | none => (.outOfBounds, m)
          | some true => (.unmapped, m)
          | some false =>
            let touched := request.getLsbD 2 &&
              (!accessed pde || !accessed pte || access.writes && !dirty pte)
            (.mapped (within (frameOf pte) lin),
              if touched then m.markEntries pdeAddr pde pteAddr pte access.writes else m)

def flushTlb : Mmu := { m with tlb := m.tlb.flush }

/-- `test_tlb`: bit 0 of the command looks an entry up, else one is written. -/
def testTlb : Mmu :=
  let tcr := m.tcr
  let tdr := m.tdr
  let entry := entryOf tcr
  if tcr.getLsbD 0 then
    match Tlb.sets.find? fun set =>
        let e := m.tlb.entries set entry
        e.v == tcr.getLsbD 11 && e.la == frameOf tcr with
    | some set =>
      let e := m.tlb.entries set entry
      { m with
        tdr := e.pa ||| 0x10 ||| set.setWidth 32 <<< 2
        tcr := tcr &&& ~~~0x7e0 ||| (if e.d then 0x400 else 0x200) |||
          (if e.mode &&& 2 ≠ 0 then 0x100 else 0x80) ||| if e.mode &&& 1 ≠ 0 then 0x40 else 0x20 }
    | none => { m with tdr := tdr &&& ~~~0x10 }
  else
    let set := if tdr.getLsbD 4 then (tdr >>> 2).setWidth 2 else m.tlb.nextSet entry
    let tlb := if tdr.getLsbD 4 then m.tlb else m.tlb.advance entry
    let e : TlbEntry :=
      { pa := frameOf tdr, la := frameOf tcr, v := tcr.getLsbD 11, d := tcr.getLsbD 10,
        mode := protection (tcr.getLsbD 8) (tcr.getLsbD 6) }
    { m with tlb := tlb.replace set entry e }

end Mmu

end SoftPC.Ccpu
