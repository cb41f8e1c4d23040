import SoftPC.Ccpu.Tlb
import SoftPC.Machinery.Faulting

/-!
# Ccpu/Segments — descriptors, and the registers that hold them

`base/ccpu386/c_bsic.c`, `c_seg.c` and `c_prot.c`: what a selector and the access rights of a
descriptor say, the segment registers with their hidden halves, and the checks made before one is
loaded.  A fault leaves the registers and memory as they are at that point; the code `xcode` that
goes with it is never read, and is left out.

Memory is reached through the operations of `c_page.c`, which check an access against the page
tables, mark what they pass, and may fault.  They are a parameter, `Bus`: nothing here depends on
what they do.
-/

namespace SoftPC.Ccpu

/-- A level of privilege; `CCPU_CPL` and `ar_dpl` are only ever given two bits. -/
abbrev Ring := BitVec 2

abbrev Selector := BitVec 16

/-- Access rights, as `CPU_DESCR` has them. -/
abbrev Rights := BitVec 16

/-! ## Fields of selectors and of access rights -/

/-- `GET_SELECTOR_RPL`. -/
def selectorRpl (sel : Selector) : Ring := sel.setWidth 2

def setSelectorRpl (sel : Selector) (level : Ring) : Selector := sel &&& ~~~3 ||| level.setWidth 16

/-- `GET_SELECTOR_TI`. -/
def selectorTi (sel : Selector) : Bool := sel.getLsbD 2

/-- `GET_SELECTOR_INDEX_TIMES8`. -/
def selectorIndexTimes8 (sel : Selector) : BitVec 16 := sel &&& 0xfff8

def selectorIsNull (sel : Selector) : Bool := selectorIndexTimes8 sel >>> 3 = 0 && !selectorTi sel

/-- `GET_AR_DPL`. -/
def arDpl (ar : Rights) : Ring := ((ar &&& 0x60) >>> 5).setWidth 2

/-- `GET_AR_P`. -/
def arP (ar : Rights) : Bool := ar.getLsbD 7

/-- `GET_AR_E`, of a data segment; `GET_AR_C`, of a code segment. -/
def arE (ar : Rights) : Bool := ar.getLsbD 2
def arC (ar : Rights) : Bool := ar.getLsbD 2

/-- `GET_AR_W`, of a data segment; `GET_AR_R`, of a code segment. -/
def arW (ar : Rights) : Bool := ar.getLsbD 1
def arR (ar : Rights) : Bool := ar.getLsbD 1

/-- `GET_AR_X`. -/
def arX (ar : Rights) : Bool := ar.getLsbD 14

/-- `ACCESSED`. -/
def accessedBit : Rights := 1

/-- The 'super' types of descriptors. -/
inductive Super where
  | invalid
  | availableTss | ldtSegment | busyTss | callGate | taskGate | interruptGate | trapGate
  | xtndAvailableTss | xtndBusyTss | xtndCallGate | xtndInterruptGate | xtndTrapGate
  | expandUpReadonlyData | expandUpWriteableData | expandDownReadonlyData | expandDownWriteableData
  | nonconformNoreadCode | nonconformReadableCode | conformNoreadCode | conformReadableCode
  deriving DecidableEq

/-- `descriptor_super_type`: a segment of code or data is typed as if it had been accessed. -/
def descriptorSuperType (ar : Rights) : Super :=
  match (ar &&& 0x1f).toNat with
  | 0x1 => .availableTss
  | 0x2 => .ldtSegment
  | 0x3 => .busyTss
  | 0x4 => .callGate
  | 0x5 => .taskGate
  | 0x6 => .interruptGate
  | 0x7 => .trapGate
  | 0x9 => .xtndAvailableTss
  | 0xb => .xtndBusyTss
  | 0xc => .xtndCallGate
  | 0xe => .xtndInterruptGate
  | 0xf => .xtndTrapGate
  | 0x10 | 0x11 => .expandUpReadonlyData
  | 0x12 | 0x13 => .expandUpWriteableData
  | 0x14 | 0x15 => .expandDownReadonlyData
  | 0x16 | 0x17 => .expandDownWriteableData
  | 0x18 | 0x19 => .nonconformNoreadCode
  | 0x1a | 0x1b => .nonconformReadableCode
  | 0x1c | 0x1d => .conformNoreadCode
  | 0x1e | 0x1f => .conformReadableCode
  | _ => .invalid

/-! ## The registers -/

/-- `SEGMENT_REGISTER`. -/
structure Segment where
  selector : Selector := 0
  dpl : Ring := 0
  e : Bool := false
  r : Bool := false
  w : Bool := false
  c : Bool := false
  x : Bool := false
  base : Word := 0
  limit : Word := 0
  deriving DecidableEq

inductive SegReg where
  | es | cs | ss | ds | fs | gs
  deriving DecidableEq

/-- `SYSTEM_TABLE_ADDRESS_REGISTER`: GDTR and IDTR. -/
structure TableRegister where
  base : Word := 0
  limit : BitVec 16 := 0

/-- `SYSTEM_ADDRESS_REGISTER`: LDTR and TR. -/
structure SystemRegister where
  selector : Selector := 0
  super : Super := .invalid
  base : Word := 0
  limit : Word := 0

/-- The registers that protection is decided by. -/
structure Protection where
  pe : Bool
  vm : Bool
  cpl : Ring
  sr : SegReg → Segment
  gdt : TableRegister
  idt : TableRegister
  ldt : SystemRegister
  tr : SystemRegister

/-- `CCPU_FLAGS` but for VM. -/
structure Flags where
  cf : Bool := false
  pf : Bool := false
  af : Bool := false
  zf : Bool := false
  sf : Bool := false
  tf : Bool := false
  /-- IF. -/
  interrupt : Bool := false
  df : Bool := false
  of : Bool := false
  iopl : BitVec 2 := 0
  nt : Bool := false
  rf : Bool := false

/-- The size of operands, USE16 or USE32. -/
inductive OperandSize where
  | use16 | use32
  deriving DecidableEq

structure Registers extends Protection where
  eip : Word
  esp : Word
  ebp : Word
  flags : Flags
  operandSize : OperandSize
  /-- EXT: what is being delivered comes from outside. -/
  ext : Bool := false
  doingFault : Bool := false
  doingContributory : Bool := false
  doingPageFault : Bool := false
  doingDoubleFault : Bool := false

/-- The exceptions that are taken here, with the selector, vector or error code they name. -/
inductive Fault where
  | gp (sel : Selector)
  | np (sel : Selector)
  | sf (sel : Selector)
  | ts (sel : Selector)
  | gpInt (vector : BitVec 16)
  | npInt (vector : BitVec 16)
  | pf (code : BitVec 16)
  deriving DecidableEq

/-! ## Memory -/

/-- The width of an access. -/
inductive Width where
  | byte | word | dword
  deriving DecidableEq

/-- Its bits. -/
abbrev Width.bits : Width → ℕ
  | .byte => 8
  | .word => 16
  | .dword => 32

/-- The operations of `c_page.c` on a memory, its page tables included.  `spr` accesses are the
supervisor's; `usr` checks are at the level given; `vir` accesses follow a check. -/
structure Bus (M : Type) where
  phyReadWord : Word → EStateM Fault M (BitVec 16)
  sprRead : (w : Width) → Word → EStateM Fault M (BitVec w.bits)
  sprWriteByte : Word → BitVec 8 → EStateM Fault M PUnit
  sprChk : Width → Word → (isWrite : Bool) → EStateM Fault M PUnit
  usrChk : Width → Ring → Word → (isWrite : Bool) → EStateM Fault M PUnit
  virRead : (w : Width) → Word → EStateM Fault M (BitVec w.bits)
  virWrite : (w : Width) → Word → BitVec w.bits → EStateM Fault M PUnit

structure State (M : Type) where
  regs : Registers
  mem : M

/-- What the processor does. -/
abbrev Exec (M : Type) := EStateM Fault (State M)

variable {M : Type} {α : Type}

/-- An access to memory. -/
def onMemory (x : EStateM Fault M α) : Exec M α := fun s =>
  match x s.mem with
  | .ok a m => .ok a { s with mem := m }
  | .error e m => .error e { s with mem := m }

def getRegs : Exec M Registers := do return (← get).regs

def setRegs (f : Registers → Registers) : Exec M PUnit := modify fun s => { s with regs := f s.regs }

/-- The registers with one segment register changed. -/
def Registers.setSegment (regs : Registers) (reg : SegReg) (f : Segment → Segment) : Registers :=
  { regs with sr := Function.update regs.sr reg (f (regs.sr reg)) }

section

variable (bus : Bus M)

/-- `spr_read_byte` of access rights, as a word. -/
def readRights (descrAddr : Word) : Exec M Rights := do
  let ar ← onMemory (bus.sprRead .byte (descrAddr + 5))
  return ar.setWidth 16

/-- `selector_outside_GDT`, with the address of the descriptor. -/
def selectorInGdt (p : Protection) (sel : Selector) : Option Word :=
  let offset := selectorIndexTimes8 sel
  if selectorTi sel ∨ offset = 0 ∨ offset.toNat + 7 > p.gdt.limit.toNat then none
  else some (p.gdt.base + offset.setWidth 32)

/-- `selector_outside_GDT_LDT`, with the address of the descriptor. -/
def selectorInGdtLdt (p : Protection) (sel : Selector) : Option Word :=
  let offset := selectorIndexTimes8 sel
  if selectorTi sel = false then
    if offset = 0 ∨ offset.toNat + 7 > p.gdt.limit.toNat then none
    else some (p.gdt.base + offset.setWidth 32)
  else
    if p.ldt.selector.toNat ≤ 3 ∨ offset.toNat + 7 > p.ldt.limit.toNat then none
    else some (p.ldt.base + offset.setWidth 32)

/-- `CPU_DESCR`. -/
structure Descr where
  base : Word := 0
  limit : Word := 0
  ar : Rights := 0

def readDescriptorLinear (addr : Word) : Exec M Descr := do
  let first ← onMemory (bus.sprRead .dword addr)
  let second ← onMemory (bus.sprRead .dword (addr + 4))
  let limit := first &&& 0xffff ||| second &&& 0xf0000
  return {
    ar := (second >>> 8).setWidth 16
    base := first >>> 16 ||| second <<< 16 &&& 0xff0000 ||| second &&& 0xff000000
    -- Limits of page granularity are converted to bytes.
    limit := if second.getLsbD 23 then limit <<< 12 ||| 0xfff else limit }

/-! ## Loading segment registers (`c_seg.c`) -/

/-- The hidden half that Real Mode and V86 Mode give a segment register, but for its base and limit. -/
def pseudoRights (vm : Bool) (seg : Segment) : Segment :=
  { seg with w := true, r := true, e := false, c := false, x := false, dpl := if vm then 3 else 0 }

/-- CS as a descriptor in protected mode gives it. -/
def codeSegment (sel : Selector) (entry : Descr) : Segment :=
  let ar := entry.ar ||| accessedBit
  { selector := sel, base := entry.base, limit := entry.limit
    dpl := arDpl ar, r := arR ar, c := arC ar, x := arX ar, e := false, w := false }

/-- SS as a descriptor gives it. -/
def stackSegment (sel : Selector) (entry : Descr) : Segment :=
  let ar := entry.ar ||| accessedBit
  { selector := sel, base := entry.base, limit := entry.limit
    dpl := arDpl ar, e := arE ar, x := arX ar, w := true, r := true, c := false }

/-- A segment that has been loaded is marked in its descriptor. -/
def markAccessed (descrAddr : Word) (entry : Descr) : Exec M PUnit :=
  onMemory (bus.sprWriteByte (descrAddr + 5) ((entry.ar ||| accessedBit).setWidth 8))

def loadCsCache (sel : Selector) (descrAddr : Word) (entry : Descr) : Exec M PUnit := do
  let regs ← getRegs
  if !regs.pe || regs.vm then
    -- The limit is untouched.
    setRegs fun regs => regs.setSegment .cs fun cs =>
      pseudoRights regs.vm { cs with selector := sel, base := sel.setWidth 32 <<< 4 }
  else do
    markAccessed bus descrAddr entry
    setRegs fun regs => regs.setSegment .cs fun _ => codeSegment sel entry

def loadSsCache (sel : Selector) (descrAddr : Word) (entry : Descr) : Exec M PUnit := do
  markAccessed bus descrAddr entry
  setRegs fun regs => regs.setSegment .ss fun _ => stackSegment sel entry

/-- A data segment register loaded from the descriptor it has been checked against. -/
def loadData (reg : SegReg) (sel : Selector) (descrAddr : Word) (entry : Descr) (isData : Bool) :
    Exec M PUnit := do
  let ar := entry.ar ||| accessedBit
  markAccessed bus descrAddr entry
  setRegs fun regs => regs.setSegment reg fun _ =>
    { selector := sel, base := entry.base, limit := entry.limit, dpl := arDpl ar
      w := isData && arW ar, e := isData && arE ar, c := !isData && arC ar, x := arX ar, r := true }

def loadDataSeg (reg : SegReg) (sel : Selector) : Exec M PUnit := do
  let regs ← getRegs
  if !regs.pe || regs.vm then
    setRegs fun regs => regs.setSegment reg fun seg =>
      { seg with selector := sel, base := sel.setWidth 32 <<< 4 }
  else if selectorIsNull sel then
    setRegs fun regs => regs.setSegment reg fun seg =>
      { seg with selector := sel, base := 0, limit := 0, w := false, r := false }
  else do
    let descrAddr ← found (selectorInGdtLdt regs.toProtection sel) (.gp sel)
    let entry ← readDescriptorLinear bus descrAddr
    let dpl := arDpl entry.ar
    match descriptorSuperType entry.ar with
    | .conformReadableCode => do
      faultIf (!arP entry.ar) (.np sel)
      loadData bus reg sel descrAddr entry false
    | .nonconformReadableCode => do
      faultIf (regs.cpl > dpl ∨ selectorRpl sel > dpl) (.gp sel)
      faultIf (!arP entry.ar) (.np sel)
      loadData bus reg sel descrAddr entry false
    | .expandUpReadonlyData | .expandUpWriteableData
    | .expandDownReadonlyData | .expandDownWriteableData => do
      faultIf (regs.cpl > dpl ∨ selectorRpl sel > dpl) (.gp sel)
      faultIf (!arP entry.ar) (.np sel)
      loadData bus reg sel descrAddr entry true
    | _ => throw (.gp sel)

def loadPseudoDescr (reg : SegReg) : Exec M PUnit :=
  setRegs fun regs => regs.setSegment reg fun seg => pseudoRights regs.vm { seg with limit := 0xffff }

/-! ## Checks (`c_prot.c`) -/

def checkSs (sel : Selector) (privilege : Ring) : Exec M (Word × Descr) := do
  let regs ← getRegs
  let descrAddr ← found (selectorInGdtLdt regs.toProtection sel) (.gp sel)
  let entry ← readDescriptorLinear bus descrAddr
  faultIf (descriptorSuperType entry.ar ≠ .expandUpWriteableData ∧
    descriptorSuperType entry.ar ≠ .expandDownWriteableData) (.gp sel)
  faultIf (selectorRpl sel ≠ privilege ∨ arDpl entry.ar ≠ privilege) (.gp sel)
  faultIf (!arP entry.ar) (.sf sel)
  return (descrAddr, entry)

def loadStackSeg (sel : Selector) : Exec M PUnit := do
  let regs ← getRegs
  if !regs.pe || regs.vm then
    setRegs fun regs => regs.setSegment .ss fun ss =>
      { ss with selector := sel, base := sel.setWidth 32 <<< 4 }
  else do
    let checked ← checkSs bus sel regs.cpl
    loadSsCache bus sel checked.1 checked.2

/-- Where a 286 or 386 TSS has the stack of a level; a stack is only asked for below level 3. -/
def tssStack16 (priv : Ring) : Word := if priv = 0 then 0x02 else if priv = 1 then 0x06 else 0x0a
def tssStack32 (priv : Ring) : Word := if priv = 0 then 0x04 else if priv = 1 then 0x0c else 0x14

def getStackSelectorFromTss (priv : Ring) : Exec M (Selector × Word) := do
  let regs ← getRegs
  if regs.tr.super = .busyTss then do
    let address := regs.tr.base + tssStack16 priv
    let sp ← onMemory (bus.sprRead .word address)
    let ss ← onMemory (bus.sprRead .word (address + 2))
    return (ss, sp.setWidth 32)
  else do
    let address := regs.tr.base + tssStack32 priv
    let sp ← onMemory (bus.sprRead .dword address)
    let ss ← onMemory (bus.sprRead .word (address + 4))
    return (ss, sp)

def validateSsOnStackChange (priv : Ring) (sel : Selector) : Exec M (Word × Descr) := do
  let regs ← getRegs
  let descrAddr ← found (selectorInGdtLdt regs.toProtection sel) (.ts sel)
  let entry ← readDescriptorLinear bus descrAddr
  faultIf (selectorRpl sel ≠ priv ∨ arDpl entry.ar ≠ priv) (.ts sel)
  faultIf (descriptorSuperType entry.ar ≠ .expandUpWriteableData ∧
    descriptorSuperType entry.ar ≠ .expandDownWriteableData) (.ts sel)
  faultIf (!arP entry.ar) (.sf sel)
  return (descrAddr, entry)

/-- `validate_TSS`, of a task that is returned to. -/
def validateTss (sel : Selector) : Exec M Word := do
  let regs ← getRegs
  let descrAddr ← found (selectorInGdt regs.toProtection sel) (.ts sel)
  let ar ← readRights bus descrAddr
  faultIf (descriptorSuperType ar ≠ .busyTss ∧ descriptorSuperType ar ≠ .xtndBusyTss) (.ts sel)
  faultIf (!arP ar) (.np sel)
  return descrAddr

end

/-- What `load_data_seg_new_privilege` asks of a register that it leaves alone. -/
def Protection.validAtNewPrivilege (p : Protection) (seg : Segment) : Bool :=
  (selectorInGdtLdt p seg.selector).isSome &&
    (seg.c || (decide (p.cpl ≤ seg.dpl) && decide (selectorRpl seg.selector ≤ seg.dpl)))

def loadDataSegNewPrivilege (reg : SegReg) : Exec M PUnit :=
  setRegs fun regs => regs.setSegment reg fun seg =>
    if regs.validAtNewPrivilege seg then seg
    else { seg with selector := 0, w := false, r := false, base := 0, limit := 0 }

end SoftPC.Ccpu
