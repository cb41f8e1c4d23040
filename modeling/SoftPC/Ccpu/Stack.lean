import SoftPC.Ccpu.Segments

/-!
# Ccpu/Stack — the stack, and the flags

`base/ccpu386/c_stack.c`, `limit_check` of `c_addr.c` and the flag images of `c_bsic.c`.  The stack
segment's 'B' bit says which half of ESP is the stack pointer, the operand size how wide an item is.
-/

namespace SoftPC.Ccpu

/-! ## The stack pointer -/

/-- The bytes of a stack item. -/
def OperandSize.bytes : OperandSize → Word
  | .use16 => 2
  | .use32 => 4

/-- Its width. -/
def OperandSize.width : OperandSize → Width
  | .use16 => .word
  | .use32 => .dword

namespace Registers

variable (regs : Registers)

/-- `SET_SP`, which leaves the upper half. -/
def setSp (sp : Word) : Registers := { regs with esp := regs.esp &&& 0xffff0000 ||| sp &&& 0xffff }

def setCurrentSp (sp : Word) : Registers :=
  if (regs.sr .ss).x then { regs with esp := sp } else regs.setSp sp

def getStackPointer : Word := if (regs.sr .ss).x then regs.esp else regs.esp &&& 0xffff

def getCurrentBp : Word := if (regs.sr .ss).x then regs.ebp else regs.ebp &&& 0xffff

def byteChangeSp (delta : Word) : Registers :=
  if (regs.sr .ss).x then { regs with esp := regs.esp + delta } else regs.setSp (regs.esp + delta)

def changeSp (items : Word) : Registers := regs.byteChangeSp (items * regs.operandSize.bytes)

/-- Offsets of a stack that is not big wrap at 64K. -/
def wrapOffset (offset : Word) : Word := if (regs.sr .ss).x then offset else offset &&& 0xffff

/-- What `limit_check` finds wrong with `nrItems` of `opSz` bytes from `offset`. -/
def badLimit (seg : Segment) (offset nrItems opSz : Word) : Bool :=
  let range := nrItems * opSz - 1
  if seg.e then
    -- Expand down.
    let segmentTop : Word := if seg.x then 0xffffffff else 0xffff
    offset ≤ seg.limit || offset > segmentTop - range
  else
    -- Expand up; items that are aligned may wrap around a full-sized segment.
    offset > seg.limit || seg.limit < range ||
      (offset > seg.limit - range &&
        (offset % opSz ≠ 0 || if seg.x then seg.limit ≠ 0xffffffff else seg.limit ≠ 0xffff))

end Registers

variable {M : Type} (bus : Bus M)

/-- `limit_check`: limits are only taken in protected mode. -/
def limitCheck (reg : SegReg) (offset nrItems opSz : Word) : Exec M PUnit := do
  let regs ← getRegs
  faultIf (regs.pe ∧ !regs.vm ∧ Registers.badLimit (regs.sr reg) offset nrItems opSz)
    (if reg = .ss then .sf 0 else .gp 0)

/-! ## Items -/

def spop : Exec M Word := do
  let regs ← getRegs
  let val ← onMemory (bus.virRead regs.operandSize.width ((regs.sr .ss).base + regs.getStackPointer))
  setRegs fun regs => regs.byteChangeSp regs.operandSize.bytes
  return val.setWidth 32

def spush (data : Word) : Exec M PUnit := do
  setRegs fun regs => regs.byteChangeSp (-regs.operandSize.bytes)
  let regs ← getRegs
  onMemory (bus.virWrite regs.operandSize.width ((regs.sr .ss).base + regs.getStackPointer)
    (data.setWidth _))

/-- `spush16`: a word, in an item of the operand size. -/
def spush16 (data : Selector) : Exec M PUnit := do
  setRegs fun regs => regs.byteChangeSp (-regs.operandSize.bytes)
  let regs ← getRegs
  onMemory (bus.virWrite .word ((regs.sr .ss).base + regs.getStackPointer) data)

/-- `tpop`: an item of the stack as it is. -/
def tpop (item byteOffset : Word) : Exec M Word := do
  let regs ← getRegs
  let offset := regs.wrapOffset (regs.getStackPointer + (item * regs.operandSize.bytes + byteOffset))
  let val ← onMemory (bus.virRead regs.operandSize.width ((regs.sr .ss).base + offset))
  return val.setWidth 32

/-- Several items off the stack. -/
def spopMany : ℕ → Exec M (List Word)
  | 0 => return []
  | n + 1 => do
    let val ← spop bus
    let vals ← spopMany n
    return val :: vals

/-- Several onto it, the last first. -/
def spushMany : List Word → Exec M PUnit
  | [] => return ⟨⟩
  | val :: vals => do
    spushMany vals
    spush bus val

/-! ## Checks -/

/-- The paging unit's checks of `n` items of the current stack from `offset`. -/
def usrChkItems (isWrite : Bool) : ℕ → Word → Exec M PUnit
  | 0, _ => return ⟨⟩
  | n + 1, offset => do
    let regs ← getRegs
    onMemory (bus.usrChk regs.operandSize.width regs.cpl ((regs.sr .ss).base + offset) isWrite)
    usrChkItems isWrite n (regs.wrapOffset (offset + regs.operandSize.bytes))

/-- …and those of `n` items of a stack that is not yet current. -/
def sprChkItems (base : Word) : ℕ → Word → Exec M PUnit
  | 0, _ => return ⟨⟩
  | n + 1, offset => do
    let regs ← getRegs
    onMemory (bus.sprChk regs.operandSize.width (base + offset) true)
    sprChkItems base n (offset + regs.operandSize.bytes)

def validateNewStackSpace (nrItems stackTop : Word) (entry : Descr) : Exec M PUnit := do
  let regs ← getRegs
  let bytes := nrItems * regs.operandSize.bytes
  let upper : Word := if arX entry.ar then 0xffffffff else 0xffff
  faultIf (if arE entry.ar then stackTop ≤ entry.limit + bytes ∨ stackTop - 1 > upper
    else stackTop < bytes ∨ stackTop - 1 > entry.limit) (.sf 0)
  sprChkItems bus entry.base nrItems.toNat (stackTop - bytes)

/-- What something wrong with the current stack raises. -/
def stackFault (p : Protection) : Fault := if !p.pe || p.vm then .gp 0 else .sf 0

def validateStackExists (useBp : Bool) (nrItems : Word) : Exec M PUnit := do
  let regs ← getRegs
  let offset := if useBp then regs.getCurrentBp else regs.getStackPointer
  faultIf (!(regs.sr .ss).r) (stackFault regs.toProtection)
  limitCheck .ss offset nrItems regs.operandSize.bytes
  usrChkItems bus false nrItems.toNat offset

def validateStackSpace (useBp : Bool) (nrItems : Word) : Exec M PUnit := do
  let regs ← getRegs
  let top := if useBp then regs.getCurrentBp else regs.getStackPointer
  let offset := regs.wrapOffset (top - nrItems * regs.operandSize.bytes)
  faultIf (!(regs.sr .ss).w) (stackFault regs.toProtection)
  limitCheck .ss offset nrItems regs.operandSize.bytes
  usrChkItems bus true nrItems.toNat offset

/-! ## Flags -/

/-- A flag in its place. -/
def flagBit (b : Bool) (i : ℕ) : Word := if b then 1 <<< i else 0

/-- `getFLAGS`. -/
def Flags.image (f : Flags) : Word :=
  flagBit f.nt 14 ||| f.iopl.setWidth 32 <<< 12 ||| flagBit f.of 11 ||| flagBit f.df 10 |||
    flagBit f.interrupt 9 ||| flagBit f.tf 8 ||| flagBit f.sf 7 ||| flagBit f.zf 6 |||
    flagBit f.af 4 ||| flagBit f.pf 2 ||| flagBit f.cf 0 ||| 0x2

namespace Registers

variable (regs : Registers)

/-- `c_getEFLAGS`. -/
def getEflags : Word := regs.flags.image ||| flagBit regs.vm 17 ||| flagBit regs.flags.rf 16

/-- `setFLAGS`: IF changes where IOPL allows it, IOPL at level 0. -/
def setFlags (flags : Word) : Registers :=
  { regs with flags := { regs.flags with
      cf := flags.getLsbD 0, pf := flags.getLsbD 2, af := flags.getLsbD 4, zf := flags.getLsbD 6
      sf := flags.getLsbD 7, tf := flags.getLsbD 8, df := flags.getLsbD 10, of := flags.getLsbD 11
      interrupt := if regs.cpl ≤ regs.flags.iopl then flags.getLsbD 9 else regs.flags.interrupt
      nt := flags.getLsbD 14
      iopl := if regs.cpl = 0 then (flags >>> 12).setWidth 2 else regs.flags.iopl } }

/-- `c_setEFLAGS`: VM changes at level 0. -/
def setEflags (flags : Word) : Registers :=
  { regs.setFlags flags with
    flags := { (regs.setFlags flags).flags with rf := flags.getLsbD 16 }
    vm := if regs.cpl = 0 then flags.getLsbD 17 else regs.vm }

def setCurrentFlags (flags : Word) : Registers :=
  match regs.operandSize with
  | .use16 => regs.setFlags flags
  | .use32 => regs.setEflags flags

end Registers

end SoftPC.Ccpu
