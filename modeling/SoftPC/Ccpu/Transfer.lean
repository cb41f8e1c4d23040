import SoftPC.Ccpu.Stack

/-!
# Ccpu/Transfer — far transfers of control

`CALLF`, `JMPF`, `RETF`, `IRET` and `do_intrupt` (`base/ccpu386/call.c`, `jmp.c`, `ret.c`, `iret.c`,
`c_intr.c`), with the destinations they share (`c_xfer.c`).  A transfer to a new task goes on in
`switch_tasks`, which is a parameter.
-/

namespace SoftPC.Ccpu

/-- `dest_type`: the level of `MORE_PRIVILEGE`, or one of the others. -/
inductive DestType where
  | morePrivilege (dpl : Ring)
  | sameLevel
  | newTask
  deriving DecidableEq

inductive CallerId where
  | call | jmp | int
  deriving DecidableEq

/-- `switch_tasks`: whether the task returns or nests, the selector and address of the TSS, and the
IP to return to. -/
abbrev SwitchTasks (M : Type) := (returning nesting : Bool) → Selector → Word → Word → Exec M PUnit

variable {M : Type} (bus : Bus M)

/-! ## Destinations -/

/-- The type and access of the code segment that a gate leads to. -/
def checkGateDest (caller : CallerId) (cpl : Ring) (newCs : Selector) (ar : Rights) : Exec M DestType :=
  match descriptorSuperType ar with
  | .conformNoreadCode | .conformReadableCode => do
    faultIf (arDpl ar > cpl) (.gp newCs)
    return .sameLevel
  | .nonconformNoreadCode | .nonconformReadableCode => do
    faultIf (arDpl ar > cpl) (.gp newCs)
    faultIf (caller = .jmp ∧ arDpl ar ≠ cpl) (.gp newCs)
    return if arDpl ar < cpl then .morePrivilege (arDpl ar) else .sameLevel
  | _ => throw (.gp newCs)

def validateGateDest (caller : CallerId) (newCs : Selector) : Exec M (Word × DestType) := do
  let regs ← getRegs
  let descrAddr ← found (selectorInGdtLdt regs.toProtection newCs) (.gp newCs)
  let ar ← readRights bus descrAddr
  let destType ← checkGateDest caller regs.cpl newCs ar
  -- An interrupt of V86 Mode goes to level 0, by a 32-bit gate.
  faultIf (regs.vm ∧ (destType ≠ .morePrivilege 0 ∨ regs.operandSize ≠ .use32)) (.gp newCs)
  faultIf (!arP ar) (.np newCs)
  return (descrAddr, destType)

/-- `validate_task_dest`: the address of the TSS, and its type. -/
def validateTaskDest (sel : Selector) : Exec M (Word × Super) := do
  let regs ← getRegs
  let descrAddr ← found (selectorInGdt regs.toProtection sel) (.gp sel)
  let ar ← readRights bus descrAddr
  let super := descriptorSuperType ar
  faultIf (super ≠ .availableTss ∧ super ≠ .xtndAvailableTss) (.gp sel)
  faultIf (!arP ar) (.np sel)
  return (descrAddr, super)

/-- Where a far call or jump goes. -/
structure FarDest where
  cs : Selector
  ip : Word
  descrAddr : Word
  count : BitVec 8 := 0
  destType : DestType

/-- `read_call_gate`: selector, offset and count; the gate's size becomes the operand size. -/
def readCallGate (descrAddr : Word) (super : Super) : Exec M (Selector × Word × BitVec 8) := do
  let first ← onMemory (bus.sprRead .dword descrAddr)
  let second ← onMemory (bus.sprRead .dword (descrAddr + 4))
  let sel := (first >>> 16).setWidth 16
  if super = .xtndCallGate then do
    setRegs fun regs => { regs with operandSize := .use32 }
    return (sel, second &&& ~~~0xffff ||| first &&& 0xffff, second.setWidth 8 &&& 0x0f)
  else do
    setRegs fun regs => { regs with operandSize := .use16 }
    return (sel, first &&& 0xffff, second.setWidth 8 &&& 0x1f)

/-- The check of a gate or TSS that is addressed directly: DPL >= RPL and DPL >= CPL. -/
def checkGate (cpl : Ring) (sel : Selector) (ar : Rights) : Exec M PUnit := do
  faultIf (selectorRpl sel > arDpl ar ∨ cpl > arDpl ar) (.gp sel)
  faultIf (!arP ar) (.np sel)

/-- The destination in a call gate. -/
def followCallGate (caller : CallerId) (gateAddr : Word) (super : Super) : Exec M FarDest := do
  let gate ← readCallGate bus gateAddr super
  let dest ← validateGateDest bus caller gate.1
  return { cs := gate.1, ip := gate.2.1, descrAddr := dest.1, count := gate.2.2, destType := dest.2 }

def validateFarDest (cs : Selector) (ip : Word) (caller : CallerId) : Exec M FarDest := do
  let regs ← getRegs
  let descrAddr ← found (selectorInGdtLdt regs.toProtection cs) (.gp cs)
  let ar ← readRights bus descrAddr
  match descriptorSuperType ar with
  | .conformNoreadCode | .conformReadableCode => do
    faultIf (arDpl ar > regs.cpl) (.gp cs)
    faultIf (!arP ar) (.np cs)
    return { cs, ip, descrAddr, destType := .sameLevel }
  | .nonconformNoreadCode | .nonconformReadableCode => do
    faultIf (selectorRpl cs > regs.cpl ∨ arDpl ar ≠ regs.cpl) (.gp cs)
    faultIf (!arP ar) (.np cs)
    return { cs, ip, descrAddr, destType := .sameLevel }
  | .callGate | .xtndCallGate => do
    checkGate regs.cpl cs ar
    followCallGate bus caller descrAddr (descriptorSuperType ar)
  | .taskGate => do
    checkGate regs.cpl cs ar
    let newCs ← onMemory (bus.sprRead .word (descrAddr + 2))
    let task ← validateTaskDest bus newCs
    return { cs := newCs, ip, descrAddr := task.1, destType := .newTask }
  | .availableTss | .xtndAvailableTss => do
    faultIf (selectorTi cs) (.gp cs)
    checkGate regs.cpl cs ar
    return { cs, ip, descrAddr, destType := .newTask }
  | _ => throw (.gp cs)

/-- Where an interrupt goes, and the type of its gate. -/
structure IntDest where
  cs : Selector
  ip : Word
  descrAddr : Word
  destType : DestType
  super : Super

/-- The size that a gate of the IDT sets. -/
def setGateSize : Super → Exec M PUnit
  | .xtndInterruptGate | .xtndTrapGate | .xtndBusyTss | .xtndAvailableTss =>
    setRegs fun regs => { regs with operandSize := .use32 }
  | _ => setRegs fun regs => { regs with operandSize := .use16 }

/-- The offset in an interrupt or trap gate. -/
def readGateOffset (descrAddr : Word) (super : Super) : Exec M Word := do
  let low ← onMemory (bus.sprRead .word descrAddr)
  if super = .xtndInterruptGate ∨ super = .xtndTrapGate then do
    let high ← onMemory (bus.sprRead .word (descrAddr + 6))
    return high.setWidth 32 <<< 16 ||| low.setWidth 32
  else return low.setWidth 32

/-- The access and presence of a gate of the IDT. -/
def checkIntGate (vector : BitVec 16) (doPriv : Bool) (cpl : Ring) (ar : Rights) : Exec M PUnit := do
  faultIf (doPriv ∧ cpl > arDpl ar) (.gpInt vector)
  faultIf (!arP ar) (.npInt vector)

/-- The destination in an interrupt or trap gate. -/
def followIntGate (gateAddr : Word) (super : Super) : Exec M IntDest := do
  let cs ← onMemory (bus.sprRead .word (gateAddr + 2))
  let ip ← readGateOffset bus gateAddr super
  let dest ← validateGateDest bus .int cs
  return { cs, ip, descrAddr := dest.1, destType := dest.2, super }

/-- `validate_int_dest`; the offset of a vector in the IDT is a 16-bit value. -/
def validateIntDest (vector : BitVec 16) (doPriv : Bool) : Exec M IntDest := do
  let regs ← getRegs
  let offset := vector * 8
  faultIf (offset.toNat + 7 > regs.idt.limit.toNat) (.gpInt vector)
  let gateAddr := regs.idt.base + offset.setWidth 32
  let ar ← readRights bus gateAddr
  match descriptorSuperType ar with
  | .interruptGate | .trapGate | .xtndInterruptGate | .xtndTrapGate => do
    setGateSize (descriptorSuperType ar)
    checkIntGate vector doPriv regs.cpl ar
    followIntGate bus gateAddr (descriptorSuperType ar)
  | .taskGate => do
    checkIntGate vector doPriv regs.cpl ar
    let cs ← onMemory (bus.sprRead .word (gateAddr + 2))
    let task ← validateTaskDest bus cs
    setGateSize task.2
    return { cs, ip := 0, descrAddr := task.1, destType := .newTask, super := .taskGate }
  | _ => throw (.gpInt vector)

/-! ## Calls and jumps -/

/-- After a task switch: the new IP against the new code segment. -/
def limitCheckNewTask : Exec M PUnit := do
  let regs ← getRegs
  faultIf (regs.eip > (regs.sr .cs).limit) (.gp 0)

def setEip (ip : Word) : Exec M PUnit := setRegs fun regs => { regs with eip := ip }

def setCpl (level : Ring) : Exec M PUnit := setRegs fun regs => { regs with cpl := level }

/-- `CALLF` to the level that is current. -/
def callSameLevel (dest : FarDest) : Exec M PUnit := do
  let entry ← readDescriptorLinear bus dest.descrAddr
  let regs ← getRegs
  let newCs := setSelectorRpl dest.cs regs.cpl
  validateStackSpace bus false 2
  faultIf (dest.ip > entry.limit) (.gp 0)
  -- All systems go.
  spush16 bus (regs.sr .cs).selector
  spush bus regs.eip
  loadCsCache bus newCs dest.descrAddr entry
  setEip dest.ip

/-- `CALLF` to a level of more privilege. -/
def callMorePrivilege (dest : FarDest) (dpl : Ring) : Exec M PUnit := do
  let entry ← readDescriptorLinear bus dest.descrAddr
  let newCs := setSelectorRpl dest.cs dpl
  let stack ← getStackSelectorFromTss bus dpl
  let ss ← validateSsOnStackChange bus dpl stack.1
  validateNewStackSpace bus (dest.count.setWidth 32 + 4) stack.2 ss.2
  faultIf (dest.ip > entry.limit) (.gp 0)
  -- All systems go.
  let old ← getRegs
  setCpl dpl
  loadCsCache bus newCs dest.descrAddr entry
  setEip dest.ip
  let params ← spopMany bus dest.count.toNat
  loadSsCache bus stack.1 ss.1 ss.2
  setRegs fun regs => regs.setCurrentSp stack.2
  spush16 bus (old.sr .ss).selector
  spush bus old.esp
  spushMany bus params
  spush16 bus (old.sr .cs).selector
  spush bus old.eip

def callf (switchTasks : SwitchTasks M) (newCs : Selector) (newIp : Word) : Exec M PUnit := do
  let regs ← getRegs
  if !regs.pe || regs.vm then do
    validateStackSpace bus false 2
    spush16 bus (regs.sr .cs).selector
    spush bus regs.eip
    loadCsCache bus newCs 0 {}
    setEip newIp
  else do
    let dest ← validateFarDest bus newCs newIp .call
    match dest.destType with
    | .newTask => do
      switchTasks false true dest.cs dest.descrAddr regs.eip
      limitCheckNewTask
    | .sameLevel => callSameLevel bus dest
    | .morePrivilege dpl => callMorePrivilege bus dest dpl

def jmpf (switchTasks : SwitchTasks M) (newCs : Selector) (newIp : Word) : Exec M PUnit := do
  let regs ← getRegs
  if !regs.pe || regs.vm then do
    loadCsCache bus newCs 0 {}
    setEip newIp
  else do
    let dest ← validateFarDest bus newCs newIp .jmp
    match dest.destType with
    | .newTask => do
      switchTasks false false dest.cs dest.descrAddr regs.eip
      limitCheckNewTask
    | .sameLevel => do
      let entry ← readDescriptorLinear bus dest.descrAddr
      faultIf (dest.ip > entry.limit) (.gp 0)
      loadCsCache bus (setSelectorRpl dest.cs regs.cpl) dest.descrAddr entry
      setEip dest.ip
    | .morePrivilege _ => return ⟨⟩

/-! ## Returns -/

/-- The type and access of the code segment that a return to a level leads to. -/
def checkReturnAccess (newCs : Selector) (privilege : Ring) (ar : Rights) : Exec M PUnit :=
  match descriptorSuperType ar with
  | .conformNoreadCode | .conformReadableCode => faultIf (arDpl ar > privilege) (.gp newCs)
  | .nonconformNoreadCode | .nonconformReadableCode => faultIf (arDpl ar ≠ privilege) (.gp newCs)
  | _ => throw (.gp newCs)

/-- The code segment of a return to a level: type, access and presence. -/
def checkReturnCs (newCs : Selector) (privilege : Ring) : Exec M (Word × Descr) := do
  let regs ← getRegs
  let descrAddr ← found (selectorInGdtLdt regs.toProtection newCs) (.gp newCs)
  let entry ← readDescriptorLinear bus descrAddr
  checkReturnAccess newCs privilege entry.ar
  faultIf (!arP entry.ar) (.np newCs)
  return (descrAddr, entry)

/-- The data segment registers, looked at again. -/
def revalidateDataSegs : Exec M PUnit := do
  loadDataSegNewPrivilege .ds
  loadDataSegNewPrivilege .es
  loadDataSegNewPrivilege .fs
  loadDataSegNewPrivilege .gs

/-- `RETF` to the level that is current. -/
def retSameLevel (newCs : Selector) (newIp op1 : Word) : Exec M PUnit := do
  let cs ← checkReturnCs bus newCs (selectorRpl newCs)
  faultIf (newIp > cs.2.limit) (.gp 0)
  loadCsCache bus newCs cs.1 cs.2
  setEip newIp
  setRegs fun regs => (regs.changeSp 2).byteChangeSp op1

/-- `RETF` to a level of less privilege. -/
def retLowerPrivilege (newCs : Selector) (newIp op1 : Word) : Exec M PUnit := do
  let regs ← getRegs
  let stkItem := op1 / regs.operandSize.bytes
  validateStackExists bus false (4 + stkItem)
  let cs ← checkReturnCs bus newCs (selectorRpl newCs)
  let newSs ← tpop bus 3 op1
  let ss ← checkSs bus (newSs.setWidth 16) (selectorRpl newCs)
  faultIf (newIp > cs.2.limit) (.gp 0)
  -- All systems go.
  setCpl (selectorRpl newCs)
  loadCsCache bus newCs cs.1 cs.2
  setEip newIp
  let newSp ← tpop bus 2 op1
  loadSsCache bus (newSs.setWidth 16) ss.1 ss.2
  setRegs fun regs => regs.setCurrentSp newSp
  revalidateDataSegs
  setRegs fun regs => (regs.changeSp 0).byteChangeSp op1

def retf (op1 : Word) : Exec M PUnit := do
  validateStackExists bus false 2
  let newIp ← tpop bus 0 0
  let newCs ← tpop bus 1 0
  let newCs : Selector := newCs.setWidth 16
  let regs ← getRegs
  if !regs.pe || regs.vm then do
    loadCsCache bus newCs 0 {}
    setEip newIp
    setRegs fun regs => (regs.changeSp 2).byteChangeSp op1
  else if selectorRpl newCs < regs.cpl then throw (.gp newCs)
  else if selectorRpl newCs = regs.cpl then retSameLevel bus newCs newIp op1
  else retLowerPrivilege bus newCs newIp op1

/-- `IRET` to V86 Mode. -/
def iretV86 (newCs : Selector) (newIp newFlags : Word) : Exec M PUnit := do
  validateStackExists bus false 9
  faultIf (newIp > 0xffff) (.gp 0)
  -- All systems go: VM is set before the segments are loaded.
  setRegs fun regs => regs.setEflags newFlags
  setCpl 3
  loadCsCache bus newCs 0 {}
  setRegs fun regs => regs.setSegment .cs fun cs => { cs with limit := 0xffff }
  setEip newIp
  let newSp ← tpop bus 3 0
  let newSs ← tpop bus 4 0
  let newEs ← tpop bus 5 0
  loadDataSeg bus .es (newEs.setWidth 16)
  let newDs ← tpop bus 6 0
  loadDataSeg bus .ds (newDs.setWidth 16)
  let newFs ← tpop bus 7 0
  loadDataSeg bus .fs (newFs.setWidth 16)
  let newGs ← tpop bus 8 0
  loadDataSeg bus .gs (newGs.setWidth 16)
  loadStackSeg bus (newSs.setWidth 16)
  setRegs fun regs => regs.setCurrentSp newSp
  loadPseudoDescr .ss
  loadPseudoDescr .ds
  loadPseudoDescr .es
  loadPseudoDescr .fs
  loadPseudoDescr .gs

/-- `IRET` to the level that is current. -/
def iretSameLevel (newCs : Selector) (newIp newFlags : Word) : Exec M PUnit := do
  let cs ← checkReturnCs bus newCs (selectorRpl newCs)
  faultIf (newIp > cs.2.limit) (.gp 0)
  loadCsCache bus newCs cs.1 cs.2
  setEip newIp
  setRegs fun regs => (regs.changeSp 3).setCurrentFlags newFlags

/-- `IRET` to a level of less privilege. -/
def iretLowerPrivilege (newCs : Selector) (newIp newFlags : Word) : Exec M PUnit := do
  validateStackExists bus false 5
  let cs ← checkReturnCs bus newCs (selectorRpl newCs)
  let newSs ← tpop bus 4 0
  let ss ← checkSs bus (newSs.setWidth 16) (selectorRpl newCs)
  faultIf (newIp > cs.2.limit) (.gp 0)
  -- All systems go.
  loadCsCache bus newCs cs.1 cs.2
  setEip newIp
  setRegs fun regs => regs.setCurrentFlags newFlags
  let newSp ← tpop bus 3 0
  loadSsCache bus (newSs.setWidth 16) ss.1 ss.2
  setRegs fun regs => regs.setCurrentSp newSp
  setCpl (selectorRpl newCs)
  revalidateDataSegs

/-- `IRET` within a task of protected mode, with what it finds on the stack. -/
def iretSameTask (newCs : Selector) (newIp newFlags : Word) : Exec M PUnit := do
  let regs ← getRegs
  if newFlags.getLsbD 17 then iretV86 bus newCs newIp newFlags
  else if selectorRpl newCs < regs.cpl then throw (.gp newCs)
  else if selectorRpl newCs = regs.cpl then iretSameLevel bus newCs newIp newFlags
  else iretLowerPrivilege bus newCs newIp newFlags

def iret (switchTasks : SwitchTasks M) : Exec M PUnit := do
  let regs ← getRegs
  if !regs.pe || regs.vm then do
    validateStackExists bus false 3
    let newIp ← tpop bus 0 0
    let newCs ← tpop bus 1 0
    let newFlags ← tpop bus 2 0
    loadCsCache bus (newCs.setWidth 16) 0 {}
    setEip newIp
    setRegs fun regs => (regs.changeSp 3).setCurrentFlags newFlags
  else if regs.flags.nt then do
    -- A nested return, to the task that is linked back to.
    let backLink ← onMemory (bus.sprRead .word regs.tr.base)
    let descrAddr ← validateTss bus backLink
    switchTasks true false backLink descrAddr regs.eip
    limitCheckNewTask
  else do
    validateStackExists bus false 3
    let newIp ← tpop bus 0 0
    let newCs ← tpop bus 1 0
    let newFlags ← tpop bus 2 0
    -- Only level 0 returns to V86 Mode.
    iretSameTask bus (newCs.setWidth 16) newIp
      (if regs.cpl ≠ 0 then newFlags &&& ~~~0x20000 else newFlags)

/-! ## Interrupts -/

/-- The flags that an interrupt pushes; RF is set for a fault. -/
def Registers.pushedFlags (regs : Registers) : Word :=
  if regs.doingFault then regs.getEflags ||| 0x10000 else regs.getEflags

/-- What a gate does to IF, TF and NT. -/
def Registers.enterGate (regs : Registers) (super : Super) : Registers :=
  { regs with flags := { regs.flags with
      interrupt := if super = .interruptGate ∨ super = .xtndInterruptGate then false
        else regs.flags.interrupt
      tf := false
      nt := false } }

/-- The error code, where there is one. -/
def spushErrorCode (errorCode : Option (BitVec 16)) : Exec M PUnit :=
  match errorCode with
  | some code => spush bus (code.setWidth 32)
  | none => return ⟨⟩

/-- The items that an error code takes. -/
def errorItems (errorCode : Option (BitVec 16)) : Word := if errorCode.isSome then 1 else 0

/-- The error code onto the stack of a new task. -/
def spushErrorCodeNewTask (errorCode : Option (BitVec 16)) : Exec M PUnit :=
  match errorCode with
  | some code => do
    validateStackSpace bus false 1
    spush bus (code.setWidth 32)
  | none => return ⟨⟩

/-- `do_intrupt` at the level that is current. -/
def intSameLevel (dest : IntDest) (errorCode : Option (BitVec 16)) : Exec M PUnit := do
  let entry ← readDescriptorLinear bus dest.descrAddr
  let regs ← getRegs
  let newCs := setSelectorRpl dest.cs regs.cpl
  validateStackSpace bus false (3 + errorItems errorCode)
  faultIf (dest.ip > entry.limit) (.gp 0)
  -- All systems go.
  spush bus regs.pushedFlags
  spush16 bus (regs.sr .cs).selector
  spush bus regs.eip
  spushErrorCode bus errorCode
  loadCsCache bus newCs dest.descrAddr entry
  setEip dest.ip
  setRegs fun regs => regs.enterGate dest.super

/-- The data segments of an interrupted V86 Mode are pushed, and invalidated. -/
def spushV86Segments (old : Registers) : Exec M PUnit := if !old.vm then return ⟨⟩ else do
  spush16 bus (old.sr .gs).selector
  spush16 bus (old.sr .fs).selector
  spush16 bus (old.sr .ds).selector
  spush16 bus (old.sr .es).selector
  loadDataSeg bus .gs 0
  loadDataSeg bus .fs 0
  loadDataSeg bus .ds 0
  loadDataSeg bus .es 0

/-- `do_intrupt` at a level of more privilege. -/
def intMorePrivilege (dest : IntDest) (dpl : Ring) (errorCode : Option (BitVec 16)) : Exec M PUnit := do
  let entry ← readDescriptorLinear bus dest.descrAddr
  let newCs := setSelectorRpl dest.cs dpl
  let stack ← getStackSelectorFromTss bus dpl
  let ss ← validateSsOnStackChange bus dpl stack.1
  let old ← getRegs
  let items : Word := if old.vm then 9 else 5
  validateNewStackSpace bus (items + errorItems errorCode) stack.2 ss.2
  faultIf (dest.ip > entry.limit) (.gp 0)
  -- All systems go.
  setCpl dpl
  setRegs fun regs => { regs with vm := false }
  loadSsCache bus stack.1 ss.1 ss.2
  setRegs fun regs => regs.setCurrentSp stack.2
  spushV86Segments bus old
  spush16 bus (old.sr .ss).selector
  spush bus old.esp
  spush bus old.pushedFlags
  spush16 bus (old.sr .cs).selector
  spush bus old.eip
  spushErrorCode bus errorCode
  loadCsCache bus newCs dest.descrAddr entry
  setEip dest.ip
  setRegs fun regs => regs.enterGate dest.super

/-- The end of an interrupt that has been delivered. -/
def Registers.delivered (regs : Registers) : Registers :=
  { regs with
    ext := false
    doingFault := false
    doingContributory := false
    doingPageFault := false
    doingDoubleFault := false }

/-- `do_intrupt` in protected mode. -/
def intProtected (switchTasks : SwitchTasks M) (vector : BitVec 16) (privCheck : Bool)
    (errorCode : Option (BitVec 16)) : Exec M PUnit := do
  let regs ← getRegs
  let dest ← validateIntDest bus vector privCheck
  match dest.destType with
  | .newTask => do
    switchTasks false true dest.cs dest.descrAddr regs.eip
    spushErrorCodeNewTask bus errorCode
    limitCheckNewTask
  | .sameLevel => intSameLevel bus dest errorCode
  | .morePrivilege dpl => intMorePrivilege bus dest dpl errorCode

/-- `do_intrupt` in Real Mode. -/
def intReal (vector : BitVec 16) : Exec M PUnit := do
  validateStackSpace bus false 3
  let ivtAddr : Word := vector.setWidth 32 * 4
  let newIp ← onMemory (bus.phyReadWord ivtAddr)
  let newCs ← onMemory (bus.phyReadWord (ivtAddr + 2))
  let regs ← getRegs
  spush bus regs.pushedFlags
  spush16 bus (regs.sr .cs).selector
  spush bus regs.eip
  loadCsCache bus newCs 0 {}
  setEip (newIp.setWidth 32)
  setRegs fun regs => { regs with flags := { regs.flags with interrupt := false, tf := false } }

/-- `do_intrupt`, by the mode. -/
def intTransfer (switchTasks : SwitchTasks M) (vector : BitVec 16) (privCheck : Bool)
    (errorCode : Option (BitVec 16)) : Exec M PUnit := do
  let regs ← getRegs
  if !regs.pe then intReal bus vector
  else intProtected bus switchTasks vector privCheck errorCode

/-- `do_intrupt`; the vector of a rejected acknowledgement is none. -/
def doIntrupt (switchTasks : SwitchTasks M) (vector : BitVec 16) (privCheck : Bool)
    (errorCode : Option (BitVec 16)) : Exec M PUnit :=
  if vector = 0xffff then return ⟨⟩
  else do
    intTransfer bus switchTasks vector privCheck errorCode
    setRegs Registers.delivered

/-! ## A transfer -/

/-- The five far transfers, with their operands. -/
inductive Transfer where
  | callf (newCs : Selector) (newIp : Word)
  | jmpf (newCs : Selector) (newIp : Word)
  | retf (op1 : Word)
  | iret
  | intrupt (vector : BitVec 16) (privCheck : Bool) (errorCode : Option (BitVec 16))

/-- A destination has been found, and is a task's. -/
def goesToTask {δ : Type} (destType : δ → DestType) : EStateM.Result Fault (State M) δ → Bool
  | .ok dest _ => destType dest = .newTask
  | .error _ _ => false

namespace Transfer

/-- The transfer performed. -/
def perform (switchTasks : SwitchTasks M) : Transfer → Exec M PUnit
  | .callf newCs newIp => Ccpu.callf bus switchTasks newCs newIp
  | .jmpf newCs newIp => Ccpu.jmpf bus switchTasks newCs newIp
  | .retf op1 => Ccpu.retf bus op1
  | .iret => Ccpu.iret bus switchTasks
  | .intrupt vector privCheck errorCode => doIntrupt bus switchTasks vector privCheck errorCode

/-- In protected mode, the transfer goes to a new task. -/
def switchesTask (s : State M) : Transfer → Bool
  | .callf newCs newIp => goesToTask FarDest.destType (validateFarDest bus newCs newIp .call s)
  | .jmpf newCs newIp => goesToTask FarDest.destType (validateFarDest bus newCs newIp .jmp s)
  | .retf _ => false
  | .iret => s.regs.flags.nt
  | .intrupt vector privCheck _ => goesToTask IntDest.destType (validateIntDest bus vector privCheck s)

/-- A transfer at all: a rejected acknowledgement is no interrupt. -/
def vectored : Transfer → Bool
  | .intrupt vector _ _ => vector ≠ 0xffff
  | _ => true

end Transfer

end SoftPC.Ccpu
