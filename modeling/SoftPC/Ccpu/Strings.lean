import SoftPC.Ccpu.IoMap
import SoftPC.Ccpu.PageChecked

/-!
# Ccpu/Strings — the string instructions

    (permission) ──▸ while rep_count: D_X, D_Y ──▸ F_X, IN ──▸ rep_count--, C_Y, C_X ──▸ P_Y, OUT

MOVS, CMPS, STOS, LODS, SCAS, INS and OUTS of `base/ccpu386/c_main.c`, with the `D_`, `F_`, `C_` and `P_` macros
of `c_oprnd.h` for their operands.  An iteration makes all its checks before it reads, writes or commits
anything, so that a fault finds the state that the completed iterations have left (`Completed`), and the
instruction goes on from there when it is executed again (`rep_string_restartable`).  INS and OUTS are checked
for permission whenever they are executed: an INS that has written over its own bit in the I/O permission
bitmap does not go on.
-/

namespace SoftPC.Ccpu

/-! ## The machine -/

/-- The registers that string instructions use. -/
structure StringRegs where
  eax : Word
  ecx : Word
  edx : Word
  esi : Word
  edi : Word
  flags : Flags

/-- DX. -/
def StringRegs.port (regs : StringRegs) : Word := regs.edx &&& 0xffff

/-- The functions of `ios.c`, on a memory and the devices with it. -/
structure Ports (M : Type) where
  inb : Word → M → BitVec 8 × M
  inw : Word → M → BitVec 16 × M
  outb : Word → BitVec 8 → M → M
  outw : Word → BitVec 16 → M → M

/-- An access to a port, with the data read or written. -/
inductive PortAccess where
  | inb (port : Word) (data : BitVec 8)
  | inw (port : Word) (data : BitVec 16)
  | outb (port : Word) (data : BitVec 8)
  | outw (port : Word) (data : BitVec 16)
  deriving DecidableEq

structure StringState (M : Type) where
  regs : StringRegs
  mem : M
  /-- The accesses to ports so far. -/
  ports : List PortAccess

/-- What a string instruction does. -/
abbrev StringExec (M : Type) := EStateM Fault (StringState M)

section

variable {M α : Type}

namespace StringExec

/-- An access to memory. -/
def onMem (x : EStateM Fault M α) : StringExec M α := fun s =>
  match x s.mem with
  | .ok a m => .ok a { s with mem := m }
  | .error e m => .error e { s with mem := m }

def registers : StringExec M StringRegs := do return (← get).regs

def change (f : StringRegs → StringRegs) : StringExec M PUnit := modify fun s => { s with regs := f s.regs }

end StringExec

/-! ## Ports -/

variable (io : Ports M)

/-- An access to a port that reads. -/
def Ports.input (access : M → α × M) (note : α → PortAccess) : StringExec M α := fun s =>
  .ok (access s.mem).1 { s with mem := (access s.mem).2, ports := s.ports ++ [note (access s.mem).1] }

/-- …and one that writes. -/
def Ports.output (access : M → M) (note : PortAccess) : StringExec M PUnit := fun s =>
  .ok ⟨⟩ { s with mem := access s.mem, ports := s.ports ++ [note] }

/-- `IN8`, `IN16` and `IN32`. -/
def portIn : (w : Width) → Word → StringExec M (BitVec w.bits)
  | .byte, port => Ports.input (io.inb port) (.inb port)
  | .word, port => Ports.input (io.inw port) (.inw port)
  | .dword, port => do
    let low ← Ports.input (io.inw port) (.inw port)
    let high ← Ports.input (io.inw (port + 2)) (.inw (port + 2))
    return high ++ low

/-- `OUT8`, `OUT16` and `OUT32`. -/
def portOut : (w : Width) → Word → BitVec w.bits → StringExec M PUnit
  | .byte, port, data => Ports.output (io.outb port data) (.outb port data)
  | .word, port, data => Ports.output (io.outw port data) (.outw port data)
  | .dword, port, data => do
    let low : BitVec 16 := data.setWidth 16
    let high : BitVec 16 := (data >>> 16).setWidth 16
    Ports.output (io.outw port low) (.outw port low)
    Ports.output (io.outw (port + 2) high) (.outw (port + 2) high)

end

/-! ## Instructions -/

inductive StringOp where
  | movs | cmps | stos | lods | scas | ins | outs
  deriving DecidableEq

/-- `REP_CLR`, `REP_NE` and `REP_E`. -/
inductive Repeat where
  | clr | ne | e
  deriving DecidableEq

/-- A string instruction, as it is decoded. -/
structure StringInst where
  op : StringOp
  width : Width
  /-- `GET_ADDRESS_SIZE`. -/
  addressSize : OperandSize
  /-- `segment_override`. -/
  segOverride : Option SegReg := none
  rep : Repeat := .clr

/-- The segments and pages that it goes by. -/
structure StringEnv where
  prot : Protection
  pg : Bool
  pages : BitVec 20 → Option PageEntry

namespace StringEnv

variable (env : StringEnv)

def paging : Paging where
  pg := env.pg
  cpl := env.prot.cpl
  pages := env.pages

/-- `RO0`, `RO1` and `WO0`. -/
def badType (reg : SegReg) (isWrite : Bool) : Bool :=
  if isWrite then !(env.prot.sr reg).w else !(env.prot.sr reg).r

/-- `limit_check` of one item. -/
def pastLimit (reg : SegReg) (off : Word) (w : Width) : Bool :=
  env.prot.pe && !env.prot.vm && Registers.badLimit (env.prot.sr reg) off 1 (.ofNat 32 (Paging.bytes w))

/-- The linear and the physical address of an item, once it is checked. -/
def decode {M : Type} (reg : SegReg) (off : Word) (w : Width) (isWrite : Bool) : EStateM Fault M (Word × Word) := do
  faultIf (env.badType reg isWrite) (.gp 0)
  faultIf (env.pastLimit reg off w) (if reg = .ss then .sf 0 else .gp 0)
  let la := (env.prot.sr reg).base + off
  let pa ← env.paging.usrChk w la isWrite
  return (la, pa)

end StringEnv

/-- A register whose low bits are set. -/
def withLow {n : ℕ} (r : Word) (v : BitVec n) : Word := r >>> n <<< n ||| v.setWidth 32

/-- `CMP`. -/
def cmpFlags (w : Width) (op1 op2 : BitVec w.bits) (flags : Flags) : Flags :=
  let result := op1 - op2
  let carry := op1 ^^^ op2 ^^^ result
  let of := op1.msb != op2.msb && (op1.msb ^^ result.msb)
  { flags with
    of := of
    cf := carry.msb ^^ of
    -- `pf_table`: the low byte has an even number of ones.
    pf := ((List.range 8).countP fun i => result.getLsbD i) % 2 = 0
    zf := result = 0
    sf := result.msb
    af := carry.getLsbD 4 }

namespace StringInst

variable (inst : StringInst)

/-! ### Registers -/

/-- SI, DI and CX, or the whole registers. -/
def index (r : Word) : Word :=
  match inst.addressSize with
  | .use16 => r &&& 0xffff
  | .use32 => r

def setIndex (r v : Word) : Word :=
  match inst.addressSize with
  | .use16 => withLow r (v.setWidth 16)
  | .use32 => v

/-- One item on. -/
def advance (df : Bool) (r : Word) : Word :=
  let size : Word := .ofNat 32 (Paging.bytes inst.width)
  inst.setIndex r (if df then inst.index r - size else inst.index r + size)

/-- CX is the count, if there is a prefix. -/
def counted (n : ℕ) (ecx : Word) : Word := if inst.rep = .clr then ecx else inst.setIndex ecx (.ofNat 32 n)

/-- `C_X`; `n` is `rep_count`. -/
def commitX (n : ℕ) (regs : StringRegs) : StringRegs :=
  { regs with esi := inst.advance regs.flags.df regs.esi, ecx := inst.counted n regs.ecx }

/-- `C_Y`. -/
def commitY (n : ℕ) (regs : StringRegs) : StringRegs :=
  { regs with edi := inst.advance regs.flags.df regs.edi, ecx := inst.counted n regs.ecx }

def stringCount (regs : StringRegs) : ℕ := if inst.rep = .clr then 1 else (inst.index regs.ecx).toNat

/-- A comparison ends the repetition; `n` is `rep_count`. -/
def ends (n : ℕ) (flags : Flags) : Bool := n ≠ 0 && (inst.rep = .e && !flags.zf || inst.rep = .ne && flags.zf)

/-! ### Operands -/

variable {M : Type} (env : StringEnv) (phys : Phys M) (io : Ports M)

open StringExec

/-- `D_X`, at the level of the user. -/
def decodeX : StringExec M (Word × Word) := do
  let regs ← registers
  onMem (env.decode (inst.segOverride.getD .ds) (inst.index regs.esi) inst.width false)

/-- `D_Y`. -/
def decodeY (isWrite : Bool) : StringExec M (Word × Word) := do
  let regs ← registers
  onMem (env.decode .es (inst.index regs.edi) inst.width isWrite)

/-- `F_X` and `F_Y`. -/
def fetch (x : Word × Word) : StringExec M (BitVec inst.width.bits) :=
  onMem (env.paging.virRead phys inst.width x.1 x.2)

/-- `P_Y`. -/
def put (y : Word × Word) (data : BitVec inst.width.bits) : StringExec M PUnit :=
  onMem (env.paging.virWrite phys inst.width y.1 y.2 data)

/-- `CMP`, on the flags. -/
def compare (op1 op2 : BitVec inst.width.bits) : StringExec M PUnit :=
  change fun regs => { regs with flags := cmpFlags inst.width op1 op2 regs.flags }

/-- An iteration that compares has ended it. -/
def ended (n : ℕ) : StringExec M Bool := do return inst.ends n (← registers).flags

/-- AL, AX or EAX. -/
def acc (regs : StringRegs) : BitVec inst.width.bits := regs.eax.setWidth _

/-! ### Execution -/

/-- An iteration, after which `n` are left: whether it ends the repetition.  `start` are the registers that the
instruction was started with: what is not advanced is fetched once. -/
def iterate (start : StringRegs) (n : ℕ) : StringExec M Bool :=
  match inst.op with
  | .movs => do
    let x ← inst.decodeX env
    let y ← inst.decodeY env true
    let data ← inst.fetch env phys x
    change (inst.commitY n)
    change (inst.commitX n)
    inst.put env phys y data
    return false
  | .cmps => do
    let x ← inst.decodeX env
    let y ← inst.decodeY env false
    let op1 ← inst.fetch env phys x
    let op2 ← inst.fetch env phys y
    inst.compare op1 op2
    change (inst.commitX n)
    change (inst.commitY n)
    inst.ended n
  | .stos => do
    let y ← inst.decodeY env true
    change (inst.commitY n)
    inst.put env phys y (inst.acc start)
    return false
  | .lods => do
    let x ← inst.decodeX env
    let data ← inst.fetch env phys x
    change fun regs => { regs with eax := withLow regs.eax data }
    change (inst.commitX n)
    return false
  | .scas => do
    let y ← inst.decodeY env false
    let op2 ← inst.fetch env phys y
    inst.compare (inst.acc start) op2
    change (inst.commitY n)
    inst.ended n
  | .ins => do
    let y ← inst.decodeY env true
    let data ← portIn io inst.width (start.port)
    change (inst.commitY n)
    inst.put env phys y data
    return false
  | .outs => do
    let x ← inst.decodeX env
    let data ← inst.fetch env phys x
    portOut io inst.width (start.port) data
    change (inst.commitX n)
    return false

/-- The loop; the count is `rep_count`. -/
def loop (start : StringRegs) : ℕ → StringExec M PUnit
  | 0 => return ⟨⟩
  | n + 1 => do
    let done ← inst.iterate env phys io start n
    if done then return ⟨⟩ else loop start n

/-- The permission that INS and OUTS ask for. -/
def permission (start : StringRegs) : StringExec M PUnit :=
  if (inst.op = .ins ∨ inst.op = .outs) ∧ (env.prot.cpl > start.flags.iopl ∨ env.prot.vm) then
    onMem (checkIoPermissionMap env.paging phys env.prot.tr (start.port) inst.width)
  else return ⟨⟩

/-- The instruction is executed. -/
def exec : StringExec M PUnit := do
  let start ← registers
  inst.permission env phys start
  inst.loop env phys io start (inst.stringCount start)

end StringInst

end SoftPC.Ccpu
