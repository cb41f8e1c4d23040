import SoftPC.Machinery.Numerals
import Mathlib.Data.PNat.Basic
import Mathlib.Logic.Function.Basic

/-!
# System/Ica — the two 8259 interrupt controllers

    device ──hw_interrupt──▸ IRR, count ──scan──▸ INT ──(slave: cascade line)──▸ master ──▸ CPU

`base/system/ica.c` in the CCPU build, with `compat/eoi.c`'s delayed lines and the acknowledge of the
CPU loop.  A request is counted on its line (`Adapter.count`, the extension of IRR) and offered to the
CPU when a scan finds it; the slave offers its own through a line of the master, taken from its ICW3.

Two things the code leaves undefined stop a call with a `Fault`: a line number outside the eight-entry
arrays, and a count beyond 32 bits.  IRET hooks and action interrupts are left out: in this build
`ica_iret_hook_control` is empty and nothing installs an action, so their tables never change.
-/

namespace SoftPC.Ica

/-- `ICA_MASTER` and `ICA_SLAVE`. -/
inductive Chip
  | master
  | slave
  deriving DecidableEq

/-- The bits of `ica_mode` that are read back: `ICA_IC4`, `ICA_SINGL`, `ICA_AEOI`, `ICA_SFNM`,
`ICA_SMM`, `ICA_RAEOI`, `ICA_RIS`, `ICA_POLL`, and the masks of ICW1 and ICW4. -/
def ic4 : BitVec 16 := 0x0001
def singl : BitVec 16 := 0x0002
def icw1Mask : BitVec 16 := 0x000f
def aeoi : BitVec 16 := 0x0020
def sfnm : BitVec 16 := 0x0100
def icw4Mask : BitVec 16 := 0x01f0
def smm : BitVec 16 := 0x0200
def raeoi : BitVec 16 := 0x0400
def ris : BitVec 16 := 0x0800
def poll : BitVec 16 := 0x1000

/-- `1 << line`, and whether a register has it. -/
def bit (line : Fin 8) : BitVec 8 := BitVec.twoPow 8 line

def on (x : BitVec 8) (line : Fin 8) : Bool := x.getLsbD line

/-- `ADAPTER_STATE`, of one 8259. -/
structure Adapter where
  irr : BitVec 8 := 0
  isr : BitVec 8 := 0
  imr : BitVec 8 := 0
  /-- The slaves of a master, one bit each; of a slave, the number of its line on the master. -/
  ssr : BitVec 8 := 0
  base : BitVec 8 := 0
  hipri : ℕ := 0
  mode : BitVec 16 := 0
  count : Fin 8 → ℤ := fun _ => 0
  intLine : Fin 8 := 0
  cpuInt : Bool := false

/-- `sequence`: which word the adapter waits for. -/
inductive Sequence
  | powerOn
  | ready
  | icw2
  | icw3
  | icw4
  deriving DecidableEq

/-- What has happened to the requests of each line since its adapter's last ICW1. -/
structure Tally where
  raised : ℕ := 0
  acknowledged : ℕ := 0
  withdrawn : ℕ := 0

/-- The module's state: both adapters, `sequence`, `ica_lock`, `DelayIrqLine` (eight bits an adapter),
`CPU_HW_INT_MASK` of `cpu_interrupt_map`, the calls made of `host_EOI_hook`, and the tallies. -/
structure Pic where
  adapter : Chip → Adapter := fun _ => {}
  sequence : Chip → Sequence := fun _ => .powerOn
  lock : BitVec 8 := 0
  delayed : Chip → BitVec 8 := fun _ => 0
  hwInt : Bool := false
  hooked : List (Chip × Fin 8 × ℤ) := []
  tally : Chip → Fin 8 → Tally := fun _ _ => {}

/-- The state `ica0_init` and `ica1_init` leave. -/
def Pic.init : Pic := {}

/-- What ends a call in undefined behaviour. -/
inductive Fault
  /-- A per-line array is indexed with this number. -/
  | line (a : Chip) (number : ℕ)
  /-- The signed 32-bit count of this line overflows. -/
  | overflow (a : Chip) (line : Fin 8)
  deriving DecidableEq

namespace Pic

variable (p : Pic)

def setAdapter (a : Chip) (s : Adapter) : Pic := { p with adapter := Function.update p.adapter a s }

def setTally (a : Chip) (line : Fin 8) (t : Tally) : Pic :=
  { p with tally := Function.update p.tally a (Function.update (p.tally a) line t) }

/-- A line number, where it indexes `ica_count` and its neighbours. -/
def index (a : Chip) (number : ℕ) : Except Fault (Fin 8) :=
  if h : number < 8 then .ok ⟨number, h⟩ else .error (.line a number)

/-- `host_EOI_hook`.  The one hook a device registers, the Sound Blaster's `AutoInitEoiHook`, prepares
the next block and schedules its completion; it makes no call of this module. -/
def hook (a : Chip) (line : Fin 8) (count : ℤ) : Pic :=
  { p with hooked := p.hooked ++ [(a, line, count)] }

/-! ## The scan -/

/-- The lines from the highest priority down. -/
def order (hipri : ℕ) : List (Fin 8) :=
  (List.range 8).map fun i => ⟨(hipri + i) % 8, Nat.mod_lt _ (by decide)⟩

/-- The loop of `ica_scan_irr`. -/
def firstOf (pending active : BitVec 8) : List (Fin 8) → Option (Fin 8)
  | [] => none
  | line :: lines =>
    if on active line then none
    else if on pending line then some line
    else firstOf pending active lines

/-- `irr_and_not_imr`. -/
def pending (a : Chip) : BitVec 8 :=
  (p.adapter a).irr &&& ~~~((p.adapter a).imr ||| p.delayed a)

/-- `active_isr`. -/
def active (a : Chip) : BitVec 8 :=
  if (p.adapter a).mode &&& (smm ||| sfnm) ≠ 0 then 0 else (p.adapter a).isr

/-- `ica_scan_irr`: 7, no request, is `none`, and `0x80 + line` the line. -/
def scanIrr (a : Chip) : Option (Fin 8) :=
  if p.pending a = 0 then none
  else firstOf (p.pending a) (p.active a) (order (p.adapter a).hipri)

/-- The byte of the scan, as a poll delivers it. -/
def scanByte (a : Chip) : BitVec 8 :=
  match p.scanIrr a with
  | none => 7
  | some line => 0x80 + BitVec.ofNat 8 line

/-! ## Raising a line -/

/-- The head of `SWPIC_hw_interrupt`: the request is latched and counted whatever the lock says. -/
def request (a : Chip) (line : Fin 8) (calls : ℕ) : Except Fault Pic :=
  let s := p.adapter a
  if s.count line + calls < 2 ^ 31 then
    .ok ((p.setAdapter a
        { s with irr := s.irr ||| bit line,
                 count := Function.update s.count line (s.count line + calls) }).setTally a line
        { p.tally a line with raised := (p.tally a line).raised + calls })
  else .error (.overflow a line)

/-- "Now scan the IRR to see if we can raise a CPU interrupt." -/
def scanBy (interrupt : Pic → Fin 8 → Except Fault Pic) (a : Chip) : Except Fault Pic :=
  match p.scanIrr a with
  | none => .ok p
  | some line => interrupt p line

/-- `SWPIC_hw_interrupt` over the `ica_interrupt_cpu` of its adapter.  Under a lock the request waits
for the scan of whoever holds it. -/
def hwInterruptBy (interrupt : Pic → Fin 8 → Except Fault Pic) (a : Chip) (number : ℕ) (calls : ℕ) :
    Except Fault Pic := do
  let line ← index a number
  let p ← p.request a line calls
  if p.lock ≠ 0 then return p
  else
    let p ← { p with lock := p.lock + 1 }.scanBy interrupt a
    return { p with lock := 0 }

/-- `ica_interrupt_cpu(ICA_MASTER)`. -/
def interruptMaster (line : Fin 8) : Pic :=
  let s := p.adapter .master
  if s.cpuInt then p.setAdapter .master { s with intLine := line }
  else { p.setAdapter .master { s with intLine := line, cpuInt := true } with hwInt := true }

/-- `ica_interrupt_cpu(ICA_SLAVE)`: the lock is taken down by one around the cascade call, so that the
master scans. -/
def interruptSlave (line : Fin 8) : Except Fault Pic :=
  let s := p.adapter .slave
  if s.cpuInt then .ok (p.setAdapter .slave { s with intLine := line })
  else do
    let p := p.setAdapter .slave { s with intLine := line, cpuInt := true }
    let p := { p with lock := p.lock - 1 }
    let p ← p.hwInterruptBy (fun p line => .ok (p.interruptMaster line)) .master s.ssr.toNat 1
    return { p with lock := p.lock + 1 }

/-- `ica_interrupt_cpu`. -/
def interruptCpu (a : Chip) (line : Fin 8) : Except Fault Pic :=
  match a with
  | .master => .ok (p.interruptMaster line)
  | .slave => p.interruptSlave line

/-- `SWPIC_hw_interrupt`. -/
def hwInterrupt (a : Chip) (number : ℕ) (calls : ℕ) : Except Fault Pic :=
  p.hwInterruptBy (fun p line => p.interruptCpu a line) a number calls

/-- "There may be a lower priority interrupt pending, so check." -/
def rescan (a : Chip) : Except Fault Pic := p.scanBy (fun p line => p.interruptCpu a line) a

/-! ## Lowering a line -/

/-- The line's request taken off the count, and IRR's bit with the last of them. -/
def withdraw (a : Chip) (line : Fin 8) : Pic :=
  let s := p.adapter a
  let p := p.setTally a line
    { p.tally a line with
        withdrawn := (p.tally a line).withdrawn + if 0 < s.count line then 1 else 0 }
  if s.count line - 1 ≤ 0 then
    p.setAdapter a { s with irr := s.irr &&& ~~~bit line, count := Function.update s.count line 0 }
  else p.setAdapter a { s with count := Function.update s.count line (s.count line - 1) }

/-- INT of the master, and the CPU's line, low. -/
def lower : Pic :=
  { p.setAdapter .master { p.adapter .master with cpuInt := false } with hwInt := false }

/-- "If the line has a pending interrupt, call the eoi hook." -/
def hookIf (pending : Bool) (a : Chip) (line : Fin 8) : Pic :=
  if pending then p.hook a line (-1) else p

/-- `SWPIC_clear_int(ICA_MASTER)`: INT and the CPU's line drop with the last deliverable request. -/
def clearMaster (number : ℕ) : Except Fault Pic := do
  let line ← index .master number
  let s := p.adapter .master
  let q := p.withdraw .master line
  if s.count line - 1 ≤ 0 then
    let idle := (q.adapter .master).cpuInt ∧ q.scanIrr .master = none
    return (if idle then q.lower else q).hookIf (on s.irr line) .master line
  else return q

/-- INT of the slave low, and its request on the master withdrawn. -/
def lowerSlave : Except Fault Pic :=
  let s := p.adapter .slave
  (p.setAdapter .slave { s with cpuInt := false }).clearMaster s.ssr.toNat

/-- `SWPIC_clear_int(ICA_SLAVE)`: with nothing left to deliver the cascade request goes too. -/
def clearSlave (number : ℕ) : Except Fault Pic := do
  let line ← index .slave number
  let s := p.adapter .slave
  let q := p.withdraw .slave line
  if s.count line - 1 ≤ 0 then
    let q ← (if q.scanIrr .slave = none then q.lowerSlave else .ok q)
    return q.hookIf (on s.irr line) .slave line
  else return q

/-- `SWPIC_clear_int`. -/
def clearInt (a : Chip) (number : ℕ) : Except Fault Pic :=
  match a with
  | .master => p.clearMaster number
  | .slave => p.clearSlave number

/-- `ica_hw_interrupt_cancel`: the count is cleared first, so that all its requests are withdrawn. -/
def hwInterruptCancel (a : Chip) (number : ℕ) : Except Fault Pic := do
  let line ← index a number
  let s := p.adapter a
  let t := p.tally a line
  let p := p.setAdapter a { s with count := Function.update s.count line 0 }
  let p := p.setTally a line { t with withdrawn := t.withdrawn + (s.count line).toNat }
  p.clearInt a number

/-! ## End of interrupt and acknowledge -/

/-- The line an EOI takes out of service: the one named, or the highest in service. -/
def eoiLine (a : Chip) : Option (Fin 8) → Option (Fin 8)
  | none => (order (p.adapter a).hipri).find? fun line => on (p.adapter a).isr line
  | some line => some line

/-- The line out of service, of the lowest priority if rotated; its hook is called if it was in. -/
def retire (a : Chip) (line : Fin 8) (rotate : Bool) : Pic :=
  let s := p.adapter a
  let q := p.setAdapter a
    { s with isr := s.isr &&& ~~~bit line,
             hipri := if rotate then (line + 1) % 8 else s.hipri }
  if on s.isr line then q.hook a line (s.count line) else q

/-- `ica_eoi`; `none` is the non-specific one. -/
def eoi (a : Chip) (line : Option (Fin 8)) (rotate : Bool) : Except Fault Pic :=
  match p.eoiLine a line with
  | none => p.rescan a
  | some line => (p.retire a line rotate).rescan a

/-- The request of `line` taken into service. -/
def take (a : Chip) (line : Fin 8) : Pic :=
  let s := p.adapter a
  let p := p.setTally a line { p.tally a line with acknowledged := (p.tally a line).acknowledged + 1 }
  if s.count line - 1 ≤ 0 then
    p.setAdapter a { s with isr := s.isr ||| bit line, irr := s.irr &&& ~~~bit line,
                            count := Function.update s.count line 0 }
  else
    p.setAdapter a { s with isr := s.isr ||| bit line,
                            count := Function.update s.count line (s.count line - 1) }

/-- The non-specific EOI of Automatic EOI mode. -/
def autoEoi (a : Chip) : Except Fault Pic :=
  let s := p.adapter a
  if s.mode &&& aeoi ≠ 0 then p.eoi a none (s.mode &&& raeoi = raeoi) else .ok p

/-- `ica_accept`; a spurious acknowledge, -1, is `none`. -/
def accept (a : Chip) : Except Fault (Option (Fin 8) × Pic) :=
  let p := p.setAdapter a { p.adapter a with cpuInt := false }
  match p.scanIrr a with
  | none => .ok (none, p)
  | some line => do
    let p ← (p.take a line).autoEoi a
    return (some line, p)

/-- A line of the master taken out of service. -/
def endService (line : Fin 8) : Pic :=
  let s := p.adapter .master
  p.setAdapter .master { s with isr := s.isr &&& ~~~bit line }

/-- `ica_intack` for a line with a slave. -/
def intackSlave (line : Fin 8) : Except Fault (Option (BitVec 8) × Pic) := do
  let r ← p.accept .slave
  match r.1 with
  | none => return (none, r.2.endService line)
  | some line' => return (some ((r.2.adapter .slave).base + BitVec.ofNat 8 line'), r.2)

/-- `ica_intack`: the vector, or `none` where it returns `ICA_INTACK_REJECT`. -/
def intack : Except Fault (Option (BitVec 8) × Pic) := do
  let r ← p.accept .master
  match r.1 with
  | none => return (none, r.2)
  | some line =>
    let s := r.2.adapter .master
    if on s.ssr line then r.2.intackSlave line
    else return (some (s.base + BitVec.ofNat 8 line), r.2)

/-! ## The ports -/

def adapterForPort (port : BitVec 16) : Chip :=
  if 0x20 ≤ port ∧ port ≤ 0x3f then .master else .slave

/-- `ICA_PORT_0` of an adapter. -/
def port0 : Chip → BitVec 16
  | .master => 0x20
  | .slave => 0xa0

/-- A poll answered: "See if there is one … Acknowledge it." -/
def polled (a : Chip) : Except Fault Pic :=
  if p.scanByte a &&& 0x80 ≠ 0 then do
    let r ← p.accept a
    return { r.2 with hwInt := false }
  else .ok p

/-- `SWPIC_inb`. -/
def inb (port : BitVec 16) : Except Fault (BitVec 8 × Pic) :=
  let a := adapterForPort port
  let s := p.adapter a
  if s.mode &&& poll ≠ 0 then do
    let p := { p with lock := 1 }
    let p := p.setAdapter a { s with mode := s.mode &&& ~~~poll }
    let q ← p.polled a
    return (p.scanByte a, { q with lock := 0 })
  else .ok
    (if port = port0 a then (if s.mode &&& ris ≠ 0 then s.isr else s.irr) else s.imr, p)

/-- ICW1 of `SWPIC_outb`. -/
def icw1 (a : Chip) (value : BitVec 8) : Pic :=
  let s := p.adapter a
  { p.setAdapter a { intLine := s.intLine, mode := value.setWidth 16 &&& icw1Mask } with
      sequence := Function.update p.sequence a .icw2
      tally := Function.update p.tally a fun _ => {} }

/-- "We might have masked out a pending interrupt." -/
def maskOut (a : Chip) : Except Fault Pic :=
  let s := p.adapter a
  if s.cpuInt ∧ on s.imr s.intLine then
    match a with
    | .master => .ok p.lower
    | .slave => p.lowerSlave
  else .ok p

/-- OCW1 of `SWPIC_outb`: the new mask may hide the request the CPU was offered, or show another. -/
def ocw1 (a : Chip) (value : BitVec 8) : Except Fault Pic := do
  let p ← (p.setAdapter a { p.adapter a with imr := value }).maskOut a
  if (p.adapter a).cpuInt then return p else p.rescan a

theorem line_lt (value : BitVec 8) : (value &&& 7).toNat % 8 < 8 := Nat.mod_lt _ (by decide)

/-- OCW2 of `SWPIC_outb`. -/
def ocw2 (a : Chip) (value : BitVec 8) : Except Fault Pic :=
  let s := p.adapter a
  let line : Fin 8 := ⟨(value &&& 7).toNat % 8, line_lt value⟩
  match ((value >>> 5) &&& 7).toNat with
  | 0 => .ok (p.setAdapter a { s with mode := s.mode &&& ~~~raeoi })
  | 1 => p.eoi a none false
  | 3 => p.eoi a (some line) false
  | 4 => .ok (p.setAdapter a { s with mode := s.mode ||| raeoi })
  | 5 => p.eoi a none true
  | 6 => .ok (p.setAdapter a { s with hipri := ((value + 1) &&& 7).toNat })
  | 7 => p.eoi a (some line) true
  | _ => .ok p

/-- The mode OCW3 leaves. -/
def ocw3Mode (mode : BitVec 16) (value : BitVec 8) : BitVec 16 :=
  let mode := if value &&& 0x40 ≠ 0 then
      (mode &&& ~~~smm) ||| ((value.setWidth 16 <<< 4) &&& smm) else mode
  if value &&& 0x04 ≠ 0 then mode ||| poll
  else if value &&& 0x02 ≠ 0 then (mode &&& ~~~ris) ||| ((value.setWidth 16 <<< 11) &&& ris)
  else mode

/-- OCW3 of `SWPIC_outb`. -/
def ocw3 (a : Chip) (value : BitVec 8) : Pic :=
  let s := p.adapter a
  p.setAdapter a { s with mode := ocw3Mode s.mode value }

/-- The word after ICW2, and after ICW3. -/
def afterIcw2 (mode : BitVec 16) : Sequence :=
  if mode &&& singl = 0 then .icw3 else if mode &&& ic4 ≠ 0 then .icw4 else .ready

def afterIcw3 (mode : BitVec 16) : Sequence :=
  if mode &&& ic4 ≠ 0 then .icw4 else .ready

def setSequence (a : Chip) (s : Sequence) : Pic :=
  { p with sequence := Function.update p.sequence a s }

/-- The words of `SWPIC_outb` after ICW1, by what `sequence` expects; `odd` is the port's low bit. -/
def word (a : Chip) (odd : Bool) (value : BitVec 8) : Except Fault Pic :=
  let s := p.adapter a
  match p.sequence a with
  | .powerOn => .ok p
  | .ready =>
    if odd then p.ocw1 a value
    else if value &&& 8 = 0 then p.ocw2 a value
    else .ok (p.ocw3 a value)
  | .icw2 =>
    .ok (if odd then
      (p.setAdapter a { s with base := value &&& 0xf8 }).setSequence a (afterIcw2 s.mode)
    else p)
  | .icw3 =>
    .ok (if odd then (p.setAdapter a { s with ssr := value }).setSequence a (afterIcw3 s.mode) else p)
  | .icw4 =>
    let p := if odd then
        p.setAdapter a
          { s with mode := (s.mode &&& ~~~icw4Mask) ||| ((value.setWidth 16 <<< 4) &&& icw4Mask) }
      else p
    .ok (p.setSequence a .ready)

/-- The low bit of a port. -/
def odd (port : BitVec 16) : Bool := port.getLsbD 0

/-- Whether a byte is ICW1. -/
def isIcw1 (port : BitVec 16) (value : BitVec 8) : Bool := !odd port && value.getLsbD 4

/-- `SWPIC_outb`. -/
def outb (port : BitVec 16) (value : BitVec 8) : Except Fault Pic :=
  let a := adapterForPort port
  if port &&& 0xfffe ≠ port0 a then .ok p
  else if isIcw1 port value then .ok (p.icw1 a value)
  else do
    let p ← { p with lock := 1 }.word a (odd port) value
    return { p with lock := 0 }

/-! ## Delayed lines and the CPU -/

/-- The line's delivery blocked. -/
def hold (a : Chip) (line : Fin 8) : Pic :=
  { p with delayed := Function.update p.delayed a (p.delayed a ||| bit line) }

/-- `host_DelayHwInterrupt` with a delay, its quick event scheduled: delivery is blocked, the requests
are counted. -/
def delay (a : Chip) (line : Fin 8) (calls : ℕ) : Except Fault Pic :=
  if calls = 0 then .ok (p.hold a line) else (p.hold a line).hwInterrupt a line calls

/-- …and the block over. -/
def undelay (a : Chip) (line : Fin 8) : Pic :=
  { p with delayed := Function.update p.delayed a (p.delayed a &&& ~~~bit line) }

/-- `softpc_eoi_release`. -/
def release (a : Chip) (line : Fin 8) : Except Fault Pic := (p.undelay a line).rescan a

/-- The CPU loop with interrupts enabled: a raised line is acknowledged and dropped. -/
def acknowledge : Except Fault Pic :=
  if p.hwInt then do
    let r ← p.intack
    return { r.2 with hwInt := false }
  else .ok p

end Pic

/-! ## Runs -/

/-- What reaches the controllers: the guest's port accesses, the devices' lines, and the CPU. -/
inductive Op
  | outb (port : BitVec 16) (value : BitVec 8)
  | inb (port : BitVec 16)
  | hwInterrupt (a : Chip) (line : Fin 8) (calls : ℕ+)
  | clearInt (a : Chip) (line : Fin 8)
  | cancel (a : Chip) (line : Fin 8)
  | delay (a : Chip) (line : Fin 8) (calls : ℕ)
  | release (a : Chip) (line : Fin 8)
  /-- The cancellation of a delay, whose device withdraws its request by a call of its own. -/
  | undelay (a : Chip) (line : Fin 8)
  | acknowledge
  /-- The acknowledge of a pending FPU exception, outside the loop. -/
  | intack
  deriving DecidableEq

/-- One operation. -/
def step (p : Pic) : Op → Except Fault Pic
  | .outb port value => p.outb port value
  | .inb port => do
    let r ← p.inb port
    return r.2
  | .hwInterrupt a line calls => p.hwInterrupt a line calls
  | .clearInt a line => p.clearInt a line
  | .cancel a line => p.hwInterruptCancel a line
  | .delay a line calls => p.delay a line calls
  | .release a line => p.release a line
  | .undelay a line => .ok (p.undelay a line)
  | .acknowledge => p.acknowledge
  | .intack => do
    let r ← p.intack
    return r.2

/-- A run of operations. -/
def run (p : Pic) (ops : List Op) : Except Fault Pic := ops.foldlM step p

end SoftPC.Ica
