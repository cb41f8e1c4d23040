import Mathlib.Logic.Function.Basic
import SoftPC.System.Ica
import SoftPC.Machinery.Numerals

/-!
# Comms/Com — the four UARTs

`com.c`: one record for each port, the register file the guest reads and writes (`inb`, `outb`), and the
host's side of it: characters received, modem lines changed, transmit delays expired.  What a call learns
from the host comes with it (`Host`).  The calls of `ica_hw_interrupt` and `ica_clear_int` are kept in
`calls`, in their order, and a `Board` hands them to the PIC: COM1 and COM3 share one line of the master,
COM2 and COM4 another.
-/

namespace SoftPC.Com

/-- The four interrupt causes of a port. -/
inductive Cause
  | rls
  | rda
  | thre
  | ms
  deriving DecidableEq

/-- The bit of `INT_ENABLE_REG` that enables a cause. -/
def Cause.enableBit : Cause → ℕ
  | .rda => 0
  | .thre => 1
  | .rls => 2
  | .ms => 3

/-- `RLS_INT`, `RDA_INT`, `THRE_INT`, `MS_INT`. -/
def Cause.id : Cause → BitVec 2
  | .rls => 3
  | .rda => 2
  | .thre => 1
  | .ms => 0

/-- What a port asks of the PIC. -/
inductive Call
  | raise
  | clear
  deriving DecidableEq

/-- The bits of a register, the lowest first. -/
def byte (bits : List Bool) : BitVec 8 := (BitVec.ofBoolListLE bits).setWidth 8

/-- `INT_ID_REG`. -/
structure IntId where
  noIntPending : Bool := false
  interruptId : BitVec 2 := 0

def IntId.all (r : IntId) : BitVec 8 :=
  byte [r.noIntPending, r.interruptId.getLsbD 0, r.interruptId.getLsbD 1]

/-- `MODEM_CONTROL_REG`, whose three upper bits are kept zero. -/
structure ModemControl where
  dtr : Bool := false
  rts : Bool := false
  out1 : Bool := false
  out2 : Bool := false
  loop : Bool := false

def ModemControl.ofByte (value : BitVec 8) : ModemControl :=
  ⟨value.getLsbD 0, value.getLsbD 1, value.getLsbD 2, value.getLsbD 3, value.getLsbD 4⟩

def ModemControl.all (r : ModemControl) : BitVec 8 := byte [r.dtr, r.rts, r.out1, r.out2, r.loop]

/-- `LINE_STATUS_REG`. -/
structure LineStatus where
  dataReady : Bool := false
  overrunError : Bool := false
  parityError : Bool := false
  framingError : Bool := false
  breakInterrupt : Bool := false
  txHoldingEmpty : Bool := false
  txShiftEmpty : Bool := false
  pad : Bool := false

def LineStatus.ofByte (value : BitVec 8) : LineStatus :=
  ⟨value.getLsbD 0, value.getLsbD 1, value.getLsbD 2, value.getLsbD 3, value.getLsbD 4,
    value.getLsbD 5, value.getLsbD 6, value.getLsbD 7⟩

def LineStatus.all (r : LineStatus) : BitVec 8 :=
  byte [r.dataReady, r.overrunError, r.parityError, r.framingError, r.breakInterrupt,
    r.txHoldingEmpty, r.txShiftEmpty, r.pad]

/-- `MODEM_STATUS_REG`. -/
structure ModemStatus where
  deltaCts : Bool := false
  deltaDsr : Bool := false
  teri : Bool := false
  deltaRlsd : Bool := false
  cts : Bool := false
  dsr : Bool := false
  ri : Bool := false
  rlsd : Bool := false

def ModemStatus.all (r : ModemStatus) : BitVec 8 :=
  byte [r.deltaCts, r.deltaDsr, r.teri, r.deltaRlsd, r.cts, r.dsr, r.ri, r.rlsd]

/-- The modem lines of the host, `HOST_COM_MODEM`. -/
structure Modem where
  cts : Bool := false
  dsr : Bool := false
  rlsd : Bool := false
  ri : Bool := false

/-- What one call learns from the host: the characters a flush reads, `HOST_COM_INPUT_READY`, the modem
lines, and `host_com_read` with its error mask. -/
structure Host where
  input : List (BitVec 8) := []
  ready : Bool := false
  modem : Modem := {}
  char : BitVec 8 := 0
  errorMask : BitVec 5 := 0

/-- `ADAPTER_STATE`, with the port's `com_critical`.  The `*_interrupt_state` flags are `pending`. -/
structure Uart where
  txBuffer : BitVec 8 := 0
  rxBuffer : BitVec 8 := 0
  divisorLatch : BitVec 16 := 0
  intEnable : BitVec 8 := 0
  intId : IntId := {}
  lineControl : BitVec 8 := 0
  modemControl : ModemControl := {}
  lineStatus : LineStatus := {}
  modemStatus : ModemStatus := {}
  scratch : BitVec 8 := 0
  breakState : Bool := false
  loopbackState : Bool := false
  dtrState : Bool := false
  rtsState : Bool := false
  out1State : Bool := false
  out2State : Bool := false
  pending : Cause → Bool := fun _ => false
  comBaudInd : ℕ := 0
  hadFirstRead : Bool := false
  critical : ℕ := 0
  calls : List Call := []

def validLatches : List (BitVec 16) :=
  [1, 2, 3, 6, 12, 16, 24, 32, 48, 58, 64, 96, 192, 384, 768, 857, 1047, 1536, 2304]

/-- `LCRFlushMask`: not DLAB, `set_break` or the stop bits. -/
def flushMask : BitVec 8 := 0x3b

def selectBits (wordLength : BitVec 2) : BitVec 8 :=
  if wordLength = 0 then 0x1f else if wordLength = 1 then 0x3f else if wordLength = 2 then 0x7f else 0xff

namespace Uart

variable (u : Uart)

/-- The port as a call finds it. -/
def start : Uart := { u with calls := [] }

def dlab : Bool := u.lineControl.getLsbD 7

def enabled (c : Cause) : Bool := u.intEnable.getLsbD c.enableBit

/-- Some cause is ON. -/
def busy : Bool := u.pending .rls || u.pending .rda || u.pending .thre || u.pending .ms

def on (c : Cause) : Uart := { u with pending := Function.update u.pending c true }

def off (c : Cause) : Uart := { u with pending := Function.update u.pending c false }

/-! ## Interrupt emulation -/

/-- "Make sure that some thing else has not raised an interrupt already." -/
def raiseInterrupt : Uart := if u.busy then u else { u with calls := u.calls ++ [.raise] }

/-- "If so then we cant drop the line." -/
def clearInterrupt : Uart := if u.busy then u else { u with calls := u.calls ++ [.clear] }

/-- The three causes the adapter reports only with OUT2 set. -/
def raiseGated (c : Cause) : Uart :=
  if !u.modemControl.out2 then u
  else if !u.enabled c then u
  else u.raiseInterrupt.on c

def raiseRls : Uart := u.raiseGated .rls

def raiseMs : Uart := u.raiseGated .ms

def raiseThre : Uart := u.raiseGated .thre

/-- Received data is reported in loopback too. -/
def raiseRda : Uart :=
  if !u.modemControl.out2 && !u.loopbackState then u
  else if !u.enabled .rda then u
  else u.raiseInterrupt.on .rda

def generateIir : Uart :=
  let report (c : Cause) : Uart := { u with intId := ⟨false, c.id⟩ }
  if u.pending .rls then report .rls
  else if u.pending .rda then report .rda
  else if u.pending .thre then report .thre
  else if u.pending .ms then report .ms
  else { u with intId := ⟨true, 0⟩ }

/-! ## Characters -/

def setRecvCharStatus : Uart :=
  if u.lineStatus.dataReady then
    { u with lineStatus := { u.lineStatus with overrunError := true } }.raiseRls
  else { u with lineStatus := { u.lineStatus with dataReady := true } }.raiseRda

def setXmitCharStatus : Uart :=
  { u with lineStatus := { u.lineStatus with txHoldingEmpty := true, txShiftEmpty := true } }.raiseThre

/-- `com_flush_input`: `rx_buffer` is left with the last character read. -/
def comFlushInput (h : Host) : Uart :=
  { u with rxBuffer := h.input.getLast?.getD u.rxBuffer }.setXmitCharStatus

/-- The event of a transmit delay. -/
def doWaitOnSend : Uart := u.setXmitCharStatus

/-- The error bits of `host_com_read`; `HOST_COM_NO_DATA` sets none, and is reported all the same. -/
def noteErrors (mask : BitVec 5) : Uart :=
  if mask = 0 then u
  else
    { u with lineStatus := { u.lineStatus with
      overrunError := u.lineStatus.overrunError || mask.getLsbD 1,
      framingError := u.lineStatus.framingError || mask.getLsbD 0,
      parityError := u.lineStatus.parityError || mask.getLsbD 3,
      breakInterrupt := u.lineStatus.breakInterrupt || mask.getLsbD 2 } }.raiseRls

def recvChar (h : Host) : Uart :=
  ({ u with rxBuffer := h.char }.noteErrors h.errorMask).setRecvCharStatus

/-- `com_recv_char`: only outside the port's critical region. -/
def comRecvChar (h : Host) : Uart :=
  if u.critical = 0 then { u with critical := 1 }.recvChar h else u

/-! ## Modem lines -/

/-- A modem input that has changed, with its delta bit. -/
def setCts (state : Bool) : Uart :=
  { u with modemStatus := { u.modemStatus with cts := state, deltaCts := true } }.raiseMs

def setDsr (state : Bool) : Uart :=
  { u with modemStatus := { u.modemStatus with dsr := state, deltaDsr := true } }.raiseMs

def setRlsd (state : Bool) : Uart :=
  { u with modemStatus := { u.modemStatus with rlsd := state, deltaRlsd := true } }.raiseMs

/-- RI going on is recorded, and only its end reported. -/
def setRi (state : Bool) : Uart :=
  if state then { u with modemStatus := { u.modemStatus with ri := true } }
  else { u with modemStatus := { u.modemStatus with ri := false, teri := true } }.raiseMs

/-- `switch (change_state(external, internal))`. -/
def changeState (external internal : Bool) (change : Uart → Bool → Uart) : Uart :=
  if external = internal then u else change u external

def noteCts (m : Modem) : Uart := u.changeState m.cts u.modemStatus.cts setCts

def noteDsr (m : Modem) : Uart := u.changeState m.dsr u.modemStatus.dsr setDsr

def noteRlsd (m : Modem) : Uart := u.changeState m.rlsd u.modemStatus.rlsd setRlsd

def noteRi (m : Modem) : Uart := u.changeState m.ri u.modemStatus.ri setRi

def modemChange (m : Modem) : Uart :=
  if u.loopbackState then u else (((u.noteCts m).noteDsr m).noteRlsd m).noteRi m

/-! ## Parameters -/

def setBreak : Uart := { u with breakState := u.lineControl.getLsbD 6 }

/-- An illegal divisor leaves the line speed. -/
def mapBaud : Uart :=
  if validLatches.idxOf u.divisorLatch < validLatches.length then
    { u with comBaudInd := validLatches.idxOf u.divisorLatch }
  else u

def setBaudRate (h : Host) : Uart := (u.comFlushInput h).mapBaud

def setLineControl (value : BitVec 8) : Uart := { u with lineControl := value }

/-- The loopback of an output into a modem input. -/
def looped (state : Bool) (change : Uart → Bool → Uart) : Uart :=
  if u.loopbackState then change u state else u

def setDtr : Uart :=
  u.changeState u.modemControl.dtr u.dtrState fun u state =>
    { u with dtrState := state }.looped state setDsr

def setRts : Uart :=
  u.changeState u.modemControl.rts u.rtsState fun u state =>
    { u with rtsState := state }.looped state setCts

def setOut1 : Uart :=
  u.changeState u.modemControl.out1 u.out1State fun u state =>
    { u with out1State := state }.looped state setRi

/-- "Check for immediately actionable interrupts." -/
def raiseReady : Uart := if u.lineStatus.dataReady then u.raiseRda else u

def raiseEmpty : Uart := if u.lineStatus.txHoldingEmpty then u.raiseThre else u

def actionable : Uart := u.raiseReady.raiseEmpty

def setOut2 : Uart :=
  u.changeState u.modemControl.out2 u.out2State fun u state =>
    if u.loopbackState then { u with out2State := state }.setRlsd state
    else if state then { u with out2State := state }.actionable
    else { u with out2State := state }

def setLoopback (m : Modem) : Uart :=
  u.changeState u.modemControl.loop u.loopbackState fun u state =>
    if state then { u with loopbackState := state } else { u with loopbackState := state }.modemChange m

/-! ## The register file -/

/-- `RS232_TX_RX` … `RS232_SCRATCH`. -/
inductive Reg
  | txRx
  | ier
  | iir
  | lcr
  | mcr
  | lsr
  | msr
  | scratch
  deriving DecidableEq

/-- The first read of the receive buffer flushes it. -/
def firstRead (h : Host) : Uart :=
  if u.hadFirstRead then u else { u.comFlushInput h with hadFirstRead := true }

def takeRx : Uart := { u with lineStatus := { u.lineStatus with dataReady := false } }.off .rda

/-- With more input the next `recv_char` is queued, and the region stays critical. -/
def checkInput (wasCritical ready : Bool) : Uart :=
  if u.loopbackState then u.setXmitCharStatus
  else if wasCritical && !ready then { u with critical := 0 }
  else u

/-- A read of the receive buffer. -/
def readRx (h : Host) : BitVec 8 × Uart :=
  ((u.firstRead h).rxBuffer,
    (u.firstRead h).takeRx.clearInterrupt.checkInput (u.firstRead h).lineStatus.dataReady h.ready)

def readIir : BitVec 8 × Uart :=
  (u.generateIir.intId.all,
    if u.generateIir.intId.interruptId = Cause.thre.id then (u.generateIir.off .thre).clearInterrupt
    else u.generateIir)

def clearErrors : Uart :=
  { u with lineStatus := { u.lineStatus with
    overrunError := false, parityError := false, framingError := false, breakInterrupt := false } }.off .rls

def readLsr : BitVec 8 × Uart := (u.lineStatus.all, u.clearErrors.clearInterrupt)

def modemInputs (h : Host) : Uart :=
  if u.loopbackState then
    { u with modemStatus := { u.modemStatus with
      cts := u.modemControl.rts, dsr := u.modemControl.dtr,
      ri := u.modemControl.out1, rlsd := u.modemControl.out2 } }
  else u.modemChange h.modem

def clearDeltas : Uart :=
  { u with modemStatus := { u.modemStatus with
    deltaCts := false, deltaDsr := false, deltaRlsd := false, teri := false } }.off .ms

def readMsr (h : Host) : BitVec 8 × Uart :=
  ((u.modemInputs h).modemStatus.all, (u.modemInputs h).clearDeltas.clearInterrupt)

/-- `com_inb`. -/
def inb (h : Host) : Reg → BitVec 8 × Uart
  | .txRx => if u.dlab then (u.divisorLatch.extractLsb' 0 8, u) else u.readRx h
  | .ier => (if u.dlab then u.divisorLatch.extractLsb' 8 8 else u.intEnable, u)
  | .iir => u.readIir
  | .lcr => (u.lineControl, u)
  | .mcr => (u.modemControl.all, u)
  | .lsr => u.readLsr
  | .msr => u.readMsr h
  | .scratch => (u.scratch, u)

def holdTx (value : BitVec 8) : Uart :=
  { (u.off .thre).clearInterrupt with
    txBuffer := value
    lineStatus := { u.lineStatus with txHoldingEmpty := false, txShiftEmpty := false } }

/-- The character comes back in loopback; else, with pacing, `doWaitOnSend` is queued. -/
def send (pacing : Bool) : Uart :=
  if u.loopbackState then
    { u with rxBuffer := u.txBuffer &&& selectBits (u.lineControl.extractLsb' 0 2)
      }.setXmitCharStatus.setRecvCharStatus
  else if pacing then u
  else u.doWaitOnSend

/-- A write of the transmit buffer. -/
def writeTx (pacing : Bool) (value : BitVec 8) : Uart := (u.holdTx value).send pacing

/-- "Kill off any pending interrupts for those items which are set now as disabled." -/
def enable (value : BitVec 8) : Uart :=
  { u with
    intEnable := value &&& 0xf
    pending := fun c => u.pending c && (value &&& 0xf).getLsbD c.enableBit }

def writeIer (value : BitVec 8) : Uart := (u.enable value).actionable.clearInterrupt

def flushFor (h : Host) (value : BitVec 8) : Uart :=
  if value &&& flushMask ≠ u.lineControl &&& flushMask then u.comFlushInput h else u

def writeLcr (h : Host) (value : BitVec 8) : Uart :=
  ((u.flushFor h value).setLineControl value).setBreak

def writeMcr (h : Host) (value : BitVec 8) : Uart :=
  if u.modemControl.all = value then u
  else ({ u with modemControl := .ofByte value }.setLoopback h.modem).setDtr.setRts.setOut1.setOut2

/-- `tx_shift_empty` is read only. -/
def writeLsr (value : BitVec 8) : Uart :=
  { u with lineStatus := { LineStatus.ofByte value with txShiftEmpty := u.lineStatus.txShiftEmpty } }

def setDeltas (value : BitVec 8) : Uart :=
  { u with modemStatus := { u.modemStatus with
    deltaCts := value.getLsbD 0, deltaDsr := value.getLsbD 1,
    teri := value.getLsbD 2, deltaRlsd := value.getLsbD 3 } }

/-- "DrDOS writes to this reg after setting int on MSR change and expects to get an interrupt back!!!" -/
def writeMsr (value : BitVec 8) : Uart :=
  if value &&& 0xf = u.modemStatus.all &&& 0xf then u
  else if u.loopbackState then u.setDeltas value
  else (u.setDeltas value).raiseMs

/-- `com_outb`. -/
def outb (pacing : Bool) (h : Host) (value : BitVec 8) : Reg → Uart
  | .txRx =>
    if u.dlab then
      { u with divisorLatch := u.divisorLatch.extractLsb' 8 8 ++ value }.setBaudRate h
    else u.writeTx pacing value
  | .ier =>
    if u.dlab then
      { u with divisorLatch := value ++ u.divisorLatch.extractLsb' 0 8 }.setBaudRate h
    else u.writeIer value
  | .iir => u
  | .lcr => u.writeLcr h value
  | .mcr => u.writeMcr h value
  | .lsr => u.writeLsr value
  | .msr => u.writeMsr value
  | .scratch => { u with scratch := value }

/-- The default state of the registers and of the state variables. -/
def defaults : Uart :=
  { u with
    intEnable := 0
    intId := ⟨true, 0⟩
    lineControl := 0xff
    modemControl := ⟨true, true, true, true, false⟩
    lineStatus := { txHoldingEmpty := true, txShiftEmpty := true }
    modemStatus := {}
    pending := fun _ => false
    breakState := false
    loopbackState := false
    dtrState := true
    rtsState := true
    out1State := true
    out2State := true
    critical := 0 }

def comReset (h : Host) : Uart :=
  (((u.defaults.setBaudRate h).setLineControl 0).setBreak.setLoopback h.modem).setDtr.setRts.setOut1.setOut2

/-- `com_init`, whose `host_com_reset` leaves nothing to read. -/
def comInit : Uart := { u with hadFirstRead := false }.comReset {}

end Uart

/-! ## The board -/

/-- `adapter_for_port`, COM1 being 0. -/
def adapterForPort (port : BitVec 16) : Fin 4 :=
  if port &&& 0x300 = 0x300 then (if port &&& 0xf8 = 0xf8 then 0 else 2)
  else (if port &&& 0xf8 = 0xf8 then 1 else 3)

/-- `port & 0x7`. -/
def regOf (port : BitVec 16) : Uart.Reg :=
  match (port.extractLsb' 0 3).toFin with
  | 0 => .txRx
  | 1 => .ier
  | 2 => .iir
  | 3 => .lcr
  | 4 => .mcr
  | 5 => .lsr
  | 6 => .msr
  | 7 => .scratch

/-- `hw_interrupt_priority`, from `int_pri`: `CPU_RS232_PRI_INT` and `CPU_RS232_SEC_INT`. -/
def lineOf : Fin 4 → Fin 8
  | 0 | 2 => 4
  | 1 | 3 => 3

/-- The four ports, the PIC, and `tx_pacing_enabled`. -/
structure Board where
  uart : Fin 4 → Uart
  pic : Ica.Pic := .init
  txPacing : Bool := false

/-- After `com_init` of the four ports. -/
def Board.init (pacing : Bool) : Board := { uart := fun _ => ({} : Uart).comInit, txPacing := pacing }

/-- A port's calls, made on the PIC. -/
def serve (line : Fin 8) (p : Ica.Pic) : Call → Except Ica.Fault Ica.Pic
  | .raise => p.hwInterrupt .master line 1
  | .clear => p.clearInt .master line

/-- What reaches the ports (the guest, the host, and the events of both delays), and whatever else
happens at the PIC. -/
inductive Op
  | inb (port : BitVec 16) (h : Host)
  | outb (port : BitVec 16) (value : BitVec 8) (h : Host)
  /-- `com_recv_char`. -/
  | comRecvChar (a : Fin 4) (h : Host)
  /-- The event that `com_inb` queues for the next character. -/
  | recvChar (a : Fin 4) (h : Host)
  /-- The event of a transmit delay. -/
  | doWaitOnSend (a : Fin 4)
  /-- `com_modem_change`. -/
  | modemChange (a : Fin 4) (h : Host)
  | pic (op : Ica.Op)

namespace Board

/-- A port's function, with its calls made on the PIC. -/
def access (b : Board) (a : Fin 4) (f : Uart → Uart) : Except Ica.Fault Board := do
  let u := f (b.uart a).start
  let p ← u.calls.foldlM (serve (lineOf a)) b.pic
  return { b with uart := Function.update b.uart a u, pic := p }

def step (b : Board) : Op → Except Ica.Fault Board
  | .inb port h => b.access (adapterForPort port) fun u => (u.inb h (regOf port)).2
  | .outb port value h => b.access (adapterForPort port) fun u => u.outb b.txPacing h value (regOf port)
  | .comRecvChar a h => b.access a fun u => u.comRecvChar h
  | .recvChar a h => b.access a fun u => u.recvChar h
  | .doWaitOnSend a => b.access a Uart.doWaitOnSend
  | .modemChange a h => b.access a fun u => u.modemChange h.modem
  | .pic op => do
    let p ← Ica.step b.pic op
    return { b with pic := p }

def run (b : Board) (ops : List Op) : Except Ica.Fault Board := ops.foldlM step b

end Board

end SoftPC.Com
