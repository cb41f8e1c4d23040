import SoftPC.Machinery.Numerals
import Mathlib.Data.BitVec
import Mathlib.Logic.Function.Basic

/-!
# Disks/Fdisk — the hard disk controller

    ports 1f0–1f8, 3f6 ──▸ wd2010 ──▸ task file ──▸ activecmd(START | CONTINUE | BRDY) ──▸ image
                     └───▸ rmac ──▸ sector buffer ──256th word──▴        └──▸ fdisk_pause ──▴

`base/disks/fdisk.c` in the standalone build, over the media of `compat/hdd_media.c`.  A command is a state
machine kept in a static variable of its function, of which only the values that outlast a call are
values of the model; a call that dereferences `pseldrv`, or calls `activecmd`, while it is null stops the
model.  `long` has 32 bits.  A request within a medium goes through, unless it is a write to one that is
read-only.  `maxsect`, `curoffset` and `physattached`, which nothing here reads, are left out, and
`driveid` is the drive's number.
-/

namespace SoftPC.Fdisk

abbrev Byte := BitVec 8

/-- The words of a sector. -/
abbrev Sector := BitVec 8 → BitVec 16

/-- `softpc_disk_media`, with what its medium holds. -/
structure Image where
  totalSectors : ℕ
  sectors : ℕ → Sector
  writable : Bool := true

/-- One sector replaced. -/
def Image.write (image : Image) (n : ℕ) (sector : Sector) : Image :=
  { image with sectors := Function.update image.sectors n sector }

/-- `drvinfo_`. -/
structure Drive where
  maxhead : ℕ
  maxcyl : ℕ
  nsecspertrack : ℕ
  nbytespercyl : ℕ
  nbytespertrack : ℕ
  wiredup : Bool
  deriving DecidableEq

structure TaskFile where
  error : Byte := 0
  scount : Byte := 0
  snum : Byte := 0
  cyllo : Byte := 0
  cylhi : Byte := 0
  drvhd : Byte := 0
  stat : Byte := 0
  pcmp : Byte := 0
  cmd : Byte := 0
  deriving DecidableEq

/-- Its places. -/
inductive Reg
  | error | scount | snum | cyllo | cylhi | drvhd | stat | pcmp | cmd
  deriving DecidableEq

/-! ## Bits -/

def busy : Byte := 0x80
def drdy : Byte := 0x40
def seekComplete : Byte := 0x10
def drq : Byte := 0x08
def dc : Byte := 0x04
def cip : Byte := 0x02
def err : Byte := 0x01

/-- `WDERRNOID` and `WDERRABORT`. -/
def noid : Byte := 0x10
def abort : Byte := 0x04

def has (v bits : Byte) : Bool := v &&& bits ≠ 0

/-! ## Commands -/

/-- The command functions. -/
inductive Cmd
  | restore | seek | rsector | wsector | format | rverify | diagnose | setparams | bad
  deriving DecidableEq

/-- `state`, what a command is called for. -/
inductive Signal
  | start | continue | brdy
  deriving DecidableEq

/-- `s` in `rsector`, between calls. -/
inductive ReadS
  | s0 | s30 | s31 | s32
  deriving DecidableEq

/-- `s` in `wsector`. -/
inductive WriteS
  | s0 | s1 | s4 | s10 | s11
  deriving DecidableEq

/-- `s` in `format`. -/
inductive FormatS
  | s0 | s1 | s3
  deriving DecidableEq

/-- The static variables of the functions. -/
structure Statics where
  rs : ReadS := .s0
  ws : WriteS := .s0
  fs : FormatS := .s0
  intrq : Bool := false
  deriving DecidableEq

/-- What the guest and the interrupt controller see. -/
inductive Seen
  /-- `ica_hw_interrupt(1, 6, 1)`. -/
  | hwInterrupt
  /-- `ica_clear_int(1, 6)`. -/
  | clearInt
  /-- A byte or a word read from a port. -/
  | byte (v : Byte)
  | word (v : BitVec 16)
  deriving DecidableEq

/-- The controller, its media, its queued events and what has been seen of it, the last first. -/
structure Hdd where
  drives : Fin 2 → Drive
  media : Fin 2 → Option Image
  pseldrv : Option (Fin 2) := none
  fixeddiskreg : Byte := 0
  digipreg : Byte := 0
  taskfile : TaskFile := {}
  activecmd : Option Cmd := none
  sectindx : BitVec 8 := 0
  sectbuffer : Sector := fun _ => 0
  statics : Statics := {}
  /-- Events of `fdisk_pause` and of `disk_int_call_back`. -/
  pauses : ℕ := 0
  interrupts : ℕ := 0
  seen : List Seen := []

/-- Why a step does not end. -/
inductive Stop
  /-- `pseldrv` is null. -/
  | noDrive
  /-- `activecmd` is null. -/
  | noCommand
  /-- There is no such event. -/
  | outOfTurn
  deriving DecidableEq

namespace Hdd

variable (h : Hdd)

def see (s : Seen) : Hdd := { h with seen := s :: h.seen }

def setStat (v : Byte) : Hdd := { h with taskfile := { h.taskfile with stat := v } }

/-- `taskfile[WDSTAT] |= bits` and `&= ~bits`. -/
def raise (bits : Byte) : Hdd := h.setStat (h.taskfile.stat ||| bits)

def lower (bits : Byte) : Hdd := h.setStat (h.taskfile.stat &&& ~~~bits)

def setError (v : Byte) : Hdd := { h with taskfile := { h.taskfile with error := v } }

/-- A bit of the status is set. -/
def status (bits : Byte) : Bool := has h.taskfile.stat bits

/-- `*pseldrv`. -/
def selected : Except Stop (Fin 2 × Drive) :=
  match h.pseldrv with
  | some i => .ok (i, h.drives i)
  | none => .error .noDrive

/-! ## Interrupts and the sector buffer -/

/-- `irq(IRQASSERT)`. -/
def irqAssert : Hdd :=
  if h.statics.intrq then h
  else
    let h := { h with statics := { h.statics with intrq := true } }
    if has h.fixeddiskreg 2 then h else { h with interrupts := h.interrupts + 1 }

/-- `irq(IRQDEASSERT)`. -/
def irqDeassert : Hdd :=
  if h.statics.intrq then
    let h := { h with statics := { h.statics with intrq := false } }
    if has h.fixeddiskreg 2 then h else h.see .clearInt
  else h

/-- `rmac(0, BCR)`. -/
def bcr : Hdd := { h with sectindx := 0 }

/-! ## Positions -/

/-- Where the task file points. -/
def position : Byte × Byte × Byte × Byte × Byte :=
  (h.taskfile.scount, h.taskfile.snum, h.taskfile.cyllo, h.taskfile.cylhi, h.taskfile.drvhd)

def head : ℕ := (h.taskfile.drvhd &&& 0xf).toNat

def cylinder : ℕ := h.taskfile.cylhi.toNat * 256 + h.taskfile.cyllo.toNat

/-- `dosearchid`; `none` is `IDMISMATCH`. -/
def dosearchid : Except Stop (Option (BitVec 32)) :=
  if h.head > 7 && !has h.fixeddiskreg 8 then .ok none
  else do
    let (_, d) ← h.selected
    if h.head > d.maxhead then return none
    else if h.taskfile.snum.toNat > d.nsecspertrack ∨ h.taskfile.snum.toNat = 0 then return none
    else if h.cylinder > d.maxcyl then return none
    else
      return some (.ofNat 32 (h.cylinder * d.nbytespercyl + h.head * d.nbytespertrack
        + (h.taskfile.snum.toNat - 1) * 512))

/-- The start of the next track, in `updateposregs`. -/
def nextTrack (d : Drive) : Hdd :=
  if h.head + 1 > d.maxhead then
    { h with taskfile := { h.taskfile with
      snum := 1
      drvhd := h.taskfile.drvhd &&& 0xf0
      cyllo := .ofNat 8 (h.cylinder + 1)
      cylhi := .ofNat 8 ((h.cylinder + 1) / 256) } }
  else
    { h with
      taskfile := { h.taskfile with
        snum := 1, drvhd := (h.taskfile.drvhd &&& 0xf0) ||| .ofNat 8 (h.head + 1) }
      fixeddiskreg := if h.head + 1 > 7 then h.fixeddiskreg ||| 8 else h.fixeddiskreg }

def updateposregs : Except Stop Hdd := do
  let (_, d) ← h.selected
  let h := { h with taskfile := { h.taskfile with
    scount := h.taskfile.scount - 1, snum := h.taskfile.snum + 1 } }
  return if h.taskfile.snum.toNat > d.nsecspertrack then h.nextTrack d else h

/-- `softpc_hdd_transfer`, of one sector. -/
def transfer (i : Fin 2) (offset : BitVec 32) : Option (Image × ℕ) :=
  match h.media i with
  | some image =>
    if offset.toInt < 0 ∨ offset.toNat > image.totalSectors * 512 ∨
        1 > (image.totalSectors * 512 - offset.toNat) / 512 then none
    else some (image, offset.toNat / 512)
  | none => none

/-- `disktobuffer`; `none` is 0. -/
def disktobuffer (offset : BitVec 32) : Except Stop (Option Hdd) := do
  let (i, _) ← h.selected
  return (h.transfer i offset).map fun (image, n) => { h with sectbuffer := image.sectors n }

def buffertodisk (offset : BitVec 32) : Except Stop (Option Hdd) := do
  let (i, _) ← h.selected
  return match h.transfer i offset with
    | some (image, n) =>
      if image.writable then
        some { h with media := Function.update h.media i (some (Image.write image n h.sectbuffer)) }
      else none
    | none => none

def doseek : Hdd := if h.status drdy then h.raise seekComplete else h.lower seekComplete

/-! ## The commands -/

/-- "Deassert 'busy' and 'command in progress'; reset the sector buffer counter; issue interrupt." -/
def finish : Hdd := (((h.lower busy).lower cip).bcr).irqAssert

/-- A command that seeks and fails if the drive is not ready. -/
def seeking : Hdd :=
  let h := h.doseek
  let h := if h.status drdy then h else (h.raise err).setError abort
  h.finish

/-- `restore`, `seek` and `rverify`. -/
def restore : Hdd := h.seeking
def seek : Hdd := h.seeking
def rverify : Hdd := h.seeking

def diagnose : Hdd := (h.setError 1).finish

def bad : Hdd := (((((h.raise err).lower busy).lower cip).setError abort).bcr).irqAssert

def setparams : Except Stop Hdd := do
  let (i, d) ← h.selected
  let nsecspertrack := h.taskfile.scount.toNat
  let maxhead := h.head
  let d := { d with
    maxhead, nsecspertrack, nbytespertrack := nsecspertrack * 512
    nbytespercyl := nsecspertrack * 512 * (maxhead + 1) }
  let h := { h with drives := Function.update h.drives i d }
  return (((((h.lower busy).lower cip).raise seekComplete).bcr).irqAssert)

def setRs (s : ReadS) : Hdd := { h with statics := { h.statics with rs := s } }
def setWs (s : WriteS) : Hdd := { h with statics := { h.statics with ws := s } }
def setFs (s : FormatS) : Hdd := { h with statics := { h.statics with fs := s } }

/-- Case 3 of `rsector`. -/
def rsectorFail : Hdd := ((((h.raise err).raise drq).lower busy).irqAssert).setRs .s31

/-- The end of case 2: "tell the host to unload the sector buffer." -/
def rsectorUnload : Except Stop Hdd := do
  let h ← h.bcr.updateposregs
  let h := (h.raise drq).lower busy
  return h.irqAssert.setRs (if h.taskfile.scount ≠ 0 then .s30 else .s31)

/-- Cases 1 and 2. -/
def rsectorSearch : Except Stop Hdd := do
  match ← h.dosearchid with
  | none => return (h.setError (noid ||| abort)).rsectorFail
  | some offset =>
    match ← h.bcr.disktobuffer offset with
    | none => return (h.bcr.setError (noid ||| abort)).rsectorFail
    | some h => h.rsectorUnload

def rsector (sig : Signal) : Except Stop Hdd :=
  match if sig = .start then .s0 else h.statics.rs with
  | .s0 =>
    let h := h.doseek
    if h.status drdy then h.rsectorSearch
    else .ok (h.setError (h.taskfile.error ||| abort)).rsectorFail
  | .s30 =>
    if sig = .brdy then
      let h := (((h.lower drq).raise busy).irqDeassert).setRs .s32
      .ok { h with pauses := h.pauses + 1 }
    else .ok h
  | .s31 => if sig = .brdy then .ok ((((h.lower drq).lower cip).irqDeassert).bcr) else .ok h
  | .s32 => h.rsectorSearch

/-- Case 11 of `wsector`. -/
def wsectorDone : Hdd := ((((h.lower busy).lower cip).irqAssert).bcr).setWs .s11

/-- Cases 10 and 11. -/
def wsectorFail : Hdd := ((((h.raise err).lower busy).lower cip).irqAssert.bcr).setWs .s10

/-- The end of case 3. -/
def wsectorNext : Except Stop Hdd := do
  let h ← h.bcr.updateposregs
  return if h.taskfile.scount ≠ 0 then ((h.raise drq).irqAssert).setWs .s4 else h.wsectorDone

/-- Cases 2 and 3. -/
def wsectorWrite : Except Stop Hdd := do
  let h := h.doseek
  if h.status drdy then
    match ← h.dosearchid with
    | none => return (h.setError (noid ||| abort)).wsectorFail
    | some offset =>
      match ← h.bcr.buffertodisk offset with
      | none => return (h.bcr.setError (noid ||| abort)).wsectorFail
      | some h => h.wsectorNext
  else return (h.setError (h.taskfile.error ||| abort)).wsectorFail

def wsector (sig : Signal) : Except Stop Hdd :=
  match if sig = .start then .s0 else h.statics.ws with
  | .s0 => .ok ((h.raise drq).setWs .s1)
  | .s1 | .s4 => if sig = .brdy then (h.lower drq).wsectorWrite else .ok h
  | .s10 => .ok h.wsectorFail
  | .s11 => .ok h.wsectorDone

/-- Case 3 of `format`. -/
def formatDone : Hdd := ((((h.irqAssert).lower busy).lower cip).bcr).setFs .s3

/-- Cases 2 and 3. -/
def formatFail : Hdd := ((h.setError (h.taskfile.error ||| abort)).raise err).formatDone

def format (sig : Signal) : Except Stop Hdd :=
  match if sig = .start then .s0 else h.statics.fs with
  | .s0 => .ok ((h.bcr.raise drq).setFs .s1)
  | .s1 =>
    if sig = .brdy then
      let h := h.doseek.lower drq
      if h.status drdy then do
        let (_, d) ← h.selected
        return if h.cylinder > d.maxcyl then h.formatFail else h.formatDone
      else .ok h.formatFail
    else .ok h
  | .s3 => .ok h.formatDone

/-- `(*cmd)(sig)`. -/
def run (cmd : Cmd) (sig : Signal) : Except Stop Hdd :=
  match cmd with
  | .restore => .ok h.restore
  | .seek => .ok h.seek
  | .rsector => h.rsector sig
  | .wsector => h.wsector sig
  | .format => h.format sig
  | .rverify => .ok h.rverify
  | .diagnose => .ok h.diagnose
  | .setparams => h.setparams
  | .bad => .ok h.bad

/-- `(*activecmd)(sig)`. -/
def callActive (sig : Signal) : Except Stop Hdd :=
  match h.activecmd with
  | some cmd => h.run cmd sig
  | none => .error .noCommand

/-! ## The controller's registers -/

/-- `taskfile[taskindx]`. -/
def reg : Reg → Byte
  | .error => h.taskfile.error
  | .scount => h.taskfile.scount
  | .snum => h.taskfile.snum
  | .cyllo => h.taskfile.cyllo
  | .cylhi => h.taskfile.cylhi
  | .drvhd => h.taskfile.drvhd
  | .stat => h.taskfile.stat
  | .pcmp => h.taskfile.pcmp
  | .cmd => h.taskfile.cmd

def setReg (v : Byte) : Reg → Hdd
  | .error => { h with taskfile := { h.taskfile with error := v } }
  | .scount => { h with taskfile := { h.taskfile with scount := v } }
  | .snum => { h with taskfile := { h.taskfile with snum := v } }
  | .cyllo => { h with taskfile := { h.taskfile with cyllo := v } }
  | .cylhi => { h with taskfile := { h.taskfile with cylhi := v } }
  | .drvhd => { h with taskfile := { h.taskfile with drvhd := v } }
  | .stat => { h with taskfile := { h.taskfile with stat := v } }
  | .pcmp => { h with taskfile := { h.taskfile with pcmp := v } }
  | .cmd => { h with taskfile := { h.taskfile with cmd := v } }

/-- The command a byte stands for. -/
def decode (v : Byte) : Cmd :=
  match (v >>> 4).toNat with
  | 1 => .restore
  | 2 => .rsector
  | 3 => .wsector
  | 4 => .rverify
  | 5 => .format
  | 7 => .seek
  | 9 => if v &&& 0xf = 0 then .diagnose else if v &&& 0xf = 1 then .setparams else .bad
  | _ => .bad

/-- `wd2010`, reading. -/
def wd2010Read (r : Reg) : Except Stop Hdd := do
  let h := if r = .stat then h.irqDeassert else h
  let h ← if h.status cip then h.callActive .continue else .ok h
  return h.see (.byte (h.reg r))

/-- A new command. -/
def command (v : Byte) : Except Stop Hdd :=
  let h := ((h.setReg v .cmd).irqDeassert).setError 0
  let h := h.setStat (cip ||| busy ||| (h.taskfile.stat &&& drdy))
  { h with activecmd := some (decode v) }.run (decode v) .start

/-- The drive a drive and head register selects. -/
def driveOf (v : Byte) : Fin 2 := if has v 0x10 then 1 else 0

/-- The drive and head register is written. -/
def select (v : Byte) : Hdd :=
  let h := h.setReg v .drvhd
  let h := { h with digipreg := ((v &&& 0xf) >>> 2) ||| (if has v 0x10 then 2 else 1) }
  if (h.drives (driveOf v)).wiredup then { h with pseldrv := some (driveOf v) }.raise drdy
  else { h with pseldrv := none }.lower drdy

/-- `wd2010`, writing. -/
def wd2010Write (r : Reg) (v : Byte) : Except Stop Hdd :=
  if h.status cip ∧ r ≠ .cmd then .ok h
  else
    match r with
    | .cmd => h.command v
    | .drvhd => .ok (h.select v)
    | r => .ok (h.setReg v r)

/-- `++sectindx`, and `BRDY` when it wraps. -/
def advance : Except Stop Hdd :=
  let h := { h with sectindx := h.sectindx + 1 }
  if h.sectindx = 0 ∧ h.activecmd.isSome then h.callActive .brdy else .ok h

/-! ## The ports -/

/-- The task file register at a port, to be read. -/
def readReg (port : BitVec 16) : Option Reg :=
  match (port - 0x1f0).toNat with
  | 1 => some .error
  | 2 => some .scount
  | 3 => some .snum
  | 4 => some .cyllo
  | 5 => some .cylhi
  | 6 => some .drvhd
  | 7 => some .stat
  | 8 => some .pcmp
  | _ => none

/-- …and to be written. -/
def writeReg (port : BitVec 16) : Option Reg :=
  match (port - 0x1f0).toNat with
  | 1 => some .pcmp
  | 2 => some .scount
  | 3 => some .snum
  | 4 => some .cyllo
  | 5 => some .cylhi
  | 6 => some .drvhd
  | 7 => some .cmd
  | 8 => some .pcmp
  | _ => none

def fdiskInb (port : BitVec 16) : Except Stop Hdd :=
  if h.status busy then
    let value := h.taskfile.stat
    let h := if readReg port = some .stat then h.irqDeassert else h
    .ok (h.see (.byte value))
  else
    match readReg port with
    | some r => h.wd2010Read r
    | none => .ok h

def fdiskInw (port : BitVec 16) : Except Stop Hdd :=
  if port = 0x1f0 then (h.see (.word (h.sectbuffer h.sectindx))).advance else .ok h

/-- The fixed disk register is written. -/
def fixedDisk (v : Byte) : Hdd :=
  let h :=
    if has h.fixeddiskreg 4 && !has v 4 then
      { h with taskfile := { h.taskfile with
        stat := drdy ||| seekComplete, error := 1, scount := 1, snum := 1, cyllo := 0, cylhi := 0, drvhd := 0 } }
    else h
  let h := { h with fixeddiskreg := v }
  if has v 4 then h.setStat (busy ||| dc ||| err) else h

def fdiskOutb (port : BitVec 16) (v : Byte) : Except Stop Hdd :=
  if port = 0x3f6 then .ok (h.fixedDisk v)
  else
    match writeReg port with
    | some r => h.wd2010Write r v
    | none => .ok h

def fdiskOutw (port : BitVec 16) (v : BitVec 16) : Except Stop Hdd :=
  if port = 0x1f0 then
    { h with sectbuffer := Function.update h.sectbuffer h.sectindx v }.advance
  else .ok h

def fdiskReset : Hdd :=
  { h with
    taskfile := { h.taskfile with
      error := 0, scount := 0, snum := 0, cyllo := 0, cylhi := 0, drvhd := 0
      stat := if (h.drives 0).wiredup then drdy ||| seekComplete else 0 }
    digipreg := 1 }.bcr

/-- The events' turns. -/
def fdiskPause : Except Stop Hdd :=
  match h.pauses with
  | n + 1 => { h with pauses := n }.callActive .continue
  | 0 => .error .outOfTurn

def diskIntCallBack : Except Stop Hdd :=
  match h.interrupts with
  | n + 1 => .ok ({ h with interrupts := n }.see .hwInterrupt)
  | 0 => .error .outOfTurn

/-- What happens to the controller. -/
inductive Op
  | inb (port : BitVec 16)
  | inw (port : BitVec 16)
  | outb (port : BitVec 16) (v : Byte)
  | outw (port : BitVec 16) (v : BitVec 16)
  /-- An event of `fdisk_pause`, or of `disk_int_call_back`, expires. -/
  | pause
  | interrupt
  /-- The machine is reset. -/
  | reset
  deriving DecidableEq

def step : Op → Except Stop Hdd
  | .inb port => h.fdiskInb port
  | .inw port => h.fdiskInw port
  | .outb port v => h.fdiskOutb port v
  | .outw port v => h.fdiskOutw port v
  | .pause => h.fdiskPause
  | .interrupt => h.diskIntCallBack
  | .reset => .ok h.fdiskReset

end Hdd

/-! ## Reading the status and the updates -/

theorem has_eq (v c : Byte) : has v c = !decide (v &&& c = 0#8) := by
  simp only [has, ne_eq, decide_not]
  rfl

theorem has_or (s b c : Byte) : has (s ||| b) c = (has s c || has b c) := by
  rw [has_eq, has_eq, has_eq, BitVec.and_or_distrib_right, Bool.eq_iff_iff]
  simp [BitVec.or_eq_zero_iff, ← not_and_or]

theorem has_and_not {s b c : Byte} (hbc : b &&& c = 0#8) : has (s &&& ~~~b) c = has s c := by
  have hc : ~~~b &&& c = c := by
    ext i hi
    have hi' := congrArg (fun v => v.getLsbD i) hbc
    simp only [BitVec.getLsbD_and] at hi'
    simp only [← BitVec.getLsbD_eq_getElem]
    cases hb : b.getLsbD i <;> simp_all
  simp only [has, BitVec.and_assoc, hc]

theorem has_and_not_self (s b : Byte) : has (s &&& ~~~b) b = false := by
  rw [has_eq, BitVec.and_assoc]
  simp

namespace Hdd

variable (h : Hdd)

@[simp] theorem status_raise (b c : Byte) : (h.raise b).status c = (h.status c || has b c) := has_or _ _ _

theorem status_lower {b c : Byte} (hbc : b &&& c = 0#8) : (h.lower b).status c = h.status c := has_and_not hbc

@[simp] theorem status_lower_self (b : Byte) : (h.lower b).status b = false := has_and_not_self _ _

/-- `irq(IRQASSERT)` asks for no interrupt. -/
def quiet : Bool := h.statics.intrq || has h.fixeddiskreg 2

theorem irqAssert_eq : h.irqAssert =
    { h with
      statics := { h.statics with intrq := true }
      interrupts := if h.quiet then h.interrupts else h.interrupts + 1 } := by
  obtain ⟨_, _, _, fixeddiskreg, _, _, _, _, _, ⟨_, _, _, intrq⟩, _, _, _⟩ := h
  cases intrq
  · by_cases hf : has fixeddiskreg 2 = true <;> simp only [irqAssert, quiet, hf] <;> rfl
  · rfl

theorem irqDeassert_eq : h.irqDeassert =
    { h with
      statics := { h.statics with intrq := false }
      seen := if h.statics.intrq && !has h.fixeddiskreg 2 then .clearInt :: h.seen else h.seen } := by
  obtain ⟨_, _, _, fixeddiskreg, _, _, _, _, _, ⟨_, _, _, intrq⟩, _, _, _⟩ := h
  cases intrq
  · rfl
  · by_cases hf : has fixeddiskreg 2 = true <;> simp only [irqDeassert, hf] <;> rfl

@[simp] theorem status_irqAssert (b : Byte) : h.irqAssert.status b = h.status b := by rw [irqAssert_eq]; rfl
@[simp] theorem status_irqDeassert (b : Byte) : h.irqDeassert.status b = h.status b := by rw [irqDeassert_eq]; rfl
@[simp] theorem status_bcr (b : Byte) : h.bcr.status b = h.status b := rfl
@[simp] theorem status_setError (v b : Byte) : (h.setError v).status b = h.status b := rfl
@[simp] theorem status_setRs (s : ReadS) (b : Byte) : (h.setRs s).status b = h.status b := rfl
@[simp] theorem status_setWs (s : WriteS) (b : Byte) : (h.setWs s).status b = h.status b := rfl
@[simp] theorem status_setFs (s : FormatS) (b : Byte) : (h.setFs s).status b = h.status b := rfl

theorem doseek_eq : h.doseek =
    h.setStat (if h.status drdy then h.taskfile.stat ||| seekComplete else h.taskfile.stat &&& ~~~seekComplete) := by
  unfold doseek
  split <;> rfl

@[simp] theorem status_doseek {b : Byte} (hb : seekComplete &&& b = 0#8) : h.doseek.status b = h.status b := by
  have hb' : has seekComplete b = false := by rw [has_eq, hb]; rfl
  unfold doseek
  split
  · rw [status_raise, hb', Bool.or_false]
  · exact h.status_lower hb

end Hdd

/-- The drive of a medium, as `fdisk_physattach` sets it up from `host_fdisk_get_params`. -/
def Drive.attach : Option Image → Drive
  | some image =>
    let ncyls := min 16383 (max 1 (image.totalSectors / (16 * 63)))
    { maxhead := 15, maxcyl := ncyls - 1, nsecspertrack := 63, nbytespertrack := 63 * 512
      nbytespercyl := 63 * 512 * 16, wiredup := true }
  | none => ⟨0, 0, 0, 0, 0, false⟩

def Hdd.hdaInit (media : Fin 2 → Option Image) : Hdd :=
  { drives := fun i => Drive.attach (media i), media : Hdd }.fdiskReset

end SoftPC.Fdisk
