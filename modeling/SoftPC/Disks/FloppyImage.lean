import SoftPC.Lib.Medium
import SoftPC.System.Dma
import SoftPC.Machinery.Numerals

/-!
# Disks/FloppyImage — READ DATA and WRITE DATA on an image of a diskette

    command ──▸ softpc_gfi_transfer: sector by sector ──▸ image
                       │ dma_request
                       ▼
                     memory                          ──update_chrn──▸ result

`compat/gfi_image.c`, over a DMA channel.  A request within the image goes through, unless it is a write to one
that is read-only.  What the buffer of a transfer holds at first is whatever the stack has there.  The other
commands of `softpc_gfi_command`, which transfer nothing or format, are left out.
-/

namespace SoftPC.Gfi

open Dma (Byte Memory Buffer Channel)

/-- `SOFTPC_GFI_SECTOR_BYTES`. -/
def sectorBytes : ℕ := 512

/-- What a medium holds. -/
structure Image where
  bytes : ℕ → Byte
  byteCount : ℕ

namespace Image

variable (image : Image)

/-- `lib_storage_medium_read_at`, of a sector. -/
def readAt (offset : ℕ) : Option (ℕ → Byte) :=
  if offset + sectorBytes ≤ image.byteCount then some fun i => image.bytes (offset + i) else none

/-- `lib_storage_medium_write_at`, of a sector. -/
def writeAt (offset : ℕ) (buffer : Buffer) : Option Image :=
  if offset + sectorBytes ≤ image.byteCount then
    some { image with bytes := fun a =>
      if offset ≤ a ∧ a < offset + sectorBytes then buffer (a - offset) else image.bytes a }
  else none

end Image

/-- `softpc_gfi_image_drive`. -/
structure Drive where
  medium : Option Image
  mode : Storage.Mode
  cylinders : ℕ
  heads : ℕ
  sectors : ℕ
  cylinder : ℕ := 0

/-- `softpc_gfi_geometry`: cylinders, heads and sectors. -/
def geometry (bytes : ℕ) : Option (ℕ × ℕ × ℕ) :=
  let sectors := bytes / sectorBytes
  if bytes % sectorBytes ≠ 0 then none
  else if sectors = 720 then some (40, 2, 9)
  else if sectors = 1440 then some (80, 2, 9)
  else if sectors = 2400 then some (80, 2, 15)
  else if sectors = 2880 then some (80, 2, 18)
  else if sectors = 5760 then some (80, 2, 36)
  else if sectors ≥ 1 then some (80, 2, 18)
  else none

/-! ## Commands and results -/

/-- `FDC_CMD_BLOCK`. -/
abbrev Command := Fin 9 → Byte

namespace Command

variable (command : Command)

def typeCmd : Byte := command 0 &&& 0x1f
def mt : Bool := (command 0).getLsbD 7
def drive : Byte := command 1 &&& 0x3
def cyl : ℕ := (command 2).toNat
def hd : ℕ := (command 3).toNat
def sector : ℕ := (command 4).toNat
def n : Byte := command 5
def eot : ℕ := (command 6).toNat

/-- `FDC_WRITE_DATA`, of the commands that transfer data. -/
def writing : Bool := command.typeCmd = 5

end Command

/-- `FDC_RESULT_BLOCK`. -/
structure Result where
  st0 : Byte
  st1 : Byte
  st2 : Byte
  cyl : Byte
  head : Byte
  sector : Byte
  n : Byte
  deriving DecidableEq

/-- The interruption code of ST0 is that of a command that has failed. -/
def Result.failed (result : Result) : Bool := result.st0 &&& 0xc0 = 0x40

/-- `softpc_gfi_result`. -/
def gfiResult (drive : Byte) (cylinder head sector : ℕ) (size : Byte) (failed writeProtected : Bool) : Result :=
  let st0 : Byte := .ofNat 8 (head <<< 2) ||| drive
  { st0 := if failed then st0 &&& ~~~0xc0 ||| 0x40 else st0
    st1 := if failed then if writeProtected then 0x2 else 0x4 else 0
    st2 := 0
    cyl := .ofNat 8 cylinder
    head := .ofNat 8 head
    sector := .ofNat 8 sector
    n := size }

/-- A cylinder, a head and a sector. -/
abbrev Chr := ℕ × ℕ × ℕ

/-- `softpc_gfi_update_chrn`. -/
def updateChrn (chr : Chr) (multiTrack : Bool) (eot sectorCount : ℕ) : Chr :=
  let (cylinder, head, sector) := chr
  let newSector := sector + sectorCount - 1
  let past := newSector > eot && multiTrack
  let head := if past then 1 else head
  let newSector := if past then newSector / 2 else newSector
  let sector := if newSector = eot then 1 else newSector + 1
  if multiTrack ∧ newSector = eot then (if head = 1 then cylinder + 1 else cylinder, head ^^^ 1, sector)
  else if newSector = eot then (cylinder + 1, head, sector)
  else (cylinder, head, sector)

/-! ## Transfers -/

/-- A transfer that is going on. -/
structure Transfer where
  image : Image
  dma : Channel
  memory : Memory
  buffer : Buffer
  /-- The offsets of the sectors that have been read or written. -/
  accesses : List ℕ := []

namespace Drive

variable (drive : Drive) (command : Command)

/-- The offset of a sector. -/
def offset (cylinder head sector : ℕ) : ℕ :=
  ((cylinder * drive.heads + head) * drive.sectors + (sector - 1)) * sectorBytes

/-- One round of the loop of `softpc_gfi_transfer`: false where it returns 0. -/
def transferSector (index : ℕ) (t : Transfer) : Bool × Transfer :=
  let currentSector := command.sector + index
  if currentSector > drive.sectors then (false, t)
  else
    let offset := drive.offset command.cyl command.hd currentSector
    if command.writing then
      if drive.mode = .readonly then (false, t)
      else
        let moved := t.dma.dmaRequest t.memory t.buffer sectorBytes
        let t := { t with dma := moved.1, memory := moved.2.1, buffer := moved.2.2 }
        match t.image.writeAt offset t.buffer with
        | none => (false, t)
        | some image => (true, { t with image := image, accesses := t.accesses ++ [offset] })
    else
      match t.image.readAt offset with
      | none => (false, t)
      | some bytes =>
        let moved := t.dma.dmaRequest t.memory bytes sectorBytes
        (true, { t with
          dma := moved.1, memory := moved.2.1, buffer := moved.2.2, accesses := t.accesses ++ [offset] })

/-- Its loop, for so many sectors from one on. -/
def transferFrom (index : ℕ) : ℕ → Transfer → Bool × Transfer
  | 0, t => (true, t)
  | n + 1, t =>
    match drive.transferSector command index t with
    | (false, t) => (false, t)
    | (true, t) => transferFrom (index + 1) n t

/-- The sectors that a DMA count asks for. -/
def sectorCount (dmaCount : BitVec 16) : ℕ :=
  let count := (dmaCount.toNat + 1 + sectorBytes - 1) / sectorBytes
  if count = 0 then 1 else count

/-- What READ DATA and WRITE DATA leave. -/
structure Outcome where
  result : Result
  drive : Drive
  dma : Channel
  memory : Memory
  accesses : List ℕ

/-- `softpc_gfi_transfer`: whether it succeeds, with what it leaves. -/
def gfiTransfer (dma : Channel) (memory : Memory) (stack : Buffer) : Bool × Chr × Drive × Channel × Memory × List ℕ :=
  let start : Chr := (command.cyl, command.hd, command.sector)
  match drive.medium with
  | none => (false, start, drive, dma, memory, [])
  | some image =>
    if command.n ≠ 2 ∨ command.cyl ≥ drive.cylinders ∨ command.hd ≥ drive.heads ∨ command.sector = 0 ∨
        command.sector > drive.sectors then (false, start, drive, dma, memory, [])
    else
      let count := sectorCount dma.enquire
      let (okay, t) := drive.transferFrom command 0 count { image, dma, memory, buffer := stack }
      let after := { drive with medium := some t.image }
      if okay then
        (true, updateChrn start command.mt command.eot count, { after with cylinder := command.cyl }, t.dma, t.memory,
          t.accesses)
      else (false, start, after, t.dma, t.memory, t.accesses)

/-- `softpc_gfi_command`, of READ DATA and WRITE DATA. -/
def gfiCommand (dma : Channel) (memory : Memory) (stack : Buffer) : Outcome :=
  let (okay, chr, drive', dma, memory, accesses) := drive.gfiTransfer command dma memory stack
  { result := gfiResult command.drive chr.1 chr.2.1 chr.2.2 command.n (!okay)
      (command.writing && drive.medium.isSome && drive.mode = .readonly)
    drive := drive', dma, memory, accesses }

end Drive

end SoftPC.Gfi
