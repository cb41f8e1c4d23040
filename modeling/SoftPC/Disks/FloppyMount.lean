import SoftPC.Disks.FloppyImage

/-!
# Disks/FloppyMount — a diskette put in the drive of a machine

    softpc_machine_set_floppy ──▸ softpc_platform_floppy_attach ──▸ open, replace, close the retired medium
               └──▸ floppy_path, options

`app-softpc/machine/machine.c` and `compat/gfi_image.c`.  What fails before the medium is replaced changes nothing;
a retired medium that fails to close is reported, and the drive keeps the new one (`set_floppy_describes`).  Before
the hardware is initialized only the machine's own copy changes: the first reset attaches it.
-/

namespace SoftPC.Gfi

/-- A path, without its NUL. -/
abbrev Path := List UInt8

/-- `GFI_DRIVE_TYPE_*`. -/
inductive DriveType where
  | unidentified
  | d360
  | d12
  | d720
  | d144
  | d288
  deriving DecidableEq

/-- `softpc_gfi_image_drive`, of media `μ`. -/
structure MountedDrive (μ : Type*) where
  medium : Option μ
  path : Path
  mode : ℕ
  cylinders : ℕ
  heads : ℕ
  sectors : ℕ
  driveType : DriveType
  cylinder : ℕ

variable {μ : Type*}

/-- The drive holds the medium that is asked for. -/
def MountedDrive.holds (d : MountedDrive μ) (path : Option Path) (mode : ℕ) : Bool :=
  match path with
  | none => false
  | some path => d.medium.isSome && d.mode == mode && d.path == path

/-- `softpc_machine`, of its diskette, and drive A. -/
structure FloppyMachine (μ : Type*) where
  hardwareInitialized : Bool
  floppyPath : Path
  optionsPath : Option Path
  optionsMode : ℕ
  drive : MountedDrive μ

/-- The machine's copy of what is mounted. -/
def FloppyMachine.commit (m : FloppyMachine μ) (path : Option Path) (mode : ℕ) : FloppyMachine μ :=
  { m with
    floppyPath := path.getD []
    optionsPath := if path.getD [] = [] then none else path
    optionsMode := if path.isSome then mode else m.optionsMode }

end SoftPC.Gfi
