import SoftPC.Lib.Medium
import Mathlib.Data.List.DropRight
import Mathlib.Data.List.TakeWhile
import Mathlib.Data.Nat.Notation
import Mathlib.Tactic.Common
import Mathlib.Algebra.GroupWithZero.Nat

/-!
# App/Config — the startup configuration

    file ──CR, LF──▸ records ──comment, first '='──▸ key, value ──trim──▸ setting ──▸ configuration

`app_load_startup_config` of `product/config.c`.  Each record is cut out of the buffer before it is scanned, so
what is done in it stays in it; `unsigned long` has `w` bits.
-/

namespace SoftPC.App

open Storage (Mode)

/-- A text without its NUL. -/
abbrev Text := List (BitVec 8)

def text (s : String) : Text := s.toList.map fun c => .ofNat 8 c.toNat

def isspace (c : BitVec 8) : Bool := c = 0x20 || (0x09 ≤ c && c ≤ 0x0d)

def isdigit (c : BitVec 8) : Bool := 0x30 ≤ c && c ≤ 0x39

/-- The quote. -/
def quote : BitVec 8 := 0x22

/-! ## Texts -/

/-- `app_trim`: no blanks at the ends, and then no quotes. -/
def appTrim (t : Text) : Text :=
  let t := (t.dropWhile isspace).rdropWhile isspace
  if t.head? = some quote ∧ 2 ≤ t.length ∧ t.getLast? = some quote then t.tail.dropLast else t

/-- A record up to what `app_find_comment` finds. -/
def appFindComment : Bool → Text → Text
  | _, [] => []
  | quoted, c :: t =>
    if c = quote then c :: appFindComment (!quoted) t
    else if !quoted && (c = 0x23 || c = 0x3b) then []
    else c :: appFindComment quoted t

/-- The value of digits. -/
def ofDigits (digits : Text) : ℕ := digits.foldl (fun n c => 10 * n + (c.toNat - 0x30)) 0

/-- `strtoul`, base 10: the value, and where it ends. -/
def strtoul (w : ℕ) (t : Text) : ℕ × Text :=
  let s := t.dropWhile isspace
  let negative := s.head? = some 0x2d
  let s := if s.head? = some 0x2d ∨ s.head? = some 0x2b then s.tail else s
  let digits := s.takeWhile isdigit
  if digits = [] then (0, t)
  else
    let n := ofDigits digits
    (if 2 ^ w ≤ n then 2 ^ w - 1 else if negative then (2 ^ w - n) % 2 ^ w else n, s.dropWhile isdigit)

/-! ## The configuration -/

/-- `emulator_session_display`. -/
inductive Display where
  | console
  | window
  deriving DecidableEq

/-- `app_startup_config`. -/
structure StartupConfig where
  floppyPath : Text
  hardDiskPath : Text
  serialOutputPath : Text
  printerOutputPath : Text
  memoryBytes : BitVec 32
  presentation : Display
  consoleControl : Bool
  floppyMode : Mode
  hardDiskMode : Mode
  deriving DecidableEq

/-- `SOFTPC_CONFIG_PATH_MAX`. -/
def pathMax : ℕ := 1024

def appCopyValue (value : Text) : Option Text := if pathMax ≤ value.length then none else some value

def appParseMediaMode (value : Text) : Option Mode :=
  if value = text "readonly" then some .readonly
  else if value = text "direct" then some .direct
  else if value = text "overlay" then some .overlay
  else none

/-- What a key does with a value; none is `goto invalid`. -/
def setting (w : ℕ) (key value : Text) (config : StartupConfig) : Option StartupConfig :=
  if key = text "memory_mb" then
    let (mib, last) := strtoul w value
    if last ≠ [] ∨ mib = 0 ∨ 4095 < mib then none
    else some { config with memoryBytes := .ofNat 32 (mib * 1024 * 1024 % 2 ^ w) }
  else if key = text "floppy" then (appCopyValue value).map fun path => { config with floppyPath := path }
  else if key = text "hard_disk" then (appCopyValue value).map fun path => { config with hardDiskPath := path }
  else if key = text "serial_output" then (appCopyValue value).map fun path => { config with serialOutputPath := path }
  else if key = text "printer_output" then (appCopyValue value).map fun path => { config with printerOutputPath := path }
  else if key = text "display" then
    if value = text "console" then some { config with presentation := .console }
    else if value = text "window" then some { config with presentation := .window }
    else none
  else if key = text "console_control" then
    if value = text "0" then some { config with consoleControl := false }
    else if value = text "1" then some { config with consoleControl := true }
    else none
  else if key = text "floppy_mode" then (appParseMediaMode value).map fun mode => { config with floppyMode := mode }
  else if key = text "hard_disk_mode" then (appParseMediaMode value).map fun mode => { config with hardDiskMode := mode }
  else none

/-- The key and the value in a record, if it has them. -/
def fields (line : Text) : Option (Text × Text) :=
  let line := appFindComment false line
  match line.dropWhile (· ≠ 0x3d) with
  | [] => none
  | _ :: value =>
    let key := appTrim (line.takeWhile (· ≠ 0x3d))
    if key = [] then none else some (key, appTrim value)

/-- A setting of a path. -/
inductive PathKey where
  | floppy
  | hardDisk
  | serialOutput
  | printerOutput

def PathKey.key : PathKey → Text
  | .floppy => text "floppy"
  | .hardDisk => text "hard_disk"
  | .serialOutput => text "serial_output"
  | .printerOutput => text "printer_output"

def PathKey.put (path : Text) (config : StartupConfig) : PathKey → StartupConfig
  | .floppy => { config with floppyPath := path }
  | .hardDisk => { config with hardDiskPath := path }
  | .serialOutput => { config with serialOutputPath := path }
  | .printerOutput => { config with printerOutputPath := path }

/-- A setting, within its bounds. -/
inductive Setting where
  | memory (mib : ℕ) (h : 1 ≤ mib ∧ mib ≤ 4095)
  | path (which : PathKey) (path : Text) (h : path.length < pathMax)
  | display (shown : Display)
  | consoleControl (on : Bool)
  | floppyMode (mode : Mode)
  | hardDiskMode (mode : Mode)

def Setting.put (config : StartupConfig) : Setting → StartupConfig
  | .memory mib _ => { config with memoryBytes := .ofNat 32 (mib * 2 ^ 20) }
  | .path which file _ => which.put file config
  | .display shown => { config with presentation := shown }
  | .consoleControl on => { config with consoleControl := on }
  | .floppyMode mode => { config with floppyMode := mode }
  | .hardDiskMode mode => { config with hardDiskMode := mode }

/-- A plain decimal numeral. -/
def Numeral (value : Text) : Prop := value ≠ [] ∧ ∀ c ∈ value, isdigit c

def displayText : Display → Text
  | .console => text "console"
  | .window => text "window"

def modeText : Mode → Text
  | .direct => text "direct"
  | .readonly => text "readonly"
  | .overlay => text "overlay"

/-- A key and a value of its grammar. -/
inductive Denotes : Text → Text → Setting → Prop where
  | memory {value : Text} (hvalue : Numeral value) (h : 1 ≤ ofDigits value ∧ ofDigits value ≤ 4095) :
    Denotes (text "memory_mb") value (.memory (ofDigits value) h)
  | path (which : PathKey) {path : Text} (h : path.length < pathMax) : Denotes which.key path (.path which path h)
  | display (shown : Display) : Denotes (text "display") (displayText shown) (.display shown)
  | consoleControl (on : Bool) : Denotes (text "console_control") (text (if on then "1" else "0")) (.consoleControl on)
  | floppyMode (mode : Mode) : Denotes (text "floppy_mode") (modeText mode) (.floppyMode mode)
  | hardDiskMode (mode : Mode) : Denotes (text "hard_disk_mode") (modeText mode) (.hardDiskMode mode)

/-- A record says nothing, or a setting. -/
def Valid (line : Text) : Prop := ∀ key value, fields line = some (key, value) → ∃ s, Denotes key value s

/-- What `strtoul` takes for a size and is no numeral: blanks or a sign before the digits; what is negative wraps. -/
def Slip (w : ℕ) (value : Text) : Prop :=
  ∃ blanks sign digits : Text, value = blanks ++ (sign ++ digits) ∧ (∀ c ∈ blanks, isspace c) ∧
    (sign = [] ∨ sign = [0x2b] ∨ sign = [0x2d]) ∧ Numeral digits ∧ blanks ++ sign ≠ [] ∧
    if sign = [0x2d] then 2 ^ w ≤ ofDigits digits + 4095 ∧ ofDigits digits < 2 ^ w
    else 1 ≤ ofDigits digits ∧ ofDigits digits ≤ 4095

/-- The record of such a size. -/
def Slips (w : ℕ) (line : Text) : Prop := ∃ value, fields line = some (text "memory_mb", value) ∧ Slip w value

/-! ## Sizes -/

variable {w : ℕ} {value blanks sign digits : Text}

theorem digit_plain : ∀ c : BitVec 8, isdigit c → isspace c = false ∧ c ≠ 0x2b ∧ c ≠ 0x2d := by decide

variable {key : Text} {s : Setting} {config config' : StartupConfig}

variable {line : Text} {lines : List Text}

/-- A machine as it starts. -/
def initial : StartupConfig where
  floppyPath := []
  hardDiskPath := []
  serialOutputPath := []
  printerOutputPath := []
  memoryBytes := 0x1000000
  presentation := .console
  consoleControl := true
  floppyMode := .overlay
  hardDiskMode := .overlay

end SoftPC.App
