import Mathlib.Data.List.Basic
import Mathlib.Data.Nat.Notation
import Mathlib.Tactic.Common
import Mathlib.Algebra.GroupWithZero.Nat

/-!
# X86Debug/Line — what a command line says

    line ──parse──▸ arg[0], arg[1], … ──addrparse, scanrange, scanlist, scannub──▸ seg:ptr, count, bytes

The command line of `product/command.c`: its arguments, and the addresses, ranges, numbers and lists in them.
The line goes on being read after an error; `nErrPos` says where the last one was, or is zero.
-/

namespace SoftPC.X86Debug

/-- A text without its NUL. -/
abbrev Text := List (BitVec 8)

def ch (c : Char) : BitVec 8 := .ofNat 8 c.toNat

/-- `command_text_lower`, of a character. -/
def lower (c : BitVec 8) : BitVec 8 := if ch 'A' ≤ c ∧ c ≤ ch 'Z' then c + (ch 'a' - ch 'A') else c

/-- Blank, comma, tab, new line, return and form feed. -/
def isDelimiter (c : BitVec 8) : Bool := [0x20, 0x2c, 0x09, 0x0a, 0x0d, 0x0c].contains c

/-- Either quote. -/
def isQuote (c : BitVec 8) : Bool := c = 0x27 || c = 0x22

/-! ## Arguments -/

/-- An argument, and where it is in the line. -/
structure Arg where
  start : ℕ
  text : Text
  deriving DecidableEq

/-- An argument as far as it goes, what follows it, and whether a quote is open. -/
def token : Option (BitVec 8) → Text → Text × Text × Bool
  | quote, [] => ([], [], quote.isSome)
  | some quote, [c] => ([c], [], c ≠ quote)
  | some quote, c :: c' :: rest =>
    if c = quote then
      if c' = quote then
        let (text, rest, isOpen) := token (some quote) rest
        (c :: c' :: text, rest, isOpen)
      else
        let (text, rest, isOpen) := token none (c' :: rest)
        (c :: text, rest, isOpen)
    else
      let (text, rest, isOpen) := token (some quote) (c' :: rest)
      (c :: text, rest, isOpen)
  | none, c :: rest =>
    if isDelimiter c then ([], c :: rest, false)
    else
      let (text, rest, isOpen) := token (if isQuote c then some c else none) rest
      ((if isQuote c then c else lower c) :: text, rest, isOpen)

/-- The arguments from a place on, and whether a quote is left open.  Every round takes a character of the line. -/
def parseFrom : ℕ → ℕ → Text → List Arg × Bool
  | 0, _, _ => ([], false)
  | rounds + 1, pos, line =>
    let start := pos + (line.takeWhile isDelimiter).length
    match line.dropWhile isDelimiter with
    | [] => ([], false)
    | c :: cs =>
      let (text, rest, isOpen) := token none (c :: cs)
      if isOpen then ([⟨start, text⟩], true)
      else
        let (args, isOpen) := parseFrom rounds (start + text.length + 1) rest.tail
        (⟨start, text⟩ :: args, isOpen)

/-- What follows the letter of a command is an argument too. -/
def splitFirst : List Arg → List Arg
  | [] => []
  | a :: args => if 1 < a.text.length then a :: ⟨a.start + 1, a.text.tail⟩ :: args else a :: args

/-- `parse`: the arguments, and whether the last is an error. -/
def parse (line : Text) : List Arg × Bool :=
  let (args, isOpen) := parseFrom line.length 0 line
  (splitFirst args, isOpen)

/-! ## What is read from them -/

/-- The segment registers that an address may name. -/
structure SegmentRegs where
  es : BitVec 16
  cs : BitVec 16
  ss : BitVec 16
  ds : BitVec 16

/-- What is remembered while a line is read. -/
structure Reading where
  nErrPos : ℕ := 0
  seg : BitVec 16 := 0
  ptr : BitVec 16 := 0
  deriving DecidableEq

abbrev Scan := StateM Reading

variable (regs : SegmentRegs) (args : List Arg)

/-- `arg[i]`. -/
def argText (i : ℕ) : Text := ((args[i]?).map Arg.text).getD []

/-- `seterr`: the place after an argument. -/
def seterr (pos : ℕ) : Scan PUnit :=
  modify fun r => { r with nErrPos := ((args[pos]?).map fun a => a.start + a.text.length).getD 0 + 1 }

/-- The value of a hexadecimal digit. -/
def digit (c : BitVec 8) : Option ℕ :=
  if 0x2f < c.toNat ∧ c.toNat < 0x3a then some (c.toNat - 0x30)
  else if 0x60 < c.toNat ∧ c.toNat < 0x67 then some (c.toNat - 0x57)
  else none

/-- A hexadecimal number of at most so many digits, from digit `i` on. -/
def scannubFrom {w : ℕ} (digits : ℕ) : ℕ → BitVec w → Text → Scan (BitVec w)
  | _, ans, [] => return ans
  | i, ans, c :: s => do
    if c = 0x0a then return ans
    else if digits ≤ i then
      seterr args (args.length - 1)
      return ans
    else
      match digit c with
      | some d => scannubFrom digits (i + 1) (ans <<< 4 + .ofNat w d) s
      | none =>
        seterr args (args.length - 1)
        scannubFrom digits (i + 1) (ans <<< 4) s

/-- `scannubit8`, which takes a quoted character too. -/
def scannubit8 (s : Text) : Scan (BitVec 8) :=
  match s with
  | [0x27, c, 0x27] => return c
  | s => scannubFrom args 2 0 0 (s.map lower)

def scannubit16 (s : Text) : Scan (BitVec 16) := scannubFrom args 4 0 0 (s.map lower)

def scannubit32 (s : Text) : Scan (BitVec 32) := scannubFrom args 8 0 0 (s.map lower)

/-- A segment, by the name of its register or as a number. -/
def scanSegment (s : Text) : Scan (BitVec 16) :=
  if s = [ch 'e', ch 's'] then return regs.es
  else if s = [ch 'c', ch 's'] then return regs.cs
  else if s = [ch 's', ch 's'] then return regs.ss
  else if s = [ch 'd', ch 's'] then return regs.ds
  else scannubit16 args s

def addrparse (defseg : BitVec 16) (addr : Text) : Scan PUnit := do
  let copy := addr.map lower
  let before := copy.takeWhile (· ≠ ch ':')
  modify fun r => { r with seg := defseg }
  match copy.dropWhile (· ≠ ch ':') with
  | [] =>
    let ptr ← scannubit16 args copy
    modify fun r => { r with ptr := ptr }
  | _ :: after =>
    if before = [] ∨ after = [] ∨ ch ':' ∈ after then seterr args (args.length - 1)
    else
      let seg ← scanSegment regs args before
      modify fun r => { r with seg := seg }
      let ptr ← scannubit16 args after
      modify fun r => { r with ptr := ptr }

/-- The length or the end of a range, or that there is none: the count, and the argument after it. -/
def scanExtent (defaultCount : ℕ) : Scan (Option (ℕ × ℕ)) := do
  let ptr := (← get).ptr
  let clipped := min defaultCount (0x10000 - ptr.toNat)
  if 2 < args.length then
    match argText args 2 with
    | [] => return some (clipped, 2)
    | c :: rest =>
      if c = ch 'l' then
        -- The length may be an argument of its own.
        let (length, next) := if rest = [] ∧ 3 < args.length then (argText args 3, 4) else (rest, 3)
        if length = [] then
          seterr args (next - 1)
          return none
        else
          let count ← scannubit16 args length
          return some (if count = 0 then 0x10000 else count.toNat, next)
      else if ch '0' ≤ c ∧ c ≤ ch '9' ∨ ch 'a' ≤ c ∧ c ≤ ch 'f' then
        let last ← scannubit16 args (c :: rest)
        if last < ptr then
          seterr args 2
          return none
        else return some (last.toNat - ptr.toNat + 1, 3)
      else return some (clipped, 2)
  else return some (clipped, 2)

/-- `scanrange`: the count, and the argument after the range. -/
def scanrange (defaultSegment : BitVec 16) (defaultCount : ℕ) : Scan (ℕ × ℕ) := do
  if args.length < 2 then
    seterr args 0
    return (0, 0)
  else
    addrparse regs args defaultSegment (argText args 1)
    match ← scanExtent args defaultCount with
    | none => return (0, 0)
    | some (count, next) =>
      if 0x10000 - (← get).ptr.toNat < count then seterr args (next - 1)
      return (if (← get).nErrPos ≠ 0 then 0 else count, next)

/-- A quoted text after its quote, in which the quote stands for itself if it is doubled; or none if it is not
closed at the end. -/
def unquote (quote : BitVec 8) : Text → Option Text
  | [] => none
  | [c] => if c = quote then some [] else none
  | c :: c' :: rest =>
    if c = quote then if c' = quote then (unquote quote rest).map (c :: ·) else none
    else (unquote quote (c' :: rest)).map (c :: ·)

/-- An element of a list: several bytes if it is quoted. -/
def scanElement (i : ℕ) : Scan (List (BitVec 8)) :=
  match argText args i with
  | [] => return [← scannubit8 args []]
  | c :: rest =>
    if isQuote c then
      match unquote c rest with
      | some bytes => return bytes
      | none => do
        seterr args i
        return []
    else return [← scannubit8 args (c :: rest)]

/-- The elements from `i` on, up to an error. -/
def scanElements : ℕ → ℕ → Scan (List (BitVec 8))
  | 0, _ => return []
  | n + 1, i => do
    let bytes ← scanElement args i
    if (← get).nErrPos ≠ 0 then return []
    else return bytes ++ (← scanElements n (i + 1))

def scanlist (first : ℕ) : Scan (List (BitVec 8)) := do
  let bytes ← scanElements args (args.length - first) first
  if bytes = [] ∧ ((← get).nErrPos = 0 ∨ args.length ≤ first) then seterr args (args.length - 1)
  return if (← get).nErrPos = 0 then bytes else []

end SoftPC.X86Debug
