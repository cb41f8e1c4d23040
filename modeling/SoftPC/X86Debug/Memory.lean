import SoftPC.X86Debug.Line
import Mathlib.Data.List.Induction
import Mathlib.Logic.Function.Basic

/-!
# X86Debug/Memory — the commands that compare, fill, move and search memory

    C range addr   F range list   M range addr   S range list       seg:off, offsets wrap at 64K
    XC lin lin n   XF lin n list  XM lin lin n   XS lin n list      linear

The memory commands of `product/command.c`, from the line to what they do.  A command reads all its arguments
(`readLine`) before it touches memory (`Action.run`).  Memory is what linear addresses show, and every byte of
it can be accessed; only a packet of more than 32 bytes is refused.
-/

namespace SoftPC.X86Debug

/-- Memory, by linear address. -/
abbrev Ram := BitVec 32 → BitVec 8

/-- The linear address of `X86_DEBUG_READ_REAL` and `X86_DEBUG_WRITE_REAL`. -/
def real (seg off : BitVec 16) : BitVec 32 := seg.setWidth 32 <<< 4 + off.setWidth 32

/-- `X86_DEBUG_BYTES`. -/
def packet : ℕ := 32

/-- A line that is printed. -/
inductive Report where
  | differ (seg1 off1 : BitVec 16) (val1 val2 : BitVec 8) (seg off : BitVec 16)
  | found (seg off : BitVec 16)
  | differLinear (lin1 : BitVec 32) (val1 val2 : BitVec 8) (lin2 : BitVec 32)
  | foundLinear (lin : BitVec 32)
  deriving DecidableEq

/-- `%0*X`. -/
def hex (digits : ℕ) (n : ℕ) : String :=
  String.ofList ((List.range digits).reverse.map fun i => Nat.digitChar (n / 16 ^ i % 16) |>.toUpper)

/-- The text of it. -/
def Report.text : Report → String
  | .differ seg1 off1 val1 val2 seg off =>
    hex 4 seg1.toNat ++ ":" ++ hex 4 off1.toNat ++ "  " ++ hex 2 val1.toNat ++ "  " ++ hex 2 val2.toNat ++ "  " ++
      hex 4 seg.toNat ++ ":" ++ hex 4 off.toNat ++ "\n"
  | .found seg off => hex 4 seg.toNat ++ ":" ++ hex 4 off.toNat ++ "  \n"
  | .differLinear lin1 val1 val2 lin2 =>
    "L" ++ hex 8 lin1.toNat ++ "  " ++ hex 2 val1.toNat ++ "  " ++ hex 2 val2.toNat ++ "  L" ++ hex 8 lin2.toNat ++ "\n"
  | .foundLinear lin => "L" ++ hex 8 lin.toNat ++ "\n"

/-- What is left of a command. -/
structure Outcome where
  ram : Ram
  reports : List Report := []
  /-- `access_status` is not OK. -/
  failed : Bool := false

/-- What a command does once its arguments are read. -/
inductive Action where
  | compare (seg1 ptr1 seg ptr : BitVec 16) (count : ℕ)
  | fill (seg ptr : BitVec 16) (count : ℕ) (bytes : List (BitVec 8))
  | move (seg1 ptr1 seg ptr : BitVec 16) (count : ℕ)
  | search (seg ptr : BitVec 16) (count : ℕ) (bytes : List (BitVec 8))
  | compareLinear (lin1 lin2 : BitVec 32) (count : ℕ)
  | fillLinear (linear : BitVec 32) (count : ℕ) (bytes : List (BitVec 8))
  | moveLinear (lin1 lin2 : BitVec 32) (count : ℕ)
  | searchLinear (linear : BitVec 32) (count : ℕ) (bytes : List (BitVec 8))
  deriving DecidableEq

/-! ## Reading a command -/

variable (regs : SegmentRegs) (args : List Arg)

/-- `c` and `m`: a range, and an address. -/
def readPair (act : BitVec 16 → BitVec 16 → BitVec 16 → BitVec 16 → ℕ → Action) : Scan (Option Action) := do
  let (count, next) ← scanrange regs args regs.ds 128
  let r ← get
  if r.nErrPos ≠ 0 then return none
  else if next + 1 ≠ args.length then
    seterr args (args.length - 1)
    return none
  else
    addrparse regs args regs.ds (argText args next)
    let r' ← get
    return if r'.nErrPos ≠ 0 then none else some (act r.seg r.ptr r'.seg r'.ptr count)

/-- `f` and `s`: a range, and a list. -/
def readList (act : BitVec 16 → BitVec 16 → ℕ → List (BitVec 8) → Action) : Scan (Option Action) := do
  let (count, next) ← scanrange regs args regs.ds 128
  if (← get).nErrPos ≠ 0 then return none
  else
    let bytes ← scanlist args next
    let r ← get
    return if r.nErrPos ≠ 0 then none else some (act r.seg r.ptr count bytes)

def c : Scan (Option Action) := readPair regs args .compare
def f : Scan (Option Action) := readList regs args .fill
def m : Scan (Option Action) := readPair regs args .move
def s : Scan (Option Action) := readList regs args .search

/-- `xcheckrange`: the range ends below 4G. -/
def xcheckrange (linear : BitVec 32) (count : ℕ) : Scan Bool := do
  if count ≠ 0 ∧ 0xffffffff - linear.toNat < count - 1 then
    seterr args (args.length - 1)
    return false
  else return true

/-- A number, and whether there was no error. -/
def readLinear (i : ℕ) : Scan (Option (BitVec 32)) := do
  let linear ← scannubit32 args (argText args i)
  return if (← get).nErrPos ≠ 0 then none else some linear

/-- `xc` and `xm`: two addresses, and a count. -/
def readLinearPair (act : BitVec 32 → BitVec 32 → ℕ → Action) : Scan (Option Action) := do
  if args.length ≠ 4 then
    seterr args (args.length - 1)
    return none
  else
    let some lin1 ← readLinear args 1 | return none
    let some lin2 ← readLinear args 2 | return none
    let some count ← readLinear args 3 | return none
    if ← xcheckrange args lin1 count.toNat then
      if ← xcheckrange args lin2 count.toNat then return some (act lin1 lin2 count.toNat)
    return none

def xc : Scan (Option Action) := readLinearPair args .compareLinear
def xm : Scan (Option Action) := readLinearPair args .moveLinear

/-- `xf`: an address, a count and a list, all of them read before there is an error. -/
def xf : Scan (Option Action) := do
  if args.length < 4 then
    seterr args (args.length - 1)
    return none
  else
    let linear ← scannubit32 args (argText args 1)
    let count ← scannubit32 args (argText args 2)
    let bytes ← scanlist args 3
    if (← get).nErrPos ≠ 0 then return none
    else if ← xcheckrange args linear count.toNat then return some (.fillLinear linear count.toNat bytes)
    else return none

def xs : Scan (Option Action) := do
  if args.length < 4 then
    seterr args (args.length - 1)
    return none
  else
    let some linear ← readLinear args 1 | return none
    let some count ← readLinear args 2 | return none
    let bytes ← scanlist args 3
    if (← get).nErrPos ≠ 0 then return none
    else if ← xcheckrange args linear count.toNat then return some (.searchLinear linear count.toNat bytes)
    else return none

/-- `exec` and `x`, of the memory commands: by the first letter, or by the argument after an `x`, which goes. -/
def exec : Option (Scan (Option Action)) :=
  match args with
  | [] => none
  | arg0 :: rest =>
    match arg0.text.head? with
    | some letter =>
      if letter = ch 'c' then some (c regs args)
      else if letter = ch 'f' then some (f regs args)
      else if letter = ch 'm' then some (m regs args)
      else if letter = ch 's' then some (s regs args)
      else if letter = ch 'x' then
        match rest.head? with
        | some arg1 =>
          if arg1.text = [ch 'c'] then some (xc rest)
          else if arg1.text = [ch 'f'] then some (xf rest)
          else if arg1.text = [ch 'm'] then some (xm rest)
          else if arg1.text = [ch 's'] then some (xs rest)
          else none
        | none => none
      else none
    | none => none

/-- The line as a memory command, if it is one: what it says, and what there is to do if there is no error. -/
def readLine (regs : SegmentRegs) (r : Reading) (line : Text) : Option (Option Action × Reading) :=
  let (args, isOpen) := parse line
  match exec regs args with
  | none => none
  | some read =>
    if isOpen then some ((do seterr args (args.length - 1); return none : Scan (Option Action)) { r with nErrPos := 0 })
    else some (read { r with nErrPos := 0 })

/-! ## Doing it -/

/-- The offset of the byte that is moved at a step. -/
def step (backward : Bool) (count i : ℕ) : ℕ := if backward then count - 1 - i else i

/-- The bytes are moved one by one. -/
def moved (src dst : ℕ → BitVec 32) (backward : Bool) (count : ℕ) (ram : Ram) : Ram :=
  (List.range count).foldl
    (fun ram i => Function.update ram (dst (step backward count i)) (ram (src (step backward count i)))) ram

/-- A range is filled with a list over and over. -/
def filled (place : ℕ → BitVec 32) (count : ℕ) (bytes : List (BitVec 8)) (ram : Ram) : Ram :=
  (List.range count).foldl (fun ram i => Function.update ram (place i) (bytes.getD (i % bytes.length) 0)) ram

/-- The places in a range where a list is. -/
def matched (place : ℕ → BitVec 32) (count : ℕ) (bytes : List (BitVec 8)) (ram : Ram) : List ℕ :=
  if count < bytes.length then []
  else (List.range (count - bytes.length + 1)).filter fun i =>
    (List.range bytes.length).all fun j => ram (place (i + j)) = bytes.getD j 0

/-- The places where two ranges differ. -/
def differing (at1 at2 : ℕ → BitVec 32) (count : ℕ) (ram : Ram) : List ℕ :=
  (List.range count).filter fun i => ram (at1 i) ≠ ram (at2 i)

/-- Offsets wrap. -/
def inSegment (seg ptr : BitVec 16) (i : ℕ) : BitVec 32 := real seg (ptr + .ofNat 16 i)

def inLine (linear : BitVec 32) (i : ℕ) : BitVec 32 := linear + .ofNat 32 i

/-- The loop of a command. -/
def Action.run (ram : Ram) : Action → Outcome
  | .compare seg1 ptr1 seg ptr count =>
    { ram, reports := (differing (inSegment seg1 ptr1) (inSegment seg ptr) count ram).map fun i =>
        .differ seg1 (ptr1 + .ofNat 16 i) (ram (inSegment seg1 ptr1 i)) (ram (inSegment seg ptr i))
          seg (ptr + .ofNat 16 i) }
  | .fill seg ptr count bytes => { ram := filled (inSegment seg ptr) count bytes ram }
  | .move seg1 ptr1 seg ptr count =>
    if real seg1 ptr1 = real seg ptr then { ram }
    else { ram := moved (inSegment seg1 ptr1) (inSegment seg ptr) (real seg1 ptr1 < real seg ptr) count ram }
  | .search seg ptr count bytes =>
    { ram, reports := (matched (inSegment seg ptr) count bytes ram).map fun i => .found seg (ptr + .ofNat 16 i) }
  | .compareLinear lin1 lin2 count =>
    { ram, reports := (differing (inLine lin1) (inLine lin2) count ram).map fun i =>
        .differLinear (inLine lin1 i) (ram (inLine lin1 i)) (ram (inLine lin2 i)) (inLine lin2 i) }
  | .fillLinear linear count bytes => { ram := filled (inLine linear) count bytes ram }
  | .moveLinear lin1 lin2 count =>
    if lin1 = lin2 then { ram } else { ram := moved (inLine lin1) (inLine lin2) (lin1 < lin2) count ram }
  | .searchLinear linear count bytes =>
    -- The list is compared with one packet.
    if count < bytes.length then { ram }
    else if packet < bytes.length % 2 ^ 8 then { ram, failed := true }
    else { ram, reports := (matched (inLine linear) count bytes ram).map fun i => .foundLinear (inLine linear i) }

/-- `x86_debug_submit_line`, of a memory command, and `nErrPos` where the line is an error. -/
def submit (regs : SegmentRegs) (r : Reading) (line : Text) (ram : Ram) : Option (Outcome × ℕ) :=
  if 256 ≤ line.length then some ({ ram }, 0)
  else
    (readLine regs r line).map fun (action, r) =>
      match action with
      | some action => (action.run ram, if (action.run ram).failed then 1 else 0)
      | none => ({ ram }, r.nErrPos)

end SoftPC.X86Debug
