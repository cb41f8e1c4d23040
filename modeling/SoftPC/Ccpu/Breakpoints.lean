import SoftPC.Ccpu.Tlb
import SoftPC.Machinery.Numerals

/-!
# Ccpu/Breakpoints — breakpoints in their internal form

`base/ccpu386/c_debug.c`.  Every move to a debug register builds the internal breakpoints again, from
the control register; memory accesses and instruction fetches search those.  An index past the end of
a table, or a shift by more than a word has, is `none`.
-/

namespace SoftPC.Ccpu

structure InstBreak where
  addr : Word
  id : Word

structure DataBreak where
  startAddr : Word
  endAddr : Word
  type : Word
  id : Word

/-- The breakpoints, with the debug registers. -/
structure Breakpoints where
  nrInstBreak : Word
  nrDataBreak : Word
  iBrk : Fin 4 → InstBreak
  dBrk : Fin 4 → DataBreak
  dr : Fin 8 → Word

/-- An entry of a table of `NR_BRKS`. -/
def breakAt {α : Type} (table : Fin 4 → α) (i : ℕ) : Option α :=
  if h : i < 4 then some (table ⟨i, h⟩) else none

/-- … and the table with the entry stored. -/
def setBreak {α : Type} (table : Fin 4 → α) (i : ℕ) (entry : α) : Option (Fin 4 → α) :=
  if h : i < 4 then some (Function.update table ⟨i, h⟩ entry) else none

namespace Breakpoints

variable (b : Breakpoints)

/-- The control register. -/
def dcr : Word := b.dr 7

/-- `SET_DR(DR_DSR, GET_DR(DR_DSR) | 1 << trig)`. -/
def setB (trig : Word) : Option Breakpoints :=
  if trig.toNat < 32 then
    some { b with dr := Function.update b.dr 6 (b.dr 6 ||| 1 <<< trig.toNat) }
  else none

/-- A register of the four that hold addresses. -/
def dar (index : Fin 4) : Word := b.dr (index.castLE (by decide))

/-- A two-bit field of the control register: `g_l_shift`, `r_w_shift`, `len_shift`. -/
def enabled (index : Fin 4) : Word := b.dcr >>> (2 * index.val) &&& 3
def readWrite (index : Fin 4) : Word := b.dcr >>> (16 + 4 * index.val) &&& 3
def len (index : Fin 4) : Word := b.dcr >>> (18 + 4 * index.val) &&& 3

def lenToAddr (index : Fin 4) : Option (Word × Word) :=
  if b.len index = 0 then some (b.dar index, b.dar index)
  else if b.len index = 1 then
    let start := b.dar index &&& ~~~1
    some (start, start + 1)
  else if b.len index = 3 then
    let start := b.dar index &&& ~~~3
    some (start, start + 3)
  else none

def setupInstBreak (index : Fin 4) : Option Breakpoints := do
  let iBrk ← setBreak b.iBrk b.nrInstBreak.toNat ⟨b.dar index, .ofNat 32 index⟩
  some { b with iBrk, nrInstBreak := b.nrInstBreak + 1 }

/-- `setup_data_break`, of a type `D_WO` or `D_RW`. -/
def setupDataBreak (type : Word) (index : Fin 4) : Option Breakpoints := do
  let _ ← breakAt b.dBrk b.nrDataBreak.toNat
  match b.lenToAddr index with
  | none => some b
  | some (startAddr, endAddr) =>
    let dBrk ← setBreak b.dBrk b.nrDataBreak.toNat ⟨startAddr, endAddr, type, .ofNat 32 index⟩
    some { b with dBrk, nrDataBreak := b.nrDataBreak + 1 }

/-- One round of `setup_breakpoints`. -/
def setupBreakpoint (b : Breakpoints) (index : Fin 4) : Option Breakpoints :=
  if b.enabled index = 0 then some b
  else if b.readWrite index = 0 then b.setupInstBreak index
  else if b.readWrite index = 1 then b.setupDataBreak 0 index
  else if b.readWrite index = 3 then b.setupDataBreak 1 index
  else some b

def setupBreakpoints : Option Breakpoints :=
  (List.finRange 4).foldlM setupBreakpoint { b with nrInstBreak := 0, nrDataBreak := 0 }

def movDr (op1 : Fin 8) (op2 : Word) : Option Breakpoints :=
  if op1.val < 4 then setupBreakpoints { b with dr := Function.update b.dr op1 op2 }
  else if op1 = 6 then some { b with dr := Function.update b.dr 6 (op2 &&& 0xe00f) }
  else if op1 = 7 then setupBreakpoints { b with dr := Function.update b.dr 7 (op2 &&& 0xffff03ff) }
  else some b

/-- Another breakpoint, looked at after one has triggered, "regardless of the enable bits". -/
def noteData (la endLa : Word) (isWrite : Bool) (trig : Word) (b : Breakpoints) (index : Fin 4) :
    Option Breakpoints :=
  if BitVec.ofNat 32 index = trig then some b
  else
    let range :=
      if b.readWrite index = 1 then if isWrite then b.lenToAddr index else none
      else if b.readWrite index = 3 then b.lenToAddr index
      else none
    match range with
    | none => some b
    | some (start, stop) =>
      if la > stop || endLa < start then some b else b.setB (.ofNat 32 index)

/-- The loop of `check_for_data_exception`, over the breakpoints from the `i`-th on. -/
def dataException (la endLa : Word) (isWrite : Bool) : List ℕ → Option Breakpoints
  | [] => some b
  | i :: rest => do
    let p ← breakAt b.dBrk i
    if la > p.endAddr || endLa < p.startAddr || !isWrite && p.type == 0 then
      dataException la endLa isWrite rest
    else
      let b ← b.setB p.id
      (List.finRange 4).foldlM (noteData la endLa isWrite p.id) b

def checkForDataException (la : Word) (isWrite : Bool) (size : Word) : Option Breakpoints :=
  b.dataException la (la + size) isWrite (List.range b.nrDataBreak.toNat)

/-- One round of `check_for_inst_exception`. -/
def instException (la : Word) (b : Breakpoints) (i : ℕ) : Option Breakpoints := do
  let p ← breakAt b.iBrk i
  if p.addr = la then b.setB p.id else some b

def checkForInstException (la : Word) : Option Breakpoints :=
  (List.range b.nrInstBreak.toNat).foldlM (instException la) b

/-! ## Breakpoints in range -/

variable {b} {b' : Breakpoints}

/-- No more breakpoints than the tables have, each of one of the four registers. -/
structure InRange (b : Breakpoints) : Prop where
  inst_le : b.nrInstBreak.toNat ≤ 4
  data_le : b.nrDataBreak.toNat ≤ 4
  inst_id : ∀ i : Fin 4, i.val < b.nrInstBreak.toNat → (b.iBrk i).id.toNat < 4
  data_id : ∀ i : Fin 4, i.val < b.nrDataBreak.toNat → (b.dBrk i).id.toNat < 4

/-- The breakpoints are the same; the registers may differ. -/
def Same (b b' : Breakpoints) : Prop :=
  b'.nrInstBreak = b.nrInstBreak ∧ b'.nrDataBreak = b.nrDataBreak ∧ b'.iBrk = b.iBrk ∧ b'.dBrk = b.dBrk

theorem Same.refl (b : Breakpoints) : Same b b := ⟨rfl, rfl, rfl, rfl⟩

theorem Same.trans {b'' : Breakpoints} (h : Same b b') (h' : Same b' b'') : Same b b'' :=
  ⟨h'.1.trans h.1, h'.2.1.trans h.2.1, h'.2.2.1.trans h.2.2.1, h'.2.2.2.trans h.2.2.2⟩

theorem InRange.same (h : b.InRange) (hsame : Same b b') : b'.InRange := by
  obtain ⟨hinst, hdata, hi, hd⟩ := hsame
  refine ⟨hinst ▸ h.inst_le, hdata ▸ h.data_le, ?_, ?_⟩
  · rw [hinst, hi]
    exact h.inst_id
  · rw [hdata, hd]
    exact h.data_id

/-- What `setup_breakpoints` has built after so many registers. -/
structure Built (n : ℕ) (b : Breakpoints) : Prop where
  count_le : b.nrInstBreak.toNat + b.nrDataBreak.toNat ≤ n
  inst_id : ∀ i : Fin 4, i.val < b.nrInstBreak.toNat → (b.iBrk i).id.toNat < 4
  data_id : ∀ i : Fin 4, i.val < b.nrDataBreak.toNat → (b.dBrk i).id.toNat < 4

theorem Built.mono {n : ℕ} (h : b.Built n) : b.Built (n + 1) :=
  ⟨Nat.le_succ_of_le h.count_le, h.inst_id, h.data_id⟩

end Breakpoints

end SoftPC.Ccpu
