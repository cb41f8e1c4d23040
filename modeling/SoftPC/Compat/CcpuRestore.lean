import SoftPC.Ccpu.Breakpoints
import SoftPC.Ccpu.FastTlb
import SoftPC.Ccpu.Sas
import SoftPC.Compat.CcpuArchive
import SoftPC.Machinery.Numerals
import Mathlib.Data.List.GetD

/-!
# Compat/CcpuRestore — a processor restored from a snapshot, and the tables it indexes

`softpc_ccpu_archive_restore` over the processor's own restore functions.  The reader and they check
the counts, the flags and the replacement cursors of a state; a protection, a page of the fast table,
a breakpoint's register, the privilege level, the type of a page and `CR0` are taken as they come.
`CoreState.InRange` is what those have to be for every index made later to be within its table.
-/

namespace SoftPC.Ccpu

/-! ## The translation buffer -/

namespace Tlb

variable {tlb : Tlb} {set : BitVec 2} {entry : BitVec 3} {e : TlbEntry}

/-- Every protection is one of the four, and a page that is marked is held where the index says. -/
structure Safe (tlb : Tlb) : Prop where
  modes : ∀ set entry, (tlb.entries set entry).mode.toNat < 4
  held : Held tlb

theorem Safe.replace (h : Safe tlb) (set : BitVec 2) (entry : BitVec 3) (he : e.mode.toNat < 4) :
    Safe (tlb.replace set entry e) := by
  refine ⟨fun set' entry' => ?_, h.held.replace set entry e⟩
  by_cases hplace : set' = set ∧ entry' = entry
  · rw [hplace.1, hplace.2, replace_entries_self]
    exact he
  · rw [replace_entries_of_ne hplace]
    exact h.modes set' entry'

theorem Safe.advance (h : Safe tlb) (entry : BitVec 3) : Safe (tlb.advance entry) := ⟨h.modes, h.held⟩

theorem Safe.flush (h : Safe tlb) : Safe tlb.flush := by
  unfold Tlb.flush
  generalize places = places
  induction places generalizing tlb with
  | nil => exact h
  | cons place rest ih => exact ih (h.replace place.1 place.2 (h.modes place.1 place.2))

theorem Safe.allocate (h : Safe tlb) (set : BitVec 2) {lin : Word} (hla : e.la = frameOf lin)
    (hv : e.v) (hmode : e.mode.toNat < 4) :
    Safe ((tlb.replace set (entryOf lin) e).enter set (entryOf lin) e) := by
  have hframe : frameOf e.la = e.la := by rw [hla, frameOf_frameOf]
  have hreplaced := h.replace set (entryOf lin) hmode
  exact ⟨hreplaced.modes, hreplaced.held.enter (replace_entries_self ..) hv hframe⟩

end Tlb

namespace Mmu

variable {m : Mmu}

end Mmu

/-! ## The processor -/

/-- The processor as far as it indexes tables; the other registers index none. -/
structure Cpu where
  mmu : Mmu
  breakpoints : Breakpoints
  sas : Sas
  cr0 : Word
  cpl : Word

/-- What happens to the processor next. -/
inductive Op where
  | lin2phy (lin : Word) (access : Access)
  | xtrn2phy (lin : Word) (request : BitVec 3)
  | flushTlb
  /-- A move to the test command register, with what the registers hold. -/
  | testTlb (tcr tdr : Word)
  | movDr (op1 : Fin 8) (op2 : Word)
  | checkForDataException (la : Word) (isWrite : Bool) (size : Word)
  | checkForInstException (la : Word)
  | phyR (addr : Word) (typeSize : Fin 3)
  | phyW8 (addr : Word)
  | phyW16 (addr : Word)
  | phyW32 (addr : Word)
  | connectMemory (low high : Word) (type : MemType)
  /-- Twenty-bit wrapping, on or off. -/
  | wrap (isOn : Bool)
  /-- Whatever else changes memory's contents and the page directory base. -/
  | other (memory : Word → Word) (pdbr : Word)

namespace Cpu

variable (cpu : Cpu)

/-- What a walk reads and may write: the entries of the directory and of the table. -/
def walkAccesses (lin : Word) : Option Unit := do
  let pdeAddr := cpu.mmu.pdeAddr lin
  let pteAddr := Mmu.pteAddr (cpu.mmu.memory pdeAddr) lin
  cpu.sas.phyR32 pdeAddr
  cpu.sas.phyR32 pteAddr
  cpu.sas.phyW32 pteAddr
  cpu.sas.phyW32 pdeAddr

/-- The accesses of a translation, which walks where both tables miss. -/
def translates (lin : Word) (access : Access) : Option Unit :=
  if (cpu.mmu.tlb.fastHit lin access).isSome || (cpu.mmu.tlb.intelHit lin access).isSome then some ()
  else cpu.walkAccesses lin

/-- One operation; `none` where a table is indexed past its end. -/
def step : Op → Option Cpu
  | .lin2phy lin access => do
    cpu.translates lin access
    let r := cpu.mmu.lin2phy lin access
    if r.1 = .outOfBounds then none else some { cpu with mmu := r.2 }
  | .xtrn2phy lin request => do
    cpu.translates lin (request.setWidth 2)
    let r := cpu.mmu.xtrn2phy lin request
    if r.1 = .outOfBounds then none else some { cpu with mmu := r.2 }
  | .flushTlb => some { cpu with mmu := cpu.mmu.flushTlb }
  | .testTlb tcr tdr => some { cpu with mmu := { cpu.mmu with tcr, tdr }.testTlb }
  | .movDr op1 op2 => do
    let breakpoints ← cpu.breakpoints.movDr op1 op2
    some { cpu with breakpoints }
  | .checkForDataException la isWrite size => do
    let breakpoints ← cpu.breakpoints.checkForDataException la isWrite size
    some { cpu with breakpoints }
  | .checkForInstException la => do
    let breakpoints ← cpu.breakpoints.checkForInstException la
    some { cpu with breakpoints }
  | .phyR addr typeSize => do
    cpu.sas.phyR addr (2 ^ typeSize.val)
    some cpu
  | .phyW8 addr => do
    cpu.sas.phyW8 addr
    some cpu
  | .phyW16 addr => do
    cpu.sas.phyW16 addr
    some cpu
  | .phyW32 addr => do
    cpu.sas.phyW32 addr
    some cpu
  | .connectMemory low high type => do
    let sas ← cpu.sas.connectMemory low high type
    some { cpu with sas }
  | .wrap isOn => some { cpu with sas := { cpu.sas with wrapMask := if isOn then 0xfffff else 0xffffffff } }
  | .other memory pdbr => some { cpu with mmu := { cpu.mmu with memory, pdbr } }

/-- Operations in turn. -/
def run (ops : List Op) : Option Cpu := ops.foldlM step cpu

/-- The values that index the tables are in range. -/
structure IndexSafe (cpu : Cpu) : Prop where
  tlb : cpu.mmu.tlb.Safe
  breakpoints : cpu.breakpoints.InRange
  sas : cpu.sas.Typed

/-- A word is written within pages of one type, and memory is connected where there is memory. -/
def Admits (cpu : Cpu) : Op → Prop
  | .phyW16 addr => cpu.sas.Whole addr
  | .phyW32 addr => cpu.sas.Whole addr ∧ cpu.sas.Whole (addr + 2)
  | .connectMemory _ high _ => high.toNat < cpu.sas.lengthOfM.toNat
  | _ => True

variable {cpu}

/-- Every operation of a run is one that its state admits. -/
def AdmitsAll (cpu : Cpu) : List Op → Prop
  | [] => True
  | op :: rest => cpu.Admits op ∧ ∀ cpu', cpu.step op = some cpu' → cpu'.AdmitsAll rest

end Cpu

end SoftPC.Ccpu

namespace SoftPC.Snapshot

open Ccpu Decoder

/-! ## Restore -/

/-- How a restore ends. -/
inductive Restored where
  /-- It returns 0; a part of the state may have been installed. -/
  | refused
  /-- `GP` is raised, outside the processor's loop. -/
  | raised
  | installed (cpu : Cpu)

/-- The double words of memory. -/
def memoryWords (memory : List UInt8) : Word → Word := fun addr =>
  let byte (i : ℕ) : Word := (memory.getD (addr.toNat + i) 0).toBitVec.setWidth 32
  byte 0 ||| byte 1 <<< 8 ||| byte 2 <<< 16 ||| byte 3 <<< 24

/-- `softpc_ccpu_snapshot_restore_sas`. -/
def restoreSas (core : CoreState) (cpu : Cpu) : Option Cpu :=
  if core.sas .memoryBytes ≠ cpu.sas.lengthOfM ∨
      core.sas .pageTypeBytes ≠ (cpu.sas.lengthOfM + 0x10020) >>> 12 then none
  else
    some { cpu with
      mmu.memory := memoryWords core.buffers.memory
      sas.memoryType := core.buffers.pageTypes
      sas.wrapMask := core.sas .wrapMask }

/-- `MOV_CR` to `CR0`; none where it raises `GP`. -/
def movCr0 (cpu : Cpu) (op2 : Word) : Option Cpu :=
  if op2.getLsbD 31 && !op2.getLsbD 0 then none
  else
    -- ET stays as it was.
    some { cpu with cr0 := op2 &&& 0x8000000f ||| cpu.cr0 &&& 0x10 }

/-- `softpc_ccpu_snapshot_restore_registers`. -/
def restoreRegisters (core : CoreState) (cpu : Cpu) : Option Cpu := do
  let cpu ← movCr0 { cpu with cpl := 0 } (core.registers.words .cr0)
  let cr3 : Word := core.registers.words .cr3
  let mmu : Mmu := { cpu.mmu with pfla := core.registers.words .cr2, pdbr := cr3 &&& 0xfffff000 }
  some { cpu with mmu := mmu.flushTlb, cpl := core.registers.words .cpl }

/-- `softpc_ccpu_snapshot_restore_execution`. -/
def restoreExecution (core : CoreState) (cpu : Cpu) : Cpu :=
  { cpu with
    breakpoints.dr := core.execution.debugRegisters
    mmu.tcr := core.execution.testRegisters 6
    mmu.tdr := core.execution.testRegisters 7 }

/-- `softpc_ccpu_snapshot_restore_debug`. -/
def restoreDebug (core : CoreState) (cpu : Cpu) : Option Cpu :=
  let state := core.debug
  if state.instructionBreakCount.toNat > 4 ∨ state.dataBreakCount.toNat > 4 then none
  else
    some { cpu with
      breakpoints.nrInstBreak := state.instructionBreakCount
      breakpoints.nrDataBreak := state.dataBreakCount
      breakpoints.iBrk := fun i =>
        ⟨state.instructionBreaks i .linearAddress, state.instructionBreaks i .registerIndex⟩
      breakpoints.dBrk := fun i =>
        ⟨state.dataBreaks i .startAddress, state.dataBreaks i .endAddress, state.dataBreaks i .type,
          state.dataBreaks i .registerIndex⟩ }

/-- An entry of the translation buffer as it is installed. -/
def installedEntry (item : TlbEntryField → BitVec 32) : TlbEntry where
  la := item .linearPage
  pa := item .physicalPage
  v := item .valid ≠ 0
  d := item .dirty ≠ 0
  mode := item .mode

/-- The translation buffer as it is installed. -/
def installedTlb (core : CoreState) : Tlb where
  entries set entry := installedEntry (core.tlb.entries set.toFin entry.toFin)
  nextSet entry := (core.tlb.nextSet entry.toFin).setWidth 2
  pageIndex page := (core.buffers.tlbPageIndex.getD page.toNat 0).toBitVec
  pageAddress slot := core.tlb.pageAddress slot.toFin

/-- `softpc_ccpu_snapshot_restore_tlb`. -/
def restoreTlb (core : CoreState) (cpu : Cpu) : Option Cpu :=
  let state := core.tlb
  if ∃ set entry, (state.entries set entry .valid).toNat > 1 ∨ (state.entries set entry .dirty).toNat > 1 then
    none
  else if ∃ entry, (state.nextSet entry).toNat ≥ 4 then none
  else some { cpu with mmu.tlb := installedTlb core }

/-- `softpc_ccpu_archive_restore`, up to the floating-point unit and the devices. -/
def ccpuArchiveRestore (core : CoreState) (cpu : Cpu) : Restored :=
  match restoreSas core cpu with
  | none => .refused
  | some cpu =>
    match restoreRegisters core cpu with
    | none => .raised
    | some cpu =>
      match restoreDebug core (restoreExecution core cpu) with
      | none => .refused
      | some cpu =>
        match restoreTlb core cpu with
        | none => .refused
        | some cpu => .installed cpu

/-! ## What a restored state has to be -/

/-- The values that neither the reader nor the restore functions check, in range: protections, pages
that are marked held where the index says, the registers of breakpoints, the privilege level, `CR0`
with paging only in protected mode, and the types of pages. -/
structure CoreState.InRange (core : CoreState) : Prop where
  modes : ∀ set entry, (core.tlb.entries set entry .mode).toNat < 4
  held : ∀ page : BitVec 20,
    let index := (core.buffers.tlbPageIndex.getD page.toNat 0).toBitVec
    let item := core.tlb.entries (setOf index).toFin (wayOf index).toFin
    index ≠ 0 → item .valid ≠ 0 ∧ item .linearPage = baseOf page
  inst_id : ∀ i : Fin 4, i.val < core.debug.instructionBreakCount.toNat →
    (core.debug.instructionBreaks i .registerIndex).toNat < 4
  data_id : ∀ i : Fin 4, i.val < core.debug.dataBreakCount.toNat →
    (core.debug.dataBreaks i .registerIndex).toNat < 4
  cpl : (core.registers.words .cpl).toNat ≤ 3
  paging : (core.registers.words .cr0).getLsbD 31 → (core.registers.words .cr0).getLsbD 0
  types : ∀ type ∈ core.buffers.pageTypes, type.toNat ≤ 6

/-- The processor after a restore is index-safe: no exception is raised outside its loop; what is
installed is in range; and in no run of it, whatever is translated, tested, checked for breakpoints,
read or written at whatever address, is a table indexed past its end. -/
def Restored.Safe : Restored → Prop
  | .refused => True
  | .raised => False
  | .installed cpu =>
    cpu.IndexSafe ∧ cpu.cpl.toNat ≤ 3 ∧ (cpu.cr0.getLsbD 31 → cpu.cr0.getLsbD 0) ∧
      ∀ ops, cpu.AdmitsAll ops → ∃ cpu', cpu.run ops = some cpu' ∧ cpu'.IndexSafe

variable {core : CoreState} {cpu cpu' : Cpu} {expected : BitVec 32}

theorem movCr0_raises {op2 : Word} :
    movCr0 cpu op2 = none ↔ ¬(op2.getLsbD 31 → op2.getLsbD 0) := by
  unfold movCr0
  cases op2.getLsbD 31 <;> cases op2.getLsbD 0 <;> simp

/-- Neither paging nor protection is lost in `CR0`. -/
theorem movCr0_bits (op2 et : Word) :
    (op2 &&& 0x8000000f ||| et &&& 0x10).getLsbD 31 = op2.getLsbD 31 ∧
      (op2 &&& 0x8000000f ||| et &&& 0x10).getLsbD 0 = op2.getLsbD 0 := by
  simp only [BitVec.getLsbD_or, BitVec.getLsbD_and]
  constructor
  · rw [show (0x8000000f : Word).getLsbD 31 = true from rfl, show (0x10 : Word).getLsbD 31 = false from rfl,
      Bool.and_true, Bool.and_false, Bool.or_false]
  · rw [show (0x8000000f : Word).getLsbD 0 = true from rfl, show (0x10 : Word).getLsbD 0 = false from rfl,
      Bool.and_true, Bool.and_false, Bool.or_false]

/-- What is installed, field by field. -/
structure Installed (core : CoreState) (cpu cpu' : Cpu) : Prop where
  memoryBytes : core.sas .memoryBytes = cpu.sas.lengthOfM
  lengthOfM : cpu'.sas.lengthOfM = cpu.sas.lengthOfM
  memoryType : cpu'.sas.memoryType = core.buffers.pageTypes
  paging : (core.registers.words .cr0).getLsbD 31 → (core.registers.words .cr0).getLsbD 0
  cr0 : cpu'.cr0.getLsbD 31 = (core.registers.words .cr0).getLsbD 31 ∧
    cpu'.cr0.getLsbD 0 = (core.registers.words .cr0).getLsbD 0
  cpl : cpu'.cpl = core.registers.words .cpl
  nrInstBreak : cpu'.breakpoints.nrInstBreak = core.debug.instructionBreakCount
  nrDataBreak : cpu'.breakpoints.nrDataBreak = core.debug.dataBreakCount
  inst_id : ∀ i, (cpu'.breakpoints.iBrk i).id = core.debug.instructionBreaks i .registerIndex
  data_id : ∀ i, (cpu'.breakpoints.dBrk i).id = core.debug.dataBreaks i .registerIndex
  tlb : cpu'.mmu.tlb = installedTlb core
  cursors : ∀ entry, (core.tlb.nextSet entry).toNat < 4

theorem restore_cases (core : CoreState) (cpu : Cpu) :
    ccpuArchiveRestore core cpu = .refused ∨
      (ccpuArchiveRestore core cpu = .raised ∧
        ¬((core.registers.words .cr0).getLsbD 31 → (core.registers.words .cr0).getLsbD 0)) ∨
      ∃ cpu', ccpuArchiveRestore core cpu = .installed cpu' ∧ Installed core cpu cpu' := by
  unfold ccpuArchiveRestore restoreSas
  split
  · exact .inl rfl
  · rename_i cpu₁ hsas
    split at hsas
    · cases hsas
    rename_i hsizes
    obtain rfl := Option.some.inj hsas
    unfold restoreRegisters
    cases hcr0 : movCr0 _ (core.registers.words .cr0) with
    | none => exact .inr (.inl ⟨rfl, movCr0_raises.1 hcr0⟩)
    | some cpu₂ =>
      have hpaging : (core.registers.words .cr0).getLsbD 31 → (core.registers.words .cr0).getLsbD 0 := by
        by_contra hno
        rw [movCr0_raises.2 hno] at hcr0
        cases hcr0
      unfold movCr0 at hcr0
      split at hcr0
      · cases hcr0
      obtain rfl := Option.some.inj hcr0
      dsimp only [bind, Option.bind]
      unfold restoreDebug restoreTlb
      dsimp only
      split
      · exact .inl rfl
      · rename_i hdebug
        split at hdebug
        · cases hdebug
        obtain rfl := Option.some.inj hdebug
        split
        · exact .inl rfl
        · rename_i htlb
          split_ifs at htlb with hflags hcursors
          obtain rfl := Option.some.inj htlb
          refine .inr (.inr ⟨_, rfl, ?_⟩)
          exact
            { memoryBytes := not_not.mp (not_or.mp hsizes).1
              lengthOfM := rfl
              memoryType := rfl
              paging := hpaging
              cr0 := movCr0_bits _ _
              cpl := rfl
              nrInstBreak := rfl
              nrDataBreak := rfl
              inst_id := fun _ => rfl
              data_id := fun _ => rfl
              tlb := rfl
              cursors := fun entry => Nat.not_le.mp fun hge => hcursors ⟨entry, hge⟩ }

theorem Installed.typed (h : Installed core cpu cpu') (hfits : core.Fits expected) :
    cpu'.sas.Typed ↔ ∀ type ∈ core.buffers.pageTypes, type.toNat ≤ 6 := by
  have haccepts := hfits.sas.accepts
  simp only [sasAccepts, gt_iff_lt, Bool.not_eq_true', Bool.or_eq_false_iff, decide_eq_false_iff_not,
    bne_eq_false_iff_eq] at haccepts
  obtain ⟨⟨⟨⟨hle, -⟩, -⟩, hmemory⟩, htypes⟩ := haccepts
  have hlength : cpu'.sas.lengthOfM = expected := by rw [h.lengthOfM, ← h.memoryBytes, hmemory]
  have hlt : cpu'.sas.lengthOfM.toNat + 0x10020 < 2 ^ 32 := by
    rw [hlength]
    omega
  have hpages : cpu'.sas.memoryType.length = (cpu'.sas.lengthOfM.toNat + 0x10020) / 4096 := by
    rw [h.memoryType, hfits.sas.pageTypes, htypes, BitVec.toNat_ushiftRight, BitVec.toNat_add,
      Nat.shiftRight_eq_div_pow, hlength]
    rw [hlength] at hlt
    exact congrArg (· / 4096) (Nat.mod_eq_of_lt hlt)
  refine ⟨fun htyped => h.memoryType ▸ htyped.types, fun hall => ⟨hlt, hpages, ?_⟩⟩
  rw [h.memoryType]
  exact hall

theorem Installed.breakpoints (h : Installed core cpu cpu') (hfits : core.Fits expected) :
    cpu'.breakpoints.InRange ↔
      (∀ i : Fin 4, i.val < core.debug.instructionBreakCount.toNat →
        (core.debug.instructionBreaks i .registerIndex).toNat < 4) ∧
      ∀ i : Fin 4, i.val < core.debug.dataBreakCount.toNat →
        (core.debug.dataBreaks i .registerIndex).toNat < 4 := by
  constructor
  · rintro ⟨-, -, hinst, hdata⟩
    simp only [h.nrInstBreak, h.nrDataBreak, h.inst_id, h.data_id] at hinst hdata
    exact ⟨hinst, hdata⟩
  · rintro ⟨hinst, hdata⟩
    refine ⟨?_, ?_, ?_, ?_⟩
    · rw [h.nrInstBreak]
      exact hfits.debug.1
    · rw [h.nrDataBreak]
      exact hfits.debug.2
    · simp only [h.nrInstBreak, h.inst_id]
      exact hinst
    · simp only [h.nrDataBreak, h.data_id]
      exact hdata

end SoftPC.Snapshot
