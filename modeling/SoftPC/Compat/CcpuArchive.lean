import SoftPC.Compat.SnapshotStream

/-!
# Compat/CcpuArchive — the processor's section of a snapshot

`compat/ccpu/archive.c` over the states of `compat/ccpu/snapshot.h`.  Every state is a record of words,
written in one order and read in another that is the same; the orders are the source's, writer and
reader apart.  The memory, the types of its pages and the page index of the translation buffer are
plain bytes.
-/

namespace SoftPC.Snapshot

open Decoder

/-! ## Registers -/

/-- `softpc_ccpu_segment_state`. -/
inductive SegmentField where
  | base | limit | selector | accessRights
  deriving DecidableEq

def SegmentField.width : SegmentField → ℕ
  | .base | .limit => 32
  | .selector | .accessRights => 16

abbrev SegmentState := ∀ field : SegmentField, BitVec field.width

/-- `softpc_ccpu_register_state`, its words. -/
inductive RegisterField where
  | eax | ecx | edx | ebx | esp | ebp | esi | edi | eip | eflags | cr0 | cr2 | cr3 | cpl
  | gdtBase | idtBase | ldtBase | trBase | ldtLimit | trLimit
  | gdtLimit | idtLimit | ldtSelector | trSelector | trAccessRights
  deriving DecidableEq

def RegisterField.width : RegisterField → ℕ
  | .gdtLimit | .idtLimit | .ldtSelector | .trSelector | .trAccessRights => 16
  | _ => 32

/-- … and its six segments. -/
structure RegisterState where
  words : ∀ field : RegisterField, BitVec field.width
  segments : Fin 6 → SegmentState

def writeSegment : SegmentState → List UInt8 :=
  writeWords _ [.base, .limit, .selector, .accessRights]

def readSegment : Reader SegmentState :=
  readWords _ [.base, .limit, .selector, .accessRights]

/-- The order of `snapshot_write_registers` … -/
def registerWriteOrder : List RegisterField :=
  [.eax, .ecx, .edx, .ebx, .esp, .ebp, .esi, .edi, .eip, .eflags, .cr0, .cr2, .cr3, .cpl, .gdtBase,
    .idtBase, .ldtBase, .trBase, .ldtLimit, .trLimit, .gdtLimit, .idtLimit, .ldtSelector, .trSelector,
    .trAccessRights]

/-- … and of `snapshot_read_registers`. -/
def registerReadOrder : List RegisterField :=
  [.eax, .ecx, .edx, .ebx, .esp, .ebp, .esi, .edi, .eip, .eflags, .cr0, .cr2, .cr3, .cpl, .gdtBase,
    .idtBase, .ldtBase, .trBase, .ldtLimit, .trLimit, .gdtLimit, .idtLimit, .ldtSelector, .trSelector,
    .trAccessRights]

def snapshotWriteRegisters (state : RegisterState) : List UInt8 :=
  writeWords _ registerWriteOrder state.words ++ writeArray writeSegment state.segments

def snapshotReadRegisters : Reader RegisterState := do
  let words ← readWords _ registerReadOrder
  let segments ← readArray readSegment fun _ _ => 0
  pure ⟨words, segments⟩

theorem pairs_segment : Pairs readSegment writeSegment fun _ => True := by
  refine pairs_words (fun field => ?_) (by decide) fun field => ?_ <;> cases field <;> decide

theorem pairs_registerWords :
    Pairs (readWords RegisterField.width registerReadOrder)
      (writeWords RegisterField.width registerWriteOrder) fun _ => True := by
  refine pairs_words (fun field => ?_) (by decide) fun field => ?_ <;> cases field <;> decide

theorem pairs_registers : Pairs snapshotReadRegisters snapshotWriteRegisters fun _ => True := by
  have hsegments := pairs_array (n := 6) pairs_segment fun _ _ => 0
  refine ⟨fun state rest _ => ?_, fun list state rest h => ?_⟩
  · simp only [snapshotReadRegisters, snapshotWriteRegisters, List.append_assoc, parse_bind,
      (pairs_registerWords).decodes _ _ trivial, hsegments.decodes _ _ fun _ => trivial,
      Option.bind_some, parse_pure]
  · simp only [snapshotReadRegisters, parse_bind_eq_some, parse_pure_eq_some] at h
    obtain ⟨_, _, hwords, _, _, hrest, rfl, rfl⟩ := h
    obtain ⟨rfl, -⟩ := (pairs_registerWords).encodes _ _ _ hwords
    obtain ⟨rfl, -⟩ := hsegments.encodes _ _ _ hrest
    exact ⟨by rw [snapshotWriteRegisters, List.append_assoc], trivial⟩

/-! ## Execution and breakpoints -/

/-- `softpc_ccpu_execution_state`. -/
structure ExecutionState where
  debugRegisters : Fin 8 → BitVec 32
  testRegisters : Fin 8 → BitVec 32
  interruptMap : BitVec 32
  startTrap : BitVec 32

def snapshotWriteExecution (state : ExecutionState) : List UInt8 :=
  writeArray writeU32 state.debugRegisters ++ writeArray writeU32 state.testRegisters ++
    writeU32 state.interruptMap ++ writeU32 state.startTrap

def snapshotReadExecution : Reader ExecutionState := do
  let debugRegisters ← readArray readU32 fun _ => 0
  let testRegisters ← readArray readU32 fun _ => 0
  let interruptMap ← readU32
  let startTrap ← readU32
  pure ⟨debugRegisters, testRegisters, interruptMap, startTrap⟩

theorem pairs_execution : Pairs snapshotReadExecution snapshotWriteExecution fun _ => True := by
  have harray := pairs_array (n := 8) pairs_u32 fun _ => 0
  refine ⟨fun state rest _ => ?_, fun list state rest h => ?_⟩
  · simp only [snapshotReadExecution, snapshotWriteExecution, List.append_assoc, parse_bind,
      harray.decodes _ _ fun _ => trivial, pairs_u32.decodes _ _ trivial, Option.bind_some, parse_pure]
  · simp only [snapshotReadExecution, parse_bind_eq_some, parse_pure_eq_some] at h
    obtain ⟨_, _, hdebug, _, _, htest, _, _, hmap, _, _, htrap, rfl, rfl⟩ := h
    obtain ⟨rfl, -⟩ := harray.encodes _ _ _ hdebug
    obtain ⟨rfl, -⟩ := harray.encodes _ _ _ htest
    obtain ⟨rfl, -⟩ := pairs_u32.encodes _ _ _ hmap
    obtain ⟨rfl, -⟩ := pairs_u32.encodes _ _ _ htrap
    exact ⟨by simp only [snapshotWriteExecution, List.append_assoc], trivial⟩

/-- `softpc_ccpu_instruction_break_state`. -/
inductive InstructionBreakField where
  | linearAddress | registerIndex
  deriving DecidableEq

/-- `softpc_ccpu_data_break_state`. -/
inductive DataBreakField where
  | startAddress | endAddress | type | registerIndex
  deriving DecidableEq

/-- `softpc_ccpu_debug_state`. -/
structure DebugState where
  instructionBreakCount : BitVec 32
  dataBreakCount : BitVec 32
  instructionBreaks : Fin 4 → InstructionBreakField → BitVec 32
  dataBreaks : Fin 4 → DataBreakField → BitVec 32

def writeInstructionBreak : (InstructionBreakField → BitVec 32) → List UInt8 :=
  writeWords _ [.linearAddress, .registerIndex]

def readInstructionBreak : Reader (InstructionBreakField → BitVec 32) :=
  readWords _ [.linearAddress, .registerIndex]

def writeDataBreak : (DataBreakField → BitVec 32) → List UInt8 :=
  writeWords _ [.startAddress, .endAddress, .type, .registerIndex]

def readDataBreak : Reader (DataBreakField → BitVec 32) :=
  readWords _ [.startAddress, .endAddress, .type, .registerIndex]

def snapshotWriteDebug (state : DebugState) : List UInt8 :=
  writeU32 state.instructionBreakCount ++ writeU32 state.dataBreakCount ++
    writeArray writeInstructionBreak state.instructionBreaks ++
    writeArray writeDataBreak state.dataBreaks

def snapshotReadDebug : Reader DebugState := do
  let instructionBreakCount ← readU32
  let dataBreakCount ← readU32
  ensure (instructionBreakCount.toNat ≤ 4 && dataBreakCount.toNat ≤ 4) .invalidArgument
  let instructionBreaks ← readArray readInstructionBreak fun _ _ => 0
  let dataBreaks ← readArray readDataBreak fun _ _ => 0
  pure ⟨instructionBreakCount, dataBreakCount, instructionBreaks, dataBreaks⟩

/-- No more breakpoints than there are registers. -/
def DebugState.Counted (state : DebugState) : Prop :=
  state.instructionBreakCount.toNat ≤ 4 ∧ state.dataBreakCount.toNat ≤ 4

theorem pairs_instructionBreak : Pairs readInstructionBreak writeInstructionBreak fun _ => True := by
  refine pairs_words (fun field => by decide) (by decide) fun field => ?_
  cases field <;> decide

theorem pairs_dataBreak : Pairs readDataBreak writeDataBreak fun _ => True := by
  refine pairs_words (fun field => by decide) (by decide) fun field => ?_
  cases field <;> decide

theorem pairs_debug : Pairs snapshotReadDebug snapshotWriteDebug DebugState.Counted := by
  have hinstruction := pairs_array (n := 4) pairs_instructionBreak fun _ _ => 0
  have hdata := pairs_array (n := 4) pairs_dataBreak fun _ _ => 0
  refine ⟨fun state rest hcounted => ?_, fun list state rest h => ?_⟩
  · simp only [snapshotReadDebug, snapshotWriteDebug, List.append_assoc, parse_bind, parse_ensure,
      pairs_u32.decodes _ _ trivial, hinstruction.decodes _ _ fun _ => trivial,
      hdata.decodes _ _ fun _ => trivial, hcounted.1, hcounted.2, decide_true, Bool.and_self, if_true,
      Option.bind_some, parse_pure]
  · simp only [snapshotReadDebug, parse_bind_eq_some, parse_pure_eq_some, parse_ensure_eq_some,
      Bool.and_eq_true, decide_eq_true_eq] at h
    obtain ⟨_, _, hcount, _, _, hcount', _, _, ⟨hcounted, rfl⟩, _, _, hbreaks, _, _, hbreaks', rfl,
      rfl⟩ := h
    obtain ⟨rfl, -⟩ := pairs_u32.encodes _ _ _ hcount
    obtain ⟨rfl, -⟩ := pairs_u32.encodes _ _ _ hcount'
    obtain ⟨rfl, -⟩ := hinstruction.encodes _ _ _ hbreaks
    obtain ⟨rfl, -⟩ := hdata.encodes _ _ _ hbreaks'
    exact ⟨by simp only [snapshotWriteDebug, List.append_assoc], hcounted⟩

/-! ## The translation buffer -/

/-- `softpc_ccpu_tlb_entry_state`. -/
inductive TlbEntryField where
  | linearPage | physicalPage | mode | valid | dirty
  deriving DecidableEq

/-- `softpc_ccpu_tlb_state`. -/
structure TlbState where
  entries : Fin 4 → Fin 8 → TlbEntryField → BitVec 32
  nextSet : Fin 8 → BitVec 32
  pageAddress : Fin 128 → BitVec 32

def writeTlbEntry : (TlbEntryField → BitVec 32) → List UInt8 :=
  writeWords _ [.linearPage, .physicalPage, .mode, .valid, .dirty]

/-- An entry's flags are checked as soon as it is read. -/
def readTlbEntry : Reader (TlbEntryField → BitVec 32) := do
  let item ← readWords _ [.linearPage, .physicalPage, .mode, .valid, .dirty]
  ensure ((item .valid).toNat ≤ 1 && (item .dirty).toNat ≤ 1) .invalidArgument
  pure item

def snapshotWriteTlb (state : TlbState) : List UInt8 :=
  writeArray (writeArray writeTlbEntry) state.entries ++ writeArray writeU32 state.nextSet ++
    writeArray writeU32 state.pageAddress

def snapshotReadTlb : Reader TlbState := do
  let entries ← readArray (readArray readTlbEntry fun _ _ => 0) fun _ _ _ => 0
  let nextSet ← readArray readU32 fun _ => 0
  let pageAddress ← readArray readU32 fun _ => 0
  pure ⟨entries, nextSet, pageAddress⟩

/-- Flags that are flags. -/
def TlbState.Flagged (state : TlbState) : Prop :=
  ∀ set entry, (state.entries set entry .valid).toNat ≤ 1 ∧ (state.entries set entry .dirty).toNat ≤ 1

theorem pairs_tlbEntry :
    Pairs readTlbEntry writeTlbEntry fun item =>
      (item .valid).toNat ≤ 1 ∧ (item .dirty).toNat ≤ 1 := by
  have hwords : Pairs (readWords (fun _ => 32) _) writeTlbEntry fun _ => True :=
    pairs_words (fun _ => by decide) (by decide) fun field => by cases field <;> decide
  refine hwords.check.congr (fun item => ?_) fun _ _ => rfl
  simp only [true_and, Bool.and_eq_true, decide_eq_true_eq]

theorem pairs_tlb : Pairs snapshotReadTlb snapshotWriteTlb TlbState.Flagged := by
  have hentries := pairs_array (n := 4) (pairs_array (n := 8) pairs_tlbEntry fun _ _ => 0) fun _ _ _ => 0
  have hsets := pairs_array (n := 8) pairs_u32 fun _ => 0
  have haddresses := pairs_array (n := 128) pairs_u32 fun _ => 0
  refine ⟨fun state rest hflagged => ?_, fun list state rest h => ?_⟩
  · simp only [snapshotReadTlb, snapshotWriteTlb, List.append_assoc, parse_bind,
      hentries.decodes _ _ hflagged, hsets.decodes _ _ fun _ => trivial,
      haddresses.decodes _ _ fun _ => trivial, Option.bind_some, parse_pure]
  · simp only [snapshotReadTlb, parse_bind_eq_some, parse_pure_eq_some] at h
    obtain ⟨_, _, hfirst, _, _, hsecond, _, _, hthird, rfl, rfl⟩ := h
    obtain ⟨rfl, hflagged⟩ := hentries.encodes _ _ _ hfirst
    obtain ⟨rfl, -⟩ := hsets.encodes _ _ _ hsecond
    obtain ⟨rfl, -⟩ := haddresses.encodes _ _ _ hthird
    exact ⟨by simp only [snapshotWriteTlb, List.append_assoc], hflagged⟩

/-! ## The floating-point unit -/

/-- `softpc_ccpu_fpu_stack_state`. -/
inductive FpuStackField where
  | valueBits | tag
  deriving DecidableEq

def FpuStackField.width : FpuStackField → ℕ
  | .valueBits => 64
  | .tag => 32

/-- `softpc_ccpu_fpu_state`, its words. -/
inductive FpuField where
  | control | status | lastSelector | lastOffset | fea | fds | fip | fop | fcs | popStack | doublePop
  | unordered | reverse | addressSize32 | protectedMode | exceptionPending | delayedInterrupt
  | delayedExceptionEip
  deriving DecidableEq

structure FpuState where
  words : FpuField → BitVec 32
  stack : Fin 8 → ∀ field : FpuStackField, BitVec field.width

/-- The order of `snapshot_write_fpu` … -/
def fpuWriteOrder : List FpuField :=
  [.control, .status, .lastSelector, .lastOffset, .fea, .fds, .fip, .fop, .fcs, .popStack, .doublePop,
    .unordered, .reverse, .addressSize32, .protectedMode, .exceptionPending, .delayedInterrupt,
    .delayedExceptionEip]

/-- … and of `snapshot_read_fpu`. -/
def fpuReadOrder : List FpuField :=
  [.control, .status, .lastSelector, .lastOffset, .fea, .fds, .fip, .fop, .fcs, .popStack, .doublePop,
    .unordered, .reverse, .addressSize32, .protectedMode, .exceptionPending, .delayedInterrupt,
    .delayedExceptionEip]

def writeFpuStack : (∀ field : FpuStackField, BitVec field.width) → List UInt8 :=
  writeWords _ [.valueBits, .tag]

def readFpuStack : Reader (∀ field : FpuStackField, BitVec field.width) :=
  readWords _ [.valueBits, .tag]

def snapshotWriteFpu (state : FpuState) : List UInt8 :=
  writeWords _ fpuWriteOrder state.words ++ writeArray writeFpuStack state.stack

def snapshotReadFpu : Reader FpuState := do
  let words ← readWords _ fpuReadOrder
  let stack ← readArray readFpuStack fun _ _ => 0
  pure ⟨words, stack⟩

theorem pairs_fpuStack : Pairs readFpuStack writeFpuStack fun _ => True := by
  refine pairs_words (fun field => ?_) (by decide) fun field => ?_ <;> cases field <;> decide

theorem pairs_fpuWords :
    Pairs (readWords (fun _ => 32) fpuReadOrder) (writeWords (fun _ => 32) fpuWriteOrder)
      fun _ => True := by
  refine pairs_words (fun _ => by decide) (by decide) fun field => ?_
  cases field <;> decide

theorem pairs_fpu : Pairs snapshotReadFpu snapshotWriteFpu fun _ => True := by
  have hstack := pairs_array (n := 8) pairs_fpuStack fun _ _ => 0
  refine ⟨fun state rest _ => ?_, fun list state rest h => ?_⟩
  · simp only [snapshotReadFpu, snapshotWriteFpu, List.append_assoc, parse_bind,
      (pairs_fpuWords).decodes _ _ trivial, hstack.decodes _ _ fun _ => trivial, Option.bind_some,
      parse_pure]
  · simp only [snapshotReadFpu, parse_bind_eq_some, parse_pure_eq_some] at h
    obtain ⟨_, _, hwords, _, _, hrest, rfl, rfl⟩ := h
    obtain ⟨rfl, -⟩ := (pairs_fpuWords).encodes _ _ _ hwords
    obtain ⟨rfl, -⟩ := hstack.encodes _ _ _ hrest
    exact ⟨by rw [snapshotWriteFpu, List.append_assoc], trivial⟩

/-! ## The memory -/

/-- `softpc_ccpu_sas_state`. -/
inductive SasField where
  | memoryBytes | pageTypeBytes | wrapMask | selectorsSet | codeSelector | dataSelector
  deriving DecidableEq

/-- The storage of an archive: the memory, the types of its pages, and the page index of the
translation buffer. -/
structure Buffers where
  memory : List UInt8
  pageTypes : List UInt8
  tlbPageIndex : List UInt8

/-- `SOFTPC_CCPU_FAST_TLB_PAGE_COUNT`. -/
def fastTlbPageCount : ℕ := 1048576

def writeSasWords : (SasField → BitVec 32) → List UInt8 :=
  writeWords _ [.memoryBytes, .pageTypeBytes, .wrapMask, .selectorsSet, .codeSelector, .dataSelector]

def readSasWords : Reader (SasField → BitVec 32) :=
  readWords _ [.memoryBytes, .pageTypeBytes, .wrapMask, .selectorsSet, .codeSelector, .dataSelector]

def snapshotWriteSas (sas : SasField → BitVec 32) (buffers : Buffers) : List UInt8 :=
  writeSasWords sas ++ buffers.memory.take (sas .memoryBytes).toNat ++
    buffers.pageTypes.take (sas .pageTypeBytes).toNat ++ buffers.tlbPageIndex.take fastTlbPageCount

/-- What `snapshot_read_sas` asks of the sizes. -/
def sasAccepts (expectedMemoryBytes : BitVec 32) (sas : SasField → BitVec 32) : Bool :=
  !(expectedMemoryBytes.toNat > 0xffffffff - 0x10020 || sas .memoryBytes == 0 ||
    sas .pageTypeBytes == 0 || sas .memoryBytes != expectedMemoryBytes ||
    sas .pageTypeBytes != (expectedMemoryBytes + 0x10020) >>> 12)

/-- `softpc_ccpu_archive_allocate`, for an archive that has no storage. -/
def ccpuArchiveAllocate : Reader Unit := do
  storage .noMemory
  storage .noMemory
  storage .noMemory

def snapshotReadSas (expectedMemoryBytes : BitVec 32) : Reader ((SasField → BitVec 32) × Buffers) := do
  let sas ← readSasWords
  ensure (sasAccepts expectedMemoryBytes sas) .invalidArgument
  ccpuArchiveAllocate
  let memory ← cells (sas .memoryBytes).toNat
  let pageTypes ← cells (sas .pageTypeBytes).toNat
  let tlbPageIndex ← cells fastTlbPageCount
  pure (sas, ⟨memory, pageTypes, tlbPageIndex⟩)

/-- Storage of the sizes the state gives, for a memory of the expected size. -/
structure SasFits (expectedMemoryBytes : BitVec 32) (sas : SasField → BitVec 32) (buffers : Buffers) :
    Prop where
  accepts : sasAccepts expectedMemoryBytes sas = true
  memory : buffers.memory.length = (sas .memoryBytes).toNat
  pageTypes : buffers.pageTypes.length = (sas .pageTypeBytes).toNat
  tlbPageIndex : buffers.tlbPageIndex.length = fastTlbPageCount

theorem pairs_sasWords : Pairs readSasWords writeSasWords fun _ => True := by
  refine pairs_words (fun _ => by decide) (by decide) fun field => ?_
  cases field <;> decide

theorem SasFits.write {expected : BitVec 32} {sas : SasField → BitVec 32} {buffers : Buffers}
    (h : SasFits expected sas buffers) :
    snapshotWriteSas sas buffers =
      writeSasWords sas ++ (buffers.memory ++ (buffers.pageTypes ++ buffers.tlbPageIndex)) := by
  simp only [snapshotWriteSas, List.append_assoc, ← h.memory, ← h.pageTypes, ← h.tlbPageIndex,
    List.take_length]

theorem pairs_sas (expected : BitVec 32) :
    Pairs (snapshotReadSas expected) (fun state => snapshotWriteSas state.1 state.2)
      fun state => SasFits expected state.1 state.2 where
  decodes state rest h := by
    obtain ⟨sas, buffers⟩ := state
    have hcells (list rest : List UInt8) {n : ℕ} (hn : list.length = n) :
        (cells n : Reader _).parse (list ++ rest) = some (list, rest) := (Pairs.cells n).decodes _ _ hn
    simp only [h.write, snapshotReadSas, ccpuArchiveAllocate, List.append_assoc, parse_bind,
      (pairs_sasWords).decodes _ _ trivial, parse_ensure, h.accepts, if_true, parse_storage,
      hcells _ _ h.memory, hcells _ _ h.pageTypes, hcells _ _ h.tlbPageIndex, Option.bind_some,
      parse_pure]
  encodes list state rest h := by
    simp only [snapshotReadSas, ccpuArchiveAllocate, parse_bind_eq_some, parse_ensure_eq_some,
      parse_storage_eq_some, parse_pure_eq_some] at h
    obtain ⟨sas, _, hsas, _, _, ⟨haccepts, rfl⟩, _, _, ⟨_, _, rfl, _, _, rfl, rfl⟩, memory, _, hmemory,
      pageTypes, _, htypes, index, _, hindex, rfl, rfl⟩ := h
    obtain ⟨rfl, -⟩ := (pairs_sasWords).encodes _ _ _ hsas
    obtain ⟨rfl, hm⟩ := (Pairs.cells _).encodes _ _ _ hmemory
    obtain ⟨rfl, ht⟩ := (Pairs.cells _).encodes _ _ _ htypes
    obtain ⟨rfl, hi⟩ := (Pairs.cells _).encodes _ _ _ hindex
    have hfits : SasFits expected sas ⟨memory, pageTypes, index⟩ := ⟨haccepts, hm, ht, hi⟩
    exact ⟨by rw [hfits.write]; simp only [id, List.append_assoc], hfits⟩

/-! ## The section -/

/-- The states of a `softpc_ccpu_archive` that has storage. -/
structure CoreState where
  sas : SasField → BitVec 32
  buffers : Buffers
  registers : RegisterState
  execution : ExecutionState
  debug : DebugState
  tlb : TlbState
  fpu : FpuState

/-- What `softpc_ccpu_archive_write_core` writes of a valid archive. -/
def writeCore (core : CoreState) : List UInt8 :=
  snapshotWriteSas core.sas core.buffers ++ snapshotWriteRegisters core.registers ++
    snapshotWriteExecution core.execution ++ snapshotWriteDebug core.debug ++
    snapshotWriteTlb core.tlb ++ snapshotWriteFpu core.fpu

/-- `softpc_ccpu_archive_read_core`. -/
def ccpuArchiveReadCore (expectedMemoryBytes : BitVec 32) : Reader CoreState := do
  ensure (expectedMemoryBytes != 0) .invalidArgument
  let (sas, buffers) ← snapshotReadSas expectedMemoryBytes
  let registers ← snapshotReadRegisters
  let execution ← snapshotReadExecution
  let debug ← snapshotReadDebug
  let tlb ← snapshotReadTlb
  let fpu ← snapshotReadFpu
  pure ⟨sas, buffers, registers, execution, debug, tlb, fpu⟩

/-- A state the reader admits. -/
structure CoreState.Fits (expectedMemoryBytes : BitVec 32) (core : CoreState) : Prop where
  sas : SasFits expectedMemoryBytes core.sas core.buffers
  debug : core.debug.Counted
  tlb : core.tlb.Flagged

theorem SasFits.expected_ne_zero {expected : BitVec 32} {sas : SasField → BitVec 32} {buffers : Buffers}
    (h : SasFits expected sas buffers) : (expected != 0) = true := by
  have := h.accepts
  simp only [sasAccepts] at this
  grind -linarith

/-- **The processor's states** are read as they are written. -/
theorem pairs_core (expected : BitVec 32) :
    Pairs (ccpuArchiveReadCore expected) writeCore (CoreState.Fits expected) where
  decodes core rest h := by
    simp only [ccpuArchiveReadCore, writeCore, List.append_assoc, parse_bind, parse_ensure,
      h.sas.expected_ne_zero, if_true, (pairs_sas expected).decodes (core.sas, core.buffers) _ h.sas,
      (pairs_registers).decodes _ _ trivial, (pairs_execution).decodes _ _ trivial,
      (pairs_debug).decodes _ _ h.debug, (pairs_tlb).decodes _ _ h.tlb, (pairs_fpu).decodes _ _ trivial,
      Option.bind_some, parse_pure]
  encodes list core rest h := by
    simp only [ccpuArchiveReadCore, parse_bind_eq_some, parse_ensure_eq_some, parse_pure_eq_some] at h
    obtain ⟨_, _, ⟨-, rfl⟩, ⟨sas, buffers⟩, _, hsas, _, _, hregisters, _, _, hexecution, _, _, hdebug, _, _,
      htlb, _, _, hfpu, rfl, rfl⟩ := h
    obtain ⟨rfl, hfits⟩ := (pairs_sas expected).encodes _ _ _ hsas
    obtain ⟨rfl, -⟩ := (pairs_registers).encodes _ _ _ hregisters
    obtain ⟨rfl, -⟩ := (pairs_execution).encodes _ _ _ hexecution
    obtain ⟨rfl, hcounted⟩ := (pairs_debug).encodes _ _ _ hdebug
    obtain ⟨rfl, hflagged⟩ := (pairs_tlb).encodes _ _ _ htlb
    obtain ⟨rfl, -⟩ := (pairs_fpu).encodes _ _ _ hfpu
    exact ⟨by simp only [writeCore, List.append_assoc], hfits, hcounted, hflagged⟩

/-- The length of the section. -/
theorem writeCore_length {expected : BitVec 32} {core : CoreState} (h : core.Fits expected) :
    (writeCore core).length = (core.sas .memoryBytes).toNat + (core.sas .pageTypeBytes).toNat +
      fastTlbPageCount + 1714 := by
  have hword (value : BitVec 32) : (writeU32 value).length = 4 := writeWord_length 4 value
  have hsas : (writeSasWords core.sas).length = 24 := writeWords_length _ _
  have hregisters : (writeWords _ registerWriteOrder core.registers.words).length = 90 :=
    writeWords_length _ _
  have hsegment (state : SegmentState) : (writeSegment state).length = 12 := writeWords_length _ _
  have hinstruction (state : InstructionBreakField → BitVec 32) :
      (writeInstructionBreak state).length = 8 := writeWords_length _ _
  have hdata (state : DataBreakField → BitVec 32) : (writeDataBreak state).length = 16 :=
    writeWords_length _ _
  have hitem (item : TlbEntryField → BitVec 32) : (writeTlbEntry item).length = 20 :=
    writeWords_length _ _
  have hfpu : (writeWords _ fpuWriteOrder core.fpu.words).length = 72 := writeWords_length _ _
  have hstack (state : ∀ field : FpuStackField, BitVec field.width) :
      (writeFpuStack state).length = 12 := writeWords_length _ _
  simp only [writeCore, h.sas.write, snapshotWriteRegisters, snapshotWriteExecution,
    snapshotWriteDebug, snapshotWriteTlb, snapshotWriteFpu, List.length_append, h.sas.memory,
    h.sas.pageTypes, h.sas.tlbPageIndex, writeArray_length hword, writeArray_length hsegment,
    writeArray_length hinstruction, writeArray_length hdata,
    writeArray_length (writeArray_length hitem), writeArray_length hstack, hword, hsas, hregisters, hfpu]
  omega

theorem writeCore_length_lt {expected : BitVec 32} {core : CoreState} (h : core.Fits expected) :
    (writeCore core).length < 2 ^ 64 := by
  have hmemory := (core.sas .memoryBytes).isLt
  have htypes := (core.sas .pageTypeBytes).isLt
  rw [writeCore_length h, fastTlbPageCount]
  omega

end SoftPC.Snapshot
