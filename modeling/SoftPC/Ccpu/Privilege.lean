import SoftPC.Ccpu.Gates

/-!
# Ccpu/Privilege — privilege is gained through gates

What a far transfer does to the level of privilege, for any memory whatever.  Once everything has
been checked the transfer commits, and the registers that protection is decided by take the values of
one of a few forms: the level that is current (`SameLevel`), a new level with a stack of its own
(`NewLevel`), of less privilege (`OuterLevel`), or V86 Mode (`ToV86`).
-/

namespace SoftPC.Ccpu

variable {M : Type}

/-! ## Levels in selectors and rights -/

@[simp] theorem selectorRpl_setSelectorRpl (sel : Selector) (level : Ring) :
    selectorRpl (setSelectorRpl sel level) = level := by
  ext i hi
  have : i = 0 ∨ i = 1 := by omega
  rcases this with rfl | rfl <;> simp [selectorRpl, setSelectorRpl]

@[simp] theorem arDpl_accessed (ar : Rights) : arDpl (ar ||| accessedBit) = arDpl ar := by
  ext i hi
  have : i = 0 ∨ i = 1 := by omega
  rcases this with rfl | rfl <;> simp [arDpl, accessedBit]

@[simp] theorem codeSegment_selector (sel : Selector) (entry : Descr) :
    (codeSegment sel entry).selector = sel := rfl

@[simp] theorem stackSegment_selector (sel : Selector) (entry : Descr) :
    (stackSegment sel entry).selector = sel := rfl

@[simp] theorem stackSegment_dpl (sel : Selector) (entry : Descr) :
    (stackSegment sel entry).dpl = arDpl entry.ar := arDpl_accessed entry.ar

section

variable {bus : Bus M} {p : Protection}

/-! ## What is loaded -/

theorem completes_setCpl {level : Ring} : Completes (prot · = p) (setCpl level : Exec M PUnit)
    fun _ s => prot s = { p with cpl := level } :=
  .modify fun _ hs => hs ▸ rfl

theorem completes_loadCsCache (hpe : p.pe) (hvm : p.vm = false) {sel : Selector} {descrAddr : Word}
    {entry : Descr} : Completes (prot · = p) (loadCsCache bus sel descrAddr entry)
      fun _ s => prot s = p.load .cs (codeSegment sel entry) := by
  unfold loadCsCache
  refine completes_getRegs.bind_fact fun regs hregs => .ite (fun hmode => ?_) fun _ => ?_
  · subst hregs
    simp [hpe, hvm] at hmode
  · exact (prot_keeps_onMemory _ p).bind fun _ => .modify fun _ hs => hs ▸ rfl

theorem completes_loadSsCache {sel : Selector} {descrAddr : Word} {entry : Descr} :
    Completes (prot · = p) (loadSsCache bus sel descrAddr entry)
      fun _ s => prot s = p.load .ss (stackSegment sel entry) :=
  (prot_keeps_onMemory _ p).bind fun _ => .modify fun _ hs => hs ▸ rfl

/-- A stack segment that passes has the level it is checked against. -/
theorem completes_checkSs {sel : Selector} {privilege : Ring} :
    Completes (prot · = p) (checkSs bus sel privilege)
      fun ss s => (selectorRpl sel = privilege ∧ arDpl ss.2.ar = privilege) ∧ prot s = p := by
  unfold checkSs
  refine (keeps_getRegs p).bind fun regs => .found_bind fun descrAddr _ => ?_
  refine (keeps_readDescriptorLinear bus _ p).bind fun entry => ?_
  refine .faultIf_bind fun _ => .faultIf_bind fun hlevel => .faultIf_bind fun _ => .pure fun s hs => ?_
  rw [not_or, not_not, not_not] at hlevel
  exact ⟨hlevel, hs⟩

theorem completes_validateSsOnStackChange {sel : Selector} {priv : Ring} :
    Completes (prot · = p) (validateSsOnStackChange bus priv sel)
      fun ss s => (selectorRpl sel = priv ∧ arDpl ss.2.ar = priv) ∧ prot s = p := by
  unfold validateSsOnStackChange
  refine (keeps_getRegs p).bind fun regs => .found_bind fun descrAddr _ => ?_
  refine (keeps_readDescriptorLinear bus _ p).bind fun entry => ?_
  refine .faultIf_bind fun hlevel => .faultIf_bind fun _ => .faultIf_bind fun _ => .pure fun s hs => ?_
  rw [not_or, not_not, not_not] at hlevel
  exact ⟨hlevel, hs⟩

theorem keeps_checkReturnAccess (newCs : Selector) (privilege : Ring) (ar : Rights) :
    Keeps prot (checkReturnAccess newCs privilege ar : Exec M PUnit) := by
  unfold checkReturnAccess
  split
  · exact .faultIf
  · exact .faultIf
  · exact .faultIf
  · exact .faultIf
  · exact .throw

theorem keeps_checkReturnCs (newCs : Selector) (privilege : Ring) :
    Keeps prot (checkReturnCs bus newCs privilege) :=
  keeps_getRegs.bind fun _ => Keeps.found.bind fun _ => (keeps_readDescriptorLinear bus _).bind fun _ =>
    (keeps_checkReturnAccess _ _ _).bind fun _ => Keeps.faultIf.bind fun _ => .pure

/-! ### The levels afterwards -/

/-- The data segment registers. -/
def dataRegs : List SegReg := [.ds, .es, .fs, .gs]

/-- A register can be used only at levels that its segment admits, or for conforming code. -/
def Protection.Admitted (q : Protection) (reg : SegReg) : Prop :=
  (q.sr reg).r ∨ (q.sr reg).w → q.cpl ≤ (q.sr reg).dpl ∨ (q.sr reg).c

/-- What holds of the levels after a transfer in protected mode. -/
structure Settled (p q : Protection) : Prop where
  /-- CPL is the RPL of CS. -/
  code : selectorRpl (q.sr .cs).selector = q.cpl
  /-- SS is as it was and the level too, or SS has the level in its RPL and its DPL. -/
  stack : (q.cpl = p.cpl ∧ q.sr .ss = p.sr .ss) ∨
    (selectorRpl (q.sr .ss).selector = q.cpl ∧ (q.sr .ss).dpl = q.cpl)
  /-- At an outer level, data segments of an inner one cannot be used. -/
  data : p.cpl < q.cpl → ∀ reg ∈ dataRegs, q.Admitted reg

theorem settled_sameLevel {sel : Selector} {entry : Descr} (h : selectorRpl sel = p.cpl) :
    Settled p (p.load .cs (codeSegment sel entry)) where
  code := by simpa [Protection.load] using h
  stack := .inl ⟨rfl, by simp [Protection.load]⟩
  data := fun hlt => absurd hlt (BitVec.lt_irrefl _)

/-! ## Calls -/

/-- A transfer to the level that is current ends in this. -/
def SameLevel (p q : Protection) : Prop :=
  ∃ sel entry, selectorRpl sel = p.cpl ∧ q = p.load .cs (codeSegment sel entry)

theorem SameLevel.cpl {q : Protection} (h : SameLevel p q) : q.cpl = p.cpl := by
  obtain ⟨sel, entry, -, rfl⟩ := h
  rfl

theorem SameLevel.le {q : Protection} (h : SameLevel p q) : p.cpl ≤ q.cpl := by
  rw [h.cpl]
  exact BitVec.le_refl _

theorem SameLevel.vm {q : Protection} (h : SameLevel p q) : q.vm = p.vm := by
  obtain ⟨sel, entry, -, rfl⟩ := h
  rfl

theorem SameLevel.settled {q : Protection} (h : SameLevel p q) : Settled p q := by
  obtain ⟨sel, entry, hrpl, rfl⟩ := h
  exact settled_sameLevel hrpl

/-- A transfer to a level with a stack of its own ends in this, its data segments apart. -/
structure NewLevel (q : Protection) (level : Ring) : Prop where
  cpl : q.cpl = level
  vm : q.vm = false
  code : selectorRpl (q.sr .cs).selector = level
  stack : selectorRpl (q.sr .ss).selector = level
  stackDpl : (q.sr .ss).dpl = level

theorem NewLevel.le {q : Protection} {level : Ring} (h : NewLevel q level) (hlt : p.cpl < level) :
    p.cpl ≤ q.cpl := by
  rw [h.cpl]
  exact BitVec.le_of_lt hlt

theorem NewLevel.settled {q : Protection} {level : Ring} (h : NewLevel q level)
    (hdata : p.cpl < level → ∀ reg ∈ dataRegs, q.Admitted reg) : Settled p q where
  code := h.code.trans h.cpl.symm
  stack := .inr ⟨h.stack.trans h.cpl.symm, h.stackDpl.trans h.cpl.symm⟩
  data := fun hlt => hdata (h.cpl ▸ hlt)

theorem newLevel_load {level : Ring} {cs ss : Selector} {csEntry ssEntry : Descr} (hvm : p.vm = false)
    (hcs : selectorRpl cs = level) (hss : selectorRpl ss = level ∧ arDpl ssEntry.ar = level) :
    NewLevel (({ p with cpl := level }.load .cs (codeSegment cs csEntry)).load .ss
      (stackSegment ss ssEntry)) level where
  cpl := rfl
  vm := hvm
  code := by simpa [Protection.load] using hcs
  stack := by simpa [Protection.load] using hss.1
  stackDpl := by simpa [Protection.load] using hss.2

theorem Protection.load_comm (q : Protection) {reg reg' : SegReg} (h : reg ≠ reg') (seg seg' : Segment) :
    (q.load reg seg).load reg' seg' = (q.load reg' seg').load reg seg := by
  simp only [Protection.load, Function.update_comm h]

theorem completes_callSameLevel (hpe : p.pe) (hvm : p.vm = false) {dest : FarDest} :
    Completes (prot · = p) (callSameLevel bus dest) fun _ s => SameLevel p (prot s) := by
  unfold callSameLevel
  refine (keeps_readDescriptorLinear bus _ p).bind fun entry => ?_
  refine completes_getRegs.bind_fact fun regs hregs => ?_
  refine (keeps_validateStackSpace bus _ _ p).bind fun _ => .faultIf_bind fun _ => ?_
  refine (keeps_spush16 bus _ p).bind fun _ => (keeps_spush bus _ p).bind fun _ => ?_
  refine (completes_loadCsCache hpe hvm).bind fun _ => (keeps_setEip _ _).mono (fun _ hs => hs) ?_
  intro _ s hs
  exact ⟨_, _, by rw [selectorRpl_setSelectorRpl, hregs], hs⟩

theorem completes_callMorePrivilege (hpe : p.pe) (hvm : p.vm = false) {dest : FarDest} {dpl : Ring} :
    Completes (prot · = p) (callMorePrivilege bus dest dpl) fun _ s => NewLevel (prot s) dpl := by
  unfold callMorePrivilege
  refine (keeps_readDescriptorLinear bus _ p).bind fun entry => ?_
  refine (keeps_getStackSelectorFromTss bus _ p).bind fun stack => ?_
  refine .bind_fact completes_validateSsOnStackChange fun ss hss => ?_
  refine (keeps_validateNewStackSpace bus _ _ _ p).bind fun _ => .faultIf_bind fun _ => ?_
  refine (keeps_getRegs p).bind fun old => ?_
  refine .bind completes_setCpl fun _ => .bind (completes_loadCsCache (by exact hpe) (by exact hvm)) fun _ => ?_
  refine (keeps_setEip _ _).bind fun _ => (keeps_spopMany bus _ _).bind fun params => ?_
  refine .bind completes_loadSsCache fun _ => ?_
  refine (keeps_setRegs (fun regs => toProtection_setCurrentSp regs _) _).bind fun _ => ?_
  refine (keeps_spush16 bus _ _).bind fun _ => (keeps_spush bus _ _).bind fun _ => ?_
  refine (keeps_spushMany bus _ _).bind fun _ => (keeps_spush16 bus _ _).bind fun _ => ?_
  refine (keeps_spush bus _ _).mono (fun _ hs => hs) fun _ s hs => ?_
  rw [hs]
  exact newLevel_load hvm (selectorRpl_setSelectorRpl _ _) hss

/-! ## Interrupts -/

theorem toProtection_enterGate (regs : Registers) (super : Super) :
    (regs.enterGate super).toProtection = regs.toProtection := rfl

theorem completes_intSameLevel (hpe : p.pe) (hvm : p.vm = false) {dest : IntDest}
    {errorCode : Option (BitVec 16)} :
    Completes (prot · = p) (intSameLevel bus dest errorCode) fun _ s => SameLevel p (prot s) := by
  unfold intSameLevel
  refine (keeps_readDescriptorLinear bus _ p).bind fun entry => ?_
  refine completes_getRegs.bind_fact fun regs hregs => ?_
  refine (keeps_validateStackSpace bus _ _ p).bind fun _ => .faultIf_bind fun _ => ?_
  refine (keeps_spush bus _ p).bind fun _ => (keeps_spush16 bus _ p).bind fun _ => ?_
  refine (keeps_spush bus _ p).bind fun _ => (keeps_spushErrorCode bus _ p).bind fun _ => ?_
  refine (completes_loadCsCache hpe hvm).bind fun _ => (keeps_setEip _ _).bind fun _ => ?_
  refine (keeps_setRegs (fun regs => toProtection_enterGate regs _) _).mono (fun _ hs => hs) ?_
  intro _ s hs
  exact ⟨_, _, by rw [selectorRpl_setSelectorRpl, hregs], hs⟩

theorem completes_intMorePrivilege (hpe : p.pe) (hvm : p.vm = false) {dest : IntDest} {dpl : Ring}
    {errorCode : Option (BitVec 16)} :
    Completes (prot · = p) (intMorePrivilege bus dest dpl errorCode) fun _ s => NewLevel (prot s) dpl := by
  unfold intMorePrivilege
  refine (keeps_readDescriptorLinear bus _ p).bind fun entry => ?_
  refine (keeps_getStackSelectorFromTss bus _ p).bind fun stack => ?_
  refine .bind_fact completes_validateSsOnStackChange fun ss hss => ?_
  refine completes_getRegs.bind_fact fun old hold => ?_
  refine (keeps_validateNewStackSpace bus _ _ _ p).bind fun _ => .faultIf_bind fun _ => ?_
  refine .bind completes_setCpl fun _ => ?_
  have hclear : Completes (prot · = { p with cpl := dpl })
      (setRegs fun regs => { regs with vm := false } : Exec M PUnit)
      fun _ s => prot s = { p with cpl := dpl } := .modify fun s hs => by
    change { prot s with vm := false } = _
    rw [hs, ← hvm]
  refine hclear.bind fun _ => .bind completes_loadSsCache fun _ => ?_
  refine (keeps_setRegs (fun regs => toProtection_setCurrentSp regs _) _).bind fun _ => ?_
  have hnone : spushV86Segments bus old = pure ⟨⟩ := by
    have hold : old.vm = false := by rw [hold, hvm]
    simp [spushV86Segments, hold]
  rw [hnone]
  refine (Keeps.pure _).bind fun _ => (keeps_spush16 bus _ _).bind fun _ => ?_
  refine (keeps_spush bus _ _).bind fun _ => (keeps_spush bus _ _).bind fun _ => ?_
  refine (keeps_spush16 bus _ _).bind fun _ => (keeps_spush bus _ _).bind fun _ => ?_
  refine (keeps_spushErrorCode bus _ _).bind fun _ => ?_
  refine .bind (completes_loadCsCache (by exact hpe) (by exact hvm)) fun _ => ?_
  refine (keeps_setEip _ _).bind fun _ => ?_
  refine (keeps_setRegs (fun regs => toProtection_enterGate regs _) _).mono (fun _ hs => hs) ?_
  intro _ s hs
  rw [hs, Protection.load_comm _ (by decide)]
  exact newLevel_load hvm (selectorRpl_setSelectorRpl _ _) hss

/-! ## Returns -/

/-- A data segment register after it has been looked at again. -/
def Protection.revalidate (q : Protection) (reg : SegReg) : Protection :=
  q.load reg (if q.validAtNewPrivilege (q.sr reg) then q.sr reg
    else { q.sr reg with selector := 0, w := false, r := false, base := 0, limit := 0 })

theorem completes_loadDataSegNewPrivilege {reg : SegReg} :
    Completes (prot · = p) (loadDataSegNewPrivilege reg : Exec M PUnit)
      fun _ s => prot s = p.revalidate reg :=
  .modify fun _ hs => hs ▸ rfl

theorem completes_revalidateDataSegs : Completes (prot · = p) (revalidateDataSegs : Exec M PUnit)
    fun _ s => prot s = dataRegs.foldl Protection.revalidate p :=
  .bind completes_loadDataSegNewPrivilege fun _ => .bind completes_loadDataSegNewPrivilege fun _ =>
    .bind completes_loadDataSegNewPrivilege fun _ => completes_loadDataSegNewPrivilege

theorem Protection.revalidate_sr (q : Protection) {reg reg' : SegReg} (h : reg' ≠ reg) :
    (q.revalidate reg).sr reg' = q.sr reg' := Function.update_of_ne h _ _

theorem Protection.admitted_revalidate (q : Protection) (reg : SegReg) : (q.revalidate reg).Admitted reg := by
  intro husable
  change q.cpl ≤ _ ∨ _
  simp only [Protection.revalidate, Protection.load, Function.update_self] at husable ⊢
  split at husable
  · rename_i hvalid
    rw [if_pos hvalid]
    simp only [Protection.validAtNewPrivilege, Bool.and_eq_true, Bool.or_eq_true, decide_eq_true_eq] at hvalid
    exact hvalid.2.symm.imp_left And.left
  · simp at husable

theorem Protection.admitted_revalidate_of_admitted {q : Protection} {reg reg' : SegReg}
    (h : q.Admitted reg') : (q.revalidate reg).Admitted reg' := by
  by_cases heq : reg' = reg
  · exact heq ▸ q.admitted_revalidate reg
  · intro husable
    rw [q.revalidate_sr heq] at husable ⊢
    exact h husable

/-- Registers that have been looked at are admitted, and stay so. -/
theorem admitted_foldl_revalidate (regs : List SegReg) (q : Protection) {reg : SegReg}
    (h : reg ∈ regs ∨ q.Admitted reg) : (regs.foldl Protection.revalidate q).Admitted reg := by
  induction regs generalizing q with
  | nil => exact h.resolve_left List.not_mem_nil
  | cons r regs ih =>
    refine ih _ ?_
    rcases h with h | h
    · rcases List.mem_cons.mp h with rfl | h
      · exact .inr (q.admitted_revalidate reg)
      · exact .inl h
    · exact .inr (Protection.admitted_revalidate_of_admitted h)

/-- Nothing else is changed. -/
theorem foldl_revalidate_sr (regs : List SegReg) (q : Protection) {reg : SegReg} (h : reg ∉ regs) :
    (regs.foldl Protection.revalidate q).sr reg = q.sr reg := by
  induction regs generalizing q with
  | nil => rfl
  | cons r regs ih =>
    rw [List.foldl_cons, ih _ (List.not_mem_of_not_mem_cons h),
      q.revalidate_sr (List.ne_of_not_mem_cons h)]

theorem NewLevel.revalidate {q : Protection} {level : Ring} (h : NewLevel q level) :
    NewLevel (dataRegs.foldl Protection.revalidate q) level where
  cpl := h.cpl
  vm := h.vm
  code := by rw [foldl_revalidate_sr dataRegs q (by decide)]; exact h.code
  stack := by rw [foldl_revalidate_sr dataRegs q (by decide)]; exact h.stack
  stackDpl := by rw [foldl_revalidate_sr dataRegs q (by decide)]; exact h.stackDpl

/-- A return to an outer level ends in this. -/
def OuterLevel (p q : Protection) : Prop := ∃ level, p.cpl < level ∧ NewLevel q level ∧ Settled p q

theorem outerLevel_load {level : Ring} {cs ss : Selector} {csEntry ssEntry : Descr} (hlt : p.cpl < level)
    (hvm : p.vm = false) (hcs : selectorRpl cs = level)
    (hss : selectorRpl ss = level ∧ arDpl ssEntry.ar = level) :
    OuterLevel p (dataRegs.foldl Protection.revalidate
      (({ p with cpl := level }.load .cs (codeSegment cs csEntry)).load .ss (stackSegment ss ssEntry))) :=
  have hnew := (newLevel_load hvm hcs hss).revalidate
  ⟨level, hlt, hnew, hnew.settled fun _ _ hreg => admitted_foldl_revalidate dataRegs _ (.inl hreg)⟩

theorem completes_retSameLevel (hpe : p.pe) (hvm : p.vm = false) {newCs : Selector} {newIp op1 : Word}
    (hcs : selectorRpl newCs = p.cpl) :
    Completes (prot · = p) (retSameLevel bus newCs newIp op1) fun _ s => SameLevel p (prot s) := by
  unfold retSameLevel
  refine (keeps_checkReturnCs _ _ p).bind fun cs => .faultIf_bind fun _ => ?_
  refine (completes_loadCsCache hpe hvm).bind fun _ => (keeps_setEip _ _).bind fun _ => ?_
  refine (keeps_setRegs (fun regs => ?_) _).mono (fun _ hs => hs) fun _ s hs => ⟨_, _, hcs, hs⟩
  rw [toProtection_byteChangeSp, toProtection_changeSp]

theorem completes_retLowerPrivilege (hpe : p.pe) (hvm : p.vm = false) {newCs : Selector} {newIp op1 : Word}
    (hcs : p.cpl < selectorRpl newCs) :
    Completes (prot · = p) (retLowerPrivilege bus newCs newIp op1) fun _ s => OuterLevel p (prot s) := by
  unfold retLowerPrivilege
  refine (keeps_getRegs p).bind fun regs => (keeps_validateStackExists bus _ _ p).bind fun _ => ?_
  refine (keeps_checkReturnCs _ _ p).bind fun cs => (keeps_tpop bus _ _ p).bind fun newSs => ?_
  refine .bind_fact completes_checkSs fun ss hss => .faultIf_bind fun _ => ?_
  refine .bind completes_setCpl fun _ => .bind (completes_loadCsCache (by exact hpe) (by exact hvm)) fun _ => ?_
  refine (keeps_setEip _ _).bind fun _ => (keeps_tpop bus _ _ _).bind fun newSp => ?_
  refine .bind completes_loadSsCache fun _ => ?_
  refine (keeps_setRegs (fun regs => toProtection_setCurrentSp regs _) _).bind fun _ => ?_
  refine .bind completes_revalidateDataSegs fun _ => ?_
  refine (keeps_setRegs (fun regs => ?_) _).mono (fun _ hs => hs) fun _ s hs => ?_
  · rw [toProtection_byteChangeSp, toProtection_changeSp]
  · rw [hs]
    exact outerLevel_load hcs hvm rfl hss

theorem completes_retf (hpe : p.pe) (hvm : p.vm = false) {op1 : Word} :
    Completes (prot · = p) (retf bus op1) fun _ s => SameLevel p (prot s) ∨ OuterLevel p (prot s) := by
  unfold retf
  refine (keeps_validateStackExists bus _ _ p).bind fun _ => ?_
  refine (keeps_tpop bus _ _ p).bind fun newIp => (keeps_tpop bus _ _ p).bind fun newCs => ?_
  refine completes_getRegs.bind_fact fun regs hregs => ?_
  subst hregs
  refine .ite (fun hmode => ?_) fun _ => .ite (fun _ => .throw) fun hge => .ite (fun heq => ?_) fun hne => ?_
  · simp [hpe, hvm] at hmode
  · exact (completes_retSameLevel hpe hvm heq).mono (fun _ hs => hs) fun _ _ h => .inl h
  · refine (completes_retLowerPrivilege hpe hvm ?_).mono (fun _ hs => hs) fun _ _ h => .inr h
    exact BitVec.lt_of_le_ne (BitVec.not_lt.mp hge) (Ne.symm hne)

/-! ### Interrupt returns -/

theorem toProtection_setCurrentFlags {regs : Registers} {flags : Word} (hflags : flags.getLsbD 17 = false)
    (hvm : regs.vm = false) : (regs.setCurrentFlags flags).toProtection = regs.toProtection := by
  unfold Registers.setCurrentFlags
  split
  · rfl
  · change { regs.toProtection with vm := if regs.cpl = 0 then flags.getLsbD 17 else regs.vm } = _
    rw [hflags, ← hvm, ite_self]

/-- Flags without VM leave the mode, in which VM is clear. -/
theorem completes_setCurrentFlags (hvm : p.vm = false) {flags : Word} (hflags : flags.getLsbD 17 = false)
    {g : Registers → Registers} (hg : ∀ regs, (g regs).toProtection = regs.toProtection) :
    Completes (prot · = p) (setRegs fun regs => (g regs).setCurrentFlags flags : Exec M PUnit)
      fun _ s => prot s = p := by
  refine .modify fun s hs => ?_
  have hregs : (g s.regs).toProtection = p := (hg s.regs).trans hs
  exact (toProtection_setCurrentFlags hflags (by rw [hregs, hvm])).trans hregs

theorem completes_iretSameLevel (hpe : p.pe) (hvm : p.vm = false) {newCs : Selector}
    {newIp newFlags : Word} (hflags : newFlags.getLsbD 17 = false) (hcs : selectorRpl newCs = p.cpl) :
    Completes (prot · = p) (iretSameLevel bus newCs newIp newFlags) fun _ s => SameLevel p (prot s) := by
  unfold iretSameLevel
  refine (keeps_checkReturnCs _ _ p).bind fun cs => .faultIf_bind fun _ => ?_
  refine (completes_loadCsCache hpe hvm).bind fun _ => (keeps_setEip _ _).bind fun _ => ?_
  refine (completes_setCurrentFlags (by exact hvm) hflags fun regs => toProtection_changeSp regs _).mono
    (fun _ hs => hs) fun _ s hs => ⟨_, _, hcs, hs⟩

theorem completes_iretLowerPrivilege (hpe : p.pe) (hvm : p.vm = false) {newCs : Selector}
    {newIp newFlags : Word} (hflags : newFlags.getLsbD 17 = false) (hcs : p.cpl < selectorRpl newCs) :
    Completes (prot · = p) (iretLowerPrivilege bus newCs newIp newFlags)
      fun _ s => OuterLevel p (prot s) := by
  unfold iretLowerPrivilege
  refine (keeps_validateStackExists bus _ _ p).bind fun _ => (keeps_checkReturnCs _ _ p).bind fun cs => ?_
  refine (keeps_tpop bus _ _ p).bind fun newSs => .bind_fact completes_checkSs fun ss hss => ?_
  refine .faultIf_bind fun _ => ?_
  refine (completes_loadCsCache hpe hvm).bind fun _ => (keeps_setEip _ _).bind fun _ => ?_
  refine .bind (completes_setCurrentFlags (by exact hvm) hflags fun _ => rfl) fun _ => ?_
  refine (keeps_tpop bus _ _ _).bind fun newSp => .bind completes_loadSsCache fun _ => ?_
  refine (keeps_setRegs (fun regs => toProtection_setCurrentSp regs _) _).bind fun _ => ?_
  refine .bind completes_setCpl fun _ => completes_revalidateDataSegs.mono (fun _ hs => hs) fun _ s hs => ?_
  rw [hs]
  exact outerLevel_load hcs hvm rfl hss

/-- On the way to V86 Mode, with the registers that have its pseudo descriptors. -/
structure InV86 (done : List SegReg) (q : Protection) : Prop where
  vm : q.vm = true
  cpl : q.cpl = 3
  dpl : ∀ reg ∈ done, (q.sr reg).dpl = 3

/-- A register that keeps its level may be given another selector. -/
theorem InV86.load {done : List SegReg} {q : Protection} (h : InV86 done q) {reg : SegReg} {seg : Segment}
    (hseg : seg.dpl = (q.sr reg).dpl) : InV86 done (q.load reg seg) where
  vm := h.vm
  cpl := h.cpl
  dpl := fun reg' hreg' => by
    change (Function.update q.sr reg seg reg').dpl = 3
    by_cases heq : reg' = reg
    · rw [heq, Function.update_self, hseg, ← h.dpl reg' hreg', heq]
    · rw [Function.update_of_ne heq, h.dpl reg' hreg']

/-- …and one that gets the pseudo descriptor is done. -/
theorem InV86.done {done : List SegReg} {q : Protection} (h : InV86 done q) {reg : SegReg} {seg : Segment}
    (hseg : seg.dpl = 3) : InV86 (reg :: done) (q.load reg seg) where
  vm := h.vm
  cpl := h.cpl
  dpl := fun reg' hreg' => by
    change (Function.update q.sr reg seg reg').dpl = 3
    by_cases heq : reg' = reg
    · rw [heq, Function.update_self, hseg]
    · rw [Function.update_of_ne heq, h.dpl reg' ((List.mem_cons.mp hreg').resolve_left heq)]

section

variable {done : List SegReg}

theorem v86_getRegs : Completes (fun s => InV86 done (prot s)) (getRegs : Exec M Registers)
    fun regs s => regs.vm = true ∧ InV86 done (prot s) := by
  intro s hs regs t ht
  cases ht
  exact ⟨hs.vm, hs⟩

theorem v86_tpop (item byteOffset : Word) : Completes (fun s => InV86 done (prot s))
    (tpop bus item byteOffset) fun _ s => InV86 done (prot s) :=
  (keeps_tpop bus item byteOffset).completes

theorem v86_loadDataSeg {reg : SegReg} {sel : Selector} : Completes (fun s => InV86 done (prot s))
    (loadDataSeg bus reg sel) fun _ s => InV86 done (prot s) := by
  unfold loadDataSeg
  refine .bind_fact v86_getRegs fun regs hvm => .ite (fun _ => .modify fun s hs => hs.load rfl) fun hmode => ?_
  simp [hvm] at hmode

theorem v86_loadStackSeg {sel : Selector} : Completes (fun s => InV86 done (prot s))
    (loadStackSeg bus sel) fun _ s => InV86 done (prot s) := by
  unfold loadStackSeg
  refine .bind_fact v86_getRegs fun regs hvm => .ite (fun _ => .modify fun s hs => hs.load rfl) fun hmode => ?_
  simp [hvm] at hmode

theorem v86_loadCsCache {sel : Selector} : Completes (fun s => InV86 done (prot s))
    (loadCsCache bus sel 0 {}) fun _ s => InV86 (.cs :: done) (prot s) := by
  unfold loadCsCache
  refine .bind_fact v86_getRegs fun regs hvm => .ite (fun _ => .modify fun s hs => hs.done ?_) fun hmode => ?_
  · have hvm : s.regs.vm = true := hs.vm
    simp [pseudoRights, hvm]
  · simp [hvm] at hmode

theorem v86_loadPseudoDescr {reg : SegReg} : Completes (fun s => InV86 done (prot s))
    (loadPseudoDescr reg : Exec M PUnit) fun _ s => InV86 (reg :: done) (prot s) := by
  refine .modify fun s hs => hs.done ?_
  have hvm : s.regs.vm = true := hs.vm
  simp [pseudoRights, hvm]

end

/-- A return to V86 Mode ends in this. -/
def ToV86 (q : Protection) : Prop := InV86 [.gs, .fs, .es, .ds, .ss, .cs] q

theorem completes_iretV86 (hcpl : p.cpl = 0) {newCs : Selector} {newIp newFlags : Word}
    (hflags : newFlags.getLsbD 17) :
    Completes (prot · = p) (iretV86 bus newCs newIp newFlags) fun _ s => ToV86 (prot s) := by
  unfold iretV86
  refine (keeps_validateStackExists bus _ _ p).bind fun _ => .faultIf_bind fun _ => ?_
  have hset : Completes (prot · = p) (setRegs fun regs => regs.setEflags newFlags : Exec M PUnit)
      fun _ s => (prot s).vm = true := .modify fun s hs => by
    have hs : s.regs.cpl = 0 := by rw [← hcpl, ← hs]; rfl
    change (if s.regs.cpl = 0 then newFlags.getLsbD 17 else s.regs.vm) = true
    rw [if_pos hs, hflags]
  have hcpl : Completes (fun s : State M => (prot s).vm = true) (setCpl 3)
      fun _ s => InV86 [] (prot s) := .modify fun s hs => ⟨hs, rfl, nofun⟩
  have hlimit : Completes (fun s => InV86 [.cs] (prot s))
      (setRegs fun regs => regs.setSegment .cs fun cs => { cs with limit := 0xffff } : Exec M PUnit)
      fun _ s => InV86 [.cs] (prot s) := .modify fun s hs => hs.load rfl
  refine hset.bind fun _ => hcpl.bind fun _ => .bind v86_loadCsCache fun _ => hlimit.bind fun _ => ?_
  refine .bind (keeps_setEip _).completes fun _ => ?_
  refine (v86_tpop _ _).bind fun newSp => (v86_tpop _ _).bind fun newSs => ?_
  refine (v86_tpop _ _).bind fun newEs => .bind v86_loadDataSeg fun _ => ?_
  refine (v86_tpop _ _).bind fun newDs => .bind v86_loadDataSeg fun _ => ?_
  refine (v86_tpop _ _).bind fun newFs => .bind v86_loadDataSeg fun _ => ?_
  refine (v86_tpop _ _).bind fun newGs => .bind v86_loadDataSeg fun _ => ?_
  refine .bind v86_loadStackSeg fun _ => ?_
  refine .bind (keeps_setRegs fun regs => toProtection_setCurrentSp regs _).completes fun _ => ?_
  exact .bind v86_loadPseudoDescr fun _ => .bind v86_loadPseudoDescr fun _ =>
    .bind v86_loadPseudoDescr fun _ => .bind v86_loadPseudoDescr fun _ => v86_loadPseudoDescr

/-- Where an interrupt return ends: VM is only taken from the stack at level 0. -/
theorem completes_iretSameTask (hpe : p.pe) (hvm : p.vm = false) {newCs : Selector}
    {newIp newFlags : Word} (hflags : p.cpl ≠ 0 → newFlags.getLsbD 17 = false) :
    Completes (prot · = p) (iretSameTask bus newCs newIp newFlags) fun _ s =>
      SameLevel p (prot s) ∨ OuterLevel p (prot s) ∨ (p.cpl = 0 ∧ ToV86 (prot s)) := by
  unfold iretSameTask
  refine completes_getRegs.bind_fact fun regs hregs => ?_
  subst hregs
  refine .ite (fun hbit => ?_) fun hbit => ?_
  · have hcpl : regs.cpl = 0 := by
      by_contra hcpl
      rw [hflags hcpl] at hbit
      cases hbit
    exact (completes_iretV86 hcpl hbit).mono (fun _ hs => hs) fun _ _ h => .inr (.inr ⟨hcpl, h⟩)
  · replace hbit : newFlags.getLsbD 17 = false := by simpa using hbit
    refine .ite (fun _ => .throw) fun hge => .ite (fun heq => ?_) fun hne => ?_
    · exact (completes_iretSameLevel hpe hvm hbit heq).mono (fun _ hs => hs) fun _ _ h => .inl h
    · refine (completes_iretLowerPrivilege hpe hvm hbit ?_).mono (fun _ hs => hs) fun _ _ h => .inr (.inl h)
      exact BitVec.lt_of_le_ne (BitVec.not_lt.mp hge) (Ne.symm hne)

end

/-! ## The transfers -/

/-- What a transfer may do to CPL, by the instruction. -/
def Transfer.KeepsPrivilege (bus : Bus M) (p : Protection) (m : M) (q : Protection) : Transfer → Prop
  | .jmpf _ _ => q.cpl = p.cpl
  | .retf _ => p.cpl ≤ q.cpl
  | .iret => p.cpl ≤ q.cpl
  | .callf sel _ => q.cpl = p.cpl ∨ (q.cpl < p.cpl ∧ ThroughCallGate bus p m sel q.cpl)
  | .intrupt vector privCheck _ =>
    q.cpl = p.cpl ∨ (q.cpl < p.cpl ∧ ThroughIntGate bus p m vector privCheck q.cpl)

section

variable {bus : Bus M} {switchTasks : SwitchTasks M} {s : State M}

theorem NewLevel.inner {p q : Protection} {level : Ring} (h : NewLevel q level) (hlt : level < p.cpl) :
    Settled p q :=
  h.settled fun hgt => absurd (BitVec.lt_trans hgt hlt) (BitVec.lt_irrefl _)

/-- What a destination that is not a task's goes through, from the state itself. -/
theorem completes_destination {δ : Type} {x : Exec M δ} {destType : δ → DestType} {c : Ring → Prop}
    (hx : Completes (Watched bus (prot s) s.mem) x fun dest t =>
      (∀ dpl, destType dest = .morePrivilege dpl → c dpl) ∧ Watched bus (prot s) s.mem t)
    (htask : goesToTask destType (x s) = false) :
    Completes (· = s) x fun dest t => (destType dest ≠ .newTask ∧
      ∀ dpl, destType dest = .morePrivilege dpl → c dpl) ∧ prot t = prot s := by
  rintro _ rfl dest t ht
  obtain ⟨hdest, hwatched⟩ := hx _ ⟨rfl, .refl⟩ dest t ht
  rw [ht] at htask
  exact ⟨⟨of_decide_eq_false htask, hdest⟩, hwatched.1⟩

theorem completes_getRegs_self : Completes (· = s) (getRegs : Exec M Registers)
    fun regs t => regs = s.regs ∧ t = s := by
  rintro _ rfl regs t ht
  cases ht
  exact ⟨rfl, rfl⟩

theorem completes_callf (hpe : s.regs.pe) (hvm : s.regs.vm = false) {newCs : Selector} {newIp : Word}
    (htask : (Transfer.callf newCs newIp).switchesTask bus s = false) :
    Completes (· = s) (callf bus switchTasks newCs newIp) fun _ t =>
      (Transfer.callf newCs newIp).KeepsPrivilege bus (prot s) s.mem (prot t) ∧
        (prot t).vm = false ∧ Settled (prot s) (prot t) := by
  unfold callf
  refine .bind_fact completes_getRegs_self fun regs hregs => .ite (fun hmode => ?_) fun _ => ?_
  · simp [hregs, hpe, hvm] at hmode
  refine (completes_destination watched_validateFarDest htask).bind_fact fun dest ⟨hnew, hdest⟩ => ?_
  cases hd : dest.destType with
  | newTask => exact absurd hd hnew
  | sameLevel =>
    refine (completes_callSameLevel hpe hvm).mono (fun _ ht => ht) fun _ t ht => ?_
    exact ⟨.inl ht.cpl, ht.vm.trans hvm, ht.settled⟩
  | morePrivilege dpl =>
    obtain ⟨-, hlt, hgate⟩ := hdest dpl hd
    refine (completes_callMorePrivilege hpe hvm).mono (fun _ ht => ht) fun _ t ht => ?_
    exact ⟨.inr (ht.cpl.symm ▸ ⟨hlt, hgate⟩), ht.vm, ht.inner hlt⟩

theorem completes_jmpf (hpe : s.regs.pe) (hvm : s.regs.vm = false) {newCs : Selector} {newIp : Word}
    (htask : (Transfer.jmpf newCs newIp).switchesTask bus s = false) :
    Completes (· = s) (jmpf bus switchTasks newCs newIp) fun _ t =>
      (Transfer.jmpf newCs newIp).KeepsPrivilege bus (prot s) s.mem (prot t) ∧
        (prot t).vm = false ∧ Settled (prot s) (prot t) := by
  unfold jmpf
  refine .bind_fact completes_getRegs_self fun regs hregs => .ite (fun hmode => ?_) fun _ => ?_
  · simp [hregs, hpe, hvm] at hmode
  refine (completes_destination watched_validateFarDest htask).bind_fact fun dest ⟨hnew, hdest⟩ => ?_
  cases hd : dest.destType with
  | newTask => exact absurd hd hnew
  | sameLevel =>
    refine (keeps_readDescriptorLinear bus _ _).bind fun entry => .faultIf_bind fun _ => ?_
    refine .bind (completes_loadCsCache (by exact hpe) (by exact hvm)) fun _ => ?_
    refine (keeps_setEip _ _).mono (fun _ ht => ht) fun _ t ht => ?_
    have hsame : SameLevel (prot s) (prot t) :=
      ⟨_, entry, (selectorRpl_setSelectorRpl _ _).trans (congrArg (·.cpl) hregs), ht⟩
    exact ⟨hsame.cpl, hsame.vm.trans hvm, hsame.settled⟩
  | morePrivilege dpl => exact absurd rfl (hdest dpl hd).1

theorem completes_iret (hpe : s.regs.pe) (hvm : s.regs.vm = false)
    (htask : Transfer.iret.switchesTask bus s = false) :
    Completes (· = s) (iret bus switchTasks) fun _ t =>
      SameLevel (prot s) (prot t) ∨ OuterLevel (prot s) (prot t) ∨ (s.regs.cpl = 0 ∧ ToV86 (prot t)) := by
  unfold iret
  refine .bind_fact completes_getRegs_self fun regs hregs => .ite (fun hmode => ?_) fun _ => ?_
  · simp [hregs, hpe, hvm] at hmode
  subst hregs
  refine .ite (fun hnt => ?_) fun _ => ?_
  · exact absurd hnt (by simpa [Transfer.switchesTask] using htask)
  refine Completes.mono (P := (prot · = prot s)) ?_ (fun _ ht => ht ▸ rfl) fun _ _ h => h
  refine (keeps_validateStackExists bus _ _ _).bind fun _ => (keeps_tpop bus _ _ _).bind fun newIp => ?_
  refine (keeps_tpop bus _ _ _).bind fun newCs => (keeps_tpop bus _ _ _).bind fun newFlags => ?_
  refine completes_iretSameTask hpe hvm fun hcpl => ?_
  rw [if_pos hcpl]
  simp

theorem completes_intProtected (hpe : s.regs.pe) (hvm : s.regs.vm = false) {vector : BitVec 16}
    {privCheck : Bool} {errorCode : Option (BitVec 16)}
    (htask : (Transfer.intrupt vector privCheck errorCode).switchesTask bus s = false) :
    Completes (· = s) (intProtected bus switchTasks vector privCheck errorCode) fun _ t =>
      (Transfer.intrupt vector privCheck errorCode).KeepsPrivilege bus (prot s) s.mem (prot t) ∧
        (prot t).vm = false ∧ Settled (prot s) (prot t) := by
  unfold intProtected
  refine .bind_fact completes_getRegs_self fun regs _ => ?_
  refine (completes_destination watched_validateIntDest htask).bind_fact fun dest ⟨hnew, hdest⟩ => ?_
  cases hd : dest.destType with
  | newTask => exact absurd hd hnew
  | sameLevel =>
    refine (completes_intSameLevel hpe hvm).mono (fun _ ht => ht) fun _ t ht => ?_
    exact ⟨.inl ht.cpl, ht.vm.trans hvm, ht.settled⟩
  | morePrivilege dpl =>
    obtain ⟨hlt, hgate⟩ := hdest dpl hd
    refine (completes_intMorePrivilege hpe hvm).mono (fun _ ht => ht) fun _ t ht => ?_
    exact ⟨.inr (ht.cpl.symm ▸ ⟨hlt, hgate⟩), ht.vm, ht.inner hlt⟩

/-- **Privilege is only gained through gates.**  Of a far transfer that stays in its task, in
protected mode: a jump keeps CPL, a return does not lower it, and a call or an interrupt lowers it
only to the level of present non-conforming code that is behind a present gate it may use.  The
levels in CS, SS and the data segments then agree with it.  A return to V86 Mode, which is made from
level 0 only, sets CPL and the level of every segment register to 3. -/
theorem privilege_through_gates (t : Transfer) {s' : State M} (hpe : s.regs.pe) (hvm : s.regs.vm = false)
    (hvector : t.vectored) (htask : t.switchesTask bus s = false)
    (h : t.perform bus switchTasks s = .ok ⟨⟩ s') :
    t.KeepsPrivilege bus (prot s) s.mem (prot s') ∧
      ((s'.regs.vm = false ∧ Settled (prot s) (prot s')) ∨
        (t = .iret ∧ s.regs.cpl = 0 ∧ s'.regs.vm ∧ s'.regs.cpl = 3 ∧ ∀ reg, (s'.regs.sr reg).dpl = 3)) := by
  cases t with
  | callf newCs newIp =>
    obtain ⟨hkeeps, hsettled⟩ := completes_callf hpe hvm htask s rfl _ _ h
    exact ⟨hkeeps, .inl hsettled⟩
  | jmpf newCs newIp =>
    obtain ⟨hkeeps, hsettled⟩ := completes_jmpf hpe hvm htask s rfl _ _ h
    exact ⟨hkeeps, .inl hsettled⟩
  | retf op1 =>
    rcases completes_retf hpe hvm s rfl _ _ h with hsame | ⟨level, hlt, hnew, hsettled⟩
    · exact ⟨hsame.le, .inl ⟨hsame.vm.trans hvm, hsame.settled⟩⟩
    · exact ⟨hnew.le hlt, .inl ⟨hnew.vm, hsettled⟩⟩
  | iret =>
    rcases completes_iret hpe hvm htask s rfl _ _ h with hsame | ⟨level, hlt, hnew, hsettled⟩ | ⟨hcpl, hv86⟩
    · exact ⟨hsame.le, .inl ⟨hsame.vm.trans hvm, hsame.settled⟩⟩
    · exact ⟨hnew.le hlt, .inl ⟨hnew.vm, hsettled⟩⟩
    · refine ⟨?_, .inr ⟨rfl, hcpl, hv86.vm, hv86.cpl, fun reg => hv86.dpl reg (by cases reg <;> decide)⟩⟩
      change s.regs.cpl ≤ (prot s').cpl
      rw [hcpl]
      exact Nat.zero_le _
  | intrupt vector privCheck errorCode =>
    have hne : vector ≠ 0xffff := by simpa [Transfer.vectored] using hvector
    have hint : Completes (· = s) (doIntrupt bus switchTasks vector privCheck errorCode) fun _ t =>
        (Transfer.intrupt vector privCheck errorCode).KeepsPrivilege bus (prot s) s.mem (prot t) ∧
          (prot t).vm = false ∧ Settled (prot s) (prot t) := by
      unfold doIntrupt
      rw [if_neg hne]
      have hdelivered : Keeps prot (setRegs Registers.delivered : Exec M PUnit) := keeps_setRegs fun _ => rfl
      refine Completes.bind ?_ fun _ => hdelivered.completes (P := fun q =>
        (Transfer.intrupt vector privCheck errorCode).KeepsPrivilege bus (prot s) s.mem q ∧
          q.vm = false ∧ Settled (prot s) q)
      refine .bind_fact completes_getRegs_self fun regs hregs => .ite (fun hmode => ?_) fun _ => ?_
      · simp [hregs, hpe] at hmode
      · exact completes_intProtected hpe hvm htask
    obtain ⟨hkeeps, hsettled⟩ := hint s rfl _ _ h
    exact ⟨hkeeps, .inl hsettled⟩

end

/-! ## Memory without paging -/

/-- A little-endian read. -/
def flatRead (mem : Word → BitVec 8) (addr : Word) : (w : Width) → BitVec w.bits
  | .byte => mem addr
  | .word => mem (addr + 1) ++ mem addr
  | .dword => mem (addr + 3) ++ mem (addr + 2) ++ mem (addr + 1) ++ mem addr

def flatWriteByte (mem : Word → BitVec 8) (addr : Word) (v : BitVec 8) : Word → BitVec 8 :=
  Function.update mem addr v

/-- …and a write. -/
def flatWrite (mem : Word → BitVec 8) (addr : Word) : (w : Width) → BitVec w.bits → Word → BitVec 8
  | .byte, v => flatWriteByte mem addr v
  | .word, v => flatWriteByte (flatWriteByte mem addr (v.setWidth 8)) (addr + 1) ((v >>> 8).setWidth 8)
  | .dword, v =>
    flatWriteByte (flatWriteByte (flatWriteByte (flatWriteByte mem addr (v.setWidth 8))
      (addr + 1) ((v >>> 8).setWidth 8)) (addr + 2) ((v >>> 16).setWidth 8)) (addr + 3) ((v >>> 24).setWidth 8)

/-- The operations of `c_page.c` where paging is off and all of memory is RAM. -/
def flatBus : Bus (Word → BitVec 8) where
  phyReadWord addr := fun mem => .ok (flatRead mem addr .word) mem
  sprRead w addr := fun mem => .ok (flatRead mem addr w) mem
  sprWriteByte addr v := fun mem => .ok ⟨⟩ (flatWriteByte mem addr v)
  sprChk _ _ _ := pure ⟨⟩
  usrChk _ _ _ _ := pure ⟨⟩
  virRead w addr := fun mem => .ok (flatRead mem addr w) mem
  virWrite w addr v := fun mem => .ok ⟨⟩ (flatWrite mem addr w v)

/-- A memory that holds these bytes at these addresses. -/
def image (parts : List (Word × List (BitVec 8))) : Word → BitVec 8 := fun addr =>
  parts.foldr (fun part rest => (part.2[(addr - part.1).toNat]?).getD rest) 0

/-- A segment of all of memory, with its access rights. -/
def flatDescr (ar : BitVec 8) : List (BitVec 8) := [0xff, 0xff, 0, 0, 0, ar, 0xcf, 0]

/-- Code of level 3 that has a gate to code of level 0. -/
def beforeGate : State (Word → BitVec 8) where
  regs :=
    { pe := true, vm := false, cpl := 3
      sr := fun
        | .cs => { selector := 0x1b, dpl := 3, r := true, x := true, limit := 0xffffffff }
        | _ => { selector := 0x23, dpl := 3, r := true, w := true, x := true, limit := 0xffffffff }
      gdt := { base := 0, limit := 0x2f }
      idt := {}
      ldt := {}
      tr := { selector := 0, super := .xtndBusyTss, base := 0x1000, limit := 0x67 }
      eip := 0x5000, esp := 0x8000, ebp := 0, flags := {}, operandSize := .use32 }
  mem := image
    [(0x08, flatDescr 0x9a), (0x10, flatDescr 0x92), (0x18, flatDescr 0xfa), (0x20, flatDescr 0xf2),
      (0x28, [0x00, 0x01, 0x08, 0x00, 0x00, 0xec, 0x00, 0x00]), (0x1004, [0x00, 0x20, 0x00, 0x00, 0x10])]

theorem gate_entered : ∃ s', (Transfer.callf 0x2b 0).perform flatBus (fun _ _ _ _ _ => throw (.ts 0)) beforeGate
      = .ok ⟨⟩ s' ∧ s'.regs.cpl = 0 ∧
    (Transfer.callf 0x2b 0).KeepsPrivilege flatBus (prot beforeGate) beforeGate.mem (prot s') := by
  obtain ⟨_, s', h, hcpl⟩ : ∃ a s', (Transfer.callf 0x2b 0).perform flatBus
      (fun _ _ _ _ _ => throw (.ts 0)) beforeGate = .ok a s' ∧ decide (s'.regs.cpl = 0) :=
    exists_of_completedIn (by decide +kernel)
  exact ⟨s', h, of_decide_eq_true hcpl,
    (privilege_through_gates _ rfl rfl rfl (by decide) h).1⟩

/-- A level 0 that has the image of a V86 task on its stack, whose CS is 0x1000. -/
def beforeV86 : State (Word → BitVec 8) where
  regs :=
    { beforeGate.regs with
      cpl := 0
      sr := fun
        | .cs => { selector := 0x08, r := true, x := true, limit := 0xffffffff }
        | _ => { selector := 0x10, r := true, w := true, x := true, limit := 0xffffffff } }
  mem := image [(0x8004, [0x00, 0x10, 0x00, 0x00]), (0x8008, [0x02, 0x00, 0x02, 0x00])]

/-- In V86 Mode a selector has no RPL, and CPL is not that of CS. -/
theorem v86_selector_unlevelled : ¬∀ (M : Type) (bus : Bus M) (switchTasks : SwitchTasks M) (t : Transfer)
    (s s' : State M), s.regs.pe → s.regs.vm = false → t.vectored → t.switchesTask bus s = false →
    t.perform bus switchTasks s = .ok ⟨⟩ s' →
    t.KeepsPrivilege bus (prot s) s.mem (prot s') ∧ Settled (prot s) (prot s') := by
  intro hall
  obtain ⟨_, s', h, hrpl⟩ : ∃ a s', Transfer.iret.perform flatBus (fun _ _ _ _ _ => throw (.ts 0)) beforeV86
      = .ok a s' ∧ decide (selectorRpl (s'.regs.sr .cs).selector ≠ s'.regs.cpl) :=
    exists_of_completedIn (by decide)
  exact of_decide_eq_true hrpl (hall _ _ _ _ _ _ rfl rfl rfl rfl h).2.code

end SoftPC.Ccpu
