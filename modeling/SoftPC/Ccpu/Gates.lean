import SoftPC.Ccpu.Transfer
import Mathlib.Logic.Relation

/-!
# Ccpu/Gates — what a far transfer sees before it commits to anything

The registers that protection is decided by (`prot`) are unchanged by accesses to memory and to the
stack, whatever the memory is.  While a destination is validated memory is only read, and what is
read is *seen* (`Bus.Seen`): more privilege lies behind a call gate, or a gate of the IDT, that is
seen to be present and to admit the caller, and that leads to a segment which is seen to be present
non-conforming code (`ThroughCallGate`, `ThroughIntGate`).
-/

namespace SoftPC.Ccpu

variable {M : Type} {α β : Type}

/-! ## What is kept -/

/-- The registers that protection is decided by. -/
def prot (s : State M) : Protection := s.regs.toProtection

/-- A segment register loaded. -/
def Protection.load (p : Protection) (reg : SegReg) (seg : Segment) : Protection :=
  { p with sr := Function.update p.sr reg seg }

theorem keeps_onMemory {f : Registers → β} (x : EStateM Fault M α) :
    Keeps (fun s : State M => f s.regs) (onMemory x) := by
  intro b s hs a t ht
  unfold onMemory at ht
  split at ht
  · cases ht; exact hs
  · cases ht

theorem keeps_getRegs {f : State M → β} : Keeps f (getRegs : Exec M Registers) :=
  Keeps.bind .get fun _ => .pure

theorem keeps_setRegs {g : Registers → Registers} (hg : ∀ regs, (g regs).toProtection = regs.toProtection) :
    Keeps prot (setRegs g : Exec M PUnit) :=
  .modify fun s => hg s.regs

theorem prot_keeps_onMemory (x : EStateM Fault M α) : Keeps prot (onMemory x) :=
  keeps_onMemory (f := Registers.toProtection) x

section

variable (bus : Bus M)

theorem keeps_readDescriptorLinear (addr : Word) : Keeps prot (readDescriptorLinear bus addr) :=
  (prot_keeps_onMemory _).bind fun _ => (prot_keeps_onMemory _).bind fun _ => .pure

theorem toProtection_setCurrentSp (regs : Registers) (sp : Word) :
    (regs.setCurrentSp sp).toProtection = regs.toProtection := by
  unfold Registers.setCurrentSp
  split <;> rfl

theorem toProtection_byteChangeSp (regs : Registers) (delta : Word) :
    (regs.byteChangeSp delta).toProtection = regs.toProtection := by
  unfold Registers.byteChangeSp
  split <;> rfl

theorem toProtection_changeSp (regs : Registers) (items : Word) :
    (regs.changeSp items).toProtection = regs.toProtection :=
  toProtection_byteChangeSp regs _

theorem keeps_limitCheck (reg : SegReg) (offset nrItems opSz : Word) :
    Keeps prot (limitCheck reg offset nrItems opSz : Exec M PUnit) :=
  .bind keeps_getRegs fun _ => .faultIf

theorem keeps_spop : Keeps prot (spop bus) :=
  .bind keeps_getRegs fun _ => (prot_keeps_onMemory _).bind fun _ =>
    (keeps_setRegs fun regs => toProtection_byteChangeSp regs _).bind fun _ => .pure

theorem keeps_spush (data : Word) : Keeps prot (spush bus data) :=
  (keeps_setRegs fun regs => toProtection_byteChangeSp regs _).bind fun _ =>
    .bind keeps_getRegs fun _ => prot_keeps_onMemory _

theorem keeps_spush16 (data : Selector) : Keeps prot (spush16 bus data) :=
  (keeps_setRegs fun regs => toProtection_byteChangeSp regs _).bind fun _ =>
    .bind keeps_getRegs fun _ => prot_keeps_onMemory _

theorem keeps_tpop (item byteOffset : Word) : Keeps prot (tpop bus item byteOffset) :=
  .bind keeps_getRegs fun _ => (prot_keeps_onMemory _).bind fun _ => .pure

theorem keeps_spopMany (n : ℕ) : Keeps prot (spopMany bus n) := by
  induction n with
  | zero => exact .pure
  | succ n ih => exact (keeps_spop bus).bind fun _ => ih.bind fun _ => .pure

theorem keeps_spushMany (vals : List Word) : Keeps prot (spushMany bus vals) := by
  induction vals with
  | nil => exact .pure
  | cons val vals ih => exact ih.bind fun _ => keeps_spush bus val

theorem keeps_usrChkItems (isWrite : Bool) (n : ℕ) (offset : Word) :
    Keeps prot (usrChkItems bus isWrite n offset) := by
  induction n generalizing offset with
  | zero => exact .pure
  | succ n ih => exact .bind keeps_getRegs fun _ => (prot_keeps_onMemory _).bind fun _ => ih _

theorem keeps_sprChkItems (base : Word) (n : ℕ) (offset : Word) :
    Keeps prot (sprChkItems bus base n offset) := by
  induction n generalizing offset with
  | zero => exact .pure
  | succ n ih => exact .bind keeps_getRegs fun _ => (prot_keeps_onMemory _).bind fun _ => ih _

theorem keeps_validateNewStackSpace (nrItems stackTop : Word) (entry : Descr) :
    Keeps prot (validateNewStackSpace bus nrItems stackTop entry) :=
  .bind keeps_getRegs fun _ => Keeps.faultIf.bind fun _ => keeps_sprChkItems bus _ _ _

theorem keeps_validateStackExists (useBp : Bool) (nrItems : Word) :
    Keeps prot (validateStackExists bus useBp nrItems) :=
  .bind keeps_getRegs fun _ => Keeps.faultIf.bind fun _ => (keeps_limitCheck _ _ _ _).bind fun _ =>
    keeps_usrChkItems bus _ _ _

theorem keeps_validateStackSpace (useBp : Bool) (nrItems : Word) :
    Keeps prot (validateStackSpace bus useBp nrItems) :=
  .bind keeps_getRegs fun _ => Keeps.faultIf.bind fun _ => (keeps_limitCheck _ _ _ _).bind fun _ =>
    keeps_usrChkItems bus _ _ _

theorem keeps_getStackSelectorFromTss (priv : Ring) : Keeps prot (getStackSelectorFromTss bus priv) :=
  .bind keeps_getRegs fun _ => .ite
    ((prot_keeps_onMemory _).bind fun _ => (prot_keeps_onMemory _).bind fun _ => .pure)
    ((prot_keeps_onMemory _).bind fun _ => (prot_keeps_onMemory _).bind fun _ => .pure)

theorem keeps_spushErrorCode (errorCode : Option (BitVec 16)) :
    Keeps prot (spushErrorCode bus errorCode) := by
  cases errorCode with
  | none => exact .pure
  | some code => exact keeps_spush bus _

theorem keeps_setEip (ip : Word) : Keeps prot (setEip ip : Exec M PUnit) := keeps_setRegs fun _ => rfl

end

/-! ## What is seen -/

/-- The memory has been read, and not otherwise touched. -/
def Bus.Looked (bus : Bus M) : M → M → Prop :=
  Relation.ReflTransGen fun m m' => ∃ w addr v, bus.sprRead w addr m = .ok v m'

/-- A read of the memory gives this value, perhaps after other reads. -/
def Bus.Seen (bus : Bus M) (m : M) (w : Width) (addr : Word) (v : BitVec w.bits) : Prop :=
  ∃ m₁ m₂, bus.Looked m m₁ ∧ bus.sprRead w addr m₁ = .ok v m₂

/-- The access rights of a descriptor are seen. -/
def Bus.SeenRights (bus : Bus M) (m : M) (descrAddr : Word) (ar : Rights) : Prop :=
  ∃ v : BitVec 8, bus.Seen m .byte (descrAddr + 5) v ∧ ar = v.setWidth 16

/-- A selector leads to a present segment of non-conforming code, of the level given. -/
def LeadsTo (bus : Bus M) (p : Protection) (m : M) (sel : Selector) (dpl : Ring) : Prop :=
  ∃ descrAddr ar, selectorInGdtLdt p sel = some descrAddr ∧ bus.SeenRights m descrAddr ar ∧
    (descriptorSuperType ar = .nonconformNoreadCode ∨ descriptorSuperType ar = .nonconformReadableCode) ∧
    arP ar ∧ arDpl ar = dpl

/-- The selector is of a present call gate that may be used at this level and by this selector, and
that leads to the level given. -/
def ThroughCallGate (bus : Bus M) (p : Protection) (m : M) (sel : Selector) (dpl : Ring) : Prop :=
  ∃ gateAddr ar first, selectorInGdtLdt p sel = some gateAddr ∧ bus.SeenRights m gateAddr ar ∧
    (descriptorSuperType ar = .callGate ∨ descriptorSuperType ar = .xtndCallGate) ∧
    arP ar ∧ p.cpl ≤ arDpl ar ∧ selectorRpl sel ≤ arDpl ar ∧
    bus.Seen m .dword gateAddr first ∧ LeadsTo bus p m ((first >>> 16).setWidth 16) dpl

/-- The gates of the IDT that interrupts go through. -/
def IsIntGate (super : Super) : Prop :=
  super = .interruptGate ∨ super = .trapGate ∨ super = .xtndInterruptGate ∨ super = .xtndTrapGate

/-- The vector is of a present gate that, where that is checked, may be used at this level, and that
leads to the level given. -/
def ThroughIntGate (bus : Bus M) (p : Protection) (m : M) (vector : BitVec 16) (privCheck : Bool)
    (dpl : Ring) : Prop :=
  ∃ gateAddr ar target, gateAddr = p.idt.base + (vector * 8).setWidth 32 ∧
    (vector * 8).toNat + 7 ≤ p.idt.limit.toNat ∧ bus.SeenRights m gateAddr ar ∧
    IsIntGate (descriptorSuperType ar) ∧ arP ar ∧ (privCheck → p.cpl ≤ arDpl ar) ∧
    bus.Seen m .word (gateAddr + 2) target ∧ LeadsTo bus p m target dpl

/-- Nothing has been done but to look. -/
def Watched (bus : Bus M) (p : Protection) (m : M) (s : State M) : Prop :=
  prot s = p ∧ bus.Looked m s.mem

section

variable {bus : Bus M} {p : Protection} {m : M}

theorem completes_getRegs : Completes (prot · = p) (getRegs : Exec M Registers)
    fun regs s => regs.toProtection = p ∧ prot s = p := by
  intro s hs regs t ht
  cases ht
  exact ⟨hs, hs⟩

theorem watched_getRegs : Completes (Watched bus p m) getRegs
    fun regs s => regs.toProtection = p ∧ Watched bus p m s := by
  intro s hs regs t ht
  cases ht
  exact ⟨hs.1, hs⟩

/-- What is read is seen. -/
theorem watched_read {w : Width} {addr : Word} : Completes (Watched bus p m) (onMemory (bus.sprRead w addr))
    fun v s => bus.Seen m w addr v ∧ Watched bus p m s := by
  intro s hs v t ht
  unfold onMemory at ht
  cases hread : bus.sprRead w addr s.mem with
  | ok v' m' =>
    rw [hread] at ht
    cases ht
    exact ⟨⟨s.mem, m', hs.2, hread⟩, hs.1, hs.2.tail ⟨w, addr, v, hread⟩⟩
  | error e m' =>
    rw [hread] at ht
    cases ht

theorem watched_readRights {descrAddr : Word} : Completes (Watched bus p m) (readRights bus descrAddr)
    fun ar s => bus.SeenRights m descrAddr ar ∧ Watched bus p m s :=
  .bind_fact watched_read fun v hv => .pure fun _ hs => ⟨⟨v, hv, rfl⟩, hs⟩

/-- The registers may be set while one looks. -/
theorem watched_setRegs {g : Registers → Registers} (hg : ∀ regs, (g regs).toProtection = regs.toProtection) :
    Completes (Watched bus p m) (setRegs g) fun _ => Watched bus p m :=
  .modify fun s hs => ⟨(hg s.regs).trans hs.1, hs.2⟩

/-! ### Destinations -/

/-- Code behind a gate is of more privilege only if it is non-conforming and of a lower level, and
only for callers that may gain it. -/
theorem watched_checkGateDest {caller : CallerId} {newCs : Selector} {ar : Rights} {cpl : Ring} :
    Completes (Watched bus p m) (checkGateDest caller cpl newCs ar) fun destType s =>
      (∀ dpl, destType = .morePrivilege dpl → caller ≠ .jmp ∧ dpl < cpl ∧
        (descriptorSuperType ar = .nonconformNoreadCode ∨ descriptorSuperType ar = .nonconformReadableCode) ∧
        arDpl ar = dpl) ∧ Watched bus p m s := by
  have nonconforming (hcode : descriptorSuperType ar = .nonconformNoreadCode ∨
      descriptorSuperType ar = .nonconformReadableCode) (hjmp : ¬(caller = .jmp ∧ arDpl ar ≠ cpl)) (dpl : Ring)
      (hdpl : (if arDpl ar < cpl then DestType.morePrivilege (arDpl ar) else .sameLevel) = .morePrivilege dpl) :
      caller ≠ .jmp ∧ dpl < cpl ∧ (descriptorSuperType ar = .nonconformNoreadCode ∨
        descriptorSuperType ar = .nonconformReadableCode) ∧ arDpl ar = dpl := by
    split at hdpl
    · cases hdpl
      rename_i hlt
      exact ⟨fun hc => hjmp ⟨hc, BitVec.ne_of_lt hlt⟩, hlt, hcode, rfl⟩
    · cases hdpl
  unfold checkGateDest
  split
  · exact .faultIf_bind fun _ => .pure fun _ hs => ⟨nofun, hs⟩
  · exact .faultIf_bind fun _ => .pure fun _ hs => ⟨nofun, hs⟩
  · exact .faultIf_bind fun _ => .faultIf_bind fun hjmp => .pure fun _ hs =>
      ⟨nonconforming (.inl ‹_›) hjmp, hs⟩
  · exact .faultIf_bind fun _ => .faultIf_bind fun hjmp => .pure fun _ hs =>
      ⟨nonconforming (.inr ‹_›) hjmp, hs⟩
  · exact .throw

theorem watched_validateGateDest {caller : CallerId} {newCs : Selector} :
    Completes (Watched bus p m) (validateGateDest bus caller newCs) fun dest s =>
      (∀ dpl, dest.2 = .morePrivilege dpl → caller ≠ .jmp ∧ dpl < p.cpl ∧ LeadsTo bus p m newCs dpl) ∧
        Watched bus p m s := by
  unfold validateGateDest
  refine .bind_fact watched_getRegs fun regs hregs => ?_
  subst hregs
  refine .found_bind fun descrAddr haddr => ?_
  refine .bind_fact watched_readRights fun ar har => ?_
  refine .bind_fact watched_checkGateDest fun destType htype => ?_
  refine .faultIf_bind fun _ => .faultIf_bind fun hp => .pure fun s hs => ⟨fun dpl hdpl => ?_, hs⟩
  obtain ⟨hcaller, hlt, hcode, hdpl⟩ := htype dpl hdpl
  exact ⟨hcaller, hlt, descrAddr, ar, haddr, har, hcode, by simpa using hp, hdpl⟩

theorem watched_validateTaskDest {sel : Selector} :
    Completes (Watched bus p m) (validateTaskDest bus sel) fun _ => Watched bus p m := by
  unfold validateTaskDest
  refine .bind_fact watched_getRegs fun regs _ => .found_bind fun _ _ => ?_
  refine .bind_fact watched_readRights fun ar _ => ?_
  exact .faultIf_bind fun _ => .faultIf_bind fun _ => .pure fun _ hs => hs

theorem watched_readCallGate {gateAddr : Word} {super : Super} :
    Completes (Watched bus p m) (readCallGate bus gateAddr super) fun gate s =>
      (∃ first, bus.Seen m .dword gateAddr first ∧ gate.1 = (first >>> 16).setWidth 16) ∧
        Watched bus p m s := by
  unfold readCallGate
  refine .bind_fact watched_read fun first hfirst => .bind_fact watched_read fun second _ => ?_
  refine .ite (fun _ => ?_) fun _ => ?_
  · exact .bind (watched_setRegs fun _ => rfl) fun _ => .pure fun _ hs => ⟨⟨first, hfirst, rfl⟩, hs⟩
  · exact .bind (watched_setRegs fun _ => rfl) fun _ => .pure fun _ hs => ⟨⟨first, hfirst, rfl⟩, hs⟩

theorem watched_checkGate {cpl : Ring} {sel : Selector} {ar : Rights} :
    Completes (Watched bus p m) (checkGate cpl sel ar) fun _ s =>
      (selectorRpl sel ≤ arDpl ar ∧ cpl ≤ arDpl ar ∧ arP ar) ∧ Watched bus p m s := by
  unfold checkGate
  refine .faultIf_bind fun hlevel => ?_
  rw [← bind_pure (faultIf _ _)]
  refine .faultIf_bind fun hp => .pure fun _ hs => ?_
  rw [not_or, BitVec.not_lt, BitVec.not_lt] at hlevel
  exact ⟨⟨hlevel.1, hlevel.2, by simpa using hp⟩, hs⟩

theorem watched_callGate {cs : Selector} {caller : CallerId} {gateAddr : Word} {ar : Rights}
    (haddr : selectorInGdtLdt p cs = some gateAddr) (har : bus.SeenRights m gateAddr ar)
    (hgate : descriptorSuperType ar = .callGate ∨ descriptorSuperType ar = .xtndCallGate) :
    Completes (Watched bus p m) (do
      checkGate p.cpl cs ar
      followCallGate bus caller gateAddr (descriptorSuperType ar)) fun dest s =>
      (∀ dpl, dest.destType = .morePrivilege dpl →
        caller ≠ .jmp ∧ dpl < p.cpl ∧ ThroughCallGate bus p m cs dpl) ∧ Watched bus p m s := by
  refine .bind_fact watched_checkGate fun _ ⟨hrpl, hcpl, hp⟩ => ?_
  refine .bind_fact watched_readCallGate fun gate hfirst => ?_
  obtain ⟨first, hfirst, hsel⟩ := hfirst
  refine .bind_fact watched_validateGateDest fun dest hdest => .pure fun s hs => ⟨fun dpl hdpl => ?_, hs⟩
  obtain ⟨hcaller, hlt, hleads⟩ := hdest dpl hdpl
  exact ⟨hcaller, hlt, gateAddr, ar, first, haddr, har, hgate, hp, hcpl, hrpl, hfirst, hsel ▸ hleads⟩

/-- A far call or jump goes to more privilege only through a call gate, and a jump never. -/
theorem watched_validateFarDest {cs : Selector} {ip : Word} {caller : CallerId} :
    Completes (Watched bus p m) (validateFarDest bus cs ip caller) fun dest s =>
      (∀ dpl, dest.destType = .morePrivilege dpl →
        caller ≠ .jmp ∧ dpl < p.cpl ∧ ThroughCallGate bus p m cs dpl) ∧ Watched bus p m s := by
  unfold validateFarDest
  refine .bind_fact watched_getRegs fun regs hregs => ?_
  subst hregs
  refine .found_bind fun descrAddr haddr => ?_
  refine .bind_fact watched_readRights fun ar har => ?_
  split
  · exact .faultIf_bind fun _ => .faultIf_bind fun _ => .pure fun _ hs => ⟨nofun, hs⟩
  · exact .faultIf_bind fun _ => .faultIf_bind fun _ => .pure fun _ hs => ⟨nofun, hs⟩
  · exact .faultIf_bind fun _ => .faultIf_bind fun _ => .pure fun _ hs => ⟨nofun, hs⟩
  · exact .faultIf_bind fun _ => .faultIf_bind fun _ => .pure fun _ hs => ⟨nofun, hs⟩
  · exact watched_callGate haddr har (.inl ‹_›)
  · exact watched_callGate haddr har (.inr ‹_›)
  · refine .bind_fact watched_checkGate fun _ _ => .bind_fact watched_read fun newCs _ => ?_
    exact .bind watched_validateTaskDest fun _ => .pure fun _ hs => ⟨nofun, hs⟩
  · exact .faultIf_bind fun _ => .bind_fact watched_checkGate fun _ _ => .pure fun _ hs => ⟨nofun, hs⟩
  · exact .faultIf_bind fun _ => .bind_fact watched_checkGate fun _ _ => .pure fun _ hs => ⟨nofun, hs⟩
  · exact .throw

theorem watched_setGateSize {super : Super} :
    Completes (Watched bus p m) (setGateSize super) fun _ => Watched bus p m := by
  unfold setGateSize
  split <;> exact watched_setRegs fun _ => rfl

theorem watched_readGateOffset {gateAddr : Word} {super : Super} :
    Completes (Watched bus p m) (readGateOffset bus gateAddr super) fun _ => Watched bus p m := by
  unfold readGateOffset
  refine .bind_fact watched_read fun low _ => .ite (fun _ => ?_) fun _ => ?_
  · exact .bind_fact watched_read fun high _ => .pure fun _ hs => hs
  · exact .pure fun _ hs => hs

theorem watched_checkIntGate {vector : BitVec 16} {privCheck : Bool} {cpl : Ring} {ar : Rights} :
    Completes (Watched bus p m) (checkIntGate vector privCheck cpl ar) fun _ s =>
      ((privCheck → cpl ≤ arDpl ar) ∧ arP ar) ∧ Watched bus p m s := by
  unfold checkIntGate
  refine .faultIf_bind fun hpriv => ?_
  rw [← bind_pure (faultIf _ _)]
  refine .faultIf_bind fun hp => .pure fun _ hs => ?_
  exact ⟨⟨fun hc => BitVec.not_lt.mp fun hgt => hpriv ⟨hc, hgt⟩, by simpa using hp⟩, hs⟩

theorem watched_intGate {vector : BitVec 16} {privCheck : Bool} {gateAddr : Word} {ar : Rights}
    (haddr : gateAddr = p.idt.base + (vector * 8).setWidth 32)
    (hlimit : (vector * 8).toNat + 7 ≤ p.idt.limit.toNat) (har : bus.SeenRights m gateAddr ar)
    (hgate : IsIntGate (descriptorSuperType ar)) :
    Completes (Watched bus p m) (do
      setGateSize (descriptorSuperType ar)
      checkIntGate vector privCheck p.cpl ar
      followIntGate bus gateAddr (descriptorSuperType ar)) fun dest s =>
      (∀ dpl, dest.destType = .morePrivilege dpl →
        dpl < p.cpl ∧ ThroughIntGate bus p m vector privCheck dpl) ∧ Watched bus p m s := by
  refine .bind watched_setGateSize fun _ => ?_
  refine .bind_fact watched_checkIntGate fun _ ⟨hpriv, hp⟩ => ?_
  refine .bind_fact watched_read fun cs hcs => ?_
  refine .bind watched_readGateOffset fun ip => ?_
  refine .bind_fact watched_validateGateDest fun dest hdest => .pure fun s hs => ⟨fun dpl hdpl => ?_, hs⟩
  obtain ⟨-, hlt, hleads⟩ := hdest dpl hdpl
  exact ⟨hlt, gateAddr, ar, cs, haddr, hlimit, har, hgate, hp, hpriv, hcs, hleads⟩

/-- An interrupt goes to more privilege only through an interrupt or trap gate. -/
theorem watched_validateIntDest {vector : BitVec 16} {privCheck : Bool} :
    Completes (Watched bus p m) (validateIntDest bus vector privCheck) fun dest s =>
      (∀ dpl, dest.destType = .morePrivilege dpl →
        dpl < p.cpl ∧ ThroughIntGate bus p m vector privCheck dpl) ∧ Watched bus p m s := by
  unfold validateIntDest
  refine .bind_fact watched_getRegs fun regs hregs => ?_
  subst hregs
  refine .faultIf_bind fun hlimit => ?_
  refine .bind_fact watched_readRights fun ar har => ?_
  replace hlimit := Nat.le_of_not_gt hlimit
  split
  · exact watched_intGate rfl hlimit har (.inl ‹_›)
  · exact watched_intGate rfl hlimit har (.inr (.inl ‹_›))
  · exact watched_intGate rfl hlimit har (.inr (.inr (.inl ‹_›)))
  · exact watched_intGate rfl hlimit har (.inr (.inr (.inr ‹_›)))
  · refine .bind_fact watched_checkIntGate fun _ _ => .bind_fact watched_read fun cs _ => ?_
    refine .bind watched_validateTaskDest fun task => ?_
    exact .bind watched_setGateSize fun _ => .pure fun _ hs => ⟨nofun, hs⟩
  · exact .throw

end

end SoftPC.Ccpu
