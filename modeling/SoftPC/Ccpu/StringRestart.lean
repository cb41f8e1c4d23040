import SoftPC.Ccpu.Strings

/-!
# Ccpu/StringRestart — string instructions that fault

    s ──iterate──▸ … ──iterate──▸ t ──fault──▸ t        t ──execute again──▸ as from s

An iteration that faults leaves no trace (`clean_iterate`), and what it completes it completes with more pages as
well (`Repairs.iterate`).  So a fault finds the state of the completed iterations, with the count of the rest in
CX, and the instruction goes on from there.
-/

namespace SoftPC.Ccpu

open StringExec

variable {M α : Type}

/-! ## On memory -/

namespace StringExec

variable {x x' : EStateM Fault M α}

theorem sure_onMem (h : Sure x) : Sure (onMem x) := fun s => by
  obtain ⟨a, m, hm⟩ := h s.mem
  exact ⟨a, { s with mem := m }, by rw [onMem, hm]⟩

theorem serves_onMem (h : Serves x x') : Serves (onMem x) (onMem x') := by
  intro s a t ht
  unfold onMem at *
  cases hx : x s.mem with
  | ok b m =>
    rw [hx] at ht
    rw [h s.mem b m hx]
    exact ht
  | error e m =>
    rw [hx] at ht
    cases ht

theorem looks_onMem {v : Except Fault α} (h : ∀ m, Looks x m v) (s : StringState M) : Looks (onMem x) s v := by
  have hm := h s.mem
  unfold Looks at *
  unfold onMem
  rw [hm]
  cases v <;> rfl

theorem registers_eq (s : StringState M) : registers s = .ok s.regs s := rfl

theorem sure_change (f : StringRegs → StringRegs) : Sure (change f : StringExec M PUnit) := fun _ => ⟨_, _, rfl⟩

end StringExec

theorem sure_portIn (io : Ports M) (w : Width) (port : Word) : Sure (portIn io w port) := fun _ => by
  cases w <;> exact ⟨_, _, rfl⟩

theorem sure_portOut (io : Ports M) (w : Width) (port : Word) (data : BitVec w.bits) :
    Sure (portOut io w port data) := fun _ => by
  cases w <;> exact ⟨_, _, rfl⟩

/-! ## The checks come first -/

/-- What `decode` comes to. -/
def StringEnv.decoded (env : StringEnv) (reg : SegReg) (off : Word) (w : Width) (isWrite : Bool) :
    Except Fault (Word × Word) :=
  if env.badType reg isWrite then .error (.gp 0)
  else if env.pastLimit reg off w then .error (if reg = .ss then .sf 0 else .gp 0)
  else (env.paging.usrPlace w ((env.prot.sr reg).base + off) isWrite).map ((env.prot.sr reg).base + off, ·)

theorem StringEnv.decode_looks (env : StringEnv) (reg : SegReg) (off : Word) (w : Width) (isWrite : Bool) (m : M) :
    Looks (env.decode reg off w isWrite) m (env.decoded reg off w isWrite) := by
  unfold decode decoded
  by_cases htype : env.badType reg isWrite
  · rw [if_pos htype, faultIf_fault htype]
    exact .throw
  rw [if_neg htype, faultIf_pass htype]
  by_cases hlimit : env.pastLimit reg off w
  · rw [if_pos hlimit, faultIf_fault hlimit]
    exact .throw
  rw [if_neg hlimit, faultIf_pass hlimit]
  exact (Paging.usrChk_looks w _ isWrite).bind (w := fun pa => .ok (_, pa)) fun _ _ => .pure

theorem StringEnv.usrPlace_of_decoded {env : StringEnv} {reg : SegReg} {off : Word} {w : Width} {isWrite : Bool}
    {x : Word × Word} (h : env.decoded reg off w isWrite = .ok x) : env.paging.usrPlace w x.1 isWrite = .ok x.2 := by
  unfold decoded at h
  split at h
  · cases h
  split at h
  · cases h
  cases hpa : env.paging.usrPlace w ((env.prot.sr reg).base + off) isWrite with
  | error e =>
    rw [hpa] at h
    cases h
  | ok pa =>
    rw [hpa] at h
    cases h
    exact hpa

namespace StringInst

variable {inst : StringInst} {env env' : StringEnv} {phys : Phys M} {io : Ports M} {start : StringRegs}

/-- What `D_X` and `D_Y` come to. -/
def decodedX (inst : StringInst) (env : StringEnv) (s : StringState M) : Except Fault (Word × Word) :=
  env.decoded (inst.segOverride.getD .ds) (inst.index s.regs.esi) inst.width false

def decodedY (inst : StringInst) (env : StringEnv) (isWrite : Bool) (s : StringState M) : Except Fault (Word × Word) :=
  env.decoded .es (inst.index s.regs.edi) inst.width isWrite

theorem decodeX_looks (s : StringState M) : Looks (inst.decodeX env) s (inst.decodedX env s) := by
  have hdecode := looks_onMem
    (env.decode_looks (inst.segOverride.getD .ds) (inst.index s.regs.esi) inst.width false) s
  unfold Looks decodeX
  rw [bind_ok (registers_eq s)]
  exact hdecode

theorem decodeY_looks (isWrite : Bool) (s : StringState M) :
    Looks (inst.decodeY env isWrite) s (inst.decodedY env isWrite s) := by
  have hdecode := looks_onMem (env.decode_looks .es (inst.index s.regs.edi) inst.width isWrite) s
  unfold Looks decodeY
  rw [bind_ok (registers_eq s)]
  exact hdecode

theorem sure_fetch {x : Word × Word} {isWrite : Bool} (h : env.paging.usrPlace inst.width x.1 isWrite = .ok x.2) :
    Sure (inst.fetch env phys x) :=
  sure_onMem (Paging.sure_virRead h)

theorem sure_put {y : Word × Word} {isWrite : Bool} (h : env.paging.usrPlace inst.width y.1 isWrite = .ok y.2)
    (data : BitVec inst.width.bits) : Sure (inst.put env phys y data) :=
  sure_onMem (Paging.sure_virWrite h data)

theorem sure_ended (n : ℕ) : Sure (inst.ended n : StringExec M Bool) := fun _ => ⟨_, _, rfl⟩

/-- **An iteration that faults leaves no trace**: all its checks come first. -/
theorem clean_iterate (n : ℕ) : Clean (inst.iterate env phys io start n) := by
  unfold iterate
  cases inst.op with
  | movs =>
    refine .bind decodeX_looks fun _ x hx => .bind (decodeY_looks true) fun _ y hy => Sure.clean ?_
    have hx := StringEnv.usrPlace_of_decoded hx
    have hy := StringEnv.usrPlace_of_decoded hy
    exact .bind (sure_fetch hx) fun _ => .bind (sure_change _) fun _ => .bind (sure_change _) fun _ =>
      .bind (sure_put hy _) fun _ => .pure
  | cmps =>
    refine .bind decodeX_looks fun _ x hx => .bind (decodeY_looks false) fun _ y hy => Sure.clean ?_
    have hx := StringEnv.usrPlace_of_decoded hx
    have hy := StringEnv.usrPlace_of_decoded hy
    exact .bind (sure_fetch hx) fun _ => .bind (sure_fetch hy) fun _ => .bind (sure_change _) fun _ =>
      .bind (sure_change _) fun _ => .bind (sure_change _) fun _ => sure_ended n
  | stos =>
    refine .bind (decodeY_looks true) fun _ y hy => Sure.clean ?_
    have hy := StringEnv.usrPlace_of_decoded hy
    exact .bind (sure_change _) fun _ => .bind (sure_put hy _) fun _ => .pure
  | lods =>
    refine .bind decodeX_looks fun _ x hx => Sure.clean ?_
    have hx := StringEnv.usrPlace_of_decoded hx
    exact .bind (sure_fetch hx) fun _ => .bind (sure_change _) fun _ => .bind (sure_change _) fun _ => .pure
  | scas =>
    refine .bind (decodeY_looks false) fun _ y hy => Sure.clean ?_
    have hy := StringEnv.usrPlace_of_decoded hy
    exact .bind (sure_fetch hy) fun _ => .bind (sure_change _) fun _ => .bind (sure_change _) fun _ => sure_ended n
  | ins =>
    refine .bind (decodeY_looks true) fun _ y hy => Sure.clean ?_
    have hy := StringEnv.usrPlace_of_decoded hy
    exact .bind (sure_portIn io _ _) fun _ => .bind (sure_change _) fun _ => .bind (sure_put hy _) fun _ => .pure
  | outs =>
    refine .bind decodeX_looks fun _ x hx => Sure.clean ?_
    have hx := StringEnv.usrPlace_of_decoded hx
    exact .bind (sure_fetch hx) fun _ => .bind (sure_portOut io _ _ _) fun _ => .bind (sure_change _) fun _ => .pure

end StringInst

/-! ## Repairs -/

theorem Paging.Extends.checkIoPermissionMap {p p' : Paging} {phys : Phys M} (h : p.Extends p') (tr : SystemRegister)
    (port : Word) (w : Width) :
    Serves (Ccpu.checkIoPermissionMap p phys tr port w) (Ccpu.checkIoPermissionMap p' phys tr port w) :=
  .bind .refl fun _ => .bind .refl fun _ => .bind (h.sprReadWord _) fun _ => .bind .refl fun _ =>
    .bind (h.sprReadWord _) fun _ => .refl

/-- The cause of a fault is repaired: what could be accessed can be, in the same place. -/
structure Repairs (env env' : StringEnv) : Prop where
  pe : env'.prot.pe = env.prot.pe
  vm : env'.prot.vm = env.prot.vm
  cpl : env'.prot.cpl = env.prot.cpl
  tr : env'.prot.tr = env.prot.tr
  base : ∀ reg, (env'.prot.sr reg).base = (env.prot.sr reg).base
  type : ∀ {reg isWrite}, env.badType reg isWrite = false → env'.badType reg isWrite = false
  limit : ∀ {reg off w}, env.pastLimit reg off w = false → env'.pastLimit reg off w = false
  pages : env.paging.Extends env'.paging

namespace Repairs

variable {env env' : StringEnv} {inst : StringInst} {phys : Phys M} {io : Ports M} {start : StringRegs}
variable (h : Repairs env env')
include h

theorem decode (reg : SegReg) (off : Word) (w : Width) (isWrite : Bool) :
    Serves (env.decode (M := M) reg off w isWrite) (env'.decode reg off w isWrite) := by
  refine .bind (.faultIf fun htype => ?_) fun _ => .bind (.faultIf fun hlimit => ?_) fun _ => ?_
  · rw [Bool.not_eq_true] at *
    exact h.type htype
  · rw [Bool.not_eq_true] at *
    exact h.limit hlimit
  · rw [h.base]
    exact .bind (h.pages.usrChk w _ isWrite) fun _ => .refl

theorem decodeX : Serves (inst.decodeX (M := M) env) (inst.decodeX env') :=
  .bind .refl fun _ => serves_onMem (h.decode _ _ _ _)

theorem decodeY (isWrite : Bool) : Serves (inst.decodeY (M := M) env isWrite) (inst.decodeY env' isWrite) :=
  .bind .refl fun _ => serves_onMem (h.decode _ _ _ _)

theorem fetch (x : Word × Word) : Serves (inst.fetch env phys x) (inst.fetch env' phys x) :=
  serves_onMem (h.pages.virRead _ _ _)

theorem put (y : Word × Word) (data : BitVec inst.width.bits) :
    Serves (inst.put env phys y data) (inst.put env' phys y data) :=
  serves_onMem (h.pages.virWrite _ _ _ _)

/-- An iteration that completes does so alike. -/
theorem iterate (n : ℕ) : Serves (inst.iterate env phys io start n) (inst.iterate env' phys io start n) := by
  unfold StringInst.iterate
  cases inst.op with
  | movs =>
    exact .bind h.decodeX fun _ => .bind (h.decodeY _) fun _ => .bind (h.fetch _) fun _ => .bind .refl fun _ =>
      .bind .refl fun _ => .bind (h.put _ _) fun _ => .refl
  | cmps =>
    exact .bind h.decodeX fun _ => .bind (h.decodeY _) fun _ => .bind (h.fetch _) fun _ => .bind (h.fetch _) fun _ => .refl
  | stos => exact .bind (h.decodeY _) fun _ => .bind .refl fun _ => .bind (h.put _ _) fun _ => .refl
  | lods => exact .bind h.decodeX fun _ => .bind (h.fetch _) fun _ => .refl
  | scas => exact .bind (h.decodeY _) fun _ => .bind (h.fetch _) fun _ => .refl
  | ins =>
    exact .bind (h.decodeY _) fun _ => .bind .refl fun _ => .bind .refl fun _ => .bind (h.put _ _) fun _ => .refl
  | outs => exact .bind h.decodeX fun _ => .bind (h.fetch _) fun _ => .refl

theorem permission : Serves (inst.permission env phys start) (inst.permission env' phys start) := by
  unfold StringInst.permission
  rw [h.cpl, h.vm, h.tr]
  exact .ite (serves_onMem (h.pages.checkIoPermissionMap _ _ _)) .refl

end Repairs

/-! ## Completed iterations -/

namespace StringInst

variable (inst : StringInst) (env : StringEnv) (phys : Phys M) (io : Ports M) (start : StringRegs)

/-- Iterations are completed, after which the repetition goes on with the rest of the count. -/
inductive Completed : ℕ → StringState M → ℕ → StringState M → Prop
  | refl (n : ℕ) (s : StringState M) : Completed n s n s
  | step {n m : ℕ} {s s' t : StringState M} (first : inst.iterate env phys io start n s = .ok false s')
      (rest : Completed n s' m t) : Completed (n + 1) s m t

variable {inst env phys io start} {n m : ℕ} {s t : StringState M} {e : Fault}

theorem Completed.le (h : inst.Completed env phys io start n s m t) : m ≤ n := by
  induction h with
  | refl => exact le_rfl
  | step _ _ ih => exact ih.trans (Nat.le_succ _)

/-- The loop goes on from there. -/
theorem Completed.loop (h : inst.Completed env phys io start n s m t) :
    inst.loop env phys io start n s = inst.loop env phys io start m t := by
  induction h with
  | refl => rfl
  | step first _ ih =>
    refine Eq.trans ?_ ih
    rw [StringInst.loop, bind_ok first]
    rfl

theorem Completed.repairs {env' : StringEnv} (hr : Repairs env env') (h : inst.Completed env phys io start n s m t) :
    inst.Completed env' phys io start n s m t := by
  induction h with
  | refl n s => exact .refl n s
  | step first _ ih => exact .step (hr.iterate _ _ _ _ first) ih

/-- **A loop that faults has completed iterations**, and the next faults. -/
theorem completed_of_fault (h : inst.loop env phys io start n s = .error e t) :
    ∃ m, inst.Completed env phys io start n s (m + 1) t ∧ inst.iterate env phys io start m t = .error e t := by
  induction n generalizing s with
  | zero => cases h
  | succ n ih =>
    rw [loop] at h
    cases hi : inst.iterate env phys io start n s with
    | error e' s' =>
      obtain rfl := clean_iterate n s e' s' hi
      rw [bind_error hi] at h
      cases h
      exact ⟨n, .refl _ _, hi⟩
    | ok done s' =>
      rw [bind_ok hi] at h
      cases done with
      | true => cases h
      | false =>
        obtain ⟨m, hm, hfault⟩ := ih h
        exact ⟨m, .step hi hm, hfault⟩

end StringInst

/-! ## The registers -/

/-- The operands of an instruction. -/
def StringOp.usesX : StringOp → Bool
  | .movs | .cmps | .lods | .outs => true
  | .stos | .scas | .ins => false

def StringOp.usesY : StringOp → Bool
  | .movs | .cmps | .stos | .scas | .ins => true
  | .lods | .outs => false

/-- It sets the flags. -/
def StringOp.compares : StringOp → Bool
  | .cmps | .scas => true
  | _ => false

namespace StringInst

variable {inst : StringInst} {env : StringEnv} {phys : Phys M} {io : Ports M} {start r r' : StringRegs}

theorem withLow_withLow {n : ℕ} (r : Word) (v v' : BitVec n) : withLow (withLow r v) v' = withLow r v' := by
  unfold withLow
  ext i hi
  by_cases hin : i < n
  · simp [hin]
  · have hsum : n + (i - n) = i := by omega
    have hv : v.getLsbD i = false := BitVec.getLsbD_of_ge _ _ (by omega)
    simp [hin, hsum, hv, hi]

theorem setIndex_setIndex (r v v' : Word) : inst.setIndex (inst.setIndex r v) v' = inst.setIndex r v' := by
  unfold setIndex
  cases inst.addressSize with
  | use16 => exact withLow_withLow _ _ _
  | use32 => rfl

theorem counted_counted (n m : ℕ) (ecx : Word) : inst.counted n (inst.counted m ecx) = inst.counted n ecx := by
  unfold counted
  by_cases hrep : inst.rep = .clr
  · simp only [if_pos hrep]
  · simp only [if_neg hrep, setIndex_setIndex]

/-- One iteration on, with so many left. -/
structure Advanced (inst : StringInst) (n : ℕ) (r r' : StringRegs) : Prop where
  esi : r'.esi = if inst.op.usesX then inst.advance r.flags.df r.esi else r.esi
  edi : r'.edi = if inst.op.usesY then inst.advance r.flags.df r.edi else r.edi
  ecx : r'.ecx = inst.counted n r.ecx
  edx : r'.edx = r.edx
  eax : inst.op ≠ .lods → r'.eax = r.eax
  df : r'.flags.df = r.flags.df
  iopl : r'.flags.iopl = r.flags.iopl
  flags : inst.op.compares = false → r'.flags = r.flags

theorem regs_onMem (x : EStateM Fault M α) (r : StringRegs) :
    Completes (fun s => s.regs = r) (onMem x) fun _ s => s.regs = r := by
  intro s hs a t ht
  unfold onMem at ht
  split at ht <;> cases ht
  exact hs

theorem regs_change (f : StringRegs → StringRegs) (r : StringRegs) :
    Completes (fun s : StringState M => s.regs = r) (change f) fun _ s => s.regs = f r :=
  .modify fun _ hs => congrArg f hs

theorem regs_registers {β : Type} {f : StringRegs → StringExec M β} {Q : β → StringState M → Prop}
    (hf : Completes (fun s => s.regs = r) (f r) Q) : Completes (fun s => s.regs = r) (registers >>= f) Q := by
  intro s hs b t ht
  rw [bind_ok (registers_eq s), hs] at ht
  exact hf s hs b t ht

theorem regs_decodeX (r : StringRegs) :
    Completes (fun s : StringState M => s.regs = r) (inst.decodeX env) fun _ s => s.regs = r :=
  regs_registers (regs_onMem _ r)

theorem regs_decodeY (isWrite : Bool) (r : StringRegs) :
    Completes (fun s : StringState M => s.regs = r) (inst.decodeY env isWrite) fun _ s => s.regs = r :=
  regs_registers (regs_onMem _ r)

theorem regs_ended (n : ℕ) (r : StringRegs) :
    Completes (fun s : StringState M => s.regs = r) (inst.ended n) fun _ s => s.regs = r :=
  regs_registers (.pure fun _ hs => hs)

theorem regs_portIn (w : Width) (port : Word) (r : StringRegs) :
    Completes (fun s => s.regs = r) (portIn io w port) fun _ s => s.regs = r := by
  intro s hs a t ht
  cases w <;> cases ht <;> exact hs

theorem regs_portOut (w : Width) (port : Word) (data : BitVec w.bits) (r : StringRegs) :
    Completes (fun s => s.regs = r) (portOut io w port data) fun _ s => s.regs = r := by
  intro s hs a t ht
  cases w <;> cases ht <;> exact hs

/-- **What an iteration does to the registers**. -/
theorem regs_iterate (n : ℕ) (r : StringRegs) :
    Completes (fun s => s.regs = r) (inst.iterate env phys io start n) fun _ s => inst.Advanced n r s.regs := by
  unfold iterate
  cases hop : inst.op with
  | movs =>
    refine (regs_decodeX r).bind fun _ => (regs_decodeY true r).bind fun _ => (regs_onMem _ r).bind fun _ =>
      (regs_change _ r).bind fun _ => (regs_change _ _).bind fun _ => (regs_onMem _ _).bind fun _ => .pure fun s hs => ?_
    rw [hs]
    constructor <;> simp [hop, StringOp.usesX, StringOp.usesY, commitX, commitY, counted_counted]
  | cmps =>
    refine (regs_decodeX r).bind fun _ => (regs_decodeY false r).bind fun _ => (regs_onMem _ r).bind fun op1 =>
      (regs_onMem _ r).bind fun op2 => (regs_change _ r).bind fun _ => (regs_change _ _).bind fun _ =>
        (regs_change _ _).bind fun _ => (regs_ended n _).mono (fun _ hs => hs) fun _ s hs => ?_
    rw [hs]
    constructor <;>
      simp [hop, StringOp.usesX, StringOp.usesY, StringOp.compares, commitX, commitY, counted_counted, cmpFlags]
  | stos =>
    refine (regs_decodeY true r).bind fun _ => (regs_change _ r).bind fun _ => (regs_onMem _ _).bind fun _ =>
      .pure fun s hs => ?_
    rw [hs]
    constructor <;> simp [hop, StringOp.usesX, StringOp.usesY, commitY]
  | lods =>
    refine (regs_decodeX r).bind fun _ => (regs_onMem _ r).bind fun _ => (regs_change _ r).bind fun _ =>
      (regs_change _ _).bind fun _ => .pure fun s hs => ?_
    rw [hs]
    constructor <;> simp [hop, StringOp.usesX, StringOp.usesY, commitX]
  | scas =>
    refine (regs_decodeY false r).bind fun _ => (regs_onMem _ r).bind fun _ => (regs_change _ r).bind fun _ =>
      (regs_change _ _).bind fun _ => (regs_ended n _).mono (fun _ hs => hs) fun _ s hs => ?_
    rw [hs]
    constructor <;> simp [hop, StringOp.usesX, StringOp.usesY, StringOp.compares, commitY, cmpFlags]
  | ins =>
    refine (regs_decodeY true r).bind fun _ => (regs_portIn _ _ r).bind fun _ => (regs_change _ r).bind fun _ =>
      (regs_onMem _ _).bind fun _ => .pure fun s hs => ?_
    rw [hs]
    constructor <;> simp [hop, StringOp.usesX, StringOp.usesY, commitY]
  | outs =>
    refine (regs_decodeX r).bind fun _ => (regs_onMem _ r).bind fun _ => (regs_portOut _ _ _ r).bind fun _ =>
      (regs_change _ r).bind fun _ => .pure fun s hs => ?_
    rw [hs]
    constructor <;> simp [hop, StringOp.usesX, StringOp.usesY, commitX]

/-- What iterations have done to the registers: the items they are past, and the count that is left. -/
structure Reflects (inst : StringInst) (k left : ℕ) (r r' : StringRegs) : Prop where
  esi : r'.esi = if inst.op.usesX then (inst.advance r.flags.df)^[k] r.esi else r.esi
  edi : r'.edi = if inst.op.usesY then (inst.advance r.flags.df)^[k] r.edi else r.edi
  ecx : r'.ecx = if k = 0 then r.ecx else inst.counted left r.ecx
  edx : r'.edx = r.edx
  eax : inst.op ≠ .lods → r'.eax = r.eax
  df : r'.flags.df = r.flags.df
  iopl : r'.flags.iopl = r.flags.iopl
  flags : inst.op.compares = false → r'.flags = r.flags

theorem Reflects.refl (inst : StringInst) (left : ℕ) (r : StringRegs) : inst.Reflects 0 left r r where
  esi := by simp
  edi := by simp
  ecx := by simp
  edx := rfl
  eax _ := rfl
  df := rfl
  iopl := rfl
  flags _ := rfl

theorem Advanced.reflects {n k left : ℕ} {r'' : StringRegs} (h : inst.Advanced n r r') (h' : inst.Reflects k left r' r'')
    (hleft : k = 0 → left = n) : inst.Reflects (k + 1) left r r'' where
  esi := by
    rw [h'.esi, h.esi, h.df]
    split
    · rw [Function.iterate_succ_apply]
    · rfl
  edi := by
    rw [h'.edi, h.edi, h.df]
    split
    · rw [Function.iterate_succ_apply]
    · rfl
  ecx := by
    rw [h'.ecx, h.ecx, if_neg (Nat.succ_ne_zero k)]
    by_cases hk : k = 0
    · rw [if_pos hk, hleft hk]
    · rw [if_neg hk, counted_counted]
  edx := h'.edx.trans h.edx
  eax hop := (h'.eax hop).trans (h.eax hop)
  df := h'.df.trans h.df
  iopl := h'.iopl.trans h.iopl
  flags hop := (h'.flags hop).trans (h.flags hop)

/-- **Completed iterations are reflected**. -/
theorem Completed.reflects {n m : ℕ} {s t : StringState M} (h : inst.Completed env phys io start n s m t) :
    inst.Reflects (n - m) m s.regs t.regs := by
  induction h with
  | refl n s =>
    rw [Nat.sub_self]
    exact .refl inst n s.regs
  | @step n m s s' t first rest ih =>
    have hle := rest.le
    rw [Nat.succ_sub hle]
    exact (regs_iterate n s.regs s rfl _ _ first).reflects ih fun hk => by omega

theorem toNat_low (r : Word) : (r &&& 0xffff).toNat = r.toNat % 2 ^ 16 := by
  have hmask : (0xffff : Word).toNat = 2 ^ 16 - 1 := rfl
  rw [BitVec.toNat_and, hmask, Nat.and_two_pow_sub_one_eq_mod]

theorem toNat_withLow (r : Word) (v : BitVec 16) : (withLow r v).toNat % 2 ^ 16 = v.toNat := by
  have hlow : (withLow r v).setWidth 16 = v := by
    unfold withLow
    ext i hi
    simp
  exact (BitVec.toNat_setWidth ..).symm.trans (congrArg BitVec.toNat hlow)

theorem index_setIndex {n : ℕ} (r : Word) (hn : n ≤ (inst.index r).toNat) :
    (inst.index (inst.setIndex r (.ofNat 32 n))).toNat = n := by
  unfold index setIndex at *
  cases hsize : inst.addressSize with
  | use16 =>
    rw [hsize] at hn
    dsimp only at hn ⊢
    rw [toNat_low] at hn ⊢
    rw [toNat_withLow, BitVec.toNat_setWidth, BitVec.toNat_ofNat]
    omega
  | use32 =>
    rw [hsize] at hn
    dsimp only at hn ⊢
    have := r.isLt
    rw [BitVec.toNat_ofNat]
    omega

/-- The count that is left is that of the instruction executed again. -/
theorem Reflects.stringCount {k left : ℕ} (h : inst.Reflects k left r r') (hcount : k + left = inst.stringCount r)
    (hleft : 0 < left) : inst.stringCount r' = left := by
  unfold StringInst.stringCount at *
  by_cases hrep : inst.rep = .clr
  · rw [if_pos hrep] at hcount ⊢
    omega
  · rw [if_neg hrep] at hcount ⊢
    rw [h.ecx]
    by_cases hk : k = 0
    · rw [if_pos hk]
      omega
    · rw [if_neg hk, counted, if_neg hrep]
      exact index_setIndex r.ecx (by omega)

/-! ## Execution -/

/-- Only the accumulator and the port are fetched once. -/
theorem iterate_start (hedx : r'.edx = r.edx) (heax : inst.op ≠ .lods → r'.eax = r.eax) (n : ℕ) :
    inst.iterate env phys io r' n = inst.iterate env phys io r n := by
  unfold iterate acc StringRegs.port
  cases hop : inst.op <;> dsimp only
  · rw [heax (by rw [hop]; decide)]
  · rw [heax (by rw [hop]; decide)]
  · rw [hedx]
  · rw [hedx]

theorem loop_start (hedx : r'.edx = r.edx) (heax : inst.op ≠ .lods → r'.eax = r.eax) (n : ℕ) :
    inst.loop env phys io r' n = inst.loop env phys io r n := by
  induction n with
  | zero => rfl
  | succ n ih => rw [loop, loop, iterate_start hedx heax, ih]

theorem exec_eq (s : StringState M) : inst.exec env phys io s =
    (inst.permission env phys s.regs >>= fun _ => inst.loop env phys io s.regs (inst.stringCount s.regs)) s :=
  bind_ok (registers_eq s)

/-- Asking for permission changes no register, and accesses no port. -/
theorem permission_keeps (s : StringState M) :
    match inst.permission env phys start s with
    | .ok _ t => t.regs = s.regs ∧ t.ports = s.ports
    | .error _ t => t.regs = s.regs ∧ t.ports = s.ports := by
  unfold permission
  by_cases hasks : (inst.op = .ins ∨ inst.op = .outs) ∧ (env.prot.cpl > start.flags.iopl ∨ env.prot.vm)
  · rw [if_pos hasks]
    unfold onMem
    cases checkIoPermissionMap env.paging phys env.prot.tr start.port inst.width s.mem <;> exact ⟨rfl, rfl⟩
  · rw [if_neg hasks]
    exact ⟨rfl, rfl⟩

end StringInst

/-- **REP string instructions that fault** have asked for permission in vain, or have completed iterations; SI,
DI, CX, the flags, memory and the accesses to ports are then as these have left them, and once the cause is
repaired the instruction, executed again, does what it would have done without the fault, if it still has the
permission it asks for. -/
theorem rep_string_restartable {inst : StringInst} {env : StringEnv} {phys : Phys M} {io : Ports M}
    {s t : StringState M} {e : Fault} (h : inst.exec env phys io s = .error e t) :
    inst.permission env phys s.regs s = .error e t ∧ t.regs = s.regs ∧ t.ports = s.ports ∨
      ∃ s' k left, k + left = inst.stringCount s.regs ∧ 0 < left ∧
        inst.permission env phys s.regs s = .ok ⟨⟩ s' ∧ s'.regs = s.regs ∧ s'.ports = s.ports ∧
        inst.Completed env phys io s.regs (inst.stringCount s.regs) s' left t ∧
        inst.iterate env phys io s.regs (left - 1) t = .error e t ∧
        inst.Reflects k left s.regs t.regs ∧
        ∀ env', Repairs env env' → inst.permission env' phys t.regs t = .ok ⟨⟩ t →
          inst.exec env' phys io t = inst.exec env' phys io s := by
  rw [StringInst.exec_eq] at h
  have hkeeps : match inst.permission env phys s.regs s with
    | .ok _ t => t.regs = s.regs ∧ t.ports = s.ports
    | .error _ t => t.regs = s.regs ∧ t.ports = s.ports := StringInst.permission_keeps s
  cases hp : inst.permission env phys s.regs s with
  | error e' t' =>
    rw [bind_error hp] at h
    cases h
    rw [hp] at hkeeps
    exact .inl ⟨rfl, hkeeps⟩
  | ok u s' =>
    rw [bind_ok hp] at h
    obtain ⟨m, hcompleted, hfault⟩ := StringInst.completed_of_fault h
    rw [hp] at hkeeps
    obtain ⟨hregs, hports⟩ := hkeeps
    have hreflects := hcompleted.reflects
    rw [hregs] at hreflects
    have hle := hcompleted.le
    refine .inr ⟨s', inst.stringCount s.regs - (m + 1), m + 1, by omega, m.succ_pos, rfl, hregs, hports, hcompleted, hfault, hreflects,
      fun env' hr hpermitted => ?_⟩
    -- Executed again, the loop has the count that is left; the run from `s` comes to it as well.
    have hcount := hreflects.stringCount (by omega) m.succ_pos
    rw [StringInst.exec_eq t, bind_ok hpermitted, hcount, StringInst.exec_eq s, bind_ok (hr.permission s _ _ hp),
      (hcompleted.repairs hr).loop, StringInst.loop_start hreflects.edx hreflects.eax]

/-! ## Two pages -/

/-- A flat segment, and a TSS with its map at `0xffe`. -/
def mapped : Protection where
  pe := true
  vm := false
  cpl := 3
  sr _ := { r := true, w := true, x := true, limit := 0xffffffff }
  gdt := {}
  idt := {}
  ldt := {}
  tr := { selector := 0x28, super := .xtndBusyTss, limit := 0x1fff }

/-- The first page, and the second if it is present. -/
def firstPages (second : Bool) : StringEnv where
  prot := mapped
  pg := true
  pages n := if n = 0 then some ⟨0, true, true⟩ else if n = 1 ∧ second then some ⟨1, true, true⟩ else none

theorem firstPages_repairs : Repairs (firstPages false) (firstPages true) where
  pe := rfl
  vm := rfl
  cpl := rfl
  tr := rfl
  base _ := rfl
  type h := h
  limit h := h
  pages := Paging.extends_of_pages rfl rfl fun n e h => by
    simp only [StringEnv.paging, firstPages, Bool.false_eq_true, and_false, if_false] at h ⊢
    by_cases hn : n = 0
    · rw [if_pos hn] at h ⊢
      exact h
    · rw [if_neg hn] at h
      cases h

/-- Ports that read as ones. -/
def ones : Ports Ram where
  inb _ m := (0xff, m)
  inw _ m := (0xffff, m)
  outb _ _ m := m
  outw _ _ m := m

/-- A repeated instruction, of bytes. -/
def repeated (op : StringOp) : StringInst where
  op := op
  width := .byte
  addressSize := .use32
  rep := .e

/-- Three bytes are asked for, the first over the bits of port 0, the third in the second page. -/
def overMap : StringState Ram where
  regs := { eax := 0, ecx := 3, edx := 0, esi := 0, edi := 0xffe, flags := {} }
  mem a := if a = 0x66 then 0xfe else if a = 0x67 then 0x0f else 0
  ports := []

/-- The state an execution ends in. -/
def StringExec.final (r : EStateM.Result Fault (StringState M) α) : StringState M :=
  match r with
  | .ok _ t => t
  | .error _ t => t

/-- It ends with the fault. -/
def StringExec.faults (e : Fault) (r : EStateM.Result Fault (StringState M) α) : Bool :=
  match r with
  | .ok _ _ => false
  | .error e' _ => e' = e

def StringExec.completes (r : EStateM.Result Fault (StringState M) α) : Bool :=
  match r with
  | .ok _ _ => true
  | .error _ _ => false

namespace StringExec

theorem eq_error_of_faults {e : Fault} {r : EStateM.Result Fault (StringState M) α} (h : faults e r) :
    r = .error e (final r) := by
  cases r with
  | ok => cases h
  | error e' t => rw [of_decide_eq_true h, final]

theorem eq_ok_of_completes {r : EStateM.Result Fault (StringState M) PUnit} (h : completes r) :
    r = .ok ⟨⟩ (final r) := by
  cases r with
  | ok => rfl
  | error => cases h

end StringExec

/-- REP STOSB faults at the third byte, and goes on from there. -/
theorem rep_stosb_restarts : ∃ t, (repeated .stos).exec (firstPages false) ramPhys ones overMap = .error (.pf 6) t ∧
    t.regs.ecx = 1 ∧
    (repeated .stos).exec (firstPages true) ramPhys ones t = (repeated .stos).exec (firstPages true) ramPhys ones overMap := by
  have hfault := eq_error_of_faults (e := .pf 6)
    (r := (repeated .stos).exec (firstPages false) ramPhys ones overMap) (by decide)
  refine ⟨_, hfault, by decide, ?_⟩
  rcases rep_string_restartable hfault with ⟨hpermission, -⟩ | ⟨_, _, _, -, -, -, -, -, -, -, -, hrestart⟩
  · cases hpermission
  · exact hrestart (firstPages true) firstPages_repairs rfl

/-- **An INS that withdraws its permission**: REP INSB faults at the third byte; with the second page there, it is not
permitted when executed again, while it completes when executed from the start. -/
theorem rep_string_not_restartable : Repairs (firstPages false) (firstPages true) ∧ ∃ t,
    (repeated .ins).exec (firstPages false) ramPhys ones overMap = .error (.pf 6) t ∧ t.regs.ecx = 1 ∧
      (∃ u, (repeated .ins).exec (firstPages true) ramPhys ones t = .error (.gp 0) u) ∧
      ∃ u, (repeated .ins).exec (firstPages true) ramPhys ones overMap = .ok ⟨⟩ u :=
  ⟨firstPages_repairs, _, eq_error_of_faults (by decide), by decide,
    ⟨_, eq_error_of_faults (by decide)⟩, ⟨_, eq_ok_of_completes (by decide)⟩⟩

end SoftPC.Ccpu
