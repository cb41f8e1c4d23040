import SoftPC.Ccpu.PageRun

/-!
# Ccpu/FpuOperand — the memory operands of the FPU

    D_: type ──▸ limit_check(checked) ──▸ usr_chk_word, usr_chk_dword ──▸ F_, P_: moved bytes

The `D_`, `F_` and `P_` macros of `base/ccpu386/c_oprnd.h` for the operands of `zfrsrvd.c`.  An operand of
eight bytes or more is checked against the page tables as a word: if it goes on in another page, its bytes
are moved as if that page's frame came next.  The full state is checked for 94 bytes where 108 are moved,
and for 106 where 94 are; and `limit_check` lets an operand past the end of a segment of full size whose
offset is a multiple of its size, which says that it does not straddle the end only for sizes that are
powers of two.  `fpu_operands_exact` says where none of this shows.
-/

namespace SoftPC.Ccpu

/-! ## The macros -/

/-- `Ew`, `Ed`, `E08`, `E0a`, `E0e` and `E5e`. -/
inductive FpuOperand where
  | m16 | m32 | m64 | m80 | environment | state
  deriving DecidableEq

namespace FpuOperand

/-- The bytes that `F_` and `P_` move; `size32` is `NPX_ADDRESS_SIZE_32`. -/
def moved (size32 : Bool) : FpuOperand → ℕ
  | .m16 => 2
  | .m32 => 4
  | .m64 => 8
  | .m80 => 10
  | .environment => if size32 then 28 else 14
  | .state => if size32 then 108 else 94

/-- The bytes that `D_` checks the limit for. -/
def checked (size32 : Bool) : FpuOperand → ℕ
  | .m16 => 2
  | .m32 => 4
  | .m64 => 8
  | .m80 => 10
  | .environment => if size32 then 28 else 14
  | .state => if size32 then 94 else 106

/-- The check against the page tables. -/
def width : FpuOperand → Width
  | .m32 => .dword
  | _ => .word

end FpuOperand

/-- An operand in memory: its segment, with the mode of the processor, and its offset there. -/
structure Operand where
  kind : FpuOperand
  size32 : Bool
  prot : Protection
  reg : SegReg
  off : Word

namespace Operand

variable (o : Operand) (p : Paging)

def seg : Segment := o.prot.sr o.reg

/-- Its linear address. -/
def la : Word := o.seg.base + o.off

/-- The bytes that are moved. -/
def size : ℕ := o.kind.moved o.size32

/-- `RO0` or `WO0`: the segment cannot be read, or written. -/
def badType (isWrite : Bool) : Bool := if isWrite then !o.seg.w else !o.seg.r

/-- Limits are only taken in protected mode. -/
def limited : Bool := o.prot.pe && !o.prot.vm

/-- `limit_check`. -/
def limitFault : Fault := if o.reg = .ss then .sf 0 else .gp 0

section

variable {M : Type} (phys : Phys M)

/-- `D_`: the linear and the physical address. -/
def decode (isWrite : Bool) : EStateM Fault M Word := do
  faultIf (o.badType isWrite) (.gp 0)
  faultIf (o.limited ∧ Registers.badLimit o.seg o.off 1 (.ofNat 32 (o.kind.checked o.size32))) o.limitFault
  p.usrChk o.kind.width o.la isWrite

/-- `F_`: the bytes, the lowest first. -/
def fetch (phy : Word) : EStateM Fault M (List (BitVec 8)) :=
  match o.kind with
  | .m16 => do return wordBytes (← p.virRead phys .word o.la phy)
  | .m32 => do return dwordBytes (← p.virRead phys .dword o.la phy)
  -- `npxbuff` has the highest byte first.
  | _ => do return (← p.virReadBytes phys o.la phy o.size).reverse

/-- `P_`, of bytes the lowest of which comes first. -/
def put (phy : Word) (data : List (BitVec 8)) : EStateM Fault M PUnit :=
  let byte i : BitVec 8 := data.getD i 0
  match o.kind with
  | .m16 => p.virWrite phys .word o.la phy (byte 1 ++ byte 0)
  | .m32 => p.virWrite phys .dword o.la phy ((byte 3 ++ byte 2) ++ (byte 1 ++ byte 0))
  | _ => p.virWriteBytes phys o.la phy data.reverse

/-- An operand is read. -/
def load : EStateM Fault M (List (BitVec 8)) := do
  let phy ← o.decode p false
  o.fetch p phys phy

/-- …and written. -/
def store (data : List (BitVec 8)) : EStateM Fault M PUnit := do
  let phy ← o.decode p true
  o.put p phys phy data

end

/-! ## What they are to do -/

/-- The first offset past the segment. -/
def past (seg : Segment) : ℕ := if seg.e then if seg.x then 2 ^ 32 else 2 ^ 16 else seg.limit.toNat + 1

/-- Every byte is in the segment. -/
def Fits (seg : Segment) (off : Word) (n : ℕ) : Prop :=
  (seg.e → seg.limit.toNat < off.toNat) ∧ off.toNat + n ≤ past seg

instance (seg : Segment) (off : Word) (n : ℕ) : Decidable (Fits seg off n) :=
  inferInstanceAs (Decidable (_ ∧ _))

/-- Where each byte is, the first that cannot be accessed faulting. -/
def places (isWrite : Bool) : Except Fault (List Word) := p.places o.la o.size isWrite

/-- The checks for the bytes that are moved, and the places they are moved from or to. -/
def exact (isWrite : Bool) : Except Fault (List Word) :=
  if o.badType isWrite then .error (.gp 0)
  else if o.limited ∧ ¬Fits o.seg o.off o.size then .error o.limitFault
  else o.places p isWrite

/-- The operand is loaded exactly: whatever memory holds, each byte from its own place, after all checks. -/
def LoadsExactly : Prop :=
  ∀ ram : Ram, Looks (o.load p ramPhys) ram ((o.exact p false).map fun l => l.map ram)

/-- The operand is stored exactly: a fault leaves memory as it is. -/
def StoresExactly : Prop :=
  ∀ (ram : Ram) (data : List (BitVec 8)), data.length = o.size →
    o.store p ramPhys data ram =
      match o.exact p true with
      | .ok l => .ok ⟨⟩ (scatter (l.zip data) ram)
      | .error e => .error e ram

/-! ## Where they do it -/

/-- The item of `limit_check` is past the end of a segment of full size, at a multiple of its size. -/
def Exempt (seg : Segment) (off : Word) (n : ℕ) : Prop :=
  seg.e = false ∧ off ≤ seg.limit ∧ past seg < off.toNat + n ∧ n ∣ off.toNat ∧
    seg.limit = if seg.x then 0xffffffff else 0xffff

/-- The segment does not end between the bytes that are checked and those that are moved, nor in a checked item
that it is exempt for. -/
def LimitRight : Prop :=
  o.limited →
    ¬(Fits o.seg o.off (min o.size (o.kind.checked o.size32)) ∧
        ¬Fits o.seg o.off (max o.size (o.kind.checked o.size32))) ∧
      ¬Exempt o.seg o.off (o.kind.checked o.size32)

/-- The pages are checked and followed: there is no paging, the operand is in one page, the check reaches the
next, the first page faults, or the next page has the next frame. -/
def PagesRight (isWrite : Bool) : Prop := p.Followed o.kind.width o.la o.size isWrite

/-- Nothing shows of what the macros do wrong. -/
def Right (isWrite : Bool) : Prop :=
  o.badType isWrite ∨ o.LimitRight ∧ (o.limited ∧ ¬Fits o.seg o.off o.size ∨ o.PagesRight p isWrite)

/-! ## The limit -/

theorem toNat_top (x : Bool) : (if x then 0xffffffff else 0xffff : Word).toNat = if x then 2 ^ 32 - 1 else 2 ^ 16 - 1 := by
  cases x <;> rfl

theorem toNat_range {n : ℕ} (hn : 0 < n) (hn' : n ≤ 2 ^ 16) : ((1 : Word) * .ofNat 32 n - 1).toNat = n - 1 := by
  have hone : (1 : Word).toNat = 1 := rfl
  rw [BitVec.toNat_sub, BitVec.toNat_mul, BitVec.toNat_ofNat, hone]
  omega

theorem off_mod {n : ℕ} (off : Word) (hn' : n ≤ 2 ^ 16) : off % BitVec.ofNat 32 n = 0 ↔ n ∣ off.toNat := by
  have hsize : (BitVec.ofNat 32 n).toNat = n := by
    rw [BitVec.toNat_ofNat]
    omega
  have hzero : (0 : Word).toNat = 0 := rfl
  rw [Nat.dvd_iff_mod_eq_zero, ← BitVec.toNat_inj, BitVec.toNat_umod, hsize, hzero]

/-- **What `limit_check` finds** of one item. -/
theorem badLimit_iff (seg : Segment) (off : Word) {n : ℕ} (hn : 0 < n) (hn' : n ≤ 2 ^ 16) :
    Registers.badLimit seg off 1 (.ofNat 32 n) ↔ ¬Fits seg off n ∧ ¬Exempt seg off n := by
  have hrange := toNat_range hn hn'
  have hdvd := off_mod off hn'
  have hoff := off.isLt
  have hlimit := seg.limit.isLt
  unfold Registers.badLimit
  generalize (1 : Word) * .ofNat 32 n - 1 = r at *
  cases he : seg.e with
  | true =>
    have hexempt : ¬Exempt seg off n := fun h => by
      rw [Exempt, he] at h
      exact absurd h.1 (by decide)
    rw [and_iff_left hexempt]
    unfold Fits past
    rw [he, if_pos rfl, if_pos rfl, Bool.or_eq_true, decide_eq_true_eq, decide_eq_true_eq, BitVec.le_def, gt_iff_lt,
      BitVec.lt_def, BitVec.toNat_sub, hrange, toNat_top]
    cases seg.x <;> simp only [if_true, Bool.false_eq_true, if_false, true_imp_iff] <;> omega
  | false =>
    have hfull : (if seg.x then decide (seg.limit ≠ 0xffffffff) else decide (seg.limit ≠ 0xffff)) = true ↔
        ¬seg.limit = if seg.x then 0xffffffff else 0xffff := by
      cases seg.x <;> exact decide_eq_true_iff
    have htop : seg.limit = (if seg.x then 0xffffffff else 0xffff) →
        seg.limit.toNat = if seg.x then 2 ^ 32 - 1 else 2 ^ 16 - 1 := fun h => by rw [h, toNat_top]
    have hbig : 2 ^ 16 - 1 ≤ if seg.x then 2 ^ 32 - 1 else 2 ^ 16 - 1 := by cases seg.x <;> decide
    unfold Fits Exempt past
    rw [he]
    simp only [Bool.false_eq_true, if_false, false_imp_iff, true_and, Bool.or_eq_true, Bool.and_eq_true,
      decide_eq_true_eq, gt_iff_lt, BitVec.lt_def, BitVec.le_def, BitVec.toNat_sub, hrange, ne_eq, hdvd, hfull]
    by_cases hF : seg.limit = if seg.x then 0xffffffff else 0xffff
    · have htop := htop hF
      by_cases hD : n ∣ off.toNat
      · simp only [hD, hF, not_true_eq_false, and_true, or_false, and_false]
        rw [toNat_top] at *
        omega
      · simp only [hD, not_false_eq_true, true_or, and_true, false_and, and_false]
        omega
    · simp only [hF, not_false_eq_true, or_true, and_true, and_false]
      omega
theorem Fits.mono {seg : Segment} {off : Word} {m n : ℕ} (h : Fits seg off n) (hm : m ≤ n) : Fits seg off m :=
  ⟨h.1, h.2.trans' (by omega)⟩

variable {o p}

theorem checked_or (o : Operand) : o.kind.checked o.size32 ≤ o.size ∨ o.kind.checked o.size32 = 106 ∧ o.size = 94 := by
  unfold size
  cases o.kind <;> cases o.size32 <;> decide

theorem checked_pos (o : Operand) : 0 < o.kind.checked o.size32 := by
  cases o.kind <;> cases o.size32 <;> decide

theorem checked_le (o : Operand) : o.kind.checked o.size32 ≤ 2 ^ 16 := by
  cases o.kind <;> cases o.size32 <;> decide

/-- What is exempt does not fit. -/
theorem Exempt.not_fits (h : Exempt o.seg o.off (o.kind.checked o.size32)) : ¬Fits o.seg o.off o.size := by
  obtain ⟨he, -, hpast, hdvd, hlimit⟩ := h
  intro hfits
  have hend := hfits.2
  rcases checked_or o with hle | ⟨hchecked, hsize⟩
  · omega
  · have hlimit := congrArg BitVec.toNat hlimit
    rw [toNat_top] at hlimit
    rw [hchecked] at hpast hdvd
    rw [hsize] at hend
    unfold past at hpast hend
    rw [he] at hpast hend
    cases hx : o.seg.x <;> rw [hx] at hlimit <;>
      simp only [Bool.false_eq_true, if_false, if_true] at hlimit hpast hend <;> omega

/-- **When `limit_check` finds what is to be found**. -/
theorem limitRight_iff : o.LimitRight ↔
    (o.limited → (Registers.badLimit o.seg o.off 1 (.ofNat 32 (o.kind.checked o.size32)) ↔
      ¬Fits o.seg o.off o.size)) := by
  unfold LimitRight
  refine forall_congr' fun _ => ?_
  rw [badLimit_iff o.seg o.off (checked_pos o) (checked_le o)]
  by_cases hexempt : Exempt o.seg o.off (o.kind.checked o.size32)
  · have hfits := hexempt.not_fits
    tauto
  · rcases le_total o.size (o.kind.checked o.size32) with hle | hle
    · rw [min_eq_left hle, max_eq_right hle]
      have hmono : Fits o.seg o.off (o.kind.checked o.size32) → Fits o.seg o.off o.size := fun h => h.mono hle
      tauto
    · rw [min_eq_right hle, max_eq_left hle]
      have hmono : Fits o.seg o.off o.size → Fits o.seg o.off (o.kind.checked o.size32) := fun h => h.mono hle
      tauto

/-! ## The bytes that are moved -/

/-- The checks that are made, and the places that bytes are moved from or to. -/
def moves (o : Operand) (p : Paging) (isWrite : Bool) : Except Fault (List Word) :=
  if o.badType isWrite then .error (.gp 0)
  else if o.limited ∧ Registers.badLimit o.seg o.off 1 (.ofNat 32 (o.kind.checked o.size32)) then .error o.limitFault
  else p.usrPlaces o.kind.width o.la o.size isWrite

/-- What `D_` comes to. -/
def decoded (o : Operand) (p : Paging) (isWrite : Bool) : Except Fault Word :=
  if o.badType isWrite then .error (.gp 0)
  else if o.limited ∧ Registers.badLimit o.seg o.off 1 (.ofNat 32 (o.kind.checked o.size32)) then .error o.limitFault
  else p.usrPlace o.kind.width o.la isWrite

theorem decode_looks {M : Type} {m : M} (isWrite : Bool) : Looks (o.decode p isWrite) m (o.decoded p isWrite) := by
  unfold decode decoded
  by_cases htype : o.badType isWrite
  · rw [if_pos htype, faultIf_fault htype]
    exact .throw
  · rw [if_neg htype, faultIf_pass htype]
    split
    · rename_i hlimit
      rw [faultIf_fault hlimit]
      exact .throw
    · rename_i hlimit
      rw [faultIf_pass hlimit]
      exact Paging.usrChk_looks ..

theorem size_le (o : Operand) : o.size ≤ 4096 := by
  unfold size
  cases o.kind <;> cases o.size32 <;> decide

theorem bytes_le_size (o : Operand) : Paging.bytes o.kind.width ≤ o.size := by
  unfold size
  cases o.kind <;> cases o.size32 <;> decide

/-- Once an operand is decoded its bytes have places. -/
theorem moves_of_decoded {isWrite : Bool} {phy : Word} (h : o.decoded p isWrite = .ok phy) :
    ∃ q, Paging.Leads p o.la phy isWrite o.size q ∧ o.moves p isWrite = .ok ((List.range o.size).map q) := by
  unfold decoded at h
  unfold moves
  by_cases htype : o.badType isWrite
  · rw [if_pos htype] at h
    cases h
  · rw [if_neg htype] at h ⊢
    split at h
    · cases h
    · rename_i hlimit
      rw [if_neg hlimit]
      exact Paging.leads_of_usrPlace h o.size_le

theorem moves_of_fault {isWrite : Bool} {e : Fault} (h : o.decoded p isWrite = .error e) : o.moves p isWrite = .error e := by
  unfold decoded at h
  unfold moves
  by_cases htype : o.badType isWrite
  · rw [if_pos htype] at h ⊢
    exact congrArg _ (Except.error.inj h)
  · rw [if_neg htype] at h ⊢
    split at h
    · rename_i hlimit
      rw [if_pos hlimit]
      exact congrArg _ (Except.error.inj h)
    · rename_i hlimit
      rw [if_neg hlimit]
      exact Paging.usrPlaces_error h

theorem load_at {phy : Word} {q : ℕ → Word} {ram : Ram} (hq : Paging.Leads p o.la phy false o.size q) :
    Looks (o.fetch p ramPhys phy) ram (.ok (((List.range o.size).map q).map ram)) := by
  unfold size at *
  unfold fetch
  cases hk : o.kind with
  | m16 =>
    rw [hk] at hq
    change EStateM.bind (p.virRead ramPhys .word o.la phy) _ ram = _
    unfold EStateM.bind
    rw [Paging.Leads.readWord hq]
    exact congrArg (EStateM.Result.ok · ram) (wordBytes_append ..)
  | m32 =>
    rw [hk] at hq
    change EStateM.bind (p.virRead ramPhys .dword o.la phy) _ ram = _
    unfold EStateM.bind
    rw [Paging.Leads.readDword hq]
    refine congrArg (EStateM.Result.ok · ram) ((dwordBytes_append ..).trans ?_)
    rw [wordBytes_append, wordBytes_append]
    rfl
  | _ =>
    rw [hk] at hq
    change EStateM.bind (p.virReadBytes ramPhys o.la phy o.size) _ ram = _
    unfold EStateM.bind size
    rw [hk, Paging.Leads.read hq]
    refine congrArg (EStateM.Result.ok · ram) ((List.reverse_reverse _).trans ?_)
    rw [List.map_map]
    rfl

theorem store_at {phy : Word} {q : ℕ → Word} {ram : Ram} {data : List (BitVec 8)}
    (hq : Paging.Leads p o.la phy true o.size q) (hdata : data.length = o.size) :
    o.put p ramPhys phy data ram = .ok ⟨⟩ (scatter (((List.range o.size).map q).zip data) ram) := by
  have hnodup := hq.nodup o.size_le
  have hfst : ((((List.range o.size).map q).zip data).map Prod.fst).Nodup := by
    rwa [List.map_fst_zip (by rw [hdata, List.length_map, List.length_range])]
  rw [← scatter_reverse hfst]
  unfold size at *
  unfold put
  cases hk : o.kind with
  | m16 =>
    rw [hk] at hq hdata
    obtain ⟨b0, b1, rfl⟩ := List.length_eq_two.mp hdata
    refine (Paging.Leads.writeWord hq _).trans ?_
    rw [wordBytes_append]
    rfl
  | m32 =>
    rw [hk] at hq hdata
    obtain ⟨b0, b1, b2, b3, rfl⟩ : ∃ b0 b1 b2 b3, data = [b0, b1, b2, b3] :=
      match data, hdata with
      | [b0, b1, b2, b3], _ => ⟨b0, b1, b2, b3, rfl⟩
    refine (Paging.Leads.writeDword hq _).trans ?_
    rw [dwordBytes_append, wordBytes_append, wordBytes_append]
    rfl
  | _ =>
    rw [hk] at hq hdata hfst
    rw [scatter_reverse hfst, ← hdata]
    rw [← hdata] at hq
    exact Paging.Leads.write hq

/-- **An operand is loaded** from where its bytes are moved. -/
theorem load_looks (ram : Ram) : Looks (o.load p ramPhys) ram ((o.moves p false).map fun l => l.map ram) := by
  cases h : o.decoded p false with
  | error e =>
    rw [moves_of_fault h]
    have hdecode := decode_looks (o := o) (p := p) (m := ram) false
    rw [h] at hdecode
    exact hdecode.bind (w := fun _ => .error e) nofun
  | ok phy =>
    obtain ⟨q, hq, hmoves⟩ := moves_of_decoded h
    rw [hmoves]
    have hdecode := decode_looks (o := o) (p := p) (m := ram) false
    rw [h] at hdecode
    refine hdecode.bind (w := fun _ => .ok (((List.range o.size).map q).map ram)) fun phy' hphy => ?_
    cases hphy
    exact load_at hq

/-- **An operand is stored** where its bytes are moved. -/
theorem store_eq (ram : Ram) {data : List (BitVec 8)} (hdata : data.length = o.size) :
    o.store p ramPhys data ram =
      match o.moves p true with
      | .ok l => .ok ⟨⟩ (scatter (l.zip data) ram)
      | .error e => .error e ram := by
  have hdecode := decode_looks (o := o) (p := p) (m := ram) true
  change EStateM.bind (o.decode p true) _ ram = _
  unfold EStateM.bind
  rw [hdecode]
  cases h : o.decoded p true with
  | error e =>
    rw [moves_of_fault h]
  | ok phy =>
    obtain ⟨q, hq, hmoves⟩ := moves_of_decoded h
    rw [hmoves]
    exact store_at hq hdata

/-! ## Where it shows -/

theorem exact_length {isWrite : Bool} {l : List Word} (h : o.exact p isWrite = .ok l) : l.length = o.size ∧ l.Nodup := by
  unfold exact at h
  split at h
  · cases h
  split at h
  · cases h
  have hnodup := Paging.nodup_places h o.size_le
  obtain ⟨q, -, rfl⟩ := Paging.of_places h
  exact ⟨by rw [List.length_map, List.length_range], hnodup⟩

theorem moves_length {isWrite : Bool} {l : List Word} (h : o.moves p isWrite = .ok l) : l.length = o.size ∧ l.Nodup := by
  cases hd : o.decoded p isWrite with
  | error e =>
    rw [moves_of_fault hd] at h
    cases h
  | ok phy =>
    obtain ⟨q, hq, hmoves⟩ := moves_of_decoded hd
    cases Except.ok.inj (hmoves.symm.trans h)
    exact ⟨by rw [List.length_map, List.length_range], hq.nodup o.size_le⟩

/-- What is loaded tells where it is from. -/
theorem loadsExactly_iff : o.LoadsExactly p ↔ o.moves p false = o.exact p false := by
  constructor
  · intro h
    have hram (ram : Ram) := (load_looks (o := o) (p := p) ram).symm.trans (h ram)
    cases hm : o.moves p false <;> cases he : o.exact p false <;>
      simp only [hm, he, Except.map, reduceCtorEq, forall_const, EStateM.Result.error.injEq, and_true,
        EStateM.Result.ok.injEq] at hram ⊢
    · rw [hram]
    · rw [places_of_read (show (0 : BitVec 8) ≠ 1 by decide) hram]
  · intro h ram
    rw [← h]
    exact load_looks ram

/-- …and what is stored where it goes. -/
theorem storesExactly_iff : o.StoresExactly p ↔ o.moves p true = o.exact p true := by
  constructor
  · intro h
    have hram (ram : Ram) (data : List (BitVec 8)) (hdata : data.length = o.size) :=
      (store_eq (o := o) (p := p) ram hdata).symm.trans (h ram data hdata)
    cases hm : o.moves p true with
    | error e =>
      have hram := hram (fun _ => 0) (List.replicate o.size 0) List.length_replicate
      rw [hm] at hram
      cases he : o.exact p true with
      | error e' =>
        rw [he] at hram
        cases hram
        rfl
      | ok l =>
        rw [he] at hram
        cases hram
    | ok l =>
      cases he : o.exact p true with
      | error e =>
        have hram := hram (fun _ => 0) (List.replicate o.size 0) List.length_replicate
        rw [hm, he] at hram
        cases hram
      | ok l' =>
        obtain ⟨hlength, hnodup⟩ := moves_length hm
        obtain ⟨hlength', hnodup'⟩ := exact_length he
        rw [places_of_scatter (show (0 : BitVec 8) ≠ 1 by decide) hnodup hnodup' (hlength'.trans hlength.symm)
          fun data ram hdata => ?_]
        have hram := hram ram data (hdata.trans hlength)
        rw [hm, he] at hram
        injection hram
  · intro h ram data hdata
    rw [← h]
    exact store_eq ram hdata

theorem ne_limitFault {e : Fault} (h : ∃ code, e = .pf code) : e ≠ o.limitFault := by
  obtain ⟨code, rfl⟩ := h
  unfold limitFault
  split <;> nofun

theorem places_ne_limitFault (isWrite : Bool) : o.places p isWrite ≠ .error o.limitFault := fun h =>
  ne_limitFault (Paging.places_pf h) rfl

theorem usrPlaces_ne_limitFault (isWrite : Bool) :
    p.usrPlaces o.kind.width o.la o.size isWrite ≠ .error o.limitFault := fun h => by
  cases hd : p.usrPlace o.kind.width o.la isWrite with
  | error e =>
    rw [Paging.usrPlaces_error hd] at h
    exact ne_limitFault (o := o) (Paging.usrPlace_pf hd) (Except.error.inj h)
  | ok phy =>
    obtain ⟨q, -, hq⟩ := Paging.leads_of_usrPlace hd o.size_le
    rw [hq] at h
    cases h

/-- **Where the bytes are moved from their own places, after the checks for them**. -/
theorem moves_eq_exact_iff (isWrite : Bool) : o.moves p isWrite = o.exact p isWrite ↔ o.Right p isWrite := by
  have hpages : p.usrPlaces o.kind.width o.la o.size isWrite = o.places p isWrite ↔ o.PagesRight p isWrite :=
    Paging.usrPlaces_eq_iff o.bytes_le_size o.size_le
  unfold Right moves exact
  by_cases htype : o.badType isWrite
  · rw [if_pos htype, if_pos htype]
    exact iff_of_true rfl (.inl htype)
  rw [if_neg htype, if_neg htype, limitRight_iff, or_iff_right htype]
  by_cases hlimited : o.limited
  swap
  · rw [if_neg fun h => hlimited h.1, if_neg fun h => hlimited h.1, hpages]
    simp [hlimited]
  by_cases hbad : Registers.badLimit o.seg o.off 1 (.ofNat 32 (o.kind.checked o.size32)) <;>
    by_cases hfits : Fits o.seg o.off o.size
  · rw [if_pos ⟨hlimited, hbad⟩, if_neg fun h => h.2 hfits]
    exact iff_of_false (fun h => places_ne_limitFault isWrite h.symm) fun h => (h.1 hlimited).mp hbad hfits
  · rw [if_pos ⟨hlimited, hbad⟩, if_pos ⟨hlimited, hfits⟩]
    exact iff_of_true rfl ⟨fun _ => iff_of_true hbad hfits, .inl ⟨hlimited, hfits⟩⟩
  · rw [if_neg fun h => hbad h.2, if_neg fun h => h.2 hfits, hpages]
    constructor
    · exact fun h => ⟨fun _ => iff_of_false hbad (not_not.mpr hfits), .inr h⟩
    · rintro ⟨-, h | h⟩
      · exact absurd hfits h.2
      · exact h
  · rw [if_neg fun h => hbad h.2, if_pos ⟨hlimited, hfits⟩]
    exact iff_of_false (usrPlaces_ne_limitFault isWrite) fun h => hbad ((h.1 hlimited).mpr hfits)

end Operand

/-- **Where the memory operands of the FPU are checked and moved exactly**. -/
theorem fpu_operands_exact (o : Operand) (p : Paging) :
    (o.LoadsExactly p ↔ o.Right p false) ∧ (o.StoresExactly p ↔ o.Right p true) :=
  ⟨Operand.loadsExactly_iff.trans (Operand.moves_eq_exact_iff false),
    Operand.storesExactly_iff.trans (Operand.moves_eq_exact_iff true)⟩

/-- A flat segment, of four gigabytes. -/
def flat : Protection where
  pe := true
  vm := false
  cpl := 3
  sr _ := { r := true, w := true, x := true, limit := 0xffffffff }
  gdt := {}
  idt := {}
  ldt := {}
  tr := {}

/-- Page 1 is in frame 5, and page 2 in frame 9. -/
def apart : Paging where
  pg := true
  cpl := 3
  pages n := if n = 1 then some ⟨5, true, true⟩ else if n = 2 then some ⟨9, true, true⟩ else none

/-- A double that crosses into page 2 has its last bytes from frame 6. -/
theorem fpu_operands_not_exact : ¬Operand.LoadsExactly ⟨.m64, true, flat, .ds, 0x1ffc⟩ apart := by
  intro h
  have hread := h fun a => if a = 0x9000 then 1 else 0
  injection hread with hbytes
  exact absurd hbytes (by decide)

end SoftPC.Ccpu
