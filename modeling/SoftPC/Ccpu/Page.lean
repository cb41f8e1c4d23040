import SoftPC.Ccpu.Stack

/-!
# Ccpu/Page — memory through the page tables

    linear ──usr_chk──▸ physical (0: it spans two pages) ──vir──▸ phy_read, phy_write
                                              0 ──▸ spr_read, spr_write ──lin2phy──▸

`base/ccpu386/c_page.c`.  What the page tables say is fixed while an access is made: a page has a frame and
a protection, or is not there (`Paging`); how `lin2phy` finds that, and what it marks, is the buffer's matter
(`Ccpu/Tlb`).  Physical memory is a parameter, `Phys`, whose accesses may do more than read and write; plain
memory is `ramPhys`.  The debugger is told of an access and changes nothing, and is left out, as are data
breakpoints, which are only noted.
-/

namespace SoftPC.Ccpu

/-! ## Physical memory -/

/-- `phy_read_byte` and its kin, on a memory. -/
structure Phys (M : Type) where
  read : (w : Width) → Word → M → BitVec w.bits × M
  write : (w : Width) → Word → BitVec w.bits → M → M

namespace Phys

variable {M : Type} (phys : Phys M)

def get (w : Width) (a : Word) : EStateM Fault M (BitVec w.bits) := fun m =>
  .ok (phys.read w a m).1 (phys.read w a m).2

def put (w : Width) (a : Word) (data : BitVec w.bits) : EStateM Fault M PUnit := fun m =>
  .ok ⟨⟩ (phys.write w a data m)

end Phys

/-- Plain memory. -/
abbrev Ram := Word → BitVec 8

/-- The bytes of a word, and of a double word, the lowest first. -/
def wordBytes (v : BitVec 16) : List (BitVec 8) := [v.setWidth 8, (v >>> 8).setWidth 8]

def dwordBytes (v : BitVec 32) : List (BitVec 8) := wordBytes (v.setWidth 16) ++ wordBytes ((v >>> 16).setWidth 16)

theorem append_setWidth {v w : ℕ} (x : BitVec w) (y : BitVec v) : (x ++ y).setWidth v = y := by
  ext i hi
  simp [BitVec.getLsbD_append, hi]

theorem append_ushiftRight {v w : ℕ} (x : BitVec w) (y : BitVec v) : ((x ++ y) >>> v).setWidth w = x := by
  ext i hi
  simp [BitVec.getLsbD_append, hi]

theorem wordBytes_append (b1 b0 : BitVec 8) : wordBytes (b1 ++ b0) = [b0, b1] := by
  unfold wordBytes
  congr 1
  · exact append_setWidth b1 b0
  · congr 1
    exact append_ushiftRight b1 b0

theorem dwordBytes_append (w1 w0 : BitVec 16) : dwordBytes (w1 ++ w0) = wordBytes w0 ++ wordBytes w1 := by
  unfold dwordBytes
  congr 1
  · exact congrArg wordBytes (append_setWidth w1 w0)
  · exact congrArg wordBytes (append_ushiftRight w1 w0)

/-- Bytes stored from an address on. -/
def Ram.store (ram : Ram) (a : Word) : List (BitVec 8) → Ram
  | [] => ram
  | b :: bs => Ram.store (Function.update ram a b) (a + 1) bs

/-- Plain memory's accesses. -/
def ramPhys : Phys Ram where
  read
    | .byte, a, ram => (ram a, ram)
    | .word, a, ram => (ram (a + 1) ++ ram a, ram)
    | .dword, a, ram => ((ram (a + 3) ++ ram (a + 2)) ++ (ram (a + 1) ++ ram a), ram)
  write
    | .byte, a, v, ram => ram.store a [v]
    | .word, a, v, ram => ram.store a (wordBytes v)
    | .dword, a, v, ram => ram.store a (dwordBytes v)

/-! ## Translation -/

/-- A page, as its two entries map and protect it. -/
structure PageEntry where
  frame : BitVec 20
  user : Bool
  writable : Bool
  deriving DecidableEq

/-- What an access goes by. -/
structure Paging where
  /-- `GET_PG`. -/
  pg : Bool
  /-- `GET_CPL`. -/
  cpl : Ring
  pages : BitVec 20 → Option PageEntry

/-- `lin & OFFSET_MASK`. -/
def offsetIn (lin : Word) : ℕ := lin.toNat % 4096

/-- An address in a page. -/
def PageEntry.address (e : PageEntry) (lin : Word) : Word := .ofNat 32 (e.frame.toNat * 4096 + offsetIn lin)

/-- `access_check[access][mode]`: the page refuses the access. -/
def PageEntry.refuses (e : PageEntry) (access : Access) : Bool :=
  accessFails access (protection e.user e.writable) = some true

theorem accessFails_protection (access : Access) (u w : Bool) :
    accessFails access (protection u w) = some (access.getLsbD 1 && (!u || access.writes && !w)) := by
  revert access u w
  decide

/-- Only a user is refused. -/
theorem PageEntry.refuses_eq (e : PageEntry) (access : Access) :
    e.refuses access = (access.getLsbD 1 && (!e.user || access.writes && !e.writable)) := by
  rw [refuses, accessFails_protection]
  simp

namespace Paging

variable {M : Type} (p : Paging)

/-- The address an access goes to, or the fault it takes. -/
def translate (lin : Word) (access : Access) : Except Fault Word :=
  match p.pages (pageOf lin) with
  | none => .error (.pf (Mmu.faultCode access false))
  | some e => if e.refuses access then .error (.pf (Mmu.faultCode access true)) else .ok (e.address lin)

def lin2phy (lin : Word) (access : Access) : EStateM Fault M Word := fun m =>
  match p.translate lin access with
  | .ok a => .ok a m
  | .error e => .error e m

/-- `PG_R` or `PG_W`, for the user or the supervisor. -/
def access (isWrite isUser : Bool) : Access := .ofNat 2 (isWrite.toNat + 2 * isUser.toNat)

/-- `lin2phy`, if there is paging. -/
def mapped (lin : Word) (access : Access) : EStateM Fault M Word :=
  if p.pg then p.lin2phy lin access else pure lin

/-! ## The supervisor's accesses -/

variable (phys : Phys M)

def sprReadByte (lin : Word) : EStateM Fault M (BitVec 8) := do
  phys.get .byte (← p.mapped lin (access false false))

def sprReadWord (lin : Word) : EStateM Fault M (BitVec 16) := do
  if p.pg ∧ offsetIn lin > 0xffe then
    let low ← p.sprReadByte phys lin
    let high ← p.sprReadByte phys (lin + 1)
    return high ++ low
  else phys.get .word (← p.mapped lin (access false false))

def sprReadDword (lin : Word) : EStateM Fault M (BitVec 32) := do
  if p.pg ∧ offsetIn lin > 0xffc then
    let low ← p.sprReadWord phys lin
    let high ← p.sprReadWord phys (lin + 2)
    return high ++ low
  else phys.get .dword (← p.mapped lin (access false false))

def sprWriteByte (lin : Word) (data : BitVec 8) : EStateM Fault M PUnit := do
  phys.put .byte (← p.mapped lin (access true false)) data

def sprWriteWord (lin : Word) (data : BitVec 16) : EStateM Fault M PUnit := do
  if p.pg ∧ offsetIn lin > 0xffe then
    p.sprWriteByte phys lin (data.setWidth 8)
    p.sprWriteByte phys (lin + 1) ((data >>> 8).setWidth 8)
  else phys.put .word (← p.mapped lin (access true false)) data

def sprWriteDword (lin : Word) (data : BitVec 32) : EStateM Fault M PUnit := do
  if p.pg ∧ offsetIn lin > 0xffc then
    p.sprWriteWord phys lin (data.setWidth 16)
    p.sprWriteWord phys (lin + 2) ((data >>> 16).setWidth 16)
  else phys.put .dword (← p.mapped lin (access true false)) data

/-! ## Checked accesses -/

def noPhysicalMapping : Word := 0

/-- The last place of an item that is within a page. -/
def lastOnPage : Width → ℕ
  | .byte => 0xfff
  | .word => 0xffe
  | .dword => 0xffc

/-- The bytes of an item. -/
def bytes : Width → ℕ
  | .byte => 1
  | .word => 2
  | .dword => 4

/-- `usr_chk_byte`, `usr_chk_word` and `usr_chk_dword`. -/
def usrChk (w : Width) (lin : Word) (isWrite : Bool) : EStateM Fault M Word := do
  if p.pg then
    let access := access isWrite (p.cpl = 3)
    let phy ← p.lin2phy lin access
    if offsetIn lin > lastOnPage w then
      let _ ← p.lin2phy (M := M) (lin + .ofNat 32 (bytes w - 1)) access
      return noPhysicalMapping
    else return phy
  else return lin

/-- `vir_read_byte`, `vir_read_word` and `vir_read_dword`. -/
def virRead (w : Width) (lin phy : Word) : EStateM Fault M (BitVec w.bits) :=
  if phy ≠ 0 then phys.get w phy
  else
    match w with
    | .byte => p.sprReadByte phys lin
    | .word => p.sprReadWord phys lin
    | .dword => p.sprReadDword phys lin

/-- `vir_write_byte`, `vir_write_word` and `vir_write_dword`. -/
def virWrite (w : Width) (lin phy : Word) (data : BitVec w.bits) : EStateM Fault M PUnit :=
  if phy ≠ 0 then phys.put w phy data
  else
    match w with
    | .byte => p.sprWriteByte phys lin data
    | .word => p.sprWriteWord phys lin data
    | .dword => p.sprWriteDword phys lin data

/-- A byte that `vir_read_bytes` reads. -/
def virReadAt (lin phy : Word) (i : ℕ) : EStateM Fault M (BitVec 8) :=
  if phy ≠ 0 then phys.get .byte (phy + .ofNat 32 i) else p.sprReadByte phys (lin + .ofNat 32 i)

/-- `vir_read_bytes`, of as many bytes: the last comes first. -/
def virReadBytes (lin phy : Word) : ℕ → EStateM Fault M (List (BitVec 8))
  | 0 => return []
  | n + 1 => do
    let b ← virReadAt p phys lin phy n
    return b :: (← virReadBytes lin phy n)

/-- A byte that `vir_write_bytes` writes. -/
def virWriteAt (lin phy : Word) (i : ℕ) (data : BitVec 8) : EStateM Fault M PUnit :=
  if phy ≠ 0 then phys.put .byte (phy + .ofNat 32 i) data else p.sprWriteByte phys (lin + .ofNat 32 i) data

/-- `vir_write_bytes`: the first goes last. -/
def virWriteBytes (lin phy : Word) : List (BitVec 8) → EStateM Fault M PUnit
  | [] => return ⟨⟩
  | b :: data => do
    virWriteAt p phys lin phy data.length b
    virWriteBytes lin phy data

end Paging

/-! ## Within a page -/

section Within

variable {a : Word} {i : ℕ}

theorem toNat_add_within (hi : offsetIn a + i < 4096) : (a + .ofNat 32 i).toNat = a.toNat + i := by
  unfold offsetIn at hi
  have := a.isLt
  rw [BitVec.toNat_add, BitVec.toNat_ofNat]
  omega

theorem pageOf_add (hi : offsetIn a + i < 4096) : pageOf (a + .ofNat 32 i) = pageOf a := by
  apply BitVec.eq_of_toNat_eq
  unfold pageOf
  rw [BitVec.toNat_setWidth, BitVec.toNat_setWidth, BitVec.toNat_ushiftRight, BitVec.toNat_ushiftRight,
    toNat_add_within hi, Nat.shiftRight_eq_div_pow, Nat.shiftRight_eq_div_pow]
  unfold offsetIn at hi
  omega

theorem PageEntry.address_add (e : PageEntry) (hi : offsetIn a + i < 4096) :
    e.address (a + .ofNat 32 i) = e.address a + .ofNat 32 i := by
  have hframe := e.frame.isLt
  apply BitVec.eq_of_toNat_eq
  unfold PageEntry.address
  rw [BitVec.toNat_add, BitVec.toNat_ofNat, BitVec.toNat_ofNat, BitVec.toNat_ofNat]
  unfold offsetIn at *
  rw [toNat_add_within hi]
  omega

/-- **A page is translated as a whole**. -/
theorem Paging.translate_add (p : Paging) (access : Access) (hi : offsetIn a + i < 4096) :
    p.translate (a + .ofNat 32 i) access = (p.translate a access).map (· + .ofNat 32 i) := by
  unfold translate
  rw [pageOf_add hi]
  cases p.pages (pageOf a) with
  | none => rfl
  | some e =>
    dsimp only
    rw [e.address_add hi]
    split <;> rfl

end Within

/-- What a user may do the supervisor may. -/
theorem Paging.translate_supervisor (p : Paging) {a phy : Word} {isWrite isUser : Bool}
    (h : p.translate a (access isWrite isUser) = .ok phy) (isWrite' : Bool) :
    p.translate a (access isWrite' false) = .ok phy := by
  unfold translate at *
  cases hp : p.pages (pageOf a) with
  | none =>
    rw [hp] at h
    cases h
  | some e =>
    rw [hp] at h
    dsimp only at h ⊢
    have hsupervisor : e.refuses (access isWrite' false) = false := by
      rw [e.refuses_eq]
      cases isWrite' <;> rfl
    rw [hsupervisor]
    split at h
    · cases h
    · exact h

/-! ## Places -/

namespace Paging

variable (p : Paging) (ram : Ram)

/-- Where an access goes. -/
def place (a : Word) (isWrite isUser : Bool) : Except Fault Word :=
  if p.pg then p.translate a (access isWrite isUser) else .ok a

variable {p ram} {a b : Word} {isWrite isUser : Bool}

theorem place_add (hb : p.place a isWrite isUser = .ok b) {i : ℕ} (hi : p.pg → offsetIn a + i < 4096) :
    p.place (a + .ofNat 32 i) isWrite isUser = .ok (b + .ofNat 32 i) := by
  unfold place at *
  by_cases hp : p.pg
  · rw [if_pos hp] at hb ⊢
    rw [p.translate_add _ (hi hp), hb]
    rfl
  · rw [if_neg hp] at hb ⊢
    rw [Except.ok.inj hb]

theorem place_supervisor (hb : p.place a isWrite isUser = .ok b) (isWrite' : Bool) : p.place a isWrite' false = .ok b := by
  unfold place at *
  by_cases hp : p.pg
  · rw [if_pos hp] at hb ⊢
    exact p.translate_supervisor hb isWrite'
  · rw [if_neg hp] at hb ⊢
    exact hb

/-- A page keeps the offset. -/
theorem offsetIn_place (hb : p.place a isWrite isUser = .ok b) : offsetIn b = offsetIn a := by
  unfold place translate at hb
  split at hb
  · split at hb
    · cases hb
    · split at hb
      · cases hb
      · rename_i e _ _
        rw [← Except.ok.inj hb]
        have hframe := e.frame.isLt
        unfold PageEntry.address offsetIn
        rw [BitVec.toNat_ofNat]
        omega
  · rw [Except.ok.inj hb]

theorem mapped_looks {M : Type} {m : M} (a : Word) (isWrite isUser : Bool) :
    Looks (p.mapped a (access isWrite isUser)) m (p.place a isWrite isUser) := by
  unfold mapped place
  refine .ite (fun _ => ?_) fun _ => .pure
  unfold Looks lin2phy
  cases p.translate a (access isWrite isUser) <;> rfl

/-! ## What the supervisor reads and writes -/

variable (p ram) in
/-- The byte that is read at an address. -/
def shown (a : Word) : Except Fault (BitVec 8) := do
  return ram (← p.place a false false)

variable (p ram) in
/-- …and the word. -/
def shownWord (a : Word) : Except Fault (BitVec 16) := do
  let low ← p.shown ram a
  let high ← p.shown ram (a + 1)
  return high ++ low

theorem sprReadByte_looks (a : Word) : Looks (p.sprReadByte ramPhys a) ram (p.shown ram a) :=
  (mapped_looks a false false).bind fun _ _ => rfl

/-- The place of the next byte, within a page. -/
theorem place_succ (ha : ¬(p.pg ∧ offsetIn a > 0xffe)) (hb : p.place a isWrite isUser = .ok b) :
    p.place (a + 1) isWrite isUser = .ok (b + 1) :=
  place_add (i := 1) hb fun hp => by
    have hlast : ¬offsetIn a > 0xffe := fun h => ha ⟨hp, h⟩
    omega

theorem sprReadWord_looks (a : Word) : Looks (p.sprReadWord ramPhys a) ram (p.shownWord ram a) := by
  unfold sprReadWord
  by_cases ha : p.pg ∧ offsetIn a > 0xffe
  · rw [if_pos ha]
    exact (sprReadByte_looks a).bind fun _ _ => (sprReadByte_looks (a + 1)).bind fun _ _ => .pure
  · rw [if_neg ha]
    have hword : p.shownWord ram a = do
        let b ← p.place a false false
        return ram (b + 1) ++ ram b := by
      unfold shownWord shown
      cases hb : p.place a false false with
      | error e => rfl
      | ok b =>
        rw [place_succ ha hb]
        rfl
    rw [hword]
    exact (mapped_looks a false false).bind fun _ _ => rfl

section

variable {b0 b1 b2 b3 : Word}

theorem sprReadByte_at (hb : p.place a false false = .ok b) : p.sprReadByte ramPhys a ram = .ok (ram b) ram := by
  have hlooks : p.sprReadByte ramPhys a ram = _ := sprReadByte_looks a
  rw [shown, hb] at hlooks
  exact hlooks

theorem sprReadWord_at (h0 : p.place a false false = .ok b0) (h1 : p.place (a + 1) false false = .ok b1) :
    p.sprReadWord ramPhys a ram = .ok (ram b1 ++ ram b0) ram := by
  have hlooks : p.sprReadWord ramPhys a ram = _ := sprReadWord_looks a
  rw [shownWord, shown, shown, h0, h1] at hlooks
  exact hlooks

theorem sprWriteByte_at (hb : p.place a true false = .ok b) (v : BitVec 8) :
    p.sprWriteByte ramPhys a v ram = .ok ⟨⟩ (Function.update ram b v) := by
  change EStateM.bind (p.mapped a (access true false)) _ ram = _
  unfold EStateM.bind
  rw [mapped_looks a true false, hb]
  rfl

end

end Paging

end SoftPC.Ccpu
