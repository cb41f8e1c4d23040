import SoftPC.Ccpu.PageRun

/-!
# Ccpu/PageChecked — accesses after their check

    usr_chk ──▸ vir_read, vir_write            p ──more pages──▸ p'

On any memory: what has been checked is read and written without a fault (`sure_virRead`, `sure_virWrite`); and
where pages are only added, what went through goes through alike (`Extends`).
-/

namespace SoftPC.Ccpu.Paging

variable {p p' : Paging} {M : Type} {phys : Phys M}

/-! ## Checked accesses go through -/

section

variable {la phy : Word} {isWrite : Bool} {w : Width}

theorem sure_mapped {a : Word} (h : p.place la isWrite false = .ok a) :
    Sure (p.mapped (M := M) la (access isWrite false)) := fun m => by
  have hlooks := mapped_looks (p := p) (m := m) la isWrite false
  rw [h] at hlooks
  exact ⟨a, m, hlooks⟩

theorem sure_get (w : Width) (a : Word) : Sure (phys.get w a) := fun _ => ⟨_, _, rfl⟩

theorem sure_put (w : Width) (a : Word) (data : BitVec w.bits) : Sure (phys.put w a data) := fun _ => ⟨_, _, rfl⟩

/-- The supervisor has access to bytes. -/
def Reaches (p : Paging) (la : Word) (n : ℕ) : Prop := ∀ i < n, ∃ a, p.place (la + .ofNat 32 i) false false = .ok a

theorem Reaches.start {n : ℕ} (h : Reaches p la n) (hn : 0 < n) (isWrite : Bool) :
    ∃ a, p.place la isWrite false = .ok a := by
  obtain ⟨a, ha⟩ := h 0 hn
  rw [BitVec.add_zero] at ha
  exact ⟨a, place_supervisor ha isWrite⟩

theorem Reaches.mono {m n : ℕ} (h : Reaches p la n) (hm : m ≤ n) : Reaches p la m := fun i hi => h i (by omega)

theorem Reaches.drop {n : ℕ} (h : Reaches p la n) {k m : ℕ} (hm : k + m ≤ n) : Reaches p (la + .ofNat 32 k) m := by
  intro i hi
  rw [BitVec.add_assoc, ← BitVec.ofNat_add]
  exact h (k + i) (by omega)

theorem Reaches.readByte (h : Reaches p la 1) : Sure (p.sprReadByte phys la) :=
  .bind (sure_mapped (h.start (by omega) false).choose_spec) fun _ => sure_get _ _

theorem Reaches.readWord (h : Reaches p la 2) : Sure (p.sprReadWord phys la) :=
  .ite
    (fun _ => .bind (h.mono (by omega)).readByte fun _ => .bind (h.drop (k := 1) (m := 1) (by omega)).readByte fun _ => .pure)
    fun _ => .bind (sure_mapped (h.start (by omega) false).choose_spec) fun _ => sure_get _ _

theorem Reaches.readDword (h : Reaches p la 4) : Sure (p.sprReadDword phys la) :=
  .ite
    (fun _ => .bind (h.mono (by omega)).readWord fun _ => .bind (h.drop (k := 2) (m := 2) (by omega)).readWord fun _ => .pure)
    fun _ => .bind (sure_mapped (h.start (by omega) false).choose_spec) fun _ => sure_get _ _

theorem Reaches.writeByte (h : Reaches p la 1) (v : BitVec 8) : Sure (p.sprWriteByte phys la v) :=
  .bind (sure_mapped (h.start (by omega) true).choose_spec) fun _ => sure_put _ _ _

theorem Reaches.writeWord (h : Reaches p la 2) (v : BitVec 16) : Sure (p.sprWriteWord phys la v) :=
  .ite
    (fun _ => .bind ((h.mono (by omega)).writeByte _) fun _ => (h.drop (k := 1) (m := 1) (by omega)).writeByte _)
    fun _ => .bind (sure_mapped (h.start (by omega) true).choose_spec) fun _ => sure_put _ _ _

theorem Reaches.writeDword (h : Reaches p la 4) (v : BitVec 32) : Sure (p.sprWriteDword phys la v) :=
  .ite
    (fun _ => .bind ((h.mono (by omega)).writeWord _) fun _ => (h.drop (k := 2) (m := 2) (by omega)).writeWord _)
    fun _ => .bind (sure_mapped (h.start (by omega) true).choose_spec) fun _ => sure_put _ _ _

theorem reaches_of_usrPlace (h : p.usrPlace w la isWrite = .ok 0) : Reaches p la (bytes w) := by
  obtain ⟨q, hq⟩ := own_of_usrPlace (n := bytes w) h (by cases w <;> decide)
  exact fun i hi => ⟨q i, place_supervisor (hq i hi) false⟩

/-- **What is checked is read**. -/
theorem sure_virRead (h : p.usrPlace w la isWrite = .ok phy) : Sure (p.virRead phys w la phy) := by
  refine .ite (fun _ => sure_get _ _) fun hphy => ?_
  obtain rfl := not_not.mp hphy
  have hreach := reaches_of_usrPlace h
  cases w with
  | byte => exact hreach.readByte
  | word => exact hreach.readWord
  | dword => exact hreach.readDword

/-- …and written. -/
theorem sure_virWrite (h : p.usrPlace w la isWrite = .ok phy) (data : BitVec w.bits) :
    Sure (p.virWrite phys w la phy data) := by
  refine .ite (fun _ => sure_put _ _ _) fun hphy => ?_
  obtain rfl := not_not.mp hphy
  have hreach := reaches_of_usrPlace h
  cases w with
  | byte => exact hreach.writeByte data
  | word => exact hreach.writeWord data
  | dword => exact hreach.writeDword data

end

/-! ## More pages -/

/-- What is accessed in the first is accessed in the second, in the same place. -/
structure Extends (p p' : Paging) : Prop where
  pg : p'.pg = p.pg
  cpl : p'.cpl = p.cpl
  place : ∀ {la isWrite isUser a}, p.place la isWrite isUser = .ok a → p'.place la isWrite isUser = .ok a

/-- Pages are added. -/
theorem extends_of_pages (hpg : p'.pg = p.pg) (hcpl : p'.cpl = p.cpl)
    (hpages : ∀ n e, p.pages n = some e → p'.pages n = some e) : Extends p p' where
  pg := hpg
  cpl := hcpl
  place {la isWrite isUser a} h := by
    unfold Paging.place translate at *
    rw [hpg]
    by_cases hp : p.pg
    · rw [if_pos hp] at h ⊢
      cases he : p.pages (pageOf la) with
      | none =>
        rw [he] at h
        cases h
      | some e =>
        rw [he] at h
        rw [hpages _ e he]
        exact h
    · rw [if_neg hp] at h ⊢
      exact h

namespace Extends

variable (h : Extends p p')
include h

theorem mapped (la : Word) (isWrite isUser : Bool) :
    Serves (p.mapped (M := M) la (access isWrite isUser)) (p'.mapped la (access isWrite isUser)) := by
  intro m a t ht
  have hlooks := mapped_looks (p := p) (m := m) la isWrite isUser
  have hlooks' := mapped_looks (p := p') (m := m) la isWrite isUser
  unfold Looks at hlooks hlooks'
  cases hp : p.place la isWrite isUser with
  | error e =>
    rw [hlooks, hp] at ht
    cases ht
  | ok b =>
    rw [hp] at hlooks
    rw [h.place hp] at hlooks'
    rw [hlooks', ← ht, hlooks]

theorem sprReadByte (la : Word) : Serves (p.sprReadByte phys la) (p'.sprReadByte phys la) :=
  .bind (h.mapped la false false) fun _ => .refl

theorem sprReadWord (la : Word) : Serves (p.sprReadWord phys la) (p'.sprReadWord phys la) := by
  unfold Paging.sprReadWord
  rw [h.pg]
  exact .ite (.bind (h.sprReadByte _) fun _ => .bind (h.sprReadByte _) fun _ => .refl)
    (.bind (h.mapped la false false) fun _ => .refl)

theorem sprReadDword (la : Word) : Serves (p.sprReadDword phys la) (p'.sprReadDword phys la) := by
  unfold Paging.sprReadDword
  rw [h.pg]
  exact .ite (.bind (h.sprReadWord _) fun _ => .bind (h.sprReadWord _) fun _ => .refl)
    (.bind (h.mapped la false false) fun _ => .refl)

theorem sprWriteByte (la : Word) (v : BitVec 8) : Serves (p.sprWriteByte phys la v) (p'.sprWriteByte phys la v) :=
  .bind (h.mapped la true false) fun _ => .refl

theorem sprWriteWord (la : Word) (v : BitVec 16) : Serves (p.sprWriteWord phys la v) (p'.sprWriteWord phys la v) := by
  unfold Paging.sprWriteWord
  rw [h.pg]
  exact .ite (.bind (h.sprWriteByte _ _) fun _ => h.sprWriteByte _ _) (.bind (h.mapped la true false) fun _ => .refl)

theorem sprWriteDword (la : Word) (v : BitVec 32) : Serves (p.sprWriteDword phys la v) (p'.sprWriteDword phys la v) := by
  unfold Paging.sprWriteDword
  rw [h.pg]
  exact .ite (.bind (h.sprWriteWord _ _) fun _ => h.sprWriteWord _ _) (.bind (h.mapped la true false) fun _ => .refl)

theorem usrPlace {w : Width} {la phy : Word} {isWrite : Bool} (hphy : p.usrPlace w la isWrite = .ok phy) :
    p'.usrPlace w la isWrite = .ok phy := by
  unfold Paging.usrPlace at *
  rw [h.pg, h.cpl]
  cases ha : p.place la isWrite (p.cpl = 3) with
  | error e =>
    rw [ha] at hphy
    cases hphy
  | ok a =>
    rw [ha] at hphy
    rw [h.place ha]
    by_cases hlast : p.pg ∧ offsetIn la > lastOnPage w
    · have hphy := (if_pos hlast).symm.trans hphy
      refine (if_pos hlast).trans ?_
      cases hb : p.place (la + .ofNat 32 (bytes w - 1)) isWrite (p.cpl = 3) with
      | error e =>
        rw [hb] at hphy
        cases hphy
      | ok b =>
        rw [hb] at hphy
        rw [h.place hb]
        exact hphy
    · exact (if_neg hlast).trans ((if_neg hlast).symm.trans hphy)

theorem usrChk (w : Width) (la : Word) (isWrite : Bool) :
    Serves (p.usrChk (M := M) w la isWrite) (p'.usrChk w la isWrite) := by
  intro m a t ht
  have hlooks := usrChk_looks (p := p) (m := m) w la isWrite
  have hlooks' := usrChk_looks (p := p') (m := m) w la isWrite
  unfold Looks at hlooks hlooks'
  cases hp : p.usrPlace w la isWrite with
  | error e =>
    rw [hlooks, hp] at ht
    cases ht
  | ok b =>
    rw [hp] at hlooks
    rw [h.usrPlace hp] at hlooks'
    rw [hlooks', ← ht, hlooks]

theorem virRead (w : Width) (la phy : Word) : Serves (p.virRead phys w la phy) (p'.virRead phys w la phy) := by
  refine .ite .refl ?_
  cases w with
  | byte => exact h.sprReadByte la
  | word => exact h.sprReadWord la
  | dword => exact h.sprReadDword la

theorem virWrite (w : Width) (la phy : Word) (data : BitVec w.bits) :
    Serves (p.virWrite phys w la phy data) (p'.virWrite phys w la phy data) := by
  refine .ite .refl ?_
  cases w with
  | byte => exact h.sprWriteByte la data
  | word => exact h.sprWriteWord la data
  | dword => exact h.sprWriteDword la data

end Extends

end SoftPC.Ccpu.Paging
