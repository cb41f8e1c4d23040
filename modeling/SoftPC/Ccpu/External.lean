import SoftPC.Ccpu.Tlb

/-!
# Ccpu/External — the translation of the rest of the machine, and the CPU's

`xtrn2phy` walks the directory and the table as `lin2phy` does, but puts their protections together
in its own way: a page is a user's where *either* entry says so, while `lin2phy` takes the numerically
lower of the two — so that both have to.  The two agree except where that shows (`misjudged`), and
where the request asks for the accessed and dirty bits (`marks`).
-/

namespace SoftPC.Ccpu

/-! ## Bits of an entry -/

theorem and_ne_zero_iff (x : Word) (i : ℕ) (hi : i < 32) :
    decide (x &&& BitVec.twoPow 32 i ≠ 0) = x.getLsbD i := by
  rw [BitVec.and_twoPow]
  cases x.getLsbD i
  · simp
  · have hne : BitVec.twoPow 32 i ≠ 0#32 := by
      intro h
      have hbit := congrArg (fun y => BitVec.getLsbD y i) h
      simp [hi] at hbit
    simpa using hne

theorem or_eq_self_iff (x : Word) (i : ℕ) (hi : i < 32) :
    x ||| BitVec.twoPow 32 i = x ↔ x.getLsbD i := by
  constructor
  · intro h
    rw [← h, BitVec.getLsbD_or, BitVec.getLsbD_twoPow]
    simp [hi]
  · intro h
    apply BitVec.eq_of_getLsbD_eq
    intro j _
    rw [BitVec.getLsbD_or, BitVec.getLsbD_twoPow]
    by_cases hij : i = j
    · rw [← hij, h]
      rfl
    · simp [hij]

theorem writable_eq (x : Word) : writable x = x.getLsbD 1 := and_ne_zero_iff x 1 (by decide)
theorem user_eq (x : Word) : user x = x.getLsbD 2 := and_ne_zero_iff x 2 (by decide)
theorem accessed_eq (x : Word) : accessed x = x.getLsbD 5 := and_ne_zero_iff x 5 (by decide)
theorem dirty_eq (x : Word) : dirty x = x.getLsbD 6 := and_ne_zero_iff x 6 (by decide)

theorem accessed_iff (x : Word) : accessed x ↔ x ||| 0x20 = x := by
  rw [accessed_eq]
  exact (or_eq_self_iff x 5 (by decide)).symm

/-- The two bits that `lin2phy` compares. -/
def levelBits (isUser isWritable : Bool) : Word :=
  (if isUser then 4 else 0) ||| if isWritable then 2 else 0

theorem and_six (x : Word) : x &&& 6 = levelBits (user x) (writable x) := by
  have hsix : (6 : Word) = BitVec.twoPow 32 2 ||| BitVec.twoPow 32 1 := by decide
  rw [hsix, BitVec.and_or_distrib_left, BitVec.and_twoPow, BitVec.and_twoPow, user_eq, writable_eq,
    levelBits]
  rfl

/-! ## The two protections -/

/-- Where the two ways to put protections together differ for an access: a user's, to a page that
exactly one of the entries gives to users. -/
def misjudged (pde pte : Word) (access : Access) : Bool :=
  access.getLsbD 1 && (user pde != user pte) && (!access.writes || writable pde && writable pte)

/-- `xtrn2phy` lets through what `lin2phy` does, and what it misjudges. -/
theorem either_fails (pde pte : Word) (access : Access) :
    ∃ fails, accessFails access (Mmu.lower pde pte) = some fails ∧
      accessFails access (Mmu.either pde pte) = some (fails && !misjudged pde pte access) ∧
      (misjudged pde pte access → fails) := by
  have hlower : Mmu.lower pde pte =
      if levelBits (user pde) (writable pde) < levelBits (user pte) (writable pte) then
        protection (user pde) (writable pde) else protection (user pte) (writable pte) := by
    rw [Mmu.lower, and_six, and_six]
  have heither : Mmu.either pde pte =
      protection (user pde || user pte) (writable pde && writable pte) := by
    rw [Mmu.either, user_eq, writable_eq, BitVec.getLsbD_or, BitVec.getLsbD_and, user_eq, user_eq,
      writable_eq, writable_eq]
  rw [hlower, heither, misjudged]
  generalize user pde = u, writable pde = w, user pte = u', writable pte = w'
  revert access u w u' w'
  decide

namespace Mmu

variable {m : Mmu} {lin : Word}

/-- The entries that a walk reads. -/
def pdeOf (m : Mmu) (lin : Word) : Word := m.memory (m.pdeAddr lin)

def pteOf (m : Mmu) (lin : Word) : Word := m.memory (pteAddr (m.pdeOf lin) lin)

/-- No translation of the address for this access is cached. -/
def Uncached (m : Mmu) (lin : Word) (access : Access) : Prop :=
  m.tlb.fastHit lin access = none ∧ m.tlb.intelHit lin access = none

/-- The two translations agree, and `xtrn2phy` changes nothing. -/
def Agrees (m : Mmu) (lin : Word) (request : BitVec 3) : Prop :=
  (∀ address, (m.xtrn2phy lin request).1 = .mapped address ↔
    (m.lin2phy lin (request.setWidth 2)).1 = .physical address) ∧
  (m.xtrn2phy lin request).2 = m

/-- The request asks for bits that the entries do not have yet. -/
def marks (m : Mmu) (lin : Word) (request : BitVec 3) : Bool :=
  request.getLsbD 2 && (!accessed (m.pdeOf lin) || !accessed (m.pteOf lin) ||
    Access.writes (request.setWidth 2) && !dirty (m.pteOf lin))

/-- Where it does not agree: both entries are present, and the access is misjudged, or granted and
to be marked. -/
def Departs (m : Mmu) (lin : Word) (request : BitVec 3) : Prop :=
  present (m.pdeOf lin) ∧ present (m.pteOf lin) ∧
    (misjudged (m.pdeOf lin) (m.pteOf lin) (request.setWidth 2) ∨
      accessFails (request.setWidth 2) (lower (m.pdeOf lin) (m.pteOf lin)) = some false ∧
        m.marks lin request)

/-- Marking an entry that lacks a bit changes memory. -/
theorem markEntries_ne {pdeAddr pteAddr : Word} {isWrite : Bool}
    (h : !accessed (m.memory pdeAddr) || !accessed (m.memory pteAddr) ||
      isWrite && !dirty (m.memory pteAddr)) :
    m.markEntries pdeAddr (m.memory pdeAddr) pteAddr (m.memory pteAddr) isWrite ≠ m := by
  intro heq
  have hmemory := congrArg Mmu.memory heq
  simp only [markEntries] at hmemory
  by_cases hpde : accessed (m.memory pdeAddr)
  · -- The directory entry stays as it is, so the table entry changes.
    rw [if_neg (not_not.mpr ((accessed_iff _).mp hpde))] at hmemory
    have hpte : m.memory pteAddr ||| 0x20 ||| (if isWrite then 0x40 else 0) ≠ m.memory pteAddr := by
      intro h'
      have haccessed : accessed (m.memory pteAddr) := by
        rw [accessed_eq, ← h']
        simp
      have hdirty : isWrite → dirty (m.memory pteAddr) := by
        intro hwrite
        rw [dirty_eq, ← h', hwrite]
        simp
      cases isWrite
      · simp [hpde, haccessed] at h
      · simp [hpde, haccessed, hdirty rfl] at h
    rw [if_pos hpte] at hmemory
    have := congrFun hmemory pteAddr
    rw [Function.update_self] at this
    exact hpte this
  · have hne : m.memory pdeAddr ||| 0x20 ≠ m.memory pdeAddr := fun h' =>
      hpde ((accessed_iff _).mpr h')
    rw [if_pos hne] at hmemory
    have := congrFun hmemory pdeAddr
    rw [Function.update_self] at this
    exact hne this

/-- Without a cached translation, the two translations agree exactly where neither shows. -/
theorem agrees_iff_not_departs {request : BitVec 3} (h : m.Uncached lin (request.setWidth 2)) :
    m.Agrees lin request ↔ ¬m.Departs lin request := by
  obtain ⟨hfast, hintel⟩ := h
  unfold Agrees Departs marks pteOf pdeOf xtrn2phy lin2phy walk
  simp only [hfast, hintel]
  by_cases hpde : present (m.memory (m.pdeAddr lin))
  swap
  · simp [hpde, fault]
  by_cases hpte : present (m.memory (pteAddr (m.memory (m.pdeAddr lin)) lin))
  swap
  · simp [hpde, hpte, fault]
  obtain ⟨fails, hlower, heither, hmis⟩ := either_fails (m.memory (m.pdeAddr lin))
    (m.memory (pteAddr (m.memory (m.pdeAddr lin)) lin)) (request.setWidth 2)
  simp only [hpde, hpte, hlower, heither]
  cases hmisjudged : misjudged (m.memory (m.pdeAddr lin))
    (m.memory (pteAddr (m.memory (m.pdeAddr lin)) lin)) (request.setWidth 2)
  · cases fails
    · -- Both complete, with the same address; memory changes where a bit is missing.
      by_cases hmarks : m.marks lin request
      · have hne := @markEntries_ne m (m.pdeAddr lin) (pteAddr (m.memory (m.pdeAddr lin)) lin)
          (Access.writes (request.setWidth 2)) (Bool.and_eq_true_iff.mp hmarks).2
        simp only [marks, pdeOf, pteOf] at hmarks
        simp only [hmarks]
        simp [hne]
      · simp only [marks, pdeOf, pteOf, Bool.not_eq_true] at hmarks
        simp only [hmarks]
        simp
    · simp [fault]
  · -- `lin2phy` faults, `xtrn2phy` does not.
    obtain rfl : fails = true := hmis hmisjudged
    simp [fault]

/-- A user's read of a page that only the directory gives to users: `xtrn2phy` maps it, `lin2phy`
faults. -/
theorem supervisor_page_read_by_user :
    ¬∀ (m : Mmu) (lin : Word) (access : Access),
      m.Uncached lin access → m.Agrees lin (access.setWidth 3) := by
  intro h
  let memory : Word → Word := fun address => if address = 0 then 0x1007 else 0x2003
  have hagrees := (h ⟨{}, memory, 0, 0, 0, 0⟩ 0 2 ⟨by decide, by decide⟩).1 0x2000
  exact absurd (hagrees.mp (by decide)) (by decide)

/-- A supervisor's write, whatever the entries' levels. -/
theorem agrees_for_supervisor :
    let m : Mmu := ⟨{}, fun address => if address = 0 then 0x1001 else 0x2007, 0, 0, 0, 0⟩
    m.Uncached 0 1 ∧ m.Agrees 0 1 := by
  intro m
  have huncached : m.Uncached 0 1 := ⟨by decide, by decide⟩
  refine ⟨huncached, (agrees_iff_not_departs huncached).mpr ?_⟩
  rintro ⟨-, -, hmis | ⟨-, hmarks⟩⟩
  · exact absurd hmis (by decide)
  · exact absurd hmarks (by decide)

end Mmu

end SoftPC.Ccpu
