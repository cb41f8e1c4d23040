import SoftPC.Ccpu.Tlb
import Mathlib.Data.List.Induction

/-!
# Ccpu/FastTlb — the fast table agrees with the Intel one

Every change of an entry goes through `Tlb.replace`, which takes the old page out of the index, and
a new mapping through `Tlb.enter`, which sets all four addresses of its place.  So a page that the
index marks is held where it says, and an address there is what the entry grants (`Tlb.Inv`).

A page may well be held by several sets: a write to a page whose entry is not dirty is a miss, and
"for either case a new cache entry is created".
-/

namespace SoftPC.Ccpu

/-! ## Words -/

/-- The first address of a page. -/
def baseOf (page : BitVec 20) : Word := page.setWidth 32 <<< 12

theorem pageOf_baseOf (page : BitVec 20) : pageOf (baseOf page) = page := by
  ext i hi
  simp [pageOf, baseOf, hi, show 12 + i < 32 by omega, show i < 32 by omega]

theorem getLsbD_frameOf (lin : Word) {i : ℕ} (hi : i < 32) :
    (frameOf lin).getLsbD i = (decide (12 ≤ i) && lin.getLsbD i) := by
  have hmask : (0xfffff000 : Word) = BitVec.allOnes 32 <<< 12 := by decide
  rw [frameOf, hmask, BitVec.getLsbD_and, BitVec.getLsbD_shiftLeft, BitVec.getLsbD_allOnes]
  rcases Nat.lt_or_ge i 12 with h | h
  · simp [h, hi]
  · simp [h, hi, show i - 12 < 32 by omega, show ¬i < 12 by omega]

theorem baseOf_pageOf (lin : Word) : baseOf (pageOf lin) = frameOf lin := by
  ext i hi
  rw [← BitVec.getLsbD_eq_getElem, ← BitVec.getLsbD_eq_getElem, getLsbD_frameOf lin hi]
  rcases Nat.lt_or_ge i 12 with h | h
  · simp [pageOf, baseOf, hi, h]
  · simp [pageOf, baseOf, hi, h, show ¬i < 12 by omega, show i - 12 < 20 by omega,
      show i - 12 < 32 by omega, show 12 + (i - 12) = i by omega]

@[simp] theorem frameOf_frameOf (lin : Word) : frameOf (frameOf lin) = frameOf lin := by
  rw [frameOf, frameOf, BitVec.and_assoc, BitVec.and_self]

@[simp] theorem entryOf_frameOf (lin : Word) : entryOf (frameOf lin) = entryOf lin := by
  ext i hi
  simp [entryOf, hi, ← BitVec.getLsbD_eq_getElem, getLsbD_frameOf lin (show 12 + i < 32 by omega)]

/-- The set that an index names. -/
def setOf (pi : BitVec 8) : BitVec 2 := (pi >>> 5).setWidth 2

/-- The entry that an index names. -/
def wayOf (pi : BitVec 8) : BitVec 3 := (pi >>> 2).setWidth 3

theorem named_indexOf : ∀ (set : BitVec 2) (entry : BitVec 3),
    setOf (0x80 ||| indexOf set entry) = set ∧ wayOf (0x80 ||| indexOf set entry) = entry := by
  decide

/-- The access is in the low bits, the place above it. -/
theorem addressSlot_eq_or (pi : BitVec 8) (access : Access) :
    addressSlot pi access = (pi &&& 0x7c).setWidth 7 ||| access.setWidth 7 := by
  refine BitVec.add_eq_or_of_and_eq_zero _ _ (BitVec.eq_of_getLsbD_eq fun i hi => ?_)
  have hlow : ∀ i < 2, (0x7c#8).getLsbD i = false := by decide
  simp only [BitVec.getLsbD_and, BitVec.getLsbD_setWidth, BitVec.getLsbD_zero]
  rcases Nat.lt_or_ge i 2 with h | h
  · simp [hlow i h]
  · simp [BitVec.getLsbD_of_ge access i h]

/-- Every place has four addresses of its own. -/
theorem addressSlot_inj {pi pi' : BitVec 8} {access access' : Access}
    (h : addressSlot pi access = addressSlot pi' access') :
    setOf pi = setOf pi' ∧ wayOf pi = wayOf pi' ∧ access = access' := by
  have hset (pi : BitVec 8) (access : Access) : (addressSlot pi access >>> 5).setWidth 2 = setOf pi := by
    have hmask : ∀ i < 2, (124#7).getLsbD (5 + i) = true := by decide
    ext i hi
    simp [addressSlot_eq_or, setOf, hmask i hi, BitVec.getLsbD_of_ge access (5 + i) (by omega)]
    omega
  have hway (pi : BitVec 8) (access : Access) : (addressSlot pi access >>> 2).setWidth 3 = wayOf pi := by
    have hmask : ∀ i < 3, (124#7).getLsbD (2 + i) = true := by decide
    ext i hi
    simp [addressSlot_eq_or, wayOf, hmask i hi]
    omega
  have haccess (pi : BitVec 8) (access : Access) : (addressSlot pi access).setWidth 2 = access := by
    ext i hi
    simp [addressSlot_eq_or]
  exact ⟨by rw [← hset pi access, ← hset pi' access', h], by rw [← hway pi access, ← hway pi' access', h],
    by rw [← haccess pi access, ← haccess pi' access', h]⟩

theorem addressSlot_valid (set : BitVec 2) (entry : BitVec 3) (access : Access) :
    addressSlot (0x80 ||| indexOf set entry) access = addressSlot (indexOf set entry) access := by
  ext i hi
  simp [addressSlot, indexOf]

/-! ## The invariant -/

namespace Tlb

variable {tlb : Tlb} {set : BitVec 2} {entry : BitVec 3} {e : TlbEntry}

/-- An entry sits where its page belongs. -/
def Placed (entry : BitVec 3) (e : TlbEntry) : Prop :=
  e.v → entryOf e.la = entry ∧ frameOf e.la = e.la

/-- The entry that the index names for a page. -/
def named (tlb : Tlb) (page : BitVec 20) : TlbEntry :=
  tlb.entries (setOf (tlb.pageIndex page)) (wayOf (tlb.pageIndex page))

/-- An address of the fast table is one that the entry grants. -/
def Granted (e : TlbEntry) (access : Access) (ma : Word) : Prop :=
  ma ≠ 0 → ma = e.pa ∧ accessFails access e.mode = some false ∧ (access.writes → e.d)

structure Inv (tlb : Tlb) : Prop where
  placed : ∀ set entry, Placed entry (tlb.entries set entry)
  held : ∀ page, tlb.pageIndex page ≠ 0 →
    (tlb.named page).v ∧ (tlb.named page).la = baseOf page ∧
    ∀ access, Granted (tlb.named page) access
      (tlb.pageAddress (addressSlot (tlb.pageIndex page) access))

theorem Inv.empty : Inv {} := ⟨fun _ _ => nofun, fun _ h => absurd rfl h⟩

theorem Inv.advance (h : Inv tlb) (entry : BitVec 3) : Inv (tlb.advance entry) :=
  ⟨h.placed, h.held⟩

theorem replace_entries_self (tlb : Tlb) (set : BitVec 2) (entry : BitVec 3) (e : TlbEntry) :
    (tlb.replace set entry e).entries set entry = e := by
  simp [replace]

theorem replace_entries_of_ne {set' : BitVec 2} {entry' : BitVec 3}
    (h : ¬(set' = set ∧ entry' = entry)) :
    (tlb.replace set entry e).entries set' entry' = tlb.entries set' entry' := by
  by_cases hset : set' = set
  · have hentry : entry' ≠ entry := fun hentry => h ⟨hset, hentry⟩
    simp [replace, hset, hentry]
  · simp [replace, hset]

/-- The old page is out of the index, and every other page as it was. -/
theorem replace_pageIndex {page : BitVec 20} (h : (tlb.replace set entry e).pageIndex page ≠ 0) :
    (tlb.replace set entry e).pageIndex page = tlb.pageIndex page ∧
      ((tlb.entries set entry).v → page ≠ pageOf (tlb.entries set entry).la) := by
  simp only [replace] at h ⊢
  split at h
  · rename_i hv
    by_cases hpage : page = pageOf (tlb.entries set entry).la
    · rw [hpage, Function.update_self] at h
      exact absurd rfl h
    · rw [if_pos hv, Function.update_of_ne hpage]
      exact ⟨rfl, fun _ => hpage⟩
  · rename_i hv
    rw [if_neg hv]
    exact ⟨rfl, fun hv' => absurd hv' hv⟩

/-- No page is marked in a place. -/
def Unnamed (tlb : Tlb) (set : BitVec 2) (entry : BitVec 3) : Prop :=
  ∀ page, tlb.pageIndex page ≠ 0 →
    ¬(setOf (tlb.pageIndex page) = set ∧ wayOf (tlb.pageIndex page) = entry)

/-- A page that is marked is held where the index says. -/
def Held (tlb : Tlb) : Prop :=
  ∀ page, tlb.pageIndex page ≠ 0 → (tlb.named page).v ∧ (tlb.named page).la = baseOf page

theorem Inv.isHeld (h : Inv tlb) : Held tlb := fun page hpage =>
  ⟨(h.held page hpage).1, (h.held page hpage).2.1⟩

/-- After an entry is replaced, no page is marked there any more. -/
theorem Held.unnamed_replace (h : Held tlb) : (tlb.replace set entry e).Unnamed set entry := by
  rintro page hpage ⟨hset, hentry⟩
  obtain ⟨heq, hout⟩ := replace_pageIndex hpage
  obtain ⟨hv, hla⟩ := h page (heq ▸ hpage)
  rw [heq] at hset hentry
  rw [named, hset, hentry] at hv hla
  refine hout hv ?_
  rw [hla, pageOf_baseOf]

theorem Held.named_replace (h : Held tlb) {page : BitVec 20}
    (hpage : (tlb.replace set entry e).pageIndex page ≠ 0) :
    (tlb.replace set entry e).named page = tlb.named page := by
  obtain ⟨heq, -⟩ := replace_pageIndex hpage
  rw [named, replace_entries_of_ne (h.unnamed_replace page hpage), heq, named]

theorem Held.replace (h : Held tlb) (set : BitVec 2) (entry : BitVec 3) (e : TlbEntry) :
    Held (tlb.replace set entry e) := by
  intro page hpage
  rw [h.named_replace hpage]
  exact h page ((replace_pageIndex hpage).1 ▸ hpage)

/-- **Replacing an entry** keeps the invariant. -/
theorem Inv.replace (h : Inv tlb) (hplaced : Placed entry e) : Inv (tlb.replace set entry e) := by
  refine ⟨fun set' entry' => ?_, fun page hpage => ?_⟩
  · by_cases hplace : set' = set ∧ entry' = entry
    · rw [hplace.1, hplace.2, replace_entries_self]
      exact hplaced
    · rw [replace_entries_of_ne hplace]
      exact h.placed set' entry'
  · obtain ⟨heq, -⟩ := replace_pageIndex hpage
    rw [h.isHeld.named_replace hpage, heq]
    exact h.held page (heq ▸ hpage)

theorem Inv.flush (h : Inv tlb) : Inv tlb.flush := by
  unfold Tlb.flush
  generalize places = places
  induction places generalizing tlb with
  | nil => exact h
  | cons place rest ih => exact ih (h.replace fun hv => absurd hv Bool.false_ne_true)

theorem access_cases (access : Access) : access = 0 ∨ access = 1 ∨ access = 2 ∨ access = 3 := by
  revert access
  decide

/-- What is granted, the matrix grants; and no write without the dirty bit. -/
theorem grants_sound : ∀ (access : Access) (isUser isWritable d : Bool),
    grants (protection isUser isWritable) d access →
      accessFails access (protection isUser isWritable) = some false ∧ (access.writes → d) := by
  decide

theorem enter_pageAddress (tlb : Tlb) (set : BitVec 2) (entry : BitVec 3) (e : TlbEntry)
    (access : Access) :
    (tlb.enter set entry e).pageAddress (addressSlot (indexOf set entry) access) =
      if grants e.mode e.d access then e.pa else 0 := by
  have hne {access access' : Access} (h : access ≠ access') :
      addressSlot (indexOf set entry) access ≠ addressSlot (indexOf set entry) access' :=
    fun heq => h (addressSlot_inj heq).2.2
  unfold enter
  simp only [List.foldl_cons, List.foldl_nil]
  rcases access_cases access with rfl | rfl | rfl | rfl
  · rw [Function.update_of_ne (hne (by decide)), Function.update_of_ne (hne (by decide)),
      Function.update_of_ne (hne (by decide)), Function.update_self]
  · rw [Function.update_of_ne (hne (by decide)), Function.update_of_ne (hne (by decide)),
      Function.update_self]
  · rw [Function.update_of_ne (hne (by decide)), Function.update_self]
  · rw [Function.update_self]

theorem enter_pageAddress_of_ne {slot : BitVec 7}
    (h : ∀ access, slot ≠ addressSlot (indexOf set entry) access) :
    (tlb.enter set entry e).pageAddress slot = tlb.pageAddress slot := by
  unfold enter
  simp only [List.foldl_cons, List.foldl_nil, Function.update_of_ne (h _)]

/-- The page of a new mapping is marked in its place, and every other page as it was. -/
theorem enter_self (tlb : Tlb) (set : BitVec 2) (entry : BitVec 3) (e : TlbEntry) :
    (tlb.enter set entry e).pageIndex (pageOf e.la) = 0x80 ||| indexOf set entry ∧
      (tlb.enter set entry e).named (pageOf e.la) = tlb.entries set entry := by
  have hindex : (tlb.enter set entry e).pageIndex (pageOf e.la) = 0x80 ||| indexOf set entry :=
    Function.update_self _ _ _
  obtain ⟨hset, hway⟩ := named_indexOf set entry
  refine ⟨hindex, ?_⟩
  rw [named, hindex, hset, hway]
  rfl

theorem enter_of_ne {page : BitVec 20} (h : page ≠ pageOf e.la) :
    (tlb.enter set entry e).pageIndex page = tlb.pageIndex page ∧
      (tlb.enter set entry e).named page = tlb.named page := by
  have hindex : (tlb.enter set entry e).pageIndex page = tlb.pageIndex page :=
    Function.update_of_ne h _ _
  refine ⟨hindex, ?_⟩
  rw [named, hindex]
  rfl

theorem Held.enter (h : Held tlb) (hentry : tlb.entries set entry = e) (hv : e.v)
    (hframe : frameOf e.la = e.la) : Held (tlb.enter set entry e) := by
  intro page hpage
  by_cases hself : page = pageOf e.la
  · rw [hself, (enter_self tlb set entry e).2, hentry]
    exact ⟨hv, by rw [baseOf_pageOf, hframe]⟩
  · obtain ⟨hindex, hnamed⟩ := enter_of_ne hself
    rw [hindex] at hpage
    rw [hnamed]
    exact h page hpage

/-- **Entering a mapping** for an entry that has just been put in its place. -/
theorem Inv.enter (h : Inv tlb) (hentry : tlb.entries set entry = e) (hv : e.v)
    (hframe : frameOf e.la = e.la) {isUser isWritable : Bool}
    (hmode : e.mode = protection isUser isWritable) (haway : tlb.Unnamed set entry) :
    Inv (tlb.enter set entry e) := by
  refine ⟨h.placed, fun page hpage => ?_⟩
  by_cases hself : page = pageOf e.la
  · obtain ⟨hindex, hnamed⟩ := enter_self tlb set entry e
    rw [hself, hnamed, hindex, hentry]
    refine ⟨hv, ?_, fun access hma => ?_⟩
    · rw [baseOf_pageOf, hframe]
    · rw [addressSlot_valid, enter_pageAddress] at hma ⊢
      split at hma
      · rename_i hgrants
        rw [hmode] at hgrants ⊢
        rw [if_pos hgrants]
        exact ⟨rfl, grants_sound _ _ _ _ hgrants⟩
      · exact absurd rfl hma
  · -- Another page, held in another place.
    obtain ⟨hindex, hnamed⟩ := enter_of_ne hself
    rw [hindex] at hpage
    rw [hnamed, hindex]
    obtain ⟨hheld, hla, hgranted⟩ := h.held page hpage
    refine ⟨hheld, hla, fun access => ?_⟩
    rw [enter_pageAddress_of_ne]
    · exact hgranted access
    · intro access' heq
      rw [← addressSlot_valid] at heq
      obtain ⟨hset, hway, -⟩ := addressSlot_inj heq
      obtain ⟨hset', hway'⟩ := named_indexOf set entry
      exact haway page hpage ⟨hset.trans hset', hway.trans hway'⟩

/-- **A new entry** takes its place, and its mapping is entered. -/
theorem Inv.allocate (h : Inv tlb) (set : BitVec 2) {lin : Word} (hla : e.la = frameOf lin)
    (hv : e.v) {isUser isWritable : Bool} (hmode : e.mode = protection isUser isWritable) :
    Inv ((tlb.replace set (entryOf lin) e).enter set (entryOf lin) e) := by
  have hframe : frameOf e.la = e.la := by rw [hla, frameOf_frameOf]
  have hplaced : Placed (entryOf lin) e := fun _ => ⟨by rw [hla, entryOf_frameOf], hframe⟩
  exact (h.replace hplaced).enter (replace_entries_self ..) hv hframe hmode h.isHeld.unnamed_replace

end Tlb

/-! ## Runs -/

namespace Mmu

variable {m : Mmu}

/-- What happens to the buffer next. -/
inductive Event where
  | lin2phy (lin : Word) (access : Access)
  | flushTlb
  /-- A move to the test command register, with what the registers hold. -/
  | testTlb (tcr tdr : Word)
  /-- The machine changes memory and the page directory base. -/
  | other (memory : Word → Word) (pdbr : Word)

def step (m : Mmu) : Event → Mmu
  | .lin2phy lin access => (m.lin2phy lin access).2
  | .flushTlb => m.flushTlb
  | .testTlb tcr tdr => { m with tcr, tdr }.testTlb
  | .other memory pdbr => { m with memory, pdbr }

def run (m : Mmu) (events : List Event) : Mmu := events.foldl step m

/-- The reset state, whatever memory holds. -/
def reset (memory : Word → Word) : Mmu := ⟨{}, memory, 0, 0, 0, 0⟩

theorem lower_protection (pde pte : Word) :
    ∃ isUser isWritable, lower pde pte = protection isUser isWritable := by
  unfold lower
  split
  · exact ⟨_, _, rfl⟩
  · exact ⟨_, _, rfl⟩

/-- A walk leaves the buffer alone, or puts the page in. -/
theorem walk_inv (h : m.tlb.Inv) (lin : Word) (access : Access) : (m.walk lin access).2.tlb.Inv := by
  unfold walk
  dsimp only
  split
  · exact h
  · split
    · exact h
    · split
      · exact h
      · exact h
      · obtain ⟨isUser, isWritable, hmode⟩ :=
          lower_protection (m.memory (m.pdeAddr lin))
            (m.memory (pteAddr (m.memory (m.pdeAddr lin)) lin))
        exact (h.advance (entryOf lin)).allocate _ rfl rfl hmode

/-- **Step.** -/
theorem step_inv (h : m.tlb.Inv) (event : Event) : (m.step event).tlb.Inv := by
  cases event with
  | lin2phy lin access =>
    unfold step lin2phy
    dsimp only
    split
    · exact h
    · split
      · split
        · exact h
        · exact h
        · exact h
      · exact walk_inv h lin access
  | flushTlb => exact h.flush
  | testTlb tcr tdr =>
    unfold step testTlb
    dsimp only
    split
    · split
      · exact h
      · exact h
    · have hplaced : Tlb.Placed (entryOf tcr) ⟨frameOf tcr, frameOf tdr, tcr.getLsbD 11,
          tcr.getLsbD 10, protection (tcr.getLsbD 8) (tcr.getLsbD 6)⟩ :=
        fun _ => ⟨entryOf_frameOf tcr, frameOf_frameOf tcr⟩
      split
      · exact h.replace hplaced
      · exact (h.advance _).replace hplaced
  | other memory pdbr => exact h

/-- **Run.** -/
theorem run_inv (memory : Word → Word) (events : List Event) :
    ((reset memory).run events).tlb.Inv := by
  induction events using List.reverseRecOn with
  | nil => exact .empty
  | append_singleton events event ih =>
    rw [run, List.foldl_append]
    exact step_inv ih event

/-- In every run from the reset state: a page that the index marks is held by a valid entry of
exactly that page, in the set and the entry that the index names, and no entry of another number
holds it; and an address of the fast table for that page and an access is the entry's page, the
access is one that the entry's protection permits, and for a write the entry is dirty. -/
theorem fast_table_agrees (memory : Word → Word) (events : List Event) (page : BitVec 20) :
    let tlb := ((reset memory).run events).tlb
    tlb.pageIndex page ≠ 0 →
    ((tlb.named page).v ∧ (tlb.named page).la = baseOf page ∧
      ∀ set entry, (tlb.entries set entry).v → (tlb.entries set entry).la = baseOf page →
        entry = wayOf (tlb.pageIndex page)) ∧
    ∀ (lin : Word) (access : Access) (ma : Word), pageOf lin = page →
      tlb.fastHit lin access = some ma →
      ma = (tlb.named page).pa ∧ accessFails access (tlb.named page).mode = some false ∧
        (access.writes → (tlb.named page).d) := by
  intro tlb hpage
  have h : tlb.Inv := run_inv memory events
  obtain ⟨hv, hla, hgranted⟩ := h.held page hpage
  refine ⟨⟨hv, hla, fun set entry hv' hla' => ?_⟩, fun lin access ma hlin hhit => ?_⟩
  · have hplace := (h.placed _ _ hv).1
    have hplace' := (h.placed set entry hv').1
    rw [hla'] at hplace'
    rw [← hplace']
    exact hplace ▸ congrArg entryOf hla.symm
  · subst hlin
    simp only [Tlb.fastHit] at hhit
    rw [if_pos hpage] at hhit
    split at hhit
    · rename_i hma
      rw [← Option.some.inj hhit]
      exact hgranted access hma
    · cases hhit

/-- A page read, through entries of directory and table that grant everything. -/
theorem fast_table_agrees_read :
    let tlb := ((reset fun _ => 0x1007).run [.lin2phy 0x2345 0]).tlb
    tlb.pageIndex 2 ≠ 0 ∧ (tlb.named 2).v ∧ (tlb.named 2).la = baseOf 2 := by
  have hpage : ((reset fun _ => 0x1007).run [.lin2phy 0x2345 0]).tlb.pageIndex 2 ≠ 0 := by decide
  obtain ⟨⟨hv, hla, -⟩, -⟩ := fast_table_agrees (fun _ => 0x1007) [.lin2phy 0x2345 0] 2 hpage
  exact ⟨hpage, hv, hla⟩

/-- The page read, then written: two sets hold it. -/
theorem read_then_write_held_twice :
    ¬∀ (memory : Word → Word) (events : List Event) (page : BitVec 20),
      ((reset memory).run events).tlb.pageIndex page ≠ 0 →
      ∀ set entry, (((reset memory).run events).tlb.entries set entry).v →
        (((reset memory).run events).tlb.entries set entry).la = baseOf page →
        set = setOf (((reset memory).run events).tlb.pageIndex page) ∧
          entry = wayOf (((reset memory).run events).tlb.pageIndex page) := by
  intro h
  have hfirst := h (fun _ => 0x1007) [.lin2phy 0x2345 0, .lin2phy 0x2345 1] 2 (by decide) 0 2
    (by decide) (by decide)
  exact absurd hfirst (by decide)

end Mmu

end SoftPC.Ccpu
