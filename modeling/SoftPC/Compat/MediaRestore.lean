import SoftPC.Compat.MediaSnapshot

/-!
# Compat/MediaRestore — media survive a snapshot

A capture is its arrays: the digest of the base (`digestOf`) and the blocks that differ from it
(`diffPages`).  Applied to the base again they give back what the medium showed (`patchPages_diff`), so
that media captured, archived, prepared and restored show every byte they showed.  A base of another
length or digest stops `prepare`, which touches no drive, and after it `restore` refuses.
-/

namespace SoftPC.Snapshot

open Storage Overlay Decoder

/-! ## What a medium shows -/

/-- Only an overlay has pages. -/
def Plain (m : Medium) : Prop := m.mode ≠ .overlay → m.pages = fun _ => none

variable {m base source : Medium} {faults : Faults} {offset count size : ℕ} {bytes : List UInt8}

theorem Plain.byte_eq (h : Plain m) (hmode : m.mode ≠ .overlay) : m.byte = m.base := by
  funext i
  exact view_of_base (by rw [h hmode])

theorem readAt_ok (hplain : Plain m) (h : m.readAt faults offset count = .ok bytes) :
    bytes = slice m.byte offset count := by
  unfold Medium.readAt at h
  split at h
  · cases h
  · split at h
    · rename_i hmode
      rw [hplain.byte_eq hmode]
      exact Medium.readBase_ok h
    · exact Medium.readPages_ok h

theorem readAt_none (hplain : Plain m) (h : offset + count ≤ m.byteCount) :
    m.readAt .none offset count = .ok (slice m.byte offset count) := by
  have hsome : ∃ bytes, m.readAt .none offset count = .ok bytes := by
    unfold Medium.readAt
    rw [if_neg (by simpa using Medium.range_iff.mpr h)]
    split
    · exact ⟨_, Medium.readBase_none h⟩
    · exact Medium.readPages_none h
  obtain ⟨bytes, hbytes⟩ := hsome
  rw [hbytes, readAt_ok hplain hbytes]

/-! ## The digest of an array -/

/-- The hash of the blocks of an array. -/
def hashArray (array : ℕ → UInt8) (size offset : ℕ) (hash : MediaHash) : MediaHash :=
  if _h : offset < size then
    let count := min (size - offset) mediaBlockBytes
    hashArray array size (offset + count) (hashAdd hash (slice array offset count))
  else hash
termination_by size - offset
decreasing_by
  have : 0 < mediaBlockBytes := by decide
  omega

/-- The digest of the first `size` bytes. -/
def digestOf (array : ℕ → UInt8) (size : ℕ) : List UInt8 := hashEnd (hashArray array size 0 hashBegin)

theorem hashBlocks_ok {hash hash' : MediaHash} (hplain : Plain base)
    (h : hashBlocks base faults size offset hash = .ok hash') :
    hash' = hashArray base.byte size offset hash := by
  fun_induction hashBlocks base faults size offset hash with
  | case1 => cases h
  | case2 offset hash hlt count bytes hread ih =>
    rw [hashArray, dif_pos hlt, ih h, readAt_ok hplain hread]
  | case3 offset hash hge =>
    rw [hashArray, dif_neg hge, Except.ok.inj h]

theorem hashBlocks_none (hplain : Plain base) (hsize : size ≤ base.byteCount) (offset : ℕ)
    (hash : MediaHash) : ∃ hash', hashBlocks base .none size offset hash = .ok hash' := by
  fun_induction hashBlocks base .none size offset hash with
  | case1 offset hash hlt count status hread =>
    rw [readAt_none hplain (by omega)] at hread
    cases hread
  | case2 offset hash hlt count bytes hread ih => exact ih
  | case3 offset hash hge => exact ⟨hash, rfl⟩

theorem hashBlocks_error {hash : MediaHash} {status : Status}
    (h : hashBlocks base faults size offset hash = .error status) : status ≠ .ok := by
  fun_induction hashBlocks base faults size offset hash with
  | case1 offset hash hlt count status' hread =>
    rw [← Except.error.inj h]
    exact Medium.readAt_error hread
  | case2 offset hash hlt count bytes hread ih => exact ih h
  | case3 offset hash hge => cases h

/-- A base that is verified has the size and digest of the slot. -/
theorem verifyBase_ok {slot : MediaSlot} (hplain : Plain base)
    (h : verifyBase slot base faults = .ok) :
    base.byteCount = slot.size.toNat ∧ digestOf base.byte slot.size.toNat = slot.digest := by
  unfold verifyBase at h
  split at h
  · cases h
  · rename_i hsize
    split at h
    · rename_i hblocks
      exact absurd h (hashBlocks_error hblocks)
    · rename_i hash hblocks
      split at h
      · rename_i hdigest
        rw [hashBlocks_ok hplain hblocks] at hdigest
        exact ⟨not_not.mp hsize, hdigest⟩
      · cases h

theorem verifyBase_none {slot : MediaSlot} (hplain : Plain base)
    (hsize : base.byteCount = slot.size.toNat)
    (hdigest : digestOf base.byte slot.size.toNat = slot.digest) :
    verifyBase slot base .none = .ok := by
  obtain ⟨hash, hhash⟩ := hashBlocks_none hplain hsize.ge 0 hashBegin
  have hend : hashEnd hash = slot.digest := by
    rw [hashBlocks_ok hplain hhash]
    exact hdigest
  rw [verifyBase, if_neg (not_not.mpr hsize), hhash]
  exact if_pos hend

/-! ## The blocks that differ -/

/-- The blocks of an array that differ from a base. -/
def diffPages (base array : ℕ → UInt8) (size offset : ℕ) : List MediaPage :=
  if _h : offset < size then
    let count := min (size - offset) mediaBlockBytes
    let rest := diffPages base array size (offset + count)
    if slice base offset count = slice array offset count then rest
    else ⟨.ofNat 64 offset, .ofNat 32 count, slice array offset count⟩ :: rest
  else []
termination_by size - offset
decreasing_by
  have : 0 < mediaBlockBytes := by decide
  omega

theorem diffPages_of_eq {base array : ℕ → UInt8} (hlt : offset < size)
    (h : slice base offset (min (size - offset) mediaBlockBytes) =
      slice array offset (min (size - offset) mediaBlockBytes)) :
    diffPages base array size offset =
      diffPages base array size (offset + min (size - offset) mediaBlockBytes) := by
  rw [diffPages, dif_pos hlt]
  exact if_pos h

theorem diffPages_of_ne {base array : ℕ → UInt8} (hlt : offset < size)
    (h : slice base offset (min (size - offset) mediaBlockBytes) ≠
      slice array offset (min (size - offset) mediaBlockBytes)) :
    diffPages base array size offset =
      ⟨.ofNat 64 offset, .ofNat 32 (min (size - offset) mediaBlockBytes),
        slice array offset (min (size - offset) mediaBlockBytes)⟩ ::
        diffPages base array size (offset + min (size - offset) mediaBlockBytes) := by
  rw [diffPages, dif_pos hlt]
  exact if_neg h

theorem diffPages_of_ge {base array : ℕ → UInt8} (hge : ¬offset < size) :
    diffPages base array size offset = [] := by
  rw [diffPages, dif_neg hge]

/-- An array with pages stored in it. -/
def patchPages (array : ℕ → UInt8) (pages : List MediaPage) : ℕ → UInt8 :=
  pages.foldl (fun array page => patch array page.offset.toNat page.bytes) array

theorem patch_slice (array array' : ℕ → UInt8) {offset count i : ℕ} (h : offset ≤ i)
    (hi : i < offset + count) : patch array offset (slice array' offset count) i = array' i := by
  have hindex : i - offset < count := by omega
  rw [patch, if_pos h, slice, List.getElem?_map, List.getElem?_range hindex, Option.map_some,
    Option.getD_some, Nat.add_sub_cancel' h]

theorem slice_eq {array array' : ℕ → UInt8} {offset count i : ℕ}
    (h : slice array offset count = slice array' offset count) (hi : offset ≤ i)
    (hi' : i < offset + count) : array i = array' i := by
  have := patch_slice array array hi hi'
  rw [← this, h, patch_slice array array' hi hi']

/-- **Blocks applied to the base** give back the array. -/
theorem patchPages_diff {base array start : ℕ → UInt8} (hsize : size < 2 ^ 64)
    (hstart : ∀ i, offset ≤ i → i < size → start i = base i) :
    (∀ i < offset, patchPages start (diffPages base array size offset) i = start i) ∧
      ∀ i, offset ≤ i → i < size → patchPages start (diffPages base array size offset) i = array i := by
  have hpos : 0 < mediaBlockBytes := by decide
  fun_induction diffPages base array size offset generalizing start with
  | case1 offset hlt count rest heq =>
    rename_i ih
    obtain ⟨hbefore, hfrom⟩ := ih fun i hi hi' => hstart i (by omega) hi'
    refine ⟨fun i hi => hbefore i (by omega), fun i hi hi' => ?_⟩
    rcases Nat.lt_or_ge i (offset + count) with hin | hpast
    · rw [hbefore i hin, hstart i hi hi']
      exact slice_eq heq hi hin
    · exact hfrom i hpast hi'
  | case2 offset hlt count rest hne =>
    rename_i ih
    have hoffset : (BitVec.ofNat 64 offset).toNat = offset := by
      rw [BitVec.toNat_ofNat, Nat.mod_eq_of_lt (by omega)]
    have hlength : (slice array offset count).length = count := slice_length _ _ _
    have hpast' : ∀ i, offset + count ≤ i → i < size →
        patch start offset (slice array offset count) i = base i := fun i hi hi' => by
      rw [patch_of_ge _ (by rw [hlength]; exact hi)]
      exact hstart i (by omega) hi'
    obtain ⟨hbefore, hfrom⟩ := ih hpast'
    simp only [patchPages, List.foldl_cons, hoffset]
    refine ⟨fun i hi => ?_, fun i hi hi' => ?_⟩
    · exact (hbefore i (by omega)).trans (patch_of_lt _ _ hi)
    · rcases Nat.lt_or_ge i (offset + count) with hin | hpast
      · exact (hbefore i hin).trans (patch_slice _ _ hi hin)
      · exact hfrom i hpast hi'
  | case3 offset hge => exact ⟨fun i _ => rfl, fun i hi hi' => absurd (by omega) hge⟩

/-! ## Captures -/

/-- The pages of a capture: of an overlay, the blocks that differ from its base. -/
def capturedPages (base : Option Medium) (source : Medium) (offset : ℕ) : List MediaPage :=
  match base with
  | none => []
  | some base => diffPages base.byte source.byte source.byteCount offset

theorem captureBlocks_ok {base : Option Medium} {baseFaults sourceFaults : Faults} {allocates : ℕ → Bool}
    {hash hash' : MediaHash} {pages : List MediaPage} (hbase : Plain (base.getD source))
    (hsource : Plain source)
    (h : captureBlocks base source baseFaults sourceFaults allocates offset hash = .ok (pages, hash')) :
    hash' = hashArray (base.getD source).byte source.byteCount offset hash ∧
      pages = capturedPages base source offset := by
  fun_induction captureBlocks base source baseFaults sourceFaults allocates offset hash
    generalizing pages hash' with
  | case1 | case3 | case5 | case6 => cases h
  | case2 offset hash hlt count original hread next =>
    rename_i hnone ih
    obtain ⟨hhash, hpages⟩ := ih h
    rw [hashArray, dif_pos hlt, hhash, hpages, readAt_ok hbase hread]
    exact ⟨rfl, by rw [hnone]; rfl⟩
  | case4 offset hash hlt count overlay hsome effective hread' hread =>
    rename_i next ih
    obtain ⟨hhash, hpages⟩ := ih h
    have hslice : slice (base.getD source).byte offset count = slice source.byte offset count := by
      rw [← readAt_ok hbase hread, ← readAt_ok hsource hread']
    rw [hashArray, dif_pos hlt, hhash, hpages, readAt_ok hbase hread]
    subst hsome
    exact ⟨rfl, (diffPages_of_eq hlt hslice).symm⟩
  | case7 offset hash hlt count original hread next overlay hsome effective hread' hne _ pages hash₁ =>
    rename_i hnext ih
    obtain ⟨hhash, hpages⟩ := ih hnext
    obtain ⟨rfl, rfl⟩ := Prod.mk.inj (Except.ok.inj h)
    have horiginal := readAt_ok hbase hread
    have heffective := readAt_ok hsource hread'
    rw [horiginal, heffective] at hne
    rw [hashArray, dif_pos hlt, hhash, hpages, horiginal, heffective]
    subst hsome
    exact ⟨rfl, (diffPages_of_ne hlt hne).symm⟩
  | case8 offset hash hge =>
    obtain ⟨rfl, rfl⟩ := Prod.mk.inj (Except.ok.inj h)
    rw [hashArray, dif_neg hge]
    refine ⟨rfl, ?_⟩
    cases base with
    | none => rfl
    | some base => exact (diffPages_of_ge hge).symm

theorem captureBlocks_none {base : Option Medium} (hbase : Plain (base.getD source))
    (hsource : Plain source) (hsize : (base.getD source).byteCount = source.byteCount) (offset : ℕ)
    (hash : MediaHash) :
    ∃ r, captureBlocks base source .none .none (fun _ => true) offset hash = .ok r := by
  fun_induction captureBlocks base source .none .none (fun _ => true) offset hash with
  | case1 offset hash hlt count status hread =>
    rw [readAt_none hbase (by omega)] at hread
    cases hread
  | case2 offset hash hlt count original hread next =>
    rename_i ih
    exact ih
  | case3 offset hash hlt count =>
    rename_i hread _
    rw [readAt_none hsource (by omega)] at hread
    cases hread
  | case4 =>
    rename_i ih
    exact ih
  | case5 =>
    rename_i hno _
    cases hno
  | case6 =>
    rename_i hnext ih
    obtain ⟨r, hr⟩ := ih
    cases hnext.symm.trans hr
  | case7 => exact ⟨_, rfl⟩
  | case8 => exact ⟨_, rfl⟩

/-! ### Captured pages are pages the reader admits -/

theorem pageAccepts_block {previous : Option (BitVec 64)} (hsize : size < 2 ^ 64) (hlt : offset < size)
    (halign : offset % 4096 = 0) (hprevious : ∀ p ∈ previous, p.toNat < offset)
    (hcount : count = min (size - offset) 4096) :
    pageAccepts (.ofNat 64 size) previous (.ofNat 64 offset) (.ofNat 32 count) = true := by
  have hnat : (BitVec.ofNat 64 size).toNat = size := by
    rw [BitVec.toNat_ofNat, Nat.mod_eq_of_lt hsize]
  have hoffset : (BitVec.ofNat 64 offset).toNat = offset := by
    rw [BitVec.toNat_ofNat, Nat.mod_eq_of_lt (by omega)]
  have hnat' : (BitVec.ofNat 32 count).toNat = count := by
    rw [BitVec.toNat_ofNat, Nat.mod_eq_of_lt (by omega)]
  have hfresh : previous.any (fun p => decide (offset ≤ p.toNat)) = false := by
    cases previous with
    | none => rfl
    | some p => exact decide_eq_false (Nat.not_le.mpr (hprevious p rfl))
  have hif : (if size - offset < mediaBlockBytes then size - offset else mediaBlockBytes) = count := by
    unfold mediaBlockBytes
    split <;> omega
  have hge : decide (offset ≥ size) = false := decide_eq_false (by omega)
  have hmod : decide (offset % mediaBlockBytes ≠ 0) = false := decide_eq_false (not_not.mpr halign)
  have hne : (count == 0) = false := beq_eq_false_iff_ne.mpr (by omega)
  unfold pageAccepts
  rw [hnat, hoffset, hnat', hfresh, hif, hge, hmod, hne, bne_self_eq_false]
  rfl

theorem diffPages_fit {base array : ℕ → UInt8} {previous : Option (BitVec 64)} (hsize : size < 2 ^ 64)
    (halign : offset < size → offset % 4096 = 0) (hprevious : ∀ p ∈ previous, p.toNat < offset) :
    PagesFit (.ofNat 64 size) previous (diffPages base array size offset) := by
  fun_induction diffPages base array size offset generalizing previous with
  | case1 offset hlt count rest heq =>
    rename_i ih
    have hcount : count = min (size - offset) 4096 := rfl
    have hzero := halign hlt
    exact ih (fun h => by omega) fun p hp => (hprevious p hp).trans (by omega)
  | case2 offset hlt count rest hne =>
    rename_i ih
    have hcount : count = min (size - offset) 4096 := rfl
    have hzero := halign hlt
    refine ⟨pageAccepts_block hsize hlt hzero hprevious hcount, ?_, ih (fun h => by omega) ?_⟩
    · rw [slice_length, BitVec.toNat_ofNat, Nat.mod_eq_of_lt (by omega)]
    · rintro _ ⟨⟩
      rw [BitVec.toNat_ofNat, Nat.mod_eq_of_lt (by omega)]
      omega
  | case3 => trivial

theorem diffPages_length (base array : ℕ → UInt8) (size offset : ℕ) :
    (diffPages base array size offset).length ≤ (size - offset + 4095) / 4096 := by
  fun_induction diffPages base array size offset with
  | case1 offset hlt count rest heq =>
    rename_i ih
    have hcount : count = min (size - offset) 4096 := rfl
    exact ih.trans (by omega)
  | case2 offset hlt count rest hne =>
    rename_i ih
    have hcount : count = min (size - offset) 4096 := rfl
    have hrest : rest.length ≤ (size - (offset + count) + 4095) / 4096 := ih
    rw [List.length_cons]
    omega
  | case3 => exact Nat.zero_le _

/-! ## Drives that are attached -/

/-- The array of a file. -/
def fileArray (bytes : List UInt8) : ℕ → UInt8 := fun i => bytes.getD i 0

/-- What attaching a medium leaves in a drive: only drives A: and C: are ever attached, with a path
that can be stored, a medium of a size that they support, and a file that is there. -/
structure Mount.Attached (files : Files) (index : Fin 4) (mount : Mount) : Prop where
  drive : index = 0 ∨ index = 2
  backed : ∃ bytes, files mount.path = some bytes ∧ mount.medium.file = some bytes
  plain : Plain mount.medium
  path_ne_nil : mount.path ≠ []
  path_lt : mount.path.length < pathMax
  path_text : 0 ∉ mount.path
  floppy : index = 0 → geometryAccepts mount.medium.byteCount = true ∧
    mount.medium.byteCount ≤ 2 ^ 31 - 1 ∧ mount.cylinder.toNat ≤ 255
  hdd : index = 2 → hddSizeSupported mount.medium.byteCount = true ∧ mount.cylinder = 0

/-- Every drive is empty or attached. -/
def Drives.Attached (files : Files) (drives : Drives) : Prop :=
  ∀ index, ∀ mount ∈ drives index, mount.Attached files index

variable {files files' : Files} {index : Fin 4} {mount : Mount} {path : List UInt8} {mode : Mode}
  {opens : Status}

theorem mediumOpen_ok (h : mediumOpen files opens path mode = .ok m) :
    ∃ bytes, files path = some bytes ∧ m.file = some bytes ∧ m.byteCount = bytes.length ∧
      m.mode = mode ∧ m.pages = fun _ => none := by
  unfold mediumOpen at h
  split at h
  · cases h
  · split at h
    · cases h
    · rename_i bytes hbytes
      obtain rfl := Except.ok.inj h
      exact ⟨bytes, hbytes, rfl, rfl, rfl, rfl⟩

theorem mediumOpen_error {status : Status} (h : mediumOpen files opens path mode = .error status) :
    status ≠ .ok := by
  unfold mediumOpen at h
  split at h
  · rename_i hopens
    rwa [← Except.error.inj h]
  · split at h
    · rw [← Except.error.inj h]
      decide
    · cases h

theorem byte_of_file (hfile : m.file = some bytes) (hpages : m.pages = fun _ => none) :
    m.byte = fileArray bytes := by
  funext i
  rw [Medium.byte, view_of_base (by rw [hpages]), Medium.base, hfile]
  rfl

theorem plain_of_pages (hpages : m.pages = fun _ => none) : Plain m := fun _ => hpages

/-- A medium that shows its file shows it whole. -/
theorem Mount.Attached.byte_eq (h : mount.Attached files index) (hmode : mount.medium.mode ≠ .overlay)
    (hbytes : files mount.path = some bytes) : mount.medium.byte = fileArray bytes := by
  obtain ⟨bytes', hfile, hmedium⟩ := h.backed
  obtain rfl := Option.some.inj (hbytes.symm.trans hfile)
  exact byte_of_file hmedium (h.plain hmode)

theorem Mount.Attached.byteCount_eq (h : mount.Attached files index)
    (hbytes : files mount.path = some bytes) : mount.medium.byteCount = bytes.length := by
  obtain ⟨bytes', hfile, hmedium⟩ := h.backed
  obtain rfl := Option.some.inj (hbytes.symm.trans hfile)
  exact (mount.medium.sized bytes hmedium).symm

theorem Mount.Attached.byteCount_le (h : mount.Attached files index) :
    512 ≤ mount.medium.byteCount ∧ mount.medium.byteCount ≤ 2 ^ 31 := by
  rcases h.drive with hindex | hindex
  · obtain ⟨hgeometry, hle, -⟩ := h.floppy hindex
    simp only [geometryAccepts, Bool.and_eq_true, decide_eq_true_eq] at hgeometry
    omega
  · obtain ⟨hsize, -⟩ := h.hdd hindex
    simpa only [hddSizeSupported, Bool.and_eq_true, decide_eq_true_eq] using hsize

/-- **Attaching** a path leaves the drive so: no file has the empty path, and a path holds no zero. -/
theorem attachFile_attached {floppy : Bool} (hempty : files [] = none) (htext : 0 ∉ path)
    (h : attachFile files opens floppy path mode = some mount) :
    mount.Attached files (if floppy then 0 else 2) := by
  unfold attachFile at h
  split at h
  · cases h
  rename_i hpath
  split at h
  · cases h
  rename_i medium hopen
  obtain ⟨bytes, hbytes, hfile, -, -, hpages⟩ := mediumOpen_ok hopen
  have hne : path ≠ [] := by
    rintro rfl
    rw [hempty] at hbytes
    cases hbytes
  cases floppy with
  | true =>
    rw [if_pos rfl] at h
    split at h
    · cases h
    rename_i hfloppy
    obtain rfl := Option.some.inj h
    simp only [Bool.or_eq_true, decide_eq_true_eq, Bool.not_eq_true', not_or, Nat.not_lt,
      Bool.not_eq_false] at hfloppy
    exact ⟨.inl rfl, ⟨bytes, hbytes, hfile⟩, plain_of_pages hpages, hne, Nat.not_le.mp hpath, htext,
      fun _ => ⟨hfloppy.2, hfloppy.1, Nat.zero_le _⟩, fun hindex => absurd hindex (by decide)⟩
  | false =>
    rw [if_neg Bool.false_ne_true] at h
    split at h
    · cases h
    rename_i hsize
    obtain rfl := Option.some.inj h
    rw [Bool.not_eq_true', Bool.not_eq_false] at hsize
    exact ⟨.inr rfl, ⟨bytes, hbytes, hfile⟩, plain_of_pages hpages, hne, Nat.not_le.mp hpath, htext,
      fun hindex => absurd hindex (by decide), fun _ => ⟨hsize, rfl⟩⟩

theorem attachFile_mode {floppy : Bool} (h : attachFile files opens floppy path mode = some mount) :
    mount.medium.mode = mode := by
  unfold attachFile at h
  split at h
  · cases h
  split at h
  · cases h
  rename_i medium hopen
  obtain ⟨-, -, -, -, hmode, -⟩ := mediumOpen_ok hopen
  split_ifs at h
  all_goals
    obtain rfl := Option.some.inj h
    exact hmode

/-- … and **writing** to an overlay, in any sequence of requests, keeps it so. -/
theorem Mount.Attached.run (h : mount.Attached files index) (hmode : mount.medium.mode = .overlay)
    (requests : List (Request × Faults)) :
    Mount.Attached files index { mount with medium := (mount.medium.run requests).2 } := by
  obtain ⟨⟨hfile, hcount, hsame⟩, -⟩ := mount.medium.run_permits hmode requests
  obtain ⟨bytes, hbytes, hbase⟩ := h.backed
  refine ⟨h.drive, ⟨bytes, hbytes, hfile.trans hbase⟩, fun hne => absurd (hsame.trans hmode) hne,
    h.path_ne_nil, h.path_lt, h.path_text, fun hindex => ?_, fun hindex => ?_⟩
  · rw [hcount]
    exact h.floppy hindex
  · rw [hcount]
    exact h.hdd hindex

/-! ## The slot of a capture -/

/-- What a slot holds after a capture of a mount over such a file. -/
def capturedSlot (mount : Mount) (bytes : List UInt8) : MediaSlot :=
  let pages :=
    if mount.medium.mode = .overlay then
      diffPages (fileArray bytes) mount.medium.byte mount.medium.byteCount 0
    else []
  { mode := modeWord mount.medium.mode
    cylinder := mount.cylinder
    size := .ofNat 64 mount.medium.byteCount
    digest := digestOf (fileArray bytes) mount.medium.byteCount
    path := pathBuffer mount.path
    pageCount := .ofNat 64 pages.length
    pages }

/-- The base that a capture opens. -/
def captureBase (files : Files) (faults : HostFaults) (index : Fin 4) (mount : Mount) :
    Except Status (Option Medium) :=
  if mount.medium.mode = .overlay then
    (mediumOpen files (faults.opens index) mount.path .readonly).map some
  else .ok none

/-- … shows the file, and nothing else is read for the digest. -/
theorem captureBase_ok {faults : HostFaults} {base : Option Medium} (h : mount.Attached files index)
    (hbytes : files mount.path = some bytes) (hbase : captureBase files faults index mount = .ok base) :
    Plain (base.getD mount.medium) ∧ (base.getD mount.medium).byte = fileArray bytes ∧
      (base.getD mount.medium).byteCount = mount.medium.byteCount ∧
      ∀ offset, capturedPages base mount.medium offset =
        if mount.medium.mode = .overlay then
          diffPages (fileArray bytes) mount.medium.byte mount.medium.byteCount offset
        else [] := by
  unfold captureBase at hbase
  split at hbase
  · rename_i hmode
    cases hopen : mediumOpen files (faults.opens index) mount.path .readonly with
    | error status =>
      rw [hopen] at hbase
      cases hbase
    | ok medium =>
      rw [hopen] at hbase
      obtain rfl := Except.ok.inj hbase
      obtain ⟨bytes', hfile, hmedium, hcount, -, hpages⟩ := mediumOpen_ok hopen
      obtain rfl := Option.some.inj (hbytes.symm.trans hfile)
      have hbyte := byte_of_file hmedium hpages
      refine ⟨plain_of_pages hpages, hbyte, hcount.trans (h.byteCount_eq hbytes).symm, fun offset => ?_⟩
      rw [if_pos hmode, ← hbyte]
      rfl
  · rename_i hmode
    obtain rfl := Except.ok.inj hbase
    refine ⟨h.plain, h.byte_eq hmode hbytes, rfl, fun offset => ?_⟩
    rw [if_neg hmode]
    rfl

theorem captureSlot_ok {faults : HostFaults} {slot : Option MediaSlot} (h : mount.Attached files index)
    (hbytes : files mount.path = some bytes)
    (hcapture : captureSlot files faults index (some mount) = .ok slot) :
    slot = some (capturedSlot mount bytes) := by
  simp only [captureSlot] at hcapture
  rw [if_neg (Nat.not_le.mpr h.path_lt)] at hcapture
  split at hcapture
  · cases hcapture
  rename_i base hopened
  split at hcapture
  · cases hcapture
  split at hcapture
  · cases hcapture
  rename_i pages hash hblocks
  split at hcapture
  · cases hcapture
  obtain rfl := Except.ok.inj hcapture
  obtain ⟨hplain, hbyte, -, hpages⟩ := captureBase_ok h hbytes hopened
  obtain ⟨rfl, rfl⟩ := captureBlocks_ok hplain h.plain hblocks
  rw [hbyte, hpages]
  rfl

/-- Without faults a capture succeeds. -/
theorem captureSlot_none (h : mount.Attached files index) :
    ∃ slot, captureSlot files .none index (some mount) = .ok slot := by
  obtain ⟨bytes, hbytes, -⟩ := h.backed
  have hopened : ∃ base, captureBase files .none index mount = .ok base := by
    unfold captureBase mediumOpen
    split
    · simp [HostFaults.none, hbytes, Except.map]
    · exact ⟨_, rfl⟩
  obtain ⟨base, hbase⟩ := hopened
  obtain ⟨hplain, -, hcount, -⟩ := captureBase_ok h hbytes hbase
  obtain ⟨⟨pages, hash⟩, hblocks⟩ : ∃ r, captureBlocks base mount.medium (HostFaults.none.base index)
      (HostFaults.none.medium index) (HostFaults.none.allocates index) 0 hashBegin = .ok r :=
    captureBlocks_none hplain h.plain hcount 0 hashBegin
  have hany : base.any (fun b => decide (b.byteCount ≠ mount.medium.byteCount)) = false := by
    cases base with
    | none => rfl
    | some base => exact decide_eq_false (not_not.mpr hcount)
  unfold captureBase at hbase
  simp only [captureSlot]
  rw [if_neg (Nat.not_le.mpr h.path_lt), hbase]
  dsimp only
  rw [hany, if_neg Bool.false_ne_true, hblocks]
  exact ⟨_, if_neg (by simp [HostFaults.none])⟩

theorem hashEnd_length (hash : MediaHash) : (hashEnd hash).length = 32 := by
  simp [hashEnd]

theorem ofModeWord_modeWord (mode : Mode) : ofModeWord (modeWord mode) = mode := by
  cases mode <;> rfl

theorem text_path (h : mount.Attached files index) : text (pathBuffer mount.path) = mount.path :=
  text_pathBuffer h.path_text h.path_lt

theorem slotAccepts_captured (h : mount.Attached files index) {pages : List MediaPage}
    (hlength : pages.length ≤ (mount.medium.byteCount + 4095) / 4096)
    (hoverlay : mount.medium.mode ≠ .overlay → pages = []) :
    slotAccepts index (modeWord mount.medium.mode) mount.cylinder (.ofNat 64 mount.medium.byteCount)
      (.ofNat 64 pages.length) = true := by
  obtain ⟨hge, hle⟩ := h.byteCount_le
  have hsize : (BitVec.ofNat 64 mount.medium.byteCount).toNat = mount.medium.byteCount := by
    rw [BitVec.toNat_ofNat, Nat.mod_eq_of_lt (by omega)]
  have hpages : (BitVec.ofNat 64 pages.length).toNat = pages.length := by
    rw [BitVec.toNat_ofNat, Nat.mod_eq_of_lt (by omega)]
  have hmode : (modeWord mount.medium.mode).toNat ≤ 2 := by
    cases mount.medium.mode <;> decide
  have hnone : (modeWord mount.medium.mode).toNat ≠ 2 → pages.length = 0 := by
    intro hne
    rw [hoverlay fun hm => hne (by rw [hm]; rfl)]
    rfl
  have hsector : index.val < 2 → mount.medium.byteCount % 512 = 0 := by
    intro hindex
    rcases h.drive with rfl | rfl
    · have hgeometry := (h.floppy rfl).1
      simp only [geometryAccepts, Bool.and_eq_true, decide_eq_true_eq] at hgeometry
      exact hgeometry.1
    · exact absurd hindex (by decide)
  have hcylinder : mount.cylinder.toNat ≤ if index.val < 2 then 255 else 0 := by
    rcases h.drive with rfl | rfl
    · exact (h.floppy rfl).2.2
    · rw [(h.hdd rfl).2]
      exact Nat.zero_le _
  simp only [slotAccepts, hsize, hpages, mediaBlockBytes, Bool.not_eq_true', Bool.or_eq_false_iff,
    Bool.and_eq_false_iff, decide_eq_false_iff_not, beq_eq_false_iff_ne]
  grind -linarith

/-- **A captured slot** is within the reader's limits. -/
theorem capturedSlot_fits (h : mount.Attached files index) (bytes : List UInt8) :
    (capturedSlot mount bytes).written.Fits index := by
  obtain ⟨hge, hle⟩ := h.byteCount_le
  have hlength := diffPages_length (fileArray bytes) mount.medium.byte mount.medium.byteCount 0
  have hfit : PagesFit (.ofNat 64 mount.medium.byteCount) none
      (diffPages (fileArray bytes) mount.medium.byte mount.medium.byteCount 0) :=
    diffPages_fit (by omega) (fun _ => rfl) nofun
  have htext : (capturedSlot mount bytes).written.path = mount.path := text_path h
  refine ⟨hashEnd_length _, by rw [htext]; exact h.path_ne_nil, by rw [htext]; exact h.path_lt, ?_, ?_, ?_⟩
  all_goals
    simp only [MediaSlot.written, capturedSlot]
  · refine slotAccepts_captured h ?_ fun hmode => if_neg hmode
    split
    · exact hlength
    · exact Nat.zero_le _
  · rw [BitVec.toNat_ofNat, Nat.mod_eq_of_lt]
    split
    · omega
    · decide
  · split
    · exact hfit
    · trivial

/-! ## The archive of a capture -/

theorem eachSlot_eq_ok {α : Type} {f : Fin 4 → Except Status α} {g : Fin 4 → α} :
    eachSlot f = .ok g ↔ ∀ index, f index = .ok (g index) := by
  constructor
  · intro h
    unfold eachSlot at h
    rcases h0 : f 0 with _ | a
    · rw [h0] at h; cases h
    rcases h1 : f 1 with _ | b
    · rw [h0, h1] at h; cases h
    rcases h2 : f 2 with _ | c
    · rw [h0, h1, h2] at h; cases h
    rcases h3 : f 3 with _ | d
    · rw [h0, h1, h2, h3] at h; cases h
    rw [h0, h1, h2, h3] at h
    obtain rfl := Except.ok.inj h
    intro index
    match index with
    | 0 => exact h0
    | 1 => exact h1
    | 2 => exact h2
    | 3 => exact h3
  · intro h
    unfold eachSlot
    rw [h 0, h 1, h 2, h 3]
    refine congrArg Except.ok (funext fun index => ?_)
    match index with
    | 0 | 1 | 2 | 3 => rfl

variable {drives drives' : Drives}

/-- The archive of a capture: every slot is that of its mount. -/
def capturedArchive (files : Files) (drives : Drives) : MediaArchive :=
  ⟨fun index => (drives index).bind fun mount => (files mount.path).map (capturedSlot mount), false⟩

theorem capturedArchive_slot (hdrives : drives.Attached files) (hmount : drives index = some mount) :
    ∃ bytes, files mount.path = some bytes ∧
      (capturedArchive files drives).slots index = some (capturedSlot mount bytes) := by
  obtain ⟨bytes, hbytes, -⟩ := (hdrives index mount hmount).backed
  exact ⟨bytes, hbytes, by simp [capturedArchive, hmount, hbytes]⟩

theorem capturedArchive_none (hmount : drives index = none) :
    (capturedArchive files drives).slots index = none := by
  simp [capturedArchive, hmount]

theorem mediaArchiveCapture_ok {faults : HostFaults} {archive : MediaArchive}
    (hdrives : drives.Attached files) (h : mediaArchiveCapture files faults drives = .ok archive) :
    archive = capturedArchive files drives := by
  unfold mediaArchiveCapture at h
  split at h
  · cases h
  rcases hslots : eachSlot fun index => captureSlot files faults index (drives index) with _ | slots
  · rw [hslots] at h; cases h
  rw [hslots] at h
  obtain rfl := Except.ok.inj h
  rw [eachSlot_eq_ok] at hslots
  refine congrArg (MediaArchive.mk · false) (funext fun index => ?_)
  have hslot := hslots index
  change slots index = (capturedArchive files drives).slots index
  cases hmount : drives index with
  | none =>
    rw [hmount] at hslot
    rw [capturedArchive_none hmount]
    exact (Except.ok.inj hslot).symm
  | some mount =>
    rw [hmount] at hslot
    obtain ⟨bytes, hbytes, hcaptured⟩ := capturedArchive_slot hdrives hmount
    exact (captureSlot_ok (hdrives index mount hmount) hbytes hslot).trans hcaptured.symm

theorem mediaArchiveCapture_none (hdrives : drives.Attached files) :
    mediaArchiveCapture files .none drives = .ok (capturedArchive files drives) := by
  have hslots : ∀ index, ∃ slot, captureSlot files .none index (drives index) = .ok slot := by
    intro index
    cases hmount : drives index with
    | none => exact ⟨_, rfl⟩
    | some mount => exact captureSlot_none (hdrives index mount hmount)
  choose slots hslots using hslots
  have hcapture : mediaArchiveCapture files .none drives = .ok ⟨slots, false⟩ := by
    unfold mediaArchiveCapture
    rw [if_neg (by decide), eachSlot_eq_ok.2 hslots]
    rfl
  rw [hcapture, ← mediaArchiveCapture_ok hdrives hcapture]

/-- The archive of a capture can be read back. -/
theorem capturedArchive_fits (hdrives : drives.Attached files) :
    (capturedArchive files drives).Fits := by
  have hslot : ∀ index, ∀ slot ∈ (capturedArchive files drives).slots index,
      ∃ mount bytes, mount.Attached files index ∧ slot = capturedSlot mount bytes := by
    intro index slot hmem
    cases hmount : drives index with
    | none =>
      rw [capturedArchive_none hmount] at hmem
      cases hmem
    | some mount =>
      obtain ⟨bytes, -, hcaptured⟩ := capturedArchive_slot hdrives hmount
      rw [hcaptured] at hmem
      exact ⟨mount, bytes, hdrives index mount hmount, (Option.some.inj hmem).symm⟩
  refine ⟨fun index slot hmem => ?_, fun index slot hmem => ?_, rfl⟩
  all_goals obtain ⟨mount, bytes, hattached, rfl⟩ := hslot index slot hmem
  · change pathBuffer mount.path = pathBuffer (text (pathBuffer mount.path))
    rw [text_path hattached]
  · exact capturedSlot_fits hattached bytes

/-! ## Prepare -/

theorem firstFailure_eq_ok {statuses : List Status} :
    firstFailure statuses = .ok ↔ ∀ status ∈ statuses, status = .ok := by
  induction statuses with
  | nil => exact ⟨fun _ => nofun, fun _ => rfl⟩
  | cons status rest ih =>
    rw [firstFailure]
    split
    · rename_i hok
      rw [ih, List.forall_mem_cons]
      exact ⟨fun h => ⟨hok, h⟩, And.right⟩
    · rename_i hne
      exact ⟨fun h => absurd h hne, fun h => absurd (h status (by simp)) hne⟩

/-- The medium that is found for a path shows its file. -/
theorem mountedBase_some {slot : MediaSlot} (hdrives : drives.Attached files)
    (h : mountedBase drives slot = some base) :
    ∃ bytes, files (text slot.path) = some bytes ∧ Plain base ∧ base.byte = fileArray bytes ∧
      base.byteCount = bytes.length := by
  obtain ⟨index, -, hindex⟩ := List.exists_of_findSome?_eq_some h
  obtain ⟨mount, hmount, hif⟩ := Option.bind_eq_some_iff.mp hindex
  split at hif
  · rename_i hpath
    obtain rfl := Option.some.inj hif
    have hattached := hdrives index mount hmount
    obtain ⟨bytes, hbytes, -⟩ := hattached.backed
    exact ⟨bytes, hpath.1 ▸ hbytes, hattached.plain, hattached.byte_eq hpath.2 hbytes,
      hattached.byteCount_eq hbytes⟩
  · cases hif

/-- What a slot asks of the host's files. -/
def BaseMatches (files : Files) (slot : MediaSlot) : Prop :=
  ∃ bytes, files (text slot.path) = some bytes ∧ bytes.length = slot.size.toNat ∧
    digestOf (fileArray bytes) slot.size.toNat = slot.digest

theorem prepareSlot_ok {faults : HostFaults} {slot : MediaSlot} (hdrives : drives.Attached files)
    (h : prepareSlot files faults drives index (some slot) = .ok) : BaseMatches files slot := by
  simp only [prepareSlot] at h
  split at h
  · rename_i base hbase
    obtain ⟨bytes, hbytes, hplain, hbyte, hcount⟩ := mountedBase_some hdrives hbase
    obtain ⟨hsize, hdigest⟩ := verifyBase_ok hplain h
    exact ⟨bytes, hbytes, hcount.symm.trans hsize, hbyte ▸ hdigest⟩
  · split at h
    · rename_i hopen
      exact absurd h (mediumOpen_error hopen)
    · rename_i base hopen
      obtain ⟨bytes, hbytes, hfile, hcount, -, hpages⟩ := mediumOpen_ok hopen
      split at h
      · rename_i hverify
        obtain ⟨hsize, hdigest⟩ := verifyBase_ok (plain_of_pages hpages) hverify
        exact ⟨bytes, hbytes, hcount.symm.trans hsize, byte_of_file hfile hpages ▸ hdigest⟩
      · rename_i hverify
        exact absurd h hverify

theorem mediumOpen_some (hbytes : files path = some bytes) (mode : Mode) :
    ∃ m, mediumOpen files .ok path mode = .ok m := by
  unfold mediumOpen
  rw [if_neg (not_not.mpr rfl), hbytes]
  exact ⟨_, rfl⟩

theorem prepareSlot_none {slot : MediaSlot} (hdrives : drives.Attached files)
    (h : BaseMatches files slot) : prepareSlot files .none drives index (some slot) = .ok := by
  obtain ⟨bytes, hbytes, hsize, hdigest⟩ := h
  simp only [prepareSlot]
  split
  · rename_i base hbase
    obtain ⟨bytes', hbytes', hplain, hbyte, hcount⟩ := mountedBase_some hdrives hbase
    obtain rfl := Option.some.inj (hbytes.symm.trans hbytes')
    exact verifyBase_none hplain (hcount.trans hsize) (hbyte ▸ hdigest)
  · obtain ⟨base, hopen⟩ := mediumOpen_some hbytes .readonly
    obtain ⟨bytes', hbytes', hfile, hcount, -, hpages⟩ := mediumOpen_ok hopen
    obtain rfl := Option.some.inj (hbytes.symm.trans hbytes')
    have hverify : verifyBase slot base .none = .ok :=
      verifyBase_none (plain_of_pages hpages) (hcount.trans hsize)
        ((byte_of_file hfile hpages).symm ▸ hdigest)
    have hopen' : mediumOpen files (HostFaults.none.opens index) (text slot.path) .readonly =
      .ok base := hopen
    rw [hopen']
    exact if_pos hverify

/-- **Prepare** succeeds only where every base matches … -/
theorem mediaArchivePrepare_ok {faults : HostFaults} {archive archive' : MediaArchive}
    (hdrives : drives.Attached files)
    (h : mediaArchivePrepare files faults drives archive = (.ok, archive')) :
    archive' = { archive with prepared := true } ∧
      ∀ index, ∀ slot ∈ archive.slots index, BaseMatches files slot := by
  unfold mediaArchivePrepare at h
  dsimp only at h
  split at h
  · cases (Prod.mk.inj h).1
  split at h
  · rename_i hfailure
    exact absurd (Prod.mk.inj h).1 hfailure
  · rename_i hok
    refine ⟨(Prod.mk.inj h).2.symm, fun index slot hslot => ?_⟩
    have hall := firstFailure_eq_ok.1 (not_not.mp hok) _
      (List.mem_map_of_mem (List.mem_finRange index))
    rw [show archive.slots index = some slot from hslot] at hall
    exact prepareSlot_ok hdrives hall

/-- … and does, where the host does not fail. -/
theorem mediaArchivePrepare_none {archive : MediaArchive} (hdrives : drives.Attached files)
    (hfirst : archive.slots 1 = none) (hsecond : archive.slots 3 = none)
    (h : ∀ index, ∀ slot ∈ archive.slots index, BaseMatches files slot) :
    mediaArchivePrepare files .none drives archive = (.ok, { archive with prepared := true }) := by
  have hok : firstFailure ((List.finRange 4).map fun index =>
      prepareSlot files .none drives index (archive.slots index)) = .ok := by
    rw [firstFailure_eq_ok]
    intro status hstatus
    obtain ⟨index, -, rfl⟩ := List.mem_map.mp hstatus
    cases hslot : archive.slots index with
    | none => rfl
    | some slot => exact prepareSlot_none hdrives (h index slot hslot)
  unfold mediaArchivePrepare
  dsimp only
  rw [hfirst, hsecond, if_neg (by decide), if_neg (not_not.mpr hok)]

/-- A prepare that fails leaves nothing prepared, so that a restore refuses and no drive changes. -/
theorem mediaArchivePrepare_failed {faults restoreFaults : HostFaults} {archive : MediaArchive}
    (h : (mediaArchivePrepare files faults drives archive).1 ≠ .ok) :
    mediaArchiveRestore files' restoreFaults drives'
      (mediaArchivePrepare files faults drives archive).2 = (.invalidState, drives') := by
  have hprepared : (mediaArchivePrepare files faults drives archive).2.prepared = false := by
    unfold mediaArchivePrepare at h ⊢
    dsimp only at h ⊢
    split
    · rfl
    · split
      · rfl
      · rename_i hslots hok
        rw [if_neg hslots, if_neg hok] at h
        exact absurd rfl h
  rw [mediaArchiveRestore, hprepared]
  rfl

/-! ## Restore -/

section OverSlots

variable {step : Fin 4 → Drives → Status × Drives} {indices : List (Fin 4)}

/-- Slots in turn, each of which changes only its own drive. -/
theorem overSlots_ok (hlocal : ∀ index drives other, other ≠ index →
      (step index drives).2 other = drives other) (hnodup : indices.Nodup)
    (h : overSlots step indices drives = (.ok, drives')) :
    (∀ index ∉ indices, drives' index = drives index) ∧
      ∀ index ∈ indices, ∃ between : Drives, between index = drives index ∧
        (step index between).1 = .ok ∧ drives' index = (step index between).2 index := by
  induction indices generalizing drives with
  | nil =>
    obtain ⟨-, rfl⟩ := Prod.mk.inj h
    exact ⟨fun _ _ => rfl, nofun⟩
  | cons first rest ih =>
    rw [overSlots] at h
    split at h
    · rename_i hok
      obtain ⟨hfirst, hrest⟩ := List.nodup_cons.mp hnodup
      obtain ⟨houtside, hinside⟩ := ih hrest h
      refine ⟨fun index hindex => ?_, fun index hindex => ?_⟩
      · obtain ⟨hne, hnot⟩ := not_or.mp (mt List.mem_cons.mpr hindex)
        rw [houtside index hnot, hlocal first drives index hne]
      · rcases List.mem_cons.mp hindex with rfl | hmem
        · exact ⟨drives, rfl, hok, houtside index hfirst⟩
        · obtain ⟨between, hbetween, hstep⟩ := hinside index hmem
          have hne : index ≠ first := fun heq => hfirst (heq ▸ hmem)
          exact ⟨between, hbetween.trans (hlocal first drives index hne), hstep⟩
    · rename_i hne
      exact absurd (Prod.mk.inj h).1 hne

theorem overSlots_fst (hlocal : ∀ index drives other, other ≠ index →
      (step index drives).2 other = drives other) (hnodup : indices.Nodup)
    (hok : ∀ index ∈ indices, ∀ between : Drives, between index = drives index →
      (step index between).1 = .ok) : (overSlots step indices drives).1 = .ok := by
  induction indices generalizing drives with
  | nil => rfl
  | cons first rest ih =>
    obtain ⟨hfirst, hrest⟩ := List.nodup_cons.mp hnodup
    rw [overSlots, if_pos (hok first (by simp) drives rfl)]
    refine ih hrest fun index hindex between hbetween => ?_
    have hne : index ≠ first := fun heq => hfirst (heq ▸ hindex)
    exact hok index (List.mem_cons_of_mem _ hindex) between
      (hbetween.trans (hlocal first drives index hne))

end OverSlots

theorem retireSlot_local (faults : HostFaults) (archive : MediaArchive) (index : Fin 4) (drives : Drives)
    (other : Fin 4) (hne : other ≠ index) :
    (retireSlot faults archive index drives).2 other = drives other := by
  unfold retireSlot
  split
  · rfl
  · split
    · rfl
    · exact Function.update_of_ne hne _ _

theorem installSlot_local (index : Fin 4) (slot : MediaSlot) (medium : Medium) (drives : Drives)
    (other : Fin 4) (hne : other ≠ index) :
    (installSlot index slot medium drives).2 other = drives other := by
  unfold installSlot
  dsimp only
  split_ifs
  all_goals first | rfl | exact Function.update_of_ne hne _ _

theorem attachSlot_local (files : Files) (faults : HostFaults) (archive : MediaArchive) (index : Fin 4)
    (drives : Drives) (other : Fin 4) (hne : other ≠ index) :
    (attachSlot files faults archive index drives).2 other = drives other := by
  unfold attachSlot
  split
  · rfl
  · dsimp only
    split
    · rfl
    · split
      · rfl
      · split
        · rfl
        · exact installSlot_local _ _ _ _ _ hne

/-- Retiring leaves every drive empty. -/
theorem retire_ok {faults : HostFaults} {archive : MediaArchive} (hdrives : drives.Attached files)
    (h : overSlots (retireSlot faults archive) (List.finRange 4) drives = (.ok, drives')) :
    ∀ index, drives' index = none := by
  intro index
  obtain ⟨between, hbetween, hok, hafter⟩ :=
    (overSlots_ok (retireSlot_local faults archive) (List.nodup_finRange 4) h).2 index
      (List.mem_finRange index)
  rw [hafter]
  unfold retireSlot at hok ⊢
  split
  · rename_i hmode
    rw [if_pos hmode] at hok
    cases hok
  · split
    · rename_i hindex
      -- The second floppy drive is never attached.
      change between index = none
      rw [hbetween]
      cases hmount : drives index with
      | none => rfl
      | some mount =>
        rcases (hdrives index mount hmount).drive with h | h <;> rw [hindex] at h <;> cases h
    · exact Function.update_self _ _ _

/-- … and without faults it succeeds. -/
theorem retire_none {archive : MediaArchive}
    (hmodes : ∀ index, ∀ slot ∈ archive.slots index, slot.mode.toNat ≤ 2) :
    (overSlots (retireSlot .none archive) (List.finRange 4) drives).1 = .ok := by
  refine overSlots_fst (retireSlot_local .none archive) (List.nodup_finRange 4) fun index _ between _ => ?_
  have hmode : (archive.slots index).any (fun slot => decide (slot.mode.toNat > 2)) = false := by
    rw [Option.any_eq_false]
    intro slot hslot
    simpa using hmodes index slot hslot
  unfold retireSlot
  rw [hmode, if_neg Bool.false_ne_true]
  split
  · rfl
  · simp [HostFaults.none]

/-! ### Pages applied to an overlay -/

theorem applyPages_ok {pages : List MediaPage} {m' : Medium} (hmode : m.mode = .overlay)
    (h : applyPages m faults pages = (.ok, m')) :
    Medium.Same m m' ∧ m'.byte = patchPages m.byte pages := by
  induction pages generalizing m with
  | nil =>
    obtain ⟨-, rfl⟩ := Prod.mk.inj h
    exact ⟨.refl m, rfl⟩
  | cons page rest ih =>
    rw [applyPages] at h
    split at h
    · rename_i hok
      obtain ⟨hsame, hstores⟩ := @Medium.writeAt_stores m faults page.offset.toNat
        page.bytes hmode
      have hbyte : (m.writeAt faults page.offset.toNat page.bytes).2.byte =
          patch m.byte page.offset.toNat page.bytes := by
        unfold Flat.Stores at hstores
        split at hstores
        · obtain ⟨⟨k, -, hk, hbyte⟩, -⟩ := hstores
          rw [hbyte, hk hok, List.take_length]
        · exact absurd (hok.symm.trans hstores.1) (by decide)
      obtain ⟨hsame', hbyte'⟩ := ih (hsame.2.2.trans hmode) h
      rw [hbyte']
      exact ⟨hsame.trans hsame', by rw [hbyte]; rfl⟩
    · rename_i hne
      exact absurd (by rw [h]) hne

theorem applyPages_none {pages : List MediaPage} (hmode : m.mode = .overlay)
    (hrange : ∀ page ∈ pages, page.offset.toNat + page.bytes.length ≤ m.byteCount) :
    (applyPages m .none pages).1 = .ok := by
  induction pages generalizing m with
  | nil => rfl
  | cons page rest ih =>
    obtain ⟨hpage, hrest⟩ := List.forall_mem_cons.mp hrange
    obtain ⟨hsame, hstores⟩ := @Medium.writeAt_stores m .none page.offset.toNat page.bytes hmode
    rw [Flat.Stores, if_pos hpage] at hstores
    rw [applyPages, if_pos (hstores.2 rfl)]
    refine ih (hsame.2.2.trans hmode) fun page hmem => ?_
    rw [hsame.2.1]
    exact hrest page hmem

theorem diffPages_range {base array : ℕ → UInt8} (hsize : size < 2 ^ 64) :
    ∀ page ∈ diffPages base array size offset, page.offset.toNat + page.bytes.length ≤ size := by
  fun_induction diffPages base array size offset with
  | case1 offset hlt count rest heq =>
    rename_i ih
    exact ih
  | case2 offset hlt count rest hne =>
    rename_i ih
    refine List.forall_mem_cons.mpr ⟨?_, ih⟩
    rw [slice_length, BitVec.toNat_ofNat, Nat.mod_eq_of_lt (by omega)]
    omega
  | case3 => exact nofun

/-! ### A captured slot mounted again -/

/-- A mount that shows what another showed: the same path, mode, cylinder and every byte. -/
structure Mount.Shows (before after : Mount) : Prop where
  path : after.path = before.path
  mode : after.medium.mode = before.medium.mode
  cylinder : after.cylinder = before.cylinder
  byteCount : after.medium.byteCount = before.medium.byteCount
  byte : ∀ i < before.medium.byteCount, after.medium.byte i = before.medium.byte i

/-- The medium that a captured slot is restored to shows the bytes of the one captured. -/
theorem applySaved_ok {m' : Medium} (h : mount.Attached files index)
    (hbytes : files mount.path = some bytes) (hfile : m.file = some bytes)
    (hpages : m.pages = fun _ => none) (hmode : m.mode = mount.medium.mode)
    (happly : applySaved faults (capturedSlot mount bytes) m = (.ok, m')) :
    m'.mode = mount.medium.mode ∧ m'.byteCount = mount.medium.byteCount ∧
      ∀ i < mount.medium.byteCount, m'.byte i = mount.medium.byte i := by
  obtain ⟨-, hle⟩ := h.byteCount_le
  have hcount : m.byteCount = mount.medium.byteCount :=
    (m.sized bytes hfile).symm.trans (h.byteCount_eq hbytes).symm
  have hbyte : m.byte = fileArray bytes := byte_of_file hfile hpages
  have hword : ofModeWord (capturedSlot mount bytes).mode = mount.medium.mode :=
    ofModeWord_modeWord _
  rw [applySaved, hword] at happly
  split at happly
  · rename_i hoverlay
    obtain ⟨⟨-, hsize, hsame⟩, hpatch⟩ := applyPages_ok (hmode.trans hoverlay) happly
    refine ⟨hsame.trans hmode, hsize.trans hcount, fun i hi => ?_⟩
    have hdiff : (capturedSlot mount bytes).pages =
        diffPages (fileArray bytes) mount.medium.byte mount.medium.byteCount 0 := if_pos hoverlay
    have hstart : ∀ i, 0 ≤ i → i < mount.medium.byteCount → m.byte i = fileArray bytes i :=
      fun i _ _ => by rw [hbyte]
    rw [hpatch, hdiff]
    exact (patchPages_diff (by omega) hstart).2 i (Nat.zero_le i) hi
  · rename_i hplain
    obtain ⟨-, rfl⟩ := Prod.mk.inj happly
    exact ⟨hmode, hcount, fun i _ => by rw [hbyte, h.byte_eq hplain hbytes]⟩

theorem applySaved_none (h : mount.Attached files index) (hbytes : files mount.path = some bytes)
    (hfile : m.file = some bytes) (hmode : m.mode = mount.medium.mode) :
    (applySaved .none (capturedSlot mount bytes) m).1 = .ok := by
  obtain ⟨-, hle⟩ := h.byteCount_le
  have hcount : m.byteCount = mount.medium.byteCount :=
    (m.sized bytes hfile).symm.trans (h.byteCount_eq hbytes).symm
  have hword : ofModeWord (capturedSlot mount bytes).mode = mount.medium.mode :=
    ofModeWord_modeWord _
  rw [applySaved, hword]
  split
  · rename_i hoverlay
    have hdiff : (capturedSlot mount bytes).pages =
        diffPages (fileArray bytes) mount.medium.byte mount.medium.byteCount 0 := if_pos hoverlay
    refine applyPages_none (hmode.trans hoverlay) ?_
    rw [hdiff, hcount]
    exact diffPages_range (by omega)
  · rfl

/-- What is installed is there, the cylinder of a fixed disk apart. -/
theorem installSlot_ok {slot : MediaSlot} (h : (installSlot index slot m drives).1 = .ok) :
    (installSlot index slot m drives).2 index =
      some ⟨text slot.path, m, if index.val < 2 then slot.cylinder else 0⟩ := by
  unfold installSlot at h ⊢
  dsimp only at h ⊢
  split_ifs at h ⊢ <;> exact Function.update_self _ _ _

theorem installSlot_captured (h : mount.Attached files index)
    (hcount : m.byteCount = mount.medium.byteCount) :
    (installSlot index (capturedSlot mount bytes) m drives).1 = .ok := by
  have htext : text (capturedSlot mount bytes).path = mount.path := text_path h
  have hmode : (capturedSlot mount bytes).mode.toNat ≤ 2 := by
    change (modeWord mount.medium.mode).toNat ≤ 2
    cases mount.medium.mode <;> decide
  have hcylinder : (capturedSlot mount bytes).cylinder = mount.cylinder := rfl
  have hpath := h.path_lt
  unfold installSlot
  dsimp only
  rw [htext, hcylinder, hcount]
  rcases h.drive with rfl | rfl
  · obtain ⟨hgeometry, hle, hcyl⟩ := h.floppy rfl
    have hsize : ¬2147483647 < mount.medium.byteCount := Nat.not_lt.mpr hle
    simp [hgeometry, Nat.not_lt.mpr hcyl, Nat.not_lt.mpr hmode, Nat.not_le.mpr hpath, hsize]
  · simp [(h.hdd rfl).1, Nat.not_lt.mpr hmode, Nat.not_le.mpr hpath]

/-- **A captured slot mounted again** shows what the mount showed. -/
theorem attachSlot_ok {faults : HostFaults} {archive : MediaArchive} (h : mount.Attached files index)
    (hbytes : files mount.path = some bytes) (hbytes' : files' mount.path = some bytes)
    (hslot : archive.slots index = some (capturedSlot mount bytes))
    (hok : (attachSlot files' faults archive index drives).1 = .ok) :
    ∃ after, (attachSlot files' faults archive index drives).2 index = some after ∧
      mount.Shows after := by
  have htext : text (capturedSlot mount bytes).path = mount.path := text_path h
  have hword : ofModeWord (capturedSlot mount bytes).mode = mount.medium.mode :=
    ofModeWord_modeWord _
  unfold attachSlot at hok ⊢
  rw [hslot] at hok ⊢
  dsimp only at hok ⊢
  split at hok
  · rename_i hopen
    exact absurd hok (mediumOpen_error hopen)
  rename_i replacement hopen
  rw [htext, hword] at hopen
  obtain ⟨bytes', hfile', hfile, -, hmode, hpages⟩ := mediumOpen_ok hopen
  obtain rfl := Option.some.inj (hbytes'.symm.trans hfile')
  split_ifs at hok ⊢ with hverify happly
  · exact absurd hok hverify
  · exact absurd hok happly
  · obtain ⟨hmode', hcount, hbyte⟩ := applySaved_ok h hbytes hfile hpages hmode
      (Prod.ext (not_not.mp happly) rfl)
    refine ⟨_, installSlot_ok hok, htext, hmode', ?_, hcount, hbyte⟩
    rcases h.drive with rfl | rfl
    · rfl
    · exact (h.hdd rfl).2.symm

theorem attachSlot_none {archive : MediaArchive} (h : mount.Attached files index)
    (hbytes : files mount.path = some bytes) (hbytes' : files' mount.path = some bytes)
    (hslot : archive.slots index = some (capturedSlot mount bytes)) :
    (attachSlot files' .none archive index drives).1 = .ok := by
  obtain ⟨-, hle⟩ := h.byteCount_le
  have htext : text (capturedSlot mount bytes).path = mount.path := text_path h
  have hword : ofModeWord (capturedSlot mount bytes).mode = mount.medium.mode :=
    ofModeWord_modeWord _
  have hsize : (capturedSlot mount bytes).size.toNat = mount.medium.byteCount := by
    change (BitVec.ofNat 64 mount.medium.byteCount).toNat = _
    rw [BitVec.toNat_ofNat, Nat.mod_eq_of_lt (by omega)]
  obtain ⟨replacement, hopen⟩ := mediumOpen_some hbytes' mount.medium.mode
  obtain ⟨bytes', hfile', hfile, hcount, hmode, hpages⟩ := mediumOpen_ok hopen
  obtain rfl := Option.some.inj (hbytes'.symm.trans hfile')
  have hcount' : replacement.byteCount = mount.medium.byteCount :=
    hcount.trans (h.byteCount_eq hbytes).symm
  have hverify : verifyBase (capturedSlot mount bytes) replacement .none = .ok := by
    refine verifyBase_none (plain_of_pages hpages) (hcount'.trans hsize.symm) ?_
    rw [byte_of_file hfile hpages, hsize]
    rfl
  have happly := applySaved_none h hbytes hfile hmode
  obtain ⟨-, hcount'', -⟩ := applySaved_ok h hbytes hfile hpages hmode (Prod.ext happly rfl)
  unfold attachSlot
  rw [hslot]
  dsimp only
  rw [htext, hword]
  simp only [HostFaults.none, hopen, hverify, happly, ne_eq, not_true_eq_false, if_false]
  exact installSlot_captured h hcount''

/-! ## Media survive a snapshot -/

/-- Every drive shows what it showed. -/
def Drives.Shows (before after : Drives) : Prop :=
  ∀ index, Option.Rel Mount.Shows (before index) (after index)

/-- The base files of the media are as they were. -/
def Drives.SameBases (drives : Drives) (files files' : Files) : Prop :=
  ∀ index, ∀ mount ∈ drives index, files' mount.path = files mount.path

/-- The base file of some medium is gone, or its length or digest is another. -/
def Drives.ChangedBase (drives : Drives) (files files' : Files) : Prop :=
  ∃ index, ∃ mount ∈ drives index, ∀ bytes ∈ files mount.path, ∀ bytes' ∈ files' mount.path,
    bytes'.length ≠ bytes.length ∨
      digestOf (fileArray bytes') bytes'.length ≠ digestOf (fileArray bytes) bytes.length

theorem baseMatches_captured (h : mount.Attached files index) (hbytes : files mount.path = some bytes) :
    BaseMatches files' (capturedSlot mount bytes) ↔
      ∃ bytes', files' mount.path = some bytes' ∧ bytes'.length = bytes.length ∧
        digestOf (fileArray bytes') bytes'.length = digestOf (fileArray bytes) bytes.length := by
  obtain ⟨-, hle⟩ := h.byteCount_le
  have hcount := h.byteCount_eq hbytes
  have htext : text (capturedSlot mount bytes).path = mount.path := text_path h
  have hsize : (capturedSlot mount bytes).size.toNat = bytes.length := by
    change (BitVec.ofNat 64 mount.medium.byteCount).toNat = _
    rw [BitVec.toNat_ofNat, Nat.mod_eq_of_lt (by omega), hcount]
  have hdigest : (capturedSlot mount bytes).digest = digestOf (fileArray bytes) bytes.length := by
    rw [← hcount]
    rfl
  unfold BaseMatches
  rw [htext, hsize, hdigest]
  refine exists_congr fun bytes' => and_congr_right fun _ => and_congr_right fun hlength => ?_
  rw [hlength]

/-- The captured slots ask of the files what they were. -/
theorem capturedArchive_matches (hdrives : drives.Attached files) (hsame : drives.SameBases files files')
    {slot : MediaSlot} (hslot : (capturedArchive files drives).slots index = some slot) :
    BaseMatches files' slot := by
  cases hmount : drives index with
  | none =>
    rw [capturedArchive_none hmount] at hslot
    cases hslot
  | some mount =>
    obtain ⟨bytes, hbytes, hcaptured⟩ := capturedArchive_slot hdrives hmount
    obtain rfl := Option.some.inj (hcaptured.symm.trans hslot)
    exact (baseMatches_captured (hdrives index mount hmount) hbytes).mpr
      ⟨bytes, (hsame index mount hmount).trans hbytes, rfl, rfl⟩

theorem capturedArchive_modes (hdrives : drives.Attached files) (index : Fin 4) :
    ∀ slot ∈ (capturedArchive files drives).slots index, slot.mode.toNat ≤ 2 := by
  intro slot hslot
  cases hmount : drives index with
  | none =>
    rw [capturedArchive_none hmount] at hslot
    cases hslot
  | some mount =>
    obtain ⟨bytes, -, hcaptured⟩ := capturedArchive_slot hdrives hmount
    obtain rfl := Option.some.inj (hcaptured.symm.trans hslot)
    change (modeWord mount.medium.mode).toNat ≤ 2
    cases mount.medium.mode <;> decide

theorem capturedArchive_unsupported (hdrives : drives.Attached files) (h : index ≠ 0) (h' : index ≠ 2) :
    (capturedArchive files drives).slots index = none := by
  cases hmount : drives index with
  | none => exact capturedArchive_none hmount
  | some mount =>
    rcases (hdrives index mount hmount).drive with hindex | hindex
    · exact absurd hindex h
    · exact absurd hindex h'

/-- A prepared capture that is restored shows what was captured … -/
theorem mediaArchiveRestore_shows {faults : HostFaults} {current restored : Drives}
    (hdrives : drives.Attached files) (hcurrent : current.Attached files')
    (hsame : drives.SameBases files files')
    (h : mediaArchiveRestore files' faults current { capturedArchive files drives with prepared := true }
      = (.ok, restored)) : drives.Shows restored := by
  unfold mediaArchiveRestore at h
  rw [if_neg (by simp)] at h
  dsimp only at h
  split at h
  · rename_i hretired
    exact absurd (Prod.mk.inj h).1 hretired
  rename_i hretired
  have hempty := retire_ok hcurrent (Prod.ext (not_not.mp hretired) rfl)
  intro index
  obtain ⟨between, hbetween, hok, hafter⟩ :=
    (overSlots_ok (attachSlot_local files' faults _) (List.nodup_finRange 4) h).2 index
      (List.mem_finRange index)
  cases hmount : drives index with
  | none =>
    have hslot : (capturedArchive files drives).slots index = none := capturedArchive_none hmount
    have hrestored : restored index = between index := by
      rw [hafter, attachSlot, hslot]
    rw [hrestored.trans (hbetween.trans (hempty index))]
    exact .none
  | some mount =>
    obtain ⟨bytes, hbytes, hcaptured⟩ := capturedArchive_slot hdrives hmount
    have hslot : MediaArchive.slots { capturedArchive files drives with prepared := true } index =
      some (capturedSlot mount bytes) := hcaptured
    obtain ⟨after, hmounted, hshows⟩ := attachSlot_ok (hdrives index mount hmount) hbytes
      ((hsame index mount hmount).trans hbytes) hslot hok
    rw [hafter, hmounted]
    exact .some hshows

/-- … and without faults it is restored. -/
theorem mediaArchiveRestore_none {current : Drives} (hdrives : drives.Attached files)
    (hsame : drives.SameBases files files') :
    (mediaArchiveRestore files' .none current { capturedArchive files drives with prepared := true }).1
      = .ok := by
  have hretired : (overSlots (retireSlot .none { capturedArchive files drives with prepared := true })
      (List.finRange 4) current).1 = .ok := retire_none (capturedArchive_modes hdrives)
  unfold mediaArchiveRestore
  rw [if_neg (by simp)]
  dsimp only
  rw [if_neg (not_not.mpr hretired)]
  refine overSlots_fst (attachSlot_local files' .none _) (List.nodup_finRange 4)
    fun index _ between _ => ?_
  cases hmount : drives index with
  | none =>
    have hslot : (capturedArchive files drives).slots index = none := capturedArchive_none hmount
    rw [attachSlot, hslot]
  | some mount =>
    obtain ⟨bytes, hbytes, hcaptured⟩ := capturedArchive_slot hdrives hmount
    exact attachSlot_none (hdrives index mount hmount) hbytes
      ((hsame index mount hmount).trans hbytes) hcaptured

/-- Media captured, written to an archive, read back, prepared and restored show every byte they
showed, whatever is mounted meanwhile and whatever the host fails at, where each phase reports success
— as each does on a host that does not fail.  Where a base file has another length or digest, or is
gone, prepare fails and neither it nor a restore after it changes a drive. -/
theorem media_survive_a_snapshot {files : Files} {drives : Drives} (hdrives : drives.Attached files) :
    (∃ archive, mediaArchiveCapture files .none drives = .ok archive) ∧
    ∀ captureFaults archive, mediaArchiveCapture files captureFaults drives = .ok archive →
      (∀ rest, mediaArchiveRead.parse (mediaArchiveWrite archive ++ rest) = some (archive, rest)) ∧
      ∀ files' current, current.Attached files' →
        (drives.SameBases files files' →
          (∀ prepareFaults restoreFaults prepared restored,
            mediaArchivePrepare files' prepareFaults current archive = (.ok, prepared) →
            mediaArchiveRestore files' restoreFaults current prepared = (.ok, restored) →
            drives.Shows restored) ∧
          ∃ prepared restored,
            mediaArchivePrepare files' .none current archive = (.ok, prepared) ∧
            mediaArchiveRestore files' .none current prepared = (.ok, restored)) ∧
        (drives.ChangedBase files files' → ∀ prepareFaults restoreFaults,
          (mediaArchivePrepare files' prepareFaults current archive).1 ≠ .ok ∧
          mediaArchiveRestore files' restoreFaults current
            (mediaArchivePrepare files' prepareFaults current archive).2 = (.invalidState, current)) := by
  refine ⟨⟨_, mediaArchiveCapture_none hdrives⟩, fun captureFaults archive hcapture => ?_⟩
  obtain rfl := mediaArchiveCapture_ok hdrives hcapture
  refine ⟨mediaArchiveRead_write (capturedArchive_fits hdrives), fun files' current hcurrent => ?_⟩
  refine ⟨fun hsame => ⟨fun prepareFaults restoreFaults prepared restored hprepare hrestore => ?_, ?_⟩,
    fun hchanged prepareFaults restoreFaults => ?_⟩
  · obtain ⟨rfl, -⟩ := mediaArchivePrepare_ok hcurrent hprepare
    exact mediaArchiveRestore_shows hdrives hcurrent hsame hrestore
  · have hprepare := mediaArchivePrepare_none hcurrent
      (capturedArchive_unsupported hdrives (by decide) (by decide))
      (capturedArchive_unsupported hdrives (by decide) (by decide))
      fun index slot hslot => capturedArchive_matches hdrives hsame hslot
    exact ⟨_, _, hprepare, Prod.ext (mediaArchiveRestore_none hdrives hsame) rfl⟩
  · have hfails : (mediaArchivePrepare files' prepareFaults current (capturedArchive files drives)).1
        ≠ .ok := by
      intro hok
      obtain ⟨index, mount, hmount, hother⟩ := hchanged
      obtain ⟨bytes, hbytes, hcaptured⟩ := capturedArchive_slot hdrives hmount
      have hmatches := (mediaArchivePrepare_ok hcurrent (Prod.ext hok rfl)).2 index _ hcaptured
      obtain ⟨bytes', hbytes', hlength, hdigest⟩ :=
        (baseMatches_captured (hdrives index mount hmount) hbytes).mp hmatches
      rcases hother bytes hbytes bytes' hbytes' with hne | hne
      · exact hne hlength
      · exact hne hdigest
    exact ⟨hfails, mediaArchivePrepare_failed hfails⟩

/-- A file of one sector, with the path `a`. -/
def oneSector : Files := fun path => if path = [97] then some (List.replicate 512 0) else none

/-- That file attached to drive A: as an overlay, after one write. -/
def oneOverlay : Drives :=
  Function.update (fun _ => none) 0
    ((attachFile oneSector .ok true [97] .overlay).map fun mount =>
      { mount with medium := (mount.medium.run [(.writeAt 3 [7], .none)]).2 })

theorem oneOverlay_attached : oneOverlay.Attached oneSector := by
  intro index mount hmount
  rw [oneOverlay, Option.mem_def] at hmount
  rcases eq_or_ne index 0 with rfl | hne
  · rw [Function.update_self, Option.map_eq_some_iff] at hmount
    obtain ⟨opened, hopened, rfl⟩ := hmount
    have hattached : opened.Attached oneSector 0 :=
      attachFile_attached (by decide) (by decide) hopened
    exact hattached.run (attachFile_mode hopened) _
  · rw [Function.update_of_ne hne] at hmount
    cases hmount

theorem oneOverlay_survives :
    ∃ archive prepared restored, mediaArchiveCapture oneSector .none oneOverlay = .ok archive ∧
      mediaArchivePrepare oneSector .none oneOverlay archive = (.ok, prepared) ∧
      mediaArchiveRestore oneSector .none oneOverlay prepared = (.ok, restored) ∧
      oneOverlay.Shows restored := by
  obtain ⟨⟨archive, hcapture⟩, hall⟩ := media_survive_a_snapshot oneOverlay_attached
  obtain ⟨hshows, prepared, restored, hprepare, hrestore⟩ :=
    ((hall .none archive hcapture).2 oneSector oneOverlay oneOverlay_attached).1 fun _ _ _ => rfl
  exact ⟨archive, prepared, restored, hcapture, hprepare, hrestore,
    hshows .none .none prepared restored hprepare hrestore⟩

end SoftPC.Snapshot
