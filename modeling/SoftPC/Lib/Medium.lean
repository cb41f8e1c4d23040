import SoftPC.Lib.Types
import SoftPC.Machinery.Overlay
import Mathlib.Data.List.GetD

/-!
# Lib/Medium — a storage medium, and the byte array it is

`lib/storage/medium.c`.  An overlay keeps its base file read-only and copies a page of it into memory
at the first write to that page; requests run over any number of pages, and the allocation of a page
or the base can fail at any of them (`Faults`).  `Medium.byte` is the array a medium shows; a flat
array with the same requests goes the same way (`Flat.Permits`).

A page and a place of the base are asked for at most once in a request, so that their answers are
functions of where they are asked.
-/

namespace SoftPC.Storage

open Overlay

/-- `LIB_STORAGE_MEDIUM_PAGE_BYTES`. -/
def pageBytes : ℕ := 4096

theorem pageBytes_pos : 0 < pageBytes := by decide

/-- `lib_storage_medium_mode`. -/
inductive Mode where
  | direct | readonly | overlay
  deriving DecidableEq

/-- `struct lib_storage_medium`, the file with its bytes. -/
structure Medium where
  /-- None where `file.stream` is null. -/
  file : Option (List UInt8)
  pages : ℕ → Option (ℕ → UInt8) := fun _ => none
  byteCount : ℕ
  mode : Mode
  /-- A file's length is taken when it is opened. -/
  sized : ∀ bytes ∈ file, bytes.length = byteCount

/-- What fails during one request. -/
structure Faults where
  /-- The page of this index is allocated. -/
  allocates : ℕ → Bool := fun _ => true
  /-- Positioning the file at this offset. -/
  seeks : ℕ → Status := fun _ => .ok
  /-- The read there is complete. -/
  reads : ℕ → Bool := fun _ => true
  /-- A write there ends early, after so many bytes. -/
  transfers : ℕ → Option ℕ := fun _ => none
  flushes : Bool := true

/-- Nothing fails. -/
def Faults.none : Faults := {}

namespace Medium

variable (m : Medium) (faults : Faults)

/-- `lib_storage_medium_range` accepts. -/
def range (offset byteCount : ℕ) : Bool := offset ≤ m.byteCount && byteCount ≤ m.byteCount - offset

/-- `lib_storage_medium_read_base`. -/
def readBase (offset byteCount : ℕ) : Except Status (List UInt8) :=
  if byteCount = 0 then .ok []
  else
    match m.file with
    | none => .ok (List.replicate byteCount 0)
    | some bytes =>
      if faults.seeks offset ≠ .ok then .error (faults.seeks offset)
      else if !faults.reads offset || bytes.length < offset + byteCount then .error .ioError
      else .ok ((bytes.drop offset).take byteCount)

/-- `lib_storage_medium_page_for_write`. -/
def pageForWrite (index : ℕ) : Except Status ((ℕ → UInt8) × Medium) :=
  match m.pages index with
  | some page => .ok (page, m)
  | none =>
    if !faults.allocates index then .error .noMemory
    else
      let offset := index * pageBytes
      let count := min (m.byteCount - offset) pageBytes
      match m.readBase faults offset count with
      | .error status => .error status
      | .ok bytes =>
        -- What lies past the last byte of the base is zero.
        let page := fun i => bytes.getD i 0
        .ok (page, { m with pages := Function.update m.pages index (some page) })

/-- One round of the loop of `lib_storage_medium_read_at`, within a page. -/
def readPage (offset count : ℕ) : Except Status (List UInt8) :=
  match m.pages (offset / pageBytes) with
  | some page => .ok (slice page (offset % pageBytes) count)
  | none => m.readBase faults offset count

/-- The loop of `lib_storage_medium_read_at`. -/
def readPages (offset byteCount : ℕ) : Except Status (List UInt8) :=
  if _h : byteCount = 0 then .ok []
  else
    let count := min (pageBytes - offset % pageBytes) byteCount
    match m.readPage faults offset count with
    | .error status => .error status
    | .ok bytes =>
      match readPages (offset + count) (byteCount - count) with
      | .error status => .error status
      | .ok rest => .ok (bytes ++ rest)
termination_by byteCount
decreasing_by
  have : offset % pageBytes < pageBytes := Nat.mod_lt _ (by decide)
  omega

/-- `lib_storage_medium_read_at`. -/
def readAt (offset byteCount : ℕ) : Except Status (List UInt8) :=
  if !m.range offset byteCount then .error .invalidArgument
  else if m.mode ≠ .overlay then m.readBase faults offset byteCount
  else m.readPages faults offset byteCount

/-- The file after a write that transfers so many bytes. -/
def storeFile (offset : ℕ) (bytes : List UInt8) : Option (List UInt8) :=
  m.file.map fun file => slice (patch (fun i => file.getD i 0) offset bytes) 0 file.length

theorem storeFile_sized (offset : ℕ) (bytes : List UInt8) :
    ∀ file ∈ m.storeFile offset bytes, file.length = m.byteCount := by
  intro file hfile
  obtain ⟨old, hold, rfl⟩ := Option.map_eq_some_iff.mp hfile
  rw [slice_length]
  exact m.sized old hold

/-- The loop of `lib_storage_medium_write`. -/
def writePages (m : Medium) (faults : Faults) (offset : ℕ) (bytes : List UInt8) :
    Status × Medium :=
  if _h : bytes.length = 0 then (.ok, m)
  else
    let pageIndex := offset / pageBytes
    let pageOffset := offset % pageBytes
    let count := min (pageBytes - pageOffset) bytes.length
    match m.pageForWrite faults pageIndex with
    | .error status => (status, m)
    | .ok (page, m) =>
      let pages := Function.update m.pages pageIndex (some (patch page pageOffset (bytes.take count)))
      writePages { m with pages } faults (offset + count) (bytes.drop count)
termination_by bytes.length
decreasing_by
  have : offset % pageBytes < pageBytes := Nat.mod_lt _ (by decide)
  rw [List.length_drop]
  omega

/-- `lib_storage_medium_write`. -/
def write (offset : ℕ) (bytes : List UInt8) : Status × Medium :=
  if !m.range offset bytes.length then (.invalidArgument, m)
  else
    match m.mode with
    | .readonly => (.invalidState, m)
    | .direct =>
      if faults.seeks offset ≠ .ok then (faults.seeks offset, m)
      else
        let transferred := min ((faults.transfers offset).getD bytes.length) bytes.length
        (if transferred = bytes.length then .ok else .ioError,
          { m with
            file := m.storeFile offset (bytes.take transferred)
            sized := m.storeFile_sized offset _ })
    | .overlay => m.writePages faults offset bytes

/-- `lib_storage_file_flush`. -/
def flush : Status := if faults.flushes then .ok else .ioError

/-- `lib_storage_medium_write_at`. -/
def writeAt (offset : ℕ) (bytes : List UInt8) : Status × Medium :=
  let r := m.write faults offset bytes
  (if r.1 = .ok ∧ m.mode = .direct then flush faults else r.1, r.2)

/-- The loop of `lib_storage_medium_fill_at`. -/
def fill (m : Medium) (faults : Faults) (offset byteCount : ℕ) (value : UInt8) :
    Status × Medium :=
  if _h : byteCount = 0 then (.ok, m)
  else
    let count := min 512 byteCount
    let r := m.write faults offset (List.replicate count value)
    if r.1 ≠ .ok then r else fill r.2 faults (offset + count) (byteCount - count) value
termination_by byteCount
decreasing_by omega

/-- `lib_storage_medium_fill_at`. -/
def fillAt (offset byteCount : ℕ) (value : UInt8) : Status × Medium :=
  if !m.range offset byteCount then (.invalidArgument, m)
  else if byteCount = 0 then (.ok, m)
  else
    let r := m.fill faults offset byteCount value
    -- Partial writes are flushed too, and the first error is kept.
    (if r.1 = .ok ∧ m.mode = .direct then flush faults else r.1, r.2)

/-! ## The array a medium shows -/

/-- The base: zeros where there is no file, and past its end. -/
def base : ℕ → UInt8 := fun i => (m.file.getD []).getD i 0

/-- The array a medium shows. -/
def byte : ℕ → UInt8 := view pageBytes m.base m.pages

variable {m faults} {m' m'' : Medium} {offset byteCount : ℕ} {bytes : List UInt8}

theorem base_of_ge {i : ℕ} (h : m.byteCount ≤ i) : m.base i = 0 := by
  unfold base
  cases hfile : m.file with
  | none => rfl
  | some file =>
    have hsized := m.sized file hfile
    rw [Option.getD_some, List.getD_eq_default _ _ (by omega)]

/-- What is read of the base is there. -/
theorem readBase_ok (h : m.readBase faults offset byteCount = .ok bytes) :
    bytes = slice m.base offset byteCount := by
  unfold readBase at h
  split at h
  · rename_i hzero
    obtain rfl : [] = bytes := Except.ok.inj h
    rw [hzero]
    rfl
  · split at h
    · rename_i hfile
      obtain rfl := Except.ok.inj h
      refine List.ext_getElem (by simp) fun i hi _ => ?_
      simp [slice, base, hfile]
    · rename_i file hfile
      split at h
      · cases h
      · split at h
        · cases h
        · rename_i hshort
          simp only [Bool.or_eq_true, decide_eq_true_eq, not_or, Nat.not_lt] at hshort
          obtain rfl := Except.ok.inj h
          refine List.ext_getElem (by simp; omega) fun i hi hi' => ?_
          rw [slice_length] at hi'
          simp only [slice, base, hfile, Option.getD_some, List.getElem_take, List.getElem_drop,
            List.getElem_map, List.getElem_range]
          rw [List.getD_eq_getElem]

/-- … and without faults it is read. -/
theorem readBase_none (h : offset + byteCount ≤ m.byteCount) :
    m.readBase .none offset byteCount = .ok (slice m.base offset byteCount) := by
  have hsome : ∃ bytes, m.readBase .none offset byteCount = .ok bytes := by
    unfold readBase
    split
    · exact ⟨_, rfl⟩
    · cases hfile : m.file with
      | none => exact ⟨_, rfl⟩
      | some file =>
        have hsized := m.sized file hfile
        simp [Faults.none, show ¬file.length < offset + byteCount by omega]
  obtain ⟨bytes, hbytes⟩ := hsome
  rw [hbytes, readBase_ok hbytes]

/-- The medium is the same but for its pages. -/
def Same (m m' : Medium) : Prop :=
  m'.file = m.file ∧ m'.byteCount = m.byteCount ∧ m'.mode = m.mode

theorem Same.refl (m : Medium) : Same m m := ⟨rfl, rfl, rfl⟩

theorem Same.trans (h : Same m m') (h' : Same m' m'') : Same m m'' :=
  ⟨h'.1.trans h.1, h'.2.1.trans h.2.1, h'.2.2.trans h.2.2⟩

theorem page_index (index : ℕ) {j : ℕ} (h : j < pageBytes) :
    (index * pageBytes + j) / pageBytes = index ∧ (index * pageBytes + j) % pageBytes = j := by
  rw [Nat.mul_comm, Nat.mul_add_mod, Nat.mul_add_div (by decide), Nat.div_eq_of_lt h,
    Nat.mod_eq_of_lt h]
  exact ⟨rfl, rfl⟩

/-- A page that is about to be written shows what the medium shows there. -/
theorem pageForWrite_ok {index : ℕ} {page : ℕ → UInt8}
    (h : m.pageForWrite faults index = .ok (page, m')) :
    Same m m' ∧ m'.byte = m.byte ∧ ∀ j < pageBytes, page j = m.byte (index * pageBytes + j) := by
  unfold pageForWrite at h
  split at h
  · rename_i hpage
    obtain ⟨rfl, rfl⟩ := Prod.mk.inj (Except.ok.inj h)
    refine ⟨.refl m, rfl, fun j hj => ?_⟩
    obtain ⟨hdiv, hmod⟩ := page_index index hj
    rw [byte, view_of_page (by rw [hdiv]; exact hpage), hmod]
  · rename_i hnone
    split at h
    · cases h
    dsimp only at h
    split at h
    · cases h
    rename_i bytes hbase
    obtain ⟨rfl, rfl⟩ := Prod.mk.inj (Except.ok.inj h)
    have hbytes := readBase_ok hbase
    have hpage : ∀ j < pageBytes, bytes.getD j 0 = m.byte (index * pageBytes + j) := by
      intro j hj
      rw [byte, view_of_base (by rw [(page_index index hj).1]; exact hnone), hbytes]
      rcases Nat.lt_or_ge j (min (m.byteCount - index * pageBytes) pageBytes) with hin | hout
      · rw [List.getD_eq_getElem _ _ (by rwa [slice_length])]
        simp [slice]
      · rw [List.getD_eq_default _ _ (by rwa [slice_length]), base_of_ge (by omega)]
    refine ⟨⟨rfl, rfl, rfl⟩, ?_, hpage⟩
    -- Storing nothing in the page shows that it may be put in its place.
    have hdiv : index * pageBytes / pageBytes = index := Nat.mul_div_cancel _ pageBytes_pos
    have hupdate : view pageBytes m.base (Function.update m.pages (index * pageBytes / pageBytes)
        (some (patch (fun i => bytes.getD i 0) (index * pageBytes % pageBytes) [])))
        = patch m.byte (index * pageBytes) [] :=
      view_update pageBytes_pos (Nat.zero_le _) (by rw [hdiv]; exact hpage)
    rw [hdiv, patch_nil, patch_nil] at hupdate
    exact hupdate

theorem readBase_error {status : Status} (h : m.readBase faults offset byteCount = .error status) :
    status ≠ .ok := by
  unfold readBase at h
  split at h
  · cases h
  · split at h
    · cases h
    · split at h
      · rename_i hseek
        rwa [← Except.error.inj h]
      · split at h
        · rw [← Except.error.inj h]
          decide
        · cases h

theorem pageForWrite_error {index : ℕ} {status : Status}
    (h : m.pageForWrite faults index = .error status) : status ≠ .ok := by
  unfold pageForWrite at h
  split at h
  · cases h
  · split at h
    · rw [← Except.error.inj h]
      decide
    · dsimp only at h
      split at h
      · rename_i hbase
        rw [← Except.error.inj h]
        exact readBase_error hbase
      · cases h

/-- The outcome of storing bytes: all of them, or a first part of them and an error. -/
structure Stored (m : Medium) (offset : ℕ) (bytes : List UInt8) (r : Status × Medium) : Prop where
  same : Same m r.2
  stored : ∃ k ≤ bytes.length, (r.1 = .ok → k = bytes.length) ∧
    r.2.byte = patch m.byte offset (bytes.take k)

theorem Stored.nothing (m : Medium) (offset : ℕ) {status : Status} (h : status = .ok → bytes = []) :
    Stored m offset bytes (status, m) :=
  ⟨.refl m, 0, Nat.zero_le _, fun hok => by simp [h hok], by simp⟩

/-- Storing goes on where it stopped. -/
theorem Stored.append {first second : List UInt8} {r : Status × Medium} (hsame : Same m m')
    (hfirst : m'.byte = patch m.byte offset first)
    (hsecond : Stored m' (offset + first.length) second r) :
    Stored m offset (first ++ second) r := by
  obtain ⟨hsame', k, hk, hok, hbyte⟩ := hsecond
  refine ⟨hsame.trans hsame', first.length + k, by simp [hk], fun h => by simp [hok h], ?_⟩
  rw [hbyte, hfirst, patch_append, List.take_length_add_append]

/-- An error ends it. -/
theorem Stored.part {first second : List UInt8} {r : Status × Medium} (h : Stored m offset first r)
    (herror : r.1 ≠ .ok) : Stored m offset (first ++ second) r := by
  obtain ⟨hsame, k, hk, -, hbyte⟩ := h
  refine ⟨hsame, k, Nat.le_trans hk (by simp), fun hok => absurd hok herror, ?_⟩
  rw [hbyte, List.take_append_of_le_length hk]

theorem Stored.byte_eq {r : Status × Medium} (h : Stored m offset bytes r) (hok : r.1 = .ok) :
    r.2.byte = patch m.byte offset bytes := by
  obtain ⟨-, k, -, hk, hbyte⟩ := h
  rw [hbyte, hk hok, List.take_length]

/-- **The write loop** stores its bytes from the first on. -/
theorem writePages_stored (m : Medium) (faults : Faults) (offset : ℕ) (bytes : List UInt8) :
    Stored m offset bytes (m.writePages faults offset bytes) := by
  fun_induction writePages m faults offset bytes with
  | case1 m offset bytes hempty =>
    exact .nothing m offset fun _ => List.length_eq_zero_iff.mp hempty
  | case2 m offset bytes hne index status herror =>
    exact .nothing m offset fun hok => absurd hok (pageForWrite_error herror)
  | case3 m offset bytes hne index pageOffset count page m₁ hpage pages ih =>
    obtain ⟨hsame, hbyte, hshows⟩ := pageForWrite_ok hpage
    have hlength : (bytes.take count).length = count :=
      List.length_take_of_le (Nat.min_le_right _ _)
    have hstored : byte { m₁ with pages } = patch m.byte offset (bytes.take count) := by
      rw [← hbyte]
      refine view_update pageBytes_pos (by rw [hlength]; exact Nat.min_le_left _ _) fun j hj => ?_
      rw [hshows j hj, ← hbyte]
      rfl
    have hsame' : Same m { m₁ with pages } := hsame
    have happend : Stored m offset (bytes.take count ++ bytes.drop count)
        (writePages { m₁ with pages } faults (offset + count) (bytes.drop count)) :=
      .append hsame' hstored (by rwa [hlength])
    rwa [List.take_append_drop] at happend

theorem write_stored (hmode : m.mode = .overlay) (hrange : m.range offset bytes.length) :
    Stored m offset bytes (m.write faults offset bytes) := by
  unfold write
  rw [if_neg (by simpa using hrange), hmode]
  exact writePages_stored m faults offset bytes

theorem range_iff : m.range offset byteCount ↔ offset + byteCount ≤ m.byteCount := by
  simp only [range, Bool.and_eq_true, decide_eq_true_eq]
  omega

theorem replicate_split (value : UInt8) {count byteCount : ℕ} (h : count ≤ byteCount) :
    List.replicate byteCount value
      = List.replicate count value ++ List.replicate (byteCount - count) value := by
  rw [List.replicate_append_replicate, Nat.add_sub_cancel' h]

/-- A chunk of the fill. -/
theorem chunk_stored {value : UInt8} {count byteCount : ℕ} (hmode : m.mode = .overlay)
    (hrange : m.range offset byteCount) (h : count ≤ byteCount) :
    Stored m offset (List.replicate count value) (m.write faults offset (List.replicate count value)) := by
  rw [range_iff] at hrange
  exact write_stored hmode (by rw [range_iff, List.length_replicate]; omega)

/-- **The fill loop** stores its value from the first byte on. -/
theorem fill_stored (m : Medium) (faults : Faults) (offset byteCount : ℕ) (value : UInt8)
    (hmode : m.mode = .overlay) (hrange : m.range offset byteCount) :
    Stored m offset (List.replicate byteCount value) (m.fill faults offset byteCount value) := by
  fun_induction fill m faults offset byteCount value with
  | case1 m offset => exact .nothing m offset fun _ => rfl
  | case2 m offset byteCount hne count r herror =>
    rw [replicate_split value (Nat.min_le_right _ _ : count ≤ byteCount)]
    exact (chunk_stored hmode hrange (Nat.min_le_right _ _)).part herror
  | case3 m offset byteCount hne count r hok ih =>
    have hchunk : Stored m offset (List.replicate count value) r :=
      chunk_stored hmode hrange (Nat.min_le_right _ _)
    rw [replicate_split value (Nat.min_le_right _ _ : count ≤ byteCount)]
    refine .append hchunk.same (hchunk.byte_eq (not_not.mp hok)) ?_
    rw [List.length_replicate]
    refine ih (hchunk.same.2.2.trans hmode) ?_
    rw [range_iff, hchunk.same.2.1]
    rw [range_iff] at hrange
    omega

/-- A round reads what the medium shows. -/
theorem readPage_ok {count : ℕ} (hcount : count ≤ pageBytes - offset % pageBytes)
    (h : m.readPage faults offset count = .ok bytes) : bytes = slice m.byte offset count := by
  unfold readPage at h
  split at h
  · rename_i page hpage
    rw [← Except.ok.inj h]
    refine slice_congr fun i hi => ?_
    obtain ⟨hdiv, hmod⟩ := div_of_within (Nat.lt_of_lt_of_le hi hcount)
    rw [byte, view_of_page (by rw [hdiv]; exact hpage), hmod]
  · rename_i hnone
    rw [readBase_ok h]
    refine slice_congr fun i hi => ?_
    rw [byte, view_of_base (by rw [(div_of_within (Nat.lt_of_lt_of_le hi hcount)).1]; exact hnone)]

/-- **The read loop** reads what the medium shows. -/
theorem readPages_ok (h : m.readPages faults offset byteCount = .ok bytes) :
    bytes = slice m.byte offset byteCount := by
  fun_induction readPages m faults offset byteCount generalizing bytes with
  | case1 offset =>
    rw [← Except.ok.inj h]
    rfl
  | case2 | case3 => cases h
  | case4 offset byteCount hne count chunk hchunk rest hrest =>
    rename_i ih
    rw [← Except.ok.inj h, readPage_ok (Nat.min_le_left _ _) hchunk, ih hrest, slice_append,
      Nat.add_sub_cancel' (Nat.min_le_right _ _)]

theorem readPage_none {count : ℕ} (h : offset + count ≤ m.byteCount) :
    ∃ bytes, m.readPage .none offset count = .ok bytes := by
  unfold readPage
  split
  · exact ⟨_, rfl⟩
  · exact ⟨_, readBase_none h⟩

/-- Without faults a request in range succeeds. -/
theorem readPages_none (h : offset + byteCount ≤ m.byteCount) :
    ∃ bytes, m.readPages .none offset byteCount = .ok bytes := by
  induction byteCount using Nat.strongRecOn generalizing offset with
  | ind byteCount ih =>
    unfold readPages
    split
    · exact ⟨_, rfl⟩
    rename_i hne
    dsimp only
    have hmod : offset % pageBytes < pageBytes := Nat.mod_lt _ pageBytes_pos
    generalize hcount : min (pageBytes - offset % pageBytes) byteCount = count
    obtain ⟨chunk, hchunk⟩ := readPage_none (m := m) (show offset + count ≤ m.byteCount by omega)
    obtain ⟨rest, hrest⟩ := ih (byteCount - count) (by omega)
      (show offset + count + (byteCount - count) ≤ m.byteCount by omega)
    rw [hchunk, hrest]
    exact ⟨_, rfl⟩

theorem pageForWrite_none {index : ℕ} (h : index * pageBytes ≤ m.byteCount) :
    ∃ page m', m.pageForWrite .none index = .ok (page, m') := by
  unfold pageForWrite
  split
  · exact ⟨_, _, rfl⟩
  · rw [if_neg (by simp [Faults.none])]
    dsimp only
    rw [readBase_none (by omega)]
    exact ⟨_, _, rfl⟩

theorem writePages_none (h : offset + bytes.length ≤ m.byteCount) :
    (m.writePages .none offset bytes).1 = .ok := by
  fun_induction writePages m .none offset bytes with
  | case1 => rfl
  | case2 m offset bytes hne index status herror =>
    have hindex : index * pageBytes ≤ offset := Nat.div_mul_le_self _ _
    obtain ⟨page, m', hok⟩ := pageForWrite_none (show index * pageBytes ≤ m.byteCount by omega)
    rw [hok] at herror
    cases herror
  | case3 m offset bytes hne index pageOffset count page m₁ hpage pages ih =>
    refine ih ?_
    obtain ⟨-, hcount, -⟩ := (pageForWrite_ok hpage).1
    have : count ≤ bytes.length := Nat.min_le_right _ _
    rw [List.length_drop]
    dsimp only
    omega

theorem write_none (hmode : m.mode = .overlay) (h : offset + bytes.length ≤ m.byteCount) :
    (m.write .none offset bytes).1 = .ok := by
  unfold write
  rw [if_neg (by simpa using range_iff.2 h), hmode]
  exact writePages_none h

theorem fill_none (hmode : m.mode = .overlay) (value : UInt8)
    (h : offset + byteCount ≤ m.byteCount) : (m.fill .none offset byteCount value).1 = .ok := by
  fun_induction fill m .none offset byteCount value with
  | case1 => rfl
  | case2 m offset byteCount hne count r herror =>
    refine absurd (write_none hmode ?_) herror
    rw [List.length_replicate]
    omega
  | case3 m offset byteCount hne count r hok ih =>
    have hrange : m.range offset (List.replicate count value).length := by
      rw [range_iff, List.length_replicate]
      omega
    have hchunk : Stored m offset (List.replicate count value) r := write_stored hmode hrange
    obtain ⟨-, hbyteCount, hsame⟩ := hchunk.same
    refine ih (hsame.trans hmode) ?_
    rw [hbyteCount]
    omega

end Medium

/-! ## Requests -/

/-- A request to a medium. -/
inductive Request where
  | readAt (offset byteCount : ℕ)
  | writeAt (offset : ℕ) (bytes : List UInt8)
  | fillAt (offset byteCount : ℕ) (value : UInt8)

/-- The place a request asks for. -/
def Request.offset : Request → ℕ
  | .readAt offset _ | .writeAt offset _ | .fillAt offset _ _ => offset

def Request.byteCount : Request → ℕ
  | .readAt _ byteCount | .fillAt _ byteCount _ => byteCount
  | .writeAt _ bytes => bytes.length

/-- What a request returns: a status, and the bytes of a read that succeeds. -/
structure Reply where
  status : Status
  bytes : List UInt8 := []

namespace Medium

/-- One request. -/
def step (m : Medium) (faults : Faults) : Request → Reply × Medium
  | .readAt offset byteCount =>
    match m.readAt faults offset byteCount with
    | .ok bytes => (⟨.ok, bytes⟩, m)
    | .error status => (⟨status, []⟩, m)
  | .writeAt offset bytes =>
    let r := m.writeAt faults offset bytes
    (⟨r.1, []⟩, r.2)
  | .fillAt offset byteCount value =>
    let r := m.fillAt faults offset byteCount value
    (⟨r.1, []⟩, r.2)

/-- A sequence of requests, with what each returns. -/
def run : Medium → List (Request × Faults) → List Reply × Medium
  | m, [] => ([], m)
  | m, (request, faults) :: rest =>
    let r := m.step faults request
    let s := r.2.run rest
    (r.1 :: s.1, s.2)

end Medium

/-! ## The flat array -/

namespace Flat

/-- Bytes stored in a flat array of `n` bytes: all of them where the status says so, and a first part
of them otherwise; nothing where they do not fit. -/
def Stores (n : ℕ) (flat : ℕ → UInt8) (offset : ℕ) (bytes : List UInt8) (faults : Faults)
    (status : Status) (flat' : ℕ → UInt8) : Prop :=
  if offset + bytes.length ≤ n then
    (∃ k ≤ bytes.length, (status = .ok → k = bytes.length) ∧
      flat' = patch flat offset (bytes.take k)) ∧
    (faults = .none → status = .ok)
  else status = .invalidArgument ∧ flat' = flat

/-- What a flat array of `n` bytes may do with a request. -/
def Permits (n : ℕ) (flat : ℕ → UInt8) : Request → Faults → Reply → (ℕ → UInt8) → Prop
  | .readAt offset byteCount, faults, reply, flat' =>
    flat' = flat ∧
      if offset + byteCount ≤ n then
        (reply.status = .ok → reply.bytes = slice flat offset byteCount) ∧
          (faults = .none → reply.status = .ok)
      else reply.status = .invalidArgument
  | .writeAt offset bytes, faults, reply, flat' =>
    Stores n flat offset bytes faults reply.status flat'
  | .fillAt offset byteCount value, faults, reply, flat' =>
    Stores n flat offset (List.replicate byteCount value) faults reply.status flat'

/-- … and with a sequence of them. -/
inductive Runs (n : ℕ) : (ℕ → UInt8) → List (Request × Faults) → List Reply → (ℕ → UInt8) → Prop
  | nil (flat) : Runs n flat [] [] flat
  | cons {flat flat' flat'' request faults reply requests replies} :
    Permits n flat request faults reply flat' → Runs n flat' requests replies flat'' →
    Runs n flat ((request, faults) :: requests) (reply :: replies) flat''

end Flat

namespace Medium

variable {m : Medium} {faults : Faults} {offset byteCount : ℕ} {bytes : List UInt8}

theorem writeAt_overlay (hmode : m.mode = .overlay) :
    m.writeAt faults offset bytes = m.write faults offset bytes := by
  simp [writeAt, hmode]

theorem writeAt_stores (hmode : m.mode = .overlay) :
    Same m (m.writeAt faults offset bytes).2 ∧
      Flat.Stores m.byteCount m.byte offset bytes faults (m.writeAt faults offset bytes).1
        (m.writeAt faults offset bytes).2.byte := by
  rw [writeAt_overlay hmode, Flat.Stores]
  split
  · rename_i h
    have hstored : Stored m offset bytes (m.write faults offset bytes) :=
      write_stored hmode (range_iff.2 h)
    refine ⟨hstored.same, hstored.stored, fun hfaults => ?_⟩
    rw [hfaults]
    exact write_none hmode h
  · rename_i h
    have hrange : ¬m.range offset bytes.length := fun hr => h (range_iff.1 hr)
    rw [write, if_pos (by simpa using hrange)]
    exact ⟨.refl m, rfl, rfl⟩

theorem fillAt_stores (hmode : m.mode = .overlay) (value : UInt8) :
    Same m (m.fillAt faults offset byteCount value).2 ∧
      Flat.Stores m.byteCount m.byte offset (List.replicate byteCount value) faults
        (m.fillAt faults offset byteCount value).1
        (m.fillAt faults offset byteCount value).2.byte := by
  rw [Flat.Stores, List.length_replicate, fillAt]
  by_cases h : offset + byteCount ≤ m.byteCount
  · rw [if_pos h, if_neg (by simpa using range_iff.2 h)]
    split
    · rename_i hzero
      exact ⟨.refl m, ⟨0, Nat.zero_le _, by simp [hzero], by simp⟩, fun _ => rfl⟩
    · have hstored := fill_stored m faults offset byteCount value hmode (range_iff.2 h)
      refine ⟨hstored.same, ?_, fun hfaults => ?_⟩
      · simpa [hmode] using hstored.stored
      · simpa [hmode, hfaults] using fill_none hmode value h
  · have hrange : ¬m.range offset byteCount := fun hr => h (range_iff.1 hr)
    rw [if_neg h, if_pos (by simpa using hrange)]
    exact ⟨.refl m, rfl, rfl⟩

theorem readPages_error {status : Status}
    (h : m.readPages faults offset byteCount = .error status) : status ≠ .ok := by
  fun_induction readPages m faults offset byteCount with
  | case1 | case4 => cases h
  | case2 offset byteCount hne count status' hpage =>
    rw [← Except.error.inj h]
    unfold readPage at hpage
    split at hpage
    · cases hpage
    · exact readBase_error hpage
  | case3 offset byteCount hne count chunk hchunk status' hrest ih =>
    exact ih (hrest.trans h)

theorem readAt_error {status : Status} (h : m.readAt faults offset byteCount = .error status) :
    status ≠ .ok := by
  unfold readAt at h
  split at h
  · rw [← Except.error.inj h]
    decide
  · split at h
    · exact readBase_error h
    · exact readPages_error h

theorem readAt_slice (hmode : m.mode = .overlay) (h : offset + byteCount ≤ m.byteCount) :
    (∀ faults bytes, m.readAt faults offset byteCount = .ok bytes →
      bytes = slice m.byte offset byteCount) ∧
      ∃ bytes, m.readAt .none offset byteCount = .ok bytes := by
  have hread (faults : Faults) : m.readAt faults offset byteCount
      = m.readPages faults offset byteCount := by
    rw [readAt, if_neg (by simpa using range_iff.2 h), if_neg (by simp [hmode])]
  rw [hread]
  refine ⟨fun faults bytes hok => readPages_ok (hread faults ▸ hok), readPages_none h⟩

/-- A request out of range is refused, and nothing changes. -/
theorem step_out_of_range {request : Request}
    (h : m.byteCount < request.offset + request.byteCount) :
    m.step faults request = (⟨.invalidArgument, []⟩, m) := by
  have hrange : m.range request.offset request.byteCount = false := by
    by_contra hr
    have := range_iff.1 (by simpa using hr : m.range request.offset request.byteCount)
    omega
  cases request with
  | readAt offset byteCount =>
    simp only [Request.offset, Request.byteCount] at hrange
    simp [step, readAt, hrange]
  | writeAt offset bytes =>
    simp only [Request.offset, Request.byteCount] at hrange
    simp [step, writeAt, write, hrange]
  | fillAt offset byteCount value =>
    simp only [Request.offset, Request.byteCount] at hrange
    simp [step, fillAt, hrange]

/-- **Step**: a request to an overlay is one to its array. -/
theorem step_permits (hmode : m.mode = .overlay) (request : Request) (faults : Faults) :
    Same m (m.step faults request).2 ∧
      Flat.Permits m.byteCount m.byte request faults (m.step faults request).1
        (m.step faults request).2.byte := by
  cases request with
  | readAt offset byteCount =>
    rw [Flat.Permits]
    by_cases h : offset + byteCount ≤ m.byteCount
    · obtain ⟨hok, bytes, hnone⟩ := readAt_slice hmode h
      rw [if_pos h, step]
      split
      · rename_i hread
        exact ⟨.refl m, rfl, fun _ => hok _ _ hread, fun _ => rfl⟩
      · rename_i hread
        refine ⟨.refl m, rfl, fun hstatus => ?_, fun hfaults => ?_⟩
        · exact absurd hstatus (readAt_error hread)
        · rw [hfaults, hnone] at hread
          cases hread
    · have hout : m.byteCount < (Request.readAt offset byteCount).offset +
          (Request.readAt offset byteCount).byteCount := Nat.not_le.mp h
      rw [if_neg h, step_out_of_range hout]
      exact ⟨.refl m, rfl, rfl⟩
  | writeAt offset bytes => exact writeAt_stores hmode
  | fillAt offset byteCount value => exact fillAt_stores hmode value

/-- **Run**: a sequence of requests to an overlay is one to its array. -/
theorem run_permits (hmode : m.mode = .overlay) (requests : List (Request × Faults)) :
    Same m (m.run requests).2 ∧
      Flat.Runs m.byteCount m.byte requests (m.run requests).1 (m.run requests).2.byte := by
  induction requests generalizing m with
  | nil => exact ⟨.refl m, .nil _⟩
  | cons head rest ih =>
    obtain ⟨request, faults⟩ := head
    obtain ⟨hsame, hpermits⟩ := step_permits hmode request faults
    obtain ⟨hsame', hruns⟩ := ih (hsame.2.2.trans hmode)
    rw [hsame.2.1] at hruns
    exact ⟨hsame.trans hsame', .cons hpermits hruns⟩

end Medium

/-! ## Overlays -/

/-- What an overlay is opened over: a file, or nothing. -/
inductive Base where
  | file (bytes : List UInt8)
  | none (byteCount : ℕ)

namespace Base

def byteCount : Base → ℕ
  | .file bytes => bytes.length
  | .none byteCount => byteCount

/-- The array of a base: its bytes, or zeros. -/
def byte : Base → ℕ → UInt8
  | .file bytes, i => bytes.getD i 0
  | .none _, _ => 0

theorem length_of_mem (bytes : List UInt8) (l : List UInt8) (h : l ∈ some bytes) :
    l.length = bytes.length := by
  rw [Option.mem_some_iff.mp h]

/-- `lib_storage_medium_open` of an overlay, and `lib_storage_medium_create_zero_overlay`. -/
def overlay : Base → Medium
  | .file bytes => ⟨some bytes, fun _ => .none, bytes.length, .overlay, length_of_mem bytes⟩
  | .none byteCount => ⟨.none, fun _ => .none, byteCount, .overlay, nofun⟩

end Base

/-- An overlay over any base, under any sequence of requests and of faults, is one flat array: the
base's bytes at first, then as `Flat.Permits` says.  The base stays as it is, and a request that is
out of range leaves the whole medium as it is. -/
theorem overlay_is_one_array (base : Base) (requests : List (Request × Faults)) :
    let r := base.overlay.run requests
    Flat.Runs base.byteCount base.byte requests r.1 r.2.byte ∧
    r.2.file = base.overlay.file ∧
    ∀ (request : Request) (faults : Faults),
      base.byteCount < request.offset + request.byteCount →
      r.2.step faults request = (⟨.invalidArgument, []⟩, r.2) := by
  have hmode : base.overlay.mode = .overlay := by cases base <;> rfl
  have hcount : base.overlay.byteCount = base.byteCount := by cases base <;> rfl
  have hbyte : base.overlay.byte = base.byte := by cases base <;> rfl
  obtain ⟨⟨hfile, hsame, -⟩, hruns⟩ := base.overlay.run_permits hmode requests
  rw [hcount, hbyte] at hruns
  refine ⟨hruns, hfile, fun request faults h => Medium.step_out_of_range ?_⟩
  rw [hsame, hcount]
  exact h

end SoftPC.Storage
