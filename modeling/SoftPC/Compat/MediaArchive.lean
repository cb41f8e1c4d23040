import SoftPC.Compat.SnapshotStream
import Mathlib.Algebra.Order.BigOperators.Group.List
import Mathlib.Algebra.Order.Group.Nat

/-!
# Compat/MediaArchive — the media's section of a snapshot

`softpc_media_archive_write` and `softpc_media_archive_read` of `compat/media_snapshot.c`.  A slot that
is present has its path, the size and digest of its base, and the pages that differ from it, in
increasing order.

The path is a C string in an array of the slot: what is read of it is put there whole, and what is
written of it ends at its first NUL.
-/

namespace SoftPC.Snapshot

open Decoder

/-- `media_page`, with as many bytes as it counts. -/
structure MediaPage where
  offset : BitVec 64
  count : BitVec 32
  bytes : List UInt8
  deriving DecidableEq

/-- `media_slot`, present. -/
structure MediaSlot where
  mode : BitVec 32
  cylinder : BitVec 32
  size : BitVec 64
  digest : List UInt8
  path : List UInt8
  pageCount : BitVec 64
  pages : List MediaPage
  deriving DecidableEq

/-- `softpc_media_archive`. -/
structure MediaArchive where
  slots : Fin 4 → Option MediaSlot
  prepared : Bool := false

def mediaBlockBytes : ℕ := 4096

/-- `SOFTPC_MEDIA_ARCHIVE_PATH_MAX`. -/
def pathMax : ℕ := 1024

/-! ## Slots -/

def writePage (page : MediaPage) : List UInt8 :=
  writeU64 page.offset ++ writeU32 page.count ++ page.bytes

/-- A slot, its path as long as it is. -/
def writeSlot : Option MediaSlot → List UInt8
  | none => writeU32 0
  | some slot =>
    writeU32 1 ++ writeU32 slot.mode ++ writeU32 slot.cylinder ++ writeU64 slot.size ++ slot.digest ++
      writeU32 (.ofNat 32 slot.path.length) ++ slot.path ++ writeU64 slot.pageCount ++
      slot.pages.flatMap writePage

/-- What the reader asks of a page, with the offset of the one before it. -/
def pageAccepts (size : BitVec 64) (previous : Option (BitVec 64)) (offset : BitVec 64)
    (bytes : BitVec 32) : Bool :=
  !(offset.toNat ≥ size.toNat || offset.toNat % mediaBlockBytes ≠ 0 ||
    previous.any (offset.toNat ≤ ·.toNat) || bytes.toNat == 0 ||
    bytes.toNat != if size.toNat - offset.toNat < mediaBlockBytes then size.toNat - offset.toNat
      else mediaBlockBytes)

/-- What the reader asks of a slot; `lib_size` has 64 bits. -/
def slotAccepts (index : Fin 4) (mode cylinder : BitVec 32) (size pageCount : BitVec 64) : Bool :=
  !(mode.toNat > 2 || size.toNat == 0 || size.toNat > 2 ^ 64 - 1 || size.toNat < 512 ||
    (index.val < 2 && size.toNat % 512 ≠ 0) || cylinder.toNat > (if index.val < 2 then 255 else 0) ||
    pageCount.toNat > (size.toNat - 1) / mediaBlockBytes + 1 ||
    (mode.toNat ≠ 2 && pageCount.toNat ≠ 0))

/-- The loop over the pages. -/
def readPages (size : BitVec 64) : ℕ → Option (BitVec 64) → Reader (List MediaPage)
  | 0, _ => pure []
  | count + 1, previous => do
    let offset ← readU64
    let bytes ← readU32
    ensure (pageAccepts size previous offset bytes) .invalidArgument
    storage .noMemory
    let content ← cells bytes.toNat
    let pages ← readPages size count (some offset)
    pure (⟨offset, bytes, content⟩ :: pages)

/-- A slot, its path as it stands in the stream. -/
def readSlot (index : Fin 4) : Reader (Option MediaSlot) := do
  let present ← readU32
  ensure (present.toNat ≤ 1) .invalidArgument
  if present = 0 then pure none
  else do
    let mode ← readU32
    let cylinder ← readU32
    let size ← readU64
    let digest ← cells 32
    let pathLength ← readU32
    ensure (pathLength.toNat != 0 && pathLength.toNat < pathMax) .invalidArgument
    let path ← cells pathLength.toNat
    let pageCount ← readU64
    ensure (slotAccepts index mode cylinder size pageCount) .invalidArgument
    let pages ← readPages size pageCount.toNat none
    pure (some ⟨mode, cylinder, size, digest, path, pageCount, pages⟩)

/-! ## Paths -/

/-- The array of a path that is read, zero past it. -/
def pathBuffer (bytes : List UInt8) : List UInt8 := bytes ++ List.replicate (pathMax - bytes.length) 0

/-- The text of an array, of `lib_text_length` bytes. -/
def text (path : List UInt8) : List UInt8 := path.takeWhile (· ≠ 0)

def MediaSlot.store (slot : MediaSlot) : MediaSlot := { slot with path := pathBuffer slot.path }

def MediaSlot.written (slot : MediaSlot) : MediaSlot := { slot with path := text slot.path }

/-- `softpc_media_archive_write`. -/
def mediaArchiveWrite (archive : MediaArchive) : List UInt8 :=
  writeFields (fun _ slot => writeSlot (slot.map MediaSlot.written)) (List.finRange 4) archive.slots

/-- The slots of the stream. -/
def readSlots : Reader (Fin 4 → Option MediaSlot) :=
  readFields readSlot (List.finRange 4) fun _ => none

/-- `softpc_media_archive_read`. -/
def mediaArchiveRead : Reader MediaArchive := do
  storage .noMemory
  let slots ← readSlots
  pure ⟨fun index => (slots index).map MediaSlot.store, false⟩

/-! ## What is read is what was written -/

/-- Pages the reader admits, after one at `previous`. -/
def PagesFit (size : BitVec 64) : Option (BitVec 64) → List MediaPage → Prop
  | _, [] => True
  | previous, page :: pages =>
    pageAccepts size previous page.offset page.count = true ∧ page.bytes.length = page.count.toNat ∧
      PagesFit size (some page.offset) pages

/-- A slot of the stream that the reader admits. -/
structure MediaSlot.Fits (index : Fin 4) (slot : MediaSlot) : Prop where
  digest : slot.digest.length = 32
  path_ne_nil : slot.path ≠ []
  path_lt : slot.path.length < pathMax
  accepts : slotAccepts index slot.mode slot.cylinder slot.size slot.pageCount = true
  pageCount : slot.pages.length = slot.pageCount.toNat
  pages : PagesFit slot.size none slot.pages

variable {size : BitVec 64} {index : Fin 4} {previous : Option (BitVec 64)}

theorem parse_cells_append {list : List UInt8} {n : ℕ} (h : list.length = n) (rest : List UInt8) :
    (cells n : Reader _).parse (list ++ rest) = some (list, rest) := (Pairs.cells n).decodes _ _ h

theorem pairs_pages (size : BitVec 64) (n : ℕ) (previous : Option (BitVec 64)) :
    Pairs (readPages size n previous) (fun pages => pages.flatMap writePage)
      fun pages => pages.length = n ∧ PagesFit size previous pages := by
  induction n generalizing previous with
  | zero =>
    refine (Pairs.pure []).congr (fun pages => ?_) fun pages hpages => ?_
    · exact ⟨fun h => List.length_eq_zero_iff.mp h.1, fun h => by rw [h]; exact ⟨rfl, trivial⟩⟩
    · rw [hpages]; rfl
  | succ n ih =>
    refine ⟨fun pages rest hpages => ?_, fun list pages rest h => ?_⟩
    · obtain ⟨hlength, hfit⟩ := hpages
      obtain ⟨page, pages, rfl⟩ := List.exists_cons_of_length_eq_add_one hlength
      obtain ⟨haccepts, hbytes, hfit⟩ := hfit
      have hrest := (ih (some page.offset)).decodes pages rest ⟨Nat.succ_inj.mp hlength, hfit⟩
      simp only [readPages, List.flatMap_cons, writePage, List.append_assoc, parse_bind,
        pairs_u64.decodes _ _ trivial, pairs_u32.decodes _ _ trivial, parse_ensure, haccepts, if_true,
        parse_storage, parse_cells_append hbytes, hrest, Option.bind_some, parse_pure]
    · simp only [readPages, parse_bind_eq_some, parse_ensure_eq_some, parse_storage_eq_some,
        parse_pure_eq_some] at h
      obtain ⟨offset, _, hoffset, bytes, _, hbytes, _, _, ⟨haccepts, rfl⟩, _, _, rfl, content, _,
        hcontent, pages, _, hpages, rfl, rfl⟩ := h
      obtain ⟨rfl, -⟩ := pairs_u64.encodes _ _ _ hoffset
      obtain ⟨rfl, -⟩ := pairs_u32.encodes _ _ _ hbytes
      obtain ⟨rfl, hcount⟩ := (Pairs.cells _).encodes _ _ _ hcontent
      obtain ⟨rfl, hlength, hfit⟩ := (ih _).encodes _ _ _ hpages
      refine ⟨?_, by rw [List.length_cons, hlength], haccepts, hcount, hfit⟩
      simp only [List.flatMap_cons, writePage, List.append_assoc, id]

/-- **A slot** is read as it is written. -/
theorem pairs_slot (index : Fin 4) :
    Pairs (readSlot index) writeSlot fun slot => ∀ s ∈ slot, MediaSlot.Fits index s where
  decodes slot rest h := by
    cases slot with
    | none =>
      simp only [readSlot, writeSlot, parse_bind, pairs_u32.decodes _ _ trivial, Option.bind_some,
        parse_ensure]
      rfl
    | some slot =>
      obtain ⟨hdigest, hne, hlt, haccepts, hcount, hpages⟩ := h slot rfl
      have hlength : (BitVec.ofNat 32 slot.path.length).toNat = slot.path.length := by
        rw [BitVec.toNat_ofNat, Nat.mod_eq_of_lt (hlt.trans (by decide))]
      have hpos : slot.path.length ≠ 0 := mt List.length_eq_zero_iff.mp hne
      have hread := (pairs_pages slot.size slot.pageCount.toNat none).decodes slot.pages rest
        ⟨hcount, hpages⟩
      have hone : ¬(1 : BitVec 32) = 0 := by decide
      have hle : decide ((1 : BitVec 32).toNat ≤ 1) = true := by decide
      simp only [readSlot, writeSlot, List.append_assoc, parse_bind, pairs_u32.decodes _ _ trivial,
        pairs_u64.decodes _ _ trivial, parse_cells_append hdigest, parse_ensure, hlength, hone, hle,
        bne_iff_ne.mpr hpos, decide_eq_true hlt, Bool.and_self, if_true, if_false,
        parse_cells_append rfl, haccepts, hread, Option.bind_some, parse_pure]
  encodes list slot rest h := by
    simp only [readSlot, parse_bind_eq_some, parse_ensure_eq_some] at h
    obtain ⟨present, _, hpresent, _, _, ⟨hle, rfl⟩, h⟩ := h
    obtain ⟨rfl, -⟩ := pairs_u32.encodes _ _ _ hpresent
    split at h
    · rename_i hzero
      obtain ⟨rfl, rfl⟩ := parse_pure_eq_some.mp h
      exact ⟨by rw [hzero]; rfl, nofun⟩
    · rename_i hne
      have hone : present = 1 := by
        apply BitVec.eq_of_toNat_eq
        have hnat : present.toNat ≠ 0 := fun h => hne (BitVec.eq_of_toNat_eq h)
        simp only [decide_eq_true_eq] at hle
        change present.toNat = 1
        omega
      subst hone
      simp only [parse_bind_eq_some, parse_ensure_eq_some, parse_pure_eq_some, Bool.and_eq_true,
        decide_eq_true_eq, bne_iff_ne] at h
      obtain ⟨mode, _, hmode, cylinder, _, hcylinder, size, _, hsize, digest, _, hdigest, pathLength, _,
        hpathLength, _, _, ⟨⟨hpos, hlt⟩, rfl⟩, path, _, hpath, pageCount, _, hpageCount, _, _,
        ⟨haccepts, rfl⟩, pages, _, hpages, rfl, rfl⟩ := h
      obtain ⟨rfl, -⟩ := pairs_u32.encodes _ _ _ hmode
      obtain ⟨rfl, -⟩ := pairs_u32.encodes _ _ _ hcylinder
      obtain ⟨rfl, -⟩ := pairs_u64.encodes _ _ _ hsize
      obtain ⟨rfl, hdigestLength⟩ := (Pairs.cells _).encodes _ _ _ hdigest
      obtain ⟨rfl, -⟩ := pairs_u32.encodes _ _ _ hpathLength
      obtain ⟨rfl, hlength⟩ := (Pairs.cells _).encodes _ _ _ hpath
      obtain ⟨rfl, -⟩ := pairs_u64.encodes _ _ _ hpageCount
      obtain ⟨rfl, hcount, hfit⟩ := (pairs_pages _ _ _).encodes _ _ _ hpages
      refine ⟨?_, ?_⟩
      · simp only [writeSlot, hlength, BitVec.ofNat_toNat, BitVec.setWidth_eq, List.append_assoc, id]
      · rintro _ ⟨⟩
        have hne : path ≠ [] := fun hnil => hpos (by rw [← hlength, hnil]; rfl)
        exact ⟨hdigestLength, hne, hlength.trans_lt hlt, haccepts, hcount, hfit⟩

/-- The slots, one after the other. -/
def writeSlots (slots : Fin 4 → Option MediaSlot) : List UInt8 :=
  writeFields (fun _ => writeSlot) (List.finRange 4) slots

theorem pairs_slots :
    Pairs readSlots writeSlots fun slots => ∀ index, ∀ slot ∈ slots index, MediaSlot.Fits index slot :=
  Pairs.fields pairs_slot (List.nodup_finRange 4) List.mem_finRange _

theorem mediaArchiveWrite_eq (archive : MediaArchive) :
    mediaArchiveWrite archive = writeSlots fun index => (archive.slots index).map MediaSlot.written :=
  rfl

/-- A text ends at the first NUL. -/
theorem text_append_zero {path : List UInt8} (h : 0 ∉ path) (rest : List UInt8) :
    text (path ++ 0 :: rest) = path := by
  have hpath : ∀ byte ∈ path, decide (byte ≠ 0) = true := fun byte hbyte =>
    decide_eq_true fun hzero => h (hzero ▸ hbyte)
  rw [text, List.takeWhile_append_of_pos hpath, List.takeWhile_cons_of_neg (by decide), List.append_nil]

/-- A path without a NUL is the text of its array. -/
theorem text_pathBuffer {path : List UInt8} (h : 0 ∉ path) (hlt : path.length < pathMax) :
    text (pathBuffer path) = path := by
  obtain ⟨n, hn⟩ : ∃ n, pathMax - path.length = n + 1 := ⟨pathMax - path.length - 1, by omega⟩
  rw [pathBuffer, hn, List.replicate_succ, text_append_zero h]

/-- … and of one with a NUL the text is shorter. -/
theorem text_length_lt {path : List UInt8} (h : 0 ∈ path) :
    (text (pathBuffer path)).length < path.length := by
  obtain ⟨first, second, hpath, hfirst⟩ := List.eq_append_cons_of_mem h
  rw [pathBuffer, hpath, List.append_assoc, List.cons_append, text_append_zero hfirst,
    List.length_append, List.length_cons]
  omega

/-- What is read of an archive: the slots of the stream, put into their arrays. -/
theorem mediaArchiveRead_parse {list rest : List UInt8} {archive : MediaArchive} :
    mediaArchiveRead.parse list = some (archive, rest) ↔
      ∃ slots, readSlots.parse list = some (slots, rest) ∧
        archive = ⟨fun index => (slots index).map MediaSlot.store, false⟩ := by
  simp only [mediaArchiveRead, parse_bind_eq_some, parse_storage_eq_some, parse_pure_eq_some]
  constructor
  · rintro ⟨_, _, rfl, slots, _, hslots, rfl, rfl⟩
    exact ⟨slots, hslots, rfl⟩
  · rintro ⟨slots, hslots, rfl⟩
    exact ⟨(), _, rfl, slots, _, hslots, rfl, rfl⟩

/-- An archive as it is captured: texts in their arrays, and slots the reader admits. -/
structure MediaArchive.Fits (archive : MediaArchive) : Prop where
  path : ∀ index, ∀ slot ∈ archive.slots index, slot.path = pathBuffer (text slot.path)
  slots : ∀ index, ∀ slot ∈ archive.slots index, slot.written.Fits index
  prepared : archive.prepared = false

/-- **The media** of a capture are read as they are written. -/
theorem mediaArchiveRead_write {archive : MediaArchive} (h : archive.Fits) (rest : List UInt8) :
    mediaArchiveRead.parse (mediaArchiveWrite archive ++ rest) = some (archive, rest) := by
  rw [mediaArchiveRead_parse]
  refine ⟨fun index => (archive.slots index).map MediaSlot.written, ?_, ?_⟩
  · rw [mediaArchiveWrite_eq]
    refine (pairs_slots).decodes _ _ fun index slot hslot => ?_
    obtain ⟨slot, hmem, rfl⟩ := Option.map_eq_some_iff.mp hslot
    exact h.slots index slot hmem
  · obtain ⟨slots, prepared⟩ := archive
    obtain rfl : prepared = false := h.prepared
    congr 1
    funext index
    cases hslot : slots index with
    | none => simp [hslot]
    | some slot =>
      have hpath := h.path index slot hslot
      simp only [hslot, Option.map_some, MediaSlot.store, MediaSlot.written, ← hpath]

/-! ## What is read, written again -/

/-- A slot of the stream as it would be written again. -/
def MediaSlot.rewritten (slot : MediaSlot) : MediaSlot := slot.store.written

theorem rewritten_eq {slot : MediaSlot} (h : 0 ∉ slot.path) (hlt : slot.path.length < pathMax) :
    slot.rewritten = slot := by
  simp only [MediaSlot.rewritten, MediaSlot.store, MediaSlot.written, text_pathBuffer h hlt]

theorem writeSlot_rewritten_length {slot : MediaSlot} (hlt : slot.path.length < pathMax) :
    (writeSlot (some slot.rewritten)).length ≤ (writeSlot (some slot)).length ∧
      (0 ∈ slot.path →
        (writeSlot (some slot.rewritten)).length < (writeSlot (some slot)).length) := by
  by_cases h : 0 ∈ slot.path
  · have := text_length_lt h
    simp only [writeSlot, MediaSlot.rewritten, MediaSlot.store, MediaSlot.written, List.length_append,
      writeU32, writeU64, writeWord_length]
    omega
  · rw [rewritten_eq h hlt]
    exact ⟨le_rfl, fun hmem => absurd hmem h⟩

/-- **An archive is written again as it was read** where no path has a NUL, and shorter elsewhere. -/
theorem writeSlots_rewritten_length {slots : Fin 4 → Option MediaSlot}
    (hlt : ∀ index, ∀ slot ∈ slots index, slot.path.length < pathMax) :
    (writeSlots fun index => (slots index).map MediaSlot.rewritten).length = (writeSlots slots).length →
      ∀ index, ∀ slot ∈ slots index, 0 ∉ slot.path := by
  intro heq index slot hslot hzero
  have hle : ∀ i ∈ List.finRange 4, (writeSlot ((slots i).map MediaSlot.rewritten)).length ≤
      (writeSlot (slots i)).length := by
    intro i _
    cases hi : slots i with
    | none => exact le_rfl
    | some slot => exact (writeSlot_rewritten_length (hlt i slot hi)).1
  have hlt' : ∃ i ∈ List.finRange 4, (writeSlot ((slots i).map MediaSlot.rewritten)).length <
      (writeSlot (slots i)).length := by
    refine ⟨index, List.mem_finRange index, ?_⟩
    rw [show slots index = some slot from hslot]
    exact (writeSlot_rewritten_length (hlt index slot hslot)).2 hzero
  have hsum := List.sum_lt_sum _ _ hle hlt'
  simp only [writeSlots, writeFields, List.length_flatMap] at heq
  omega

theorem writeSlots_rewritten {slots : Fin 4 → Option MediaSlot}
    (hlt : ∀ index, ∀ slot ∈ slots index, slot.path.length < pathMax)
    (h : ∀ index, ∀ slot ∈ slots index, 0 ∉ slot.path) :
    (fun index => (slots index).map MediaSlot.rewritten) = slots := by
  funext index
  cases hslot : slots index with
  | none => rfl
  | some slot => rw [Option.map_some, rewritten_eq (h index slot hslot) (hlt index slot hslot)]

theorem mediaArchiveWrite_store (slots : Fin 4 → Option MediaSlot) :
    mediaArchiveWrite ⟨fun index => (slots index).map MediaSlot.store, false⟩ =
      writeSlots fun index => (slots index).map MediaSlot.rewritten := by
  rw [mediaArchiveWrite_eq]
  simp only [Option.map_map]
  rfl

end SoftPC.Snapshot
