import SoftPC.Compat.MediaArchive
import SoftPC.Lib.Medium
import SoftPC.Machinery.Numerals
import Mathlib.Data.Fin.VecNotation

/-!
# Compat/MediaSnapshot — media captured, checked and mounted again

`compat/media_snapshot.c`, with the drives of `compat/gfi_image.c` and `compat/hdd_media.c`.  A capture
takes the digest of every base and, of an overlay, the blocks that differ from it; `prepare` checks the
bases without touching a drive; `restore` empties the drives, opens the bases again and applies the
blocks.

`Files` are the host's files; what the host fails at is in `HostFaults`, by slot.
-/

namespace SoftPC.Snapshot

open Storage Overlay

/-! ## The digest -/

def rotate (n bits : UInt32) : UInt32 := (n >>> bits) ||| (n <<< (32 - bits))

/-- The constants of `hash_block`. -/
def roundConstants : List UInt32 :=
  [0x428a2f98, 0x71374491, 0xb5c0fbcf, 0xe9b5dba5, 0x3956c25b, 0x59f111f1, 0x923f82a4, 0xab1c5ed5,
    0xd807aa98, 0x12835b01, 0x243185be, 0x550c7dc3, 0x72be5d74, 0x80deb1fe, 0x9bdc06a7, 0xc19bf174,
    0xe49b69c1, 0xefbe4786, 0x0fc19dc6, 0x240ca1cc, 0x2de92c6f, 0x4a7484aa, 0x5cb0a9dc, 0x76f988da,
    0x983e5152, 0xa831c66d, 0xb00327c8, 0xbf597fc7, 0xc6e00bf3, 0xd5a79147, 0x06ca6351, 0x14292967,
    0x27b70a85, 0x2e1b2138, 0x4d2c6dfc, 0x53380d13, 0x650a7354, 0x766a0abb, 0x81c2c92e, 0x92722c85,
    0xa2bfe8a1, 0xa81a664b, 0xc24b8b70, 0xc76c51a3, 0xd192e819, 0xd6990624, 0xf40e3585, 0x106aa070,
    0x19a4c116, 0x1e376c08, 0x2748774c, 0x34b0bcb5, 0x391c0cb3, 0x4ed8aa4a, 0x5b9cca4f, 0x682e6ff3,
    0x748f82ee, 0x78a5636f, 0x84c87814, 0x8cc70208, 0x90befffa, 0xa4506ceb, 0xbef9a3f7, 0xc67178f2]

/-- The words `a` to `h`. -/
structure HashWords where
  a : UInt32
  b : UInt32
  c : UInt32
  d : UInt32
  e : UInt32
  f : UInt32
  g : UInt32
  h : UInt32
  deriving DecidableEq

/-- The first sixteen words of the schedule: the block's, highest byte first. -/
def blockWords (block : List UInt8) : List UInt32 :=
  (List.range 16).map fun i =>
    let p (j : ℕ) := (block.getD (4 * i + j) 0).toUInt32
    (p 0 <<< 24) ||| (p 1 <<< 16) ||| (p 2 <<< 8) ||| p 3

/-- The whole schedule. -/
def schedule (block : List UInt8) : List UInt32 :=
  (List.range 48).foldl
    (fun w i =>
      let x := w.getD (i + 1) 0
      let y := w.getD (i + 14) 0
      w ++ [w.getD i 0 + (rotate x 7 ^^^ rotate x 18 ^^^ (x >>> 3)) + w.getD (i + 9) 0 +
        (rotate y 17 ^^^ rotate y 19 ^^^ (y >>> 10))])
    (blockWords block)

def hashRound (s : HashWords) (kw : UInt32 × UInt32) : HashWords :=
  let t1 := s.h + (rotate s.e 6 ^^^ rotate s.e 11 ^^^ rotate s.e 25) +
    ((s.e &&& s.f) ^^^ (~~~s.e &&& s.g)) + kw.1 + kw.2
  let t2 := (rotate s.a 2 ^^^ rotate s.a 13 ^^^ rotate s.a 22) +
    ((s.a &&& s.b) ^^^ (s.a &&& s.c) ^^^ (s.b &&& s.c))
  ⟨t1 + t2, s.a, s.b, s.c, s.d + t1, s.e, s.f, s.g⟩

def hashBlock (h : HashWords) (block : List UInt8) : HashWords :=
  let s := (roundConstants.zip (schedule block)).foldl hashRound h
  ⟨h.a + s.a, h.b + s.b, h.c + s.c, h.d + s.d, h.e + s.e, h.f + s.f, h.g + s.g, h.h + s.h⟩

/-- `media_hash`, its block as far as it is used. -/
structure MediaHash where
  h : HashWords
  bytes : UInt64
  block : List UInt8
  used_lt : block.length < 64

def hashBegin : MediaHash where
  h := ⟨0x6a09e667, 0xbb67ae85, 0x3c6ef372, 0xa54ff53a, 0x510e527f, 0x9b05688c, 0x1f83d9ab, 0x5be0cd19⟩
  bytes := 0
  block := []
  used_lt := by decide

/-- The loop of `hash_add`. -/
def hashFill (hash : MediaHash) (input : List UInt8) : MediaHash :=
  if _h : input.length = 0 then hash
  else
    let n := min (64 - hash.block.length) input.length
    let block := hash.block ++ input.take n
    if hfull : block.length = 64 then
      hashFill { hash with h := hashBlock hash.h block, block := [], used_lt := by decide }
        (input.drop n)
    else
      hashFill
        { hash with
          block
          used_lt := by
            have := hash.used_lt
            simp only [block, n, List.length_append, List.length_take] at hfull ⊢
            omega }
        (input.drop n)
termination_by input.length
decreasing_by all_goals
  have := hash.used_lt
  rw [List.length_drop]
  omega

def hashAdd (hash : MediaHash) (input : List UInt8) : MediaHash :=
  hashFill { hash with bytes := hash.bytes + .ofNat input.length } input

def hashEnd (hash : MediaHash) : List UInt8 :=
  let bits := hash.bytes * 8
  let padded := hash.block ++ [0x80]
  let (h, block) :=
    if padded.length > 56 then
      (hashBlock hash.h (padded ++ List.replicate (64 - padded.length) 0), [])
    else (hash.h, padded)
  let last := block ++ List.replicate (56 - block.length) 0 ++
    (List.range 8).map fun i => (bits >>> UInt64.ofNat (8 * (7 - i))).toUInt8
  let h := hashBlock h last
  [h.a, h.b, h.c, h.d, h.e, h.f, h.g, h.h].flatMap fun word =>
    (List.range 4).map fun i => (word >>> UInt32.ofNat (24 - 8 * i)).toUInt8

/-! ## Drives -/

/-- The host's files, by path. -/
abbrev Files := List UInt8 → Option (List UInt8)

/-- `softpc_media_view` of a drive that has a medium. -/
structure Mount where
  path : List UInt8
  medium : Medium
  cylinder : BitVec 32

/-- Floppy drives 0 and 1, then fixed disks 0 and 1. -/
abbrev Drives := Fin 4 → Option Mount

/-- What the host fails at in one phase, by slot. -/
structure HostFaults where
  opens : Fin 4 → Status := fun _ => .ok
  closes : Fin 4 → Status := fun _ => .ok
  /-- The reads of the base. -/
  base : Fin 4 → Faults := fun _ => .none
  /-- The requests to the medium itself. -/
  medium : Fin 4 → Faults := fun _ => .none
  /-- A page of the archive is allocated, by its offset. -/
  allocates : Fin 4 → ℕ → Bool := fun _ _ => true
  creates : Bool := true

/-- Nothing fails. -/
def HostFaults.none : HostFaults := {}

/-- A mode in the archive. -/
def modeWord : Mode → BitVec 32
  | .direct => 0
  | .readonly => 1
  | .overlay => 2

def ofModeWord (word : BitVec 32) : Mode :=
  if word = 0 then .direct else if word = 1 then .readonly else .overlay

/-- `lib_storage_medium_open`. -/
def mediumOpen (files : Files) (opens : Status) (path : List UInt8) (mode : Mode) :
    Except Status Medium :=
  if opens ≠ .ok then .error opens
  else
    match files path with
    | none => .error .ioError
    | some bytes =>
      .ok { file := some bytes, byteCount := bytes.length, mode, sized := Base.length_of_mem bytes }

/-- `softpc_gfi_geometry` accepts, and `softpc_hdd_size_supported`. -/
def geometryAccepts (byteCount : ℕ) : Bool := byteCount % 512 = 0 && byteCount / 512 ≥ 1
def hddSizeSupported (byteCount : ℕ) : Bool := 512 ≤ byteCount && byteCount ≤ 2 ^ 31

/-- What `softpc_platform_floppy_attach` puts into drive A: for a path, and
`softpc_platform_hdd_attach` into C:. -/
def attachFile (files : Files) (opens : Status) (floppy : Bool) (path : List UInt8) (mode : Mode) :
    Option Mount :=
  if path.length ≥ pathMax then none
  else
    match mediumOpen files opens path mode with
    | .error _ => none
    | .ok medium =>
      if floppy then
        if medium.byteCount > 2 ^ 31 - 1 || !geometryAccepts medium.byteCount then none
        else some ⟨path, medium, 0⟩
      else if !hddSizeSupported medium.byteCount then none
      else some ⟨path, medium, 0⟩

/-! ## Capture -/

/-- The loop of `capture_slot`, with the base of an overlay. -/
def captureBlocks (base : Option Medium) (source : Medium) (baseFaults sourceFaults : Faults)
    (allocates : ℕ → Bool) (offset : ℕ) (hash : MediaHash) :
    Except Status (List MediaPage × MediaHash) :=
  if _h : offset < source.byteCount then
    let count := min (source.byteCount - offset) mediaBlockBytes
    match (base.getD source).readAt baseFaults offset count with
    | .error status => .error status
    | .ok original =>
      let next := captureBlocks base source baseFaults sourceFaults allocates (offset + count)
        (hashAdd hash original)
      match base with
      | none => next
      | some _ =>
        match source.readAt sourceFaults offset count with
        | .error status => .error status
        | .ok effective =>
          if original = effective then next
          else if !allocates offset then .error .noMemory
          else
            match next with
            | .error status => .error status
            | .ok (pages, hash) => .ok (⟨.ofNat 64 offset, .ofNat 32 count, effective⟩ :: pages, hash)
  else .ok ([], hash)
termination_by source.byteCount - offset
decreasing_by
  have : 0 < mediaBlockBytes := by decide
  omega

def captureSlot (files : Files) (faults : HostFaults) (index : Fin 4) :
    Option Mount → Except Status (Option MediaSlot)
  | none => .ok none
  | some mount =>
    let source := mount.medium
    if mount.path.length ≥ pathMax then .error .invalidArgument
    else
      let opened :=
        if source.mode = .overlay then
          (mediumOpen files (faults.opens index) mount.path .readonly).map some
        else .ok none
      match opened with
      | .error status => .error status
      | .ok base =>
        if base.any (·.byteCount ≠ source.byteCount) then .error .invalidArgument
        else
          match captureBlocks base source (faults.base index) (faults.medium index)
            (faults.allocates index) 0 hashBegin with
          | .error status => .error status
          | .ok (pages, hash) =>
            if base.isSome && faults.closes index ≠ .ok then .error (faults.closes index)
            else
              .ok (some
                { mode := modeWord source.mode
                  cylinder := mount.cylinder
                  size := .ofNat 64 source.byteCount
                  digest := hashEnd hash
                  path := pathBuffer mount.path
                  pageCount := .ofNat 64 pages.length
                  pages })

/-- One result a slot, up to the first error. -/
def eachSlot {α : Type} (f : Fin 4 → Except Status α) : Except Status (Fin 4 → α) := do
  let a ← f 0
  let b ← f 1
  let c ← f 2
  let d ← f 3
  pure ![a, b, c, d]

/-- `softpc_media_archive_capture`. -/
def mediaArchiveCapture (files : Files) (faults : HostFaults) (drives : Drives) :
    Except Status MediaArchive :=
  if !faults.creates then .error .noMemory
  else do
    let slots ← eachSlot fun index => captureSlot files faults index (drives index)
    pure ⟨slots, false⟩

/-! ## Prepare -/

/-- The loop of `verify_base`. -/
def hashBlocks (base : Medium) (faults : Faults) (size offset : ℕ) (hash : MediaHash) :
    Except Status MediaHash :=
  if _h : offset < size then
    let count := min (size - offset) mediaBlockBytes
    match base.readAt faults offset count with
    | .error status => .error status
    | .ok bytes => hashBlocks base faults size (offset + count) (hashAdd hash bytes)
  else .ok hash
termination_by size - offset
decreasing_by
  have : 0 < mediaBlockBytes := by decide
  omega

def verifyBase (slot : MediaSlot) (base : Medium) (faults : Faults) : Status :=
  if base.byteCount ≠ slot.size.toNat then .invalidArgument
  else
    match hashBlocks base faults slot.size.toNat 0 hashBegin with
    | .error status => status
    | .ok hash => if hashEnd hash = slot.digest then .ok else .invalidArgument

/-- The mounted medium that `media_prepare_slot` finds for a path: one that is no overlay. -/
def mountedBase (drives : Drives) (slot : MediaSlot) : Option Medium :=
  (List.finRange 4).findSome? fun index =>
    (drives index).bind fun mount =>
      if text slot.path = mount.path ∧ mount.medium.mode ≠ .overlay then some mount.medium else none

/-- `media_prepare_slot`. -/
def prepareSlot (files : Files) (faults : HostFaults) (drives : Drives) (index : Fin 4) :
    Option MediaSlot → Status
  | none => .ok
  | some slot =>
    match mountedBase drives slot with
    | some base => verifyBase slot base (faults.base index)
    | none =>
      match mediumOpen files (faults.opens index) (text slot.path) .readonly with
      | .error status => status
      | .ok base =>
        let status := verifyBase slot base (faults.base index)
        if status = .ok then faults.closes index else status

/-- The first status that is not `ok`. -/
def firstFailure : List Status → Status
  | [] => .ok
  | status :: rest => if status = .ok then firstFailure rest else status

/-- `softpc_media_archive_prepare`; it reads the drives and changes none. -/
def mediaArchivePrepare (files : Files) (faults : HostFaults) (drives : Drives)
    (archive : MediaArchive) : Status × MediaArchive :=
  let archive := { archive with prepared := false }
  if (archive.slots 1).isSome || (archive.slots 3).isSome then (.invalidArgument, archive)
  else
    let status := firstFailure ((List.finRange 4).map fun index =>
      prepareSlot files faults drives index (archive.slots index))
    if status ≠ .ok then (status, archive) else (.ok, { archive with prepared := true })

/-! ## Restore -/

/-- `media_apply_pages`. -/
def applyPages (medium : Medium) (faults : Faults) : List MediaPage → Status × Medium
  | [] => (.ok, medium)
  | page :: pages =>
    let r := medium.writeAt faults page.offset.toNat page.bytes
    if r.1 = .ok then applyPages r.2 faults pages else r

/-- The saved pages of a slot, which only an overlay has. -/
def applySaved (faults : Faults) (slot : MediaSlot) (replacement : Medium) : Status × Medium :=
  if ofModeWord slot.mode = .overlay then applyPages replacement faults slot.pages
  else (.ok, replacement)

/-- A drive emptied: `softpc_floppy_media_restore` and `softpc_hdd_media_restore` without a path.  The
second floppy drive is left as it is. -/
def retireSlot (faults : HostFaults) (archive : MediaArchive) (index : Fin 4) (drives : Drives) :
    Status × Drives :=
  if (archive.slots index).any (·.mode.toNat > 2) then (.invalidArgument, drives)
  else if index = 1 then (.ok, drives)
  else
    let closed := if (drives index).isSome then faults.closes index else .ok
    (if index = 0 then (if closed = .ok then .ok else .ioError) else closed,
      Function.update drives index none)

/-- A medium put into a drive: `softpc_floppy_media_restore` and `softpc_hdd_media_restore` with a
path.  A floppy whose geometry is refused stays in the drive. -/
def installSlot (index : Fin 4) (slot : MediaSlot) (medium : Medium) (drives : Drives) :
    Status × Drives :=
  let mount : Mount := ⟨text slot.path, medium, slot.cylinder⟩
  if index.val < 2 then
    if slot.cylinder.toNat > 255 || slot.mode.toNat > 2 || (text slot.path).length ≥ pathMax then
      (.invalidArgument, drives)
    else if index ≠ 0 then (.invalidArgument, drives)
    else if medium.byteCount > 2 ^ 31 - 1 then (.invalidArgument, drives)
    else if !geometryAccepts medium.byteCount then
      (.invalidArgument, Function.update drives index (some { mount with cylinder := 0 }))
    else (.ok, Function.update drives index (some mount))
  else if slot.mode.toNat > 2 || (text slot.path).length ≥ pathMax then (.invalidArgument, drives)
  else if !hddSizeSupported medium.byteCount then (.invalidArgument, drives)
  else (.ok, Function.update drives index (some { mount with cylinder := 0 }))

/-- One saved slot mounted again. -/
def attachSlot (files : Files) (faults : HostFaults) (archive : MediaArchive) (index : Fin 4)
    (drives : Drives) : Status × Drives :=
  match archive.slots index with
  | none => (.ok, drives)
  | some slot =>
    match mediumOpen files (faults.opens index) (text slot.path) (ofModeWord slot.mode) with
    | .error status => (status, drives)
    | .ok replacement =>
      let verified := verifyBase slot replacement (faults.base index)
      if verified ≠ .ok then (verified, drives)
      else
        let applied := applySaved (faults.medium index) slot replacement
        if applied.1 ≠ .ok then (applied.1, drives)
        else installSlot index slot applied.2 drives

/-- Slot after slot, up to the first error. -/
def overSlots (step : Fin 4 → Drives → Status × Drives) : List (Fin 4) → Drives → Status × Drives
  | [], drives => (.ok, drives)
  | index :: rest, drives =>
    let r := step index drives
    if r.1 = .ok then overSlots step rest r.2 else r

/-- `softpc_media_archive_restore`. -/
def mediaArchiveRestore (files : Files) (faults : HostFaults) (drives : Drives)
    (archive : MediaArchive) : Status × Drives :=
  if !archive.prepared then (.invalidState, drives)
  else
    -- every old slot is retired before any saved path is opened
    let retired := overSlots (retireSlot faults archive) (List.finRange 4) drives
    if retired.1 ≠ .ok then retired
    else overSlots (attachSlot files faults archive) (List.finRange 4) retired.2

end SoftPC.Snapshot
