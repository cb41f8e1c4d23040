import SoftPC.Compat.CcpuArchive
import SoftPC.Compat.DeviceArchive
import SoftPC.Compat.MediaArchive

/-!
# Machine/SnapshotImage — a snapshot, whole

`machine/snapshot_image.c`.  A snapshot is a header, three sections of declared lengths — the
processor, the devices, the media — and the entry at which it goes on.  The reader holds each section
to its length and builds the image apart; the caller's is replaced only when all is read.

What the writer emits is what it hands to its stream; whether the stream takes it is not its concern.
-/

namespace SoftPC.Snapshot

open Decoder

/-- `softpc_ccpu_entry`. -/
structure Entry where
  halted : BitVec 32
  trap : BitVec 32
  deriving DecidableEq

/-- `softpc_ccpu_archive`. -/
structure CcpuArchive where
  /-- None while it has no storage. -/
  core : Option CoreState
  devices : Option DeviceArchive
  valid : Bool

/-- `softpc_snapshot_image`. -/
structure Image where
  ccpu : CcpuArchive
  media : Option MediaArchive
  entry : Entry

/-- `SOFTPC_SNAPSHOT_FORMAT`. -/
def snapshotFormat : BitVec 32 := 0x32504353

/-- An entry the image may have: a trap only where it halted. -/
def Entry.accepts (entry : Entry) : Bool :=
  !(entry.halted.toNat > 1 || entry.trap.toNat > 1 || (entry.halted == 0 && entry.trap != 0))

/-! ## Writing -/

/-- `softpc_ccpu_archive_write_core`. -/
def ccpuArchiveWriteCore (archive : CcpuArchive) : Except Status (List UInt8) :=
  match archive.core with
  | none => .error .invalidArgument
  | some core => if !archive.valid then .error .invalidArgument else .ok (writeCore core)

/-- What `softpc_snapshot_count_write` counts of a section. -/
def snapshotCount (bytes : List UInt8) : Except Status (BitVec 64) :=
  if bytes.length > 2 ^ 64 - 1 then .error .invalidArgument else .ok (.ofNat 64 bytes.length)

/-- `softpc_snapshot_image_write`. -/
def snapshotImageWrite (image : Image) : Except Status (List UInt8) :=
  match image.ccpu.devices, image.media with
  | some devices, some media =>
    if !image.ccpu.valid || !image.entry.accepts then .error .invalidArgument
    else do
      let core ← ccpuArchiveWriteCore image.ccpu
      let coreCount ← snapshotCount core
      let devices ← deviceArchiveWrite devices
      let devicesCount ← snapshotCount devices
      let mediaCount ← snapshotCount (mediaArchiveWrite media)
      let memoryBytes := (image.ccpu.core.map fun core => core.sas .memoryBytes).getD 0
      pure (writeU32 snapshotFormat ++ writeU32 memoryBytes ++ writeU64 coreCount ++ core ++
        writeU64 devicesCount ++ devices ++ writeU64 mediaCount ++ mediaArchiveWrite media ++
        writeU32 image.entry.halted ++ writeU32 image.entry.trap)
  | _, _ => .error .invalidArgument

/-! ## Reading -/

/-- A section: its length, and a decoder held to it by `softpc_snapshot_section_read`. -/
def snapshotSection {α : Type} (decoder : Reader α) : Reader α := do
  let length ← readU64
  ensure (length != 0) .invalidArgument
  let (value, remaining) ← decoder.within .invalidArgument length.toNat
  ensure (remaining == 0) .invalidArgument
  pure value

/-- The image that `softpc_snapshot_image_read` decodes. -/
def decodeImage (expectedMemoryBytes : BitVec 32) : Reader Image := do
  ensure (expectedMemoryBytes != 0) .invalidArgument
  let format ← readU32
  ensure (format == snapshotFormat) .invalidArgument
  let memoryBytes ← readU32
  ensure (memoryBytes == expectedMemoryBytes) .invalidArgument
  let core ← snapshotSection (ccpuArchiveReadCore memoryBytes)
  let devices ← snapshotSection deviceArchiveRead
  let media ← snapshotSection mediaArchiveRead
  let halted ← readU32
  let trap ← readU32
  ensure (Entry.accepts ⟨halted, trap⟩) .invalidArgument
  pure ⟨⟨some core, some devices, true⟩, some media, ⟨halted, trap⟩⟩

/-- `softpc_snapshot_image_read`: the status, and the caller's image after it. -/
def snapshotImageRead (image : Image) (expectedMemoryBytes : BitVec 32) (source : Source Status UInt8) :
    Except Status Unit × Image × Source Status UInt8 :=
  match (decodeImage expectedMemoryBytes).run source with
  | (.error status, source) => (.error status, image, source)
  | (.ok decoded, source) => (.ok (), decoded, source)

/-! ## The form of a stream -/

variable {α : Type} {decoder : Reader α} {value : α} {list rest : List UInt8}

/-- A section of a stream, and what it is read as. -/
structure Section (decoder : Reader α) (bytes : List UInt8) (value : α) : Prop where
  parses : decoder.parse bytes = some (value, [])
  ne_nil : bytes ≠ []
  length_lt : bytes.length < 2 ^ 64

/-- The bytes of a section behind its length. -/
def writeSection (bytes : List UInt8) : List UInt8 := writeU64 (.ofNat 64 bytes.length) ++ bytes

theorem toNat_ofNat_length {bytes : List UInt8} (h : bytes.length < 2 ^ 64) :
    (BitVec.ofNat 64 bytes.length).toNat = bytes.length := by
  rw [BitVec.toNat_ofNat, Nat.mod_eq_of_lt h]

/-- **A section that is read** was consumed exactly. -/
theorem parse_snapshotSection :
    (snapshotSection decoder).parse list = some (value, rest) ↔
      ∃ bytes, list = writeSection bytes ++ rest ∧ Section decoder bytes value := by
  constructor
  · intro h
    simp only [snapshotSection, parse_bind_eq_some, parse_ensure_eq_some, parse_pure_eq_some,
      bne_iff_ne, beq_iff_eq] at h
    obtain ⟨length, _, hlength, _, _, ⟨hne, rfl⟩, ⟨_, remaining⟩, _, hwithin, _, _, ⟨hremaining, rfl⟩,
      rfl, rfl⟩ := h
    obtain ⟨rfl, -⟩ := pairs_u64.encodes _ _ _ hlength
    dsimp only at hremaining
    subst hremaining
    obtain ⟨hparse, hcount⟩ := parse_within hwithin
    obtain ⟨bytes, rfl⟩ := parse_suffix hparse
    rw [List.length_append] at hcount
    have hbytes : bytes.length = length.toNat := by omega
    refine ⟨bytes, ?_, parse_of_append hparse, fun hnil => hne ?_, ?_⟩
    · rw [writeSection, hbytes, BitVec.ofNat_toNat, BitVec.setWidth_eq, List.append_assoc]
    · rw [hnil] at hbytes
      exact BitVec.eq_of_toNat_eq hbytes.symm
    · exact hbytes ▸ length.isLt
  · rintro ⟨bytes, rfl, hparse, hne, hlt⟩
    have hnat := toNat_ofNat_length hlt
    have hpos : BitVec.ofNat 64 bytes.length ≠ 0 := by
      intro hzero
      rw [hzero] at hnat
      exact hne (List.length_eq_zero_iff.mp hnat.symm)
    have hparse' : decoder.parse (bytes ++ rest) = some (value, rest) := parse_append hparse
    have hwithin : (decoder.within .invalidArgument bytes.length).parse (bytes ++ rest) =
        some ((value, bytes.length - ((bytes ++ rest).length - rest.length)), rest) :=
      within_parse hparse' (by simp [Nat.add_comm])
    simp only [snapshotSection, writeSection, List.append_assoc, parse_bind,
      pairs_u64.decodes _ _ trivial, parse_ensure, bne_iff_ne.mpr hpos, if_true, hnat, hwithin,
      Option.bind_some, parse_pure]
    simp

/-- A stream of three sections. -/
def layout (memoryBytes : BitVec 32) (core devices media : List UInt8) (entry : Entry) : List UInt8 :=
  writeU32 snapshotFormat ++ writeU32 memoryBytes ++ writeSection core ++ writeSection devices ++
    writeSection media ++ writeU32 entry.halted ++ writeU32 entry.trap

/-- What is read of a stream: three sections, each consumed exactly. -/
structure Reads (expected : BitVec 32) (core devices media : List UInt8) (image : Image) : Prop where
  expected_ne : expected ≠ 0
  core : ∃ value, image.ccpu.core = some value ∧ Section (ccpuArchiveReadCore expected) core value
  devices : ∃ value, image.ccpu.devices = some value ∧ Section deviceArchiveRead devices value
  media : ∃ value, image.media = some value ∧ Section mediaArchiveRead media value
  valid : image.ccpu.valid = true
  entry : image.entry.accepts = true

/-- **The streams that are read.** -/
theorem parse_decodeImage {expected : BitVec 32} {image : Image} :
    (decodeImage expected).parse list = some (image, rest) ↔
      ∃ core devices media, list = layout expected core devices media image.entry ++ rest ∧
        Reads expected core devices media image := by
  constructor
  · intro h
    simp only [decodeImage, parse_bind_eq_some, parse_ensure_eq_some, parse_pure_eq_some, bne_iff_ne,
      beq_iff_eq, parse_snapshotSection] at h
    obtain ⟨_, _, ⟨hne, rfl⟩, _, _, hformat, _, _, ⟨rfl, rfl⟩, _, _, hbytes, _, _, ⟨rfl, rfl⟩, core, _,
      ⟨coreBytes, rfl, hcore⟩, devices, _, ⟨devicesBytes, rfl, hdevices⟩, media, _,
      ⟨mediaBytes, rfl, hmedia⟩, halted, _, hhalted, trap, _, htrap, _, _, ⟨haccepts, rfl⟩, rfl, rfl⟩ := h
    obtain ⟨rfl, -⟩ := pairs_u32.encodes _ _ _ hformat
    obtain ⟨rfl, -⟩ := pairs_u32.encodes _ _ _ hbytes
    obtain ⟨rfl, -⟩ := pairs_u32.encodes _ _ _ hhalted
    obtain ⟨rfl, -⟩ := pairs_u32.encodes _ _ _ htrap
    refine ⟨coreBytes, devicesBytes, mediaBytes, ?_, hne, ⟨core, rfl, hcore⟩, ⟨devices, rfl, hdevices⟩,
      ⟨media, rfl, hmedia⟩, rfl, haccepts⟩
    simp only [layout, List.append_assoc]
  · rintro ⟨coreBytes, devicesBytes, mediaBytes, rfl, hne, ⟨core, hcore, hcoreReads⟩,
      ⟨devices, hdevices, hdevicesReads⟩, ⟨media, hmedia, hmediaReads⟩, hvalid, haccepts⟩
    obtain ⟨⟨_, _, _⟩, _, _⟩ := image
    subst hcore hdevices hmedia hvalid
    simp only [decodeImage, layout, List.append_assoc, parse_bind, parse_ensure, bne_iff_ne.mpr hne,
      if_true, pairs_u32.decodes _ _ trivial, Option.bind_some, beq_self_eq_true,
      parse_snapshotSection.2 ⟨coreBytes, rfl, hcoreReads⟩,
      parse_snapshotSection.2 ⟨devicesBytes, rfl, hdevicesReads⟩,
      parse_snapshotSection.2 ⟨mediaBytes, rfl, hmediaReads⟩, haccepts, parse_pure]

theorem snapshotCount_eq_ok {bytes : List UInt8} {count : BitVec 64} :
    snapshotCount bytes = .ok count ↔ bytes.length < 2 ^ 64 ∧ .ofNat 64 bytes.length = count := by
  unfold snapshotCount
  split
  · refine ⟨nofun, fun h => ?_⟩
    omega
  · rw [Except.ok.injEq]
    exact ⟨fun h => ⟨by omega, h⟩, And.right⟩

theorem except_bind_eq_ok {α β : Type} {x : Except Status α} {f : α → Except Status β} {b : β} :
    (x >>= f) = .ok b ↔ ∃ a, x = .ok a ∧ f a = .ok b := by
  cases x with
  | error e => exact ⟨nofun, nofun⟩
  | ok a => exact ⟨fun h => ⟨a, rfl, h⟩, fun ⟨_, h, h'⟩ => by cases h; exact h'⟩

/-- What the writer emits: the stream of its sections. -/
theorem snapshotImageWrite_eq_ok {image : Image} {bytes : List UInt8} :
    snapshotImageWrite image = .ok bytes ↔
      ∃ core devices media, image.ccpu.core = some core ∧ image.ccpu.devices = some devices ∧
        image.media = some media ∧ image.ccpu.valid = true ∧ devices.valid = true ∧
        image.entry.accepts = true ∧ (writeCore core).length < 2 ^ 64 ∧
        (deviceWriteAll devices).length < 2 ^ 64 ∧ (mediaArchiveWrite media).length < 2 ^ 64 ∧
        layout (core.sas .memoryBytes) (writeCore core) (deviceWriteAll devices)
          (mediaArchiveWrite media) image.entry = bytes := by
  obtain ⟨⟨core, devices, valid⟩, media, entry⟩ := image
  cases core with
  | none =>
    cases devices <;> cases media <;> cases valid <;> cases h : entry.accepts <;>
      simp [snapshotImageWrite, ccpuArchiveWriteCore, h, except_bind_eq_ok]
  | some core =>
    cases devices with
    | none => simp [snapshotImageWrite]
    | some devices =>
      cases media with
      | none => simp [snapshotImageWrite]
      | some media =>
        cases valid <;> cases haccepts : entry.accepts <;> cases hvalid : devices.valid <;>
          simp [snapshotImageWrite, ccpuArchiveWriteCore, deviceArchiveWrite, except_bind_eq_ok,
            snapshotCount_eq_ok, layout, writeSection, pure, Except.pure, hvalid, haccepts]

/-- On a stream where nothing fails, what parses is read. -/
theorem snapshotImageRead_of_parse (before : Image) {image : Image} {expected : BitVec 32}
    {source : Source Status UInt8} (hsource : source.Sound)
    (h : (decodeImage expected).parse source.list = some (image, rest)) :
    (snapshotImageRead before expected source).1 = .ok () ∧
      (snapshotImageRead before expected source).2.1 = image ∧
      (snapshotImageRead before expected source).2.2.list = rest := by
  obtain ⟨hok, hrest⟩ := run_of_parse hsource h
  unfold snapshotImageRead
  generalize (decodeImage expected).run source = r at hok hrest
  obtain ⟨_, _⟩ := r
  subst hok
  exact ⟨rfl, rfl, hrest⟩

/-! ## Round trips -/

theorem writeCore_ne_nil (core : CoreState) : writeCore core ≠ [] := by
  simp [writeCore, snapshotWriteSas, writeSasWords, writeWords, writeFields, writeWord]

theorem deviceWriteAll_ne_nil (archive : DeviceArchive) : deviceWriteAll archive ≠ [] := by
  simp [deviceWriteAll, deviceWriteQueue, writeU32, writeWord]

theorem writeSlots_ne_nil (slots : Fin 4 → Option MediaSlot) : writeSlots slots ≠ [] := by
  have hslot (slot : Option MediaSlot) : writeSlot slot ≠ [] := by
    cases slot <;> simp [writeSlot, writeU32, writeWord]
  rw [writeSlots, List.finRange_succ, writeFields_cons]
  exact fun h => hslot _ (List.append_eq_nil_iff.mp h).1

/-! ## A machine before its first instruction -/

/-- 16 MiB. -/
def idleSas : SasField → BitVec 32
  | .memoryBytes => 0x1000000
  | .pageTypeBytes => 0x1010
  | .wrapMask => 0xffffffff
  | .selectorsSet | .codeSelector | .dataSelector => 0

def idleBuffers : Buffers :=
  ⟨List.replicate 0x1000000 0, List.replicate 0x1010 0, List.replicate fastTlbPageCount 0⟩

def idleCore : CoreState where
  sas := idleSas
  buffers := idleBuffers
  registers := ⟨fun _ => 0, fun _ _ => 0⟩
  execution := ⟨fun _ => 0, fun _ => 0, 0, 0⟩
  debug := ⟨0, 0, fun _ _ => 0, fun _ _ => 0⟩
  tlb := ⟨fun _ _ _ => 0, fun _ => 0, fun _ => 0⟩
  fpu := ⟨fun _ => 0, fun _ _ => 0⟩

def idleDevices : DeviceArchive := ⟨⟨fun _ => 0, fun _ => 0, fun _ => 0, [], []⟩, zeroParts, true⟩

/-- A floppy disk in drive A:, as a stream has it. -/
def floppySlots (path : List UInt8) (index : Fin 4) : Option MediaSlot :=
  if index = 0 then
    some ⟨0, 0, 1474560, List.replicate 32 0, path, 0, []⟩
  else none

def idleStream (path : List UInt8) : List UInt8 :=
  layout 0x1000000 (writeCore idleCore) (deviceWriteAll idleDevices) (writeSlots (floppySlots path))
    ⟨0, 0⟩

def idleImage (path : List UInt8) : Image :=
  ⟨⟨some idleCore, some idleDevices, true⟩,
    some ⟨fun index => (floppySlots path index).map MediaSlot.store, false⟩, ⟨0, 0⟩⟩

/-- A stream on which nothing fails. -/
def soundSource (list : List UInt8) : Source Status UInt8 :=
  { list, fails := fun _ => none, short := .ioError, allocates := fun _ => true }

theorem soundSource_sound (list : List UInt8) : (soundSource list).Sound := ⟨fun _ => rfl, fun _ => rfl⟩

theorem idleSas_fits : SasFits 0x1000000 idleSas idleBuffers := by
  refine ⟨by decide, ?_, ?_, ?_⟩
  · rw [idleBuffers, List.length_replicate]
    rfl
  · rw [idleBuffers, List.length_replicate]
    rfl
  · rw [idleBuffers, List.length_replicate]

theorem idleCore_fits : idleCore.Fits 0x1000000 where
  sas := idleSas_fits
  debug := ⟨by decide, by decide⟩
  tlb := fun _ _ => ⟨Nat.zero_le 1, Nat.zero_le 1⟩

theorem idleDevices_fits : idleDevices.Fits where
  queues := ⟨fun _ => by simp [idleDevices], nofun, nofun, by decide, by decide⟩
  parts := fun part i => zeroElems_length _ _
  valid := rfl

theorem floppySlots_fits {path : List UInt8} (hne : path ≠ []) (hlt : path.length < pathMax) :
    ∀ index, ∀ slot ∈ floppySlots path index, MediaSlot.Fits index slot := by
  intro index slot hslot
  unfold floppySlots at hslot
  split at hslot
  · rename_i hindex
    subst hindex
    obtain rfl := Option.some.inj hslot
    have haccepts : slotAccepts 0 0 0 1474560 0 = true := by decide
    exact ⟨rfl, hne, hlt, haccepts, rfl, trivial⟩
  · cases hslot

theorem writeSlots_floppy_length (path : List UInt8) :
    (writeSlots (floppySlots path)).length = path.length + 76 := by
  simp [writeSlots, writeFields, List.finRange_succ, floppySlots, writeSlot, writeU32, writeU64,
    writeWord_length]
  omega

/-- Such a stream is read. -/
theorem idleStream_parse {path : List UInt8} (hne : path ≠ []) (hlt : path.length < pathMax) :
    (decodeImage 0x1000000).parse (idleStream path) = some (idleImage path, []) := by
  have hcore := (pairs_core 0x1000000).decodes idleCore [] idleCore_fits
  have hdevices := pairs_deviceArchive.decodes idleDevices [] idleDevices_fits
  have hslots := pairs_slots.decodes (floppySlots path) [] (floppySlots_fits hne hlt)
  rw [List.append_nil] at hcore hdevices hslots
  have hmedia := mediaArchiveRead_parse.mpr ⟨_, hslots, rfl⟩
  have hlength : (writeSlots (floppySlots path)).length < 2 ^ 64 := by
    rw [writeSlots_floppy_length]
    unfold pathMax at hlt
    omega
  have hentry : Entry.accepts ⟨0, 0⟩ = true := by decide
  rw [← List.append_nil (idleStream path), parse_decodeImage]
  exact ⟨_, _, _, rfl, by decide,
    ⟨_, rfl, hcore, writeCore_ne_nil _, writeCore_length_lt idleCore_fits⟩,
    ⟨_, rfl, hdevices, deviceWriteAll_ne_nil _, deviceWriteAll_length_lt idleDevices_fits⟩,
    ⟨_, rfl, hmedia, writeSlots_ne_nil _, hlength⟩, rfl, hentry⟩

theorem idleStream_read {path : List UInt8} (hne : path ≠ []) (hlt : path.length < pathMax)
    (image : Image) :
    (snapshotImageRead image 0x1000000 (soundSource (idleStream path))).1 = .ok () ∧
      (snapshotImageRead image 0x1000000 (soundSource (idleStream path))).2.1 = idleImage path ∧
      (snapshotImageRead image 0x1000000 (soundSource (idleStream path))).2.2.list = [] :=
  snapshotImageRead_of_parse image (soundSource_sound _) (idleStream_parse hne hlt)

/-- What a successful capture makes of a machine with so much memory: a valid image, of states the
machine can be in and of media within the reader's limits. -/
structure Image.Captured (memoryBytes : BitVec 32) (image : Image) : Prop where
  core : ∃ core, image.ccpu.core = some core ∧ core.Fits memoryBytes
  devices : ∃ devices, image.ccpu.devices = some devices ∧ devices.Fits
  media : ∃ media, image.media = some media ∧ media.Fits
  valid : image.ccpu.valid = true
  entry : image.entry.accepts = true

theorem CoreState.Fits.memoryBytes {memoryBytes : BitVec 32} {core : CoreState}
    (h : core.Fits memoryBytes) : core.sas .memoryBytes = memoryBytes := by
  have haccepts := h.sas.accepts
  simp only [sasAccepts, Bool.not_eq_true', Bool.or_eq_false_iff, bne_eq_false_iff_eq] at haccepts
  exact haccepts.1.2

/-- What is written of a captured image is read as that image. -/
theorem Image.Captured.parse {memoryBytes : BitVec 32} {image : Image} {bytes : List UInt8}
    (h : image.Captured memoryBytes) (hwrite : snapshotImageWrite image = .ok bytes) (rest : List UInt8) :
    (decodeImage memoryBytes).parse (bytes ++ rest) = some (image, rest) := by
  obtain ⟨⟨core, hcore, hcoreFits⟩, ⟨devices, hdevices, hdevicesFits⟩, ⟨media, hmedia, hmediaFits⟩, hvalid,
    hentry⟩ := h
  obtain ⟨core', devices', media', hcore', hdevices', hmedia', -, -, -, hcoreLt, hdevicesLt, hmediaLt,
    rfl⟩ := snapshotImageWrite_eq_ok.1 hwrite
  obtain rfl := Option.some.inj (hcore.symm.trans hcore')
  obtain rfl := Option.some.inj (hdevices.symm.trans hdevices')
  obtain rfl := Option.some.inj (hmedia.symm.trans hmedia')
  rw [hcoreFits.memoryBytes, parse_decodeImage]
  refine ⟨_, _, _, rfl, ?_, ⟨core, hcore, ?_, writeCore_ne_nil core, hcoreLt⟩,
    ⟨devices, hdevices, ?_, deviceWriteAll_ne_nil devices, hdevicesLt⟩,
    ⟨media, hmedia, ?_, writeSlots_ne_nil _, hmediaLt⟩, hvalid, hentry⟩
  · exact bne_iff_ne.mp hcoreFits.sas.expected_ne_zero
  · rw [← (pairs_core memoryBytes).decodes core [] hcoreFits, List.append_nil]
  · rw [← pairs_deviceArchive.decodes devices [] hdevicesFits, List.append_nil]
  · rw [← mediaArchiveRead_write hmediaFits [], List.append_nil]

/-- **The round trip.** -/
theorem image_round_trip (memoryBytes : BitVec 32) (image before : Image) (bytes rest : List UInt8)
    (source : Source Status UInt8) (hcaptured : image.Captured memoryBytes)
    (hwrite : snapshotImageWrite image = .ok bytes) (hsource : source.Sound)
    (hlist : source.list = bytes ++ rest) :
    (snapshotImageRead before memoryBytes source).1 = .ok () ∧
      (snapshotImageRead before memoryBytes source).2.1 = image ∧
      (snapshotImageRead before memoryBytes source).2.2.list = rest := by
  have hparse := hcaptured.parse hwrite rest
  rw [← hlist] at hparse
  exact snapshotImageRead_of_parse before hsource hparse

theorem floppySlots_no_nul {path : List UInt8} (h : 0 ∉ path) :
    ∀ index, ∀ slot ∈ floppySlots path index, 0 ∉ slot.path := by
  intro index slot hslot
  unfold floppySlots at hslot
  split at hslot
  · obtain rfl := Option.some.inj hslot
    exact h
  · cases hslot

/-- What is written of an image with a text for a path. -/
theorem idleImage_write {path : List UInt8} (hne : path ≠ []) (hlt : path.length < pathMax)
    (h : 0 ∉ path) : snapshotImageWrite (idleImage path) = .ok (idleStream path) := by
  have hwrite : mediaArchiveWrite ⟨fun index => (floppySlots path index).map MediaSlot.store, false⟩ =
      writeSlots (floppySlots path) := by
    rw [mediaArchiveWrite_store, writeSlots_rewritten (fun index slot hslot =>
      (floppySlots_fits hne hlt index slot hslot).path_lt) (floppySlots_no_nul h)]
  have hlength : (writeSlots (floppySlots path)).length < 2 ^ 64 := by
    rw [writeSlots_floppy_length]
    unfold pathMax at hlt
    omega
  have hentry : Entry.accepts ⟨0, 0⟩ = true := by decide
  refine snapshotImageWrite_eq_ok.2 ⟨idleCore, idleDevices, _, rfl, rfl, rfl, rfl, rfl, hentry,
    writeCore_length_lt idleCore_fits, deviceWriteAll_length_lt idleDevices_fits, ?_, ?_⟩
  · rwa [hwrite]
  · rw [hwrite]
    rfl

theorem idleImage_captured {path : List UInt8} (hne : path ≠ []) (hlt : path.length < pathMax)
    (h : 0 ∉ path) : (idleImage path).Captured 0x1000000 where
  core := ⟨idleCore, rfl, idleCore_fits⟩
  devices := ⟨idleDevices, rfl, idleDevices_fits⟩
  media := by
    refine ⟨_, rfl, fun index slot hslot => ?_, fun index slot hslot => ?_, rfl⟩
    all_goals
      obtain ⟨stored, hstored, rfl⟩ := Option.map_eq_some_iff.mp hslot
      have hfits := floppySlots_fits hne hlt index stored hstored
      have hnul := floppySlots_no_nul h index stored hstored
    · rw [MediaSlot.store, text_pathBuffer hnul hfits.path_lt]
    · change stored.rewritten.Fits index
      rwa [rewritten_eq hnul hfits.path_lt]
  valid := rfl
  entry := by
    change Entry.accepts ⟨0, 0⟩ = true
    decide

theorem idle_round_trip :
    snapshotImageWrite (idleImage [97]) = .ok (idleStream [97]) ∧
      (snapshotImageRead (idleImage [98]) 0x1000000 (soundSource (idleStream [97]))).2.1 =
        idleImage [97] := by
  have hwrite : snapshotImageWrite (idleImage [97]) = .ok (idleStream [97]) :=
    idleImage_write (by decide) (by decide) (by decide)
  have hcaptured : (idleImage [97]).Captured 0x1000000 :=
    idleImage_captured (by decide) (by decide) (by decide)
  exact ⟨hwrite, (image_round_trip 0x1000000 (idleImage [97]) (idleImage [98]) (idleStream [97]) []
    (soundSource (idleStream [97])) hcaptured hwrite (soundSource_sound _)
    (List.append_nil _).symm).2.1⟩

/-! ## Failed reads -/

/-- The length a section's stream declares. -/
def declared (list : List UInt8) : ℕ := (ofBytes (list.take 8) : BitVec 64).toNat

/-- The section of a decoder never takes more than its declared length, whatever fails. -/
def StaysWithin (decoder : Reader α) : Prop :=
  ∀ source : Source Status UInt8, (snapshotSection decoder).Takes source (8 + declared source.list)

theorem declared_writeU64 (length : BitVec 64) (rest : List UInt8) :
    declared (writeU64 length ++ rest) = length.toNat := by
  have htake : (writeU64 length ++ rest).take 8 = writeU64 length := by
    rw [List.take_left']
    exact writeWord_length 8 length
  rw [declared, htake, writeU64, ofBytes_writeWord rfl]

theorem takes_readU64 (source : Source Status UInt8) : readU64.Takes source 8 :=
  (takes_cells 8 source).bind fun _ _ _ => takes_pure _ _

theorem snapshotSection_staysWithin (decoder : Reader α) : StaysWithin decoder := by
  intro source
  refine (takes_readU64 source).bind fun length source₁ hread => ?_
  obtain ⟨hlist, -⟩ := pairs_u64.encodes _ _ _ (parse_of_run hread)
  rw [hlist, declared_writeU64]
  -- Neither the checks nor the result take anything.
  refine Takes.mono ((takes_ensure _ _ _).bind fun _ source₂ _ =>
    (takes_within _ _ _ source₂).bind fun _ source₃ _ =>
      (takes_ensure _ _ _).bind fun _ source₄ _ => takes_pure _ _) ?_
  omega

/-- **Reading is atomic and honest about lengths**, whatever fails: without success the caller's image
is as it was, no section takes more than its length, and with success every section was taken
exactly. -/
theorem read_is_atomic (image : Image) (expectedMemoryBytes : BitVec 32)
    (source : Source Status UInt8) :
    ((snapshotImageRead image expectedMemoryBytes source).1 ≠ .ok () →
      (snapshotImageRead image expectedMemoryBytes source).2.1 = image) ∧
    (StaysWithin (ccpuArchiveReadCore expectedMemoryBytes) ∧ StaysWithin deviceArchiveRead ∧
      StaysWithin mediaArchiveRead) ∧
    ((snapshotImageRead image expectedMemoryBytes source).1 = .ok () →
      ∃ core devices media, source.list =
          layout expectedMemoryBytes core devices media
            (snapshotImageRead image expectedMemoryBytes source).2.1.entry ++
          (snapshotImageRead image expectedMemoryBytes source).2.2.list ∧
        Reads expectedMemoryBytes core devices media
          (snapshotImageRead image expectedMemoryBytes source).2.1) := by
  refine ⟨?_, ⟨snapshotSection_staysWithin _, snapshotSection_staysWithin _,
    snapshotSection_staysWithin _⟩, ?_⟩
  all_goals
    unfold snapshotImageRead
    rcases hrun : (decodeImage expectedMemoryBytes).run source with ⟨error | decoded, source'⟩
  · exact fun _ => rfl
  · exact fun h => absurd rfl h
  · exact nofun
  · exact fun _ => parse_decodeImage.1 (parse_of_run hrun)

/-! ## One encoding -/

/-- A page, passed over. -/
def scanPage : Reader Unit := do
  let _ ← cells 8
  let count ← readU32
  let _ ← cells count.toNat
  pure ()

/-- The path that a slot of the stream stores. -/
def scanSlot : Reader (List (List UInt8)) := do
  let present ← readU32
  if present = 0 then pure []
  else do
    -- mode, cylinder, size, digest
    let _ ← cells 48
    let pathLength ← readU32
    let path ← cells pathLength.toNat
    let pageCount ← readU64
    let _ ← many scanPage pageCount.toNat
    pure [path]

/-- A section, passed over. -/
def scanSection : Reader Unit := do
  let length ← readU64
  let _ ← cells length.toNat
  pure ()

def scanPaths : Reader (List (List UInt8)) := do
  -- format and memory size
  let _ ← cells 8
  scanSection
  scanSection
  -- the length of the media
  let _ ← cells 8
  let paths ← many scanSlot 4
  pure paths.flatten

/-- The paths that a stream stores, with all their bytes. -/
def storedPaths (stream : List UInt8) : List (List UInt8) :=
  ((scanPaths.parse stream).map Prod.fst).getD []

theorem parse_scanPage {page : MediaPage} (h : page.bytes.length = page.count.toNat)
    (rest : List UInt8) : scanPage.parse (writePage page ++ rest) = some ((), rest) := by
  simp only [scanPage, writePage, List.append_assoc, parse_bind,
    parse_cells_append (writeWord_length 8 page.offset), writeU64, pairs_u32.decodes _ _ trivial,
    parse_cells_append h, Option.bind_some, parse_pure]

theorem PagesFit.bytes_length {size : BitVec 64} {previous : Option (BitVec 64)}
    {pages : List MediaPage} (h : PagesFit size previous pages) :
    ∀ page ∈ pages, page.bytes.length = page.count.toNat := by
  induction pages generalizing previous with
  | nil => exact nofun
  | cons page pages ih =>
    intro p hp
    rcases List.mem_cons.mp hp with rfl | hp
    · exact h.2.1
    · exact ih h.2.2 p hp

theorem parse_scanSlot {index : Fin 4} {slot : Option MediaSlot}
    (h : ∀ s ∈ slot, MediaSlot.Fits index s) (rest : List UInt8) :
    scanSlot.parse (writeSlot slot ++ rest) = some (slot.toList.map MediaSlot.path, rest) := by
  cases slot with
  | none =>
    simp only [scanSlot, writeSlot, parse_bind, pairs_u32.decodes _ _ trivial, Option.bind_some]
    rfl
  | some slot =>
    obtain ⟨hdigest, -, hlt, -, hcount, hpages⟩ := h slot rfl
    have hone : ¬(1 : BitVec 32) = 0 := by decide
    have hlength : (BitVec.ofNat 32 slot.path.length).toNat = slot.path.length := by
      rw [BitVec.toNat_ofNat, Nat.mod_eq_of_lt (hlt.trans (by decide))]
    have hhead : (writeU32 slot.mode ++ (writeU32 slot.cylinder ++ (writeU64 slot.size ++
        slot.digest))).length = 48 := by
      simp only [List.length_append, writeU32, writeU64, writeWord_length, hdigest]
    have hscan : (many scanPage slot.pageCount.toNat).parse (slot.pages.flatMap writePage ++ rest) =
        some (slot.pages.map fun _ => (), rest) := by
      rw [← hcount]
      exact parse_many slot.pages fun page hpage rest => parse_scanPage (hpages.bytes_length page hpage) rest
    have hsplit : writeSlot (some slot) ++ rest = writeU32 1 ++ ((writeU32 slot.mode ++
        (writeU32 slot.cylinder ++ (writeU64 slot.size ++ slot.digest))) ++
        (writeU32 (.ofNat 32 slot.path.length) ++ (slot.path ++ (writeU64 slot.pageCount ++
        (slot.pages.flatMap writePage ++ rest))))) := by
      simp only [writeSlot, List.append_assoc]
    rw [hsplit]
    simp only [scanSlot, parse_bind, pairs_u32.decodes _ _ trivial, Option.bind_some, hone, if_false,
      parse_cells_append hhead, hlength, parse_cells_append rfl, pairs_u64.decodes _ _ trivial, hscan,
      parse_pure]
    rfl

theorem parse_scanSection {bytes : List UInt8} (h : bytes.length < 2 ^ 64) (rest : List UInt8) :
    scanSection.parse (writeSection bytes ++ rest) = some ((), rest) := by
  simp only [scanSection, writeSection, List.append_assoc, parse_bind, pairs_u64.decodes _ _ trivial,
    Option.bind_some, toNat_ofNat_length h, parse_cells_append rfl, parse_pure]

/-- The paths of a stream are those of its slots. -/
theorem storedPaths_layout (memoryBytes : BitVec 32) {core devices : List UInt8} (entry : Entry)
    {slots : Fin 4 → Option MediaSlot} (hcore : core.length < 2 ^ 64) (hdevices : devices.length < 2 ^ 64)
    (hslots : ∀ index, ∀ slot ∈ slots index, MediaSlot.Fits index slot) :
    storedPaths (layout memoryBytes core devices (writeSlots slots) entry) =
      (List.finRange 4).flatMap fun index => (slots index).toList.map MediaSlot.path := by
  have hscan (rest : List UInt8) : (many scanSlot 4).parse (writeSlots slots ++ rest) =
      some ((List.finRange 4).map fun index => (slots index).toList.map MediaSlot.path, rest) :=
    parse_many (List.finRange 4) fun index _ rest => parse_scanSlot (hslots index) rest
  have hhead : (writeU32 snapshotFormat ++ writeU32 memoryBytes).length = 8 := by
    simp only [List.length_append, writeU32, writeWord_length]
  have hword : (writeU64 (.ofNat 64 (writeSlots slots).length)).length = 8 := writeWord_length 8 _
  have hsplit : layout memoryBytes core devices (writeSlots slots) entry =
      (writeU32 snapshotFormat ++ writeU32 memoryBytes) ++ (writeSection core ++
      (writeSection devices ++ (writeU64 (.ofNat 64 (writeSlots slots).length) ++
      (writeSlots slots ++ (writeU32 entry.halted ++ writeU32 entry.trap))))) := by
    simp only [layout, writeSection, List.append_assoc]
  rw [storedPaths, hsplit]
  simp only [scanPaths, parse_bind, parse_cells_append hhead, Option.bind_some,
    parse_scanSection hcore, parse_scanSection hdevices, parse_cells_append hword, hscan, parse_pure,
    Option.map_some, Option.getD_some]
  rfl

/-- An image that was read, in the words of its stream. -/
theorem Reads.streams {expected : BitVec 32} {core devices media : List UInt8} {image : Image}
    (h : Reads expected core devices media image) :
    ∃ coreState archive slots, image.ccpu.core = some coreState ∧ image.ccpu.devices = some archive ∧
      image.media = some ⟨fun index => (slots index).map MediaSlot.store, false⟩ ∧
      core = writeCore coreState ∧ coreState.Fits expected ∧ devices = deviceWriteAll archive ∧
      archive.Fits ∧ media = writeSlots slots ∧
      ∀ index, ∀ slot ∈ slots index, MediaSlot.Fits index slot := by
  obtain ⟨-, ⟨coreState, hcore, hcoreSection⟩, ⟨archive, hdevices, hdevicesSection⟩,
    ⟨mediaArchive, hmedia, hmediaSection⟩, -, -⟩ := h
  obtain ⟨hcoreBytes, hcoreFits⟩ := (pairs_core expected).encodes _ _ _ hcoreSection.parses
  obtain ⟨hdeviceBytes, hdeviceFits⟩ := pairs_deviceArchive.encodes _ _ _ hdevicesSection.parses
  obtain ⟨slots, hslots, rfl⟩ := mediaArchiveRead_parse.mp hmediaSection.parses
  obtain ⟨hmediaBytes, hmediaFits⟩ := pairs_slots.encodes _ _ _ hslots
  rw [List.append_nil] at hcoreBytes hdeviceBytes hmediaBytes
  exact ⟨coreState, archive, slots, hcore, hdevices, hmedia, hcoreBytes, hcoreFits, hdeviceBytes,
    hdeviceFits, hmediaBytes, hmediaFits⟩

theorem layout_length (memoryBytes : BitVec 32) (core devices media : List UInt8) (entry : Entry) :
    (layout memoryBytes core devices media entry).length =
      core.length + devices.length + media.length + 40 := by
  simp only [layout, writeSection, List.length_append, writeU32, writeU64, writeWord_length]
  omega

/-- What was read is written again exactly when its stream stores no path with a NUL. -/
theorem Reads.rewrites {expected : BitVec 32} {coreBytes deviceBytes mediaBytes : List UInt8}
    {image : Image} (h : Reads expected coreBytes deviceBytes mediaBytes image) :
    snapshotImageWrite image = .ok (layout expected coreBytes deviceBytes mediaBytes image.entry) ↔
      ∀ path ∈ storedPaths (layout expected coreBytes deviceBytes mediaBytes image.entry), 0 ∉ path := by
  obtain ⟨core, archive, slots, hcore, hdevices, hmedia, rfl, hcoreFits, rfl, hdeviceFits, rfl,
    hslots⟩ := h.streams
  obtain ⟨_, -, hcoreSection⟩ := h.core
  obtain ⟨_, -, hdeviceSection⟩ := h.devices
  obtain ⟨_, -, hmediaSection⟩ := h.media
  have hlt : ∀ index, ∀ slot ∈ slots index, slot.path.length < pathMax := fun index slot hslot =>
    (hslots index slot hslot).path_lt
  have hrewritten := mediaArchiveWrite_store slots
  rw [storedPaths_layout _ _ hcoreSection.length_lt hdeviceSection.length_lt hslots,
    snapshotImageWrite_eq_ok]
  simp only [List.mem_flatMap, List.mem_finRange, true_and, List.mem_map, Option.mem_toList]
  constructor
  · rintro ⟨core', archive', media', hcore', hdevices', hmedia', -, -, -, -, -, -, hlayout⟩ _
      ⟨index, slot, hslot, rfl⟩
    obtain rfl := Option.some.inj (hcore.symm.trans hcore')
    obtain rfl := Option.some.inj (hdevices.symm.trans hdevices')
    obtain rfl := Option.some.inj (hmedia.symm.trans hmedia')
    -- A path that is cut off makes the stream shorter.
    have hlength := congrArg List.length hlayout
    rw [layout_length, layout_length, hrewritten] at hlength
    exact writeSlots_rewritten_length hlt (by omega) index slot hslot
  · intro hpaths
    have hzero : ∀ index, ∀ slot ∈ slots index, 0 ∉ slot.path := fun index slot hslot =>
      hpaths _ ⟨index, slot, hslot, rfl⟩
    refine ⟨core, archive, _, hcore, hdevices, hmedia, h.valid, hdeviceFits.valid, h.entry,
      hcoreSection.length_lt, hdeviceSection.length_lt, ?_, ?_⟩
    · rw [hrewritten, writeSlots_rewritten hlt hzero]
      exact hmediaSection.length_lt
    · rw [hrewritten, writeSlots_rewritten hlt hzero, hcoreFits.memoryBytes]

/-- **An accepted stream is written again** exactly when it stores no path with a NUL. -/
theorem rewrites_iff (image : Image) (expectedMemoryBytes : BitVec 32) (source : Source Status UInt8)
    (stream : List UInt8) (hok : (snapshotImageRead image expectedMemoryBytes source).1 = .ok ())
    (hstream : source.list = stream ++ (snapshotImageRead image expectedMemoryBytes source).2.2.list) :
    snapshotImageWrite (snapshotImageRead image expectedMemoryBytes source).2.1 = .ok stream ↔
      ∀ path ∈ storedPaths stream, 0 ∉ path := by
  unfold snapshotImageRead at hok hstream ⊢
  rcases hrun : (decodeImage expectedMemoryBytes).run source with ⟨error | decoded, source'⟩
  · rw [hrun] at hok
    cases hok
  · rw [hrun] at hstream
    obtain ⟨core, devices, media, hlist, hreads⟩ := parse_decodeImage.1 (parse_of_run hrun)
    obtain rfl := List.append_cancel_right (hstream.symm.trans hlist)
    exact hreads.rewrites

theorem storedPaths_idleStream {path : List UInt8} (hne : path ≠ []) (hlt : path.length < pathMax) :
    storedPaths (idleStream path) = [path] := by
  rw [idleStream, storedPaths_layout _ _ (writeCore_length_lt idleCore_fits)
    (deviceWriteAll_length_lt idleDevices_fits) (floppySlots_fits hne hlt)]
  rfl

theorem idle_rewritten :
    snapshotImageWrite (snapshotImageRead (idleImage [98]) 0x1000000
      (soundSource (idleStream [97]))).2.1 = .ok (idleStream [97]) := by
  obtain ⟨hok, -, hrest⟩ :=
    idleStream_read (show [(97 : UInt8)] ≠ [] by decide) (by decide) (idleImage [98])
  refine (rewrites_iff (idleImage [98]) 0x1000000 (soundSource (idleStream [97])) (idleStream [97])
    hok (by rw [hrest]; exact (List.append_nil _).symm)).mpr ?_
  rw [storedPaths_idleStream (by decide) (by decide)]
  decide

/-- A path of an `a` and a NUL is accepted, and written again without the NUL. -/
theorem path_with_nul_is_cut :
    (snapshotImageRead (idleImage [97]) 0x1000000 (soundSource (idleStream [97, 0]))).1 = .ok () ∧
      (snapshotImageRead (idleImage [97]) 0x1000000 (soundSource (idleStream [97, 0]))).2.2.list = [] ∧
      snapshotImageWrite (snapshotImageRead (idleImage [97]) 0x1000000
        (soundSource (idleStream [97, 0]))).2.1 ≠ .ok (idleStream [97, 0]) := by
  have hne : [(97 : UInt8), 0] ≠ [] := by decide
  have hlt : [(97 : UInt8), 0].length < pathMax := by decide
  obtain ⟨hok, himage, hrest⟩ := idleStream_read hne hlt (idleImage [97])
  refine ⟨hok, hrest, ?_⟩
  rw [himage]
  obtain ⟨core, devices, media, hstream, hreads⟩ := parse_decodeImage.1 (idleStream_parse hne hlt)
  rw [List.append_nil] at hstream
  rw [hstream, Ne, hreads.rewrites, ← hstream, storedPaths_idleStream hne hlt]
  decide

end SoftPC.Snapshot
