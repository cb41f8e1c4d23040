import SoftPC.Disks.FloppyImage
import SoftPC.Machinery.Placed

/-!
# Disks/FloppySectors — which sectors a diskette transfer is for

    named: start … EOT (, head 1: 1 … EOT)  ──take needed──▸  ──while there──▸ done

READ DATA and WRITE DATA go from the start sector to EOT, and with MT on to head 1 of the cylinder, for as long
as there are sectors and the DMA count lasts.  `softpc_gfi_transfer` goes on to the end of the track whatever
EOT and MT are, leaves the CHRN of the command in the result of a transfer that fails, and writes its buffer
out whole: `floppy_transfers_exact` says where none of this shows.
-/

namespace SoftPC.Gfi

open Dma (Byte Memory Buffer Channel)

/-! ## What a transfer is for -/

section

variable (drive : Drive) (command : Command) (image : Image) (dma : Channel)

/-- The heads and sectors that a command is for, in their order. -/
def Command.named : List (ℕ × ℕ) :=
  if command.sector ≤ command.eot then
    (List.range' command.sector (command.eot + 1 - command.sector)).map (command.hd, ·) ++
      if command.mt ∧ command.hd = 0 then (List.range' 1 command.eot).map (1, ·) else []
  else []

/-- The bytes that the DMA channel supplies or takes, and the sectors that they go into. -/
def supplied (dma : Channel) : ℕ := dma.currentCount.toNat + 1
def needed (dma : Channel) : ℕ := (supplied dma + sectorBytes - 1) / sectorBytes

namespace Drive

/-- Where a sector is, on the cylinder of the command. -/
def place (hs : ℕ × ℕ) : ℕ := drive.offset command.cyl hs.1 hs.2

/-- A sector is there to be transferred. -/
def There (hs : ℕ × ℕ) : Prop :=
  hs.1 < drive.heads ∧ hs.2 ≤ drive.sectors ∧ drive.place command hs + sectorBytes ≤ image.byteCount ∧
    ¬(command.writing ∧ drive.mode = .readonly)

instance (hs : ℕ × ℕ) : Decidable (drive.There command image hs) := inferInstanceAs (Decidable (_ ∧ _))

/-- The sectors that are to be transferred: up to the first that is not there. -/
def done : List (ℕ × ℕ) := (command.named.take (needed dma)).takeWhile (drive.There command image ·)

/-- The place of a byte of the transfer in the image. -/
def bytePlace (k : ℕ) : ℕ :=
  drive.place command ((drive.done command image dma).getD (k / sectorBytes) (0, 0)) + k % sectorBytes

end Drive

/-- The sector after a sector, as the controller gives it: the end of a track is EOT. -/
def following (command : Command) (cylinder : ℕ) (hs : ℕ × ℕ) : Chr :=
  if hs.2 ≠ command.eot then (cylinder, hs.1, hs.2 + 1)
  else if command.mt then if hs.1 = 0 then (cylinder, 1, 1) else (cylinder + 1, 0, 1)
  else (cylinder + 1, hs.1, 1)

variable (memory : Memory) (outcome : Drive.Outcome)

/-- **A transfer as it should be**: its sectors are accessed, once each; the bytes of a READ are in memory and
those of a WRITE in the image, and nothing else has changed; the result names the sector after the last, and a
transfer that is not complete has failed. -/
structure TransferRight : Prop where
  accesses : outcome.accesses = (drive.done command image dma).map (drive.place command)
  reads : command.writing = false →
    Placed (min (supplied dma) (sectorBytes * (drive.done command image dma).length)) dma.unit
        (fun k => image.bytes (drive.bytePlace command image dma k)) memory outcome.memory ∧
      outcome.drive.medium = some image
  writes : command.writing →
    outcome.memory = memory ∧ ∃ image', outcome.drive.medium = some image' ∧
      image'.byteCount = image.byteCount ∧
      Placed (min (supplied dma) (sectorBytes * (drive.done command image dma).length))
        (drive.bytePlace command image dma) (fun k => memory (dma.unit k)) image.bytes image'.bytes
  result : ∀ hs ∈ (drive.done command image dma).getLast?,
    let chr := following command command.cyl hs
    outcome.result.cyl = .ofNat 8 chr.1 ∧ outcome.result.head = .ofNat 8 chr.2.1 ∧
      outcome.result.sector = .ofNat 8 chr.2.2
  failed : outcome.result.failed ↔ (drive.done command image dma).length < needed dma

/-- A command that a transfer is started for, on an attached image, with the channel programmed for it. -/
structure Started : Prop where
  medium : drive.medium = some image
  geometry : geometry image.byteCount = some (drive.cylinders, drive.heads, drive.sectors)
  typeCmd : command.typeCmd = 5 ∨ command.typeCmd = 6
  size : command.n = 2
  cyl : command.cyl < drive.cylinders
  hd : command.hd < drive.heads
  sector : 0 < command.sector ∧ command.sector ≤ drive.sectors
  enabled : dma.enabled
  transferType : dma.transferType = if command.writing then .read else .write

end

/-! ## The code sector by sector -/

/-- The place of the first byte. -/
def base (drive : Drive) (command : Command) : ℕ := drive.offset command.cyl command.hd command.sector

/-- The code can transfer the sector so many after the first. -/
def Drive.Can (drive : Drive) (command : Command) (image : Image) (i : ℕ) : Prop :=
  command.sector + i ≤ drive.sectors ∧ base drive command + sectorBytes * (i + 1) ≤ image.byteCount ∧
    ¬(command.writing ∧ drive.mode = .readonly)

/-- What the buffer holds past the bytes that a last sector is supplied. -/
def stale (dma : Channel) (memory : Memory) (stack : Buffer) (r : ℕ) : Byte :=
  if needed dma = 1 then stack r else memory (dma.unit (sectorBytes * (needed dma - 2) + r))

/-- The bytes that a WRITE writes. -/
def written (dma : Channel) (memory : Memory) (stack : Buffer) (k : ℕ) : Byte :=
  if k < supplied dma then memory (dma.unit k) else stale dma memory stack (k % sectorBytes)

section

variable {drive : Drive} {command : Command} {image : Image} {dma : Channel} {memory : Memory} {stack : Buffer}
variable {t : Transfer} {i : ℕ}

variable (drive command image dma memory stack) in
/-- So many sectors have been moved. -/
structure Moved (i : ℕ) (t : Transfer) : Prop where
  accesses : t.accesses = (List.range i).map fun j => base drive command + sectorBytes * j
  byteCount : t.image.byteCount = image.byteCount
  reads : command.writing = false →
    Placed (min (supplied dma) (sectorBytes * i)) dma.unit (fun k => image.bytes (base drive command + k)) memory t.memory ∧
      t.image = image
  writes : command.writing → t.memory = memory ∧
    Placed (sectorBytes * i) (base drive command + ·) (written dma memory stack) image.bytes t.image.bytes

variable (drive command image dma memory stack) in
/-- …and the channel is ready for the next. -/
structure Going (i : ℕ) (t : Transfer) : Prop extends Moved drive command image dma memory stack i t where
  unit : ∀ k, t.dma.unit k = dma.unit (sectorBytes * i + k)
  count : t.dma.currentCount.toNat + 1 + sectorBytes * i = supplied dma
  enabled : t.dma.enabled
  transferType : t.dma.transferType = if command.writing then .read else .write
  buffer : command.writing → ∀ r < sectorBytes,
    t.buffer r = if i = 0 then stack r else memory (dma.unit (sectorBytes * (i - 1) + r))

/-- A sector is written. -/
theorem Image.writeAt_placed (image : Image) {offset : ℕ} (h : offset + sectorBytes ≤ image.byteCount) (buffer : Buffer) :
    ∃ image', image.writeAt offset buffer = some image' ∧ image'.byteCount = image.byteCount ∧
      Placed sectorBytes (offset + ·) buffer image.bytes image'.bytes := by
  refine ⟨_, if_pos h, rfl, fun k hk => ?_, fun a ha => ?_⟩
  · dsimp only
    rw [if_pos (by omega), Nat.add_sub_cancel_left]
  · exact if_neg fun hin => ha (a - offset) (by omega) (Nat.add_sub_cancel' hin.1)

theorem offset_add (hsector : 0 < command.sector) (i : ℕ) :
    drive.offset command.cyl command.hd (command.sector + i) = base drive command + sectorBytes * i := by
  unfold base Drive.offset sectorBytes
  have hsum : command.sector + i - 1 = command.sector - 1 + i := by omega
  rw [hsum, ← Nat.add_assoc, Nat.add_mul, Nat.mul_comm i]

theorem going_start (hs : Started drive command image dma) :
    Going drive command image dma memory stack 0 { image, dma, memory, buffer := stack } where
  accesses := rfl
  byteCount := rfl
  reads _ := ⟨by simpa using Placed.zero _ _ _, rfl⟩
  writes _ := ⟨rfl, Placed.zero _ _ _⟩
  unit k := by rw [Nat.mul_zero, Nat.zero_add]
  count := rfl
  enabled := hs.enabled
  transferType := hs.transferType
  buffer _ r _ := by rw [if_pos rfl]

/-- The bytes of a request. -/
theorem Going.munch_eq (h : Going drive command image dma memory stack i t) :
    t.dma.munch sectorBytes = min (supplied dma - sectorBytes * i) sectorBytes := by
  have := h.count
  unfold Channel.munch
  rw [show t.dma.currentCount.toNat + 1 = supplied dma - sectorBytes * i by omega]

theorem needed_pos (dma : Channel) : 0 < needed dma := by
  unfold needed supplied sectorBytes
  omega

theorem lt_needed_iff : i < needed dma ↔ sectorBytes * i < supplied dma := by
  unfold needed supplied sectorBytes
  omega

/-- A request leaves the channel ready for the next, if the count lasts. -/
theorem Going.next (h : Going drive command image dma memory stack i t) (hnext : i + 1 < needed dma) :
    let dma' := t.dma.advanced (t.dma.munch sectorBytes)
    (∀ k, dma'.unit k = dma.unit (sectorBytes * (i + 1) + k)) ∧
      dma'.currentCount.toNat + 1 + sectorBytes * (i + 1) = supplied dma ∧ dma'.enabled ∧
      dma'.transferType = if command.writing then .read else .write := by
  have hlt := lt_needed_iff.1 hnext
  have hcount := h.count
  have hmunch : t.dma.munch sectorBytes = sectorBytes := by
    rw [h.munch_eq]
    unfold sectorBytes at *
    omega
  have hle : sectorBytes ≤ t.dma.currentCount.toNat := by
    unfold sectorBytes at *
    omega
  have hpos : 0 < sectorBytes := by decide
  rw [hmunch]
  refine ⟨fun k => ?_, ?_, ?_, ?_⟩
  · rw [Channel.unit_advanced hpos hle, h.unit]
    rw [Nat.mul_succ, Nat.add_assoc]
  · rw [Channel.advanced_of_lt hpos hle]
    dsimp only
    rw [Channel.toNat_count_sub hle]
    unfold sectorBytes at *
    omega
  · rw [Channel.advanced_of_lt hpos hle]
    exact h.enabled
  · rw [Channel.advanced_of_lt hpos hle]
    exact h.transferType

/-- What a WRITE puts into the buffer for a sector. -/
theorem Going.filled (h : Going drive command image dma memory stack i t) (hw : command.writing) :
    t.dma.dmaRequest t.memory t.buffer sectorBytes = (t.dma.advanced (t.dma.munch sectorBytes), memory,
      fun r => if r < t.dma.munch sectorBytes then memory (dma.unit (sectorBytes * i + r)) else t.buffer r) := by
  have htype : t.dma.transferType = .read := by rw [h.transferType, if_pos hw]
  rw [Channel.dmaRequest_read h.enabled htype, (h.writes hw).1]
  simp only [h.unit]

theorem Going.written_eq (h : Going drive command image dma memory stack i t) (hw : command.writing)
    (hi : i < needed dma) {r : ℕ} (hr : r < sectorBytes) :
    (if r < t.dma.munch sectorBytes then memory (dma.unit (sectorBytes * i + r)) else t.buffer r) =
      written dma memory stack (sectorBytes * i + r) := by
  have hmunch := h.munch_eq
  have hlt := lt_needed_iff.1 hi
  unfold written
  by_cases hsupplied : sectorBytes * i + r < supplied dma
  · rw [if_pos hsupplied, if_pos (by omega)]
  · -- Only the last sector is not supplied whole.
    have hlast : needed dma = i + 1 := by
      have hnot : ¬i + 1 < needed dma := fun hnext => by
        have := lt_needed_iff.1 hnext
        rw [Nat.mul_succ] at this
        omega
      omega
    have hmod : (sectorBytes * i + r) % sectorBytes = r := by
      rw [Nat.mul_add_mod, Nat.mod_eq_of_lt hr]
    rw [if_neg hsupplied, if_neg (by omega), h.buffer hw r hr, hmod, stale, hlast]
    by_cases hzero : i = 0
    · rw [if_pos hzero, if_pos (by omega)]
    · rw [if_neg hzero, if_neg (by omega), show i + 1 - 2 = i - 1 by omega]

/-- Where the code stops. -/
theorem Going.cannot (hs : Started drive command image dma) (h : Going drive command image dma memory stack i t)
    (hcan : ¬drive.Can command image i) :
    ∃ t', drive.transferSector command i t = (false, t') ∧ Moved drive command image dma memory stack i t' := by
  unfold Drive.transferSector
  by_cases hsector : command.sector + i > drive.sectors
  · exact ⟨t, if_pos hsector, h.toMoved⟩
  dsimp only
  rw [if_neg hsector, offset_add hs.sector.1]
  have hrange : ¬(command.writing ∧ drive.mode = .readonly) →
      ¬base drive command + sectorBytes * i + sectorBytes ≤ t.image.byteCount := fun hmode hle => by
    rw [h.byteCount] at hle
    exact hcan ⟨by omega, by rw [Nat.mul_succ]; omega, hmode⟩
  by_cases hw : command.writing
  · rw [if_pos hw]
    by_cases hmode : drive.mode = .readonly
    · exact ⟨t, if_pos hmode, h.toMoved⟩
    · rw [if_neg hmode, h.filled hw]
      dsimp only
      have hnone : ∀ buffer, t.image.writeAt (base drive command + sectorBytes * i) buffer = none := fun _ =>
        if_neg (hrange fun hand => hmode hand.2)
      rw [hnone]
      refine ⟨_, rfl, h.accesses, h.byteCount, fun hr => absurd hw (by simp [hr]), fun _ => ⟨rfl, (h.writes hw).2⟩⟩
  · rw [if_neg hw]
    have hnone : t.image.readAt (base drive command + sectorBytes * i) = none := if_neg (hrange fun hand => hw hand.1)
    rw [hnone]
    exact ⟨t, rfl, h.toMoved⟩

/-- **One sector more**. -/
theorem Going.can (hs : Started drive command image dma) (h : Going drive command image dma memory stack i t)
    (hi : i < needed dma) (hcan : drive.Can command image i) :
    ∃ t', drive.transferSector command i t = (true, t') ∧ Moved drive command image dma memory stack (i + 1) t' ∧
      (i + 1 < needed dma → Going drive command image dma memory stack (i + 1) t') := by
  obtain ⟨hsector, hrange, hmode⟩ := hcan
  have hle : base drive command + sectorBytes * i + sectorBytes ≤ t.image.byteCount := by
    rw [h.byteCount]
    rw [Nat.mul_succ] at hrange
    omega
  have haccesses : t.accesses ++ [base drive command + sectorBytes * i] =
      (List.range (i + 1)).map fun j => base drive command + sectorBytes * j := by
    rw [h.accesses, List.range_succ, List.map_append]
    rfl
  unfold Drive.transferSector
  dsimp only
  rw [if_neg (by omega), offset_add hs.sector.1]
  by_cases hw : command.writing
  · rw [if_pos hw, if_neg fun heq => hmode ⟨hw, heq⟩, h.filled hw]
    dsimp only
    obtain ⟨image', hwrite, hcount, hplaced⟩ := t.image.writeAt_placed hle
      fun r => if r < t.dma.munch sectorBytes then memory (dma.unit (sectorBytes * i + r)) else t.buffer r
    rw [hwrite]
    have hmoved : ∀ dma' buffer', Moved drive command image dma memory stack (i + 1)
        { dma := dma', memory, buffer := buffer', image := image'
          accesses := t.accesses ++ [base drive command + sectorBytes * i] } := fun dma' buffer' => {
      accesses := haccesses
      byteCount := hcount.trans h.byteCount
      reads := fun hr => absurd hw (by simp [hr])
      writes := fun _ => by
        refine ⟨rfl, ?_⟩
        rw [Nat.mul_succ]
        refine Placed.append (fun j _ k _ heq => Nat.add_left_cancel heq) (h.writes hw).2 (hplaced.congr ?_ ?_)
        · exact fun k _ => Nat.add_assoc _ _ _
        · exact fun k hk => h.written_eq hw hi hk }
    refine ⟨_, rfl, hmoved _ _, fun hnext => ?_⟩
    obtain ⟨hunit, hcount, henabled, htype⟩ := h.next hnext
    exact { toMoved := hmoved _ _, unit := hunit, count := hcount, enabled := henabled, transferType := htype
            buffer := fun _ r hr => by
              have hfull : t.dma.munch sectorBytes = sectorBytes := by
                have := lt_needed_iff.1 hnext
                rw [Nat.mul_succ] at this
                rw [h.munch_eq]
                omega
              dsimp only
              rw [if_pos (by omega), if_neg (Nat.succ_ne_zero i), Nat.add_sub_cancel] }
  · have hr : command.writing = false := by simpa using hw
    have htype : t.dma.transferType = .write := by rw [h.transferType, if_neg hw]
    rw [if_neg hw, Image.readAt, if_pos hle]
    obtain ⟨memory', hrequest, hplaced⟩ := Channel.dmaRequest_write t.memory
      (fun r => t.image.bytes (base drive command + sectorBytes * i + r)) sectorBytes h.enabled htype
    dsimp only
    rw [hrequest]
    have hmoved : ∀ dma' buffer', Moved drive command image dma memory stack (i + 1)
        { t with dma := dma', memory := memory', buffer := buffer'
                 accesses := t.accesses ++ [base drive command + sectorBytes * i] } := fun dma' buffer' => {
      accesses := haccesses
      byteCount := h.byteCount
      writes := fun hw' => absurd hw' hw
      reads := fun _ => by
        obtain ⟨hbefore, himage⟩ := h.reads hr
        have hlt := lt_needed_iff.1 hi
        have hsum : min (supplied dma) (sectorBytes * (i + 1)) =
            min (supplied dma) (sectorBytes * i) + t.dma.munch sectorBytes := by
          rw [h.munch_eq, Nat.mul_succ]
          omega
        have hmin : min (supplied dma) (sectorBytes * i) = sectorBytes * i := by omega
        have hsupplied : supplied dma ≤ 0x10000 := dma.currentCount.isLt
        refine ⟨?_, himage⟩
        rw [hsum]
        refine Placed.append (fun j hj k hk => Channel.unit_inj (by omega) (by omega)) hbefore (hplaced.congr ?_ ?_)
        · intro k _
          rw [h.unit, hmin]
        · intro k _
          rw [hmin, himage, Nat.add_assoc] }
    refine ⟨_, rfl, hmoved _ _, fun hnext => ?_⟩
    obtain ⟨hunit, hcount, henabled, htype⟩ := h.next hnext
    exact { toMoved := hmoved _ _, unit := hunit, count := hcount, enabled := henabled, transferType := htype
            buffer := fun hw' => absurd hw' hw }

/-- **The whole loop**: it goes on for as long as it can. -/
theorem Moved.run (hs : Started drive command image dma) {n : ℕ} (hn : i + n = needed dma)
    (h : Moved drive command image dma memory stack i t)
    (hgoing : i < needed dma → Going drive command image dma memory stack i t) :
    ∃ f ≤ n, (∀ j < f, drive.Can command image (i + j)) ∧ (f < n → ¬drive.Can command image (i + f)) ∧
      ∃ t', drive.transferFrom command i n t = (decide (f = n), t') ∧
        Moved drive command image dma memory stack (i + f) t' := by
  induction n generalizing i t with
  | zero => exact ⟨0, le_rfl, nofun, nofun, t, rfl, h⟩
  | succ n ih =>
    have hi : i < needed dma := by omega
    by_cases hcan : drive.Can command image i
    · obtain ⟨t₁, hstep, hmoved, hgoing'⟩ := (hgoing hi).can hs hi hcan
      obtain ⟨f, hf, hall, hstop, t', hrun, hmoved'⟩ := ih (by omega) hmoved hgoing'
      refine ⟨f + 1, by omega, fun j hj => ?_, fun hlt => ?_, t', ?_, ?_⟩
      · cases j with
        | zero => exact hcan
        | succ j => exact Nat.add_right_comm i 1 j ▸ hall j (by omega)
      · exact Nat.add_right_comm i 1 f ▸ hstop (by omega)
      · rw [Drive.transferFrom, hstep]
        dsimp only
        rw [hrun]
        simp
      · exact Nat.add_right_comm i 1 f ▸ hmoved'
    · obtain ⟨t', hstep, hmoved⟩ := (hgoing hi).cannot hs hcan
      refine ⟨0, by omega, nofun, fun _ => hcan, t', ?_, hmoved⟩
      rw [Drive.transferFrom, hstep]
      simp

theorem sectorCount_eq (dma : Channel) : Drive.sectorCount dma.enquire = needed dma :=
  if_neg (needed_pos dma).ne'

/-- **What a command leaves**. -/
theorem gfiCommand_eq (hs : Started drive command image dma) (memory : Memory) (stack : Buffer) :
    ∃ f ≤ needed dma, (∀ j < f, drive.Can command image j) ∧ (f < needed dma → ¬drive.Can command image f) ∧
      ∃ t', Moved drive command image dma memory stack f t' ∧
        let outcome := drive.gfiCommand command dma memory stack
        let chr := if f = needed dma then updateChrn (command.cyl, command.hd, command.sector) command.mt command.eot f
          else (command.cyl, command.hd, command.sector)
        outcome.accesses = t'.accesses ∧ outcome.memory = t'.memory ∧ outcome.drive.medium = some t'.image ∧
          ∃ writeProtected, outcome.result = gfiResult command.drive chr.1 chr.2.1 chr.2.2 command.n
            (!decide (f = needed dma)) writeProtected := by
  have hstart : Going drive command image dma memory stack 0 { image, dma, memory, buffer := stack } := going_start hs
  obtain ⟨f, hf, hall, hstop, t', hrun, hmoved⟩ := hstart.toMoved.run hs (Nat.zero_add (needed dma)) fun _ => hstart
  simp only [Nat.zero_add] at hall hstop hmoved
  refine ⟨f, hf, hall, hstop, t', hmoved, ?_⟩
  have hvalid : ¬(command.n ≠ 2 ∨ command.cyl ≥ drive.cylinders ∨ command.hd ≥ drive.heads ∨ command.sector = 0 ∨
      command.sector > drive.sectors) := by
    have hcyl := hs.cyl
    have hhd := hs.hd
    have hsector := hs.sector
    rintro (h | h | h | h | h)
    · exact h hs.size
    all_goals omega
  have htransfer : drive.gfiTransfer command dma memory stack =
      (decide (f = needed dma),
        if f = needed dma then updateChrn (command.cyl, command.hd, command.sector) command.mt command.eot f
        else (command.cyl, command.hd, command.sector),
        if f = needed dma then { drive with medium := some t'.image, cylinder := command.cyl }
        else { drive with medium := some t'.image }, t'.dma, t'.memory, t'.accesses) := by
    unfold Drive.gfiTransfer
    rw [hs.medium]
    dsimp only
    rw [if_neg hvalid, sectorCount_eq, hrun]
    by_cases hfull : f = needed dma
    · rw [hfull]
      simp
    · simp [hfull]
  unfold Drive.gfiCommand
  dsimp only
  rw [htransfer]
  refine ⟨rfl, rfl, ?_, _, rfl⟩
  dsimp only
  split <;> rfl

end

end SoftPC.Gfi
