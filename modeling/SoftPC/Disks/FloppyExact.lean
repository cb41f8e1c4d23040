import Mathlib.Data.Fin.VecNotation
import Mathlib.Data.List.TakeWhile
import Mathlib.Tactic.IntervalCases
import SoftPC.Disks.FloppySectors

/-!
# Disks/FloppyExact — where a diskette transfer is as it should be

    sectors moved by the code ──=?──▸ sectors the command is for

The code moves sectors up to the end of the track; that are those it should move if their count fits before EOT as
well, or there is not even the first (`floppy_transfers_exact`).
-/

namespace SoftPC.Gfi

open Dma (Byte Memory Buffer Channel)

/-- Nothing shows of what the code does wrong: the medium cannot be written, or the first sector is not in the
image; or the sectors that the DMA count asks for are before EOT, on the track and in the image, and what a WRITE
leaves in the buffer past the last byte supplied is what the image has there. -/
def Unaffected (drive : Drive) (command : Command) (image : Image) (dma : Channel) (memory : Memory) (stack : Buffer) :
    Prop :=
  command.writing ∧ drive.mode = .readonly ∨ image.byteCount < base drive command + sectorBytes ∨
    command.sector + needed dma ≤ command.eot + 1 ∧ command.sector + needed dma ≤ drive.sectors + 1 ∧
      base drive command + sectorBytes * needed dma ≤ image.byteCount ∧
      (command.writing → ∀ k < sectorBytes * needed dma, supplied dma ≤ k →
        stale dma memory stack (k % sectorBytes) = image.bytes (base drive command + k))

section

variable {drive : Drive} {command : Command} {image : Image} {dma : Channel} {memory : Memory} {stack : Buffer}
variable {i f : ℕ}

/-! ## Results -/

theorem failed_gfiResult {drive : Byte} {cylinder head sector : ℕ} {size : Byte} {failed writeProtected : Bool}
    (hhead : head < 2) : (gfiResult (drive &&& 3) cylinder head sector size failed writeProtected).failed = failed := by
  have hbits : ∀ (unit : Byte) (second : Bool),
      (BitVec.ofNat 8 ((if second then 1 else 0) <<< 2) ||| unit &&& 3) &&& 0xc0 ≠ 0x40 := by decide
  have hfailed : ∀ st0 : Byte, (st0 &&& ~~~0xc0 ||| 0x40) &&& 0xc0 = 0x40 := by decide
  unfold Result.failed gfiResult
  cases failed with
  | true => exact decide_eq_true (hfailed _)
  | false =>
    refine decide_eq_false ?_
    interval_cases head
    · exact hbits drive false
    · exact hbits drive true

/-- The code's CHRN, of sectors up to EOT. -/
theorem updateChrn_eq (hhd : command.hd < 2) (hf : 0 < f) (hend : command.sector + f ≤ command.eot + 1) :
    updateChrn (command.cyl, command.hd, command.sector) command.mt command.eot f =
      following command command.cyl (command.hd, command.sector + (f - 1)) := by
  have hover : (decide (command.sector + f - 1 > command.eot) && command.mt) = false := by
    rw [decide_eq_false (by omega)]
    rfl
  have hsector : command.sector + f - 1 = command.sector + (f - 1) := by omega
  unfold updateChrn following
  dsimp only
  rw [hover, hsector]
  simp only [Bool.false_eq_true, if_false]
  by_cases hlast : command.sector + (f - 1) = command.eot
  · rw [if_pos hlast, if_neg (not_not.mpr hlast)]
    by_cases hmt : command.mt
    · rw [if_pos ⟨hmt, hlast⟩, if_pos hmt]
      interval_cases command.hd <;> rfl
    · rw [if_neg fun h => hmt h.1, if_pos hlast, if_neg hmt]
  · rw [if_neg fun h => hlast h.2, if_neg hlast, if_neg hlast, if_pos hlast]

/-! ## Sectors -/

theorem heads_eq (hs : Started drive command image dma) : drive.heads = 2 := by
  have hgeometry := hs.geometry
  unfold geometry at hgeometry
  grind -linarith

theorem cyl_sectors (hs : Started drive command image dma) : drive.cylinders ≤ 80 ∧ drive.sectors ≤ 36 := by
  have hgeometry := hs.geometry
  unfold geometry at hgeometry
  grind -linarith

theorem place_add (hs : Started drive command image dma) (i : ℕ) :
    drive.place command (command.hd, command.sector + i) = base drive command + sectorBytes * i :=
  offset_add hs.sector.1 i

theorem there_iff (hs : Started drive command image dma) (i : ℕ) :
    drive.There command image (command.hd, command.sector + i) ↔ drive.Can command image i := by
  unfold Drive.There Drive.Can
  rw [place_add hs, Nat.mul_succ, ← Nat.add_assoc]
  exact and_iff_right hs.hd

/-! ## The sectors of a command -/

theorem named_take {n : ℕ} (hend : command.sector + n ≤ command.eot + 1) :
    command.named.take n = (List.range n).map fun i => (command.hd, command.sector + i) := by
  cases n with
  | zero => rw [List.take_zero, List.range_zero, List.map_nil]
  | succ n =>
    have hlength : n + 1 ≤ ((List.range' command.sector (command.eot + 1 - command.sector)).map (command.hd, ·)).length := by
      rw [List.length_map, List.length_range']
      omega
    unfold Command.named
    rw [if_pos (by omega), List.take_append_of_le_length hlength, List.range'_eq_map_range, List.map_map, ← List.map_take,
      List.take_range, Nat.min_eq_left (by omega)]
    rfl

/-- Past EOT there is the other head. -/
theorem named_getElem (hstart : command.sector ≤ command.eot) {hs : ℕ × ℕ}
    (h : command.named[command.eot + 1 - command.sector]? = some hs) : command.hd = 0 ∧ hs = (1, 1) := by
  unfold Command.named at h
  rw [if_pos hstart, List.getElem?_append_right (by simp), List.length_map, List.length_range', Nat.sub_self] at h
  by_cases hmt : command.mt ∧ command.hd = 0
  · have hpos : 0 < command.eot := by
      by_contra hzero
      have hempty : command.eot = 0 := by omega
      rw [if_pos hmt, hempty] at h
      cases h
    rw [if_pos hmt, List.getElem?_map, List.getElem?_range' hpos] at h
    exact ⟨hmt.2, (Option.some.inj h).symm⟩
  · rw [if_neg hmt] at h
    cases h

theorem done_prefix (drive : Drive) (command : Command) (image : Image) (dma : Channel) :
    drive.done command image dma <+: command.named :=
  (List.takeWhile_prefix _).trans (List.take_prefix _ _)

theorem done_of_can (hs : Started drive command image dma) (hend : command.sector + needed dma ≤ command.eot + 1)
    (hcan : ∀ j < needed dma, drive.Can command image j) :
    drive.done command image dma = (List.range (needed dma)).map fun i => (command.hd, command.sector + i) := by
  unfold Drive.done
  rw [named_take hend, List.takeWhile_eq_self_iff]
  intro hs' hmem
  obtain ⟨i, hi, rfl⟩ := List.mem_map.mp hmem
  exact decide_eq_true ((there_iff hs i).mpr (hcan i (List.mem_range.mp hi)))

theorem done_of_cannot (hs : Started drive command image dma) (hcannot : ¬drive.Can command image 0) :
    drive.done command image dma = [] := by
  unfold Drive.done Command.named
  by_cases hstart : command.sector ≤ command.eot
  · obtain ⟨n, hn⟩ := Nat.exists_eq_add_of_le hstart
    obtain ⟨m, hm⟩ := Nat.exists_eq_add_of_le (Nat.succ_le_of_lt (needed_pos dma))
    have hlength : command.eot + 1 - command.sector = n + 1 := by omega
    rw [if_pos hstart, hlength, hm, Nat.add_comm, List.range'_succ, List.map_cons, List.cons_append, List.take_succ_cons,
      List.takeWhile_cons_of_neg]
    rw [decide_eq_true_iff]
    exact fun h => hcannot ((there_iff hs 0).mp h)
  · rw [if_neg hstart, List.take_nil, List.takeWhile_nil]

/-- Sectors that follow each other in the image are those of one track, before EOT. -/
theorem done_of_places (hs : Started drive command image dma) (hf : 0 < f)
    (htrack : command.sector + f ≤ drive.sectors + 1)
    (h : (drive.done command image dma).map (drive.place command) =
      (List.range f).map fun j => base drive command + sectorBytes * j) :
    command.sector + f ≤ command.eot + 1 ∧
      drive.done command image dma = (List.range f).map fun i => (command.hd, command.sector + i) := by
  have hinitial := done_prefix drive command image dma
  have hlength : (drive.done command image dma).length = f := by
    have hlength := congrArg List.length h
    rwa [List.length_map, List.length_map, List.length_range] at hlength
  have hend : command.sector + f ≤ command.eot + 1 := by
    have hstart : command.sector ≤ command.eot := by
      by_contra hstart
      unfold Command.named at hinitial
      rw [if_neg hstart, List.prefix_nil] at hinitial
      rw [hinitial] at hlength
      simp at hlength
      omega
    by_contra hover
    -- What is past EOT is the first sector of head 1, and that follows if EOT is the end of the track.
    have hi : command.eot + 1 - command.sector < (drive.done command image dma).length := by omega
    obtain ⟨hhd, heq⟩ := named_getElem hstart (List.prefix_iff_getElem?.mp hinitial _ hi)
    have hplace : drive.place command (drive.done command image dma)[command.eot + 1 - command.sector] =
        base drive command + sectorBytes * (command.eot + 1 - command.sector) := by
      have hget := congrArg (·[command.eot + 1 - command.sector]?) h
      simpa [hi, List.getElem?_range (show command.eot + 1 - command.sector < f by omega)] using hget
    have hsector := hs.sector
    rw [heq, ← place_add hs] at hplace
    have hfirst (hs : ℕ × ℕ) : drive.place command hs =
        (command.cyl * drive.heads * drive.sectors + hs.1 * drive.sectors + (hs.2 - 1)) * sectorBytes := by
      unfold Drive.place Drive.offset
      rw [Nat.add_mul (command.cyl * drive.heads)]
    rw [hfirst, hfirst, hhd] at hplace
    unfold sectorBytes at hplace
    dsimp only at hplace
    omega
  refine ⟨hend, ?_⟩
  rw [← named_take hend, ← hlength]
  exact List.prefix_iff_eq_take.mp hinitial

theorem bytePlace_eq (hs : Started drive command image dma)
    (hdone : drive.done command image dma = (List.range f).map fun i => (command.hd, command.sector + i)) {k : ℕ}
    (hk : k < sectorBytes * f) : drive.bytePlace command image dma k = base drive command + k := by
  have hindex : k / sectorBytes < f := Nat.div_lt_of_lt_mul hk
  unfold Drive.bytePlace
  rw [hdone, List.getD_eq_getElem _ _ (by rwa [List.length_map, List.length_range]), List.getElem_map,
    List.getElem_range, place_add hs, Nat.add_assoc, Nat.div_add_mod]

/-- The start is not the sector after the last. -/
theorem following_ne (hs : Started drive command image dma) (hf : 0 < f)
    (htrack : command.sector + f ≤ drive.sectors + 1) :
    let chr := following command command.cyl (command.hd, command.sector + (f - 1))
    ¬(BitVec.ofNat 8 command.cyl = .ofNat 8 chr.1 ∧ BitVec.ofNat 8 command.hd = .ofNat 8 chr.2.1 ∧
      BitVec.ofNat 8 command.sector = .ofNat 8 chr.2.2) := by
  have hinj {m n : ℕ} (hm : m < 256) (hn : n < 256) (h : BitVec.ofNat 8 m = .ofNat 8 n) : m = n := by
    have h := congrArg BitVec.toNat h
    rwa [BitVec.toNat_ofNat, BitVec.toNat_ofNat, Nat.mod_eq_of_lt hm, Nat.mod_eq_of_lt hn] at h
  obtain ⟨hcylinders, hsectors⟩ := cyl_sectors hs
  have hcyl := hs.cyl
  have hsector := hs.sector
  have hhd := heads_eq hs ▸ hs.hd
  unfold following
  dsimp only
  rintro ⟨h₁, h₂, h₃⟩
  by_cases hlast : command.sector + (f - 1) = command.eot
  · rw [if_neg (not_not.mpr hlast)] at h₁ h₂ h₃
    by_cases hmt : command.mt
    · rw [if_pos hmt] at h₁ h₂
      by_cases hzero : command.hd = 0
      · rw [if_pos hzero] at h₂
        dsimp only at h₂
        have := hinj (by omega) (by omega) h₂
        omega
      · rw [if_neg hzero] at h₁
        have := hinj (by omega) (by omega) h₁
        omega
    · rw [if_neg hmt] at h₁
      have := hinj (by omega) (by omega) h₁
      omega
  · rw [if_pos hlast] at h₃
    dsimp only at h₃
    have := hinj (by omega) (by omega) h₃
    omega

/-- The code moves what it should, if what it moves is what it should move. -/
theorem transferRight_of_done (hs : Started drive command image dma) {outcome : Drive.Outcome} {t' : Transfer}
    (hdone : drive.done command image dma = (List.range f).map fun i => (command.hd, command.sector + i))
    (hmoved : Moved drive command image dma memory stack f t') (haccesses : outcome.accesses = t'.accesses)
    (hmemory : outcome.memory = t'.memory) (hmedium : outcome.drive.medium = some t'.image)
    (hstale : command.writing → ∀ k < sectorBytes * f, supplied dma ≤ k →
      stale dma memory stack (k % sectorBytes) = image.bytes (base drive command + k))
    (hresult : 0 < f →
      let chr := following command command.cyl (command.hd, command.sector + (f - 1))
      outcome.result.cyl = .ofNat 8 chr.1 ∧ outcome.result.head = .ofNat 8 chr.2.1 ∧
        outcome.result.sector = .ofNat 8 chr.2.2)
    (hfailed : outcome.result.failed ↔ f < needed dma) :
    TransferRight drive command image dma memory outcome := by
  have hlength : (drive.done command image dma).length = f := by rw [hdone, List.length_map, List.length_range]
  have hplace : ∀ k < min (supplied dma) (sectorBytes * f), base drive command + k = drive.bytePlace command image dma k :=
    fun k hk => (bytePlace_eq hs hdone (by omega)).symm
  constructor
  · rw [haccesses, hmoved.accesses, hdone, List.map_map]
    exact List.map_congr_left fun i _ => (place_add hs i).symm
  · intro hr
    obtain ⟨hplaced, himage⟩ := hmoved.reads hr
    rw [hlength, hmemory, hmedium, himage]
    exact ⟨hplaced.congr (fun _ _ => rfl) fun k hk => by rw [hplace k hk], rfl⟩
  · intro hw
    obtain ⟨hsame, hplaced⟩ := hmoved.writes hw
    refine ⟨hmemory.trans hsame, t'.image, hmedium, hmoved.byteCount, ?_⟩
    rw [hlength]
    have hshort : Placed (min (supplied dma) (sectorBytes * f)) (base drive command + ·) (written dma memory stack)
        image.bytes t'.image.bytes := by
      refine (Placed.shorten_iff (fun i _ j _ heq => Nat.add_left_cancel heq) (by omega) hplaced).mpr fun k hk hle => ?_
      rw [written, if_neg (by omega)]
      exact hstale hw k hk (by omega)
    exact hshort.congr hplace fun k hk => if_pos (by omega)
  · intro hs' hmem
    cases f with
    | zero =>
      rw [hdone] at hmem
      cases hmem
    | succ f =>
      rw [hdone, List.range_succ, List.map_append, List.map_singleton, List.getLast?_concat] at hmem
      cases hmem
      exact hresult (Nat.succ_pos f)
  · rw [hfailed, hlength]

/-! ## Transfers -/

theorem updateChrn_head {chr : Chr} {multiTrack : Bool} {eot sectorCount : ℕ} (h : chr.2.1 < 2) :
    (updateChrn chr multiTrack eot sectorCount).2.1 < 2 := by
  have hxor : ∀ head < 2, head ^^^ 1 < 2 := by decide
  have hpast : ∀ past : Bool, (if past = true then 1 else chr.2.1) < 2 := fun past => by
    split
    · decide
    · exact h
  unfold updateChrn
  dsimp only
  generalize (decide (chr.2.2 + sectorCount - 1 > eot) && multiTrack) = past
  by_cases hwrap : multiTrack ∧ (if past then (chr.2.2 + sectorCount - 1) / 2 else chr.2.2 + sectorCount - 1) = eot
  · rw [if_pos hwrap]
    exact hxor _ (hpast past)
  · rw [if_neg hwrap]
    exact (apply_ite (fun chr : Chr => chr.2.1) _ _ _).trans_lt (by rw [ite_self]; exact hpast past)

/-- **Where a transfer is as it should be**. -/
theorem floppy_transfers_exact (hs : Started drive command image dma) :
    TransferRight drive command image dma memory (drive.gfiCommand command dma memory stack) ↔
      Unaffected drive command image dma memory stack := by
  obtain ⟨f, hf, hcan, hstop, t', hmoved, haccesses, hmemory, hmedium, writeProtected, hresult⟩ :=
    gfiCommand_eq hs memory stack
  have hpos := needed_pos dma
  have hsupplied : supplied dma ≤ sectorBytes * needed dma := by
    unfold needed sectorBytes
    omega
  have hhd := heads_eq hs ▸ hs.hd
  have hfailed : (drive.gfiCommand command dma memory stack).result.failed ↔ f < needed dma := by
    have hlt : (!decide (f = needed dma)) = true ↔ f < needed dma := by
      rw [Bool.not_eq_true', decide_eq_false_iff_not]
      omega
    unfold Command.drive at hresult
    rw [hresult, failed_gfiResult, hlt]
    split
    · exact updateChrn_head hhd
    · exact hhd
  constructor
  · intro hright
    by_cases hzero : f = 0
    · have hnot := hstop (by omega)
      rw [hzero] at hnot
      by_contra hout
      unfold Unaffected at hout
      push Not at hout
      exact hnot ⟨hs.sector.2, hout.2.1, fun h => hout.1 h.1 h.2⟩
    · have hlast := hcan (f - 1) (by omega)
      have htrack : command.sector + f ≤ drive.sectors + 1 := by
        have := hlast.1
        omega
      obtain ⟨hend, hdone⟩ := done_of_places hs (by omega) htrack
        (hright.accesses.symm.trans (haccesses.trans hmoved.accesses))
      have hlength : (drive.done command image dma).length = f := by rw [hdone, List.length_map, List.length_range]
      have hfull : f = needed dma := by
        by_contra hne
        have hmem : (command.hd, command.sector + (f - 1)) ∈ (drive.done command image dma).getLast? := by
          obtain ⟨g, rfl⟩ := Nat.exists_eq_succ_of_ne_zero hzero
          rw [hdone, List.range_succ, List.map_append, List.map_singleton, List.getLast?_concat]
          rfl
        have hafter := hright.result _ hmem
        rw [hresult, if_neg hne] at hafter
        exact following_ne hs (by omega) htrack hafter
      subst hfull
      refine Or.inr (Or.inr ⟨hend, htrack, ?_, fun hw k hk hle => ?_⟩)
      · have := hlast.2.1
        rwa [Nat.sub_add_cancel hpos] at this
      · obtain ⟨-, image', hmedium', -, hplaced⟩ := hright.writes hw
        cases hmedium.symm.trans hmedium'
        rw [hlength, Nat.min_eq_left hsupplied] at hplaced
        have hshort : Placed (supplied dma) (base drive command + ·) (written dma memory stack) image.bytes t'.image.bytes :=
          hplaced.congr (fun k hk => bytePlace_eq hs hdone (by omega)) fun k hk => (if_pos hk).symm
        have htail := (Placed.shorten_iff (fun i _ j _ heq => Nat.add_left_cancel heq) hsupplied (hmoved.writes hw).2).mp
          hshort k hk hle
        rwa [written, if_neg (by omega)] at htail
  · intro hunaffected
    by_cases hzero : f = 0
    · subst hzero
      have hnone : drive.done command image dma = (List.range 0).map fun i => (command.hd, command.sector + i) :=
        done_of_cannot hs (hstop hpos)
      exact transferRight_of_done hs hnone hmoved haccesses hmemory hmedium
        (fun _ k hk => absurd hk (by omega)) (fun h => absurd h (lt_irrefl 0)) hfailed
    · have hfirst := hcan 0 (by omega)
      obtain hnot | hout | ⟨hend, htrack, hin, hstale⟩ := hunaffected
      · exact absurd hnot hfirst.2.2
      · exact absurd hfirst.2.1 (by omega)
      · have hall : ∀ j < needed dma, drive.Can command image j := fun j hj =>
          ⟨by omega, (Nat.add_le_add_left (Nat.mul_le_mul_left sectorBytes hj) _).trans hin, hfirst.2.2⟩
        have hfull : f = needed dma := by
          by_contra hne
          have hlt : f < needed dma := by omega
          exact hstop hlt (hall f hlt)
        subst hfull
        refine transferRight_of_done hs (done_of_can hs hend hall) hmoved haccesses hmemory hmedium hstale (fun _ => ?_) hfailed
        rw [hresult, if_pos rfl, updateChrn_eq (heads_eq hs ▸ hs.hd) hpos hend]
        exact ⟨rfl, rfl, rfl⟩

end

/-! ## An image of 1.44 MB -/

/-- A blank diskette. -/
def diskette : Image := { bytes := fun _ => 0xe5, byteCount := 1474560 }

def disketteDrive : Drive := { medium := some diskette, mode := .direct, cylinders := 80, heads := 2, sectors := 18 }

/-- A multi-track READ DATA of cylinder 0, head 0 from a sector to the end of the track. -/
def readFrom (sector : Byte) : Command := ![0xc6, 0, 0, 0, sector, 2, 18, 0x1b, 0xff]

/-- The diskette's channel, programmed for two sectors. -/
def twoSectors : Channel := { transferType := .write, currentAddress := 0, currentCount := 1023 }

theorem typeCmd_readFrom (sector : Byte) : (readFrom sector).typeCmd = 6 := by
  change (0xc6 : Byte) &&& 0x1f = 6
  decide

theorem started_readFrom (sector : Byte) (h : 0 < sector.toNat ∧ sector.toNat ≤ 18) :
    Started disketteDrive (readFrom sector) diskette twoSectors where
  medium := rfl
  geometry := by decide
  typeCmd := .inr (typeCmd_readFrom sector)
  size := rfl
  cyl := (by decide : 0 < 80)
  hd := (by decide : 0 < 2)
  sector := h
  enabled := rfl
  transferType := by
    rw [Command.writing, typeCmd_readFrom]
    rfl

/-- Sectors 16 and 17 are read. -/
theorem reads_two_sectors : TransferRight disketteDrive (readFrom 16) diskette twoSectors (fun _ => 0)
    (disketteDrive.gfiCommand (readFrom 16) twoSectors (fun _ => 0) fun _ => 0) :=
  (floppy_transfers_exact (started_readFrom 16 (by decide))).mpr (.inr (.inr ⟨by decide, by decide, by decide, nofun⟩))

/-- From sector 18 on, the second sector is the first of head 1: the code does not get there. -/
theorem floppy_transfers_not_exact : ¬∀ (drive : Drive) (command : Command) (image : Image) (dma : Channel) (memory : Memory)
    (stack : Buffer), Started drive command image dma →
      TransferRight drive command image dma memory (drive.gfiCommand command dma memory stack) := by
  intro h
  have haccesses := (h disketteDrive (readFrom 18) diskette twoSectors (fun _ => 0) (fun _ => 0)
    (started_readFrom 18 (by decide))).accesses
  revert haccesses
  decide

end SoftPC.Gfi
