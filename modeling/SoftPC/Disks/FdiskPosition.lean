import Mathlib.Tactic.Linarith
import Mathlib.Tactic.Ring
import SoftPC.Disks.Fdisk

/-!
# Disks/FdiskPosition — the sectors a task file points at

    cylinder, head, sector ──number──▸ n ──▸ n * 512 mod 2^32 ──▸ sector n mod 2^23
             │ updateposregs                                      (if within the image)
             ▾
    cylinder', head', sector' ──number──▸ n + 1

The registers count through the sectors of a disk in the order of their numbers (`At.next`), but where a
track has 255 sectors: there the sector register wraps at its end (`At.next_lost`).  The controller's
offset has 32 bits, so it takes a sector for the one whose number is the same modulo `2 ^ 23`
(`At.transfer`).
-/

namespace SoftPC.Fdisk

/-- An image as a guest sees it: on a drive, with the parameters it has set. -/
structure Disk where
  drive : Fin 2
  image : Image
  maxhead : ℕ
  sectors : ℕ
  /-- `softpc_hdd_size_supported`. -/
  supported : image.totalSectors ≤ 2 ^ 22
  maxhead_le : maxhead ≤ 15
  sectors_le : sectors ≤ 255

namespace Disk

variable (t : Disk)

def heads : ℕ := t.maxhead + 1

/-- The limit put on the cylinders, from the image's size. -/
def cylinders : ℕ := min 16383 (max 1 (t.image.totalSectors / (16 * 63)))

/-- The drive once SET PARAMETERS is over. -/
def shape : Drive :=
  { Drive.attach (some t.image) with
    maxhead := t.maxhead, nsecspertrack := t.sectors, nbytespertrack := t.sectors * 512
    nbytespercyl := t.sectors * 512 * (t.maxhead + 1) }

/-- The number of a sector, counted from the start of the image. -/
def number (cylinder head sector : ℕ) : ℕ := (cylinder * t.heads + head) * t.sectors + (sector - 1)

/-- The sectors of the cylinders there are. -/
def capacity : ℕ := t.cylinders * (t.heads * t.sectors)

/-- Where the disk ends, or its image. -/
def limit : ℕ := min t.image.totalSectors t.capacity

/-- Where a sector is, as the controller finds it. -/
def found (n : ℕ) : Option ℕ :=
  if n < t.capacity ∧ n % 2 ^ 23 < t.image.totalSectors then some (n % 2 ^ 23) else none

variable {t}

theorem number_lt_capacity {cylinder head sector : ℕ} (hh : head < t.heads) (hs : sector - 1 < t.sectors) :
    t.number cylinder head sector < t.capacity ↔ cylinder < t.cylinders := by
  have hsplit : t.number cylinder head sector < (cylinder + 1) * (t.heads * t.sectors) := by
    calc t.number cylinder head sector < (cylinder * t.heads + head + 1) * t.sectors := by
          rw [number, Nat.add_mul _ 1, Nat.one_mul]
          omega
      _ ≤ ((cylinder + 1) * t.heads) * t.sectors := Nat.mul_le_mul_right _ (by rw [Nat.succ_mul]; omega)
      _ = (cylinder + 1) * (t.heads * t.sectors) := Nat.mul_assoc _ _ _
  constructor
  · intro h
    by_contra hc
    have hle : t.capacity ≤ t.number cylinder head sector := by
      calc t.capacity ≤ cylinder * (t.heads * t.sectors) := Nat.mul_le_mul_right _ (by omega)
        _ = (cylinder * t.heads) * t.sectors := (Nat.mul_assoc _ _ _).symm
        _ ≤ (cylinder * t.heads + head) * t.sectors := Nat.mul_le_mul_right _ (by omega)
        _ ≤ t.number cylinder head sector := Nat.le_add_right _ _
    omega
  · intro hc
    exact lt_of_lt_of_le hsplit (Nat.mul_le_mul_right _ hc)

end Disk

namespace Hdd

variable (h : Hdd)

/-- What `updateposregs` does, with the selected drive. -/
def stepped (d : Drive) : Hdd :=
  let h := { h with taskfile := { h.taskfile with
    scount := h.taskfile.scount - 1, snum := h.taskfile.snum + 1 } }
  if h.taskfile.snum.toNat > d.nsecspertrack then h.nextTrack d else h

variable {h} {d : Drive}

theorem stepped_sector (hs : ¬(h.taskfile.snum + 1).toNat > d.nsecspertrack) :
    h.stepped d = { h with taskfile := { h.taskfile with
      scount := h.taskfile.scount - 1, snum := h.taskfile.snum + 1 } } := if_neg hs

theorem stepped_head (hs : (h.taskfile.snum + 1).toNat > d.nsecspertrack) (hh : ¬h.head + 1 > d.maxhead) :
    h.stepped d =
      { h with
        taskfile := { h.taskfile with
          scount := h.taskfile.scount - 1, snum := 1
          drvhd := (h.taskfile.drvhd &&& 0xf0) ||| .ofNat 8 (h.head + 1) }
        fixeddiskreg := if h.head + 1 > 7 then h.fixeddiskreg ||| 8 else h.fixeddiskreg } :=
  (if_pos hs).trans (if_neg hh)

theorem stepped_cylinder (hs : (h.taskfile.snum + 1).toNat > d.nsecspertrack) (hh : h.head + 1 > d.maxhead) :
    h.stepped d = { h with taskfile := { h.taskfile with
      scount := h.taskfile.scount - 1, snum := 1, drvhd := h.taskfile.drvhd &&& 0xf0
      cyllo := .ofNat 8 (h.cylinder + 1), cylhi := .ofNat 8 ((h.cylinder + 1) / 256) } } :=
  (if_pos hs).trans (if_pos hh)

/-- The rest of the controller stays, and there is one sector less to go. -/
theorem stepped_keeps (h : Hdd) (d : Drive) : ∃ tf fixeddiskreg,
    h.stepped d = { h with taskfile := tf, fixeddiskreg } ∧ tf.stat = h.taskfile.stat ∧
      tf.error = h.taskfile.error ∧ tf.scount = h.taskfile.scount - 1 := by
  by_cases hs : (h.taskfile.snum + 1).toNat > d.nsecspertrack
  · by_cases hh : h.head + 1 > d.maxhead
    · exact ⟨_, _, stepped_cylinder hs hh, rfl, rfl, rfl⟩
    · exact ⟨_, _, stepped_head hs hh, rfl, rfl, rfl⟩
  · exact ⟨_, _, stepped_sector hs, rfl, rfl, rfl⟩

end Hdd

/-- The registers point at the sector with a number, on a disk that is selected. -/
structure Disk.At (t : Disk) (h : Hdd) (n : ℕ) : Prop where
  pseldrv : h.pseldrv = some t.drive
  shape : h.drives t.drive = t.shape
  head_le : h.head ≤ t.maxhead
  gate : 7 < h.head → has h.fixeddiskreg 8
  sector_pos : 0 < h.taskfile.snum.toNat
  sector_le : h.taskfile.snum.toNat ≤ t.sectors
  number : t.number h.cylinder h.head h.taskfile.snum.toNat = n

theorem head_of_nibble {v : Byte} {n : ℕ} (hn : n < 16) :
    ((v &&& 0xf0 ||| .ofNat 8 n) &&& 0xf : Byte).toNat = n := by
  have hn' : BitVec.ofNat 8 n &&& 0xf = BitVec.ofNat 8 n := (by decide : ∀ n < 16, BitVec.ofNat 8 n &&& 0xf = BitVec.ofNat 8 n) n hn
  rw [BitVec.and_or_distrib_right, BitVec.and_assoc, show (0xf0 &&& 0xf : Byte) = 0#8 by decide, BitVec.and_zero,
    BitVec.zero_or, hn', BitVec.toNat_ofNat]
  omega

namespace Disk.At

variable {t : Disk} {h : Hdd} {n : ℕ}

theorem selected (ha : t.At h n) : h.selected = .ok (t.drive, t.shape) := by
  rw [Hdd.selected, ha.pseldrv]
  dsimp only
  rw [ha.shape]

theorem cylinder_lt (ha : t.At h n) : n < t.capacity ↔ h.cylinder < t.cylinders := by
  rw [← ha.number]
  have := ha.head_le
  have := ha.sector_pos
  have := ha.sector_le
  exact number_lt_capacity (by rw [heads]; omega) (by omega)

/-- **The offset looked for** is the sector's, in 32 bits. -/
theorem dosearchid (ha : t.At h n) :
    h.dosearchid = .ok (if n < t.capacity then some (.ofNat 32 (n * 512)) else none) := by
  have hcyl : h.cylinder > t.shape.maxcyl ↔ ¬n < t.capacity := by
    rw [ha.cylinder_lt]
    change h.cylinder > min 16383 (max 1 (t.image.totalSectors / (16 * 63))) - 1 ↔ _
    rw [cylinders]
    omega
  have hoffset : h.cylinder * t.shape.nbytespercyl + h.head * t.shape.nbytespertrack
      + (h.taskfile.snum.toNat - 1) * 512 = n * 512 := by
    rw [← ha.number]
    change h.cylinder * (t.sectors * 512 * (t.maxhead + 1)) + h.head * (t.sectors * 512) + _ = _
    rw [Disk.number, heads]
    ring
  have hgate : (decide (h.head > 7) && !has h.fixeddiskreg 8) = false := by
    by_cases h7 : 7 < h.head
    · rw [ha.gate h7, Bool.not_true, Bool.and_false]
    · rw [decide_eq_false h7, Bool.false_and]
  have hhead : ¬h.head > t.shape.maxhead := not_lt.mpr ha.head_le
  have hsector : ¬(h.taskfile.snum.toNat > t.shape.nsecspertrack ∨ h.taskfile.snum.toNat = 0) := by
    have := ha.sector_pos
    have : h.taskfile.snum.toNat ≤ t.shape.nsecspertrack := ha.sector_le
    omega
  rw [Hdd.dosearchid, hgate, ha.selected]
  change (if h.head > t.shape.maxhead then _ else _) = _
  rw [if_neg hhead, if_neg hsector]
  by_cases hn : n < t.capacity
  · rw [if_neg (fun hc => hcyl.mp hc hn), if_pos hn, hoffset]
    rfl
  · rw [if_pos (hcyl.mpr hn), if_neg hn]
    rfl

/-- **The sector transferred** has the same number modulo `2 ^ 23`. -/
theorem transfer (t : Disk) {h : Hdd} {image : Image} (hm : h.media t.drive = some image)
    (hsize : image.totalSectors = t.image.totalSectors) (n : ℕ) :
    h.transfer t.drive (.ofNat 32 (n * 512)) =
      if n % 2 ^ 23 < t.image.totalSectors then some (image, n % 2 ^ 23) else none := by
  have hoffset : (BitVec.ofNat 32 (n * 512)).toNat = n % 2 ^ 23 * 512 := by
    rw [BitVec.toNat_ofNat]
    omega
  have hneg : (BitVec.ofNat 32 (n * 512)).toInt < 0 ↔ 2 ^ 22 ≤ n % 2 ^ 23 := by
    rw [BitVec.toInt_eq_toNat_cond, hoffset]
    split <;> omega
  have := t.supported
  simp only [Hdd.transfer, hm, hoffset, hneg, hsize]
  by_cases hn : n % 2 ^ 23 < t.image.totalSectors
  · rw [if_neg (by omega), if_pos hn, Nat.mul_div_cancel _ (by decide)]
  · rw [if_pos (by omega), if_neg hn]

theorem stepped_eq (ha : t.At h n) : h.updateposregs = .ok (h.stepped t.shape) := by
  rw [Hdd.updateposregs, ha.selected]
  rfl

/-- There is no sector where the registers point. -/
theorem dosearchid_none {h : Hdd} {r : Fin 2 × Drive} (hs : h.selected = .ok r)
    (hbad : (7 < h.head ∧ ¬has h.fixeddiskreg 8) ∨ r.2.maxhead < h.head ∨
      r.2.nsecspertrack < h.taskfile.snum.toNat ∨ h.taskfile.snum.toNat = 0) : h.dosearchid = .ok none := by
  rw [Hdd.dosearchid, hs]
  by_cases hgate : 7 < h.head ∧ ¬has h.fixeddiskreg 8
  · exact if_pos (by simp only [Bool.and_eq_true, decide_eq_true_eq, Bool.not_eq_true']; simpa using hgate)
  · refine (if_neg (by simp only [Bool.and_eq_true, decide_eq_true_eq, Bool.not_eq_true']; simpa using hgate)).trans ?_
    change (if h.head > r.2.maxhead then _ else _) = _
    by_cases hhead : r.2.maxhead < h.head
    · exact if_pos hhead
    · rw [if_neg hhead, if_pos ((hbad.resolve_left hgate).resolve_left hhead)]
      rfl

/-- The registers step on to the next sector. -/
theorem next (ha : t.At h n) (hn : n < t.capacity) (hsnum : h.taskfile.snum.toNat < 255) :
    t.At (h.stepped t.shape) (n + 1) := by
  have hinc : (h.taskfile.snum + 1).toNat = h.taskfile.snum.toNat + 1 := by
    rw [BitVec.toNat_add]
    change (h.taskfile.snum.toNat + 1) % 256 = _
    omega
  have hcyl : h.cylinder < 16383 := lt_of_lt_of_le (ha.cylinder_lt.mp hn) (Nat.min_le_left _ _)
  have hnum := ha.number
  have hpos := ha.sector_pos
  have hle := ha.sector_le
  have hhead := ha.head_le
  have hmax := t.maxhead_le
  by_cases hend : h.taskfile.snum.toNat + 1 > t.sectors
  · have hwrap : t.number h.cylinder h.head h.taskfile.snum.toNat + 1
        = (h.cylinder * t.heads + h.head + 1) * t.sectors := by
      rw [Disk.number, Nat.succ_mul]
      omega
    by_cases hlast : h.head + 1 > t.maxhead
    · have heq := Hdd.stepped_cylinder (h := h) (d := t.shape) (hinc ▸ hend) hlast
      have hcyl' : (h.stepped t.shape).cylinder = h.cylinder + 1 := by
        rw [heq]
        change (BitVec.ofNat 8 ((h.cylinder + 1) / 256)).toNat * 256 + (BitVec.ofNat 8 (h.cylinder + 1)).toNat = _
        rw [BitVec.toNat_ofNat, BitVec.toNat_ofNat]
        omega
      have hhead' : (h.stepped t.shape).head = 0 := by
        rw [heq]
        change (h.taskfile.drvhd &&& 0xf0 &&& 0xf).toNat = 0
        rw [BitVec.and_assoc, show (0xf0 &&& 0xf : Byte) = 0#8 by decide, BitVec.and_zero]
        rfl
      have hsnum' : (h.stepped t.shape).taskfile.snum = 1 := by rw [heq]
      refine ⟨by rw [heq]; exact ha.pseldrv, by rw [heq]; exact ha.shape, by omega, fun h7 => by omega, ?_, ?_, ?_⟩
      · rw [hsnum']
        decide
      · rw [hsnum']
        change 1 ≤ _
        omega
      · rw [hcyl', hhead', hsnum', ← hnum, hwrap, Disk.number, show h.head = t.maxhead by omega, heads]
        change ((h.cylinder + 1) * (t.maxhead + 1) + 0) * t.sectors + 0 = _
        ring
    · have heq := Hdd.stepped_head (h := h) (d := t.shape) (hinc ▸ hend) hlast
      have hhead' : (h.stepped t.shape).head = h.head + 1 := by
        rw [heq]
        exact head_of_nibble (by omega)
      have hsnum' : (h.stepped t.shape).taskfile.snum = 1 := by rw [heq]
      have hgate' : (h.stepped t.shape).fixeddiskreg =
          if h.head + 1 > 7 then h.fixeddiskreg ||| 8 else h.fixeddiskreg := by
        rw [heq]
      refine ⟨by rw [heq]; exact ha.pseldrv, by rw [heq]; exact ha.shape, by omega, fun h7 => ?_, ?_, ?_, ?_⟩
      · rw [hgate', if_pos (by omega), has_or, show has 8 8 = true by decide, Bool.or_true]
      · rw [hsnum']
        decide
      · rw [hsnum']
        change 1 ≤ _
        omega
      · have hcyl' : (h.stepped t.shape).cylinder = h.cylinder := by
          rw [heq]
          rfl
        rw [hcyl', hhead', hsnum', ← hnum, hwrap, Disk.number]
        rfl
  · rw [Hdd.stepped_sector (hinc ▸ hend)]
    refine ⟨ha.pseldrv, ha.shape, ha.head_le, ha.gate, ?_, ?_, ?_⟩
    · change 0 < (h.taskfile.snum + 1).toNat
      omega
    · change (h.taskfile.snum + 1).toNat ≤ t.sectors
      omega
    · change t.number h.cylinder h.head (h.taskfile.snum + 1).toNat = n + 1
      rw [hinc, ← hnum, Disk.number, Disk.number]
      omega

/-- …but from the 255th sector of a track they lose their way. -/
theorem next_lost (ha : t.At h n) (hsnum : h.taskfile.snum.toNat = 255) :
    (h.stepped t.shape).dosearchid = .ok none ∧ (h.stepped t.shape).pseldrv = some t.drive := by
  have hsectors : t.sectors = 255 := le_antisymm t.sectors_le (hsnum ▸ ha.sector_le)
  have hwrap : h.taskfile.snum + 1 = 0 := BitVec.eq_of_toNat_eq (by rw [BitVec.toNat_add, hsnum]; decide)
  have hs : ¬(h.taskfile.snum + 1).toNat > t.shape.nsecspertrack := by
    rw [hwrap]
    exact Nat.not_lt_zero _
  rw [Hdd.stepped_sector hs, hwrap]
  refine ⟨dosearchid_none (r := (t.drive, t.shape)) ?_ (.inr (.inr (.inr rfl))), ha.pseldrv⟩
  exact ha.selected

end Disk.At

end SoftPC.Fdisk
