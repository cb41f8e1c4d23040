import SoftPC.Disks.FdiskPosition
import SoftPC.Machinery.Outcome

/-!
# Disks/FdiskTransfer — the sectors a command is for

    first ──▸ first + 1 ──▸ … ──▸ first + extent     count of them, or up to the limit
     256 words  256 words            ID not found

What a READ or a WRITE is to transfer (`extent`), and how far the registers really lead (`Plan`): to the
end of the count, to the limit, or to the end of a track of 255 sectors (`Plan.next`).  A guest is a
controller and the words that have gone through its data port while there was data (`Guest`).
-/

namespace SoftPC.Fdisk

abbrev Word := BitVec 16

/-! ## What is asked for -/

/-- How many sectors a command is for. -/
def Hdd.count (h : Hdd) : ℕ := if h.taskfile.scount = 0 then 256 else h.taskfile.scount.toNat

namespace Disk

variable (t : Disk) (h : Hdd)

/-- The registers name a sector of the geometry; heads from 8 on are for a drive that is told so. -/
def Named : Prop :=
  h.head ≤ t.maxhead ∧ (7 < h.head → has h.fixeddiskreg 8) ∧ 0 < h.taskfile.snum.toNat ∧
    h.taskfile.snum.toNat ≤ t.sectors

instance : Decidable (t.Named h) := inferInstanceAs (Decidable (_ ∧ _))

/-- The first sector. -/
def first : ℕ := t.number h.cylinder h.head h.taskfile.snum.toNat

/-- How many sectors there are of those asked for. -/
def extent : ℕ := if t.Named h then min h.count (t.limit - t.first h) else 0

/-- The disk is selected, ready, and on its medium. -/
structure Selected : Prop where
  pseldrv : h.pseldrv = some t.drive
  shape : h.drives t.drive = t.shape
  ready : h.status drdy
  media : h.media t.drive = some t.image

/-- **The code finds its way**: the first sector is not past the image and taken for one within it, and
tracks of 255 sectors are not left. -/
def Finds : Prop :=
  t.Named h →
    (t.limit ≤ t.first h → t.first h < t.capacity → t.image.totalSectors ≤ t.first h % 2 ^ 23) ∧
    (t.sectors = 255 → h.taskfile.snum.toNat + t.extent h ≤ 256)

instance : Decidable (t.Finds h) := inferInstanceAs (Decidable (_ → _))

end Disk

theorem Hdd.count_pos (h : Hdd) : 0 < h.count := by
  unfold count
  split
  · decide
  · rename_i hne
    by_contra hz
    exact hne (BitVec.eq_of_toNat_eq (by simpa using hz))

theorem Hdd.count_le (h : Hdd) : h.count ≤ 256 := by
  unfold count
  split <;> omega

theorem Hdd.scount_eq (h : Hdd) : h.taskfile.scount = .ofNat 8 h.count := by
  unfold count
  split
  · assumption
  · rw [BitVec.ofNat_toNat, BitVec.setWidth_eq]

/-- One sector less. -/
theorem ofNat_sub_one {n : ℕ} (hn : 0 < n) : BitVec.ofNat 8 n - 1 = BitVec.ofNat 8 (n - 1) := by
  refine BitVec.eq_of_toNat_eq ?_
  rw [BitVec.toNat_sub, BitVec.toNat_ofNat, BitVec.toNat_ofNat]
  change (2 ^ 8 - 1 + n % 2 ^ 8) % 2 ^ 8 = (n - 1) % 2 ^ 8
  omega

theorem ofNat_eq_zero {n : ℕ} (hn : n < 256) : BitVec.ofNat 8 n = 0 ↔ n = 0 := by
  constructor
  · intro h
    have h' := congrArg BitVec.toNat h
    rw [BitVec.toNat_ofNat] at h'
    change n % 2 ^ 8 = 0 at h'
    omega
  · rintro rfl
    rfl

/-! ## Places -/

/-- What a search depends on. -/
def Hdd.place (h : Hdd) : Option (Fin 2) × (Fin 2 → Drive) × Byte × Byte × Byte × Byte × Byte :=
  (h.pseldrv, h.drives, h.fixeddiskreg, h.taskfile.snum, h.taskfile.cyllo, h.taskfile.cylhi, h.taskfile.drvhd)

/-- The next place depends on this one only. -/
theorem Hdd.stepped_place {h g : Hdd} (d : Drive) (hp : g.place = h.place) :
    (g.stepped d).place = (h.stepped d).place := by
  simp only [Hdd.place, Prod.mk.injEq] at hp
  obtain ⟨hsel, hdrives, hfixed, hsnum, hlo, hhi, hdrvhd⟩ := hp
  have hhead : g.head = h.head := by rw [Hdd.head, hdrvhd, Hdd.head]
  have hcyl : g.cylinder = h.cylinder := by rw [Hdd.cylinder, hlo, hhi, Hdd.cylinder]
  by_cases hs : (h.taskfile.snum + 1).toNat > d.nsecspertrack
  · by_cases hh : h.head + 1 > d.maxhead
    · rw [stepped_cylinder hs hh, stepped_cylinder (hsnum ▸ hs) (hhead ▸ hh)]
      simp only [place, hsel, hdrives, hfixed, hdrvhd, hcyl]
    · rw [stepped_head hs hh, stepped_head (hsnum ▸ hs) (hhead ▸ hh)]
      simp only [place, hsel, hdrives, hfixed, hdrvhd, hlo, hhi, hhead]
  · rw [stepped_sector hs, stepped_sector (hsnum ▸ hs)]
    simp only [place, hsel, hdrives, hfixed, hdrvhd, hlo, hhi, hsnum]

namespace Disk

variable {t : Disk} {h h' : Hdd} {n : ℕ}

/-- There is no sector where the registers point, or the image has none. -/
def Stuck (t : Disk) (h : Hdd) : Prop :=
  h.pseldrv = some t.drive ∧
    (h.dosearchid = .ok none ∨
      ∃ m, h.dosearchid = .ok (some (.ofNat 32 (m * 512))) ∧ ¬m % 2 ^ 23 < t.image.totalSectors)

theorem At.congr (ha : t.At h n) (hp : h'.place = h.place) : t.At h' n := by
  simp only [Hdd.place, Prod.mk.injEq] at hp
  obtain ⟨hsel, hdrives, hfixed, hsnum, hlo, hhi, hdrvhd⟩ := hp
  have hhead : h'.head = h.head := by rw [Hdd.head, hdrvhd, Hdd.head]
  have hcyl : h'.cylinder = h.cylinder := by rw [Hdd.cylinder, hlo, hhi, Hdd.cylinder]
  exact ⟨by rw [hsel, ha.pseldrv], by rw [hdrives, ha.shape], by rw [hhead]; exact ha.head_le,
    by rw [hhead, hfixed]; exact ha.gate, by rw [hsnum]; exact ha.sector_pos, by rw [hsnum]; exact ha.sector_le,
    by rw [hcyl, hhead, hsnum, ha.number]⟩

theorem Stuck.congr {g : Hdd} (hs : t.Stuck h) (hp : g.place = h.place) : t.Stuck g := by
  simp only [Hdd.place, Prod.mk.injEq] at hp
  obtain ⟨hsel, hdrives, hfixed, hsnum, hlo, hhi, hdrvhd⟩ := hp
  have hsearch : g.dosearchid = h.dosearchid := by
    simp only [Hdd.dosearchid, Hdd.head, Hdd.cylinder, Hdd.selected, hsel, hdrives, hfixed, hsnum, hlo, hhi, hdrvhd]
    rfl
  rw [Stuck, hsel, hsearch]
  exact hs

/-- A sector that is not found. -/
theorem At.stuck (ha : t.At h n) (hf : t.found n = none) : t.Stuck h := by
  refine ⟨ha.pseldrv, ?_⟩
  rw [ha.dosearchid]
  by_cases hn : n < t.capacity
  · refine .inr ⟨n, by rw [if_pos hn], fun hm => ?_⟩
    rw [found, if_pos ⟨hn, hm⟩] at hf
    cases hf
  · exact .inl (by rw [if_neg hn])

theorem found_of_lt (hn : n < t.limit) : t.found n = some n := by
  have hlt := lt_min_iff.mp hn
  have := t.supported
  rw [found, Nat.mod_eq_of_lt (by omega), if_pos ⟨hlt.2, hlt.1⟩]

theorem found_limit : t.found t.limit = none := by
  rw [found, if_neg]
  have := t.supported
  rcases min_choice t.image.totalSectors t.capacity with hl | hl <;> rw [limit, hl]
  · rw [Nat.mod_eq_of_lt (by omega)]
    exact fun hc => absurd hc.2 (lt_irrefl _)
  · exact fun hc => absurd hc.1 (lt_irrefl _)

/-- The registers, at a command's start. -/
theorem Selected.at (hs : t.Selected h) (hn : t.Named h) : t.At h (t.first h) :=
  ⟨hs.1, hs.2, hn.1, hn.2.1, hn.2.2.1, hn.2.2.2, rfl⟩

theorem Selected.stuck (hs : t.Selected h) (hn : ¬t.Named h) : t.Stuck h := by
  have hsel : h.selected = .ok (t.drive, t.shape) := by
    rw [Hdd.selected, hs.pseldrv]
    dsimp only
    rw [hs.shape]
  refine ⟨hs.pseldrv, .inl (At.dosearchid_none hsel ?_)⟩
  simp only [Named, not_and_or, Classical.not_imp, not_le, Nat.pos_iff_ne_zero, not_not] at hn
  rcases hn with hn | hn | hn | hn
  · exact .inr (.inl hn)
  · exact .inl hn
  · exact .inr (.inr (.inr hn))
  · exact .inr (.inr (.inl hn))

/-! ## The way there -/

/-- How far the registers lead: from the first sector `n` sectors on. -/
structure Plan (t : Disk) (h₀ : Hdd) (n : ℕ) : Prop where
  le_count : n ≤ h₀.count
  nowhere : n = 0 → t.Stuck h₀
  at_first : 0 < n → t.At h₀ (t.first h₀)
  le_limit : 0 < n → t.first h₀ + n ≤ t.limit
  track : 0 < n → t.sectors = 255 → h₀.taskfile.snum.toNat + n ≤ 256
  ends : 0 < n → n < h₀.count →
    t.first h₀ + n = t.limit ∨ t.sectors = 255 ∧ h₀.taskfile.snum.toNat + n = 256

variable {h₀ : Hdd} {k : ℕ}

/-- All there are, if the code finds its way. -/
theorem Selected.plan_extent (hs : t.Selected h₀) (hf : t.Finds h₀) : t.Plan h₀ (t.extent h₀) := by
  by_cases hn : t.Named h₀
  · have hextent : t.extent h₀ = min h₀.count (t.limit - t.first h₀) := if_pos hn
    obtain ⟨hlost, htrack⟩ := hf hn
    refine ⟨by omega, fun hz => (hs.at hn).stuck ?_, fun _ => hs.at hn, fun _ => by omega, fun _ => htrack,
      fun _ _ => .inl (by omega)⟩
    have := h₀.count_pos
    have hpast : t.limit ≤ t.first h₀ := by omega
    rw [found, if_neg]
    exact fun hc => absurd hc.2 (not_lt.mpr (hlost hpast hc.1))
  · have hextent : t.extent h₀ = 0 := if_neg hn
    rw [hextent]
    exact ⟨Nat.zero_le _, fun _ => hs.stuck hn, nofun, nofun, nofun, nofun⟩

/-- To the end of the track of 255 sectors that should be left. -/
theorem Selected.plan_track (hs : t.Selected h₀) (hn : t.Named h₀) (h255 : t.sectors = 255)
    (hlong : 256 < h₀.taskfile.snum.toNat + t.extent h₀) : t.Plan h₀ (256 - h₀.taskfile.snum.toNat) := by
  have hextent : t.extent h₀ = min h₀.count (t.limit - t.first h₀) := if_pos hn
  have hle : h₀.taskfile.snum.toNat ≤ 255 := h255 ▸ hn.2.2.2
  exact ⟨by omega, fun hz => absurd hz (by omega), fun _ => hs.at hn, fun _ => by omega, fun _ _ => by omega,
    fun _ _ => .inr ⟨h255, by omega⟩⟩

/-- The registers on their way, after `k` sectors. -/
def Line (t : Disk) (h₀ : Hdd) (n : ℕ) (h : Hdd) (k : ℕ) : Prop :=
  (k < n → t.At h (t.first h₀ + k)) ∧ (k = n → n < h₀.count → t.Stuck h)

theorem Line.congr (hl : t.Line h₀ n h k) (hp : h'.place = h.place) : t.Line h₀ n h' k :=
  ⟨fun hk => (hl.1 hk).congr hp, fun hk hc => (hl.2 hk hc).congr hp⟩

theorem Plan.start (hp : t.Plan h₀ n) : t.Line h₀ n h₀ 0 := ⟨hp.at_first, fun hz _ => hp.nowhere hz.symm⟩

/-- In a track of 255 sectors the sector register has counted the sectors. -/
theorem Plan.sector_eq (hp : t.Plan h₀ n) (ha : t.At h (t.first h₀ + k)) (hk : k < n) (h255 : t.sectors = 255) :
    h.taskfile.snum.toNat = h₀.taskfile.snum.toNat + k := by
  have hfirst := (hp.at_first (by omega)).sector_pos
  have htrack := hp.track (by omega) h255
  have hnumber := ha.number
  have hpos := ha.sector_pos
  have hle := ha.sector_le
  rw [first, number, number, h255] at hnumber
  omega

/-- **One sector on.** -/
theorem Plan.next (hp : t.Plan h₀ n) (ha : t.At h (t.first h₀ + k)) (hk : k < n) :
    t.Line h₀ n (h.stepped t.shape) (k + 1) := by
  have hlimit := hp.le_limit (by omega)
  have hcapacity : t.first h₀ + k < t.capacity := by
    have := Nat.min_le_right t.image.totalSectors t.capacity
    rw [← limit] at this
    omega
  have hsnum : h.taskfile.snum.toNat ≤ 255 := ha.sector_le.trans t.sectors_le
  by_cases hlast : h.taskfile.snum.toNat = 255
  · have h255 : t.sectors = 255 := le_antisymm t.sectors_le (hlast ▸ ha.sector_le)
    have hcounted := hp.sector_eq ha hk h255
    have htrack := hp.track (by omega) h255
    obtain ⟨hlost, hsel⟩ := ha.next_lost hlast
    exact ⟨fun hk' => absurd hk' (by omega), fun _ _ => ⟨hsel, .inl hlost⟩⟩
  · have hnext := ha.next hcapacity (by omega)
    refine ⟨fun _ => hnext, fun hkn hc => hnext.stuck ?_⟩
    rcases hp.ends (by omega) hc with hend | ⟨h255, hend⟩
    · rw [show t.first h₀ + k + 1 = t.limit by omega, found_limit]
    · have hcounted := hp.sector_eq ha hk h255
      omega

end Disk

/-! ## The data -/

/-- The words of a sector, in their order. -/
def Sector.words (s : Sector) : List Word := (List.range 256).map fun i => s (.ofNat 8 i)

/-- The words of `n` sectors of an image. -/
def Image.stream (image : Image) (first n : ℕ) : List Word :=
  (List.range n).flatMap fun k => (image.sectors (first + k)).words

theorem Sector.words_length (s : Sector) : s.words.length = 256 := by simp [words]

theorem Sector.take_succ (s : Sector) {i : ℕ} (hi : i < 256) :
    s.words.take i ++ [s (.ofNat 8 i)] = s.words.take (i + 1) := by
  have hlen : i < s.words.length := s.words_length ▸ hi
  have hget : s.words[i] = s (.ofNat 8 i) := by simp [words]
  rw [← hget, List.take_append_getElem]

namespace Image

variable (image : Image) (first : ℕ)

theorem stream_succ (n : ℕ) :
    image.stream first (n + 1) = image.stream first n ++ (image.sectors (first + n)).words := by
  rw [stream, List.range_succ, List.flatMap_append, List.flatMap_singleton, stream]

theorem stream_length (n : ℕ) : (image.stream first n).length = 256 * n := by
  induction n with
  | zero => rfl
  | succ n ih =>
    rw [stream_succ, List.length_append, ih, Sector.words_length]
    omega

theorem stream_prefix {k n : ℕ} (hk : k ≤ n) : image.stream first k <+: image.stream first n := by
  obtain ⟨m, rfl⟩ := Nat.exists_eq_add_of_le hk
  induction m with
  | zero => exact List.prefix_refl _
  | succ m ih =>
    rw [← Nat.add_assoc, stream_succ]
    exact (ih (by omega)).trans (List.prefix_append _ _)

end Image

/-- A controller, and the words that have gone through its data port while there was data. -/
structure Guest where
  hdd : Hdd
  words : List Word := []

/-- The word of an access to the data port. -/
def Hdd.Op.word (h : Hdd) : Op → Option Word
  | .inw _ => some (h.sectbuffer h.sectindx)
  | .outw _ v => some v
  | _ => none

/-- There is data, and it is not that of a command that failed. -/
def Hdd.hasData (h : Hdd) : Bool := h.status drq && !h.status err

def Guest.step (g : Guest) (op : Hdd.Op) : Except Stop Guest := do
  let h ← g.hdd.step op
  return ⟨h, if g.hdd.hasData then g.words ++ (op.word g.hdd).toList else g.words⟩

/-- A command, and what the guest and the controller do then. -/
def Hdd.exchange (h : Hdd) (v : Byte) (ops : List Hdd.Op) : Except Stop Guest := do
  let h ← h.step (.outb 0x1f7 v)
  ops.foldlM Guest.step { hdd := h }

/-! ## The start of a command -/

namespace Hdd

/-- A command that starts finds everything as it was, but for the status and the error. -/
structure Started (h g : Hdd) (cmd : Cmd) : Prop where
  activecmd : g.activecmd = some cmd
  place : g.place = h.place
  media : g.media = h.media
  scount : g.taskfile.scount = h.taskfile.scount
  sectindx : g.sectindx = h.sectindx
  sectbuffer : g.sectbuffer = h.sectbuffer
  ready : g.status drdy = h.status drdy
  inProgress : g.status cip = true
  noData : g.status drq = false
  noError : g.status err = false

/-- The controller once it has a command. -/
def commanded (h : Hdd) (v : Byte) : Hdd :=
  let h := ((h.setReg v .cmd).irqDeassert).setError 0
  { h.setStat (cip ||| busy ||| (h.taskfile.stat &&& drdy)) with activecmd := some (decode v) }

theorem command_started (h : Hdd) (v : Byte) :
    ∃ g, h.step (.outb 0x1f7 v) = g.run (decode v) .start ∧ h.Started g (decode v) ∧ g.status busy := by
  refine ⟨h.commanded v, ?_, ?_⟩
  · change h.wd2010Write .cmd v = _
    rw [wd2010Write, if_neg (fun hc => hc.2 rfl)]
    rfl
  · rw [commanded, irqDeassert_eq]
    have hbits {b : Byte} (hb : drdy &&& b = 0#8) :
        has (cip ||| busy ||| (h.taskfile.stat &&& drdy)) b = has (cip ||| busy) b := by
      rw [has_or, has_eq (_ &&& _), BitVec.and_assoc, hb, BitVec.and_zero]
      simp
    have hready : has (cip ||| busy ||| (h.taskfile.stat &&& drdy)) drdy = h.status drdy := by
      rw [has_or, show has (cip ||| busy) drdy = false by decide, Bool.false_or, status, has_eq, has_eq,
        BitVec.and_assoc, BitVec.and_self]
    exact ⟨⟨rfl, rfl, rfl, rfl, rfl, rfl, hready, hbits (by decide), hbits (by decide), hbits (by decide)⟩,
      hbits (by decide)⟩

/-- …and so after a seek. -/
theorem Started.doseek {h g : Hdd} {cmd : Cmd} (hg : h.Started g cmd) : h.Started g.doseek cmd := by
  have hstatus {b : Byte} (hb : seekComplete &&& b = 0#8) := status_doseek g hb
  have hrest : ∃ stat, g.doseek = g.setStat stat := by
    rw [doseek_eq]
    exact ⟨_, rfl⟩
  obtain ⟨stat, hstat⟩ := hrest
  refine ⟨?_, ?_, ?_, ?_, ?_, ?_, (hstatus (by decide)).trans hg.ready, (hstatus (by decide)).trans hg.inProgress,
    (hstatus (by decide)).trans hg.noData, (hstatus (by decide)).trans hg.noError⟩ <;> rw [hstat]
  · exact hg.activecmd
  · exact hg.place
  · exact hg.media
  · exact hg.scount
  · exact hg.sectindx
  · exact hg.sectbuffer

end Hdd

end SoftPC.Fdisk
