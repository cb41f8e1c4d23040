import Mathlib.Data.List.GetD
import SoftPC.Disks.FdiskRead

/-!
# Disks/FdiskWrite — WRITE replaces the sectors it is for

    fill 0 ──256 words──▸ fill 1 ──▸ … ──▸ over
       └──────────────────────┴──▸ over, failed

A WRITE waits for its buffer to be filled (`Fills`), stores it, and waits again, until it is over (`Closed`).
With the buffer at its start, it is right exactly where the code finds its way; and with READ this is what
the controller keeps of its task (`transfers_exact`).
-/

namespace SoftPC.Fdisk

open Hdd

/-- What a guest does that writes; the events expire whenever they do. -/
def Hdd.Op.writes : Op → Bool
  | .inb _ | .pause | .interrupt => true
  | .outw port _ => port = 0x1f0
  | _ => false

/-- The image once words have replaced `n` of its sectors. -/
def Image.overwritten (image : Image) (first n : ℕ) (words : List Word) : Image :=
  { image with sectors := fun m =>
      if first ≤ m ∧ m < first + n then fun i => words.getD (256 * (m - first) + i.toNat) 0
      else image.sectors m }

/-- How many sectors a WRITE has to replace: none on a medium that cannot be written. -/
def Disk.writeExtent (t : Disk) (h : Hdd) : ℕ := if t.image.writable then t.extent h else 0

/-- **WRITE, as it should be**: the words written have replaced the sectors there are, in their order, as
far as they fill them, and nothing else; it ends when their count is exhausted, or fails with the ID of the
next one not found once the words for it are there, and until then it takes words. -/
structure WriteRight (t : Disk) (h₀ : Hdd) (g : Guest) : Prop where
  media : g.hdd.media = Function.update h₀.media t.drive
    (some (t.image.overwritten (t.first h₀) (min (g.words.length / 256) (t.writeExtent h₀)) g.words))
  ended : ¬g.hdd.status cip → ¬g.hdd.status err →
    t.writeExtent h₀ = h₀.count ∧ g.words.length = 256 * h₀.count
  failed : g.hdd.status err → t.writeExtent h₀ < h₀.count ∧
    g.words.length = 256 * (t.writeExtent h₀ + 1) ∧ g.hdd.taskfile.error = noid ||| abort
  goesOn : g.hdd.status cip → g.hdd.hasData ∧ g.words.length < 256 * min (t.writeExtent h₀ + 1) h₀.count

variable {t : Disk} {h₀ : Hdd} {n j k : ℕ}

/-- The buffer is being filled for sector `k`, from word `j` on for the first. -/
structure Fills (j k : ℕ) (h : Hdd) (words : List Word) : Prop where
  activecmd : h.activecmd = some .wsector
  hasDrq : h.status drq = true
  noError : h.status err = false
  isBusy : h.status busy = true
  inProgress : h.status cip = true
  ready : h.status drdy = true
  ws : h.statics.ws = .s1 ∨ h.statics.ws = .s4
  length : words.length + j = 256 * k + h.sectindx.toNat
  buffer : ∀ i < words.length, 256 * k ≤ i + j → h.sectbuffer (.ofNat 8 (i + j)) = words.getD i 0

/-- A WRITE is over. -/
structure Closed (e : Bool) (h : Hdd) : Prop where
  activecmd : h.activecmd = some .wsector
  ended : h.status cip = false
  noData : h.status drq = false
  failed : h.status err = e
  ws : h.statics.ws = if e then .s10 else .s11
  error : e → h.taskfile.error = noid ||| abort

/-! ## A sector stored -/

/-- A sector has been stored, and perhaps it was the last. -/
structure Stored (h h' : Hdd) (d : Drive) (media : Fin 2 → Option Image) : Prop where
  activecmd : h'.activecmd = h.activecmd
  media : h'.media = media
  place : h'.place = (h.stepped d).place
  scount : h'.taskfile.scount = h.taskfile.scount - 1
  sectindx : h'.sectindx = 0
  sameErr : h'.status err = h.status err
  last : h.taskfile.scount - 1 = 0 → h'.status cip = false ∧ h'.status drq = h.status drq ∧ h'.statics.ws = .s11
  more : h.taskfile.scount - 1 ≠ 0 → h'.status cip = h.status cip ∧ h'.status drq = true ∧
    h'.status busy = h.status busy ∧ h'.status drdy = h.status drdy ∧ h'.statics.ws = .s4

theorem wsectorNext_stored {h : Hdd} {m : ℕ} (ha : t.At h m) :
    Ends h.wsectorNext fun h' => Stored h h' t.shape h.media := by
  have hstep : h.bcr.updateposregs = .ok (h.bcr.stepped t.shape) := Disk.At.stepped_eq (ha.congr rfl)
  have hplace := stepped_place (h := h) (g := h.bcr) t.shape rfl
  obtain ⟨tf, fixeddiskreg, htf, hstat, -, hleft⟩ := h.bcr.stepped_keeps t.shape
  obtain ⟨g, hg⟩ : ∃ g : Hdd, g = { h.bcr with taskfile := tf, fixeddiskreg } := ⟨_, rfl⟩
  have hstatus (b : Byte) : g.status b = h.status b := by
    rw [hg, status, hstat]
    rfl
  have hscount : g.taskfile.scount = h.taskfile.scount - 1 := by
    rw [hg]
    exact hleft
  rw [htf, ← hg] at hplace hstep
  rw [wsectorNext, hstep]
  change Ends (.ok (if g.taskfile.scount ≠ 0 then ((g.raise drq).irqAssert).setWs .s4 else g.wsectorDone)) _
  by_cases hlast : h.taskfile.scount - 1 = 0
  · rw [if_neg (not_not.mpr (hscount.trans hlast))]
    have hfields : ∃ statics interrupts, g.wsectorDone =
        { (g.lower busy).lower cip with statics, interrupts, sectindx := 0 } ∧ statics.ws = .s11 := by
      rw [wsectorDone, irqAssert_eq]
      exact ⟨_, _, rfl, rfl⟩
    obtain ⟨statics, interrupts, hdone, hws⟩ := hfields
    have hdone' {b : Byte} (hb : busy &&& b = 0#8) (hc : cip &&& b = 0#8) :
        g.wsectorDone.status b = h.status b := by
      rw [hdone]
      change ((g.lower busy).lower cip).status b = _
      rw [status_lower _ hc, status_lower _ hb, hstatus]
    refine .ok ⟨?_, ?_, ?_, ?_, ?_, hdone' (by decide) (by decide),
      fun _ => ⟨?_, hdone' (by decide) (by decide), ?_⟩, fun hc => absurd hlast hc⟩ <;> rw [hdone]
    · rw [hg]
      rfl
    · rw [hg]
      rfl
    · exact hplace
    · exact hscount
    · exact status_lower_self _ _
    · exact hws
  · rw [if_pos (fun hc => hlast (hscount.symm.trans hc))]
    have hfields : ∃ statics interrupts, ((g.raise drq).irqAssert).setWs .s4 =
        { g.raise drq with statics, interrupts } ∧ statics.ws = .s4 := by
      rw [irqAssert_eq]
      exact ⟨_, _, rfl, rfl⟩
    obtain ⟨statics, interrupts, hmore, hws⟩ := hfields
    rw [hmore]
    have hmore' {b : Byte} (hb : has drq b = false) : (g.raise drq).status b = h.status b := by
      rw [status_raise, hb, Bool.or_false, hstatus]
    refine .ok ⟨?_, ?_, hplace, hscount, ?_, hmore' (by decide), fun hc => absurd hc hlast,
      fun _ => ⟨hmore' (by decide), ?_, hmore' (by decide), hmore' (by decide), hws⟩⟩
    · rw [hg]
      rfl
    · rw [hg]
      rfl
    · rw [hg]
      rfl
    · change (g.raise drq).status drq = true
      rw [status_raise, show has drq drq = true by decide, Bool.or_true]

/-- What a seek leaves alone. -/
theorem doseek_stored {h h' : Hdd} {d : Drive} {media : Fin 2 → Option Image} (hs : Stored h.doseek h' d media) :
    Stored h h' d media := by
  have hstatus {b : Byte} (hb : seekComplete &&& b = 0#8) := status_doseek h hb
  obtain ⟨stat, hstat⟩ : ∃ stat, h.doseek = h.setStat stat := by
    rw [doseek_eq]
    exact ⟨_, rfl⟩
  have hplace := stepped_place (h := h) (g := h.doseek) d (by rw [hstat]; rfl)
  have hcmd : h.doseek.activecmd = h.activecmd := by rw [hstat]; rfl
  have hscount : h.doseek.taskfile.scount = h.taskfile.scount := by rw [hstat]; rfl
  refine ⟨hs.activecmd.trans hcmd, hs.media, hs.place.trans hplace, hs.scount.trans (by rw [hscount]), hs.sectindx,
    hs.sameErr.trans (hstatus (by decide)), fun hl => ?_, fun hm => ?_⟩
  · obtain ⟨hcip, hdrq, hws⟩ := hs.last (by rw [hscount]; exact hl)
    exact ⟨hcip, hdrq.trans (hstatus (by decide)), hws⟩
  · obtain ⟨hcip, hdrq, hbusy, hdrdy, hws⟩ := hs.more (by rw [hscount]; exact hm)
    exact ⟨hcip.trans (hstatus (by decide)), hdrq, hbusy.trans (hstatus (by decide)),
      hdrdy.trans (hstatus (by decide)), hws⟩

theorem wsectorWrite_eq (h : Hdd) : h.wsectorWrite =
    if h.doseek.status drdy then do
      match ← h.doseek.dosearchid with
      | none => return (h.doseek.setError (noid ||| abort)).wsectorFail
      | some offset =>
        match ← h.doseek.bcr.buffertodisk offset with
        | none => return (h.doseek.bcr.setError (noid ||| abort)).wsectorFail
        | some h => h.wsectorNext
    else .ok (h.doseek.setError (h.doseek.taskfile.error ||| abort)).wsectorFail := rfl

/-- A sector that is found is stored. -/
theorem wsectorWrite_stored {h : Hdd} {m m' : ℕ} {image : Image} (ha : t.At h m) (hf : t.found m = some m')
    (hm : h.media t.drive = some image) (hsize : image.totalSectors = t.image.totalSectors)
    (hwritable : image.writable) (hready : h.status drdy) :
    Ends h.wsectorWrite fun h' =>
      Stored h h' t.shape (Function.update h.media t.drive (some (image.write m' h.sectbuffer))) := by
  have hf' : (m < t.capacity ∧ m % 2 ^ 23 < t.image.totalSectors) ∧ m % 2 ^ 23 = m' := by
    rw [Disk.found] at hf
    split at hf
    · exact ⟨‹_›, Option.some.inj hf⟩
    · cases hf
  obtain ⟨g, hg⟩ : ∃ g, g = h.doseek := ⟨_, rfl⟩
  obtain ⟨stat, hstat⟩ : ∃ stat, g = h.setStat stat := by
    rw [hg, doseek_eq]
    exact ⟨_, rfl⟩
  have hga : t.At g m := ha.congr (by rw [hstat]; rfl)
  have hgmedia : g.media = h.media := by rw [hstat]; rfl
  have hgbuffer : g.sectbuffer = h.sectbuffer := by rw [hstat]; rfl
  have hsearch : g.dosearchid = .ok (some (.ofNat 32 (m * 512))) := by rw [hga.dosearchid, if_pos hf'.1.1]
  have htransfer : g.transfer t.drive (.ofNat 32 (m * 512)) = some (image, m') := by
    rw [Disk.At.transfer t (by rw [hgmedia, hm]) hsize, if_pos hf'.1.2, hf'.2]
  have hbuffer : g.bcr.buffertodisk (.ofNat 32 (m * 512)) = .ok (some { g.bcr with
      media := Function.update h.media t.drive (some (image.write m' h.sectbuffer)) }) := by
    rw [buffertodisk, show g.bcr.selected = .ok (t.drive, t.shape) from hga.selected]
    simp only [bind, Except.bind]
    rw [show g.bcr.transfer t.drive (.ofNat 32 (m * 512)) = some (image, m') from htransfer]
    dsimp only
    rw [if_pos hwritable, ← hgmedia, ← hgbuffer]
    rfl
  have hnext := wsectorNext_stored (h := { g.bcr with
    media := Function.update h.media t.drive (some (image.write m' h.sectbuffer)) }) (hga.congr rfl)
  have hplace := stepped_place (h := g) (g := { g.bcr with
    media := Function.update h.media t.drive (some (image.write m' h.sectbuffer)) }) t.shape rfl
  rw [wsectorWrite_eq, if_pos ((status_doseek h (by decide)).trans hready), ← hg, hsearch]
  simp only [bind, Except.bind]
  rw [hbuffer]
  refine hnext.mono fun h' hs => doseek_stored (hg ▸ ?_)
  exact ⟨hs.activecmd, hs.media, hs.place.trans hplace, hs.scount, hs.sectindx, hs.sameErr, hs.last, hs.more⟩

/-- A command that fails has touched nothing. -/
structure Failed (h h' : Hdd) : Prop where
  activecmd : h'.activecmd = h.activecmd
  media : h'.media = h.media
  ended : h'.status cip = false
  noData : h'.status drq = h.status drq
  failed : h'.status err = true
  ws : h'.statics.ws = .s10
  error : h'.taskfile.error = noid ||| abort

theorem wsectorFail_failed {h g : Hdd} (hcmd : g.activecmd = h.activecmd) (hmedia : g.media = h.media)
    (hdrq : g.status drq = h.status drq) (herror : g.taskfile.error = noid ||| abort) : Failed h g.wsectorFail := by
  have hstatus (b : Byte) : g.wsectorFail.status b = (((g.raise err).lower busy).lower cip).status b := by
    rw [wsectorFail, status_setWs, status_bcr, status_irqAssert]
  -- the fields are compared one by one, and not by the way of whole states
  refine ⟨?_, ?_, ?_, ?_, ?_, rfl, ?_⟩
  · rw [wsectorFail, irqAssert_eq]
    cases g
    exact hcmd
  · rw [wsectorFail, irqAssert_eq]
    cases g
    exact hmedia
  · rw [hstatus, status_lower_self]
  · rw [hstatus, status_lower _ (by decide), status_lower _ (by decide), status_raise,
      show has err drq = false by decide, Bool.or_false, hdrq]
  · rw [hstatus, status_lower _ (by decide), status_lower _ (by decide), status_raise,
      show has err err = true by decide, Bool.or_true]
  · rw [wsectorFail, irqAssert_eq]
    cases g
    exact herror

/-- A sector that is not found, or a medium that cannot be written. -/
theorem wsectorWrite_failed {h : Hdd} {image : Image} (hsel : h.pseldrv = some t.drive)
    (hm : h.media t.drive = some image) (hsize : image.totalSectors = t.image.totalSectors)
    (hbad : t.Stuck h ∨ image.writable = false) (hready : h.status drdy) : Ends h.wsectorWrite (Failed h) := by
  obtain ⟨g, hg⟩ : ∃ g, g = h.doseek := ⟨_, rfl⟩
  obtain ⟨stat, hstat⟩ : ∃ stat, g = h.setStat stat := by
    rw [hg, doseek_eq]
    exact ⟨_, rfl⟩
  have hdrq : g.status drq = h.status drq := hg ▸ status_doseek h (by decide)
  have hfail {g' : Hdd} (hg' : g'.activecmd = g.activecmd ∧ g'.media = g.media ∧ g'.status drq = g.status drq)
      (herror : g'.taskfile.error = noid ||| abort) : Failed h g'.wsectorFail := by
    refine wsectorFail_failed (hg'.1.trans ?_) (hg'.2.1.trans ?_) (hg'.2.2.trans hdrq) herror <;> rw [hstat]
    · rfl
    · rfl
  have hgsel : g.pseldrv.isSome := by
    rw [hstat]
    exact Option.isSome_iff_exists.mpr ⟨_, hsel⟩
  obtain ⟨r, hsearch, -⟩ := dosearchid_ends hgsel
  rw [wsectorWrite_eq, if_pos ((status_doseek h (by decide)).trans hready), ← hg, hsearch]
  cases r with
  | none => exact .ok (hfail ⟨rfl, rfl, rfl⟩ rfl)
  | some offset =>
    have hbuffer : g.bcr.buffertodisk offset = .ok none := by
      have hgm : g.media t.drive = some image := by
        rw [hstat]
        exact hm
      have hgs : g.bcr.selected = .ok (t.drive, g.drives t.drive) := by
        rw [selected, show g.bcr.pseldrv = some t.drive by rw [hstat]; exact hsel]
        rfl
      have hbcr : g.bcr.transfer t.drive offset = g.transfer t.drive offset := rfl
      rw [buffertodisk, hgs]
      simp only [bind, Except.bind]
      rw [hbcr]
      rcases hbad with hstuck | hreadonly
      · obtain ⟨-, hnone | ⟨m, hsome, hm'⟩⟩ := hstuck.congr (g := g) (by rw [hstat]; rfl)
        · rw [hnone] at hsearch
          cases hsearch
        · rw [hsome] at hsearch
          cases hsearch
          rw [Disk.At.transfer t hgm hsize, if_neg hm']
          rfl
      · cases htransfer : g.transfer t.drive offset with
        | none => rfl
        | some r =>
          have himage : r.1 = image := by
            simp only [transfer, hgm] at htransfer
            split at htransfer
            · cases htransfer
            · exact (congrArg Prod.fst (Option.some.inj htransfer)).symm
          dsimp only
          rw [himage, hreadonly, if_neg Bool.false_ne_true]
          rfl
    simp only [bind, Except.bind]
    rw [hbuffer]
    exact .ok (hfail ⟨rfl, rfl, rfl⟩ rfl)

/-! ## Filling the buffer -/

/-- A word is put into the buffer. -/
def poured (h : Hdd) (v : Word) : Hdd :=
  { h with sectbuffer := Function.update h.sectbuffer h.sectindx v, sectindx := h.sectindx + 1 }

theorem fdiskOutw_eq (h : Hdd) (v : Word) : h.fdiskOutw 0x1f0 v =
    if (poured h v).sectindx = 0 ∧ (poured h v).activecmd.isSome then (poured h v).callActive .brdy
    else .ok (poured h v) := rfl

namespace Fills

variable {h h' : Hdd} {words : List Word}

theorem congr (hf : Fills j k h words) (hcmd : h'.activecmd = h.activecmd) (htask : h'.taskfile = h.taskfile)
    (hws : h'.statics.ws = h.statics.ws) (hindex : h'.sectindx = h.sectindx)
    (hbuffer : h'.sectbuffer = h.sectbuffer) : Fills j k h' words := by
  have hstatus (b : Byte) : h'.status b = h.status b := by rw [status, htask, status]
  exact ⟨hcmd.trans hf.1, (hstatus _).trans hf.2, (hstatus _).trans hf.3, (hstatus _).trans hf.4,
    (hstatus _).trans hf.5, (hstatus _).trans hf.6, hws ▸ hf.7, hindex ▸ hf.8, hbuffer ▸ hf.9⟩

theorem hasData (hf : Fills j k h words) : h.hasData = true := by
  rw [Hdd.hasData, hf.hasDrq, hf.noError]
  rfl

/-- A poll finds the controller busy. -/
theorem poll (hf : Fills j k h words) (port : BitVec 16) :
    ∃ g, h.fdiskInb port = .ok g ∧ Fills j k g words ∧ g.media = h.media ∧ g.place = h.place ∧
      g.taskfile = h.taskfile := by
  rw [fdiskInb, if_pos hf.isBusy]
  refine ⟨_, rfl, ?_⟩
  split
  · rw [irqDeassert_eq]
    exact ⟨hf.congr rfl rfl rfl rfl rfl, rfl, rfl, rfl⟩
  · exact ⟨hf.congr rfl rfl rfl rfl rfl, rfl, rfl, rfl⟩

/-- A pause is not for it. -/
theorem pause (hf : Fills j k h words) (n : ℕ) :
    ({ h with pauses := n } : Hdd).callActive .continue = .ok { h with pauses := n } := by
  rw [callActive_run (h := { h with pauses := n }) hf.activecmd]
  rcases hf.ws with hws | hws <;> simp [run, wsector, hws]

/-- The buffer holds the words, the last one in its place. -/
theorem put (hf : Fills j k h words) (v : Word) :
    ∀ i < (words ++ [v]).length, 256 * k ≤ i + j →
      Function.update h.sectbuffer h.sectindx v (.ofNat 8 (i + j)) = (words ++ [v]).getD i 0 := by
  intro i hi hk
  have hlength := hf.length
  have hlt := h.sectindx.isLt
  rw [List.length_append, List.length_singleton] at hi
  rcases Nat.lt_or_eq_of_le (Nat.le_of_lt_succ hi) with hi' | rfl
  · have hne : BitVec.ofNat 8 (i + j) ≠ h.sectindx := by
      intro heq
      have hn := congrArg BitVec.toNat heq
      rw [BitVec.toNat_ofNat] at hn
      omega
    rw [Function.update_of_ne hne, hf.buffer i hi' hk, List.getD_append _ _ _ _ hi']
  · have heq : BitVec.ofNat 8 (words.length + j) = h.sectindx := by
      refine BitVec.eq_of_toNat_eq ?_
      rw [BitVec.toNat_ofNat]
      omega
    rw [heq, Function.update_self, List.getD_append_right _ _ _ _ (le_refl _), Nat.sub_self]
    rfl

/-- A word on the way. -/
theorem word (hf : Fills j k h words) (v : Word) (hmore : h.sectindx.toNat < 255) :
    ∃ g, h.fdiskOutw 0x1f0 v = .ok g ∧ Fills j k g (words ++ [v]) ∧ g.media = h.media ∧ g.place = h.place ∧
      g.taskfile = h.taskfile := by
  have hindex : (h.sectindx + 1).toNat = h.sectindx.toNat + 1 := by
    rw [BitVec.toNat_add]
    change (h.sectindx.toNat + 1) % 256 = _
    omega
  have hstep : h.fdiskOutw 0x1f0 v = .ok (poured h v) := by
    rw [fdiskOutw_eq]
    refine if_neg fun hc => ?_
    have hz := congrArg BitVec.toNat hc.1
    rw [show (poured h v).sectindx = h.sectindx + 1 from rfl, hindex] at hz
    exact absurd hz (Nat.succ_ne_zero _)
  refine ⟨_, hstep, ⟨hf.1, hf.2, hf.3, hf.4, hf.5, hf.6, hf.7, ?_, ?_⟩, rfl, rfl, rfl⟩
  · have := hf.length
    rw [List.length_append, List.length_singleton, show (poured h v).sectindx = h.sectindx + 1 from rfl, hindex]
    omega
  · exact hf.put v

end Fills

/-- The buffer is full, the last word being `v`. -/
structure Full (h g : Hdd) (v : Word) : Prop where
  activecmd : g.activecmd = some .wsector
  media : g.media = h.media
  place : g.place = h.place
  scount : g.taskfile.scount = h.taskfile.scount
  noDrq : g.status drq = false
  noError : g.status err = false
  isBusy : g.status busy = true
  inProgress : g.status cip = true
  ready : g.status drdy = true
  sectbuffer : g.sectbuffer = Function.update h.sectbuffer h.sectindx v

/-- The word that fills it calls the command. -/
theorem Fills.brim {h : Hdd} {words : List Word} (hf : Fills j k h words) (v : Word) (hlast : h.sectindx.toNat = 255) :
    ∃ g : Hdd, h.fdiskOutw 0x1f0 v = g.wsectorWrite ∧ Full h g v := by
  have hzero : h.sectindx + 1 = 0 := BitVec.eq_of_toNat_eq (by rw [BitVec.toNat_add, hlast]; rfl)
  have hcmd : (poured h v).activecmd = some .wsector := hf.activecmd
  have hws : (poured h v).statics.ws = .s1 ∨ (poured h v).statics.ws = .s4 := hf.ws
  have hstep : h.fdiskOutw 0x1f0 v = ((poured h v).lower drq).wsectorWrite := by
    rw [fdiskOutw_eq, if_pos ⟨hzero, by rw [hcmd]; rfl⟩, callActive_run hcmd]
    exact wsector_filled hws
  have hstatus {b : Byte} (hb : drq &&& b = 0#8) : ((poured h v).lower drq).status b = h.status b :=
    status_lower _ hb
  exact ⟨(poured h v).lower drq, hstep, hcmd, rfl, rfl, rfl, status_lower_self _ _,
    (hstatus (by decide)).trans hf.noError, (hstatus (by decide)).trans hf.isBusy,
    (hstatus (by decide)).trans hf.inProgress, (hstatus (by decide)).trans hf.ready, rfl⟩

/-! ## The image -/

namespace Image

variable {image : Image} {first : ℕ} {words : List Word}

theorem overwritten_zero : image.overwritten first 0 words = image := by
  have hnone (m : ℕ) : ¬(first ≤ m ∧ m < first + 0) := by omega
  simp only [overwritten, hnone, if_false]

/-- Words that are not used yet change nothing. -/
theorem overwritten_append (hlength : 256 * n ≤ words.length) (more : List Word) :
    image.overwritten first n (words ++ more) = image.overwritten first n words := by
  have hsame (m : ℕ) (hm : first ≤ m ∧ m < first + n) (i : BitVec 8) :
      (words ++ more).getD (256 * (m - first) + i.toNat) 0 = words.getD (256 * (m - first) + i.toNat) 0 := by
    have := i.isLt
    exact List.getD_append _ _ _ _ (by omega)
  unfold overwritten
  congr 1
  funext m
  split
  · rename_i hm
    exact funext (hsame m hm)
  · rfl

/-- One sector more. -/
theorem overwritten_succ {sector : Sector}
    (hsector : ∀ i : BitVec 8, sector i = words.getD (256 * n + i.toNat) 0) :
    (image.overwritten first n words).write (first + n) sector = image.overwritten first (n + 1) words := by
  unfold write overwritten
  congr 1
  funext m
  by_cases hm : m = first + n
  · subst hm
    rw [Function.update_self, if_pos (by omega), Nat.add_sub_cancel_left]
    exact funext hsector
  · rw [Function.update_of_ne hm]
    dsimp only
    by_cases hin : first ≤ m ∧ m < first + n
    · rw [if_pos hin, if_pos (by omega)]
    · rw [if_neg hin, if_neg (by omega)]

end Image

/-! ## The phases -/

/-- The media once `n` sectors have been replaced. -/
def Disk.mediaAfter (t : Disk) (h₀ : Hdd) (n : ℕ) (words : List Word) : Fin 2 → Option Image :=
  Function.update h₀.media t.drive (some (t.image.overwritten (t.first h₀) n words))

/-- The phases of a WRITE that gets `n` sectors far. -/
inductive Writing (t : Disk) (h₀ : Hdd) (n : ℕ) (h : Hdd) (words : List Word) : Prop
  /-- The buffer is being filled for sector `k`. -/
  | fill (k : ℕ) (hk : k ≤ n) (hcount : k < h₀.count) (hfills : Fills 0 k h words)
    (hmedia : h.media = t.mediaAfter h₀ k words) (hsel : h.pseldrv = some t.drive)
    (hline : t.image.writable → t.Line h₀ n h k) (hscount : h.taskfile.scount = .ofNat 8 (h₀.count - k))
  | done (hn : n = h₀.count) (hclosed : Closed false h) (hlength : words.length = 256 * n)
    (hmedia : h.media = t.mediaAfter h₀ n words)
  | failed (hn : n < h₀.count) (hclosed : Closed true h) (hlength : words.length = 256 * (n + 1))
    (hmedia : h.media = t.mediaAfter h₀ n words)

/-! ## Steps -/

/-- What is over stays over, whatever it is called for. -/
theorem Closed.call {e : Bool} {h : Hdd} (hc : Closed e h) {sig : Signal} (hsig : sig ≠ .start) :
    Ends (h.callActive sig) fun h' => Closed e h' ∧ h'.media = h.media := by
  rw [callActive_run hc.activecmd]
  cases e with
  | false =>
    have hrun : h.wsector sig = .ok h.wsectorDone := by
      rw [wsector, if_neg hsig, show h.statics.ws = .s11 from hc.ws]
    have hfields : ∃ statics interrupts, h.wsectorDone =
        { (h.lower busy).lower cip with statics, interrupts, sectindx := 0 } ∧ statics.ws = .s11 := by
      rw [wsectorDone, irqAssert_eq]
      exact ⟨_, _, rfl, rfl⟩
    obtain ⟨statics, interrupts, hdone, hws⟩ := hfields
    have hstatus {b : Byte} (hb : busy &&& b = 0#8) (hc : cip &&& b = 0#8) : h.wsectorDone.status b = h.status b := by
      rw [hdone]
      change ((h.lower busy).lower cip).status b = _
      rw [status_lower _ hc, status_lower _ hb]
    rw [run, hrun]
    refine .ok ⟨⟨?_, wsectorDone_over h, (hstatus (by decide) (by decide)).trans hc.noData,
      (hstatus (by decide) (by decide)).trans hc.failed, ?_, Bool.noConfusion⟩, ?_⟩ <;> rw [hdone]
    · exact hc.activecmd
    · exact hws
    · rfl
  | true =>
    have hrun : h.wsector sig = .ok h.wsectorFail := by
      rw [wsector, if_neg hsig, show h.statics.ws = .s10 from hc.ws]
    have hfail := wsectorFail_failed (h := h) (g := h) rfl rfl rfl (hc.error rfl)
    rw [run, hrun]
    exact .ok ⟨⟨hfail.activecmd.trans hc.activecmd, hfail.ended, hfail.noData.trans hc.noData, hfail.failed,
      hfail.ws, fun _ => hfail.error⟩, hfail.media⟩

theorem Closed.congr {e : Bool} {h h' : Hdd} (hc : Closed e h) (hcmd : h'.activecmd = h.activecmd)
    (htask : h'.taskfile = h.taskfile) (hws : h'.statics.ws = h.statics.ws) : Closed e h' := by
  have hstatus (b : Byte) : h'.status b = h.status b := by rw [status, htask, status]
  exact ⟨hcmd.trans hc.1, (hstatus _).trans hc.2, (hstatus _).trans hc.3, (hstatus _).trans hc.4, hws.trans hc.5,
    fun he => htask ▸ hc.6 he⟩

theorem Closed.poll {e : Bool} {h : Hdd} (hc : Closed e h) (port : BitVec 16) :
    Ends (h.fdiskInb port) fun h' => Closed e h' ∧ h'.media = h.media := by
  have hdeassert : Closed e h.irqDeassert ∧ h.irqDeassert.media = h.media := by
    rw [irqDeassert_eq]
    exact ⟨hc.congr rfl rfl rfl, rfl⟩
  have hsee {g : Hdd} (s : Seen) (hg : Closed e g ∧ g.media = h.media) :
      Closed e (g.see s) ∧ (g.see s).media = h.media := ⟨hg.1.congr rfl rfl rfl, hg.2⟩
  refine .ite (fun _ => .ok ?_) fun _ => ?_
  · split
    · exact hsee _ hdeassert
    · exact hsee _ ⟨hc, rfl⟩
  · cases readReg port with
    | none => exact .ok ⟨hc, rfl⟩
    | some r =>
      change Ends (h.wd2010Read r) _
      dsimp only [wd2010Read]
      split
      · rw [if_neg (by rw [hdeassert.1.ended]; decide)]
        exact .ok (hsee _ hdeassert)
      · rw [if_neg (by rw [hc.ended]; decide)]
        exact .ok (hsee _ ⟨hc, rfl⟩)

theorem Closed.pause {e : Bool} {h : Hdd} (hc : Closed e h) :
    EndsUnless (· = .outOfTurn) h.fdiskPause fun h' => Closed e h' ∧ h'.media = h.media := by
  unfold fdiskPause
  cases h.pauses with
  | zero => exact .error rfl
  | succ m => exact (Closed.call (h := { h with pauses := m }) (hc.congr rfl rfl rfl) (by decide)).unless

/-- Words that nobody waits for. -/
theorem Closed.word {e : Bool} {h : Hdd} (hc : Closed e h) (v : Word) :
    Ends (h.fdiskOutw 0x1f0 v) fun h' => Closed e h' ∧ h'.media = h.media := by
  have hpoured : Closed e (poured h v) := hc.congr rfl rfl rfl
  rw [fdiskOutw_eq]
  exact .ite (fun _ => hpoured.call (by decide)) fun _ => .ok ⟨hpoured, rfl⟩

theorem mediaAfter_append {words : List Word} (hlength : 256 * n ≤ words.length) (more : List Word) :
    t.mediaAfter h₀ n (words ++ more) = t.mediaAfter h₀ n words := by
  rw [Disk.mediaAfter, Image.overwritten_append hlength, Disk.mediaAfter]

/-- How far the WRITE gets: where the registers lead, or nowhere. -/
structure WritePlan (t : Disk) (h₀ : Hdd) (n : ℕ) : Prop where
  selected : t.Selected h₀
  plan : t.image.writable → t.Plan h₀ n
  readOnly : t.image.writable = false → n = 0

namespace Writing

variable {h h' : Hdd} {words : List Word}

/-- **A sector is full**: it is stored, or it is not there. -/
theorem full {v : Word} {g : Hdd} (hp : WritePlan t h₀ n) (hk : k ≤ n) (hcount : k < h₀.count)
    (hfills : Fills 0 k h words) (hmedia : h.media = t.mediaAfter h₀ k words) (hsel : h.pseldrv = some t.drive)
    (hline : t.image.writable → t.Line h₀ n h k) (hscount : h.taskfile.scount = .ofNat 8 (h₀.count - k))
    (hlast : h.sectindx.toNat = 255) (hg : Full h g v) :
    Ends g.wsectorWrite fun h' => Writing t h₀ n h' (words ++ [v]) := by
  have hlength := hfills.length
  have hlength' : (words ++ [v]).length = 256 * (k + 1) := by
    rw [List.length_append, List.length_singleton]
    omega
  have hgmedia : g.media = t.mediaAfter h₀ k (words ++ [v]) := by
    rw [hg.media, hmedia, mediaAfter_append (by omega)]
  have himage : g.media t.drive = some (t.image.overwritten (t.first h₀) k (words ++ [v])) := by
    rw [hgmedia, Disk.mediaAfter, Function.update_self]
  have hgsel : g.pseldrv = some t.drive := (congrArg Prod.fst hg.place).trans hsel
  rcases Nat.lt_or_eq_of_le hk with hlt | rfl
  · have hwritable : t.image.writable = true := by
      by_contra hro
      have := hp.readOnly (by simpa using hro)
      omega
    have hplan := hp.plan hwritable
    have hlimit := hplan.le_limit (by omega)
    have hat := (hline hwritable).1 hlt
    have hnext := hplan.next hat hlt
    have hfound := Disk.found_of_lt (t := t) (n := t.first h₀ + k) (by omega)
    have hsector (i : BitVec 8) : g.sectbuffer i = (words ++ [v]).getD (256 * k + i.toNat) 0 := by
      have hput := hfills.put v (256 * k + i.toNat) (by have := i.isLt; omega) (by omega)
      have hi : BitVec.ofNat 8 (256 * k + i.toNat + 0) = i := by
        refine BitVec.eq_of_toNat_eq ?_
        have := i.isLt
        rw [BitVec.toNat_ofNat]
        omega
      rw [hi] at hput
      rw [hg.sectbuffer, hput]
    have hstored : Function.update g.media t.drive (some (Image.write
        (t.image.overwritten (t.first h₀) k (words ++ [v])) (t.first h₀ + k) g.sectbuffer)) =
        t.mediaAfter h₀ (k + 1) (words ++ [v]) := by
      rw [Image.overwritten_succ hsector, hgmedia, Disk.mediaAfter, Function.update_idem]
      rfl
    refine (wsectorWrite_stored (hat.congr hg.place) hfound himage rfl hwritable hg.ready).mono fun h' hh' => ?_
    have hmedia' := hh'.media.trans hstored
    have hleft : h'.taskfile.scount = .ofNat 8 (h₀.count - (k + 1)) := by
      rw [hh'.scount, hg.scount, hscount, ofNat_sub_one (by omega)]
      congr 1
    have hcount_le := h₀.count_le
    have hzero : g.taskfile.scount - 1 = 0 ↔ k + 1 = h₀.count := by
      rw [← hh'.scount, hleft, ofNat_eq_zero (by omega)]
      omega
    by_cases hend : k + 1 = h₀.count
    · obtain ⟨hcip, hdrq, hws⟩ := hh'.last (hzero.mpr hend)
      have hn : n = k + 1 := by
        have := hplan.le_count
        omega
      refine .done (hn.trans hend) ⟨hh'.activecmd.trans hg.activecmd, hcip, hdrq.trans hg.noDrq,
        hh'.sameErr.trans hg.noError, hws, nofun⟩ (hn ▸ hlength') (hn ▸ hmedia')
    · obtain ⟨hcip, hdrq, hbusy, hdrdy, hws⟩ := hh'.more fun hc => hend (hzero.mp hc)
      have hplace' := hh'.place.trans (stepped_place t.shape hg.place)
      refine .fill (k + 1) hlt (by have := hplan.le_count; omega) ⟨hh'.activecmd.trans hg.activecmd, hdrq,
        hh'.sameErr.trans hg.noError, hbusy.trans hg.isBusy, hcip.trans hg.inProgress, hdrdy.trans hg.ready,
        .inr hws, ?_, fun i hi hk' => by omega⟩ hmedia' ?_ (fun _ => hnext.congr hplace') hleft
      · rw [hh'.sectindx]
        exact hlength'
      · refine (congrArg Prod.fst hplace').trans ?_
        obtain ⟨tf, fixeddiskreg, htf, -⟩ := h.stepped_keeps t.shape
        rw [htf]
        exact hsel
  · have hbad : t.Stuck g ∨ (t.image.overwritten (t.first h₀) k (words ++ [v])).writable = false := by
      cases hw : t.image.writable with
      | false => exact .inr hw
      | true => exact .inl (((hline hw).2 rfl hcount).congr hg.place)
    refine (wsectorWrite_failed hgsel himage rfl hbad hg.ready).mono fun h' hh' => ?_
    exact .failed hcount ⟨hh'.activecmd.trans hg.activecmd, hh'.ended, hh'.noData.trans hg.noDrq, hh'.failed, hh'.ws,
      fun _ => hh'.error⟩ hlength' (hh'.media.trans hgmedia)

/-- A phase that says the same of another state. -/
theorem closed {e : Bool} (hw : Writing t h₀ n h words) (hc : Closed e h) (hc' : Closed e h')
    (hmedia' : h'.media = h.media) : Writing t h₀ n h' words := by
  cases hw with
  | fill k _ _ hfills => exact absurd (hfills.inProgress.symm.trans hc.ended) (by decide)
  | done hn hclosed hlength hmedia =>
    obtain rfl : e = false := hc.failed.symm.trans hclosed.failed
    exact .done hn hc' hlength (hmedia'.trans hmedia)
  | failed hn hclosed hlength hmedia =>
    obtain rfl : e = true := hc.failed.symm.trans hclosed.failed
    exact .failed hn hc' hlength (hmedia'.trans hmedia)

/-- It is being filled, or over. -/
theorem filling_or_closed (hw : Writing t h₀ n h words) : (∃ k, Fills 0 k h words) ∨ ∃ e, Closed e h := by
  cases hw with
  | fill k _ _ hfills => exact .inl ⟨k, hfills⟩
  | done _ hclosed => exact .inr ⟨_, hclosed⟩
  | failed _ hclosed => exact .inr ⟨_, hclosed⟩

/-- **A word is written.** -/
theorem word (hp : WritePlan t h₀ n) (hw : Writing t h₀ n h words) (v : Word) :
    Ends (h.fdiskOutw 0x1f0 v) fun h' => Writing t h₀ n h' (if h.hasData then words ++ [v] else words) := by
  have hover {e : Bool} (hc : Closed e h) :
      Ends (h.fdiskOutw 0x1f0 v) fun h' => Writing t h₀ n h' (if h.hasData then words ++ [v] else words) := by
    have hnone : h.hasData = false := by rw [Hdd.hasData, hc.noData]; rfl
    rw [hnone, if_neg Bool.false_ne_true]
    exact (hc.word v).mono fun h' hh' => hw.closed hc hh'.1 hh'.2
  cases hw with
  | fill k hk hcount hfills hmedia hsel hline hscount =>
    rw [hfills.hasData, if_pos rfl]
    by_cases hmore : h.sectindx.toNat < 255
    · obtain ⟨g, hstep, hfills', hgmedia, hplace, htask⟩ := hfills.word v hmore
      have hlength := hfills.length
      rw [hstep]
      refine .ok (.fill k hk hcount hfills' (hgmedia.trans ?_) ((congrArg Prod.fst hplace).trans hsel)
        (fun hwr => (hline hwr).congr hplace) (htask ▸ hscount))
      rw [hmedia, mediaAfter_append (by omega)]
    · have hlast : h.sectindx.toNat = 255 := by
        have := h.sectindx.isLt
        omega
      obtain ⟨g, hstep, hg⟩ := hfills.brim v hlast
      rw [hstep]
      exact full hp hk hcount hfills hmedia hsel hline hscount hlast hg
  | done _ hclosed => exact hover hclosed
  | failed _ hclosed => exact hover hclosed

theorem poll (hw : Writing t h₀ n h words) (port : BitVec 16) :
    Ends (h.fdiskInb port) fun h' => Writing t h₀ n h' words := by
  have hover {e : Bool} (hc : Closed e h) : Ends (h.fdiskInb port) fun h' => Writing t h₀ n h' words :=
    (hc.poll port).mono fun h' hh' => hw.closed hc hh'.1 hh'.2
  cases hw with
  | fill k hk hcount hfills hmedia hsel hline hscount =>
    obtain ⟨g, hstep, hfills', hgmedia, hplace, htask⟩ := hfills.poll port
    rw [hstep]
    exact .ok (.fill k hk hcount hfills' (hgmedia.trans hmedia) ((congrArg Prod.fst hplace).trans hsel)
      (fun hwr => (hline hwr).congr hplace) (htask ▸ hscount))
  | done _ hclosed => exact hover hclosed
  | failed _ hclosed => exact hover hclosed

theorem pause (hw : Writing t h₀ n h words) :
    EndsUnless (· = .outOfTurn) h.fdiskPause fun h' => Writing t h₀ n h' words := by
  have hover {e : Bool} (hc : Closed e h) :
      EndsUnless (· = .outOfTurn) h.fdiskPause fun h' => Writing t h₀ n h' words :=
    hc.pause.mono fun h' hh' => hw.closed hc hh'.1 hh'.2
  cases hw with
  | fill k hk hcount hfills hmedia hsel hline hscount =>
    unfold fdiskPause
    cases h.pauses with
    | zero => exact .error rfl
    | succ m =>
      dsimp only
      rw [hfills.pause m]
      exact .ok (.fill k hk hcount (hfills.congr rfl rfl rfl rfl rfl) hmedia hsel (fun hwr => (hline hwr).congr rfl)
        hscount)
  | done _ hclosed => exact hover hclosed
  | failed _ hclosed => exact hover hclosed

theorem interrupt (hw : Writing t h₀ n h words) :
    EndsUnless (· = .outOfTurn) h.diskIntCallBack fun h' => Writing t h₀ n h' words := by
  have hover {e : Bool} (hc : Closed e h) :
      EndsUnless (· = .outOfTurn) h.diskIntCallBack fun h' => Writing t h₀ n h' words := by
    unfold diskIntCallBack
    cases h.interrupts with
    | zero => exact .error rfl
    | succ m => exact .ok (hw.closed hc (hc.congr rfl rfl rfl) rfl)
  cases hw with
  | fill k hk hcount hfills hmedia hsel hline hscount =>
    unfold diskIntCallBack
    cases h.interrupts with
    | zero => exact .error rfl
    | succ m =>
      exact .ok (.fill k hk hcount (hfills.congr rfl rfl rfl rfl rfl) hmedia hsel (fun hwr => (hline hwr).congr rfl)
        hscount)
  | done _ hclosed => exact hover hclosed
  | failed _ hclosed => exact hover hclosed

end Writing

/-! ## Runs -/

/-- **One step** of a WRITE. -/
theorem step_writing {g : Guest} {op : Hdd.Op} (hp : WritePlan t h₀ n) (hop : op.writes)
    (hw : Writing t h₀ n g.hdd g.words) :
    EndsUnless (· = .outOfTurn) (g.step op) fun g' => Writing t h₀ n g'.hdd g'.words := by
  have hquiet (hword : op.word g.hdd = none)
      (hw' : EndsUnless (· = .outOfTurn) (g.hdd.step op) fun h' => Writing t h₀ n h' g.words) :
      EndsUnless (· = .outOfTurn) (g.step op) fun g' => Writing t h₀ n g'.hdd g'.words :=
    hw'.bind fun h' hh' => .ok (by rw [hword, Option.toList_none, List.append_nil, ite_self]; exact hh')
  cases op with
  | inb port => exact hquiet rfl (hw.poll port).unless
  | pause => exact hquiet rfl hw.pause
  | interrupt => exact hquiet rfl hw.interrupt
  | outw port v =>
    obtain rfl : port = 0x1f0 := of_decide_eq_true hop
    exact ((hw.word hp v).bind fun h' hh' => .ok hh').unless
  | outb | inw | reset => cases hop

/-- A WRITE starts with its buffer to be filled, from where the data port is. -/
theorem start_fills {v : Byte} (hs : t.Selected h₀) (hv : decode v = .wsector) :
    ∃ h : Hdd, h₀.step (.outb 0x1f7 v) = .ok h ∧ Fills h₀.sectindx.toNat 0 h [] ∧ h.media = h₀.media ∧
      h.place = h₀.place ∧ h.taskfile.scount = h₀.taskfile.scount := by
  obtain ⟨g, hstep, hg, hbusy⟩ := h₀.command_started v
  rw [hv] at hstep hg
  have hstatus {b : Byte} (hb : has drq b = false) : (g.raise drq).status b = g.status b := by
    rw [status_raise, hb, Bool.or_false]
  refine ⟨(g.raise drq).setWs .s1, hstep, ⟨hg.activecmd, ?_, (hstatus (by decide)).trans hg.noError,
    (hstatus (by decide)).trans hbusy, (hstatus (by decide)).trans hg.inProgress,
    (hstatus (by decide)).trans (hg.ready.trans hs.ready), .inl rfl, ?_, nofun⟩, hg.media, hg.place, hg.scount⟩
  · change (g.raise drq).status drq = true
    rw [status_raise, show has drq drq = true by decide, Bool.or_true]
  · change 0 + h₀.sectindx.toNat = 256 * 0 + g.sectindx.toNat
    rw [hg.sectindx]

theorem start_writing {v : Byte} (hp : WritePlan t h₀ n) (hv : decode v = .wsector) (hindex : h₀.sectindx = 0) :
    Ends (h₀.step (.outb 0x1f7 v)) fun h => Writing t h₀ n h [] := by
  obtain ⟨h, hstep, hfills, hmedia, hplace, hscount⟩ := start_fills (v := v) hp.selected hv
  rw [hindex] at hfills
  rw [hstep]
  refine .ok (.fill 0 (Nat.zero_le _) h₀.count_pos hfills ?_ ((congrArg Prod.fst hplace).trans hp.selected.pseldrv)
    (fun hw => (hp.plan hw).start.congr hplace) (hscount.trans h₀.scount_eq))
  rw [hmedia, Disk.mediaAfter, Image.overwritten_zero, ← hp.selected.media, Function.update_eq_self]

theorem run_writing {v : Byte} {ops : List Hdd.Op} (hp : WritePlan t h₀ n) (hv : decode v = .wsector)
    (hindex : h₀.sectindx = 0) (hops : ∀ op ∈ ops, op.writes) :
    EndsUnless (· = .outOfTurn) (h₀.exchange v ops) fun g => Writing t h₀ n g.hdd g.words :=
  (start_writing hp hv hindex).unless.bind fun _ hh =>
    endsUnless_foldlM (C := fun op : Hdd.Op => op.writes) (I := fun g : Guest => Writing t h₀ n g.hdd g.words)
      (fun _ _ hw hop => step_writing hp hop hw) hops hh

namespace Writing

variable {h : Hdd} {words : List Word}

/-- A WRITE that gets as far as it should is right. -/
theorem right (hw : Writing t h₀ (t.writeExtent h₀) h words) : WriteRight t h₀ ⟨h, words⟩ := by
  cases hw with
  | fill k hk hcount hfills hmedia =>
    have hlength : words.length + 0 = 256 * k + h.sectindx.toNat := hfills.length
    have hlt := h.sectindx.isLt
    have hmin : min (words.length / 256) (t.writeExtent h₀) = k := by omega
    refine ⟨?_, fun hc => absurd hfills.inProgress hc, fun he => absurd (he.symm.trans hfills.noError) (by decide),
      fun _ => ⟨hfills.hasData, ?_⟩⟩
    · change h.media = t.mediaAfter h₀ (min (words.length / 256) (t.writeExtent h₀)) words
      rw [hmin]
      exact hmedia
    · change words.length < _
      omega
  | done hn hclosed hlength hmedia =>
    have hmin : min (words.length / 256) (t.writeExtent h₀) = t.writeExtent h₀ := by omega
    refine ⟨?_, fun _ _ => ⟨hn, hn ▸ hlength⟩, fun he => absurd (he.symm.trans hclosed.failed) (by decide),
      fun hc => absurd (hc.symm.trans hclosed.ended) (by decide)⟩
    change h.media = t.mediaAfter h₀ (min (words.length / 256) (t.writeExtent h₀)) words
    rw [hmin]
    exact hmedia
  | failed hn hclosed hlength hmedia =>
    have hmin : min (words.length / 256) (t.writeExtent h₀) = t.writeExtent h₀ := by omega
    refine ⟨?_, fun _ he => absurd hclosed.failed he, fun _ => ⟨hn, hlength, hclosed.error rfl⟩,
      fun hc => absurd (hc.symm.trans hclosed.ended) (by decide)⟩
    change h.media = t.mediaAfter h₀ (min (words.length / 256) (t.writeExtent h₀)) words
    rw [hmin]
    exact hmedia

/-- While it is not over, a word brings it on. -/
theorem goes_on (hp : WritePlan t h₀ n) {g : Guest} (hw : Writing t h₀ n g.hdd g.words) :
    g.Over ∨ ∃ op : Hdd.Op, op.writes ∧ Ends (g.step op) fun g' =>
      Writing t h₀ n g'.hdd g'.words ∧ 256 * h₀.count - g'.words.length < 256 * h₀.count - g.words.length := by
  rcases hw.filling_or_closed with ⟨k, hfills⟩ | ⟨e, hclosed⟩
  · refine .inr ⟨.outw 0x1f0 0, rfl, (hw.word hp 0).bind fun h' hh' => .ok ?_⟩
    rw [hfills.hasData] at hh'
    change Writing t h₀ n h' (if g.hdd.hasData = true then g.words ++ [0] else g.words) ∧
      _ - (if g.hdd.hasData = true then g.words ++ [0] else g.words).length < _
    rw [hfills.hasData]
    refine ⟨hh', ?_⟩
    rw [if_pos rfl, List.length_append, List.length_singleton]
    cases hw with
    | fill k' _ hcount hfills' =>
      have hlength := hfills'.length
      have := g.hdd.sectindx.isLt
      omega
    | done _ hclosed => exact absurd (hfills.inProgress.symm.trans hclosed.ended) (by decide)
    | failed _ hclosed => exact absurd (hfills.inProgress.symm.trans hclosed.ended) (by decide)
  · exact .inl (.inl (by rw [hclosed.ended]; decide))

/-- **A WRITE ends**, if the guest goes on writing words. -/
theorem ends (hp : WritePlan t h₀ n) {g : Guest} (hw : Writing t h₀ n g.hdd g.words) :
    ∃ ops : List Hdd.Op, (∀ op ∈ ops, op.writes) ∧
      Ends (ops.foldlM Guest.step g) fun g' => Writing t h₀ n g'.hdd g'.words ∧ g'.Over := by
  induction hleft : 256 * h₀.count - g.words.length using Nat.strong_induction_on generalizing g with
  | _ m ih =>
    rcases hw.goes_on hp with hover | ⟨op, hop, hstep⟩
    · exact ⟨[], nofun, .ok ⟨hw, hover⟩⟩
    · obtain ⟨g', hg', hw', hlt⟩ := hstep
      obtain ⟨ops, hops, hends⟩ := ih _ (hleft ▸ hlt) hw' rfl
      refine ⟨op :: ops, List.forall_mem_cons.mpr ⟨hop, hops⟩, ?_⟩
      rw [List.foldlM_cons, hg']
      exact hends

end Writing

/-! ## The claim -/

/-- Every WRITE that the guest goes on with, and its end. -/
def WritesExactly (t : Disk) (h₀ : Hdd) (v : Byte) : Prop :=
  ∀ ops : List Hdd.Op, (∀ op ∈ ops, op.writes) →
    EndsUnless (· = .outOfTurn) (h₀.exchange v ops) fun g => WriteRight t h₀ g ∧
      ∃ more : List Hdd.Op, (∀ op ∈ more, op.writes) ∧ Ends (more.foldlM Guest.step g) Guest.Over

theorem writePlan_extent (hs : t.Selected h₀) (hf : t.image.writable → t.Finds h₀) :
    WritePlan t h₀ (t.writeExtent h₀) := by
  refine ⟨hs, fun hw => ?_, fun hw => ?_⟩
  · rw [Disk.writeExtent, if_pos hw]
    exact hs.plan_extent (hf hw)
  · rw [Disk.writeExtent, hw, if_neg Bool.false_ne_true]

/-- It is right where the data port is at its start, and the code finds its way. -/
theorem writes_of_finds {v : Byte} (hs : t.Selected h₀) (hindex : h₀.sectindx = 0)
    (hf : t.image.writable → t.Finds h₀) (hv : decode v = .wsector) : WritesExactly t h₀ v := by
  intro ops hops
  have hp := writePlan_extent hs hf
  refine (run_writing hp hv hindex hops).mono fun g hw => ⟨hw.right, ?_⟩
  obtain ⟨more, hmore, hends⟩ := hw.ends hp
  exact ⟨more, hmore, hends.mono fun _ hg => hg.2⟩

/-- The words up to the last one. -/
theorem Fills.pour {h : Hdd} {words : List Word} (hf : Fills j k h words) (ws : List Word)
    (hroom : h.sectindx.toNat + ws.length ≤ 255) :
    ∃ g : Hdd, (ws.map (Op.outw 0x1f0)).foldlM Guest.step ⟨h, words⟩ = .ok ⟨g, words ++ ws⟩ ∧
      Fills j k g (words ++ ws) ∧ g.media = h.media ∧ g.place = h.place ∧ g.taskfile = h.taskfile := by
  induction ws generalizing h words with
  | nil => exact ⟨h, by rw [List.append_nil]; rfl, by rw [List.append_nil]; exact hf, rfl, rfl, rfl⟩
  | cons v ws ih =>
    rw [List.length_cons] at hroom
    obtain ⟨g, hstep, hfills, hmedia, hplace, htask⟩ := hf.word v (by omega)
    have hindex : g.sectindx.toNat = h.sectindx.toNat + 1 := by
      have := hf.length
      have := hfills.length
      rw [List.length_append, List.length_singleton] at this
      omega
    obtain ⟨g', hrun, hfills', hmedia', hplace', htask'⟩ := ih hfills (by omega)
    refine ⟨g', ?_, ?_, hmedia'.trans hmedia, hplace'.trans hplace, htask'.trans htask⟩
    · have hguest : Guest.step ⟨h, words⟩ (.outw 0x1f0 v) = .ok ⟨g, words ++ [v]⟩ := by
        change (do
          let h' ← h.fdiskOutw 0x1f0 v
          return (⟨h', if h.hasData then words ++ [v] else words⟩ : Guest)) = _
        rw [hstep, hf.hasData]
        rfl
      rw [List.map_cons, List.foldlM_cons, hguest]
      change List.foldlM Guest.step ⟨g, words ++ [v]⟩ _ = _
      rw [hrun, List.append_assoc]
      rfl
    · rw [← List.singleton_append, ← List.append_assoc]
      exact hfills'

/-- The words up to the last one, and that. -/
theorem exchange_full {v : Byte} (hs : t.Selected h₀) (hv : decode v = .wsector) (ws : List Word) (w : Word)
    (hlength : h₀.sectindx.toNat + ws.length = 255) :
    ∃ h g : Hdd, h₀.exchange v (ws.map (Op.outw 0x1f0) ++ [.outw 0x1f0 w]) =
        (do let h' ← g.wsectorWrite; return ⟨h', ws ++ [w]⟩) ∧
      Fills h₀.sectindx.toNat 0 h ws ∧ Full h g w ∧ g.media = h₀.media ∧ g.place = h₀.place := by
  obtain ⟨h, hstep, hfills, hmedia, hplace, -⟩ := start_fills (v := v) hs hv
  have hindex : h.sectindx.toNat = h₀.sectindx.toNat := by
    have := hfills.length
    rw [List.length_nil] at this
    omega
  obtain ⟨h', hrun, hfills', hmedia', hplace', -⟩ := hfills.pour ws (by omega)
  have hlast : h'.sectindx.toNat = 255 := by
    have := hfills'.length
    rw [List.nil_append] at this
    omega
  rw [List.nil_append] at hrun hfills'
  obtain ⟨g, hbrim, hg⟩ := hfills'.brim w hlast
  refine ⟨h', g, ?_, hfills', hg, hg.media.trans (hmedia'.trans hmedia), hg.place.trans (hplace'.trans hplace)⟩
  have hguest : Guest.step ⟨h', ws⟩ (.outw 0x1f0 w) = (do let h'' ← g.wsectorWrite; return ⟨h'', ws ++ [w]⟩) := by
    change (do
      let h'' ← h'.fdiskOutw 0x1f0 w
      return (⟨h'', if h'.hasData then ws ++ [w] else ws⟩ : Guest)) = _
    rw [hbrim, hfills'.hasData]
    rfl
  rw [exchange, hstep]
  change List.foldlM Guest.step ⟨h, []⟩ _ = _
  rw [List.foldlM_append, hrun]
  change List.foldlM Guest.step ⟨h', ws⟩ [.outw 0x1f0 w] = _
  rw [List.foldlM_cons, hguest]
  cases g.wsectorWrite <;> rfl

theorem writes_map (ws : List Word) (w : Word) :
    ∀ op ∈ ws.map (Op.outw 0x1f0) ++ [.outw 0x1f0 w], op.writes := by
  intro op hop
  rw [List.mem_append, List.mem_singleton, List.mem_map] at hop
  rcases hop with ⟨v, -, rfl⟩ | rfl <;> rfl

/-- A sector of a disk that is stored from its first buffer. -/
theorem stored_first {g : Hdd} {m : ℕ} (hs : t.Selected h₀) (hn : t.Named h₀) (hmedia : g.media = h₀.media)
    (hplace : g.place = h₀.place) (hready : g.status drdy = true) (hwritable : t.image.writable = true)
    (hfound : t.found (t.first h₀) = some m) :
    Ends g.wsectorWrite fun h' =>
      Stored g h' t.shape (Function.update g.media t.drive (some (t.image.write m g.sectbuffer))) :=
  wsectorWrite_stored ((hs.at hn).congr hplace) hfound (by rw [hmedia, hs.media]) rfl hwritable hready

/-- …or not. -/
theorem failed_first {g : Hdd} (hs : t.Selected h₀) (hmedia : g.media = h₀.media) (hplace : g.place = h₀.place)
    (hready : g.status drdy = true)
    (hbad : t.image.writable = false ∨ ¬t.Named h₀ ∨ t.found (t.first h₀) = none) : Ends g.wsectorWrite (Failed g) := by
  refine wsectorWrite_failed ((congrArg Prod.fst hplace).trans hs.pseldrv) (by rw [hmedia, hs.media]) rfl ?_ hready
  by_cases hn : t.Named h₀
  · rcases hbad with hro | hnn | hf
    · exact .inr hro
    · exact absurd hn hnn
    · exact .inl (((hs.at hn).stuck hf).congr hplace)
  · exact .inl ((hs.stuck hn).congr hplace)

/-- A data port that is not at its start leaves words of another sector in the buffer. -/
theorem sectindx_of_writes {v : Byte} (hs : t.Selected h₀) (hv : decode v = .wsector)
    (hw : WritesExactly t h₀ v) : h₀.sectindx = 0 := by
  by_contra hindex
  have hpos : 0 < h₀.sectindx.toNat := Nat.pos_of_ne_zero fun hz => hindex (BitVec.eq_of_toNat_eq hz)
  have hlt := h₀.sectindx.isLt
  obtain ⟨m, hm⟩ : ∃ m, m = (t.found (t.first h₀)).getD 0 := ⟨_, rfl⟩
  -- Words that differ from those of the sector.
  obtain ⟨w, hw'⟩ : ∃ w : Word, w = t.image.sectors m h₀.sectindx + 1 := ⟨_, rfl⟩
  obtain ⟨h, g, hrun, hfills, hg, hmedia, hplace⟩ :=
    exchange_full (v := v) hs hv (List.replicate (255 - h₀.sectindx.toNat) w) w (by rw [List.length_replicate]; omega)
  have hright {h' : Hdd} (hh' : g.wsectorWrite = .ok h') :=
    ((hw _ (writes_map _ w)).of_eq (by rw [hrun, hh']; rfl)).1
  have hlength : (List.replicate (255 - h₀.sectindx.toNat) w ++ [w]).length < 256 := by
    rw [List.length_append, List.length_replicate, List.length_singleton]
    omega
  by_cases hbad : t.image.writable = false ∨ ¬t.Named h₀ ∨ t.found (t.first h₀) = none
  · obtain ⟨h', hh', hfailed⟩ := failed_first hs hmedia hplace hg.ready hbad
    have hlong := ((hright hh').failed hfailed.failed).2.1
    change (List.replicate (255 - h₀.sectindx.toNat) w ++ [w]).length = _ at hlong
    omega
  · simp only [not_or, not_not, Bool.not_eq_false] at hbad
    obtain ⟨hwritable, hn, hf⟩ := hbad
    have hfound : t.found (t.first h₀) = some m := by
      obtain ⟨m', hm'⟩ := Option.ne_none_iff_exists'.mp hf
      rw [hm, hm']
      rfl
    obtain ⟨h', hh', hstored⟩ := stored_first hs hn hmedia hplace hg.ready hwritable hfound
    have hkept := (hright hh').media
    change h'.media = t.mediaAfter h₀ (min ((List.replicate (255 - h₀.sectindx.toNat) w ++ [w]).length / 256)
      (t.writeExtent h₀)) _ at hkept
    rw [Nat.div_eq_of_lt hlength, Nat.zero_min, Disk.mediaAfter, Image.overwritten_zero, hstored.media] at hkept
    have himage := congrFun hkept t.drive
    rw [Function.update_self, Function.update_self] at himage
    have hsector := congrFun (congrArg Image.sectors (Option.some.inj himage)) m
    change Function.update t.image.sectors m g.sectbuffer m = _ at hsector
    rw [Function.update_self, hg.sectbuffer] at hsector
    have hput := hfills.put w 0 (by rw [List.length_append, List.length_singleton]; omega) (by omega)
    rw [Nat.zero_add, BitVec.ofNat_toNat, BitVec.setWidth_eq, hsector, ← List.replicate_succ'] at hput
    change t.image.sectors m h₀.sectindx = w at hput
    rw [hw'] at hput
    bv_omega

/-- A sector past the image, taken for one within it, is replaced. -/
theorem finds_of_writes_first {v : Byte} (hs : t.Selected h₀) (hn : t.Named h₀) (hv : decode v = .wsector)
    (hw : WritesExactly t h₀ v) (hindex : h₀.sectindx = 0) (hwritable : t.image.writable = true)
    (hpast : t.limit ≤ t.first h₀) (hcapacity : t.first h₀ < t.capacity) :
    t.image.totalSectors ≤ t.first h₀ % 2 ^ 23 := by
  by_contra hwithin
  have hextent : t.writeExtent h₀ = 0 := by
    rw [Disk.writeExtent, if_pos hwritable, Disk.extent, if_pos hn]
    omega
  have hfound : t.found (t.first h₀) = some (t.first h₀ % 2 ^ 23) := if_pos ⟨hcapacity, by omega⟩
  obtain ⟨h, g, hrun, -, hg, hmedia, hplace⟩ := exchange_full (v := v) hs hv (List.replicate 255 0) 0 (by
    rw [hindex, List.length_replicate]
    rfl)
  obtain ⟨h', hh', hstored⟩ := stored_first hs hn hmedia hplace hg.ready hwritable hfound
  have hright := ((hw _ (writes_map _ 0)).of_eq (x := ⟨h', _⟩) (by rw [hrun, hh']; rfl)).1
  have herr : ¬h'.status err := by
    rw [hstored.sameErr, hg.noError]
    decide
  by_cases hlast : g.taskfile.scount - 1 = 0
  · have hended := (hright.ended (by change ¬h'.status cip; rw [(hstored.last hlast).1]; decide) herr).1
    have := h₀.count_pos
    omega
  · have hmore := (hright.goesOn ((hstored.more hlast).1.trans hg.inProgress)).2
    rw [hextent] at hmore
    change (List.replicate 255 (0 : Word) ++ [0]).length < _ at hmore
    rw [List.length_append, List.length_replicate, List.length_singleton] at hmore
    omega

/-- A track of 255 sectors is not left. -/
theorem finds_of_writes_track {v : Byte} (hs : t.Selected h₀) (hn : t.Named h₀) (hv : decode v = .wsector)
    (hw : WritesExactly t h₀ v) (hindex : h₀.sectindx = 0) (hwritable : t.image.writable = true)
    (h255 : t.sectors = 255) : h₀.taskfile.snum.toNat + t.extent h₀ ≤ 256 := by
  by_contra hlong
  have hextent : t.writeExtent h₀ = t.extent h₀ := if_pos hwritable
  have hcount : t.extent h₀ ≤ h₀.count := by
    rw [Disk.extent, if_pos hn]
    exact Nat.min_le_left _ _
  have hp : WritePlan t h₀ (256 - h₀.taskfile.snum.toNat) :=
    ⟨hs, fun _ => hs.plan_track hn h255 (by omega), fun hro => absurd (hwritable.symm.trans hro) (by decide)⟩
  obtain ⟨h, hstart, hwriting⟩ := start_writing (v := v) hp hv hindex
  obtain ⟨ops, hops, g, hg, hwriting', hover⟩ := hwriting.ends (g := { hdd := h }) hp
  have hright := ((hw ops hops).of_eq (x := g) (by rw [exchange, hstart]; exact hg)).1
  cases hwriting' with
  | fill k _ _ hfills =>
    rcases hover with hover | hover
    · exact hover hfills.inProgress
    · exact absurd (hover.symm.trans hfills.noError) (by decide)
  | done hn _ _ => omega
  | failed _ hclosed hlength =>
    have := (hright.failed hclosed.failed).2.1
    omega

/-- **READ and WRITE touch exactly the sectors addressed**, on any image and geometry, from any position
and for any count, however polls, words, pauses and interrupts come, if and only if the code finds its way,
and for a WRITE the data port is at its start: no sector past the image is taken for one within it, and no
track of 255 sectors is left. -/
theorem transfers_exact {t : Disk} {h : Hdd} {read write : Byte} (hs : t.Selected h)
    (hread : decode read = .rsector) (hwrite : decode write = .wsector) :
    (ReadsExactly t h read ↔ t.Finds h) ∧
    (WritesExactly t h write ↔ h.sectindx = 0 ∧ (t.image.writable → t.Finds h)) := by
  constructor
  · refine ⟨fun hr hn => ⟨?_, ?_⟩, fun hf => reads_of_finds hs hf hread⟩
    · exact finds_of_reads_first hs hn hread hr
    · exact finds_of_reads_track hs hn hread hr
  · refine ⟨fun hw => ?_, fun hf => writes_of_finds hs hf.1 hf.2 hwrite⟩
    have hindex := sectindx_of_writes hs hwrite hw
    refine ⟨hindex, fun hwritable hn => ⟨?_, ?_⟩⟩
    · exact finds_of_writes_first hs hn hwrite hw hindex hwritable
    · exact finds_of_writes_track hs hn hwrite hw hindex hwritable

/-- A controller with one disk, selected and ready, and a position in its registers. -/
def Disk.aimed (t : Disk) (scount snum cyllo cylhi drvhd : Byte) : Hdd where
  drives i := if i = t.drive then t.shape else Drive.attach none
  media i := if i = t.drive then some t.image else none
  pseldrv := some t.drive
  taskfile := { scount, snum, cyllo, cylhi, drvhd, stat := drdy }

theorem Disk.aimed_selected (t : Disk) (scount snum cyllo cylhi drvhd : Byte) :
    t.Selected (t.aimed scount snum cyllo cylhi drvhd) := ⟨rfl, if_pos rfl, by change has drdy drdy = true; decide, if_pos rfl⟩

/-- A disk of a cylinder, as it is attached. -/
def smallDisk : Disk where
  drive := 0
  image := Image.ofSize 1008
  maxhead := 15
  sectors := 63
  supported := by decide
  maxhead_le := by decide
  sectors_le := by decide

/-- From the last sector of a track on, three sectors are read and written; and from the last of all, one. -/
theorem transfers_exact_small :
    (ReadsExactly smallDisk (smallDisk.aimed 3 63 0 0 0xa0) 0x20 ∧
      WritesExactly smallDisk (smallDisk.aimed 3 63 0 0 0xa0) 0x30) ∧
    ReadsExactly smallDisk (smallDisk.aimed 3 63 0 0 0xaf) 0x20 := by
  have hread : decode 0x20 = .rsector := rfl
  have hwrite : decode 0x30 = .wsector := rfl
  have hnear := transfers_exact (smallDisk.aimed_selected 3 63 0 0 0xa0) hread hwrite
  have hlast := transfers_exact (smallDisk.aimed_selected 3 63 0 0 0xaf) hread hwrite
  exact ⟨⟨hnear.1.mpr (by decide), hnear.2.mpr ⟨rfl, fun _ => by decide⟩⟩, hlast.1.mpr (by decide)⟩

/-- The largest disk, with as many sectors to a track as there can be. -/
def largestDisk : Disk where
  drive := 0
  image := Image.ofSize (2 ^ 22)
  maxhead := 15
  sectors := 255
  supported := by decide
  maxhead_le := by decide
  sectors_le := by decide

/-- Each way it fails: two sectors from the last of a track of 255 on; the sector with number `2 ^ 23`, which
is taken for the first of the image; and a WRITE while the data port is past its start. -/
theorem transfers_not_exact :
    (¬ReadsExactly largestDisk (largestDisk.aimed 2 255 0 0 0xa0) 0x20 ∧
      ¬WritesExactly largestDisk (largestDisk.aimed 2 255 0 0 0xa0) 0x30) ∧
    (¬ReadsExactly largestDisk (largestDisk.aimed 1 129 0x08 0x08 0xa0) 0x20 ∧
      ¬WritesExactly largestDisk (largestDisk.aimed 1 129 0x08 0x08 0xa0) 0x30) ∧
    ¬WritesExactly smallDisk { smallDisk.aimed 1 1 0 0 0xa0 with sectindx := 1 } 0x30 := by
  have htrack := largestDisk.aimed_selected 2 255 0 0 0xa0
  have hpast := largestDisk.aimed_selected 1 129 0x08 0x08 0xa0
  refine ⟨⟨fun hr => ?_, fun hw => ?_⟩, ⟨fun hr => ?_, fun hw => ?_⟩, fun hw => ?_⟩
  · exact absurd (finds_of_reads_track htrack (by decide) rfl hr rfl) (by decide)
  · exact absurd (finds_of_writes_track htrack (by decide) rfl hw rfl rfl rfl) (by decide)
  · exact absurd (finds_of_reads_first hpast (by decide) rfl hr (by decide) (by decide))
      (by decide)
  · exact absurd (finds_of_writes_first hpast (by decide) rfl hw rfl rfl (by decide) (by decide))
      (by decide)
  · have hport : smallDisk.Selected { smallDisk.aimed 1 1 0 0 0xa0 with sectindx := 1 } := ⟨rfl, rfl, rfl, rfl⟩
    exact absurd (sectindx_of_writes hport rfl hw) (by decide)

end SoftPC.Fdisk
