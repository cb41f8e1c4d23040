import SoftPC.Disks.FdiskSafety
import SoftPC.Disks.FdiskTransfer

/-!
# Disks/FdiskRead — READ returns the sectors it is for

    search ──▸ data k ──256 words──▸ rest (k + 1) ──pause──▸ search
        │          └──── the last ────▸ done
        └──▸ failed

A READ is in one of four phases (`Reading`), whatever the guest polls and whenever events expire.  Each
phase says which words have been returned, and where the registers point; a search leads on from there
(`search_reading`).
-/

namespace SoftPC.Fdisk

open Hdd

/-- What a guest does that reads; the events expire whenever they do. -/
def Hdd.Op.reads : Op → Bool
  | .inb _ | .pause | .interrupt => true
  | .inw port => port = 0x1f0
  | _ => false

/-- The command is over, or has failed. -/
def Guest.Over (g : Guest) : Prop := ¬g.hdd.status cip ∨ g.hdd.status err

/-- **READ, as it should be**: the medium stays, and the words returned are those of the sectors there are,
in their order; it ends when their count is exhausted, or fails with the ID of the next one not found, and
until then there is data, or a pause to come. -/
structure ReadRight (t : Disk) (h₀ : Hdd) (g : Guest) : Prop where
  media : g.hdd.media = h₀.media
  words : g.words <+: t.image.stream (t.first h₀) (t.extent h₀)
  ended : ¬g.hdd.status cip → ¬g.hdd.status err →
    t.extent h₀ = h₀.count ∧ g.words = t.image.stream (t.first h₀) (t.extent h₀)
  failed : g.hdd.status err → t.extent h₀ < h₀.count ∧
    g.words = t.image.stream (t.first h₀) (t.extent h₀) ∧ g.hdd.taskfile.error = noid ||| abort
  goesOn : g.hdd.status cip → ¬g.hdd.status err →
    g.hdd.hasData ∧ g.words.length < 256 * t.extent h₀ ∨ g.hdd.status busy ∧ g.hdd.pauses ≠ 0

variable {t : Disk} {h₀ : Hdd} {n : ℕ}

/-- The phases of a READ that gets `n` sectors far. -/
inductive Reading (t : Disk) (h₀ : Hdd) (n : ℕ) (h : Hdd) (words : List Word) : Prop
  /-- Sector `k` is in the buffer, the registers point at the next. -/
  | data (k : ℕ) (hk : k < n) (hcmd : h.activecmd = some .rsector) (hmedia : h.media = h₀.media)
    (hdrq : h.status drq = true) (herr : h.status err = false) (hbusy : h.status busy = false)
    (hcip : h.status cip = true) (hrs : h.statics.rs = if k + 1 = h₀.count then .s31 else .s30)
    (hbuffer : h.sectbuffer = t.image.sectors (t.first h₀ + k))
    (hwords : words = t.image.stream (t.first h₀) k ++
      (t.image.sectors (t.first h₀ + k)).words.take h.sectindx.toNat)
    (hline : t.Line h₀ n h (k + 1)) (hscount : h.taskfile.scount = .ofNat 8 (h₀.count - (k + 1)))
  /-- A pause before sector `k`. -/
  | rest (k : ℕ) (hk : k ≤ n) (hcount : k < h₀.count) (hcmd : h.activecmd = some .rsector)
    (hmedia : h.media = h₀.media) (hdrq : h.status drq = false) (herr : h.status err = false)
    (hbusy : h.status busy = true) (hcip : h.status cip = true) (hrs : h.statics.rs = .s32)
    (hpauses : h.pauses ≠ 0) (hwords : words = t.image.stream (t.first h₀) k) (hline : t.Line h₀ n h k)
    (hscount : h.taskfile.scount = .ofNat 8 (h₀.count - k))
  | done (hn : n = h₀.count) (hcmd : h.activecmd = some .rsector) (hmedia : h.media = h₀.media)
    (hdrq : h.status drq = false) (herr : h.status err = false) (hbusy : h.status busy = false)
    (hcip : h.status cip = false) (hrs : h.statics.rs = .s31)
    (hwords : words = t.image.stream (t.first h₀) n)
  | failed (hn : n < h₀.count) (hcmd : h.activecmd = some .rsector) (hmedia : h.media = h₀.media)
    (herr : h.status err = true) (hbusy : h.status busy = false) (hrs : h.statics.rs = .s31)
    (herror : h.taskfile.error = noid ||| abort) (hwords : words = t.image.stream (t.first h₀) n)

/-! ## Searches -/

/-- A sector that is found is put into the buffer. -/
theorem rsectorSearch_found {h : Hdd} {m : ℕ} (ha : t.At h m) {m' : ℕ} (hf : t.found m = some m')
    (hm : h.media t.drive = some t.image) :
    h.rsectorSearch = .ok (
      let h := { h with sectindx := 0, sectbuffer := t.image.sectors m' }.stepped t.shape
      let h := (h.raise drq).lower busy
      h.irqAssert.setRs (if h.taskfile.scount ≠ 0 then .s30 else .s31)) := by
  have hf' : (m < t.capacity ∧ m % 2 ^ 23 < t.image.totalSectors) ∧ m % 2 ^ 23 = m' := by
    rw [Disk.found] at hf
    split at hf
    · exact ⟨‹_›, Option.some.inj hf⟩
    · cases hf
  have hsearch : h.dosearchid = .ok (some (.ofNat 32 (m * 512))) := by rw [ha.dosearchid, if_pos hf'.1.1]
  have htransfer : h.transfer t.drive (.ofNat 32 (m * 512)) = some (t.image, m') := by
    rw [Disk.At.transfer t hm rfl, if_pos hf'.1.2, hf'.2]
  have hbuffer : h.bcr.disktobuffer (.ofNat 32 (m * 512)) =
      .ok (some { h.bcr with sectbuffer := t.image.sectors m' }) := by
    rw [Hdd.disktobuffer, show h.bcr.selected = .ok (t.drive, t.shape) from ha.selected]
    change Except.ok ((h.transfer t.drive _).map _) = _
    rw [htransfer]
    rfl
  have hstep : { h.bcr with sectbuffer := t.image.sectors m' }.bcr.updateposregs =
      .ok ({ h.bcr with sectbuffer := t.image.sectors m' }.bcr.stepped t.shape) :=
    Disk.At.stepped_eq (ha.congr rfl)
  rw [Hdd.rsectorSearch, hsearch]
  simp only [bind, Except.bind]
  rw [hbuffer]
  change Hdd.rsectorUnload _ = _
  rw [Hdd.rsectorUnload, hstep]
  rfl

/-- A sector has been put into the buffer. -/
structure Fetched (h h' : Hdd) (d : Drive) (sector : Sector) : Prop where
  activecmd : h'.activecmd = h.activecmd
  media : h'.media = h.media
  hasDrq : h'.status drq = true
  sameErr : h'.status err = h.status err
  notBusy : h'.status busy = false
  sameCip : h'.status cip = h.status cip
  rs : h'.statics.rs = if h.taskfile.scount - 1 = 0 then .s31 else .s30
  sectbuffer : h'.sectbuffer = sector
  sectindx : h'.sectindx = 0
  place : h'.place = (h.stepped d).place
  scount : h'.taskfile.scount = h.taskfile.scount - 1

theorem rsectorSearch_fetched {h : Hdd} {m : ℕ} (ha : t.At h m) {m' : ℕ} (hf : t.found m = some m')
    (hm : h.media t.drive = some t.image) :
    Ends h.rsectorSearch fun h' => Fetched h h' t.shape (t.image.sectors m') := by
  rw [rsectorSearch_found ha hf hm]
  have hplace := stepped_place (h := h) (g := { h with sectindx := 0, sectbuffer := t.image.sectors m' }) t.shape rfl
  obtain ⟨tf, fixeddiskreg, hstep, hstat, -, hleft⟩ :=
    stepped_keeps { h with sectindx := 0, sectbuffer := t.image.sectors m' } t.shape
  rw [hstep] at hplace ⊢
  obtain ⟨g, hg⟩ : ∃ g : Hdd, g = { h with
    sectindx := 0, sectbuffer := t.image.sectors m', taskfile := tf, fixeddiskreg } := ⟨_, rfl⟩
  have hstatus (b : Byte) : g.status b = h.status b := by rw [hg, status, hstat, status]
  have hfields (s : ReadS) : ∃ statics interrupts, (((g.raise drq).lower busy).irqAssert.setRs s) =
      { (g.raise drq).lower busy with statics, interrupts } ∧ statics.rs = s := by
    rw [irqAssert_eq]
    exact ⟨_, _, rfl, rfl⟩
  rw [← hg] at hplace ⊢
  change Ends (.ok (((g.raise drq).lower busy).irqAssert.setRs (if g.taskfile.scount ≠ 0 then .s30 else .s31))) _
  obtain ⟨statics, interrupts, hlast, hstatics⟩ := hfields (if g.taskfile.scount ≠ 0 then .s30 else .s31)
  have hscount : g.taskfile.scount = h.taskfile.scount - 1 := by rw [hg, hleft]
  rw [hlast]
  refine .ok ⟨?_, ?_, ?_, ?_, status_lower_self _ _, ?_, ?_, ?_, ?_, hplace, hscount⟩
  · rw [hg]
    rfl
  · rw [hg]
    rfl
  · change ((g.raise drq).lower busy).status drq = true
    rw [status_lower _ (by decide), status_raise, show has drq drq = true by decide, Bool.or_true]
  · change ((g.raise drq).lower busy).status err = _
    rw [status_lower _ (by decide), status_raise, hstatus, show has drq err = false by decide, Bool.or_false]
  · change ((g.raise drq).lower busy).status cip = _
    rw [status_lower _ (by decide), status_raise, hstatus, show has drq cip = false by decide, Bool.or_false]
  · rw [← hscount]
    exact hstatics.trans (ite_not ..)
  · rw [hg]
    rfl
  · rw [hg]
    rfl

/-- The state that a failed command leaves behind, until its buffer has been unloaded. -/
theorem rsectorFail_failed {h : Hdd} {words : List Word} (hn : n < h₀.count)
    (hcmd : h.activecmd = some .rsector) (hmedia : h.media = h₀.media)
    (herror : h.taskfile.error = noid ||| abort) (hwords : words = t.image.stream (t.first h₀) n) :
    Reading t h₀ n h.rsectorFail words := by
  refine .failed hn ?_ ?_ ?_ ?_ rfl ?_ hwords
  · rw [rsectorFail, irqAssert_eq]
    cases h
    exact hcmd
  · rw [rsectorFail, irqAssert_eq]
    cases h
    exact hmedia
  · rw [rsectorFail, status_setRs, status_irqAssert, status_lower _ (by decide), status_raise, status_raise]
    simp [show has err err = true by decide]
  · rw [rsectorFail, status_setRs, status_irqAssert, status_lower_self]
  · rw [rsectorFail, irqAssert_eq]
    cases h
    exact herror

/-- **A search leads on**: to the data of the next sector, or to the end. -/
theorem search_reading {h : Hdd} {words : List Word} {k : ℕ} (hp : t.Plan h₀ n) (hs : t.Selected h₀) (hk : k ≤ n)
    (hcount : k < h₀.count) (hcmd : h.activecmd = some .rsector) (hmedia : h.media = h₀.media)
    (herr : h.status err = false) (hcip : h.status cip = true)
    (hwords : words = t.image.stream (t.first h₀) k) (hline : t.Line h₀ n h k)
    (hscount : h.taskfile.scount = .ofNat 8 (h₀.count - k)) :
    Ends h.rsectorSearch fun h' => Reading t h₀ n h' words ∧ h'.status busy = false := by
  rcases Nat.lt_or_eq_of_le hk with hlt | rfl
  · have hlimit := hp.le_limit (by omega)
    have hfound := Disk.found_of_lt (t := t) (n := t.first h₀ + k) (by omega)
    have hat := hline.1 hlt
    have hnext := hp.next hat hlt
    refine (rsectorSearch_fetched hat hfound (by rw [hmedia, hs.media])).mono fun h' hh' => ⟨?_, hh'.notBusy⟩
    have hleft : h'.taskfile.scount = .ofNat 8 (h₀.count - (k + 1)) := by
      rw [hh'.scount, hscount, ofNat_sub_one (by omega)]
      congr 1
    have hrs : h'.statics.rs = if k + 1 = h₀.count then .s31 else .s30 := by
      have := h₀.count_le
      rw [hh'.rs, ← hh'.scount]
      simp only [hleft, ofNat_eq_zero (show h₀.count - (k + 1) < 256 by omega)]
      split <;> split <;> first | rfl | omega
    refine .data k hlt (hh'.activecmd.trans hcmd) (hh'.media.trans hmedia) hh'.hasDrq (hh'.sameErr.trans herr)
      hh'.notBusy (hh'.sameCip.trans hcip) hrs hh'.sectbuffer ?_ (hnext.congr hh'.place) hleft
    rw [hh'.sectindx, hwords]
    exact (List.append_nil _).symm
  · obtain ⟨hsel, hsearch⟩ := hline.2 rfl hcount
    have hfailed {g g' : Hdd} (hg' : g' = g.rsectorFail) (hgcmd : g.activecmd = some .rsector)
        (hgmedia : g.media = h₀.media) (hgerror : g.taskfile.error = noid ||| abort) :
        Reading t h₀ k g' words ∧ g'.status busy = false := by
      subst hg'
      refine ⟨rsectorFail_failed hcount hgcmd hgmedia hgerror hwords, ?_⟩
      rw [rsectorFail, status_setRs, status_irqAssert, status_lower_self]
    rcases hsearch with hsearch | ⟨m, hsearch, hm⟩
    · rw [rsectorSearch, hsearch]
      exact .ok (hfailed rfl hcmd hmedia rfl)
    · have hbuffer : h.bcr.disktobuffer (.ofNat 32 (m * 512)) = .ok none := by
        rw [disktobuffer, Hdd.selected, show h.bcr.pseldrv = some t.drive from hsel]
        change Except.ok ((h.transfer t.drive _).map _) = _
        rw [Disk.At.transfer t (by rw [hmedia, hs.media]) rfl, if_neg hm]
        rfl
      rw [rsectorSearch, hsearch]
      simp only [bind, Except.bind]
      rw [hbuffer]
      exact .ok (hfailed (g := h.bcr.bcr.setError _) rfl hcmd hmedia rfl)

/-! ## Steps -/

namespace Reading

variable {h h' : Hdd} {words : List Word}

/-- What a phase depends on stays the same. -/
theorem congr (hr : Reading t h₀ n h words) (hcmd : h'.activecmd = h.activecmd) (hmedia : h'.media = h.media)
    (htask : h'.taskfile = h.taskfile) (hrs : h'.statics.rs = h.statics.rs)
    (hbuffer : h'.sectbuffer = h.sectbuffer) (hindex : h'.sectindx = h.sectindx) (hplace : h'.place = h.place)
    (hpauses : h.status busy → h.pauses ≠ 0 → h'.pauses ≠ 0) : Reading t h₀ n h' words := by
  have hstatus (b : Byte) : h'.status b = h.status b := by rw [status, htask, status]
  cases hr with
  | data k hk h1 h2 h3 h4 h5 h6 h7 h8 h9 h10 h11 =>
    exact .data k hk (hcmd.trans h1) (hmedia.trans h2) ((hstatus _).trans h3) ((hstatus _).trans h4)
      ((hstatus _).trans h5) ((hstatus _).trans h6) (hrs.trans h7) (hbuffer.trans h8) (by rw [hindex]; exact h9)
      (h10.congr hplace) (by rw [htask]; exact h11)
  | rest k hk hc h1 h2 h3 h4 h5 h6 h7 h8 h9 h10 h11 =>
    exact .rest k hk hc (hcmd.trans h1) (hmedia.trans h2) ((hstatus _).trans h3) ((hstatus _).trans h4)
      ((hstatus _).trans h5) ((hstatus _).trans h6) (hrs.trans h7) (hpauses h5 h8) h9 (h10.congr hplace)
      (by rw [htask]; exact h11)
  | done hn h1 h2 h3 h4 h5 h6 h7 h8 =>
    exact .done hn (hcmd.trans h1) (hmedia.trans h2) ((hstatus _).trans h3) ((hstatus _).trans h4)
      ((hstatus _).trans h5) ((hstatus _).trans h6) (hrs.trans h7) h8
  | failed hn h1 h2 h3 h4 h5 h6 h7 =>
    exact .failed hn (hcmd.trans h1) (hmedia.trans h2) ((hstatus _).trans h3) ((hstatus _).trans h4)
      (hrs.trans h5) (by rw [htask]; exact h6) h7

theorem irqDeassert (hr : Reading t h₀ n h words) : Reading t h₀ n h.irqDeassert words := by
  rw [irqDeassert_eq]
  exact hr.congr rfl rfl rfl rfl rfl rfl rfl fun _ => id

theorem see (hr : Reading t h₀ n h words) (s : Seen) : Reading t h₀ n (h.see s) words :=
  hr.congr rfl rfl rfl rfl rfl rfl rfl fun _ => id

/-- While the controller is not busy, the READ waits for the 256th word. -/
theorem idle (hr : Reading t h₀ n h words) (hbusy : h.status busy = false) :
    h.callActive .continue = .ok h := by
  have hwait (hcmd : h.activecmd = some .rsector) (hrs : h.statics.rs = .s30 ∨ h.statics.rs = .s31) :
      h.callActive .continue = .ok h := by
    rw [callActive, hcmd]
    rcases hrs with hrs | hrs <;> simp [run, rsector, hrs]
  cases hr with
  | data k _ hcmd _ _ _ _ _ hrs =>
    refine hwait hcmd ?_
    rw [hrs]
    split <;> simp
  | rest _ _ _ _ _ _ _ hb => exact absurd (hb.symm.trans hbusy) (by decide)
  | done _ hcmd _ _ _ _ _ hrs => exact hwait hcmd (.inr hrs)
  | failed _ hcmd _ _ _ hrs => exact hwait hcmd (.inr hrs)

theorem poll (hr : Reading t h₀ n h words) (port : BitVec 16) :
    Ends (h.fdiskInb port) fun h' => Reading t h₀ n h' words := by
  have hidle (r : Reg) {g : Hdd} (hg : Reading t h₀ n g words) (hbusy : g.status busy = false) :
      Ends (if g.status cip then do
          let g ← g.callActive .continue
          return g.see (.byte (g.reg r))
        else do
          let g ← Except.ok g
          return g.see (.byte (g.reg r))) fun h' => Reading t h₀ n h' words := by
    refine .ite (fun _ => ?_) fun _ => .ok (hg.see _)
    rw [hg.idle hbusy]
    exact .ok (hg.see _)
  refine .ite (fun _ => .ok ?_) fun hbusy => ?_
  · split
    · exact hr.irqDeassert.see _
    · exact hr.see _
  · cases readReg port with
    | none => exact .ok hr
    | some r =>
      have hbusy' : h.status busy = false := by simpa using hbusy
      change Ends (h.wd2010Read r) _
      dsimp only [wd2010Read]
      split
      · exact hidle r hr.irqDeassert (by rw [status_irqDeassert, hbusy'])
      · exact hidle r hr hbusy'

/-- The pause of a READ that has more to come, and pauses that nobody waits for. -/
theorem pause (hp : t.Plan h₀ n) (hs : t.Selected h₀) (hr : Reading t h₀ n h words) :
    EndsUnless (· = .outOfTurn) h.fdiskPause fun h' => Reading t h₀ n h' words := by
  unfold fdiskPause
  cases hpauses : h.pauses with
  | zero => exact .error rfl
  | succ m =>
    refine Ends.unless ?_
    cases hbusy : h.status busy with
    | false =>
      have hr' : Reading t h₀ n { h with pauses := m } words :=
        hr.congr rfl rfl rfl rfl rfl rfl rfl fun hb => absurd (hb.symm.trans hbusy) (by decide)
      change Ends (Hdd.callActive { h with pauses := m } .continue) _
      rw [hr'.idle hbusy]
      exact .ok hr'
    | true =>
      cases hr with
      | data _ _ _ _ _ _ hb => exact absurd (hb.symm.trans hbusy) (by decide)
      | done _ _ _ _ _ hb => exact absurd (hb.symm.trans hbusy) (by decide)
      | failed _ _ _ _ hb => exact absurd (hb.symm.trans hbusy) (by decide)
      | rest k hk hc hcmd hmedia _ herr _ hcip hrs _ hwords hline hscount =>
        have hcall : ({ h with pauses := m } : Hdd).callActive .continue =
            ({ h with pauses := m } : Hdd).rsectorSearch :=
          (callActive_run (h := { h with pauses := m }) hcmd).trans
            (rsector_rested (h := { h with pauses := m }) hrs (by decide))
        change Ends (Hdd.callActive { h with pauses := m } .continue) _
        rw [hcall]
        exact (search_reading (h := { h with pauses := m }) hp hs hk hc hcmd hmedia herr hcip hwords
          (hline.congr rfl) hscount).mono fun _ => And.left

/-- The buffer has been unloaded, and no data is to follow. -/
def unloaded (h : Hdd) : Hdd := (((h.lower drq).lower cip).irqDeassert).bcr

theorem unloaded_keeps (h : Hdd) : (unloaded h).activecmd = h.activecmd ∧ (unloaded h).media = h.media ∧
    (unloaded h).statics.rs = h.statics.rs ∧ (unloaded h).taskfile.error = h.taskfile.error := by
  rw [unloaded, irqDeassert_eq]
  exact ⟨rfl, rfl, rfl, rfl⟩

theorem status_unloaded (h : Hdd) {b : Byte} (hd : drq &&& b = 0#8) (hc : cip &&& b = 0#8) :
    (unloaded h).status b = h.status b := by
  rw [unloaded, status_bcr, status_irqDeassert, status_lower _ hc, status_lower _ hd]

theorem unloaded_done (hn : n = h₀.count) (hcmd : h.activecmd = some .rsector) (hmedia : h.media = h₀.media)
    (herr : h.status err = false) (hbusy : h.status busy = false) (hrs : h.statics.rs = .s31)
    (hwords : words = t.image.stream (t.first h₀) n) : Reading t h₀ n (unloaded h) words := by
  obtain ⟨hcmd', hmedia', hrs', -⟩ := unloaded_keeps h
  refine .done hn (hcmd'.trans hcmd) (hmedia'.trans hmedia) ?_
    ((status_unloaded h (by decide) (by decide)).trans herr)
    ((status_unloaded h (by decide) (by decide)).trans hbusy) ?_ (hrs'.trans hrs) hwords
  · rw [unloaded, status_bcr, status_irqDeassert, status_lower _ (by decide), status_lower_self]
  · rw [unloaded, status_bcr, status_irqDeassert, status_lower_self]

theorem unloaded_failed (hn : n < h₀.count) (hcmd : h.activecmd = some .rsector) (hmedia : h.media = h₀.media)
    (herr : h.status err = true) (hbusy : h.status busy = false) (hrs : h.statics.rs = .s31)
    (herror : h.taskfile.error = noid ||| abort) (hwords : words = t.image.stream (t.first h₀) n) :
    Reading t h₀ n (unloaded h) words := by
  obtain ⟨hcmd', hmedia', hrs', herror'⟩ := unloaded_keeps h
  exact .failed hn (hcmd'.trans hcmd) (hmedia'.trans hmedia)
    ((status_unloaded h (by decide) (by decide)).trans herr)
    ((status_unloaded h (by decide) (by decide)).trans hbusy) (hrs'.trans hrs) (herror'.trans herror) hwords

/-- The buffer has been unloaded, and more is to come. -/
theorem resting_rest {k : ℕ} (hk : k ≤ n) (hc : k < h₀.count) (hcmd : h.activecmd = some .rsector)
    (hmedia : h.media = h₀.media) (herr : h.status err = false) (hcip : h.status cip = true)
    (hwords : words = t.image.stream (t.first h₀) k) (hline : t.Line h₀ n h k)
    (hscount : h.taskfile.scount = .ofNat 8 (h₀.count - k)) : Reading t h₀ n h.resting words := by
  have hstatus (b : Byte) : h.resting.status b = ((h.lower drq).raise busy).irqDeassert.status b := rfl
  have hplace : h.resting.place = h.place := by
    rw [resting, irqDeassert_eq]
    rfl
  refine .rest k hk hc ?_ ?_ ?_ ?_ ?_ ?_ rfl (Nat.succ_ne_zero _) hwords (hline.congr hplace) ?_
  · rw [resting, irqDeassert_eq]
    exact hcmd
  · rw [resting, irqDeassert_eq]
    exact hmedia
  · rw [hstatus, status_irqDeassert, status_raise, status_lower_self]
    decide
  · rw [hstatus, status_irqDeassert, status_raise, status_lower _ (by decide), herr]
    decide
  · rw [hstatus, status_irqDeassert, status_raise, show has busy busy = true by decide, Bool.or_true]
  · rw [hstatus, status_irqDeassert, status_raise, status_lower _ (by decide), hcip, Bool.true_or]
  · rw [resting, irqDeassert_eq]
    exact hscount

/-- **A word is taken.** -/
theorem word {words' : List Word} (hp : t.Plan h₀ n) (hs : t.Selected h₀) (hr : Reading t h₀ n h words)
    (hwords' : words' = if h.hasData then words ++ [h.sectbuffer h.sectindx] else words) :
    Ends (h.fdiskInw 0x1f0) fun h' => Reading t h₀ n h' words' := by
  obtain ⟨g, hg⟩ : ∃ g : Hdd, g = { h.see (.word (h.sectbuffer h.sectindx)) with sectindx := h.sectindx + 1 } :=
    ⟨_, rfl⟩
  have hword : h.fdiskInw 0x1f0 =
      if g.sectindx = 0 ∧ g.activecmd.isSome then g.callActive .brdy else .ok g := by
    rw [hg]
    rfl
  have hstatus (b : Byte) : g.status b = h.status b := by rw [hg]; rfl
  have hplace : g.place = h.place := by rw [hg]; rfl
  have hcall (hcmd : h.activecmd = some .rsector) : g.callActive .brdy = g.rsector .brdy :=
    callActive_run (h := g) (by rw [hg]; exact hcmd)
  have hindex : g.sectindx.toNat = (h.sectindx.toNat + 1) % 256 := by
    rw [hg]
    exact BitVec.toNat_add _ _
  have hlt := h.sectindx.isLt
  rw [hword]
  cases hr with
  | data k hk hcmd hmedia hdrq herr hbusy hcip hrs hbuffer hwords hline hscount =>
    have hdata : h.hasData = true := by rw [hasData, hdrq, herr]; rfl
    have htaken : words' = t.image.stream (t.first h₀) k ++
        (t.image.sectors (t.first h₀ + k)).words.take (h.sectindx.toNat + 1) := by
      have htake := (t.image.sectors (t.first h₀ + k)).take_succ h.sectindx.isLt
      rw [BitVec.ofNat_toNat, BitVec.setWidth_eq] at htake
      rw [hwords', hdata, if_pos rfl, hwords, hbuffer, List.append_assoc, htake]
    refine .ite (fun hfull => ?_) fun hmore => .ok ?_
    · have hlast : h.sectindx.toNat + 1 = 256 := by
        rw [hfull.1] at hindex
        change 0 = _ at hindex
        omega
      rw [hlast, List.take_of_length_le (by rw [Sector.words_length]), ← Image.stream_succ] at htaken
      rw [hcall hcmd]
      by_cases hend : k + 1 = h₀.count
      · rw [rsector_unloaded (by rw [hg]; exact hrs.trans (if_pos hend))]
        have hn : n = k + 1 := by
          have := hp.le_count
          omega
        refine .ok (unloaded_done (hn.trans hend) ?_ ?_ ((hstatus _).trans herr) ((hstatus _).trans hbusy) ?_
          (by rw [htaken, hn])) <;> rw [hg]
        · exact hcmd
        · exact hmedia
        · exact hrs.trans (if_pos hend)
      · rw [rsector_resting (by rw [hg]; exact hrs.trans (if_neg hend))]
        have := hp.le_count
        refine .ok (resting_rest (k := k + 1) (by omega) (by omega) ?_ ?_ ((hstatus _).trans herr)
          ((hstatus _).trans hcip) htaken (hline.congr hplace) ?_) <;> rw [hg]
        · exact hcmd
        · exact hmedia
        · exact hscount
    · have hne : g.sectindx.toNat ≠ 0 := fun hz =>
        hmore ⟨BitVec.eq_of_toNat_eq hz, by rw [hg]; exact Option.isSome_iff_exists.mpr ⟨_, hcmd⟩⟩
      have hinc : g.sectindx.toNat = h.sectindx.toNat + 1 := by omega
      rw [← hinc] at htaken
      refine .data k hk ?_ ?_ ((hstatus _).trans hdrq) ((hstatus _).trans herr) ((hstatus _).trans hbusy)
        ((hstatus _).trans hcip) ?_ ?_ htaken (hline.congr hplace) ?_ <;> rw [hg]
      · exact hcmd
      · exact hmedia
      · exact hrs
      · exact hbuffer
      · exact hscount
  | rest k hk hc hcmd hmedia hdrq herr hbusy hcip hrs hpauses hwords hline hscount =>
    have hsame : words' = words := by rw [hwords', hasData, hdrq]; rfl
    refine .ite (fun _ => ?_) fun _ => .ok ?_
    · rw [hcall hcmd, rsector_rested (by rw [hg]; exact hrs) (by decide)]
      refine (search_reading (h := g) hp hs hk hc ?_ ?_ ((hstatus _).trans herr) ((hstatus _).trans hcip)
        (hsame.trans hwords) (hline.congr hplace) ?_).mono fun _ => And.left
      all_goals rw [hg]
      · exact hcmd
      · exact hmedia
      · exact hscount
    · rw [hg]
      exact .rest k hk hc hcmd hmedia hdrq herr hbusy hcip hrs hpauses (hsame.trans hwords) (hline.congr rfl) hscount
  | done hn hcmd hmedia hdrq herr hbusy hcip hrs hwords =>
    have hsame : words' = words := by rw [hwords', hasData, hdrq]; rfl
    refine .ite (fun _ => ?_) fun _ => .ok ?_
    · rw [hcall hcmd, rsector_unloaded (by rw [hg]; exact hrs), hg]
      exact .ok (unloaded_done hn hcmd hmedia herr hbusy hrs (hsame.trans hwords))
    · rw [hg]
      exact .done hn hcmd hmedia hdrq herr hbusy hcip hrs (hsame.trans hwords)
  | failed hn hcmd hmedia herr hbusy hrs herror hwords =>
    have hsame : words' = words := by rw [hwords', hasData, herr, Bool.not_true, Bool.and_false]; rfl
    refine .ite (fun _ => ?_) fun _ => .ok ?_
    · rw [hcall hcmd, rsector_unloaded (by rw [hg]; exact hrs), hg]
      exact .ok (unloaded_failed hn hcmd hmedia herr hbusy hrs herror (hsame.trans hwords))
    · rw [hg]
      exact .failed hn hcmd hmedia herr hbusy hrs herror (hsame.trans hwords)

end Reading

/-! ## Runs -/

/-- **One step** of a READ. -/
theorem step_reading {g : Guest} {op : Hdd.Op} (hp : t.Plan h₀ n) (hs : t.Selected h₀) (hop : op.reads)
    (hr : Reading t h₀ n g.hdd g.words) :
    EndsUnless (· = .outOfTurn) (g.step op) fun g' => Reading t h₀ n g'.hdd g'.words := by
  have hquiet (hword : op.word g.hdd = none) : (if g.hdd.hasData then g.words ++ (op.word g.hdd).toList else g.words)
      = g.words := by
    rw [hword, Option.toList_none, List.append_nil, ite_self]
  have hstep (hword : op.word g.hdd = none)
      (hr' : EndsUnless (· = .outOfTurn) (g.hdd.step op) fun h' => Reading t h₀ n h' g.words) :
      EndsUnless (· = .outOfTurn) (g.step op) fun g' => Reading t h₀ n g'.hdd g'.words :=
    hr'.bind fun h' hh' => .ok (by rw [hquiet hword]; exact hh')
  cases op with
  | inb port => exact hstep rfl (hr.poll port).unless
  | pause => exact hstep rfl (hr.pause hp hs)
  | interrupt =>
    refine hstep rfl ?_
    change EndsUnless _ g.hdd.diskIntCallBack _
    unfold diskIntCallBack
    cases g.hdd.interrupts with
    | zero => exact .error rfl
    | succ m => exact .ok (hr.congr rfl rfl rfl rfl rfl rfl rfl fun _ => id)
  | inw port =>
    obtain rfl : port = 0x1f0 := of_decide_eq_true hop
    exact ((hr.word hp hs rfl).bind fun h' hh' => .ok hh').unless
  | outb | outw | reset => cases hop

/-- A READ starts with a search. -/
theorem start_reading {v : Byte} (hp : t.Plan h₀ n) (hs : t.Selected h₀) (hv : decode v = .rsector) :
    Ends (h₀.step (.outb 0x1f7 v)) fun h => Reading t h₀ n h [] := by
  obtain ⟨g, hstep, hg, -⟩ := h₀.command_started v
  rw [hv] at hstep hg
  rw [hstep]
  have hg' := hg.doseek
  change Ends (if g.doseek.status drdy then g.doseek.rsectorSearch else _) _
  rw [if_pos (hg'.ready.trans hs.ready)]
  exact (search_reading hp hs (Nat.zero_le _) h₀.count_pos hg'.activecmd hg'.media hg'.noError hg'.inProgress rfl
    (hp.start.congr hg'.place) (hg'.scount.trans h₀.scount_eq)).mono fun _ => And.left

theorem run_reading {v : Byte} {ops : List Hdd.Op} (hp : t.Plan h₀ n) (hs : t.Selected h₀)
    (hv : decode v = .rsector) (hops : ∀ op ∈ ops, op.reads) :
    EndsUnless (· = .outOfTurn) (h₀.exchange v ops) fun g => Reading t h₀ n g.hdd g.words :=
  (start_reading hp hs hv).unless.bind fun _ hh =>
    endsUnless_foldlM (C := fun op : Hdd.Op => op.reads) (I := fun g : Guest => Reading t h₀ n g.hdd g.words)
      (fun _ _ hr hop => step_reading hp hs hop hr) hops hh

namespace Reading

variable {h : Hdd} {words : List Word}

/-- How far it has come. -/
theorem words_prefix (hr : Reading t h₀ n h words) : words <+: t.image.stream (t.first h₀) n := by
  cases hr with
  | data k hk _ _ _ _ _ _ _ _ hwords =>
    rw [hwords]
    refine .trans ?_ (Image.stream_prefix _ _ hk)
    rw [Image.stream_succ]
    exact (List.prefix_append_right_inj _).mpr (List.take_prefix _ _)
  | rest k hk _ _ _ _ _ _ _ _ _ hwords => exact hwords ▸ Image.stream_prefix _ _ hk
  | done _ _ _ _ _ _ _ _ hwords => exact hwords ▸ List.prefix_refl _
  | failed _ _ _ _ _ _ _ hwords => exact hwords ▸ List.prefix_refl _

/-- A READ that gets as far as it should is right. -/
theorem right (hr : Reading t h₀ (t.extent h₀) h words) : ReadRight t h₀ ⟨h, words⟩ := by
  have hinitial := hr.words_prefix
  cases hr with
  | data k hk _ hmedia hdrq herr _ hcip _ _ hwords =>
    refine ⟨hmedia, hinitial, fun hc => absurd hcip hc, fun he => absurd (he.symm.trans herr) (by decide),
      fun _ _ => .inl ⟨by rw [hasData, hdrq, herr]; rfl, ?_⟩⟩
    have := h.sectindx.isLt
    rw [hwords, List.length_append, Image.stream_length, List.length_take, Sector.words_length]
    omega
  | rest k hk _ _ hmedia _ herr hbusy hcip _ hpauses hwords =>
    exact ⟨hmedia, hinitial, fun hc => absurd hcip hc, fun he => absurd (he.symm.trans herr) (by decide),
      fun _ _ => .inr ⟨hbusy, hpauses⟩⟩
  | done hn _ hmedia _ herr _ hcip _ hwords =>
    exact ⟨hmedia, hinitial, fun _ _ => ⟨hn, hwords⟩, fun he => absurd (he.symm.trans herr) (by decide),
      fun hc => absurd (hc.symm.trans hcip) (by decide)⟩
  | failed hn _ hmedia herr _ _ herror hwords =>
    exact ⟨hmedia, hinitial, fun _ he => absurd herr he, fun _ => ⟨hn, hwords, herror⟩, fun _ he => absurd herr he⟩

/-- How much there is to do yet. -/
def left (n : ℕ) (h : Hdd) (words : List Word) : ℕ := 2 * (256 * n - words.length) + (if h.status busy then 1 else 0)

/-- While it is not over, a word or the pause brings it on. -/
theorem goes_on (hp : t.Plan h₀ n) (hs : t.Selected h₀) {g : Guest} (hr : Reading t h₀ n g.hdd g.words) :
    g.Over ∨ ∃ op : Hdd.Op, op.reads ∧ Ends (g.step op) fun g' =>
      Reading t h₀ n g'.hdd g'.words ∧ left n g'.hdd g'.words < left n g.hdd g.words := by
  obtain ⟨h, words⟩ := g
  cases hr with
  | data k hk hcmd hmedia hdrq herr hbusy hcip hrs hbuffer hwords hline hscount =>
    have hr : Reading t h₀ n h words :=
      .data k hk hcmd hmedia hdrq herr hbusy hcip hrs hbuffer hwords hline hscount
    have hdata : h.hasData = true := by rw [hasData, hdrq, herr]; rfl
    refine .inr ⟨.inw 0x1f0, rfl, (hr.word hp hs rfl).bind fun h' hh' => .ok ⟨hh', ?_⟩⟩
    have hlength := hh'.words_prefix.length_le
    rw [hdata, if_pos rfl, List.length_append, Image.stream_length, List.length_singleton] at hlength
    change left n h' (if h.hasData = true then words ++ [h.sectbuffer h.sectindx] else words) < left n h words
    rw [hdata, if_pos rfl, left, left, List.length_append, List.length_singleton, hbusy, if_neg Bool.false_ne_true]
    split <;> omega
  | rest k hk hc hcmd hmedia hdrq herr hbusy hcip hrs hpauses hwords hline hscount =>
    obtain ⟨m, hm⟩ := Nat.exists_eq_succ_of_ne_zero hpauses
    have hpause : h.fdiskPause = ({ h with pauses := m } : Hdd).rsectorSearch := by
      rw [fdiskPause, hm]
      exact (callActive_run (h := { h with pauses := m }) hcmd).trans
        (rsector_rested (h := { h with pauses := m }) hrs (by decide))
    have hsearch := search_reading (h := { h with pauses := m }) hp hs hk hc hcmd hmedia herr hcip hwords
      (hline.congr rfl) hscount
    rw [← hpause] at hsearch
    refine .inr ⟨.pause, rfl, hsearch.bind fun h' hh' => .ok ?_⟩
    have hsame : (if h.hasData = true then words ++ (Op.word h .pause).toList else words) = words := by
      rw [hasData, hdrq]
      rfl
    change Reading t h₀ n h' (if _ then _ else _) ∧ left n h' (if _ then _ else _) < _
    rw [hsame, left, left, hh'.2, hbusy]
    exact ⟨hh'.1, by simp⟩
  | done _ _ _ _ _ _ hcip => exact .inl (.inl (by rw [hcip]; decide))
  | failed _ _ _ herr => exact .inl (.inr herr)

/-- **A READ ends**, if the guest goes on taking words. -/
theorem ends (hp : t.Plan h₀ n) (hs : t.Selected h₀) {g : Guest} (hr : Reading t h₀ n g.hdd g.words) :
    ∃ ops : List Hdd.Op, (∀ op ∈ ops, op.reads) ∧
      Ends (ops.foldlM Guest.step g) fun g' => Reading t h₀ n g'.hdd g'.words ∧ g'.Over := by
  induction hleft : left n g.hdd g.words using Nat.strong_induction_on generalizing g with
  | _ m ih =>
    rcases hr.goes_on hp hs with hover | ⟨op, hop, hstep⟩
    · exact ⟨[], nofun, .ok ⟨hr, hover⟩⟩
    · obtain ⟨g', hg', hr', hlt⟩ := hstep
      obtain ⟨ops, hops, hends⟩ := ih _ (hleft ▸ hlt) hr' rfl
      refine ⟨op :: ops, ?_, ?_⟩
      · exact List.forall_mem_cons.mpr ⟨hop, hops⟩
      · rw [List.foldlM_cons, hg']
        exact hends

end Reading

/-! ## The claim -/

/-- Every READ that the guest goes on with, and its end. -/
def ReadsExactly (t : Disk) (h₀ : Hdd) (v : Byte) : Prop :=
  ∀ ops : List Hdd.Op, (∀ op ∈ ops, op.reads) →
    EndsUnless (· = .outOfTurn) (h₀.exchange v ops) fun g => ReadRight t h₀ g ∧
      ∃ more : List Hdd.Op, (∀ op ∈ more, op.reads) ∧ Ends (more.foldlM Guest.step g) Guest.Over

/-- It is right where the code finds its way. -/
theorem reads_of_finds {v : Byte} (hs : t.Selected h₀) (hf : t.Finds h₀) (hv : decode v = .rsector) :
    ReadsExactly t h₀ v := by
  intro ops hops
  have hp := hs.plan_extent hf
  refine (run_reading hp hs hv hops).mono fun g hr => ⟨hr.right, ?_⟩
  obtain ⟨more, hmore, hends⟩ := hr.ends hp hs
  exact ⟨more, hmore, hends.mono fun _ hg => hg.2⟩

/-- A sector past the image, taken for one within it, is returned. -/
theorem finds_of_reads_first {v : Byte} (hs : t.Selected h₀) (hn : t.Named h₀) (hv : decode v = .rsector)
    (hr : ReadsExactly t h₀ v) (hpast : t.limit ≤ t.first h₀) (hcapacity : t.first h₀ < t.capacity) :
    t.image.totalSectors ≤ t.first h₀ % 2 ^ 23 := by
  by_contra hwithin
  have hextent : t.extent h₀ = 0 := by
    rw [Disk.extent, if_pos hn]
    omega
  obtain ⟨g, hstep, hg, -⟩ := h₀.command_started v
  rw [hv] at hstep hg
  have hg' := hg.doseek
  have hfound : t.found (t.first h₀) = some (t.first h₀ % 2 ^ 23) := if_pos ⟨hcapacity, by omega⟩
  obtain ⟨h, hsearch, hh⟩ := rsectorSearch_fetched ((hs.at hn).congr hg'.place) hfound (by rw [hg'.media, hs.media])
  have hstart : g.run .rsector .start = .ok h := by
    change (if g.doseek.status drdy then g.doseek.rsectorSearch else _) = _
    rw [if_pos (hg'.ready.trans hs.ready), hsearch]
  have hrun : h₀.exchange v [] = .ok { hdd := h } := by
    rw [exchange, hstep, hstart]
    rfl
  have hright := ((hr [] nofun).of_eq hrun).1
  rcases hright.goesOn (hh.sameCip.trans hg'.inProgress)
    (by rw [hh.sameErr.trans hg'.noError]; decide) with ⟨-, hlt⟩ | ⟨hbusy, -⟩
  · rw [hextent] at hlt
    exact absurd hlt (Nat.not_lt_zero _)
  · exact absurd (hbusy.symm.trans hh.notBusy) (by decide)

/-- A track of 255 sectors is not left. -/
theorem finds_of_reads_track {v : Byte} (hs : t.Selected h₀) (hn : t.Named h₀) (hv : decode v = .rsector)
    (hr : ReadsExactly t h₀ v) (h255 : t.sectors = 255) : h₀.taskfile.snum.toNat + t.extent h₀ ≤ 256 := by
  by_contra hlong
  have hp := hs.plan_track hn h255 (by omega)
  obtain ⟨h, hstart, hreading⟩ := start_reading (v := v) hp hs hv
  obtain ⟨ops, hops, g, hg, hreading', hover⟩ := hreading.ends (g := { hdd := h }) hp hs
  have hright := ((hr ops hops).of_eq (x := g) (by rw [Hdd.exchange, hstart]; exact hg)).1
  have hshort := hreading'.words_prefix.length_le
  rw [Image.stream_length] at hshort
  have hall : g.words = t.image.stream (t.first h₀) (t.extent h₀) := by
    by_cases herr : g.hdd.status err
    · exact (hright.failed herr).2.1
    · exact (hright.ended (hover.resolve_right herr) herr).2
  rw [hall, Image.stream_length] at hshort
  omega

end SoftPC.Fdisk
