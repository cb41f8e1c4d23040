import SoftPC.Disks.Fdisk
import SoftPC.Machinery.Outcome

/-!
# Disks/FdiskSafety — finished commands stay finished

    command ──▸ CIP, waiting ──BRDY | pause──▸ … ──▸ ¬CIP          (reset) ──▸ ¬CIP, DRDY
                                                       └── activecmd and `s` stay ──▴ BRDY, pause

A command that waits is one of three, in one of few places (`Waiting`), and then a drive is selected
wherever it will be dereferenced.  Nothing else calls a command but the 256th data word and a pause, which
call whatever command was the last one, in progress or not: so what a finished command leaves behind must
ignore them (`inert`), and a command must not find `DRDY` set by a reset before any drive was selected
(`Ready`).  With this nothing stops and nothing finished is heard of again (`commands_stay_finished`).
-/

namespace SoftPC.Fdisk

namespace Hdd

variable (h : Hdd)

/-! ## The condition -/

/-- What SET PARAMETERS makes of a drive. -/
def parameters (d : Drive) : Drive :=
  { d with
    maxhead := h.head, nsecspertrack := h.taskfile.scount.toNat
    nbytespertrack := h.taskfile.scount.toNat * 512
    nbytespercyl := h.taskfile.scount.toNat * 512 * (h.head + 1) }

/-- The last command, called again once it is over, does nothing: it is a READ that waits for its buffer to
be unloaded, or a WRITE or FORMAT that waits for it to be filled and is not told so, or its interrupt is
still there or is not enabled. -/
def inert (sig : Signal) : Bool :=
  match h.activecmd with
  | none => true
  | some .rsector => h.statics.rs = .s30 || h.statics.rs = .s31
  | some .wsector =>
    sig = .continue && (h.statics.ws = .s1 || h.statics.ws = .s4) ||
      h.quiet && (h.statics.ws = .s10 || h.statics.ws = .s11)
  | some .format => sig = .continue && h.statics.fs = .s1 || h.quiet && h.statics.fs = .s3
  | some .setparams => h.quiet && h.pseldrv.any fun i => h.parameters (h.drives i) = h.drives i
  | some _ => h.quiet

/-- A command that moves data, or sets parameters, has a drive to do so. -/
def Ready : Cmd → Prop
  | .rsector | .wsector | .format => h.status drdy → h.pseldrv.isSome
  | .setparams => h.pseldrv.isSome
  | _ => True

instance (cmd : Cmd) : Decidable (h.Ready cmd) := by
  cases cmd <;> unfold Ready <;> infer_instance

/-- The 256th word. -/
def Brims (port : BitVec 16) : Prop := port = 0x1f0 ∧ h.sectindx + 1 = 0

instance (port : BitVec 16) : Decidable (h.Brims port) := inferInstanceAs (Decidable (_ ∧ _))

/-- A step that calls no finished command that would act, and gives no command to no drive. -/
def Orderly : Op → Prop
  | .outb port v => writeReg port = some .cmd → h.Ready (decode v)
  | .inw port | .outw port _ => h.Brims port → h.status cip ∨ h.inert .brdy
  | .pause => h.status cip ∨ h.inert .continue
  | _ => True

instance (op : Op) : Decidable (h.Orderly op) := by
  cases op <;> unfold Orderly <;> infer_instance

/-! ## What is kept -/

/-- Nothing moves on the disk and no interrupt is raised. -/
structure Same (h h' : Hdd) : Prop where
  position : h'.position = h.position
  drives : h'.drives = h.drives
  media : h'.media = h.media
  interrupts : h'.interrupts = h.interrupts

/-- A command is in progress, and waits for this. -/
def Awaits : Op → Prop
  | .inw _ | .outw _ _ => h.status cip
  | .pause => h.status cip ∧ h.activecmd = some .rsector ∧ h.statics.rs = .s32
  | _ => False

/-- A pause, a poll or an access to the data port. -/
def Op.stirs : Op → Bool
  | .inb _ | .inw _ | .outw _ _ | .pause => true
  | _ => false

/-- A command in progress waits in one of these places; what it will dereference is there. -/
def Waiting : Prop :=
  match h.activecmd with
  | some .rsector =>
    h.statics.rs = .s31 ∨ h.pseldrv.isSome ∧ (h.statics.rs = .s30 ∨ h.statics.rs = .s32 ∧ h.status busy)
  | some .wsector => (h.statics.ws = .s1 ∨ h.statics.ws = .s4) ∧ (h.status drdy → h.pseldrv.isSome)
  | some .format => h.statics.fs = .s1 ∧ (h.status drdy → h.pseldrv.isSome)
  | _ => False

/-- **The invariant.** -/
structure Sane : Prop where
  pending : h.pauses ≠ 0 → h.activecmd.isSome
  inProgress : h.status cip → h.Waiting

variable {h}

/-! ## The commands in progress -/

/-- A call leaves the command, the drive selected, and whether it is ready. -/
structure Keeps (h h' : Hdd) : Prop where
  activecmd : h'.activecmd = h.activecmd
  pseldrv : h'.pseldrv = h.pseldrv
  ready : h'.status drdy = h.status drdy

namespace Keeps

variable {g : Hdd}

theorem refl (h : Hdd) : h.Keeps h := ⟨rfl, rfl, rfl⟩

theorem trans {g' : Hdd} (hk : h.Keeps g) (hk' : g.Keeps g') : h.Keeps g' :=
  ⟨hk'.1.trans hk.1, hk'.2.trans hk.2, hk'.3.trans hk.3⟩

theorem raise (hk : h.Keeps g) {b : Byte} (hb : has b drdy = false) : h.Keeps (g.raise b) :=
  ⟨hk.1, hk.2, by rw [status_raise, hb, Bool.or_false, hk.3]⟩

theorem lower (hk : h.Keeps g) {b : Byte} (hb : b &&& drdy = 0#8) : h.Keeps (g.lower b) :=
  ⟨hk.1, hk.2, by rw [status_lower _ hb, hk.3]⟩

theorem setError (hk : h.Keeps g) (v : Byte) : h.Keeps (g.setError v) := ⟨hk.1, hk.2, hk.3⟩
theorem bcr (hk : h.Keeps g) : h.Keeps g.bcr := ⟨hk.1, hk.2, hk.3⟩
theorem setRs (hk : h.Keeps g) (s : ReadS) : h.Keeps (g.setRs s) := ⟨hk.1, hk.2, hk.3⟩
theorem setWs (hk : h.Keeps g) (s : WriteS) : h.Keeps (g.setWs s) := ⟨hk.1, hk.2, hk.3⟩
theorem setFs (hk : h.Keeps g) (s : FormatS) : h.Keeps (g.setFs s) := ⟨hk.1, hk.2, hk.3⟩

theorem irqAssert (hk : h.Keeps g) : h.Keeps g.irqAssert := by
  rw [irqAssert_eq]
  exact ⟨hk.1, hk.2, hk.3⟩

theorem irqDeassert (hk : h.Keeps g) : h.Keeps g.irqDeassert := by
  rw [irqDeassert_eq]
  exact ⟨hk.1, hk.2, hk.3⟩

theorem doseek (hk : h.Keeps g) : h.Keeps g.doseek := by
  unfold Hdd.doseek
  split
  · exact hk.raise (by decide)
  · exact hk.lower (by decide)

theorem finish (hk : h.Keeps g) : h.Keeps g.finish :=
  ((hk.lower (by decide)).lower (by decide)).bcr.irqAssert

theorem seeking (hk : h.Keeps g) : h.Keeps g.seeking := by
  dsimp only [Hdd.seeking]
  split
  · exact hk.doseek.finish
  · exact ((hk.doseek.raise (by decide)).setError _).finish

theorem bad (hk : h.Keeps g) : h.Keeps g.bad :=
  ((((hk.raise (by decide)).lower (by decide)).lower (by decide)).setError _).bcr.irqAssert

theorem rsectorFail (hk : h.Keeps g) : h.Keeps g.rsectorFail :=
  (((hk.raise (by decide)).raise (by decide)).lower (by decide)).irqAssert.setRs _

theorem wsectorFail (hk : h.Keeps g) : h.Keeps g.wsectorFail :=
  (((hk.raise (by decide)).lower (by decide)).lower (by decide)).irqAssert.bcr.setWs _

theorem wsectorDone (hk : h.Keeps g) : h.Keeps g.wsectorDone :=
  ((hk.lower (by decide)).lower (by decide)).irqAssert.bcr.setWs _

theorem formatDone (hk : h.Keeps g) : h.Keeps g.formatDone :=
  ((hk.irqAssert.lower (by decide)).lower (by decide)).bcr.setFs _

theorem formatFail (hk : h.Keeps g) : h.Keeps g.formatFail :=
  ((hk.setError _).raise (by decide)).formatDone

end Keeps

theorem selected_ends (hs : h.pseldrv.isSome) : Ends h.selected fun _ => True := by
  obtain ⟨i, hi⟩ := Option.isSome_iff_exists.mp hs
  exact ⟨(i, h.drives i), by rw [selected, hi], trivial⟩

theorem dosearchid_ends (hs : h.pseldrv.isSome) : Ends h.dosearchid fun _ => True := by
  refine .ite (fun _ => .ok trivial) fun _ => (selected_ends hs).bind fun ⟨_, _⟩ _ => ?_
  exact .ite (fun _ => .ok trivial) fun _ => .ite (fun _ => .ok trivial) fun _ =>
    .ite (fun _ => .ok trivial) fun _ => .ok trivial

theorem disktobuffer_ends (offset : BitVec 32) (hs : h.pseldrv.isSome) :
    Ends (h.disktobuffer offset) fun r => ∀ h' ∈ r, h.Keeps h' := by
  refine (selected_ends hs).bind fun ⟨i, _⟩ _ => .ok fun h' hh' => ?_
  obtain ⟨⟨image, n⟩, -, rfl⟩ := Option.map_eq_some_iff.mp (Option.mem_def.mp hh')
  exact ⟨rfl, rfl, rfl⟩

theorem buffertodisk_ends (offset : BitVec 32) (hs : h.pseldrv.isSome) :
    Ends (h.buffertodisk offset) fun r => ∀ h' ∈ r, h.Keeps h' := by
  refine (selected_ends hs).bind fun ⟨i, _⟩ _ => .ok fun h' hh' => ?_
  cases ht : h.transfer i offset with
  | none => simp [ht] at hh'
  | some r =>
    obtain ⟨image, n⟩ := r
    simp only [ht] at hh'
    split at hh'
    · cases hh'
      exact ⟨rfl, rfl, rfl⟩
    · cases hh'

theorem updateposregs_ends (hs : h.pseldrv.isSome) : Ends h.updateposregs h.Keeps := by
  refine (selected_ends hs).bind fun ⟨_, d⟩ _ => .ok ?_
  dsimp only
  split
  · rw [nextTrack]
    split <;> exact ⟨rfl, rfl, rfl⟩
  · exact ⟨rfl, rfl, rfl⟩

/-- A READ waits for its buffer to be unloaded. -/
def Unloading (h h' : Hdd) : Prop :=
  h.Keeps h' ∧ (h'.statics.rs = .s31 ∨ h'.pseldrv.isSome ∧ h'.statics.rs = .s30)

theorem Keeps.unloading {g : Hdd} (hk : h.Keeps g) : h.Unloading g.rsectorFail := by
  refine ⟨hk.rsectorFail, .inl ?_⟩
  simp only [Hdd.rsectorFail, irqAssert_eq]
  rfl

theorem rsectorUnload_ends {g : Hdd} (hk : h.Keeps g) (hs : g.pseldrv.isSome) :
    Ends g.rsectorUnload h.Unloading := by
  refine Ends.bind (updateposregs_ends (h := g.bcr) hs) fun h' hh' => .ok ?_
  have hk' := (((hk.bcr.trans hh').raise (b := drq) (by decide)).lower (b := busy) (by decide)).irqAssert
  refine ⟨hk'.setRs _, ?_⟩
  split
  · exact .inr ⟨(hk'.setRs .s30).2 ▸ hk.2 ▸ hs, rfl⟩
  · exact .inl rfl

theorem rsectorSearch_ends {g : Hdd} (hk : h.Keeps g) (hs : g.pseldrv.isSome) :
    Ends g.rsectorSearch h.Unloading := by
  refine (dosearchid_ends hs).bind fun r _ => ?_
  cases r with
  | none => exact .ok (hk.setError _).unloading
  | some offset =>
    refine (disktobuffer_ends (h := g.bcr) offset hs).bind fun r hr => ?_
    cases r with
    | none => exact .ok (hk.bcr.bcr.setError _).unloading
    | some g' => exact rsectorUnload_ends (hk.bcr.trans (hr g' rfl)) ((hr g' rfl).2 ▸ hs)

theorem Sane.clear (hp : h.pauses ≠ 0 → h.activecmd.isSome) (hcip : h.status cip = false) : h.Sane where
  pending := hp
  inProgress hc := absurd hc (by rw [hcip]; decide)

theorem Sane.over (hcmd : h.activecmd.isSome) (hcip : h.status cip = false) : h.Sane := .clear (fun _ => hcmd) hcip

theorem Waiting.isSome (hw : h.Waiting) : h.activecmd.isSome := by
  unfold Waiting at hw
  cases hcmd : h.activecmd with
  | none => simp [hcmd] at hw
  | some => rfl

theorem Waiting.sane (hw : h.Waiting) : h.Sane := ⟨fun _ => hw.isSome, fun _ => hw⟩

/-- The controller stays sane, and what a command keeps is kept. -/
def Follows (h h' : Hdd) : Prop := h'.Sane ∧ h.Keeps h'

theorem Keeps.over {g : Hdd} (hk : h.Keeps g) (hcmd : h.activecmd.isSome) (hcip : g.status cip = false) :
    h.Follows g := ⟨.over (hk.1 ▸ hcmd) hcip, hk⟩

theorem Unloading.follows {h' : Hdd} (hu : h.Unloading h') (hcmd : h.activecmd = some .rsector) :
    h.Follows h' := by
  refine ⟨Waiting.sane ?_, hu.1⟩
  rw [Waiting, hu.1.1.trans hcmd]
  exact hu.2.imp_right fun hsel => ⟨hsel.1, .inl hsel.2⟩

theorem finish_over (h : Hdd) : h.finish.status cip = false := by
  rw [finish, status_irqAssert, status_bcr, status_lower_self]

theorem seeking_over (h : Hdd) : h.seeking.status cip = false := by
  rw [seeking, finish_over]

theorem bad_over (h : Hdd) : h.bad.status cip = false := by
  rw [bad, status_irqAssert, status_bcr, status_setError, status_lower_self]

theorem setparams_ends (hs : h.pseldrv.isSome) :
    Ends h.setparams fun h' => h.Keeps h' ∧ h'.status cip = false := by
  refine (selected_ends hs).bind fun ⟨i, d⟩ _ => .ok ⟨?_, ?_⟩
  · refine (((Keeps.lower ?_ (by decide)).lower (by decide)).raise (by decide)).bcr.irqAssert
    exact ⟨rfl, rfl, rfl⟩
  · rw [status_irqAssert, status_bcr, status_raise, status_lower_self]
    decide

/-- A WRITE is done, or waits for its buffer to be filled again. -/
def Filling (h h' : Hdd) : Prop :=
  h.Keeps h' ∧ (h'.status cip → h'.statics.ws = .s4 ∧ h'.pseldrv.isSome)

theorem wsectorFail_over (h : Hdd) : h.wsectorFail.status cip = false := by simp [wsectorFail]

theorem wsectorDone_over (h : Hdd) : h.wsectorDone.status cip = false := by simp [wsectorDone]

theorem Keeps.filling {g : Hdd} (hk : h.Keeps g) : h.Filling g.wsectorFail :=
  ⟨hk.wsectorFail, fun hc => absurd hc (by rw [wsectorFail_over]; decide)⟩

theorem wsectorNext_ends {g : Hdd} (hk : h.Keeps g) (hs : g.pseldrv.isSome) : Ends g.wsectorNext h.Filling := by
  refine Ends.bind (updateposregs_ends (h := g.bcr) hs) fun h' hh' => .ok ?_
  split
  · have hk' := ((hk.bcr.trans hh').raise (b := drq) (by decide)).irqAssert.setWs .s4
    exact ⟨hk', fun _ => ⟨rfl, hk'.2 ▸ hk.2 ▸ hs⟩⟩
  · exact ⟨(hk.bcr.trans hh').wsectorDone, fun hc => absurd hc (by rw [wsectorDone_over]; decide)⟩

theorem wsectorWrite_ends {g : Hdd} (hk : h.Keeps g) (hs : g.status drdy → g.pseldrv.isSome) :
    Ends g.wsectorWrite h.Filling := by
  have hsel : g.doseek.status drdy → g.doseek.pseldrv.isSome := by
    have hk' := (Keeps.refl g).doseek
    rw [hk'.2, hk'.3]
    exact hs
  refine .ite (fun hr => ?_) fun _ => .ok (hk.doseek.setError _).filling
  refine (dosearchid_ends (hsel hr)).bind fun r _ => ?_
  cases r with
  | none => exact .ok (hk.doseek.setError _).filling
  | some offset =>
    refine (buffertodisk_ends (h := g.doseek.bcr) offset (hsel hr)).bind fun r hr' => ?_
    cases r with
    | none => exact .ok (hk.doseek.bcr.bcr.setError _).filling
    | some g' => exact wsectorNext_ends (hk.doseek.bcr.trans (hr' g' rfl)) ((hr' g' rfl).2 ▸ hsel hr)

theorem formatDone_over (h : Hdd) : h.formatDone.status cip = false := by simp [formatDone]

/-! ## Calls of the active command -/

theorem callActive_run {cmd : Cmd} (hcmd : h.activecmd = some cmd) {sig : Signal} :
    h.callActive sig = h.run cmd sig := by
  rw [callActive, hcmd]

theorem rsector_unloaded (hrs : h.statics.rs = .s31) :
    h.rsector .brdy = .ok (((h.lower drq).lower cip).irqDeassert).bcr := by
  simp [rsector, hrs]

/-- The READ that has more to come, once its buffer is unloaded. -/
def resting (h : Hdd) : Hdd :=
  let h := (((h.lower drq).raise busy).irqDeassert).setRs .s32
  { h with pauses := h.pauses + 1 }

theorem Keeps.resting {g : Hdd} (hk : h.Keeps g) : h.Keeps g.resting :=
  have hk := ((hk.lower (b := drq) (by decide)).raise (b := busy) (by decide)).irqDeassert.setRs .s32
  ⟨hk.1, hk.2, hk.3⟩

theorem rsector_resting (hrs : h.statics.rs = .s30) : h.rsector .brdy = .ok h.resting := by
  simp [rsector, hrs, resting]

theorem rsector_rested (hrs : h.statics.rs = .s32) {sig : Signal} (hsig : sig ≠ .start) :
    h.rsector sig = h.rsectorSearch := by
  rw [rsector, if_neg hsig, hrs]

theorem format_filled (hfs : h.statics.fs = .s1) :
    h.format .brdy =
      if (h.doseek.lower drq).status drdy then do
        let (_, d) ← (h.doseek.lower drq).selected
        return if (h.doseek.lower drq).cylinder > d.maxcyl then (h.doseek.lower drq).formatFail
          else (h.doseek.lower drq).formatDone
      else .ok (h.doseek.lower drq).formatFail := by
  simp [format, hfs]

theorem wsector_filled (hws : h.statics.ws = .s1 ∨ h.statics.ws = .s4) :
    h.wsector .brdy = (h.lower drq).wsectorWrite := by
  rcases hws with hws | hws <;> simp [wsector, hws]

/-- A command that is given leaves the controller sane. -/
theorem start_follows {cmd : Cmd} (hcmd : h.activecmd = some cmd) (hr : h.Ready cmd) :
    Ends (h.run cmd .start) h.Follows := by
  have hact : h.activecmd.isSome := by
    rw [hcmd]
    rfl
  have hk := Keeps.refl h
  have hd {b : Byte} (hb : has drq b = false) : (h.raise drq).status b = h.status b := by
    rw [status_raise, hb, Bool.or_false]
  cases cmd with
  | restore | seek | rverify => exact .ok (hk.seeking.over hact (seeking_over h))
  | diagnose => exact .ok ((hk.setError 1).finish.over hact (finish_over _))
  | bad => exact .ok (hk.bad.over hact (bad_over h))
  | setparams => exact (setparams_ends hr).mono fun h' hh' => hh'.1.over hact hh'.2
  | rsector =>
    refine Ends.ite (fun hd => ?_) fun _ => .ok ((hk.doseek.setError _).unloading.follows hcmd)
    rw [hk.doseek.3] at hd
    exact (rsectorSearch_ends hk.doseek (hk.doseek.2 ▸ hr hd)).mono fun h' hh' => hh'.follows hcmd
  | wsector =>
    refine .ok ⟨Waiting.sane ?_, (hk.raise (by decide)).setWs _⟩
    rw [Waiting, show ((h.raise drq).setWs .s1).activecmd = some .wsector from hcmd]
    exact ⟨.inl rfl, fun hdrdy => hr ((hd (by decide)).symm.trans hdrdy)⟩
  | format =>
    refine .ok ⟨Waiting.sane ?_, (hk.bcr.raise (by decide)).setFs _⟩
    rw [Waiting, show ((h.bcr.raise drq).setFs .s1).activecmd = some .format from hcmd]
    exact ⟨rfl, fun hdrdy => hr ((hd (by decide)).symm.trans hdrdy)⟩

/-- The sector buffer is full, or empty: the command in progress goes on. -/
theorem brdy_follows (hw : h.Waiting) : Ends (h.callActive .brdy) h.Follows := by
  have hact := hw.isSome
  have hk := Keeps.refl h
  obtain ⟨cmd, hcmd⟩ := Option.isSome_iff_exists.mp hact
  cases cmd with
  | rsector =>
    simp only [Waiting, hcmd] at hw
    rcases hw with hrs | ⟨hsel, hrs | ⟨hrs, -⟩⟩
    · rw [callActive_run hcmd, run, rsector_unloaded hrs]
      refine .ok (((hk.lower (by decide)).lower (by decide)).irqDeassert.bcr.over hact ?_)
      rw [status_bcr, status_irqDeassert, status_lower_self]
    · rw [callActive_run hcmd, run, rsector_resting hrs]
      refine .ok ⟨Waiting.sane ?_, hk.resting⟩
      rw [Waiting, hk.resting.1, hcmd, hk.resting.2]
      refine .inr ⟨hsel, .inr ⟨rfl, ?_⟩⟩
      change ((h.lower drq).raise busy).irqDeassert.status busy
      rw [status_irqDeassert, status_raise, show has busy busy = true by decide, Bool.or_true]
    · rw [callActive_run hcmd, run, rsector_rested hrs (by decide)]
      exact (rsectorSearch_ends hk hsel).mono fun h' hh' => hh'.follows hcmd
  | wsector =>
    simp only [Waiting, hcmd] at hw
    rw [callActive_run hcmd, run, wsector_filled hw.1]
    have hk' : h.Keeps (h.lower drq) := hk.lower (by decide)
    refine (wsectorWrite_ends hk' (hk'.3 ▸ hk'.2 ▸ hw.2)).mono fun h' hh' => ?_
    refine ⟨⟨fun _ => hh'.1.1 ▸ hact, fun hc => ?_⟩, hh'.1⟩
    rw [Waiting, hh'.1.1, hcmd]
    exact ⟨.inr (hh'.2 hc).1, fun _ => (hh'.2 hc).2⟩
  | format =>
    simp only [Waiting, hcmd] at hw
    have hk' : h.Keeps (h.doseek.lower drq) := hk.doseek.lower (by decide)
    rw [callActive_run hcmd, run, format_filled hw.1]
    refine .ite (fun hd => ?_) fun _ => .ok (hk'.formatFail.over hact (formatDone_over _))
    refine (selected_ends (hk'.2 ▸ hw.2 (hk'.3 ▸ hd))).bind fun ⟨_, d⟩ _ => .ok ?_
    split
    · exact hk'.formatFail.over hact (formatDone_over _)
    · exact hk'.formatDone.over hact (formatDone_over _)
  | restore | seek | rverify | diagnose | bad | setparams => simp [Waiting, hcmd] at hw

/-- A poll, or a pause, that the command in progress does not wait for. -/
theorem callActive_idle (hw : h.Waiting) (hrs : ¬(h.activecmd = some .rsector ∧ h.statics.rs = .s32)) :
    h.callActive .continue = .ok h := by
  unfold callActive
  unfold Waiting at hw
  cases hcmd : h.activecmd with
  | none => simp [hcmd] at hw
  | some cmd =>
    cases cmd with
    | rsector =>
      simp only [hcmd] at hw hrs
      rcases hw with h31 | ⟨-, h30 | ⟨h32, -⟩⟩
      · simp [run, rsector, h31]
      · simp [run, rsector, h30]
      · exact absurd ⟨trivial, h32⟩ hrs
    | wsector =>
      simp only [hcmd] at hw
      rcases hw.1 with h1 | h4
      · simp [run, wsector, h1]
      · simp [run, wsector, h4]
    | format =>
      simp only [hcmd] at hw
      simp [run, format, hw.1]
    | restore | seek | rverify | diagnose | bad | setparams => simp [hcmd] at hw

/-- A pause that it does wait for. -/
theorem callActive_rested (hw : h.Waiting) (hcmd : h.activecmd = some .rsector) (hrs : h.statics.rs = .s32) :
    Ends (h.callActive .continue) h.Follows := by
  simp only [Waiting, hcmd, hrs] at hw
  have hsel : h.pseldrv.isSome := by
    rcases hw with hw | ⟨hsel, -⟩
    · cases hw
    · exact hsel
  rw [callActive_run hcmd, run, rsector_rested hrs (by decide)]
  exact (rsectorSearch_ends (.refl h) hsel).mono fun h' hh' => hh'.follows hcmd

/-! ## Calls of a finished command -/

namespace Same

variable {g : Hdd}

theorem refl (h : Hdd) : h.Same h := ⟨rfl, rfl, rfl, rfl⟩

theorem raise (hs : h.Same g) (bits : Byte) : h.Same (g.raise bits) := ⟨hs.1, hs.2, hs.3, hs.4⟩
theorem lower (hs : h.Same g) (bits : Byte) : h.Same (g.lower bits) := ⟨hs.1, hs.2, hs.3, hs.4⟩
theorem setError (hs : h.Same g) (v : Byte) : h.Same (g.setError v) := ⟨hs.1, hs.2, hs.3, hs.4⟩
theorem bcr (hs : h.Same g) : h.Same g.bcr := ⟨hs.1, hs.2, hs.3, hs.4⟩
theorem setRs (hs : h.Same g) (s : ReadS) : h.Same (g.setRs s) := ⟨hs.1, hs.2, hs.3, hs.4⟩
theorem setWs (hs : h.Same g) (s : WriteS) : h.Same (g.setWs s) := ⟨hs.1, hs.2, hs.3, hs.4⟩
theorem setFs (hs : h.Same g) (s : FormatS) : h.Same (g.setFs s) := ⟨hs.1, hs.2, hs.3, hs.4⟩

theorem irqAssert (hs : h.Same g) (hq : g.quiet) : h.Same g.irqAssert := by
  rw [irqAssert_eq, if_pos hq]
  exact ⟨hs.1, hs.2, hs.3, hs.4⟩

theorem irqDeassert (hs : h.Same g) : h.Same g.irqDeassert := by
  rw [irqDeassert_eq]
  exact ⟨hs.1, hs.2, hs.3, hs.4⟩

theorem doseek (hs : h.Same g) : h.Same g.doseek := by
  rw [doseek_eq]
  exact ⟨hs.1, hs.2, hs.3, hs.4⟩

theorem finish (hs : h.Same g) (hq : g.quiet) : h.Same g.finish :=
  ((hs.lower busy).lower cip).bcr.irqAssert hq

theorem seeking (hs : h.Same g) (hq : g.quiet) : h.Same g.seeking := by
  have hq' : g.doseek.quiet := by
    rw [doseek_eq]
    exact hq
  dsimp only [Hdd.seeking]
  split
  · exact hs.doseek.finish hq'
  · exact ((hs.doseek.raise err).setError abort).finish hq'

theorem bad (hs : h.Same g) (hq : g.quiet) : h.Same g.bad := by
  refine ((((hs.raise err).lower busy).lower cip).setError abort).bcr.irqAssert ?_
  cases g
  exact hq

theorem resting (hs : h.Same g) : h.Same g.resting :=
  have hs := (((hs.lower drq).raise busy).irqDeassert).setRs .s32
  ⟨hs.1, hs.2, hs.3, hs.4⟩

theorem wsectorFail (hs : h.Same g) (hq : g.quiet) : h.Same g.wsectorFail := by
  refine ((((hs.raise err).lower busy).lower cip).irqAssert ?_).bcr.setWs .s10
  cases g
  exact hq

theorem wsectorDone (hs : h.Same g) (hq : g.quiet) : h.Same g.wsectorDone :=
  (((hs.lower busy).lower cip).irqAssert hq).bcr.setWs .s11

theorem formatDone (hs : h.Same g) (hq : g.quiet) : h.Same g.formatDone :=
  (((hs.irqAssert hq).lower busy).lower cip).bcr.setFs .s3

end Same

theorem setparams_same {i : Fin 2} (hq : h.quiet) (hi : h.pseldrv = some i)
    (hp : h.parameters (h.drives i) = h.drives i) :
    Ends h.setparams fun h' => (h.Keeps h' ∧ h'.status cip = false) ∧ h.Same h' := by
  have hsel : h.selected = .ok (i, h.drives i) := by rw [selected, hi]
  refine (setparams_ends (by rw [hi]; rfl)).and_yields fun h' hh' => ?_
  rw [setparams, hsel] at hh'
  cases hh'
  have hset : h.Same { h with drives := Function.update h.drives i (h.parameters (h.drives i)) } :=
    ⟨rfl, by rw [hp, Function.update_eq_self], rfl, rfl⟩
  exact (((hset.lower busy).lower cip).raise seekComplete).bcr.irqAssert hq

/-- Sane, and nothing moved. -/
def Settled (h h' : Hdd) : Prop := h.Same h' ∧ h.Follows h'

/-- **A finished command that is inert does nothing when it is called.** -/
theorem callActive_settled {sig : Signal} (hsig : sig ≠ .start) (hact : h.activecmd.isSome)
    (hover : h.status cip = false) (hi : h.inert sig) : Ends (h.callActive sig) h.Settled := by
  have hk := Keeps.refl h
  have hs := Same.refl h
  have hself : h.Settled h := ⟨hs, hk.over hact hover⟩
  obtain ⟨cmd, hcmd⟩ := Option.isSome_iff_exists.mp hact
  rw [callActive_run hcmd]
  cases cmd with
  | restore | seek | rverify =>
    simp only [inert, hcmd] at hi
    exact .ok ⟨hs.seeking hi, hk.seeking.over hact (seeking_over h)⟩
  | diagnose =>
    simp only [inert, hcmd] at hi
    exact .ok ⟨(hs.setError 1).finish hi, (hk.setError 1).finish.over hact (finish_over _)⟩
  | bad =>
    simp only [inert, hcmd] at hi
    exact .ok ⟨hs.bad hi, hk.bad.over hact (bad_over h)⟩
  | setparams =>
    simp only [inert, hcmd, Bool.and_eq_true] at hi
    obtain ⟨hq, hp⟩ := hi
    cases hsel : h.pseldrv with
    | none => simp [hsel] at hp
    | some i =>
      rw [hsel, Option.any_some, decide_eq_true_eq] at hp
      exact (setparams_same hq hsel hp).mono fun h' hh' => ⟨hh'.2, hh'.1.1.over hact hh'.1.2⟩
  | rsector =>
    simp only [inert, hcmd, Bool.or_eq_true, decide_eq_true_eq] at hi
    cases sig with
    | start => exact absurd rfl hsig
    | «continue» =>
      have hidle : h.rsector .continue = .ok h := by
        rcases hi with hi | hi <;> simp [rsector, hi]
      rw [run, hidle]
      exact .ok hself
    | brdy =>
      rcases hi with hi | hi
      · rw [run, rsector_resting hi]
        refine .ok ⟨hs.resting, hk.resting.over hact ?_⟩
        change ((h.lower drq).raise busy).irqDeassert.status cip = false
        rw [status_irqDeassert, status_raise, status_lower _ (by decide), hover]
        decide
      · rw [run, rsector_unloaded hi]
        refine .ok ⟨((hs.lower drq).lower cip).irqDeassert.bcr,
          ((hk.lower (by decide)).lower (by decide)).irqDeassert.bcr.over hact ?_⟩
        rw [status_bcr, status_irqDeassert, status_lower_self]
  | wsector =>
    simp only [inert, hcmd, Bool.or_eq_true, Bool.and_eq_true, decide_eq_true_eq] at hi
    rcases hi with ⟨rfl, hi⟩ | ⟨hq, hi | hi⟩
    · have hidle : h.wsector .continue = .ok h := by
        rcases hi with hi | hi <;> simp [wsector, hi]
      rw [run, hidle]
      exact .ok hself
    · rw [run, wsector, if_neg hsig, hi]
      exact .ok ⟨hs.wsectorFail hq, hk.wsectorFail.over hact (wsectorFail_over h)⟩
    · rw [run, wsector, if_neg hsig, hi]
      exact .ok ⟨hs.wsectorDone hq, hk.wsectorDone.over hact (wsectorDone_over h)⟩
  | format =>
    simp only [inert, hcmd, Bool.or_eq_true, Bool.and_eq_true, decide_eq_true_eq] at hi
    rcases hi with ⟨rfl, hi⟩ | ⟨hq, hi⟩
    · have hidle : h.format .continue = .ok h := by simp [format, hi]
      rw [run, hidle]
      exact .ok hself
    · rw [run, format, if_neg hsig, hi]
      exact .ok ⟨hs.formatDone hq, hk.formatDone.over hact (formatDone_over h)⟩

/-! ## Steps -/

theorem Sane.irqDeassert (hs : h.Sane) : h.irqDeassert.Sane := by
  rw [irqDeassert_eq]
  exact ⟨hs.1, hs.2⟩

theorem Settled.irqDeassert {g : Hdd} (hs : h.Settled g) : h.Settled g.irqDeassert :=
  ⟨hs.1.irqDeassert, hs.2.1.irqDeassert, hs.2.2.irqDeassert⟩

theorem Settled.see {g : Hdd} (hs : h.Settled g) (s : Seen) : h.Settled (g.see s) :=
  ⟨⟨hs.1.1, hs.1.2, hs.1.3, hs.1.4⟩, ⟨hs.2.1.1, hs.2.1.2⟩, ⟨hs.2.2.1, hs.2.2.2, hs.2.2.3⟩⟩

theorem Sane.settled (hs : h.Sane) : h.Settled h := ⟨.refl h, hs, .refl h⟩

/-- While the controller is not busy, a poll changes nothing. -/
theorem wd2010Read_settled (hs : h.Sane) (hbusy : h.status busy = false) (r : Reg) :
    Ends (h.wd2010Read r) h.Settled := by
  have hpolled {g : Hdd} (hg : h.Settled g) (hgb : g.status busy = false) :
      Ends (if g.status cip then do
          let g ← g.callActive .continue
          return g.see (.byte (g.reg r))
        else do
          let g ← Except.ok g
          return g.see (.byte (g.reg r))) h.Settled := by
    refine .ite (fun hc => ?_) fun _ => .ok (hg.see _)
    have hw := hg.2.1.inProgress hc
    rw [callActive_idle hw]
    · exact .ok (hg.see _)
    · intro ⟨hcmd, hrs⟩
      simp only [Waiting, hcmd, hrs, hgb] at hw
      rcases hw with hw | ⟨-, hw | ⟨-, hw⟩⟩ <;> cases hw
  dsimp only [wd2010Read]
  split
  · exact hpolled hs.settled.irqDeassert (by rw [status_irqDeassert, hbusy])
  · exact hpolled hs.settled hbusy

theorem fdiskInb_settled (hs : h.Sane) (port : BitVec 16) : Ends (h.fdiskInb port) h.Settled := by
  refine .ite (fun _ => .ok ?_) fun hbusy => ?_
  · split
    · exact hs.settled.irqDeassert.see _
    · exact hs.settled.see _
  · cases readReg port with
    | none => exact .ok hs.settled
    | some r => exact wd2010Read_settled hs (by simpa using hbusy) r

/-- The 256th word is for the command in progress, or for an inert one. -/
theorem advance_follows (hs : h.Sane) (ho : h.sectindx + 1 = 0 → h.status cip ∨ h.inert .brdy) :
    Ends h.advance fun h' => h.Follows h' ∧ (h.status cip = false → h.Same h') := by
  have hs' : { h with sectindx := h.sectindx + 1 }.Sane := ⟨hs.1, hs.2⟩
  refine .ite (fun hfull => ?_) fun _ => .ok ⟨⟨hs', rfl, rfl, rfl⟩, fun _ => ⟨rfl, rfl, rfl, rfl⟩⟩
  have hback {h' : Hdd} (hf : { h with sectindx := h.sectindx + 1 }.Follows h') : h.Follows h' :=
    ⟨hf.1, hf.2.1, hf.2.2, hf.2.3⟩
  cases hc : h.status cip with
  | true => exact (brdy_follows (hs'.inProgress hc)).mono fun h' hh' => ⟨hback hh', nofun⟩
  | false =>
    have hi : h.inert .brdy := (ho hfull.1).resolve_left (by rw [hc]; decide)
    have hset := callActive_settled (h := { h with sectindx := h.sectindx + 1 }) (by decide) hfull.2 hc hi
    exact hset.mono fun h' hh' => ⟨hback hh'.2, fun _ => ⟨hh'.1.1, hh'.1.2, hh'.1.3, hh'.1.4⟩⟩

theorem word_follows {g : Hdd} (hs : h.Settled g) (hc : g.status cip = h.status cip)
    (ho : g.sectindx + 1 = 0 → g.status cip ∨ g.inert .brdy) :
    Ends g.advance fun h' => h.Follows h' ∧ (¬h.status cip → h.Same h') := by
  refine (advance_follows hs.2.1 ho).mono fun h' hh' => ⟨⟨hh'.1.1, hs.2.2.trans hh'.1.2⟩, fun ha => ?_⟩
  have hsame := hh'.2 (by simpa [hc] using ha)
  exact ⟨hsame.1.trans hs.1.1, hsame.2.trans hs.1.2, hsame.3.trans hs.1.3, hsame.4.trans hs.1.4⟩

theorem fdiskPause_follows (hs : h.Sane) (ho : h.Orderly .pause) :
    EndsUnless (· = .outOfTurn) h.fdiskPause fun h' => h.Follows h' ∧ (¬h.Awaits .pause → h.Same h') := by
  unfold fdiskPause
  cases hp : h.pauses with
  | zero => exact .error rfl
  | succ n =>
    have hcmd : h.activecmd.isSome := hs.pending (by omega)
    have hback {h' : Hdd} (hf : { h with pauses := n }.Follows h') : h.Follows h' :=
      ⟨hf.1, hf.2.1, hf.2.2, hf.2.3⟩
    dsimp only
    refine Ends.unless ?_
    cases hc : h.status cip with
    | false =>
      have hi : h.inert .continue := ho.resolve_left (by rw [hc]; decide)
      have hset := callActive_settled (h := { h with pauses := n }) (by decide) hcmd hc hi
      exact hset.mono fun h' hh' => ⟨hback hh'.2, fun _ => ⟨hh'.1.1, hh'.1.2, hh'.1.3, hh'.1.4⟩⟩
    | true =>
      have hw : { h with pauses := n }.Waiting := hs.inProgress hc
      by_cases hr : h.activecmd = some .rsector ∧ h.statics.rs = .s32
      · exact (callActive_rested hw hr.1 hr.2).mono fun h' hh' => ⟨hback hh', fun ha => absurd ⟨hc, hr⟩ ha⟩
      · rw [callActive_idle hw hr]
        exact .ok ⟨⟨⟨fun _ => hcmd, fun _ => hw⟩, rfl, rfl, rfl⟩, fun _ => ⟨rfl, rfl, rfl, rfl⟩⟩

/-- `DRDY` is not set while no drive is selected. -/
def Selected (h : Hdd) : Prop := h.status drdy → h.pseldrv.isSome

instance : Decidable h.Selected := inferInstanceAs (Decidable (_ → _))

theorem Keeps.selected {h' : Hdd} (hk : h.Keeps h') (hs : h.Selected) : h'.Selected := by
  rw [Selected, hk.3, hk.2]
  exact hs

theorem command_sane {v : Byte} (hr : h.Ready (decode v)) :
    Ends (h.command v) fun h' => h'.Sane ∧ (h.Selected → h'.Selected) := by
  have hsel : ((h.setReg v .cmd).irqDeassert).pseldrv = h.pseldrv := by
    rw [irqDeassert_eq]
    rfl
  have hstat : ((h.setReg v .cmd).irqDeassert).taskfile.stat = h.taskfile.stat := by
    rw [irqDeassert_eq]
    rfl
  have hd : has (cip ||| busy ||| (((h.setReg v .cmd).irqDeassert).taskfile.stat &&& drdy)) drdy
      = h.status drdy := by
    rw [hstat, has_or, show has (cip ||| busy) drdy = false by decide, Bool.false_or, status, has_eq, has_eq,
      BitVec.and_assoc, BitVec.and_self]
  unfold command
  refine (start_follows rfl ?_).mono fun h' hh' => ⟨hh'.1, fun hs => hh'.2.selected fun hd' => ?_⟩
  · cases hcmd : decode v with
    | rsector | wsector | format =>
      rw [hcmd] at hr
      exact fun hd' => hsel ▸ hr (hd ▸ hd')
    | setparams =>
      rw [hcmd] at hr
      exact hsel ▸ hr
    | restore | seek | rverify | diagnose | bad => trivial
  · exact hsel ▸ hs (hd ▸ hd')

theorem select_sane (hs : h.Sane) (hc : h.status cip = false) (v : Byte) :
    (h.select v).Sane ∧ (h.select v).Selected := by
  dsimp only [select]
  split
  · refine ⟨.clear hs.pending ?_, fun _ => rfl⟩
    rw [status_raise, show has drdy cip = false by decide, Bool.or_false]
    exact hc
  · refine ⟨.clear hs.pending ?_, fun hd => absurd hd ?_⟩
    · rw [status_lower _ (by decide)]
      exact hc
    · rw [status_lower_self]
      decide

theorem wd2010Write_sane (hs : h.Sane) {r : Reg} (hr : r ≠ .stat) {v : Byte}
    (ho : r = .cmd → h.Ready (decode v)) :
    Ends (h.wd2010Write r v) fun h' => h'.Sane ∧ (h.Selected → h'.Selected) := by
  refine .ite (fun _ => .ok ⟨hs, id⟩) fun hc => ?_
  cases r with
  | cmd => exact command_sane (ho rfl)
  | drvhd => exact .ok ((select_sane hs (by simpa using hc) v).imp_right fun hsel _ => hsel)
  | stat => exact absurd rfl hr
  | error | scount | snum | cyllo | cylhi | pcmp => exact .ok ⟨⟨hs.1, hs.2⟩, id⟩

theorem writeReg_ne_stat (port : BitVec 16) : writeReg port ≠ some .stat := by
  unfold writeReg
  split <;> simp

theorem fixedDisk_sane (hs : h.Sane) (v : Byte) : (h.fixedDisk v).Sane := by
  dsimp only [fixedDisk]
  split
  · exact .clear (by split <;> exact hs.pending) (by simp only [setStat, status]; decide)
  · split
    · exact .clear hs.pending (by simp only [status]; decide)
    · exact ⟨hs.1, hs.2⟩

theorem fdiskReset_sane (hs : h.Sane) : h.fdiskReset.Sane := by
  refine .clear hs.pending ?_
  simp only [fdiskReset, bcr, status]
  split <;> decide

/-- A step that is no reset that sets `DRDY` while no drive is selected. -/
def Owned (h : Hdd) : Op → Prop
  | .outb port v => port = 0x3f6 → has h.fixeddiskreg 4 → ¬has v 4 → h.pseldrv.isSome
  | .reset => (h.drives 0).wiredup → h.pseldrv.isSome
  | _ => True

instance (h : Hdd) (op : Op) : Decidable (h.Owned op) := by
  cases op <;> unfold Owned <;> infer_instance

theorem fixedDisk_selected {v : Byte} (ho : has h.fixeddiskreg 4 → ¬has v 4 → h.pseldrv.isSome)
    (hs : h.Selected) : (h.fixedDisk v).Selected := by
  dsimp only [fixedDisk]
  split
  · intro hd
    exact absurd hd (by simp only [setStat, status]; decide)
  · rename_i hv
    split
    · rename_i hf
      rw [Bool.and_eq_true] at hf
      exact fun _ => ho hf.1 hv
    · exact hs

theorem fdiskReset_selected (ho : (h.drives 0).wiredup → h.pseldrv.isSome) : h.fdiskReset.Selected := by
  intro hd
  by_cases hw : (h.drives 0).wiredup
  · exact ho hw
  · simp only [fdiskReset, bcr, status, hw] at hd
    exact absurd hd (by decide)

/-- **One step**: it does not stop, keeps the invariant, and if it is a pause, a poll or an access to the
data port that no command waits for, it moves nothing and raises no interrupt. -/
theorem step_sane (hs : h.Sane) {op : Op} (ho : h.Orderly op) :
    EndsUnless (· = .outOfTurn) (h.step op) fun h' => h'.Sane ∧ (op.stirs → ¬h.Awaits op → h.Same h') ∧
      (h.Owned op → h.Selected → h'.Selected) := by
  cases op with
  | inb port =>
    exact ((fdiskInb_settled hs port).mono fun h' hh' => ⟨hh'.2.1, fun _ _ => hh'.1, fun _ => hh'.2.2.selected⟩).unless
  | inw port =>
    refine Ends.unless (.ite (fun hp => ?_) fun _ => .ok ⟨hs, fun _ _ => .refl h, fun _ => id⟩)
    refine (word_follows (hs.settled.see (.word (h.sectbuffer h.sectindx))) rfl fun hfull => ho ⟨hp, hfull⟩).mono ?_
    exact fun h' hh' => ⟨hh'.1.1, fun _ => hh'.2, fun _ => hh'.1.2.selected⟩
  | outw port v =>
    refine Ends.unless (.ite (fun hp => ?_) fun _ => .ok ⟨hs, fun _ _ => .refl h, fun _ => id⟩)
    have hset : h.Settled { h with sectbuffer := Function.update h.sectbuffer h.sectindx v } :=
      ⟨⟨rfl, rfl, rfl, rfl⟩, ⟨hs.1, hs.2⟩, ⟨rfl, rfl, rfl⟩⟩
    refine (word_follows hset rfl fun hfull => ho ⟨hp, hfull⟩).mono ?_
    exact fun h' hh' => ⟨hh'.1.1, fun _ => hh'.2, fun _ => hh'.1.2.selected⟩
  | outb port v =>
    refine Ends.unless (.ite (fun hp => ?_) fun _ => ?_)
    · exact .ok ⟨fixedDisk_sane hs v, nofun, fun ho => fixedDisk_selected (ho hp)⟩
    · cases hr : writeReg port with
      | none => exact .ok ⟨hs, nofun, fun _ => id⟩
      | some r =>
        have hne : r ≠ .stat := fun hr' => writeReg_ne_stat port (hr.trans (congrArg some hr'))
        exact (wd2010Write_sane hs hne fun hcmd => ho (hr.trans (congrArg some hcmd))).mono
          fun h' hh' => ⟨hh'.1, nofun, fun _ => hh'.2⟩
  | pause => exact (fdiskPause_follows hs ho).mono fun h' hh' => ⟨hh'.1.1, fun _ => hh'.2, fun _ => hh'.1.2.selected⟩
  | interrupt =>
    change EndsUnless _ h.diskIntCallBack _
    unfold diskIntCallBack
    cases h.interrupts with
    | zero => exact .error rfl
    | succ n => exact .ok ⟨⟨hs.1, hs.2⟩, nofun, fun _ => id⟩
  | reset => exact .ok ⟨fdiskReset_sane hs, nofun, fun ho _ => fdiskReset_selected ho⟩

/-! ## Runs -/

theorem hdaInit_sane (media : Fin 2 → Option Image) : (hdaInit media).Sane :=
  fdiskReset_sane (.clear (fun hp => absurd rfl hp) (by simp only [status]; decide))

theorem hdaInit_selected {media : Fin 2 → Option Image} (hm : media 0 = none) : (hdaInit media).Selected := by
  refine fdiskReset_selected fun hw => absurd hw ?_
  change ¬(Drive.attach (media 0)).wiredup = true
  rw [hm]
  exact Bool.false_ne_true

end Hdd

open Hdd

/-- A run, its last state, and what one more step makes of it. -/
@[irreducible] def trace (media : Fin 2 → Option Image) (ops : List Op) (op : Op) : Except Stop (Hdd × Hdd) := do
  let h ← ops.foldlM step (hdaInit media)
  let h' ← h.step op
  return (h, h')

/-- A step moves nothing on behalf of a command that is over. -/
def Quiet (op : Op) (h h' : Hdd) : Prop := op.stirs → ¬h.Awaits op → h.Same h'

/-- The invariant along a run, and what the run's further step is to meet. -/
theorem run_sane (media : Fin 2 → Option Image) {ops : List Op} {op : Op}
    (hops : Meets step Orderly (hdaInit media) (ops ++ [op])) :
    EndsUnless (· = .outOfTurn) (ops.foldlM step (hdaInit media)) fun h => h.Sane ∧ h.Orderly op := by
  obtain ⟨hbefore, hlast⟩ := hops.append
  have hsane := hbefore.endsUnless_foldlM (I := Sane)
    (fun _ _ hs ho => (step_sane hs ho).mono fun _ hh' => hh'.1) (hdaInit_sane media)
  exact hsane.and_yields (hlast.mono fun _ hm => hm.1)

/-- A machine with no first drive never has a drive ready that is not selected, if no reset sets `DRDY`
so. -/
theorem run_selected {media : Fin 2 → Option Image} {ops : List Op} (hm : media 0 = none)
    (hops : Meets step Orderly (hdaInit media) ops) (hown : Meets step Owned (hdaInit media) ops) :
    EndsUnless (· = .outOfTurn) (ops.foldlM step (hdaInit media)) Selected := by
  refine ((hops.and hown).endsUnless_foldlM (I := fun h => h.Sane ∧ h.Selected) (fun _ _ hs ho => ?_)
    ⟨hdaInit_sane media, hdaInit_selected hm⟩).mono fun _ hh => hh.2
  exact (step_sane hs.1 ho.1).mono fun _ hh' => ⟨hh'.1, hh'.2.2 ho.2 hs.2⟩

/-- **The controller is safe, and finished commands stay finished**, in every run from `hda_init` in which
no command is given to no drive, and no finished command that would act is called by a pause or by the
256th data word.  That `DRDY` is not set while no drive is selected takes more: no first drive, and no
reset that sets it so. -/
theorem commands_stay_finished (media : Fin 2 → Option Image) {ops : List Op} {op : Op}
    (hops : Meets step Orderly (hdaInit media) (ops ++ [op])) :
    EndsUnless (· = .outOfTurn) (trace media ops op) fun (h, h') => Quiet op h h' ∧
      (media 0 = none → Meets step Owned (hdaInit media) ops → h.Selected) := by
  have hsel : Yields (ops.foldlM step (hdaInit media)) fun h =>
      media 0 = none → Meets step Owned (hdaInit media) ops → h.Selected :=
    fun h hh hm hown => (run_selected hm hops.append.1 hown).of_eq hh
  unfold trace
  refine ((run_sane media hops).and_yields hsel).bind fun h hh => ?_
  exact (step_sane hh.1.1 hh.1.2).bind fun h' hh' => .ok ⟨hh'.2.1, hh.2⟩

/-- A sector of words that name it, and an image of them. -/
def numbered (n : ℕ) : Sector := fun i => .ofNat 16 (n * 256 + i.toNat)

def Image.ofSize (totalSectors : ℕ) : Image := { totalSectors, sectors := numbered }

/-- One drive, of a cylinder. -/
def oneDrive : Fin 2 → Option Image := fun i => if i = 0 then some (Image.ofSize 1008) else none

/-- A drive is selected, and a command given at a position. -/
def give (cmd scount snum drvhd : Byte) : List Op :=
  [.outb 0x1f6 drvhd, .outb 0x1f2 scount, .outb 0x1f3 snum, .outb 0x1f7 cmd]

def unload : List Op := List.replicate 256 (.inw 0x1f0)

/-- Two sectors are read, and the controller is reset. -/
def readTwo : List Op :=
  give 0x20 2 1 0xa0 ++ unload ++ [.inb 0x1f7, .pause] ++ unload ++ [.outb 0x3f6 4, .outb 0x3f6 0]

theorem commands_stay_finished_read :
    EndsUnless (· = .outOfTurn) (trace oneDrive readTwo (.inb 0x1f7)) fun (h, h') =>
      Quiet (.inb 0x1f7) h h' ∧ (oneDrive 0 = none → Meets step Owned (hdaInit oneDrive) readTwo → h.Selected) :=
  commands_stay_finished oneDrive (by decide +kernel)

/-- A step that no command waits for, and an interrupt or a new position after it. -/
def Moved (op : Op) (r : Hdd × Hdd) : Prop :=
  op.stirs ∧ ¬r.1.status cip ∧ (r.2.interrupts ≠ r.1.interrupts ∨ r.2.position ≠ r.1.position)

instance (op : Op) : DecidablePred (Moved op) := fun _ => inferInstanceAs (Decidable (_ ∧ _ ∧ _))

theorem Moved.not_quiet {op : Op} {r : Hdd × Hdd} (hr : Moved op r) : ¬Quiet op r.1 r.2 := by
  obtain ⟨hop, hc, hmoved⟩ := hr
  intro hq
  have hs : r.1.Same r.2 := hq hop (by
    cases op with
    | inw | outw => exact hc
    | pause => exact fun ha => hc ha.1
    | inb | outb | interrupt | reset => exact id)
  exact hmoved.elim (absurd hs.interrupts) (absurd hs.position)

/-- Each thing the code does not do: a READ before any drive was selected, and SET PARAMETERS to a drive
that is not there, dereference null, `DRDY` being set from the start; a SEEK that is over interrupts again
with the 256th word; and a READ goes on after a reset when the pause is over. -/
theorem commands_not_finished :
    trace oneDrive [] (.outb 0x1f7 0x20) = .error .noDrive ∧
    trace oneDrive [.outb 0x1f6 0xb0] (.outb 0x1f7 0x91) = .error .noDrive ∧
    ¬(hdaInit oneDrive).Selected ∧
    Ends (trace oneDrive (give 0x70 1 1 0xa0 ++ [.inb 0x1f7] ++ List.replicate 255 (.inw 0x1f0)) (.inw 0x1f0))
      (fun r => ¬Quiet (.inw 0x1f0) r.1 r.2) ∧
    Ends (trace oneDrive (give 0x20 3 1 0xa0 ++ unload ++ [.outb 0x3f6 4, .outb 0x3f6 0]) .pause)
      (fun r => ¬Quiet .pause r.1 r.2) := by
  have hmoved {ops : List Op} {op : Op} (h : Ends (trace oneDrive ops op) (Moved op)) :
      Ends (trace oneDrive ops op) fun r => ¬Quiet op r.1 r.2 := h.mono fun _ => Moved.not_quiet
  refine ⟨?_, ?_, by decide +kernel, hmoved (by decide +kernel), hmoved (by decide +kernel)⟩
  · rw [trace]
    rfl
  · rw [trace]
    rfl

end SoftPC.Fdisk
