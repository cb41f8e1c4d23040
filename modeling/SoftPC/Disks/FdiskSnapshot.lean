import SoftPC.Disks.FdiskSafety

/-!
# Disks/FdiskSnapshot — what a snapshot of the controller leaves out

    h ──capture──▸ registers, buffer, drives, command ──restore──▸ target
    └── rs, ws, fs, intrq ──▸ (not saved)          (kept) ◂── rs, ws, fs, intrq

The static variables of the command functions and of the interrupt line are not part of the snapshot: what
is restored is the controller with the target's (`restored_eq`).  A controller is `Like` another with other
statics as long as the line is the same and so is the place of the active command; then nothing that comes
later tells them apart (`snapshot_resumes`).
-/

namespace SoftPC.Fdisk

open Hdd

/-! ## The snapshot -/

/-- `softpc_device_hdd_state`. -/
structure SavedHdd where
  drive : Fin 2 → Drive
  taskfile : TaskFile
  sector : Sector
  fixedDiskRegister : Byte
  digitalInputRegister : Byte
  sectorIndex : BitVec 8
  selectedDrive : ℤ
  activeCommand : ℤ

/-- `snapshot_encode_active_command`. -/
def encodeActiveCommand : Option Cmd → ℤ
  | none => 0
  | some .restore => 1
  | some .seek => 2
  | some .rsector => 3
  | some .wsector => 4
  | some .format => 5
  | some .rverify => 6
  | some .diagnose => 7
  | some .setparams => 8
  | some .bad => 9

/-- `snapshot_decode_active_command`. -/
def decodeActiveCommand (command : ℤ) : Option Cmd :=
  if command = 1 then some .restore
  else if command = 2 then some .seek
  else if command = 3 then some .rsector
  else if command = 4 then some .wsector
  else if command = 5 then some .format
  else if command = 6 then some .rverify
  else if command = 7 then some .diagnose
  else if command = 8 then some .setparams
  else if command = 9 then some .bad
  else none

namespace Hdd

/-- `softpc_device_snapshot_capture_hdd`; `none` is `FALSE`. -/
def captureHdd (h : Hdd) : Option SavedHdd :=
  let selectedDrive : ℤ := match h.pseldrv with
    | none => -1
    | some i => i.val
  let state : SavedHdd :=
    { drive := h.drives, taskfile := h.taskfile, sector := h.sectbuffer, fixedDiskRegister := h.fixeddiskreg
      digitalInputRegister := h.digipreg, sectorIndex := h.sectindx, selectedDrive
      activeCommand := encodeActiveCommand h.activecmd }
  if state.selectedDrive ≠ -2 ∧ state.activeCommand ≥ 0 then some state else none

/-- `softpc_device_snapshot_restore_hdd`, into a controller; `none` is `FALSE`. -/
def restoreHdd (target : Hdd) (state : SavedHdd) : Option Hdd :=
  let command := decodeActiveCommand state.activeCommand
  if state.selectedDrive < -1 ∨ state.selectedDrive ≥ 2 ∨ state.activeCommand < 0 ∨
      command = none ∧ state.activeCommand ≠ 0 then none
  else some { target with
    drives := state.drive, taskfile := state.taskfile, sectbuffer := state.sector
    fixeddiskreg := state.fixedDiskRegister, digipreg := state.digitalInputRegister
    sectindx := state.sectorIndex
    pseldrv := if state.selectedDrive < 0 then none else some (.ofNat 2 state.selectedDrive.toNat)
    activecmd := command }

/-- The events and the media of another controller, of which nothing has been seen yet. -/
def resumed (r h : Hdd) : Hdd :=
  { r with media := h.media, pauses := h.pauses, interrupts := h.interrupts, seen := [] }

end Hdd

/-- What is seen of a controller, and what its media hold. -/
def observed (r : Except Stop Hdd) : Except Stop (List Seen × (Fin 2 → Option Image)) :=
  r.map fun h => (h.seen, h.media)

theorem decode_encode (cmd : Option Cmd) : decodeActiveCommand (encodeActiveCommand cmd) = cmd := by
  rcases cmd with _ | cmd
  · rfl
  · cases cmd <;> rfl

/-- **What is restored** is the controller with the target's statics. -/
theorem restored_eq (h target : Hdd) : ∃ state r, h.captureHdd = some state ∧ target.restoreHdd state = some r ∧
    r.resumed h = { h with statics := target.statics, seen := [] } := by
  have hcommand : encodeActiveCommand h.activecmd ≥ 0 := by
    rcases h.activecmd with _ | cmd
    · decide
    · cases cmd <;> decide
  have hfalse : ¬(decodeActiveCommand (encodeActiveCommand h.activecmd) = none ∧
      encodeActiveCommand h.activecmd ≠ 0) := by
    rw [decode_encode]
    intro hc
    rw [hc.1] at hc
    exact hc.2 rfl
  cases hsel : h.pseldrv with
  | none =>
    refine ⟨_, _, if_pos ⟨by rw [hsel]; dsimp only; omega, hcommand⟩, if_neg ?_, ?_⟩
    · rw [hsel]
      rintro (hc | hc | hc | hc)
      · dsimp only at hc
        omega
      · dsimp only at hc
        omega
      · exact absurd hc (not_lt.mpr hcommand)
      · exact hfalse hc
    · simp only [resumed, hsel, decode_encode]
      rfl
  | some i =>
    have hlt := i.isLt
    refine ⟨_, _, if_pos ⟨by rw [hsel]; dsimp only; omega, hcommand⟩, if_neg ?_, ?_⟩
    · rw [hsel]
      rintro (hc | hc | hc | hc)
      · dsimp only at hc
        omega
      · dsimp only at hc
        omega
      · exact absurd hc (not_lt.mpr hcommand)
      · exact hfalse hc
    · have hback : Fin.ofNat 2 ((i.val : ℤ)).toNat = i := Fin.ext (by simp)
      simp only [resumed, hsel, decode_encode, hback]
      rw [if_neg (by omega)]

/-! ## Controllers with other statics -/

/-- A place where a WRITE waits for its buffer. -/
def WriteS.waits : WriteS → Bool
  | .s1 | .s4 => true
  | _ => false

theorem wsector_waits {h : Hdd} {sig : Signal} (hw : h.statics.ws.waits) (hsig : sig ≠ .start) :
    h.wsector sig = if sig = .brdy then (h.lower drq).wsectorWrite else .ok h := by
  unfold wsector
  rw [if_neg hsig]
  cases hws : h.statics.ws with
  | s1 | s4 => rfl
  | s0 | s10 | s11 =>
    rw [hws] at hw
    cases hw

/-- What a command finds in the statics is the same, or does the same. -/
def Agree (s s' : Statics) : Option Cmd → Prop
  | some .rsector => s.rs = s'.rs
  | some .wsector => s.ws = s'.ws ∨ s.ws.waits ∧ s'.ws.waits
  | some .format => s.fs = s'.fs
  | _ => True

instance (s s' : Statics) (cmd : Option Cmd) : Decidable (Agree s s' cmd) := by
  unfold Agree
  split <;> infer_instance

/-- The same controller, whose active command is `act`, but for statics that `cmd` does not tell apart. -/
def Like (act cmd : Option Cmd) (h r : Hdd) : Prop :=
  h.activecmd = act ∧ ∃ st, r = { h with statics := st } ∧ st.intrq = h.statics.intrq ∧ Agree h.statics st cmd

namespace Like

variable {act cmd : Option Cmd} {h r : Hdd}

theorem taskfile (hl : Like act cmd h r) : r.taskfile = h.taskfile := by
  obtain ⟨-, st, rfl, -⟩ := hl
  rfl

theorem head (hl : Like act cmd h r) : r.head = h.head := by
  rw [Hdd.head, hl.taskfile, Hdd.head]

theorem cylinder (hl : Like act cmd h r) : r.cylinder = h.cylinder := by
  rw [Hdd.cylinder, hl.taskfile, Hdd.cylinder]

theorem status (hl : Like act cmd h r) (b : Byte) : r.status b = h.status b := by
  rw [Hdd.status, hl.taskfile, Hdd.status]

theorem setStat (hl : Like act cmd h r) (v : Byte) : Like act cmd (h.setStat v) (r.setStat v) := by
  obtain ⟨hact, st, rfl, hst⟩ := hl
  exact ⟨hact, st, rfl, hst⟩

theorem setError (hl : Like act cmd h r) (v : Byte) : Like act cmd (h.setError v) (r.setError v) := by
  obtain ⟨hact, st, rfl, hst⟩ := hl
  exact ⟨hact, st, rfl, hst⟩

theorem bcr (hl : Like act cmd h r) : Like act cmd h.bcr r.bcr := by
  obtain ⟨hact, st, rfl, hst⟩ := hl
  exact ⟨hact, st, rfl, hst⟩

theorem see (hl : Like act cmd h r) (s : Seen) : Like act cmd (h.see s) (r.see s) := by
  obtain ⟨hact, st, rfl, hst⟩ := hl
  exact ⟨hact, st, rfl, hst⟩

theorem raise (hl : Like act cmd h r) (b : Byte) : Like act cmd (h.raise b) (r.raise b) := by
  rw [Hdd.raise, Hdd.raise, hl.taskfile]
  exact hl.setStat _

theorem lower (hl : Like act cmd h r) (b : Byte) : Like act cmd (h.lower b) (r.lower b) := by
  rw [Hdd.lower, Hdd.lower, hl.taskfile]
  exact hl.setStat _

theorem doseek (hl : Like act cmd h r) : Like act cmd h.doseek r.doseek := by
  unfold Hdd.doseek
  rw [hl.status]
  split
  · exact hl.raise _
  · exact hl.lower _

theorem irqAssert (hl : Like act cmd h r) : Like act cmd h.irqAssert r.irqAssert := by
  obtain ⟨hact, st, rfl, hintrq, hagree⟩ := hl
  rw [irqAssert_eq, irqAssert_eq]
  have hquiet : ({ h with statics := st } : Hdd).quiet = h.quiet := by
    rw [quiet, quiet, hintrq]
  rw [hquiet]
  exact ⟨hact, _, rfl, rfl, hagree⟩

theorem irqDeassert (hl : Like act cmd h r) : Like act cmd h.irqDeassert r.irqDeassert := by
  obtain ⟨hact, st, rfl, hintrq, hagree⟩ := hl
  rw [irqDeassert_eq, irqDeassert_eq]
  dsimp only
  rw [hintrq]
  exact ⟨hact, _, rfl, rfl, hagree⟩

/-- A command that sets its place no longer differs. -/
theorem setRs (hl : Like act cmd h r) (s : ReadS) : Like act (some .rsector) (h.setRs s) (r.setRs s) := by
  obtain ⟨hact, st, rfl, hintrq, -⟩ := hl
  exact ⟨hact, _, rfl, hintrq, rfl⟩

theorem setWs (hl : Like act cmd h r) (s : WriteS) : Like act (some .wsector) (h.setWs s) (r.setWs s) := by
  obtain ⟨hact, st, rfl, hintrq, -⟩ := hl
  exact ⟨hact, _, rfl, hintrq, .inl rfl⟩

theorem setFs (hl : Like act cmd h r) (s : FormatS) : Like act (some .format) (h.setFs s) (r.setFs s) := by
  obtain ⟨hact, st, rfl, hintrq, -⟩ := hl
  exact ⟨hact, _, rfl, hintrq, rfl⟩

theorem finish (hl : Like act cmd h r) : Like act cmd h.finish r.finish := ((hl.lower _).lower _).bcr.irqAssert

theorem seeking (hl : Like act cmd h r) : Like act cmd h.seeking r.seeking := by
  dsimp only [Hdd.seeking]
  rw [hl.doseek.status]
  split
  · exact hl.doseek.finish
  · exact ((hl.doseek.raise _).setError _).finish

theorem bad (hl : Like act cmd h r) : Like act cmd h.bad r.bad :=
  ((((hl.raise _).lower _).lower _).setError _).bcr.irqAssert

theorem rsectorFail (hl : Like act cmd h r) : Like act (some .rsector) h.rsectorFail r.rsectorFail :=
  (((hl.raise _).raise _).lower _).irqAssert.setRs _

theorem wsectorFail (hl : Like act cmd h r) : Like act (some .wsector) h.wsectorFail r.wsectorFail :=
  (((hl.raise _).lower _).lower _).irqAssert.bcr.setWs _

theorem wsectorDone (hl : Like act cmd h r) : Like act (some .wsector) h.wsectorDone r.wsectorDone :=
  ((hl.lower _).lower _).irqAssert.bcr.setWs _

theorem formatDone (hl : Like act cmd h r) : Like act (some .format) h.formatDone r.formatDone :=
  ((hl.irqAssert.lower _).lower _).bcr.setFs _

theorem formatFail (hl : Like act cmd h r) : Like act (some .format) h.formatFail r.formatFail := by
  unfold Hdd.formatFail
  rw [hl.taskfile]
  exact ((hl.setError _).raise _).formatDone

/-! ## The commands on both -/

theorem selected (hl : Like act cmd h r) : r.selected = h.selected := by
  obtain ⟨-, st, rfl, -⟩ := hl
  rfl

theorem dosearchid (hl : Like act cmd h r) : r.dosearchid = h.dosearchid := by
  obtain ⟨-, st, rfl, -⟩ := hl
  rfl

theorem setTaskfile (hl : Like act cmd h r) (tf : TaskFile) :
    Like act cmd { h with taskfile := tf } { r with taskfile := tf } := by
  obtain ⟨hact, st, rfl, hst⟩ := hl
  exact ⟨hact, st, rfl, hst⟩

theorem nextTrack (hl : Like act cmd h r) (d : Drive) : Like act cmd (h.nextTrack d) (r.nextTrack d) := by
  by_cases hc : h.head + 1 > d.maxhead
  · rw [Hdd.nextTrack, if_pos hc, Hdd.nextTrack, hl.head, if_pos hc]
    obtain ⟨hact, st, rfl, hst⟩ := hl
    exact ⟨hact, st, rfl, hst⟩
  · rw [Hdd.nextTrack, if_neg hc, Hdd.nextTrack, hl.head, if_neg hc]
    obtain ⟨hact, st, rfl, hst⟩ := hl
    exact ⟨hact, st, rfl, hst⟩

theorem updateposregs (hl : Like act cmd h r) : EndAlike (Like act cmd) h.updateposregs r.updateposregs := by
  unfold Hdd.updateposregs
  rw [hl.selected]
  refine (EndAlike.refl h.selected).bind ?_
  rintro ⟨i, d⟩ - rfl
  dsimp only
  rw [hl.taskfile]
  have hcounted := hl.setTaskfile
    { h.taskfile with scount := h.taskfile.scount - 1, snum := h.taskfile.snum + 1 }
  split
  · exact .ok (hcounted.nextTrack d)
  · exact .ok hcounted

theorem disktobuffer (hl : Like act cmd h r) (offset : BitVec 32) :
    EndAlike (Option.Rel (Like act cmd)) (h.disktobuffer offset) (r.disktobuffer offset) := by
  obtain ⟨hact, st, rfl, hst⟩ := hl
  refine (EndAlike.refl h.selected).bind ?_
  rintro ⟨i, d⟩ - rfl
  refine .ok ?_
  change Option.Rel _ ((h.transfer i offset).map _) ((h.transfer i offset).map _)
  cases h.transfer i offset with
  | none => exact .none
  | some found => exact .some ⟨hact, st, rfl, hst⟩

theorem buffertodisk (hl : Like act cmd h r) (offset : BitVec 32) :
    EndAlike (Option.Rel (Like act cmd)) (h.buffertodisk offset) (r.buffertodisk offset) := by
  obtain ⟨hact, st, rfl, hst⟩ := hl
  refine (EndAlike.refl h.selected).bind ?_
  rintro ⟨i, d⟩ - rfl
  refine .ok ?_
  have htransfer : ({ h with statics := st } : Hdd).transfer i offset = h.transfer i offset := rfl
  dsimp only
  rw [htransfer]
  cases h.transfer i offset with
  | none => exact .none
  | some found =>
    obtain ⟨image, n⟩ := found
    dsimp only
    split
    · exact .some ⟨hact, st, rfl, hst⟩
    · exact .none

theorem drives (hl : Like act cmd h r) : r.drives = h.drives := by
  obtain ⟨-, st, rfl, -⟩ := hl
  rfl

theorem setSelection (hl : Like act cmd h r) (pseldrv : Option (Fin 2)) (digipreg : Byte) :
    Like act cmd { h with pseldrv := pseldrv, digipreg := digipreg } { r with pseldrv := pseldrv, digipreg := digipreg } := by
  obtain ⟨hact, st, rfl, hst⟩ := hl
  exact ⟨hact, st, rfl, hst⟩

theorem setDrives (hl : Like act cmd h r) (drives : Fin 2 → Drive) :
    Like act cmd { h with drives := drives } { r with drives := drives } := by
  obtain ⟨hact, st, rfl, hst⟩ := hl
  exact ⟨hact, st, rfl, hst⟩

theorem setparams (hl : Like act cmd h r) : EndAlike (Like act cmd) h.setparams r.setparams := by
  have hcount : r.taskfile.scount = h.taskfile.scount := by rw [hl.taskfile]
  unfold Hdd.setparams
  rw [hl.selected]
  refine (EndAlike.refl h.selected).bind ?_
  rintro ⟨i, d⟩ - rfl
  dsimp only
  rw [hcount, hl.head, hl.drives]
  exact .ok (((((hl.setDrives _).lower busy).lower cip).raise seekComplete).bcr).irqAssert

theorem rsectorUnload (hl : Like act cmd h r) : EndAlike (Like act (some .rsector)) h.rsectorUnload r.rsectorUnload := by
  refine hl.bcr.updateposregs.bind fun h r hl => .ok ?_
  rw [((hl.raise _).lower _).taskfile]
  exact ((hl.raise _).lower _).irqAssert.setRs _

theorem rsectorSearch (hl : Like act cmd h r) : EndAlike (Like act (some .rsector)) h.rsectorSearch r.rsectorSearch := by
  unfold Hdd.rsectorSearch
  rw [hl.dosearchid]
  refine (EndAlike.refl h.dosearchid).bind ?_
  rintro (_ | offset) - rfl
  · exact .ok (hl.setError _).rsectorFail
  · refine (hl.bcr.disktobuffer offset).bind ?_
    rintro _ _ (hfound | _)
    · exact hfound.rsectorUnload
    · exact .ok (hl.bcr.setError _).rsectorFail

theorem wsectorNext (hl : Like act cmd h r) : EndAlike (Like act (some .wsector)) h.wsectorNext r.wsectorNext := by
  refine hl.bcr.updateposregs.bind fun h r hl => .ok ?_
  rw [hl.taskfile]
  split
  · exact (hl.raise _).irqAssert.setWs _
  · exact hl.wsectorDone

theorem wsectorWrite (hl : Like act cmd h r) : EndAlike (Like act (some .wsector)) h.wsectorWrite r.wsectorWrite := by
  have hsought := hl.doseek
  unfold Hdd.wsectorWrite
  dsimp only
  rw [hsought.status]
  refine .ite (fun _ => ?_) fun _ => ?_
  · rw [hsought.dosearchid]
    refine (EndAlike.refl h.doseek.dosearchid).bind ?_
    rintro (_ | offset) - rfl
    · exact .ok (hsought.setError _).wsectorFail
    · refine (hsought.bcr.buffertodisk offset).bind ?_
      rintro _ _ (hfound | _)
      · exact hfound.wsectorNext
      · exact .ok (hsought.bcr.setError _).wsectorFail
  · rw [hsought.taskfile]
    exact .ok (hsought.setError _).wsectorFail

theorem setPauses (hl : Like act cmd h r) (n : ℕ) : Like act cmd { h with pauses := n } { r with pauses := n } := by
  obtain ⟨hact, st, rfl, hst⟩ := hl
  exact ⟨hact, st, rfl, hst⟩

theorem pauses (hl : Like act cmd h r) : r.pauses = h.pauses := by
  obtain ⟨-, st, rfl, -⟩ := hl
  rfl

variable {sig : Signal}

theorem rsector (hl : Like act cmd h r) (hsig : sig = .start ∨ cmd = some .rsector) :
    EndAlike (Like act (some .rsector)) (h.rsector sig) (r.rsector sig) := by
  have hplace : (if sig = .start then .s0 else r.statics.rs) = if sig = .start then .s0 else h.statics.rs := by
    obtain ⟨-, st, rfl, -, hagree⟩ := hl
    rcases hsig with rfl | rfl
    · rfl
    · exact congrArg _ (Eq.symm hagree)
  unfold Hdd.rsector
  rw [hplace]
  split
  · dsimp only
    rw [hl.doseek.status]
    refine .ite (fun _ => hl.doseek.rsectorSearch) fun _ => ?_
    rw [hl.doseek.taskfile]
    exact .ok (hl.doseek.setError _).rsectorFail
  all_goals
    rename_i hs
    have hcmd : cmd = some .rsector := hsig.resolve_left fun hstart => by
      rw [if_pos hstart] at hs
      cases hs
    subst hcmd
  · refine .ite (fun _ => .ok ?_) fun _ => .ok hl
    have hrested := ((hl.lower drq).raise busy).irqDeassert.setRs .s32
    rw [hrested.pauses]
    exact hrested.setPauses _
  · exact .ite (fun _ => .ok (((hl.lower _).lower _).irqDeassert).bcr) fun _ => .ok hl
  · exact hl.rsectorSearch

theorem wsector (hl : Like act cmd h r) (hsig : sig = .start ∨ cmd = some .wsector) :
    EndAlike (Like act (some .wsector)) (h.wsector sig) (r.wsector sig) := by
  rcases hsig with rfl | rfl
  · exact .ok ((hl.raise _).setWs _)
  · by_cases hstart : sig = .start
    · subst hstart
      exact .ok ((hl.raise _).setWs _)
    · have hagree : h.statics.ws = r.statics.ws ∨ h.statics.ws.waits ∧ r.statics.ws.waits := by
        obtain ⟨-, st, rfl, -, hagree⟩ := hl
        exact hagree
      rcases hagree with hws | ⟨hwaits, hwaits'⟩
      · unfold Hdd.wsector
        rw [if_neg hstart, if_neg hstart, ← hws]
        split
        · exact .ok ((hl.raise _).setWs _)
        · exact .ite (fun _ => (hl.lower _).wsectorWrite) fun _ => .ok hl
        · exact .ite (fun _ => (hl.lower _).wsectorWrite) fun _ => .ok hl
        · exact .ok hl.wsectorFail
        · exact .ok hl.wsectorDone
      · rw [wsector_waits hwaits hstart, wsector_waits hwaits' hstart]
        exact .ite (fun _ => (hl.lower _).wsectorWrite) fun _ => .ok hl

theorem format (hl : Like act cmd h r) (hsig : sig = .start ∨ cmd = some .format) :
    EndAlike (Like act (some .format)) (h.format sig) (r.format sig) := by
  have hplace : (if sig = .start then .s0 else r.statics.fs) = if sig = .start then .s0 else h.statics.fs := by
    obtain ⟨-, st, rfl, -, hagree⟩ := hl
    rcases hsig with rfl | rfl
    · rfl
    · exact congrArg _ (Eq.symm hagree)
  unfold Hdd.format
  rw [hplace]
  split
  · exact .ok ((hl.bcr.raise _).setFs _)
  all_goals
    rename_i hs
    have hcmd : cmd = some .format := hsig.resolve_left fun hstart => by
      rw [if_pos hstart] at hs
      cases hs
    subst hcmd
  · refine .ite (fun _ => ?_) fun _ => .ok hl
    have hfilled := hl.doseek.lower drq
    dsimp only
    rw [hfilled.status]
    refine .ite (fun _ => ?_) fun _ => .ok hfilled.formatFail
    rw [hfilled.selected]
    refine (EndAlike.refl (h.doseek.lower drq).selected).bind ?_
    rintro ⟨i, d⟩ - rfl
    rw [hfilled.cylinder]
    split
    · exact .ok hfilled.formatFail
    · exact .ok hfilled.formatDone
  · exact .ok hl.formatDone

/-- Where the place of no command matters, any statics agree. -/
theorem free (hl : Like act cmd h r) {cmd' : Option Cmd} (hfree : ∀ s s', Agree s s' cmd') : Like act cmd' h r := by
  obtain ⟨hact, st, rfl, hintrq, -⟩ := hl
  exact ⟨hact, st, rfl, hintrq, hfree _ _⟩

/-- **A command is run on both alike**, when it is started or its place is the same. -/
theorem run {c : Cmd} (hl : Like (some c) cmd h r) (hsig : sig = .start ∨ cmd = some c) :
    EndAlike (Like (some c) (some c)) (h.run c sig) (r.run c sig) := by
  cases c with
  | restore => exact .ok (hl.seeking.free fun _ _ => trivial)
  | seek => exact .ok (hl.seeking.free fun _ _ => trivial)
  | rsector => exact hl.rsector hsig
  | wsector => exact hl.wsector hsig
  | format => exact hl.format hsig
  | rverify => exact .ok (hl.seeking.free fun _ _ => trivial)
  | diagnose => exact .ok ((hl.setError _).finish.free fun _ _ => trivial)
  | setparams => exact hl.setparams.mono fun _ _ hl => hl.free fun _ _ => trivial
  | bad => exact .ok (hl.bad.free fun _ _ => trivial)

/-! ## The ports of both -/

theorem activecmd (hl : Like act cmd h r) : r.activecmd = h.activecmd := by
  obtain ⟨-, st, rfl, -⟩ := hl
  rfl

theorem callActive (hl : Like act act h r) : EndAlike (Like act act) (h.callActive sig) (r.callActive sig) := by
  unfold Hdd.callActive
  rw [hl.activecmd, hl.1]
  cases act with
  | none => rfl
  | some c => exact hl.run (.inr rfl)

theorem setReg (hl : Like act cmd h r) (v : Byte) (reg : Reg) : Like act cmd (h.setReg v reg) (r.setReg v reg) := by
  obtain ⟨hact, st, rfl, hst⟩ := hl
  cases reg <;> exact ⟨hact, st, rfl, hst⟩

theorem reg (hl : Like act cmd h r) : r.reg = h.reg := by
  funext reg
  rw [Hdd.reg.eq_def, Hdd.reg.eq_def, hl.taskfile]

theorem wd2010Read (hl : Like act act h r) (reg : Reg) :
    EndAlike (Like act act) (h.wd2010Read reg) (r.wd2010Read reg) := by
  have hseen : ∀ {h r : Hdd}, Like act act h r →
      Like act act (h.see (.byte (h.reg reg))) (r.see (.byte (r.reg reg))) := by
    intro h r hl
    rw [hl.reg]
    exact hl.see _
  have hread : ∀ {h r : Hdd}, Like act act h r →
      EndAlike (Like act act) (do
        let h ← if h.status cip then h.callActive .continue else .ok h
        return h.see (.byte (h.reg reg))) (do
        let r ← if r.status cip then r.callActive .continue else .ok r
        return r.see (.byte (r.reg reg))) := by
    intro h r hl
    rw [hl.status]
    exact .ite (fun _ => hl.callActive.bind fun _ _ hl => .ok (hseen hl)) fun _ => .ok (hseen hl)
  by_cases hreg : reg = .stat
  · rw [Hdd.wd2010Read, if_pos hreg, Hdd.wd2010Read, if_pos hreg]
    exact hread hl.irqDeassert
  · rw [Hdd.wd2010Read, if_neg hreg, Hdd.wd2010Read, if_neg hreg]
    exact hread hl

/-- A command is decoded. -/
theorem activate (hl : Like act cmd h r) (c : Cmd) :
    Like (some c) none { h with activecmd := some c } { r with activecmd := some c } := by
  obtain ⟨-, st, rfl, hintrq, -⟩ := hl
  exact ⟨rfl, st, rfl, hintrq, trivial⟩

theorem command (hl : Like act cmd h r) (v : Byte) :
    EndAlike (Like (some (decode v)) (some (decode v))) (h.command v) (r.command v) := by
  have hready := ((hl.setReg v .cmd).irqDeassert).setError 0
  unfold Hdd.command
  dsimp only
  rw [hready.taskfile]
  exact ((hready.setStat _).activate _).run (.inl rfl)

end Like

/-- The two differ in statics that nothing tells apart. -/
def Alike (h r : Hdd) : Prop := Like h.activecmd h.activecmd h r

namespace Alike

variable {h r : Hdd}

theorem of_like {act : Option Cmd} (hl : Like act act h r) : Alike h r := by
  obtain rfl := hl.1
  exact hl

theorem of_likes {act : Option Cmd} {c c' : Except Stop Hdd} (hc : EndAlike (Like act act) c c') :
    EndAlike Alike c c' :=
  hc.mono fun _ _ => of_like

theorem select (hl : Alike h r) (v : Byte) : Alike (h.select v) (r.select v) := by
  unfold Hdd.select
  dsimp only
  have hreg := hl.setReg v .drvhd
  have hwiredup : ((r.setReg v .drvhd).drives (driveOf v)).wiredup =
      ((h.setReg v .drvhd).drives (driveOf v)).wiredup := by rw [hreg.drives]
  rw [hwiredup]
  split
  · exact .of_like ((hreg.setSelection _ _).raise _)
  · exact .of_like ((hreg.setSelection _ _).lower _)

theorem wd2010Write (hl : Alike h r) (reg : Reg) (v : Byte) :
    EndAlike Alike (h.wd2010Write reg v) (r.wd2010Write reg v) := by
  unfold Hdd.wd2010Write
  rw [hl.status]
  refine .ite (fun _ => .ok hl) fun _ => ?_
  split
  · exact of_likes (hl.command v)
  · exact .ok (hl.select v)
  · exact .ok (.of_like (hl.setReg v _))

theorem advance (hl : Alike h r) : EndAlike Alike h.advance r.advance := by
  have hindx : Alike { h with sectindx := h.sectindx + 1 } { r with sectindx := h.sectindx + 1 } := by
    obtain ⟨hact, st, rfl, hst⟩ := hl
    exact ⟨hact, st, rfl, hst⟩
  have hsectindx : r.sectindx = h.sectindx := by
    obtain ⟨-, st, rfl, -⟩ := hl
    rfl
  have hactive : r.activecmd.isSome = h.activecmd.isSome := by rw [hl.activecmd]
  unfold Hdd.advance
  rw [hsectindx]
  dsimp only
  rw [hactive]
  exact .ite (fun _ => of_likes hindx.callActive) fun _ => .ok hindx

theorem fdiskInb (hl : Alike h r) (port : BitVec 16) : EndAlike Alike (h.fdiskInb port) (r.fdiskInb port) := by
  unfold Hdd.fdiskInb
  rw [hl.status]
  refine .ite (fun _ => .ok ?_) fun _ => ?_
  · rw [hl.taskfile]
    split
    · exact .of_like (hl.irqDeassert.see _)
    · exact .of_like (hl.see _)
  · split
    · exact of_likes (hl.wd2010Read _)
    · exact .ok hl

theorem fdiskInw (hl : Alike h r) (port : BitVec 16) : EndAlike Alike (h.fdiskInw port) (r.fdiskInw port) := by
  have hword : r.sectbuffer r.sectindx = h.sectbuffer h.sectindx := by
    obtain ⟨-, st, rfl, -⟩ := hl
    rfl
  unfold Hdd.fdiskInw
  rw [hword]
  exact .ite (fun _ => (of_like (hl.see _)).advance) fun _ => .ok hl

theorem setFixeddiskreg (hl : Alike h r) (v : Byte) :
    Alike { h with fixeddiskreg := v } { r with fixeddiskreg := v } := by
  obtain ⟨hact, st, rfl, hst⟩ := hl
  exact ⟨hact, st, rfl, hst⟩

theorem fixedDisk (hl : Alike h r) (v : Byte) : Alike (h.fixedDisk v) (r.fixedDisk v) := by
  have hset : ∀ {h r : Hdd}, Alike h r →
      Alike (if has v 4 then { h with fixeddiskreg := v : Hdd }.setStat (busy ||| dc ||| err)
        else { h with fixeddiskreg := v })
      (if has v 4 then { r with fixeddiskreg := v : Hdd }.setStat (busy ||| dc ||| err)
        else { r with fixeddiskreg := v }) := by
    intro h r hl
    split
    · exact .of_like ((hl.setFixeddiskreg v).setStat _)
    · exact hl.setFixeddiskreg v
  have hreg : has r.fixeddiskreg 4 = has h.fixeddiskreg 4 := by
    obtain ⟨-, st, rfl, -⟩ := hl
    rfl
  unfold Hdd.fixedDisk
  rw [hreg, hl.taskfile]
  split
  · exact hset (.of_like (hl.setTaskfile _))
  · exact hset hl

theorem fdiskOutb (hl : Alike h r) (port : BitVec 16) (v : Byte) :
    EndAlike Alike (h.fdiskOutb port v) (r.fdiskOutb port v) := by
  unfold Hdd.fdiskOutb
  refine .ite (fun _ => .ok (hl.fixedDisk v)) fun _ => ?_
  split
  · exact hl.wd2010Write _ v
  · exact .ok hl

theorem fdiskOutw (hl : Alike h r) (port : BitVec 16) (v : BitVec 16) :
    EndAlike Alike (h.fdiskOutw port v) (r.fdiskOutw port v) := by
  have hwritten : Alike { h with sectbuffer := Function.update h.sectbuffer h.sectindx v }
      { r with sectbuffer := Function.update r.sectbuffer r.sectindx v } := by
    obtain ⟨hact, st, rfl, hst⟩ := hl
    exact ⟨hact, st, rfl, hst⟩
  exact .ite (fun _ => hwritten.advance) fun _ => .ok hl

theorem fdiskReset (hl : Alike h r) : Alike h.fdiskReset r.fdiskReset := by
  obtain ⟨hact, st, rfl, hst⟩ := hl
  exact ⟨hact, st, rfl, hst⟩

theorem fdiskPause (hl : Alike h r) : EndAlike Alike h.fdiskPause r.fdiskPause := by
  unfold Hdd.fdiskPause
  rw [hl.pauses]
  split
  · exact of_likes (hl.setPauses _).callActive
  · rfl

theorem diskIntCallBack (hl : Alike h r) : EndAlike Alike h.diskIntCallBack r.diskIntCallBack := by
  obtain ⟨hact, st, rfl, hst⟩ := hl
  unfold Hdd.diskIntCallBack
  dsimp only
  split
  · exact .ok ⟨hact, st, rfl, hst⟩
  · rfl

/-- **One step of both** ends alike. -/
theorem step (hl : Alike h r) (op : Op) : EndAlike Alike (h.step op) (r.step op) := by
  cases op with
  | inb port => exact hl.fdiskInb port
  | inw port => exact hl.fdiskInw port
  | outb port v => exact hl.fdiskOutb port v
  | outw port v => exact hl.fdiskOutw port v
  | pause => exact hl.fdiskPause
  | interrupt => exact hl.diskIntCallBack
  | reset => exact .ok hl.fdiskReset

/-- …and so does a run of them. -/
theorem run (hl : Alike h r) (ops : List Op) : EndAlike Alike (ops.foldlM Hdd.step h) (ops.foldlM Hdd.step r) :=
  endAlike_foldlM (fun _ _ op hl => hl.step op) hl ops

theorem observed_eq {c c' : Except Stop Hdd} (hc : EndAlike Alike c c') : observed c' = observed c := by
  cases c <;> cases c'
  · exact congrArg Except.error (Eq.symm hc)
  · exact hc.elim
  · exact hc.elim
  · obtain ⟨-, st, rfl, -⟩ := hc
    rfl

end Alike

/-- The statics of the target do what those of the controller do. -/
def Hdd.Resumable (h target : Hdd) : Prop :=
  target.statics.intrq = h.statics.intrq ∧ Agree h.statics target.statics h.activecmd

instance (h target : Hdd) : Decidable (h.Resumable target) := by
  unfold Hdd.Resumable
  infer_instance

/-- A snapshot of a controller, restored into a target, does the same as the controller from then on: the
same registers, words and interrupts are seen, and the media hold the same. -/
def Hdd.Resumes (h target : Hdd) : Prop :=
  ∃ state r, h.captureHdd = some state ∧ target.restoreHdd state = some r ∧
    ∀ ops : List Op, observed (ops.foldlM step (r.resumed h)) = observed (ops.foldlM step { h with seen := [] })

/-- **A snapshot resumes a command in progress**, at whatever point it is taken and whatever comes later,
if the target's interrupt line is as it was and the active command is at the same place of its own, or
waits, as a WRITE, for the buffer. -/
theorem snapshot_resumes {h target : Hdd} (hr : h.Resumable target) : h.Resumes target := by
  obtain ⟨state, r, hcapture, hrestore, heq⟩ := restored_eq h target
  refine ⟨state, r, hcapture, hrestore, fun ops => ?_⟩
  rw [heq]
  have hl : Alike { h with seen := [] } { h with statics := target.statics, seen := [] } :=
    ⟨rfl, target.statics, rfl, hr.1, hr.2⟩
  exact Alike.observed_eq (hl.run ops)

/-- A WRITE in the midst of its second sector, and a target whose WRITE waits for its first. -/
def midWrite : Hdd :=
  { hdaInit oneDrive with
    pseldrv := some 0
    taskfile := { scount := 1, snum := 2, drvhd := 0xa0, stat := drdy ||| seekComplete ||| drq ||| busy ||| cip }
    activecmd := some .wsector
    sectindx := 7
    statics := { ws := .s4, intrq := true } }

theorem snapshot_resumes_write :
    midWrite.Resumes { hdaInit oneDrive with statics := { ws := .s1, intrq := true } } :=
  snapshot_resumes (by decide)

/-- What is seen of a run. -/
def told (r : Except Stop Hdd) : Option (List Seen) := (r.map Hdd.seen).toOption

/-- A run that tells a controller from the one with the target's statics. -/
def Tells (later : List Op) (target h : Hdd) : Prop :=
  told (later.foldlM step { h with statics := target.statics, seen := [] }) ≠
    told (later.foldlM step { h with seen := [] })

instance (later : List Op) (target : Hdd) : DecidablePred (Tells later target) :=
  fun _ => inferInstanceAs (Decidable (_ ≠ _))

theorem Tells.not_resumes {later : List Op} {target h : Hdd} (ht : Tells later target h) : ¬h.Resumes target := by
  rintro ⟨state, r, hcapture, hrestore, hsame⟩
  obtain ⟨state', r', hcapture', hrestore', heq⟩ := restored_eq h target
  obtain rfl := Option.some.inj (hcapture.symm.trans hcapture')
  obtain rfl := Option.some.inj (hrestore.symm.trans hrestore')
  have htold : ∀ c : Except Stop Hdd, told c = ((observed c).map Prod.fst).toOption := by
    rintro (_ | _) <;> rfl
  exact ht (by rw [htold, htold, ← heq, hsame])

/-- The guest's accesses after which a snapshot restored into a controller as `hda_init` leaves it goes wrong. -/
def LostAfter (ops : List Op) : Prop :=
  Ends (ops.foldlM step (hdaInit oneDrive)) fun h => ¬h.Resumes (hdaInit oneDrive)

/-- What a target as `hda_init` leaves it makes of a snapshot: a READ between its sectors puts the next one in
the buffer too soon, a WRITE between its sectors takes the buffer for the command and drops it, and the
interrupt of a SEEK is not taken back when the status is read. -/
theorem snapshot_not_resumes :
    LostAfter (give 0x20 2 1 0xa0) ∧
    LostAfter (give 0x30 2 1 0xa0 ++ List.replicate 256 (.outw 0x1f0 0)) ∧
    LostAfter (give 0x70 1 1 0xa0) := by
  have hlost {ops : List Op} (later : List Op)
      (h : Ends (ops.foldlM step (hdaInit oneDrive)) (Tells later (hdaInit oneDrive))) :
      LostAfter ops := h.mono fun _ => Tells.not_resumes
  refine ⟨hlost [.inb 0x1f7, .inw 0x1f0] ?_, hlost (List.replicate 256 (.outw 0x1f0 0) ++ [.inb 0x1f7]) ?_,
    hlost [.inb 0x1f7] ?_⟩
  · decide
  · decide +kernel
  · decide

end SoftPC.Fdisk
