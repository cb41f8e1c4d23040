import SoftPC.Comms.ComCauses
import SoftPC.System.IcaAccounts

/-!
# Comms/ComLine — what the guest reads of the causes, and who lowers a shared line

The interrupt identification register reports the highest cause.  The PIC's side of an access is its
`Effect`: an access that leaves its port with a cause has left the line raised, and one that leaves it
without any lowers the line exactly where it `Drops`.  As `clear_interrupt` looks at its own port alone, a
port that has nothing to withdraw can withdraw the request of the port it shares the line with; in a run
where none does, and where OUT2 is not turned on in loopback over a character waiting, the ports and the
PIC keep what `causes_reported` says.
-/

namespace SoftPC.Com

/-- The highest pending cause: line status, received data, transmitter empty, modem status. -/
def highest (pending : Cause → Bool) : Option Cause := [Cause.rls, .rda, .thre, .ms].find? pending

/-- How the interrupt identification register names it. -/
def identified : Option Cause → BitVec 8
  | none => 1
  | some c => c.id.setWidth 8 <<< 1

namespace Uart

variable {u v w : Uart}

theorem generateIir_intId (u : Uart) : u.generateIir.intId =
    match highest u.pending with
    | none => ⟨true, 0⟩
    | some c => ⟨false, c.id⟩ := by
  rw [generateIir, highest]
  cases hrls : u.pending .rls <;> cases hrda : u.pending .rda <;> cases hthre : u.pending .thre <;>
    cases hms : u.pending .ms <;> simp only [List.find?, hrls, hrda, hthre, hms] <;> rfl

/-- A read of the identification register. -/
theorem readIir_identifies (u : Uart) : u.readIir.1 = identified (highest u.pending) := by
  change u.generateIir.intId.all = _
  rw [generateIir_intId]
  cases highest u.pending with
  | none => decide
  | some c => cases c <;> decide

theorem generateIir_pending (u : Uart) : u.generateIir.pending = u.pending := by
  simp only [generateIir]
  split_ifs <;> rfl

theorem generateIir_thre (u : Uart) :
    u.generateIir.intId.interruptId = Cause.thre.id ↔ highest u.pending = some .thre := by
  rw [generateIir_intId]
  cases highest u.pending with
  | none => decide
  | some c => cases c <;> decide

/-- …clears the transmitter-empty cause when that is what it reports, and no other. -/
theorem readIir_pending (u : Uart) : u.readIir.2.pending =
    if highest u.pending = some .thre then Function.update u.pending .thre false else u.pending := by
  have hthre := generateIir_thre u
  rw [readIir]
  by_cases h : highest u.pending = some .thre
  · rw [if_pos h]
    dsimp only
    rw [if_pos (hthre.mpr h), clearInterrupt_pending]
    change Function.update u.generateIir.pending .thre false = _
    rw [generateIir_pending]
  · rw [if_neg h]
    dsimp only
    rw [if_neg (fun hi => h (hthre.mp hi)), generateIir_pending]

/-! ## The calls of an access -/

/-- The calls of an access that leaves its port with the causes `busy'`: with one left, the last of them
raised the line or there was none to make; with none left, the line was lowered where the access `drops`,
after being raised if the access found a `fresh` cause. -/
structure Effect (busy busy' : Bool) (drops : Prop) (fresh : Bool) (calls : List Call) : Prop where
  raised : busy' = true → (calls = [] ∧ busy = true) ∨ calls.getLast? = some .raise
  lowered : busy' = false → calls = [] ∨ (calls = (if fresh then [.raise, .clear] else [.clear]) ∧ drops)

theorem Called.effect (h : Called u v) (hu : u.calls = []) (drops : Prop) (fresh : Bool) :
    Effect u.busy v.busy drops fresh v.calls := by
  have hcalls := h.calls
  rw [hu, List.nil_append] at hcalls
  refine ⟨fun hv => ?_, fun hv => .inl ?_⟩
  · rw [hv, Bool.and_true] at hcalls
    cases hb : u.busy
    · rw [hcalls, hb]; exact .inr rfl
    · rw [hcalls, hb]; exact .inl ⟨rfl, rfl⟩
  · rw [hcalls, hv, Bool.and_false]; rfl

theorem clearInterrupt_calls (u : Uart) :
    u.clearInterrupt.calls = u.calls ++ if u.busy then [] else [.clear] := by
  rw [clearInterrupt]
  split
  · exact (List.append_nil _).symm
  · rfl

theorem clearInterrupt_busy (u : Uart) : u.clearInterrupt.busy = u.busy := by
  simp only [busy, clearInterrupt_pending]

/-- An access that raises, turns causes off, looks whether it may drop the line, and raises again. -/
theorem Effect.of_cleared {x : Uart} {drops : Prop} {fresh : Bool} (h : Called u v)
    (hoff : ∀ c, x.pending c = true → v.pending c = true) (hcalls : x.calls = v.calls)
    (h' : Called x.clearInterrupt w) (hu : u.calls = [])
    (hfresh : w.busy = false → (!u.busy && v.busy) = fresh) (hdrops : w.busy = false → drops) :
    Effect u.busy w.busy drops fresh w.calls := by
  have hw : w.calls = (if !u.busy && v.busy then [.raise] else []) ++ (if x.busy then [] else [.clear]) ++
      if !x.busy && w.busy then [.raise] else [] := by
    rw [h'.calls, clearInterrupt_calls, clearInterrupt_busy, hcalls, h.calls, hu, List.nil_append]
  refine ⟨fun hb => ?_, fun hb => .inr ⟨?_, hdrops hb⟩⟩
  · cases hx : x.busy
    · right
      rw [hw, hx, hb]
      exact List.getLast?_concat
    · obtain ⟨c, hc⟩ := busy_iff.mp hx
      have hv : v.busy = true := busy_of c (hoff c hc)
      rw [hw, hx, hv]
      cases hub : u.busy
      · exact .inr rfl
      · exact .inl ⟨rfl, rfl⟩
  · have hx : x.busy = false := by
      rw [← Bool.not_eq_true]
      intro hx
      rw [h'.busy ((clearInterrupt_busy x).trans hx)] at hb
      cases hb
    rw [hw, hfresh hb, hx, hb]
    cases fresh <;> rfl

theorem Called.quiet (h : Called u v) (hv : v.busy = false) (c : Cause) : u.pending c = false := by
  rw [← Bool.not_eq_true]
  intro hc
  rw [busy_of c (h.mono c hc)] at hv
  cases hv

theorem Called.quiet_at {c : Cause} (h : Called u v) (hv : v.pending c = false) : u.pending c = false := by
  rw [← Bool.not_eq_true] at hv ⊢
  exact fun hc => hv (h.mono c hc)

theorem Raised.heard_eq (h : Raised u v) (c : Cause) : v.heard c = u.heard c := by
  rw [heard, h.modemControl, h.enabled_eq, ← heard]

theorem Called.quiet_cleared (h : Called u.clearInterrupt v) (hv : v.busy = false) (c : Cause) :
    u.pending c = false := by
  rw [← clearInterrupt_pending]
  exact h.quiet hv c

/-! ## What a modem change raises -/

/-- A modem input has changed so that the modem status cause is raised. -/
def noticed (u : Uart) (m : Modem) : Bool :=
  !u.loopbackState && u.heard .ms &&
    (m.cts != u.modemStatus.cts || m.dsr != u.modemStatus.dsr || m.rlsd != u.modemStatus.rlsd ||
      (!m.ri && u.modemStatus.ri))

theorem raiseGated_pending (u : Uart) (c d : Cause) :
    (u.raiseGated c).pending d = (u.pending d || (decide (d = c) && u.heard c)) := by
  have hp : u.raiseInterrupt.pending = u.pending := by
    rw [raiseInterrupt]
    split <;> rfl
  rw [raiseGated, heard]
  cases u.modemControl.out2 <;> cases u.enabled c <;> by_cases hd : d = c <;> simp [hp, hd]

theorem raiseGated_modemStatus (u : Uart) (c : Cause) : (u.raiseGated c).modemStatus = u.modemStatus := by
  rw [raiseGated, raiseInterrupt]
  split_ifs <;> rfl

/-- One modem input: the cause, and the inputs it leaves. -/
theorem changeState_ms {change : Uart → Bool → Uart} {external internal p : Bool}
    (h : (change u external).pending .ms = (u.pending .ms || (u.heard .ms && p))) :
    (u.changeState external internal change).pending .ms =
      (u.pending .ms || (u.heard .ms && (external != internal && p))) := by
  rw [changeState]
  by_cases he : external = internal
  · rw [if_pos he, he, bne_self_eq_false, Bool.false_and, Bool.and_false, Bool.or_false]
  · rw [if_neg he, h, bne_iff_ne.mpr he, Bool.true_and]

theorem changeState_input {change : Uart → Bool → Uart} {external internal : Bool} {f : ModemStatus → Bool}
    (h : f (change u external).modemStatus = f u.modemStatus) :
    f (u.changeState external internal change).modemStatus = f u.modemStatus := by
  rw [changeState]
  split
  · rfl
  · exact h

theorem setCts_modemStatus (u : Uart) (state : Bool) :
    (u.setCts state).modemStatus = { u.modemStatus with cts := state, deltaCts := true } :=
  raiseGated_modemStatus _ _

theorem setDsr_modemStatus (u : Uart) (state : Bool) :
    (u.setDsr state).modemStatus = { u.modemStatus with dsr := state, deltaDsr := true } :=
  raiseGated_modemStatus _ _

theorem setRlsd_modemStatus (u : Uart) (state : Bool) :
    (u.setRlsd state).modemStatus = { u.modemStatus with rlsd := state, deltaRlsd := true } :=
  raiseGated_modemStatus _ _

theorem raiseMs_ms (u : Uart) (s : ModemStatus) : ({ u with modemStatus := s } : Uart).raiseMs.pending .ms =
    (u.pending .ms || (u.heard .ms && true)) :=
  (raiseGated_pending _ .ms .ms).trans (by simp [heard, enabled])

theorem setRi_ms (u : Uart) (state : Bool) :
    (u.setRi state).pending .ms = (u.pending .ms || (u.heard .ms && !state)) := by
  cases state
  · exact raiseMs_ms u _
  · rw [Bool.not_true, Bool.and_false, Bool.or_false]; rfl

theorem noteCts_inputs (u : Uart) (m : Modem) : (u.noteCts m).modemStatus.dsr = u.modemStatus.dsr ∧
    (u.noteCts m).modemStatus.rlsd = u.modemStatus.rlsd ∧
      (u.noteCts m).modemStatus.ri = u.modemStatus.ri := by
  refine ⟨changeState_input (f := ModemStatus.dsr) ?_, changeState_input (f := ModemStatus.rlsd) ?_,
    changeState_input (f := ModemStatus.ri) ?_⟩ <;> rw [setCts_modemStatus]

theorem noteDsr_inputs (u : Uart) (m : Modem) : (u.noteDsr m).modemStatus.rlsd = u.modemStatus.rlsd ∧
    (u.noteDsr m).modemStatus.ri = u.modemStatus.ri := by
  refine ⟨changeState_input (f := ModemStatus.rlsd) ?_, changeState_input (f := ModemStatus.ri) ?_⟩ <;>
    rw [setDsr_modemStatus]

theorem noteRlsd_input (u : Uart) (m : Modem) : (u.noteRlsd m).modemStatus.ri = u.modemStatus.ri := by
  refine changeState_input (f := ModemStatus.ri) ?_
  rw [setRlsd_modemStatus]

theorem modemChange_ms (u : Uart) (m : Modem) :
    (u.modemChange m).pending .ms = (u.pending .ms || u.noticed m) := by
  rw [modemChange, noticed]
  cases u.loopbackState
  · have hcts : (u.noteCts m).pending .ms = _ := changeState_ms (raiseMs_ms u _)
    have hdsr : ((u.noteCts m).noteDsr m).pending .ms = _ := changeState_ms (raiseMs_ms _ _)
    have hrlsd : (((u.noteCts m).noteDsr m).noteRlsd m).pending .ms = _ := changeState_ms (raiseMs_ms _ _)
    have hri : ((((u.noteCts m).noteDsr m).noteRlsd m).noteRi m).pending .ms = _ :=
      changeState_ms (setRi_ms _ _)
    rw [if_neg Bool.false_ne_true, hri, hrlsd, hdsr, hcts]
    obtain ⟨hd, hr, hi⟩ := noteCts_inputs u m
    obtain ⟨hr', hi'⟩ := noteDsr_inputs (u.noteCts m) m
    have hheard := (raised_noteCts u m).heard_eq .ms
    have hheard' := ((raised_noteCts u m).trans (raised_noteDsr _ m)).heard_eq .ms
    have hheard'' := ((raised_noteCts u m).trans ((raised_noteDsr _ m).trans (raised_noteRlsd _ m))).heard_eq .ms
    rw [hheard'', hheard', hheard, noteRlsd_input, hi', hi, hr', hr, hd]
    cases u.pending .ms <;> cases u.heard .ms <;> simp [Bool.or_assoc]
    cases m.ri <;> simp
  · rw [if_pos rfl]
    simp

/-! ## Where an access drops the line -/

/-- The reads that leave the port without a cause and have its line dropped. -/
def ReadDrops (u : Uart) : Reg → Prop
  | .txRx => u.dlab = false ∧ u.pending .rls = false ∧ u.pending .thre = false ∧ u.pending .ms = false ∧
      (u.heard .thre = true → u.hadFirstRead = true ∧ u.loopbackState = false)
  | .iir => highest u.pending = some .thre ∧ u.pending .ms = false
  | .lsr => u.pending .rda = false ∧ u.pending .thre = false ∧ u.pending .ms = false
  | .msr => u.pending .rls = false ∧ u.pending .rda = false ∧ u.pending .thre = false
  | .ier | .lcr | .mcr | .scratch => False

/-- …and the writes. -/
def WriteDrops (u : Uart) (pacing : Bool) (value : BitVec 8) : Reg → Prop
  | .txRx => u.dlab = false ∧ u.pending .rls = false ∧ u.pending .rda = false ∧ u.pending .ms = false ∧
      (u.heard .thre = true → u.loopbackState = false ∧ pacing = true) ∧
      (u.loopbackState = true → if u.lineStatus.dataReady then u.heard .rls = false
        else u.enabled .rda = false)
  | .ier => u.dlab = false ∧ (∀ c, u.pending c = true → (value &&& 0xf).getLsbD c.enableBit = false) ∧
      (u.lineStatus.dataReady = true → (value &&& 0xf).getLsbD 0 = true →
        u.modemControl.out2 = false ∧ u.loopbackState = false) ∧
      (u.lineStatus.txHoldingEmpty = true → (value &&& 0xf).getLsbD 1 = true →
        u.modemControl.out2 = false)
  | .iir | .lcr | .mcr | .lsr | .msr | .scratch => False

/-- A read of the modem status finds a change to raise first. -/
def ReadFresh (u : Uart) (m : Modem) : Reg → Bool
  | .msr => !u.pending .ms && u.noticed m
  | _ => false

theorem firstRead_pending (h : Host) {c : Cause} (hc : c ≠ .thre) :
    (u.firstRead h).pending c = u.pending c := by
  rw [firstRead]
  split
  · rfl
  · refine (raiseGated_pending _ .thre c).trans ?_
    rw [decide_eq_false hc, Bool.false_and, Bool.or_false]

theorem heard_clearInterrupt (u : Uart) (c : Cause) : u.clearInterrupt.heard c = u.heard c := by
  rw [clearInterrupt]
  split <;> rfl

theorem loopbackState_clearInterrupt (u : Uart) : u.clearInterrupt.loopbackState = u.loopbackState := by
  rw [clearInterrupt]
  split <;> rfl

theorem readRx_effect (hu : u.calls = []) (hdlab : u.dlab = false) (h : Host) :
    Effect u.busy (u.readRx h).2.busy (u.ReadDrops .txRx) false (u.readRx h).2.calls := by
  have hfirst := raised_firstRead u h
  generalize hf : u.firstRead h = f at hfirst
  have hcheck := raised_checkInput f.takeRx.clearInterrupt f.lineStatus.dataReady h.ready
  have hr : (u.readRx h).2 = f.takeRx.clearInterrupt.checkInput f.lineStatus.dataReady h.ready := by
    rw [readRx, hf]
  rw [hr]
  -- what is left without a cause had none but received data
  have hback : (f.takeRx.clearInterrupt.checkInput f.lineStatus.dataReady h.ready).busy = false →
      ∀ c, c ≠ .rda → f.pending c = false := by
    intro hb c hc
    have hquiet := hcheck.quiet_cleared hb c
    rwa [takeRx, off_pending, if_neg hc] at hquiet
  refine Effect.of_cleared (x := f.takeRx) hfirst.toCalled (fun c hc => ?_) rfl hcheck.toCalled hu (fun hb => ?_)
    fun hb => ?_
  · rw [takeRx, off_pending] at hc
    split at hc
    · cases hc
    · exact hc
  · have hsame : f.busy = u.busy := by
      have hthre := hback hb .thre (by decide)
      subst hf
      rw [busy, busy, firstRead_pending h (c := .rls) (by decide), firstRead_pending h (c := .rda) (by decide),
        firstRead_pending h (c := .ms) (by decide), hthre, hfirst.quiet_at hthre]
    rw [hsame, Bool.not_and_self]
  · have hq := fun c hc => hfirst.quiet_at (hback hb c hc)
    refine ⟨hdlab, hq .rls (by decide), hq .thre (by decide), hq .ms (by decide), fun hheard => ⟨?_, ?_⟩⟩
    · rw [← Bool.not_eq_false]
      intro hnot
      have hthre := hback hb .thre (by decide)
      rw [← hf, firstRead, if_neg (by rw [hnot]; decide)] at hthre
      exact absurd ((pending_comFlushInput h hheard).symm.trans hthre) (by decide)
    · rw [← Bool.not_eq_true]
      intro hloop
      have hraise : f.takeRx.clearInterrupt.heard .thre = true := by
        rw [heard_clearInterrupt]
        exact (hfirst.heard_eq .thre).trans hheard
      have hlooped : f.takeRx.clearInterrupt.loopbackState = true := by
        rw [loopbackState_clearInterrupt]
        exact hfirst.loopbackState.trans hloop
      rw [checkInput, if_pos hlooped] at hb
      have hthre : f.takeRx.clearInterrupt.setXmitCharStatus.pending .thre = true :=
        pending_raiseGated hraise
      exact absurd ((busy_of .thre hthre).symm.trans hb) (by decide)

/-- An access that turns one cause off and looks whether it may drop the line. -/
theorem Effect.of_off {v' : Uart} {c : Cause} {drops : Prop} {fresh : Bool} (h : Called u v)
    (hpending : v'.pending = (v.off c).pending) (hcalls : v'.calls = v.calls) (hu : u.calls = [])
    (hfresh : (∀ d, d ≠ c → v.pending d = false) → (!u.busy && v.busy) = fresh)
    (hdrops : (∀ d, d ≠ c → v.pending d = false) → drops) :
    Effect u.busy v'.clearInterrupt.busy drops fresh v'.clearInterrupt.calls := by
  have hback : v'.clearInterrupt.busy = false → ∀ d, d ≠ c → v.pending d = false := by
    intro hb d hd
    have hquiet := (Raised.refl v'.clearInterrupt).toCalled.quiet_cleared hb d
    rwa [hpending, off_pending, if_neg hd] at hquiet
  refine Effect.of_cleared h (fun d hd => ?_) hcalls (Raised.refl _).toCalled hu (fun hb => hfresh (hback hb))
    fun hb => hdrops (hback hb)
  rw [hpending, off_pending] at hd
  split at hd
  · cases hd
  · exact hd

theorem readIir_effect (hu : u.calls = []) :
    Effect u.busy u.readIir.2.busy (u.ReadDrops .iir) false u.readIir.2.calls := by
  have hg := raised_generateIir u
  have hiff := generateIir_thre u
  rw [readIir]
  dsimp only
  split
  · rename_i hid
    refine Effect.of_off (c := .thre) hg.toCalled rfl rfl hu (fun _ => ?_) fun hb => ⟨hiff.mp hid, ?_⟩
    · simp only [busy, generateIir_pending, Bool.not_and_self]
    · exact hg.quiet_at (hb .ms (by decide))
  · exact hg.toCalled.effect hu _ _

theorem readLsr_effect (hu : u.calls = []) :
    Effect u.busy u.readLsr.2.busy (u.ReadDrops .lsr) false u.readLsr.2.calls :=
  Effect.of_off (c := .rls) (Raised.refl u).toCalled rfl rfl hu (fun _ => Bool.not_and_self _) fun hb =>
    ⟨hb .rda (by decide), hb .thre (by decide), hb .ms (by decide)⟩

theorem readMsr_effect (hu : u.calls = []) (h : Host) :
    Effect u.busy (u.readMsr h).2.busy (u.ReadDrops .msr) (u.ReadFresh h.modem .msr) (u.readMsr h).2.calls := by
  have hm := raised_modemInputs u h
  refine Effect.of_off (c := .ms) hm.toCalled rfl rfl hu (fun hb => ?_) fun hb => ?_
  · have hms : (u.modemInputs h).pending .ms = (u.pending .ms || u.noticed h.modem) := by
      rw [modemInputs]
      split
      · rename_i hloop
        rw [noticed, hloop]; simp
      · exact modemChange_ms u _
    have hv : (u.modemInputs h).busy = (u.modemInputs h).pending .ms := by
      rw [busy, hb .rls (by decide), hb .rda (by decide), hb .thre (by decide)]; rfl
    have hub : u.busy = u.pending .ms := by
      rw [busy, hm.quiet_at (hb .rls (by decide)), hm.quiet_at (hb .rda (by decide)), hm.quiet_at (hb .thre (by decide))]; rfl
    rw [hv, hub, hms, ReadFresh]
    cases u.pending .ms <;> rfl
  · exact ⟨hm.quiet_at (hb .rls (by decide)), hm.quiet_at (hb .rda (by decide)), hm.quiet_at (hb .thre (by decide))⟩

/-- **The calls of a read.** -/
theorem inb_effect (hu : u.calls = []) (h : Host) (r : Reg) :
    Effect u.busy (u.inb h r).2.busy (u.ReadDrops r) (u.ReadFresh h.modem r) (u.inb h r).2.calls := by
  cases r with
  | txRx =>
    rw [inb]
    split
    · exact (Raised.refl u).toCalled.effect hu _ _
    · rename_i hdlab
      exact readRx_effect hu (Bool.not_eq_true _ ▸ hdlab) h
  | iir => exact readIir_effect hu
  | lsr => exact readLsr_effect hu
  | msr => exact readMsr_effect hu h
  | ier | lcr | mcr | scratch => exact (Raised.refl u).toCalled.effect hu _ _

theorem called_send (u : Uart) (pacing : Bool) : Called u (u.send pacing) := by
  rw [send]
  split
  · have hx := raised_setXmitCharStatus
      { u with rxBuffer := u.txBuffer &&& selectBits (u.lineControl.extractLsb' 0 2) }
    exact Called.trans (u := u) ⟨hx.mono, hx.calls⟩ (called_setRecvCharStatus _)
  · split
    · exact (Raised.refl u).toCalled
    · exact (raised_setXmitCharStatus u).toCalled

theorem heard_holdTx (u : Uart) (value : BitVec 8) (c : Cause) : (u.holdTx value).heard c = u.heard c :=
  heard_clearInterrupt (u.off .thre) c

theorem loopbackState_holdTx (u : Uart) (value : BitVec 8) :
    (u.holdTx value).loopbackState = u.loopbackState :=
  loopbackState_clearInterrupt (u.off .thre)

/-- A character sent without a cause left finds none enabled. -/
theorem send_quiet {pacing : Bool} (hb : (u.send pacing).busy = false) :
    (u.heard .thre = true → u.loopbackState = false ∧ pacing = true) ∧
      (u.loopbackState = true → if u.lineStatus.dataReady then u.heard .rls = false
        else u.enabled .rda = false) := by
  rw [send] at hb
  by_cases hloop : u.loopbackState = true
  · rw [if_pos hloop] at hb
    generalize hy : ({ u with rxBuffer :=
      u.txBuffer &&& selectBits (u.lineControl.extractLsb' 0 2) } : Uart) = y at hb
    have hyu : y.heard .thre = u.heard .thre ∧ y.heard .rls = u.heard .rls ∧
        y.enabled .rda = u.enabled .rda ∧ y.lineStatus = u.lineStatus ∧
        y.loopbackState = u.loopbackState := by
      subst hy; exact ⟨rfl, rfl, rfl, rfl, rfl⟩
    obtain ⟨hthre, hrls, hrda, hline, hlooped⟩ := hyu
    have hx := raised_setXmitCharStatus y
    have hready : y.setXmitCharStatus.lineStatus.dataReady = u.lineStatus.dataReady :=
      hx.dataReady.trans (congrArg _ hline)
    refine ⟨fun hheard => ?_, fun _ => ?_⟩
    · have hp : y.setXmitCharStatus.pending .thre = true := pending_raiseGated (hthre.trans hheard)
      rw [(called_setRecvCharStatus _).quiet hb .thre] at hp
      cases hp
    · rw [setRecvCharStatus, hready] at hb
      split
      · rename_i hd
        rw [if_pos hd] at hb
        rw [← Bool.not_eq_true]
        intro hheard
        have hp := busy_of .rls (pending_raiseGated (c := .rls) (u := { y.setXmitCharStatus with
          lineStatus := { y.setXmitCharStatus.lineStatus with overrunError := true } })
          ((hx.heard_eq .rls).trans (hrls.trans hheard)))
        exact absurd (hp.symm.trans hb) (by decide)
      · rename_i hd
        rw [if_neg hd] at hb
        rw [← Bool.not_eq_true]
        intro he
        have hp := busy_of .rda (pending_raiseRda (u := { y.setXmitCharStatus with
          lineStatus := { y.setXmitCharStatus.lineStatus with dataReady := true } })
          ((hx.enabled_eq .rda).trans (hrda.trans he))
          (.inr (hx.loopbackState.trans (hlooped.trans hloop))))
        exact absurd (hp.symm.trans hb) (by decide)
  · rw [if_neg hloop] at hb
    refine ⟨fun hheard => ⟨Bool.not_eq_true _ ▸ hloop, ?_⟩, fun h => absurd h hloop⟩
    rw [← Bool.not_eq_false]
    intro hpacing
    rw [if_neg (by rw [hpacing]; decide)] at hb
    have hp : u.doWaitOnSend.pending .thre = true := pending_raiseGated hheard
    exact absurd ((busy_of .thre hp).symm.trans hb) (by decide)

theorem writeTx_effect (hu : u.calls = []) (hdlab : u.dlab = false) (pacing : Bool) (value : BitVec 8) :
    Effect u.busy (u.writeTx pacing value).busy (u.WriteDrops pacing value .txRx) false
      (u.writeTx pacing value).calls := by
  have hsend : Called (u.off .thre).clearInterrupt (u.writeTx pacing value) := by
    have h := called_send (u.holdTx value) pacing
    exact ⟨h.mono, h.calls⟩
  have hback : (u.writeTx pacing value).busy = false → ∀ c, c ≠ .thre → u.pending c = false := by
    intro hb c hc
    have hquiet := hsend.quiet_cleared hb c
    rwa [off_pending, if_neg hc] at hquiet
  refine Effect.of_cleared (x := u.off .thre) (Raised.refl u).toCalled (fun c hc => ?_) rfl hsend hu
    (fun _ => Bool.not_and_self _) fun hb => ?_
  · rw [off_pending] at hc
    split at hc
    · cases hc
    · exact hc
  · have hq := send_quiet hb
    rw [heard_holdTx, heard_holdTx, loopbackState_holdTx] at hq
    have he : (u.holdTx value).enabled .rda = u.enabled .rda := by
      have h : (u.off .thre).clearInterrupt.enabled .rda = u.enabled .rda := by
        rw [clearInterrupt]
        split <;> rfl
      exact h
    rw [he] at hq
    exact ⟨hdlab, hback hb .rls (by decide), hback hb .rda (by decide), hback hb .ms (by decide), hq⟩

theorem pending_actionable_thre (he : u.lineStatus.txHoldingEmpty = true) (h : u.heard .thre = true) :
    u.actionable.pending .thre = true := by
  have hr := raised_raiseReady u
  have hline : u.raiseReady.lineStatus = u.lineStatus := by
    rw [raiseReady, raiseRda, raiseInterrupt]
    split_ifs <;> rfl
  rw [actionable, raiseEmpty, hline, if_pos he]
  exact pending_raiseGated ((hr.heard_eq .thre).trans h)

theorem writeIer_effect (hu : u.calls = []) (hdlab : u.dlab = false) (pacing : Bool) (value : BitVec 8) :
    Effect u.busy (u.writeIer value).busy (u.WriteDrops pacing value .ier) false
      (u.writeIer value).calls := by
  have ha := (raised_actionable (u.enable value)).toCalled
  have hquiet : (u.writeIer value).busy = false → (u.enable value).actionable.busy = false :=
    fun hb => (clearInterrupt_busy _).symm.trans hb
  have h : Effect (u.enable value).busy (u.writeIer value).busy (u.WriteDrops pacing value .ier) false
      (u.writeIer value).calls := by
    refine Effect.of_cleared ha (fun _ hc => hc) rfl (Raised.refl _).toCalled hu (fun hb => ?_) fun hb => ?_
    · rw [hquiet hb, Bool.and_false]
    · have hq := hquiet hb
      refine ⟨hdlab, fun c hc => ?_, fun hd h0 => ?_, fun he h1 => ?_⟩
      · have hoff : (u.pending c && (value &&& 0xf).getLsbD c.enableBit) = false := ha.quiet hq c
        rwa [hc, Bool.true_and] at hoff
      · by_contra hgate
        have hp := pending_actionable (u := u.enable value) hd h0 (by
          rw [not_and_or, Bool.not_eq_false, Bool.not_eq_false] at hgate
          exact hgate)
        exact absurd ((busy_of .rda hp).symm.trans hq) (by decide)
      · rw [← Bool.not_eq_true]
        intro hout
        have hp := pending_actionable_thre (u := u.enable value) he (Bool.and_eq_true _ _ ▸ ⟨hout, h1⟩)
        exact absurd ((busy_of .thre hp).symm.trans hq) (by decide)
  refine ⟨fun hb => ?_, h.lowered⟩
  refine (h.raised hb).imp_left fun ⟨hcalls, hbusy⟩ => ⟨hcalls, ?_⟩
  obtain ⟨c, hc⟩ := busy_iff.mp hbusy
  have hc' : (u.pending c && (value &&& 0xf).getLsbD c.enableBit) = true := hc
  exact busy_of c (Bool.and_eq_true _ _ ▸ hc').1

theorem called_writeMcr (u : Uart) (h : Host) (value : BitVec 8) : Called u (u.writeMcr h value) := by
  rw [writeMcr]
  split
  · exact (Raised.refl u).toCalled
  · have hloop := raised_setLoopback { u with modemControl := .ofByte value } h.modem
    have hout := ((raised_setDtr ({ u with modemControl := .ofByte value }.setLoopback h.modem)).trans
      (raised_setRts _)).trans (raised_setOut1 _)
    have hout2 := raised_setOut2
      ({ u with modemControl := .ofByte value }.setLoopback h.modem).setDtr.setRts.setOut1
    exact (Called.trans (u := u) ⟨hloop.mono, hloop.calls⟩ hout.toCalled).trans ⟨hout2.mono, hout2.calls⟩

/-- **The calls of a write.** -/
theorem outb_effect (hu : u.calls = []) (pacing : Bool) (h : Host) (value : BitVec 8) (r : Reg) :
    Effect u.busy (u.outb pacing h value r).busy (u.WriteDrops pacing value r) false
      (u.outb pacing h value r).calls := by
  have hbaud : ∀ d : BitVec 16, Called u (({ u with divisorLatch := d } : Uart).setBaudRate h) := by
    intro d
    have hb := raised_setBaudRate { u with divisorLatch := d } h
    exact ⟨hb.mono, hb.calls⟩
  cases r with
  | txRx =>
    rw [outb]
    split
    · exact (hbaud _).effect hu _ _
    · rename_i hdlab
      exact writeTx_effect hu (Bool.not_eq_true _ ▸ hdlab) pacing value
  | ier =>
    rw [outb]
    split
    · exact (hbaud _).effect hu _ _
    · rename_i hdlab
      exact writeIer_effect hu (Bool.not_eq_true _ ▸ hdlab) pacing value
  | iir => exact (Raised.refl u).toCalled.effect hu _ _
  | lcr => exact ((raised_flushFor u h value).trans (.same rfl rfl rfl rfl rfl rfl rfl)).toCalled.effect hu _ _
  | mcr => exact (called_writeMcr u h value).effect hu _ _
  | lsr => exact Called.effect ⟨fun _ hc => hc, by simp [busy]⟩ hu _ _
  | msr => exact (raised_writeMsr u value).toCalled.effect hu _ _
  | scratch => exact (Raised.same rfl rfl rfl rfl rfl rfl rfl).toCalled.effect hu _ _

theorem readDrops_start (u : Uart) (r : Reg) : u.start.ReadDrops r = u.ReadDrops r := by
  cases r <;> rfl

theorem writeDrops_start (u : Uart) (pacing : Bool) (value : BitVec 8) (r : Reg) :
    u.start.WriteDrops pacing value r = u.WriteDrops pacing value r := by
  cases r <;> rfl

theorem readFresh_start (u : Uart) (m : Modem) (r : Reg) : u.start.ReadFresh m r = u.ReadFresh m r := by
  cases r <;> rfl

end Uart

/-! ## The PIC's side -/

/-- The master's request of a line. -/
def requested (p : Ica.Pic) (line : Fin 8) : Bool := Ica.on (p.adapter .master).irr line

theorem interruptMaster_master (p : Ica.Pic) (line : Fin 8) :
    ((p.interruptMaster line).adapter .master).irr = (p.adapter .master).irr ∧
      ((p.interruptMaster line).adapter .master).count = (p.adapter .master).count := by
  rw [Ica.Pic.interruptMaster]
  dsimp only
  split <;> exact ⟨rfl, rfl⟩

/-- A request: the line is raised, no other lowered. -/
theorem raise_ends (p : Ica.Pic) (line : Fin 8) :
    EndsUnless (· = .overflow .master line) (p.hwInterrupt .master line 1) fun q =>
      requested q line = true ∧ (∀ l, requested p l = true → requested q l = true) ∧
        (q.adapter .master).count line = (p.adapter .master).count line + 1 := by
  rw [Ica.Pic.hwInterrupt, Ica.Pic.hwInterruptBy, Ica.Pic.index, dif_pos line.isLt]
  change EndsUnless _ (p.request .master line 1 >>= _) _
  refine EndsUnless.bind (Q := fun q => requested q line = true ∧
    (∀ l, requested p l = true → requested q l = true) ∧
      (q.adapter .master).count line = (p.adapter .master).count line + 1) ?_ fun q hq => ?_
  · rw [Ica.Pic.request]
    refine .ite (fun _ => .ok ⟨?_, fun l hl => ?_, ?_⟩) fun _ => .error rfl
    · simp [requested]
    · rw [requested] at hl
      simp [requested, hl]
    · simp
  · refine .ite (fun _ => .ok hq) fun _ => ?_
    refine EndsUnless.bind (Q := fun r => (r.adapter .master).irr = (q.adapter .master).irr ∧
      (r.adapter .master).count = (q.adapter .master).count) ?_ fun r hr => .ok ?_
    · rw [Ica.Pic.scanBy]
      split
      · exact .ok ⟨rfl, rfl⟩
      · exact .ok (interruptMaster_master _ _)
    · simp only [requested] at hq ⊢
      rw [hr.1, hr.2]
      exact hq

/-- A withdrawal: the other lines stay, and so does this one while it has another request. -/
theorem clear_ends (p : Ica.Pic) (line : Fin 8) :
    Ends (p.clearInt .master line) fun q => (∀ l, l ≠ line → requested q l = requested p l) ∧
      (1 < (p.adapter .master).count line → requested q line = requested p line) := by
  have hw : (∀ l, l ≠ line → requested (p.withdraw .master line) l = requested p l) ∧
      (1 < (p.adapter .master).count line →
        requested (p.withdraw .master line) line = requested p line) := by
    rw [Ica.Pic.withdraw]
    dsimp only
    split
    · refine ⟨fun l hl => ?_, fun _ => by omega⟩
      simp [requested, hl.symm]
    · exact ⟨fun l _ => by simp [requested], fun _ => by simp [requested]⟩
  have hhook : ∀ (q : Ica.Pic) pending, ((q.hookIf pending .master line).adapter .master) =
      q.adapter .master := by
    intro q pending
    rw [Ica.Pic.hookIf]
    split <;> rfl
  rw [Ica.Pic.clearInt, Ica.Pic.clearMaster, Ica.Pic.index, dif_pos line.isLt]
  refine .ite (fun _ => .ok ?_) fun _ => .ok hw
  simp only [requested, hhook]
  split
  · exact hw
  · exact hw

/-! ## The board -/

/-- The port an operation reaches. -/
def Op.adapter : Op → Option (Fin 4)
  | .inb port _ | .outb port _ _ => some (adapterForPort port)
  | .comRecvChar a _ | .recvChar a _ | .doWaitOnSend a | .modemChange a _ => some a
  | .pic _ => none

/-- The guest does not write the line status register. -/
def Op.Guest : Op → Prop
  | .outb port _ _ => regOf port ≠ .lsr
  | _ => True

/-- Its port is left without a cause and has its line dropped. -/
def Op.Drops (u : Uart) (pacing : Bool) : Op → Prop
  | .inb port _ => u.ReadDrops (regOf port)
  | .outb port value _ => u.WriteDrops pacing value (regOf port)
  | _ => False

/-- …after a request of its own in the same access. -/
def Op.fresh (u : Uart) : Op → Bool
  | .inb port h => u.ReadFresh h.modem (regOf port)
  | _ => false

/-- OUT2 goes on in loopback over a character that waits unreported. -/
def Op.Unheard (u : Uart) : Op → Prop
  | .outb port value _ => regOf port = .mcr ∧ u.Unheard value
  | _ => False

/-- The last request of the line is withdrawn from under the other port. -/
def Op.Steals (b : Board) (a : Fin 4) (op : Op) : Prop :=
  op.Drops (b.uart a) b.txPacing ∧
    (b.pic.adapter .master).count (lineOf a) + (if op.fresh (b.uart a) then 1 else 0) ≤ 1 ∧
    requested b.pic (lineOf a) = true ∧
    ∃ a', a' ≠ a ∧ lineOf a' = lineOf a ∧ (b.uart a').busy = true

/-- What an operation must find. -/
def Op.Sound (b : Board) (op : Op) : Prop :=
  ∀ a, op.adapter = some a → ¬op.Unheard (b.uart a) ∧ ¬op.Steals b a

/-- Between two states of the board: a port that has got a cause has its line requested, and the request
of a line stays while a port on it has one. -/
structure Kept (b b' : Board) : Prop where
  raised : ∀ a, (b.uart a).busy = false → (b'.uart a).busy = true → requested b'.pic (lineOf a) = true
  held : ∀ a, (b'.uart a).busy = true → requested b.pic (lineOf a) = true →
    requested b'.pic (lineOf a) = true

/-- A call leaves the requests of the other lines. -/
theorem serve_others (line : Fin 8) (calls : List Call) (p : Ica.Pic) :
    Yields (calls.foldlM (serve line) p) fun q =>
      ∀ l, l ≠ line → requested p l = true → requested q l = true := by
  induction calls generalizing p with
  | nil => exact .ok fun _ _ h => h
  | cons c calls ih =>
    rw [List.foldlM_cons]
    refine Yields.bind (Q := fun q => ∀ l, l ≠ line → requested p l = true → requested q l = true) ?_
      fun q hq => (ih q).mono fun r hr l hne hl => hr l hne (hq l hne hl)
    intro q hq l hne hl
    cases c with
    | raise => exact ((raise_ends p line).of_eq hq).2.1 l hl
    | clear => exact (((clear_ends p line).unless (E := fun _ => False)).of_eq hq).1 l hne |>.trans hl

/-- Calls return unless the line's count overflows. -/
theorem serve_returns (line : Fin 8) (calls : List Call) (p : Ica.Pic) :
    EndsUnless (· = .overflow .master line) (calls.foldlM (serve line) p) fun _ => True := by
  induction calls generalizing p with
  | nil => exact .ok trivial
  | cons c calls ih =>
    rw [List.foldlM_cons]
    refine EndsUnless.bind (Q := fun _ => True) ?_ fun q _ => ih q
    cases c with
    | raise => exact (raise_ends p line).mono fun _ _ => trivial
    | clear => exact (clear_ends p line).unless.mono fun _ _ => trivial

/-- What a port's calls leave of the requests. -/
theorem serve_calls {u : Uart} {busy : Bool} {drops : Prop} {fresh : Bool} (line : Fin 8) (p : Ica.Pic)
    (h : Uart.Effect busy u.busy drops fresh u.calls) :
    EndsUnless (· = .overflow .master line) (u.calls.foldlM (serve line) p) fun q =>
      (∀ l, l ≠ line → requested p l = true → requested q l = true) ∧
      (u.busy = true → busy = false ∨ requested p line = true → requested q line = true) ∧
      (u.busy = false →
        (drops → 1 < (p.adapter .master).count line + if fresh then 1 else 0) →
        requested p line = true → requested q line = true) := by
  have hothers := serve_others line u.calls p
  cases hb : u.busy
  · refine (EndsUnless.and_yields (Q := fun q => (drops → 1 < (p.adapter .master).count line +
      if fresh then 1 else 0) → requested p line = true → requested q line = true) ?_ hothers).mono
      fun q hq => ⟨hq.2, nofun, fun _ => hq.1⟩
    obtain hnone | ⟨hcalls, hdrops⟩ := h.lowered hb
    · rw [hnone]
      exact .ok fun _ hp => hp
    · rw [hcalls]
      cases fresh
      · refine (clear_ends p line).unless.bind fun q hq => .ok fun hcount hp => ?_
        have := hcount hdrops
        exact (hq.2 (by simpa using this)).trans hp
      · refine (raise_ends p line).bind fun q hq => (clear_ends q line).unless.bind fun r hr =>
          .ok fun hcount _ => ?_
        have := hcount hdrops
        rw [if_pos rfl] at this
        exact (hr.2 (by rw [hq.2.2]; exact this)).trans hq.1
  · refine (EndsUnless.and_yields (Q := fun q => busy = false ∨ requested p line = true →
      requested q line = true) ?_ hothers).mono fun q hq => ⟨hq.2, fun _ => hq.1, nofun⟩
    obtain ⟨hnone, hbusy⟩ | hlast := h.raised hb
    · rw [hnone]
      refine .ok fun hp => hp.resolve_left ?_
      rw [hbusy]; decide
    · obtain ⟨calls, hcalls⟩ := List.getLast?_eq_some_iff.mp hlast
      rw [hcalls, List.foldlM_append]
      refine EndsUnless.bind (Q := fun _ => True) (serve_returns line calls p) fun q _ => ?_
      exact (raise_ends q line).bind fun r hr => .ok fun _ => hr.1

/-- An operation of a port, in a state where it does not steal. -/
theorem access_kept {b : Board} {a : Fin 4} {f : Uart → Uart} {drops : Prop} {fresh : Bool}
    (h : Uart.Effect (b.uart a).busy (f (b.uart a).start).busy drops fresh
      (f (b.uart a).start).calls)
    (hkeep : ¬(drops ∧ (b.pic.adapter .master).count (lineOf a) + (if fresh then 1 else 0) ≤ 1 ∧
      requested b.pic (lineOf a) = true ∧
        ∃ a', a' ≠ a ∧ lineOf a' = lineOf a ∧ (b.uart a').busy = true)) :
    EndsUnless (· = .overflow .master (lineOf a)) (b.access a f) (Kept b) := by
  rw [Board.access]
  generalize f (b.uart a).start = u at h ⊢
  refine (serve_calls (lineOf a) b.pic h).bind fun q ⟨hothers, hbusy, hquiet⟩ => .ok ?_
  have hself : Function.update b.uart a u a = u := Function.update_self ..
  have hother : ∀ a', a' ≠ a → Function.update b.uart a u a' = b.uart a' :=
    fun a' ha => Function.update_of_ne ha ..
  refine ⟨fun a' hno (hyes : (Function.update b.uart a u a').busy = true) => ?_,
    fun a' (hyes : (Function.update b.uart a u a').busy = true) hp => ?_⟩
  · by_cases ha : a' = a
    · subst ha
      rw [hself] at hyes
      exact hbusy hyes (.inl hno)
    · rw [hother a' ha, hno] at hyes
      cases hyes
  · by_cases ha : a' = a
    · subst ha
      rw [hself] at hyes
      exact hbusy hyes (.inr hp)
    · rw [hother a' ha] at hyes
      by_cases hline : lineOf a' = lineOf a
      · rw [hline] at hp ⊢
        cases hb : u.busy
        · refine hquiet hb (fun hdrops => ?_) hp
          by_contra hcount
          exact hkeep ⟨hdrops, not_lt.mp hcount, hp, a', ha, hline, hyes⟩
        · exact hbusy hb (.inr hp)
      · exact hothers _ hline hp

/-- **A step keeps the requests** where it is sound, and returns unless a count overflows. -/
theorem step_kept {b : Board} {op : Op} {a : Fin 4} (ha : op.adapter = some a) (hop : op.Sound b) :
    EndsUnless (· = .overflow .master (lineOf a)) (b.step op) (Kept b) := by
  have hsteals := (hop a ha).2
  cases op with
  | inb port h =>
    obtain rfl := Option.some.inj ha
    refine access_kept (f := fun u => (u.inb h (regOf port)).2)
      (Uart.inb_effect (u := (b.uart _).start) rfl h (regOf port)) ?_
    rw [Uart.readDrops_start, Uart.readFresh_start]
    exact hsteals
  | outb port value h =>
    obtain rfl := Option.some.inj ha
    refine access_kept (f := fun u => u.outb b.txPacing h value (regOf port))
      (Uart.outb_effect (u := (b.uart _).start) rfl b.txPacing h value (regOf port)) ?_
    rw [Uart.writeDrops_start]
    exact hsteals
  | comRecvChar a' h =>
    obtain rfl := Option.some.inj ha
    exact access_kept (f := fun u => u.comRecvChar h)
      ((Uart.called_comRecvChar (b.uart _).start h).effect rfl False false) fun h => h.1
  | recvChar a' h =>
    obtain rfl := Option.some.inj ha
    exact access_kept (f := fun u => u.recvChar h)
      ((Uart.called_recvChar (b.uart _).start h).effect rfl False false) fun h => h.1
  | doWaitOnSend a' =>
    obtain rfl := Option.some.inj ha
    exact access_kept (f := Uart.doWaitOnSend)
      ((Uart.raised_setXmitCharStatus (b.uart _).start).toCalled.effect rfl False false) fun h => h.1
  | modemChange a' h =>
    obtain rfl := Option.some.inj ha
    exact access_kept (f := fun u => u.modemChange h.modem)
      ((Uart.raised_modemChange (b.uart _).start h.modem).toCalled.effect rfl False false) fun h => h.1
  | pic op => cases ha

/-! ## Runs -/

/-- An access keeps the ports sane. -/
theorem access_sane {b : Board} {a : Fin 4} {f : Uart → Uart} (hb : ∀ a, (b.uart a).Sane)
    (hf : (b.uart a).start.Sane → (f (b.uart a).start).Sane) :
    Yields (b.access a f) fun b' => ∀ a, (b'.uart a).Sane := by
  have ha : (b.uart a).start.Sane := ⟨(hb a).enabled, (hb a).received, (hb a).out2, (hb a).loop⟩
  refine Yields.bind (Q := fun _ => True) (fun _ _ => trivial) fun q _ => .ok fun a' => ?_
  change (Function.update b.uart a (f (b.uart a).start) a').Sane
  by_cases h : a' = a
  · subst h
    rw [Function.update_self]
    exact hf ha
  · rw [Function.update_of_ne h]
    exact hb a'

theorem step_sane {b : Board} {op : Op} (hb : ∀ a, (b.uart a).Sane) (hop : op.Guest ∧ op.Sound b) :
    Yields (b.step op) fun b' => ∀ a, (b'.uart a).Sane := by
  cases op with
  | inb port h =>
    exact access_sane (f := fun u => (u.inb h (regOf port)).2) hb fun hu => hu.inb h (regOf port)
  | outb port value h =>
    exact access_sane (f := fun u => u.outb b.txPacing h value (regOf port)) hb fun hu =>
      hu.outb b.txPacing h hop.1 fun hr hun => (hop.2 _ rfl).1 ⟨hr, hun⟩
  | comRecvChar a h => exact access_sane (f := fun u => u.comRecvChar h) hb fun hu => hu.comRecvChar h
  | recvChar a h => exact access_sane (f := fun u => u.recvChar h) hb fun hu => hu.recvChar h
  | doWaitOnSend a => exact access_sane hb fun hu => hu.raised (Uart.raised_setXmitCharStatus _)
  | modemChange a h =>
    exact access_sane (f := fun u => u.modemChange h.modem) hb fun hu =>
      hu.raised (Uart.raised_modemChange _ h.modem)
  | pic op => exact Yields.bind (Q := fun _ => True) (fun _ _ => trivial) fun q _ => .ok hb

/-- What the guest can count on of the causes in a state. -/
structure Reported (b : Board) : Prop where
  identified : ∀ a h, ((b.uart a).inb h .iir).1 = identified (highest (b.uart a).pending)
  cleared : ∀ a h, ((b.uart a).inb h .iir).2.pending =
    if highest (b.uart a).pending = some .thre then Function.update (b.uart a).pending .thre false
    else (b.uart a).pending
  enabled : ∀ a c, (b.uart a).pending c = true → (b.uart a).enabled c = true
  received : ∀ a, (b.uart a).lineStatus.dataReady = true → (b.uart a).enabled .rda = true →
    (b.uart a).modemControl.out2 = true → (b.uart a).pending .rda = true

/-- **Causes are reported, and their requests kept**, in every run of sound operations: what it reaches
is `Reported`, and each further operation of a port keeps the requests of the lines. -/
theorem causes_reported (pacing : Bool) (ops : List Op) {b : Board}
    (h : Meets Board.step (fun b op => op.Guest ∧ op.Sound b) (Board.init pacing) ops)
    (hrun : (Board.init pacing).run ops = .ok b) :
    Reported b ∧ ∀ op a, op.adapter = some a → op.Sound b →
      EndsUnless (· = .overflow .master (lineOf a)) (b.step op) (Kept b) := by
  have hsane : ∀ a, (b.uart a).Sane :=
    h.yields_foldlM (fun b op hb hop => step_sane hb hop) (fun _ => Uart.sane_comInit) b hrun
  refine ⟨⟨fun a h => Uart.readIir_identifies _, fun a h => Uart.readIir_pending _,
    fun a => (hsane a).enabled, fun a => (hsane a).received⟩, fun op a ha hop => step_kept ha hop⟩

/-- COM3's transmitter-empty cause, enabled after a reset and then read. -/
theorem causes_reported_com3 :
    ∃ b, (Board.init false).run [.outb 0x3e9 0x02 {}] = .ok b ∧ Reported b ∧
      EndsUnless (· = .overflow .master 4) (b.step (.inb 0x3ea {})) (Kept b) := by
  have hwrite : (Op.outb 0x3e9 0x02 {}).Sound (Board.init false) := by
    rintro a ⟨⟩
    exact ⟨fun h => absurd h.1 (by decide), fun h => absurd (h.1.2.2.2 rfl rfl) (by decide)⟩
  have hguest : (Op.outb 0x3e9 0x02 {}).Guest := by
    change regOf 0x3e9 ≠ .lsr
    decide
  obtain ⟨b, hrun⟩ : ∃ b, (Board.init false).run [.outb 0x3e9 0x02 {}] = .ok b := ⟨_, rfl⟩
  obtain ⟨hreported, hkept⟩ := causes_reported false [.outb 0x3e9 0x02 {}] ⟨⟨hguest, hwrite⟩, fun _ _ => trivial⟩ hrun
  have hidle : ∀ a', a' ≠ 2 → (b.uart a').busy = false := by
    cases hrun
    decide
  refine ⟨b, hrun, hreported, hkept (.inb 0x3ea {}) 2 rfl ?_⟩
  rintro a ⟨⟩
  refine ⟨id, fun ⟨_, _, _, a', hne, hline, hbusy⟩ => ?_⟩
  rw [hidle a' hne] at hbusy
  cases hbusy

/-- A read of COM1's line status withdraws COM3's request. -/
theorem shared_line_dropped :
    ∃ b b', (Board.init false).run [.outb 0x3e9 0x02 {}] = .ok b ∧
      b.step (.inb 0x3fd {}) = .ok b' ∧ (b'.uart 2).busy = true ∧ requested b.pic 4 = true ∧
        requested b'.pic 4 = false := ⟨_, _, rfl, rfl, by decide, by decide, by decide⟩

/-- COM1's character, looped back while unheard, still waits when OUT2 goes on in loopback. -/
example : ∃ b, (Board.init false).run [.outb 0x3fc 0x10 {}, .outb 0x3f8 0x41 {}, .outb 0x3fc 0x00 {},
      .outb 0x3f9 0x01 {}, .outb 0x3fc 0x18 {}] = .ok b ∧
    (b.uart 0).lineStatus.dataReady = true ∧ (b.uart 0).enabled .rda = true ∧
      (b.uart 0).modemControl.out2 = true ∧ (b.uart 0).pending .rda = false :=
  ⟨_, rfl, by decide, by decide, by decide, by decide⟩

end SoftPC.Com
