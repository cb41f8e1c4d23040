import Mathlib.Tactic.Push
import SoftPC.Comms.Com

/-!
# Comms/ComCauses — what an access does to a port's causes

Most of `com.c` only raises: a function whose result is `Raised` keeps the registers the causes depend on,
turns causes on that are enabled, and calls the PIC once if the port had none.  Ten accesses also turn a
cause off and call `clear_interrupt` (`Effect`).  Either way the port stays `Sane`.
-/

namespace SoftPC.Com

namespace Uart

variable {u v w : Uart}

/-- OUT2 and the enable bit let a cause through. -/
def heard (u : Uart) (c : Cause) : Bool := u.modemControl.out2 && u.enabled c

theorem busy_iff : u.busy = true ↔ ∃ c, u.pending c = true := by
  constructor
  · intro h
    rw [busy, Bool.or_eq_true, Bool.or_eq_true, Bool.or_eq_true] at h
    obtain ((h | h) | h) | h := h
    exacts [⟨_, h⟩, ⟨_, h⟩, ⟨_, h⟩, ⟨_, h⟩]
  · rintro ⟨c, h⟩
    cases c <;> simp [busy, h]

@[simp] theorem on_pending (u : Uart) (c d : Cause) :
    (u.on c).pending d = if d = c then true else u.pending d := Function.update_apply ..

@[simp] theorem off_pending (u : Uart) (c d : Cause) :
    (u.off c).pending d = if d = c then false else u.pending d := Function.update_apply ..

theorem busy_of (c : Cause) (h : u.pending c = true) : u.busy = true := busy_iff.2 ⟨c, h⟩

/-! ## Raising -/

/-- `v` has the causes of `u`, and has called the PIC if `u` had none and it has one. -/
structure Called (u v : Uart) : Prop where
  mono : ∀ c, u.pending c = true → v.pending c = true
  calls : v.calls = u.calls ++ if !u.busy && v.busy then [.raise] else []

theorem Called.busy (h : Called u v) (hu : u.busy = true) : v.busy = true := by
  obtain ⟨c, hc⟩ := busy_iff.1 hu
  exact busy_of c (h.mono c hc)

theorem Called.trans (h : Called u v) (h' : Called v w) : Called u w where
  mono c hc := h'.mono c (h.mono c hc)
  calls := by
    have hw := h'.busy
    have hv := h.busy
    rw [h'.calls, h.calls, List.append_assoc]
    cases hu : u.busy <;> cases hvb : v.busy <;> cases hwb : w.busy <;>
      simp_all

/-- …with what the causes depend on as it was, and the new ones enabled. -/
structure Raised (u v : Uart) : Prop extends Called u v where
  intEnable : v.intEnable = u.intEnable
  modemControl : v.modemControl = u.modemControl
  dataReady : v.lineStatus.dataReady = u.lineStatus.dataReady
  out2State : v.out2State = u.out2State
  loopbackState : v.loopbackState = u.loopbackState
  enabled : ∀ c, v.pending c = true → u.pending c = true ∨ u.enabled c = true

theorem Raised.same (hi : v.intEnable = u.intEnable) (hm : v.modemControl = u.modemControl)
    (hd : v.lineStatus.dataReady = u.lineStatus.dataReady) (ho : v.out2State = u.out2State)
    (hl : v.loopbackState = u.loopbackState) (hp : v.pending = u.pending) (hc : v.calls = u.calls) :
    Raised u v where
  intEnable := hi
  modemControl := hm
  dataReady := hd
  out2State := ho
  loopbackState := hl
  mono c h := by rw [hp]; exact h
  enabled c h := by rw [hp] at h; exact .inl h
  calls := by
    have : v.busy = u.busy := by simp only [busy, hp]
    rw [hc, this, Bool.not_and_self, if_neg Bool.false_ne_true, List.append_nil]

theorem Raised.refl (u : Uart) : Raised u u := .same rfl rfl rfl rfl rfl rfl rfl

theorem Raised.trans (h : Raised u v) (h' : Raised v w) : Raised u w where
  toCalled := h.toCalled.trans h'.toCalled
  intEnable := h'.intEnable.trans h.intEnable
  modemControl := h'.modemControl.trans h.modemControl
  dataReady := h'.dataReady.trans h.dataReady
  out2State := h'.out2State.trans h.out2State
  loopbackState := h'.loopbackState.trans h.loopbackState
  enabled c hc := by
    obtain hv | hv := h'.enabled c hc
    · exact h.enabled c hv
    · rw [Uart.enabled, h.intEnable] at hv
      exact .inr hv

/-- A record edited before a raise, in what the causes do not depend on. -/
theorem Raised.after (h : Raised v w) (hv : Raised u v) : Raised u w := hv.trans h

theorem raised_on {c : Cause} (he : u.enabled c = true) : Raised u (u.raiseInterrupt.on c) := by
  have hfields : ∀ {r : Uart}, r = u.raiseInterrupt → r.intEnable = u.intEnable ∧
      r.modemControl = u.modemControl ∧ r.lineStatus = u.lineStatus ∧ r.out2State = u.out2State ∧
      r.loopbackState = u.loopbackState ∧ r.pending = u.pending := by
    rintro r rfl
    rw [raiseInterrupt]
    split <;> exact ⟨rfl, rfl, rfl, rfl, rfl, rfl⟩
  obtain ⟨hi, hm, hs, ho, hl, hp⟩ := hfields rfl
  have hbusy : (u.raiseInterrupt.on c).busy = true := busy_of c (Function.update_self ..)
  refine ⟨⟨fun d hd => ?_, ?_⟩, hi, hm, congrArg _ hs, ho, hl, fun d hd => ?_⟩
  · rw [on_pending, hp]
    split
    · rfl
    · exact hd
  · rw [hbusy, Bool.and_true]
    change u.raiseInterrupt.calls = _
    rw [raiseInterrupt]
    cases u.busy
    · rfl
    · exact (List.append_nil _).symm
  · rw [on_pending, hp] at hd
    split at hd
    · rename_i hdc
      exact .inr (hdc ▸ he)
    · exact .inl hd

theorem raised_raiseGated (u : Uart) (c : Cause) : Raised u (u.raiseGated c) := by
  rw [raiseGated]
  split
  · exact .refl u
  · split
    · exact .refl u
    · rename_i h
      exact raised_on (by simpa using h)

theorem raised_raiseRda (u : Uart) : Raised u u.raiseRda := by
  rw [raiseRda]
  split
  · exact .refl u
  · split
    · exact .refl u
    · rename_i h
      exact raised_on (by simpa using h)

theorem pending_raiseGated {c : Cause} (h : u.heard c = true) : (u.raiseGated c).pending c = true := by
  rw [heard, Bool.and_eq_true] at h
  rw [raiseGated, h.1, h.2]
  exact Function.update_self ..

theorem pending_raiseRda (he : u.enabled .rda = true)
    (h : u.modemControl.out2 = true ∨ u.loopbackState = true) : u.raiseRda.pending .rda = true := by
  have hgate : (!u.modemControl.out2 && !u.loopbackState) = false := by
    obtain h | h := h <;> simp [h]
  rw [raiseRda, hgate, he]
  simp

theorem raised_setXmitCharStatus (u : Uart) : Raised u u.setXmitCharStatus :=
  (raised_raiseGated _ .thre).after (.same rfl rfl rfl rfl rfl rfl rfl)

theorem raised_comFlushInput (u : Uart) (h : Host) : Raised u (u.comFlushInput h) :=
  (raised_setXmitCharStatus _).after (.same rfl rfl rfl rfl rfl rfl rfl)

theorem pending_comFlushInput (h : Host) (hthre : u.heard .thre = true) :
    (u.comFlushInput h).pending .thre = true :=
  pending_raiseGated hthre

/-- A character makes data ready, whether it finds the buffer free or not. -/
theorem raised_setRecvCharStatus (u : Uart) :
    Raised { u with lineStatus := { u.lineStatus with dataReady := true } } u.setRecvCharStatus := by
  rw [setRecvCharStatus]
  split
  · rename_i h
    exact (raised_raiseGated _ .rls).after (.same rfl rfl h rfl rfl rfl rfl)
  · exact raised_raiseRda _

theorem called_setRecvCharStatus (u : Uart) : Called u u.setRecvCharStatus :=
  have h := raised_setRecvCharStatus u
  ⟨h.mono, h.calls⟩

/-! ### Modem lines -/

theorem raised_setCts (u : Uart) (state : Bool) : Raised u (u.setCts state) :=
  (raised_raiseGated _ .ms).after (.same rfl rfl rfl rfl rfl rfl rfl)

theorem raised_setDsr (u : Uart) (state : Bool) : Raised u (u.setDsr state) :=
  (raised_raiseGated _ .ms).after (.same rfl rfl rfl rfl rfl rfl rfl)

theorem raised_setRlsd (u : Uart) (state : Bool) : Raised u (u.setRlsd state) :=
  (raised_raiseGated _ .ms).after (.same rfl rfl rfl rfl rfl rfl rfl)

theorem raised_setRi (u : Uart) (state : Bool) : Raised u (u.setRi state) := by
  cases state
  · exact (raised_raiseGated _ .ms).after (.same rfl rfl rfl rfl rfl rfl rfl)
  · exact .same rfl rfl rfl rfl rfl rfl rfl

theorem raised_changeState {change : Uart → Bool → Uart} {external internal : Bool}
    (h : Raised u (change u external)) : Raised u (u.changeState external internal change) := by
  rw [changeState]
  split
  · exact .refl u
  · exact h

theorem raised_noteCts (u : Uart) (m : Modem) : Raised u (u.noteCts m) :=
  raised_changeState (raised_setCts _ _)

theorem raised_noteDsr (u : Uart) (m : Modem) : Raised u (u.noteDsr m) :=
  raised_changeState (raised_setDsr _ _)

theorem raised_noteRlsd (u : Uart) (m : Modem) : Raised u (u.noteRlsd m) :=
  raised_changeState (raised_setRlsd _ _)

theorem raised_noteRi (u : Uart) (m : Modem) : Raised u (u.noteRi m) :=
  raised_changeState (raised_setRi _ _)

theorem raised_modemChange (u : Uart) (m : Modem) : Raised u (u.modemChange m) := by
  rw [modemChange]
  split
  · exact .refl u
  · exact ((raised_noteCts u m).trans (raised_noteDsr _ m)).trans
      ((raised_noteRlsd _ m).trans (raised_noteRi _ m))

theorem raised_looped {change : Uart → Bool → Uart} {state : Bool} (h : Raised u (change u state)) :
    Raised u (u.looped state change) := by
  rw [looped]
  split
  · exact h
  · exact .refl u

theorem raised_setDtr (u : Uart) : Raised u u.setDtr :=
  raised_changeState ((raised_looped (raised_setDsr _ _)).after (.same rfl rfl rfl rfl rfl rfl rfl))

theorem raised_setRts (u : Uart) : Raised u u.setRts :=
  raised_changeState ((raised_looped (raised_setCts _ _)).after (.same rfl rfl rfl rfl rfl rfl rfl))

theorem raised_setOut1 (u : Uart) : Raised u u.setOut1 :=
  raised_changeState ((raised_looped (raised_setRi _ _)).after (.same rfl rfl rfl rfl rfl rfl rfl))

theorem raised_raiseReady (u : Uart) : Raised u u.raiseReady := by
  rw [raiseReady]
  split
  · exact raised_raiseRda u
  · exact .refl u

theorem raised_raiseEmpty (u : Uart) : Raised u u.raiseEmpty := by
  rw [raiseEmpty]
  split
  · exact raised_raiseGated u .thre
  · exact .refl u

theorem raised_actionable (u : Uart) : Raised u u.actionable :=
  (raised_raiseReady u).trans (raised_raiseEmpty _)

theorem raised_setOut2 (u : Uart) : Raised { u with out2State := u.modemControl.out2 } u.setOut2 := by
  rw [setOut2, changeState]
  split
  · rename_i h
    exact .same rfl rfl rfl h.symm rfl rfl rfl
  · split
    · exact raised_setRlsd _ _
    · split
      · exact raised_actionable _
      · exact .refl _

theorem raised_setLoopback (u : Uart) (m : Modem) :
    Raised { u with loopbackState := u.modemControl.loop } (u.setLoopback m) := by
  rw [setLoopback, changeState]
  split
  · rename_i h
    exact .same rfl rfl rfl rfl h.symm rfl rfl
  · split
    · exact .refl _
    · exact raised_modemChange _ m

/-! ## What a port keeps -/

/-- A cause is pending only while enabled, received data is reported, and both states follow the modem
control register. -/
structure Sane (u : Uart) : Prop where
  enabled : ∀ c, u.pending c = true → u.enabled c = true
  received : u.lineStatus.dataReady = true → u.enabled .rda = true → u.modemControl.out2 = true →
    u.pending .rda = true
  out2 : u.out2State = u.modemControl.out2
  loop : u.loopbackState = u.modemControl.loop

theorem Raised.enabled_eq (h : Raised u v) (c : Cause) : v.enabled c = u.enabled c := by
  rw [Uart.enabled, h.intEnable, ← Uart.enabled]

theorem Raised.all_enabled (h : Raised u v) (hu : ∀ c, u.pending c = true → u.enabled c = true) :
    ∀ c, v.pending c = true → v.enabled c = true := by
  intro c hc
  rw [h.enabled_eq]
  obtain hc | hc := h.enabled c hc
  exacts [hu c hc, hc]

theorem Sane.raised (hu : Sane u) (h : Raised u v) : Sane v where
  enabled := h.all_enabled hu.enabled
  received hd he ho := by
    rw [h.dataReady] at hd
    rw [h.enabled_eq] at he
    rw [h.modemControl] at ho
    exact h.mono _ (hu.received hd he ho)
  out2 := by rw [h.out2State, h.modemControl]; exact hu.out2
  loop := by rw [h.loopbackState, h.modemControl]; exact hu.loop

theorem clearInterrupt_pending (u : Uart) : u.clearInterrupt.pending = u.pending := by
  rw [clearInterrupt]
  split <;> rfl

theorem Sane.clearInterrupt (hu : Sane u) : Sane u.clearInterrupt := by
  rw [Uart.clearInterrupt]
  split
  · exact hu
  · exact ⟨hu.enabled, hu.received, hu.out2, hu.loop⟩

/-- A cause other than received data turned off. -/
theorem Sane.off (hu : Sane u) {c : Cause} (hc : c ≠ .rda) : Sane (u.off c) where
  enabled d hd := by
    rw [off_pending] at hd
    split at hd
    · cases hd
    · exact hu.enabled d hd
  received hd he ho := by
    rw [off_pending, if_neg hc.symm]
    exact hu.received hd he ho
  out2 := hu.out2
  loop := hu.loop

theorem Sane.setRecvCharStatus (hu : Sane u) : Sane u.setRecvCharStatus where
  enabled := (raised_setRecvCharStatus u).all_enabled hu.enabled
  received hd he ho := by
    have h := raised_setRecvCharStatus u
    have he' : u.enabled .rda = true := (h.enabled_eq _).symm.trans he
    have ho' : u.modemControl.out2 = true := (congrArg _ h.modemControl).symm.trans ho
    by_cases hready : u.lineStatus.dataReady = true
    · exact h.mono _ (hu.received hready he' ho')
    · rw [Uart.setRecvCharStatus, if_neg hready]
      exact pending_raiseRda he' (.inl ho')
  out2 := by
    have h := raised_setRecvCharStatus u
    rw [h.out2State, h.modemControl]; exact hu.out2
  loop := by
    have h := raised_setRecvCharStatus u
    rw [h.loopbackState, h.modemControl]; exact hu.loop

theorem raised_noteErrors (u : Uart) (mask : BitVec 5) : Raised u (u.noteErrors mask) := by
  rw [noteErrors]
  split
  · exact .refl u
  · exact (raised_raiseGated _ .rls).after (.same rfl rfl rfl rfl rfl rfl rfl)

theorem Sane.recvChar (hu : Sane u) (h : Host) : Sane (u.recvChar h) := by
  have hchar : Sane { u with rxBuffer := h.char } := hu.raised (.same rfl rfl rfl rfl rfl rfl rfl)
  exact (hchar.raised (raised_noteErrors _ _)).setRecvCharStatus

theorem called_recvChar (u : Uart) (h : Host) : Called u (u.recvChar h) := by
  have herr := raised_noteErrors { u with rxBuffer := h.char } h.errorMask
  exact Called.trans (u := u) ⟨herr.mono, herr.calls⟩ (called_setRecvCharStatus _)

theorem called_comRecvChar (u : Uart) (h : Host) : Called u (u.comRecvChar h) := by
  rw [comRecvChar]
  split
  · have hr := called_recvChar { u with critical := 1 } h
    exact ⟨hr.mono, hr.calls⟩
  · exact (Raised.refl u).toCalled

theorem Sane.comRecvChar (hu : Sane u) (h : Host) : Sane (u.comRecvChar h) := by
  rw [Uart.comRecvChar]
  split
  · have hcritical : Sane { u with critical := 1 } := hu.raised (.same rfl rfl rfl rfl rfl rfl rfl)
    exact hcritical.recvChar h
  · exact hu

theorem raised_setBaudRate (u : Uart) (h : Host) : Raised u (u.setBaudRate h) := by
  have hflush := raised_comFlushInput u h
  rw [setBaudRate, mapBaud]
  split
  · exact hflush.trans (.same rfl rfl rfl rfl rfl rfl rfl)
  · exact hflush

theorem raised_firstRead (u : Uart) (h : Host) : Raised u (u.firstRead h) := by
  rw [firstRead]
  split
  · exact .refl u
  · exact (raised_comFlushInput u h).trans (.same rfl rfl rfl rfl rfl rfl rfl)

theorem raised_generateIir (u : Uart) : Raised u u.generateIir := by
  simp only [generateIir]
  split_ifs <;> exact .same rfl rfl rfl rfl rfl rfl rfl

theorem raised_modemInputs (u : Uart) (h : Host) : Raised u (u.modemInputs h) := by
  rw [modemInputs]
  split
  · exact .same rfl rfl rfl rfl rfl rfl rfl
  · exact raised_modemChange u _

theorem Sane.takeRx (hu : Sane u) : Sane u.takeRx := by
  refine ⟨fun d hd => ?_, nofun, hu.out2, hu.loop⟩
  rw [Uart.takeRx, off_pending] at hd
  split at hd
  · cases hd
  · exact hu.enabled d hd

theorem raised_checkInput (u : Uart) (wasCritical ready : Bool) :
    Raised u (u.checkInput wasCritical ready) := by
  rw [checkInput]
  split
  · exact raised_setXmitCharStatus u
  · split
    · exact .same rfl rfl rfl rfl rfl rfl rfl
    · exact .refl u

theorem Sane.inb (hu : Sane u) (h : Host) (r : Reg) : Sane (u.inb h r).2 := by
  cases r with
  | txRx =>
    rw [Uart.inb]
    split
    · exact hu
    · exact (hu.raised (raised_firstRead u h)).takeRx.clearInterrupt.raised (raised_checkInput _ _ _)
  | iir =>
    have hi := hu.raised (raised_generateIir u)
    rw [Uart.inb, readIir]
    dsimp only
    split
    · exact (hi.off (by decide)).clearInterrupt
    · exact hi
  | lsr =>
    refine Sane.clearInterrupt (Sane.off ?_ (by decide))
    exact hu.raised (.same rfl rfl rfl rfl rfl rfl rfl)
  | msr =>
    have hm := hu.raised (raised_modemInputs u h)
    refine Sane.clearInterrupt (Sane.off ?_ (by decide))
    exact hm.raised (.same rfl rfl rfl rfl rfl rfl rfl)
  | ier | lcr | mcr | scratch => exact hu

theorem Sane.holdTx (hu : Sane u) (value : BitVec 8) : Sane (u.holdTx value) := by
  have hc : Sane (u.off .thre).clearInterrupt := (hu.off (by decide)).clearInterrupt
  refine ⟨hc.enabled, fun hd => hc.received ?_, hc.out2, hc.loop⟩
  rw [Uart.clearInterrupt]
  split <;> exact hd

theorem Sane.send (hu : Sane u) (pacing : Bool) : Sane (u.send pacing) := by
  rw [Uart.send]
  split
  · refine Sane.setRecvCharStatus (Sane.raised ?_ (raised_setXmitCharStatus _))
    exact hu.raised (.same rfl rfl rfl rfl rfl rfl rfl)
  · split
    · exact hu
    · exact hu.raised (raised_setXmitCharStatus u)

theorem pending_actionable (hd : u.lineStatus.dataReady = true) (he : u.enabled .rda = true)
    (h : u.modemControl.out2 = true ∨ u.loopbackState = true) : u.actionable.pending .rda = true := by
  rw [actionable, raiseReady, if_pos hd]
  exact (raised_raiseEmpty _).mono _ (pending_raiseRda he h)

theorem Sane.writeIer (hu : Sane u) (value : BitVec 8) : Sane (u.writeIer value) := by
  have hr := raised_actionable (u.enable value)
  refine Sane.clearInterrupt ⟨hr.all_enabled fun c hc => ?_, fun hd he ho => ?_, ?_, ?_⟩
  · exact (Bool.and_eq_true _ _ ▸ hc).2
  · exact pending_actionable (hr.dataReady.symm.trans hd) ((hr.enabled_eq _).symm.trans he)
      (.inl ((congrArg _ hr.modemControl).symm.trans ho))
  · rw [hr.out2State, hr.modemControl]; exact hu.out2
  · rw [hr.loopbackState, hr.modemControl]; exact hu.loop

theorem raised_flushFor (u : Uart) (h : Host) (value : BitVec 8) : Raised u (u.flushFor h value) := by
  rw [flushFor]
  split
  · exact raised_comFlushInput u h
  · exact .refl u

theorem raised_writeMsr (u : Uart) (value : BitVec 8) : Raised u (u.writeMsr value) := by
  rw [writeMsr]
  split
  · exact .refl u
  · split
    · exact .same rfl rfl rfl rfl rfl rfl rfl
    · exact (raised_raiseGated _ .ms).after (.same rfl rfl rfl rfl rfl rfl rfl)

theorem pending_setOut2 (ho : u.modemControl.out2 = true) (hstate : u.out2State = false)
    (hloop : u.loopbackState = false) (hd : u.lineStatus.dataReady = true) (he : u.enabled .rda = true) :
    u.setOut2.pending .rda = true := by
  have hchange : u.modemControl.out2 ≠ u.out2State := by rw [ho, hstate]; decide
  rw [setOut2, changeState, if_neg hchange, if_neg (by rw [hloop]; decide), if_pos ho]
  exact pending_actionable (u := { u with out2State := u.modemControl.out2 }) hd he (.inl ho)

/-- Only OUT2 going on in loopback leaves received data unreported. -/
def Unheard (u : Uart) (value : BitVec 8) : Prop :=
  (ModemControl.ofByte value).loop = true ∧ (ModemControl.ofByte value).out2 = true ∧
    u.modemControl.out2 = false ∧ u.lineStatus.dataReady = true ∧ u.enabled .rda = true ∧
    u.pending .rda = false

theorem Sane.writeMcr (hu : Sane u) (h : Host) {value : BitVec 8} (hheard : ¬u.Unheard value) :
    Sane (u.writeMcr h value) := by
  rw [Uart.writeMcr]
  split
  · exact hu
  generalize hv : ({ u with modemControl := .ofByte value } : Uart) = v
  have hloop := raised_setLoopback v h.modem
  have hout := ((raised_setDtr (v.setLoopback h.modem)).trans (raised_setRts _)).trans (raised_setOut1 _)
  generalize ho : (v.setLoopback h.modem).setDtr.setRts.setOut1 = o at hout ⊢
  have hfinal := raised_setOut2 o
  -- the registers the causes depend on, before the last of the five
  have hv1 : v.modemControl = .ofByte value ∧ v.pending = u.pending ∧ v.intEnable = u.intEnable ∧
      v.lineStatus = u.lineStatus ∧ v.out2State = u.out2State := by
    subst hv; exact ⟨rfl, rfl, rfl, rfl, rfl⟩
  obtain ⟨hmodem, hpending, hie, hline, hout2⟩ := hv1
  have homodem : o.modemControl = .ofByte value :=
    hout.modemControl.trans (hloop.modemControl.trans hmodem)
  have holoop : o.loopbackState = (ModemControl.ofByte value).loop :=
    (hout.loopbackState.trans hloop.loopbackState).trans (congrArg ModemControl.loop hmodem)
  have hmono : ∀ c, u.pending c = true → o.pending c = true := fun c hc =>
    hout.mono c (hloop.mono c ((congrFun hpending c).trans hc))
  have hoenable : ∀ c, o.enabled c = u.enabled c := fun c => by
    rw [hout.enabled_eq, hloop.enabled_eq]
    exact congrArg (·.getLsbD c.enableBit) hie
  have hoready : o.lineStatus.dataReady = u.lineStatus.dataReady :=
    (hout.dataReady.trans hloop.dataReady).trans (congrArg _ hline)
  have hostate : o.out2State = u.modemControl.out2 :=
    (hout.out2State.trans hloop.out2State).trans (hout2.trans hu.out2)
  have hall : ∀ c, o.pending c = true → o.enabled c = true := by
    refine hout.all_enabled (hloop.all_enabled fun c hc => ?_)
    change v.intEnable.getLsbD _ = _
    rw [hie]
    exact hu.enabled c ((congrFun hpending c).symm.trans hc)
  refine ⟨hfinal.all_enabled hall, fun hd he hset => ?_, ?_, ?_⟩
  · have hd' : u.lineStatus.dataReady = true := hoready.symm.trans (hfinal.dataReady.symm.trans hd)
    have he' : u.enabled .rda = true := (hoenable _).symm.trans ((hfinal.enabled_eq _).symm.trans he)
    have hset' : (ModemControl.ofByte value).out2 = true := by
      rw [hfinal.modemControl] at hset
      exact homodem ▸ hset
    by_cases hrda : u.pending .rda = true
    · exact hfinal.mono _ (hmono _ hrda)
    rw [Bool.not_eq_true] at hrda
    cases hold : u.modemControl.out2
    · -- OUT2 goes on, outside loopback, and what is ready is looked at
      have hoff : (ModemControl.ofByte value).loop = false := by
        rw [← Bool.not_eq_true]
        exact fun hon => hheard ⟨hon, hset', hold, hd', he', hrda⟩
      exact pending_setOut2 (by rw [homodem]; exact hset') (hostate.trans hold) (holoop.trans hoff)
        (hoready.trans hd') ((hoenable _).trans he')
    · rw [hu.received hd' he' hold] at hrda
      cases hrda
  · rw [hfinal.out2State, hfinal.modemControl]
  · rw [hfinal.loopbackState, hfinal.modemControl]
    exact holoop.trans (by rw [homodem])

/-- A write of any register but the line status. -/
theorem Sane.outb (hu : Sane u) (pacing : Bool) (h : Host) {value : BitVec 8} {r : Reg} (hr : r ≠ .lsr)
    (hheard : r = .mcr → ¬u.Unheard value) : Sane (u.outb pacing h value r) := by
  cases r with
  | txRx =>
    rw [Uart.outb]
    split
    · exact hu.raised ((raised_setBaudRate _ h).after (.same rfl rfl rfl rfl rfl rfl rfl))
    · exact (hu.holdTx value).send pacing
  | ier =>
    rw [Uart.outb]
    split
    · exact hu.raised ((raised_setBaudRate _ h).after (.same rfl rfl rfl rfl rfl rfl rfl))
    · exact hu.writeIer value
  | iir => exact hu
  | lcr => exact hu.raised ((raised_flushFor u h value).trans (.same rfl rfl rfl rfl rfl rfl rfl))
  | mcr => exact hu.writeMcr h (hheard rfl)
  | lsr => exact absurd rfl hr
  | msr => exact hu.raised (raised_writeMsr u value)
  | scratch => exact hu.raised (.same rfl rfl rfl rfl rfl rfl rfl)

theorem sane_comInit : Sane ({} : Uart).comInit where
  enabled c := by cases c <;> decide
  received := by decide
  out2 := by decide
  loop := by decide

end Uart

end SoftPC.Com
