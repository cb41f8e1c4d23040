import SoftPC.System.TimerPort

/-!
# System/TimerBytes — a counter fits its port

Each access of a counter does to its fields what the command does to the port (`Port.Fits`), and the
count in effect changes to the last one written only (`Port.Takes`).
-/

namespace SoftPC.Timer

/-! ## Bytes of a word -/

theorem toNat_append_byte (high low : BitVec 8) :
    (high ++ low : BitVec 16).toNat = low.toNat + 256 * high.toNat := by
  rw [BitVec.toNat_append, Nat.shiftLeft_eq, Nat.mul_comm, ← Nat.two_pow_add_eq_or_of_lt low.isLt,
    Nat.add_comm]

theorem high_append_low (c : BitVec 16) : ((c >>> 8).setWidth 8 ++ c.setWidth 8 : BitVec 16) = c := by
  have hlt : c.toNat < 65536 := c.isLt
  refine BitVec.eq_of_toNat_eq ?_
  rw [toNat_append_byte, BitVec.toNat_setWidth, BitVec.toNat_setWidth, BitVec.toNat_ushiftRight,
    Nat.shiftRight_eq_div_pow]
  omega

theorem low_of_append (high low : BitVec 8) : (high ++ low : BitVec 16).setWidth 8 = low := by
  have hlt : low.toNat < 256 := low.isLt
  refine BitVec.eq_of_toNat_eq ?_
  rw [BitVec.toNat_setWidth, toNat_append_byte]
  omega

theorem high_of_append (high low : BitVec 8) : ((high ++ low : BitVec 16) >>> 8).setWidth 8 = high := by
  have hlow : low.toNat < 256 := low.isLt
  have hhigh : high.toNat < 256 := high.isLt
  refine BitVec.eq_of_toNat_eq ?_
  rw [BitVec.toNat_setWidth, BitVec.toNat_ushiftRight, toNat_append_byte, Nat.shiftRight_eq_div_pow]
  omega

/-- What two bytes count. -/
theorem Programming.toNat_modulo (p : Programming) :
    p.modulo.toNat = Port.value p.bcd (p.outblsb, p.outbmsb) := by
  have hlow : p.outblsb.toNat < 256 := p.outblsb.isLt
  have hhigh : p.outbmsb.toNat < 256 := p.outbmsb.isLt
  obtain ⟨bytes, hbytes⟩ : ∃ b : BitVec 16, b = p.outbmsb ++ p.outblsb := ⟨_, rfl⟩
  have htoNat : bytes.toNat = p.outblsb.toNat + 256 * p.outbmsb.toNat := by
    rw [hbytes, toNat_append_byte]
  have hzero : bytes = 0 ↔ p.outblsb.toNat = 0 ∧ p.outbmsb.toNat = 0 := by
    rw [← BitVec.toNat_inj, htoNat]
    change _ = 0 ↔ _
    omega
  unfold modulo Port.value
  dsimp only
  rw [← hbytes]
  by_cases h0 : bytes = 0
  · rw [if_pos h0, if_pos h0, if_pos (hzero.mp h0), if_pos (hzero.mp h0)]
    split_ifs <;> rfl
  · rw [if_neg h0, if_neg h0, if_neg (mt hzero.mpr h0), if_neg (mt hzero.mpr h0)]
    split_ifs
    · have hbin : bcdToBin bytes = p.outblsb.toNat % 16 + p.outblsb.toNat / 16 * 10
          + p.outbmsb.toNat % 16 * 100 + p.outbmsb.toNat / 16 * 1000 := by
        unfold bcdToBin
        dsimp only
        omega
      rw [BitVec.toNat_ofNat, hbin]
      exact Nat.mod_eq_of_lt (by omega)
    · rw [BitVec.toNat_setWidth, htoNat]
      exact Nat.mod_eq_of_lt (by omega)

/-- The count of a counter as it is read, in decimal digits or not. -/
def Counter.reading (c : Counter) : BitVec 16 := if c.bcd then binToBcd c.count else c.count

/-- The count in effect is as it was, or the last one written. -/
def Port.Takes (s : Port) (t t' : Shown) : Prop :=
  t'.initialCount = t.initialCount ∨ ∃ bytes ∈ s.last, t'.initialCount.toNat = Port.value s.bcd bytes

namespace Port

variable {s : Port} {t t' : Shown}

theorem Reads.of_held (h : s.Reads t) (hheld : t'.held = t.held) : s.Reads t' where
  latched hs := by
    have hlatched := h.latched hs
    change _ = if t.held.countlatched then some (t.held.latchvaluemsb ++ t.held.latchvaluelsb) else none
      at hlatched
    rw [← hheld] at hlatched
    exact hlatched
  readState := (congrArg Programming.readState hheld).trans h.readState
  status b hb := (congrArg Programming.latchstatus hheld).trans (h.status b hb)
  first := h.first
  off := h.off

/-- Unless the high byte is next for the counter, it is not for the port. -/
theorem Fits.high_of_ne (h : s.Fits t) (hne : t.readState ≠ .readMsb) : s.high = false := by
  by_cases hstatus : s.status.isSome
  · exact h.first hstatus
  · have hread := h.readState
    rw [if_neg hstatus] at hread
    by_contra hc
    rw [if_pos (Bool.not_eq_false _ ▸ hc)] at hread
    exact hne hread

theorem Reads.ne_of_high (h : s.Reads t) (hhigh : s.high = false) : t.readState ≠ .readMsb := by
  rw [h.readState, hhigh]
  split_ifs
  · exact nofun
  · contradiction
  · exact nofun

/-- **A move fits the same port**, the counter being settled before and after. -/
theorem Fits.arrives (h : s.Fits t) (hs : Settled t.state) (ha : t.Arrives t') :
    s.Fits t' ∧ s.Takes t t' := by
  have hlast := h.last hs
  have hlsb : t'.outblsb = t.outblsb := (congrArg Programming.outblsb ha.1.held :)
  have hmsb : t'.outbmsb = t.outbmsb := (congrArg Programming.outbmsb ha.1.held :)
  have hmodulo := Shown.modulo_held ha.1.held
  refine ⟨⟨⟨?_, ?_, ?_, fun h2 => absurd h2 ha.2.2.2, ?_, fun _ => ?_, fun _ hused => ?_,
    fun hn => absurd ha.2 hn, ?_⟩, ?_⟩, ?_⟩
  · exact (congrArg Programming.rl ha.1.held).trans h.access
  · exact (congrArg Programming.bcd ha.1.held).trans h.bcd
  · have hne : s.access ≠ .latch := fun hlatch => hs.1 (h.uninit.mpr hlatch)
    exact ⟨fun hu => absurd hu ha.2.1, fun hlatch => absurd hlatch hne⟩
  · rw [if_neg ha.2.2.2, h.low, if_neg hs.2.2]
  · rw [hlast, hlsb, hmsb]
  · obtain ⟨hcount, hnew⟩ | ⟨hcount, -⟩ := ha.1.count
    · rw [hcount, hmodulo]
      exact h.loaded hs (hnew.symm.trans hused)
    · exact hcount.trans hmodulo.symm
  · exact ha.1.onGate h.onGate
  · exact h.toReads.of_held ha.1.held
  · obtain ⟨hcount, -⟩ | ⟨hcount, -⟩ := ha.1.count
    · exact .inl hcount
    · refine .inr ⟨_, hlast, ?_⟩
      rw [hcount, Programming.toNat_modulo, h.bcd]

end Port

namespace Pcu

variable {ch : Fin 3} {u : Pcu ch} {s : Port}

/-! ## Moves of a counter -/

theorem updateCounter_moves : Yields u.updateCounter fun v =>
    u.shown.Moved v.shown ∧ v.toProgramming = u.toProgramming := by
  refine u.updateCounter_keeps.mono fun v hv => ⟨?_, hv.programming⟩
  have hkept : v.toProgramming = u.toProgramming := hv.programming
  refine ⟨?_, fun hs => ?_, .inl ⟨?_, ?_⟩⟩
  · exact (congrArg (fun p : Programming => Shown.held ⟨p, 0, 0⟩) hkept :)
  · exact (congrArg Programming.stateOnGate hkept : v.stateOnGate = _) ▸ hs
  · exact (congrArg Programming.initialCount hkept : v.initialCount = _)
  · exact (congrArg Programming.newCount hkept : v.newCount = _)

/-- The gate of a counter that waits for it. -/
theorem awaitingGateGate_arrives (hgate : Settled u.stateOnGate) (hstate : Settled u.state)
    (value : BitVec 8) : Yields (u.awaitingGateGate value) fun v => u.shown.Arrives v.shown := by
  unfold awaitingGateGate
  refine .ite (fun _ => .ok ⟨⟨rfl, id, .inl ⟨rfl, rfl⟩⟩, hstate⟩) fun _ => ?_
  have hmoved : u.shown.Moved ((u.setGate value).enableInt true).shown := by
    rw [shown_enableInt]
    exact ⟨rfl, id, .inl ⟨rfl, rfl⟩⟩
  generalize (u.setGate value).enableInt true = w at hmoved
  unfold gateEnabled
  split
  case h_1 => exact .error
  case h_2 => exact .ok (hmoved.arrives (w.shown_counterBufferLoaded ▸ Shown.arrives_bufferLoaded))
  case h_3 =>
    obtain ⟨tc, htc⟩ := w.shown_resumeCounting0onGate
    exact .ok (hmoved.arrives (htc ▸ Shown.arrives_resumed0 tc))
  case h_4 => exact .ok (hmoved.arrives (w.shown_resumeCounting15 ▸ Shown.arrives_resumed15 _))
  case h_5 => exact .ok (hmoved.arrives (w.shown_resumeCounting234onGate ▸ Shown.arrives_resumed234))
  case h_6 =>
    exact .ok (hmoved.arrives (w.shown_startCounting ▸ Shown.arrives_ran (hmoved.onGate hgate)))

/-- **A count written** goes to one action, and the counter does not wait for bytes after it. -/
theorem wtComplete_arrives (hgate : Settled u.stateOnGate)
    (hwt : u.actionOnWtComplete = some .timererror → Settled u.state) :
    Yields u.wtComplete fun v => u.shown.Arrives v.shown := by
  have hawaiting : Settled (some .awaitingGate) := by decide
  unfold wtComplete
  refine .ite (fun _ => ?_) fun _ => ?_
  · have hmoved : u.shown.Moved (u.setState .awaitingGate).shown := ⟨rfl, id, .inl ⟨rfl, rfl⟩⟩
    exact (awaitingGateGate_arrives (u := u.setState .awaitingGate) hgate hawaiting _).mono
      fun v hv => hmoved.arrives hv
  unfold wtCompleted
  split
  case h_1 => exact .error
  case h_2 => exact .ok (u.shown_counterBufferLoaded ▸ Shown.arrives_bufferLoaded)
  case h_3 hsome => exact .ok ⟨.rfl, hwt hsome⟩
  case h_4 =>
    have hmoved : u.shown.Moved ((u.setWtAction .timererror).setState .awaitingGate).shown :=
      ⟨rfl, id, .inl ⟨rfl, rfl⟩⟩
    unfold resumeAwaitGate
    exact (awaitingGateGate_arrives (u := (u.setWtAction .timererror).setState .awaitingGate) hgate
      hawaiting _).mono fun v hv => hmoved.arrives hv
  case h_5 =>
    obtain ⟨tc, htc⟩ := u.shown_resumeCounting0
    exact .ok (htc ▸ Shown.arrives_resumed0 tc)
  case h_6 => exact .ok (u.shown_resumeCounting15 ▸ Shown.arrives_resumed15 _)
  case h_7 => exact .ok (u.shown_resumeCounting234 ▸ Shown.arrives_resumed234)

/-- A state, its head run: nothing moved, and no error awaits the count. -/
structure Head (u v : Pcu ch) : Prop where
  moved : u.shown.Moved v.shown
  count : v.initialCount = u.initialCount
  state : v.state = u.state
  wt : v.actionOnWtComplete ≠ some .timererror

theorem head0 : u.Head u.inCounting0 := ⟨⟨rfl, id, .inl ⟨rfl, rfl⟩⟩, rfl, rfl, nofun⟩

theorem head1 : u.Head u.inCounting1 := ⟨⟨rfl, id, .inl ⟨rfl, rfl⟩⟩, rfl, rfl, nofun⟩

theorem head23 : u.Head u.inCounting23 := ⟨⟨rfl, id, .inl ⟨rfl, rfl⟩⟩, rfl, rfl, nofun⟩

theorem head45 : u.Head u.inCounting45 := by
  unfold inCounting45
  split_ifs
  · exact ⟨⟨rfl, id, .inl ⟨rfl, rfl⟩⟩, rfl, rfl, nofun⟩
  · exact head23

theorem headGate : u.Head (u.setWtAction .resumeAwaitGate) :=
  ⟨⟨rfl, id, .inl ⟨rfl, rfl⟩⟩, rfl, rfl, nofun⟩

/-- …also once it has been updated. -/
theorem Head.after {v w : Pcu ch} (h : u.Head v)
    (hw : v.shown.Moved w.shown ∧ w.toProgramming = v.toProgramming) : u.Head w where
  moved := h.moved.trans hw.1
  count := (congrArg Programming.initialCount hw.2).trans h.count
  state := (congrArg Programming.state hw.2).trans h.state
  wt := by
    rw [hw.2]
    exact h.wt

theorem Head.outputStopped {v : Pcu ch} (h : u.Head v) : u.Head v.outputStopped := by
  have hshown := v.shown_outputStopped
  generalize v.outputStopped = w at hshown
  refine ⟨hshown ▸ h.moved, ?_, ?_, ?_⟩
  · exact (congrArg (fun t : Shown => t.initialCount) hshown).trans h.count
  · exact (congrArg (fun t : Shown => t.state) hshown).trans h.state
  · change w.shown.actionOnWtComplete ≠ _
    rw [hshown]
    exact h.wt

theorem counting0Gate_arrives (hstate : Settled u.state) (value : BitVec 8) :
    Yields (u.counting0Gate value) fun v => u.shown.Arrives v.shown := by
  unfold counting0Gate
  refine .ite (fun _ => .ok ⟨.rfl, hstate⟩) fun _ => updateCounter_moves.bind fun v hv => .ok ?_
  have hmoved : v.shown.Moved (v.setGate value).shown := ⟨rfl, id, .inl ⟨rfl, rfl⟩⟩
  rw [shown_setState, shown_outputStopped]
  exact hv.1.arrives (hmoved.arrives (Shown.arrives_goto (by decide : Settled (some .awaitingGate))))

theorem countingGate_arrives (hstate : Settled u.state) (value : BitVec 8) :
    Yields (u.countingGate value) fun v => u.shown.Arrives v.shown := by
  unfold countingGate
  refine .ite (fun _ => .ok ⟨.rfl, hstate⟩) fun _ => updateCounter_moves.bind fun v hv => .ok ?_
  have hmoved : v.shown.Moved (v.setGate value).shown := ⟨rfl, id, .inl ⟨rfl, rfl⟩⟩
  rw [shown_setState, shown_outputHigh]
  exact hv.1.arrives (hmoved.arrives (Shown.arrives_goto (by decide : Settled (some .awaitingGate))))

theorem counting1Gate_arrives (hstate : Settled u.state) (value : BitVec 8) :
    u.shown.Arrives (u.counting1Gate value).shown := by
  have hcounting : Settled (some .counting1) := by decide
  unfold counting1Gate
  split_ifs
  · exact ⟨.rfl, hstate⟩
  · rw [shown_runCount, shown_timestamp]
    have hmoved : u.shown.Moved ((u.setGate gateHigh).setStateOnGate .counting1).shown :=
      ⟨rfl, fun _ => hcounting, .inl ⟨rfl, rfl⟩⟩
    exact hmoved.arrives (Shown.arrives_ran hcounting)

/-! ## Accesses -/

/-- **A change of the gate** moves no byte. -/
theorem gateSignal_fits (h : s.Fits u.shown) (value : BitVec 8) :
    Yields (u.gateSignal value) fun v => s.Fits v.shown ∧ s.Takes u.shown v.shown := by
  have hsame : Yields (.ok (u.setGate value) : Except Fault (Pcu ch)) fun v =>
      s.Fits v.shown ∧ s.Takes u.shown v.shown :=
    .ok ⟨⟨⟨h.access, h.bcd, h.uninit, h.pair, h.low, h.last, h.loaded, h.wt, h.onGate⟩,
      h.toReads.of_held rfl⟩, .inl rfl⟩
  have hhead : ∀ {state w} {r : Except Fault (Pcu ch)}, u.state = some state → Shown.Counts state →
      u.Head w → (Settled w.state → Yields r fun v => w.shown.Arrives v.shown) →
      Yields r fun v => s.Fits v.shown ∧ s.Takes u.shown v.shown := by
    intro state w r hs hcounts hw hr
    have hsettled : Settled u.state := hs ▸ Shown.settled_of_counts hcounts
    exact (hr (hw.state ▸ hsettled)).mono fun v hv => h.arrives hsettled (hw.moved.arrives hv)
  unfold gateSignal
  split
  case h_1 => exact .error
  case h_2 => exact hsame
  case h_3 => exact hsame
  case h_4 => exact hsame
  case h_5 hs =>
    have hsettled : Settled u.state := hs ▸ (by decide)
    exact (awaitingGateGate_arrives h.onGate hsettled value).mono fun v hv => h.arrives hsettled hv
  case h_6 hs => exact hhead hs (.inl rfl) head0 fun hw => counting0Gate_arrives hw value
  case h_7 hs => exact hhead hs (.inr (.inl rfl)) head1 fun hw => .ok (counting1Gate_arrives hw value)
  case h_8 hs => exact hhead hs (.inr (.inr (.inl rfl))) head23 fun hw => countingGate_arrives hw value
  case h_9 hs => exact hhead hs (.inr (.inr (.inr rfl))) head45 fun hw => countingGate_arrives hw value

/-- **Both bytes written** are the last count. -/
theorem written_fits (h : s.Fits u.shown) (hne : s.access ≠ .latch)
    (hwt : u.actionOnWtComplete ≠ some .timererror) (lsb msb : BitVec 8) :
    Yields (u.written lsb msb).wtComplete fun v =>
      Port.Fits { s with low := none, last := some (lsb, msb) } v.shown ∧
        Port.Takes { s with low := none, last := some (lsb, msb) } u.shown v.shown := by
  refine (wtComplete_arrives (u := u.written lsb msb) h.onGate fun ht => absurd ht hwt).mono fun v hv => ?_
  -- as if the counter had counted already: the state it comes from does not matter
  have hcounting : Settled (some .counting0) := by decide
  let t := (u.written lsb msb).shown.goto (some .counting0)
  have hfits : Port.Fits { s with low := none, last := some (lsb, msb) } t :=
    { access := h.access
      bcd := h.bcd
      uninit := ⟨nofun, fun hlatch => absurd hlatch hne⟩
      pair := nofun
      low := rfl
      last := fun _ => rfl
      loaded := fun _ hused => nomatch hused
      wt := fun hn => absurd hcounting hn
      onGate := h.onGate
      latched := h.latched
      readState := h.readState
      status := h.status
      first := h.first
      off := h.off }
  exact hfits.arrives hcounting ⟨⟨hv.1.held, hv.1.onGate, hv.1.count⟩, hv.2⟩

theorem firstWrite_fits (h : s.Fits u.shown) (hne : s.access ≠ .latch)
    (hstate : u.state ≠ some .waitingFor2ndWrite) (hwt : u.actionOnWtComplete ≠ some .timererror)
    (value : BitVec 8) :
    Yields (u.firstWrite value) fun v =>
      (s.write value).Fits v.shown ∧ (s.write value).Takes u.shown v.shown := by
  have hlow : s.low = none := h.low.trans (if_neg hstate)
  unfold firstWrite
  split
  case h_1 hrl => exact absurd (h.access.symm.trans hrl) hne
  case h_2 hrl =>
    rw [Port.write_lsb (h.access.symm.trans hrl) hlow]
    exact written_fits h hne hwt value 0
  case h_3 hrl =>
    have haccess : s.access = .lmsb := h.access.symm.trans hrl
    have hwaiting : ¬Settled (some .waitingFor2ndWrite) := by decide
    rw [Port.write_first haccess hlow]
    exact .ok
      ⟨{ access := h.access
         bcd := h.bcd
         uninit := ⟨nofun, fun hlatch => absurd hlatch hne⟩
         pair := fun _ => haccess
         low := rfl
         last := fun hs => absurd hs hwaiting
         loaded := fun hs => absurd hs hwaiting
         wt := fun _ => hwt
         onGate := h.onGate
         latched := h.latched
         readState := h.readState
         status := h.status
         first := h.first
         off := h.off }, .inl rfl⟩
  case h_4 hrl =>
    rw [Port.write_msb (h.access.symm.trans hrl) hlow]
    exact written_fits h hne hwt 0 value

/-- **A byte written** is the one that the port takes. -/
theorem writeSignal_fits (h : s.Fits u.shown) (value : BitVec 8) :
    Yields (u.writeSignal value) fun v =>
      (s.write value).Fits v.shown ∧ (s.write value).Takes u.shown v.shown := by
  have hhead : ∀ {w}, Settled u.state → u.Head w → Yields (w.firstWrite value) fun v =>
      (s.write value).Fits v.shown ∧ (s.write value).Takes u.shown v.shown := by
    intro w hsettled hw
    have hne : s.access ≠ .latch := fun hlatch => hsettled.1 (h.uninit.mpr hlatch)
    have hfits := (h.arrives hsettled ⟨hw.moved, hw.state ▸ hsettled⟩).1
    exact (firstWrite_fits hfits hne (hw.state ▸ hsettled.2.2) hw.wt value).mono fun v hv =>
      ⟨hv.1, hv.2.imp_left fun hcount => hcount.trans hw.count⟩
  unfold writeSignal
  split
  case h_1 => exact .error
  case h_2 hs =>
    have hwrite : s.write value = s := by
      unfold Port.write
      rw [h.uninit.mp hs]
    rw [hwrite]
    exact .ok ⟨h, .inl rfl⟩
  case h_3 hs => exact hhead (hs ▸ by decide) headGate
  case h_4 hs =>
    have hne : s.access ≠ .latch := fun hlatch => nomatch hs.symm.trans (h.uninit.mpr hlatch)
    have hwaiting : ¬Settled u.state := hs ▸ (by decide)
    exact firstWrite_fits h hne (fun h2 => nomatch hs.symm.trans h2) (h.wt hwaiting) value
  case h_5 hs =>
    have haccess : s.access = .lmsb := h.pair hs
    have hwaiting : ¬Settled u.state := hs ▸ (by decide)
    have hlow : s.low = some u.outblsb := h.low.trans (if_pos hs)
    rw [Port.write_second haccess hlow]
    exact written_fits h (fun hlatch => nomatch haccess.symm.trans hlatch) (h.wt hwaiting) u.outblsb value
  case h_6 hs =>
    unfold counting0Write
    let frozen : Pcu ch := { u.inCounting0 with freezeCounter := true }
    have hfrozen : u.Head frozen := ⟨⟨rfl, id, .inl ⟨rfl, rfl⟩⟩, rfl, rfl, nofun⟩
    refine (updateCounter_moves (u := frozen)).bind fun v hv => hhead (hs ▸ by decide) ?_
    exact (hfrozen.after hv).outputStopped
  case h_7 hs => exact hhead (hs ▸ by decide) head1
  case h_8 hs => exact hhead (hs ▸ by decide) head23
  case h_9 hs => exact hhead (hs ▸ by decide) head45

/-! ## Reading -/

/-- An update moves no byte. -/
theorem fits_of_programming {v : Pcu ch} (h : s.Fits u.shown) (hv : v.toProgramming = u.toProgramming) :
    s.Fits v.shown := by
  have hshown : v.shown = { u.shown with
      guessesPerHostTick := v.guessesPerHostTick, guessesSoFar := v.guessesSoFar } := by
    unfold shown
    rw [hv]
  rw [hshown]
  exact ⟨⟨h.access, h.bcd, h.uninit, h.pair, h.low, h.last, h.loaded, h.wt, h.onGate⟩,
    h.toReads.of_held rfl⟩

/-- **A count is read** off the counter, into bytes that nothing holds. -/
theorem readCounter_fits (h : s.Fits u.shown) (hfree : s.access ≠ .latch → s.latched = none) :
    Yields u.readCounter fun v => s.Fits v.shown ∧ v.initialCount = u.initialCount ∧
      v.countlatched = u.countlatched ∧ v.readState = u.readState ∧ v.latchvaluemsb ++ v.latchvaluelsb = v.reading := by
  unfold readCounter
  refine updateCounter_moves.bind fun v hv => .ok ?_
  have hfits := fits_of_programming h hv.2
  have hunlatched : s.access ≠ .latch → v.countlatched = false := fun hs => by
    have hlatched := hfits.latched hs
    rw [hfree hs] at hlatched
    by_contra hc
    rw [if_pos (show v.shown.countlatched = true from Bool.not_eq_false _ ▸ hc)] at hlatched
    cases hlatched
  have hprog := hv.2
  refine ⟨⟨⟨hfits.access, hfits.bcd, hfits.uninit, hfits.pair, hfits.low, hfits.last, hfits.loaded,
    hfits.wt, hfits.onGate⟩, ⟨fun hs => ?_, hfits.readState, hfits.status, hfits.first, hfits.off⟩⟩,
    ?_, ?_, ?_, high_append_low _⟩
  · exact (hfree hs).trans (if_neg (Bool.eq_false_iff.mp (hunlatched hs))).symm
  · exact (congrArg Programming.initialCount hprog :)
  · exact (congrArg Programming.countlatched hprog :)
  · exact (congrArg Programming.readState hprog :)

/-- **A count latched**: none was, and no byte of one is out. -/
theorem latchCount_fits (h : s.Fits u.shown)
    (hfree : u.rl ≠ .latch → u.countlatched = false ∧ u.readState ≠ .readMsb) (status : BitVec 8) :
    Yields u.latchCount fun v => (s.step v.reading status .latchCount).Fits v.shown ∧
      v.initialCount = u.initialCount := by
  have hnone : s.access ≠ .latch → s.latched = none := fun hs => by
    rw [h.latched hs, if_neg (show ¬u.shown.countlatched = true from
      Bool.eq_false_iff.mp (hfree (h.access ▸ hs)).1)]
  have hhigh : s.high = false := by
    by_cases hs : s.access = .latch
    · exact h.off (hs ▸ nofun)
    · exact h.high_of_ne (hfree (h.access ▸ hs)).2
  unfold latchCount
  refine (readCounter_fits h hnone).bind fun v hv => .ok ⟨?_, hv.2.1⟩
  have hfits := hv.1
  have hreading : v.latchvaluemsb ++ v.latchvaluelsb = v.reading := hv.2.2.2.2
  by_cases hlatched : s.latched.isSome
  · have hs : s.access = .latch := by
      by_contra hs
      rw [hnone hs] at hlatched
      cases hlatched
    rw [Port.step, if_pos hlatched]
    exact ⟨⟨hfits.access, hfits.bcd, hfits.uninit, hfits.pair, hfits.low, hfits.last, hfits.loaded,
      hfits.wt, hfits.onGate⟩, ⟨fun hne => absurd hs hne, hfits.readState, hfits.status, hfits.first,
      hfits.off⟩⟩
  · rw [Port.step, if_neg hlatched]
    refine ⟨⟨hfits.access, hfits.bcd, hfits.uninit, hfits.pair, hfits.low, hfits.last, hfits.loaded,
      hfits.wt, hfits.onGate⟩, ⟨fun _ => ?_, ?_, hfits.status, fun _ => rfl, fun _ => rfl⟩⟩
    · exact congrArg some hreading.symm
    · have hread := hfits.readState
      rw [hhigh] at hread
      exact hread

/-- **A status latched**: no byte of a count is out. -/
theorem latchStatusValue_fits (h : s.Fits u.shown) (hfree : u.readState ≠ .readMsb) (count : BitVec 16) :
    (s.step count u.latchStatusValue.latchstatus .latchStatus).Fits u.latchStatusValue.shown := by
  have hhigh : s.high = false := h.high_of_ne hfree
  refine ⟨⟨h.access, h.bcd, h.uninit, h.pair, h.low, h.last, h.loaded, h.wt, h.onGate⟩,
    ⟨h.latched, rfl, fun b hb => ?_, fun _ => hhigh, h.off⟩⟩
  exact Option.some.inj hb

/-- **A mode word** starts both sequences anew: no byte of a count is out. -/
theorem newMode_fits (h : s.Fits u.shown) (hfree : u.readState ≠ .readMsb) {cwd : BitVec 8}
    (hcwd : Access.ofWord cwd ≠ .latch) (count : BitVec 16) (status : BitVec 8) :
    (s.step count status (.mode cwd)).Fits (u.newMode cwd).shown ∧
      (u.newMode cwd).initialCount = u.initialCount := by
  have hhigh : s.high = false := h.high_of_ne hfree
  have hshown := u.shown_newMode cwd
  have hwaiting : ¬Settled (some .waitingFor1stWrite) := by decide
  refine ⟨?_, (congrArg (fun t : Shown => t.initialCount) hshown :)⟩
  rw [hshown, Port.step]
  exact
    { access := rfl
      bcd := rfl
      uninit := ⟨nofun, fun hlatch => absurd hlatch hcwd⟩
      pair := nofun
      low := rfl
      last := fun hs => absurd hs hwaiting
      loaded := fun hs => absurd hs hwaiting
      wt := fun _ => nofun
      onGate := h.onGate
      latched := fun _ => rfl
      readState := h.readState.trans (by rw [hhigh])
      status := h.status
      first := fun _ => rfl
      off := fun _ => rfl }

@[simp] theorem reading_delivered : u.delivered.reading = u.reading := by
  unfold delivered
  split
  · split <;> rfl
  all_goals rfl

@[simp] theorem initialCount_delivered : u.delivered.initialCount = u.initialCount := by
  unfold delivered
  split
  · split <;> rfl
  all_goals rfl

/-- The bytes that a read finds are those of the count latched, or else of the count. -/
theorem readUnlatched_fits (h : s.Fits u.shown) :
    Yields u.readUnlatched fun v => s.Fits v.shown ∧ v.initialCount = u.initialCount ∧
      (s.access ≠ .latch → v.latchvaluemsb ++ v.latchvaluelsb = s.latched.getD v.reading) := by
  unfold readUnlatched
  refine .ite (fun hlatched => .ok ⟨h, rfl, fun hs => ?_⟩) fun hfree => ?_
  · rw [h.latched hs, if_pos (show u.shown.countlatched = true from hlatched)]
    rfl
  · have hnone : s.access ≠ .latch → s.latched = none := fun hs =>
      (h.latched hs).trans (if_neg hfree)
    refine (readCounter_fits h hnone).mono fun v hv => ⟨hv.1, hv.2.1, fun hs => ?_⟩
    rw [hnone hs]
    exact hv.2.2.2.2

/-- **What a read delivers** is the byte that the port has next. -/
theorem deliver_fits (h : s.Fits u.shown)
    (hbytes : s.access ≠ .latch → u.latchvaluemsb ++ u.latchvaluelsb = s.latched.getD u.reading) :
    u.deliver = s.out u.reading := by
  have hread : u.readState = _ := h.readState
  have hrl : u.rl = s.access := h.access
  have hlow : s.access ≠ .latch → (s.latched.getD u.reading).setWidth 8 = u.latchvaluelsb := fun hs =>
    hbytes hs ▸ low_of_append ..
  have hhigh : s.access ≠ .latch → (s.latched.getD u.reading >>> 8).setWidth 8 = u.latchvaluemsb :=
    fun hs => hbytes hs ▸ high_of_append ..
  unfold deliver Port.out
  rw [hread]
  by_cases hstatus : s.status.isSome
  · obtain ⟨b, hb⟩ := Option.isSome_iff_exists.mp hstatus
    rw [if_pos hstatus, hb]
    exact congrArg some (h.status b hb)
  · rw [if_neg hstatus, Option.not_isSome_iff_eq_none.mp hstatus, Option.none_or, hrl]
    cases haccess : s.access with
    | latch => rw [h.off (haccess ▸ nofun)]; rfl
    | lsb => rw [h.off (haccess ▸ nofun), ← hlow (haccess ▸ nofun)]; rfl
    | msb => rw [h.off (haccess ▸ nofun), ← hhigh (haccess ▸ nofun)]; rfl
    | lmsb =>
      cases s.high with
      | true => exact congrArg some (hhigh (haccess ▸ nofun)).symm
      | false => exact congrArg some (hlow (haccess ▸ nofun)).symm

/-- Reading changes only what is left to be read. -/
theorem fits_of_read (h : s.Fits u.shown) (r : Port) (readState : ReadState) (countlatched : Bool)
    (hr : r = { s with status := r.status, latched := r.latched, high := r.high })
    (hreads : r.Reads { u.shown with readState, countlatched }) :
    r.Fits { u.shown with readState, countlatched } := by
  rw [hr] at hreads ⊢
  exact ⟨⟨h.access, h.bcd, h.uninit, h.pair, h.low, h.last, h.loaded, h.wt, h.onGate⟩, hreads⟩

/-- …and it is what is left of the port. -/
theorem delivered_fits (h : s.Fits u.shown) : s.taken.Fits u.delivered.shown := by
  have hread : u.readState = _ := h.readState
  have hrl : u.rl = s.access := h.access
  by_cases hstatus : s.status.isSome
  · have hhigh := h.first hstatus
    rw [if_pos hstatus] at hread
    rw [Port.taken_status hstatus]
    have hdelivered : u.delivered = { u with readState := .unread } := by
      unfold delivered
      rw [hread]
    rw [hdelivered]
    refine fits_of_read h { s with status := none } .unread u.countlatched rfl
      ⟨h.latched, ?_, nofun, nofun, h.off⟩
    rw [hhigh]
    rfl
  rw [if_neg hstatus] at hread
  have hnone := Option.not_isSome_iff_eq_none.mp hstatus
  have hsingle : s.access = .lsb ∨ s.access = .msb → s.taken.Fits u.delivered.shown := fun hs => by
    have hhigh : s.high = false := h.off fun hlmsb => by rw [hlmsb] at hs; simp at hs
    have hdelivered : u.delivered = { u with countlatched := false } := by
      unfold delivered
      rw [hread, hhigh]
      obtain hs | hs := hs <;> rw [hrl, hs] <;> rfl
    rw [Port.taken_single hstatus hs, hdelivered]
    exact fits_of_read h { s with latched := none } u.readState false rfl
      ⟨fun _ => rfl, h.readState, h.status, h.first, h.off⟩
  cases haccess : s.access with
  | latch =>
    have hdelivered : u.delivered = u := by
      unfold delivered
      rw [hread, h.off (haccess ▸ nofun), hrl, haccess]
      rfl
    rw [Port.taken_latch hstatus haccess, hdelivered]
    exact h
  | lsb => exact hsingle (.inl haccess)
  | msb => exact hsingle (.inr haccess)
  | lmsb =>
    cases hhigh : s.high with
    | true =>
      have hdelivered : u.delivered = { u with countlatched := false, readState := .unread } := by
        unfold delivered
        rw [hread, hhigh]
        rfl
      rw [Port.taken_high hstatus haccess hhigh, hdelivered]
      refine fits_of_read h { s with high := false, latched := none } .unread false rfl
        ⟨fun _ => rfl, ?_, h.status, fun _ => rfl, fun _ => rfl⟩
      rw [hnone]
      rfl
    | false =>
      have hdelivered : u.delivered = { u with readState := .readMsb } := by
        unfold delivered
        rw [hread, hhigh, hrl, haccess]
        rfl
      rw [Port.taken_low hstatus haccess hhigh, hdelivered]
      refine fits_of_read h { s with high := true } .readMsb u.countlatched rfl
        ⟨h.latched, ?_, h.status, ?_, fun hne => absurd haccess hne⟩
      · rw [hnone]
        rfl
      · rw [hnone]
        nofun

end Pcu

end SoftPC.Timer
