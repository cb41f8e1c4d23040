import Mathlib.Tactic.IntervalCases
import SoftPC.System.IcaAccounts

/-!
# System/IcaDelivery — no deliverable request is left unheard

After an operation a request that a scan of the master finds has INT and the CPU's line up (`Offered`),
and one that a scan of the slave finds has the slave's INT up and its cascade request on the master
(`Relayed`).  Raising, unmasking and EOI rescan, and keep both; the operations that do not rescan —
a change of priority or of mode, a cascade call with the lock at zero, an acknowledge that leaves
requests behind — keep them under the conditions `Op.Heard` lists.
-/

namespace SoftPC.Ica

variable {p q : Pic} {a : Chip}

/-! ## Scans -/

theorem firstOf_zero (active : BitVec 8) (lines : List (Fin 8)) :
    Pic.firstOf 0#8 active lines = none := by
  induction lines with
  | nil => rfl
  | cons l lines ih => simp [Pic.firstOf, ih]

theorem scanIrr_eq (p : Pic) (a : Chip) :
    p.scanIrr a = Pic.firstOf (p.pending a) (p.active a) (Pic.order (p.adapter a).hipri) := by
  rw [Pic.scanIrr]
  split
  · rename_i h
    rw [h]; exact (firstOf_zero _ _).symm
  · rfl

theorem firstOf_mono {pending pending' active active' : BitVec 8} {lines : List (Fin 8)}
    (hpending : ∀ l, on pending' l = true → on pending l = true)
    (hactive : ∀ l, on active l = true → on active' l = true)
    (h : (Pic.firstOf pending' active' lines).isSome = true) :
    (Pic.firstOf pending active lines).isSome = true := by
  induction lines with
  | nil => cases h
  | cons l lines ih =>
    rw [Pic.firstOf] at h ⊢
    split_ifs at h with hact hpend
    · cases h
    · rw [if_neg fun hl => hact (hactive l hl), if_pos (hpending l hpend)]
      rfl
    · rw [if_neg fun hl => hact (hactive l hl)]
      split_ifs
      · rfl
      · exact ih h

/-- Fewer requests and more in service: a scan that still finds one found one before. -/
theorem scanIrr_mono (hhipri : (q.adapter a).hipri = (p.adapter a).hipri)
    (hpending : ∀ l, on (q.pending a) l = true → on (p.pending a) l = true)
    (hactive : ∀ l, on (p.active a) l = true → on (q.active a) l = true)
    (h : (q.scanIrr a).isSome = true) : (p.scanIrr a).isSome = true := by
  rw [scanIrr_eq, hhipri] at h
  rw [scanIrr_eq]
  exact firstOf_mono hpending hactive h

theorem firstOf_none_of_active {pending pending' active active' : BitVec 8} {lines : List (Fin 8)}
    {line : Fin 8} (h : Pic.firstOf pending active lines = some line)
    (hpending : ∀ l, on pending' l = true → on pending l = true) (hactive : on active' line = true) :
    Pic.firstOf pending' active' lines = none := by
  induction lines with
  | nil => rfl
  | cons l lines ih =>
    rw [Pic.firstOf] at h ⊢
    split_ifs at h with hact hpend
    · injection h with h
      rw [h, if_pos hactive]
    · have hpend' : ¬on pending' l = true := fun hl => hpend (hpending l hl)
      rw [if_neg hpend', ih h, ite_self]

/-- With the line a scan found in service, no request of before is deliverable. -/
theorem scanIrr_none_of_active {line : Fin 8} (h : p.scanIrr a = some line)
    (hhipri : (q.adapter a).hipri = (p.adapter a).hipri)
    (hpending : ∀ l, on (q.pending a) l = true → on (p.pending a) l = true)
    (hactive : on (q.active a) line = true) : q.scanIrr a = none := by
  rw [scanIrr_eq] at h
  rw [scanIrr_eq, hhipri]
  exact firstOf_none_of_active h hpending hactive

/-- Nothing pending, nothing found. -/
theorem scanIrr_none_of_pending (h : ∀ l, on (p.pending a) l = false) : p.scanIrr a = none := by
  cases hs : p.scanIrr a with
  | none => rfl
  | some l =>
    have := on_pending_of_scanIrr hs
    rw [h l] at this
    cases this

/-! ## The two halves of the invariant -/

/-- A request deliverable on the master holds INT up, and INT the CPU's line. -/
structure Offered (p : Pic) : Prop where
  int : (p.scanIrr .master).isSome = true → (p.adapter .master).cpuInt = true
  line : (p.adapter .master).cpuInt = true → p.hwInt = true

/-- The slave's line is requested or in service on the master. -/
def Cascaded (p : Pic) : Prop :=
  ∃ l : Fin 8, (l : ℕ) = (p.adapter .slave).ssr.toNat ∧
    (on (p.adapter .master).irr l = true ∨ on (p.adapter .master).isr l = true)

/-- A request deliverable on the slave holds its INT up, and INT a request on the master. -/
structure Relayed (p : Pic) : Prop where
  int : (p.scanIrr .slave).isSome = true → (p.adapter .slave).cpuInt = true
  request : (p.adapter .slave).cpuInt = true → Cascaded p

/-- `q` is `p` but for what the master does about its requests: more of them, INT and the CPU's line. -/
structure Beside (p q : Pic) : Prop where
  slave : q.adapter .slave = p.adapter .slave
  delayed : q.delayed = p.delayed
  irr : ∀ l, on (p.adapter .master).irr l = true → on (q.adapter .master).irr l = true
  isr : (q.adapter .master).isr = (p.adapter .master).isr
  lock : q.lock = p.lock

theorem Beside.refl (p : Pic) : Beside p p := ⟨rfl, rfl, fun _ h => h, rfl, rfl⟩

theorem Cascaded.beside (h : Cascaded p) (hq : Beside p q) : Cascaded q := by
  obtain ⟨l, hl, hl'⟩ := h
  refine ⟨l, by rw [hq.slave]; exact hl, hl'.imp (hq.irr l) fun h => ?_⟩
  rw [hq.isr]; exact h

theorem scanIrr_congr (hadapter : q.adapter a = p.adapter a) (hdelayed : q.delayed a = p.delayed a) :
    q.scanIrr a = p.scanIrr a := by
  rw [Pic.scanIrr, Pic.scanIrr, Pic.pending, Pic.pending, Pic.active, Pic.active, hadapter, hdelayed]

theorem Relayed.beside (h : Relayed p) (hq : Beside p q) : Relayed q where
  int hscan := by
    rw [scanIrr_congr hq.slave (by rw [hq.delayed])] at hscan
    rw [hq.slave]; exact h.int hscan
  request hint := by
    rw [hq.slave] at hint
    exact (h.request hint).beside hq

/-! ## The master offers -/

theorem beside_interruptMaster (p : Pic) (line : Fin 8) : Beside p (p.interruptMaster line) := by
  rw [Pic.interruptMaster]
  split <;> exact ⟨rfl, rfl, fun _ h => h, rfl, rfl⟩

theorem offered_interruptMaster (h : (p.adapter .master).cpuInt = true → p.hwInt = true)
    (line : Fin 8) : Offered (p.interruptMaster line) := by
  rw [Pic.interruptMaster]
  split
  · rename_i hint
    exact ⟨fun _ => hint, fun _ => h hint⟩
  · exact ⟨fun _ => rfl, fun _ => rfl⟩

/-- A scan of the master offers what it finds. -/
theorem rescan_master (h : (p.adapter .master).cpuInt = true → p.hwInt = true) :
    Yields (p.rescan .master) fun q => Offered q ∧ Beside p q := by
  rw [Pic.rescan, Pic.scanBy]
  split
  · rename_i hscan
    refine .ok ⟨⟨fun hsome => ?_, h⟩, .refl p⟩
    rw [hscan] at hsome
    cases hsome
  · exact .ok ⟨offered_interruptMaster h _, beside_interruptMaster p _⟩

theorem beside_rescan (p : Pic) : Yields (p.rescan .master) (Beside p) := by
  rw [Pic.rescan, Pic.scanBy]
  split
  · exact .ok (.refl p)
  · exact .ok (beside_interruptMaster p _)

theorem yields_index {number : ℕ} : Yields (Pic.index a number) fun line => (line : ℕ) = number := by
  rw [Pic.index]
  split
  · exact .ok rfl
  · exact .error

/-- A request recorded on an adapter, and nothing else done. -/
structure Recorded (line : Fin 8) (s t : Adapter) : Prop where
  irr : ∀ l, on t.irr l = (on s.irr l || decide (line = l))
  isr : t.isr = s.isr
  imr : t.imr = s.imr
  mode : t.mode = s.mode
  hipri : t.hipri = s.hipri
  cpuInt : t.cpuInt = s.cpuInt

/-- …with the rest of the state. -/
structure Requested (line : Fin 8) (p q : Pic) : Prop extends Beside p q where
  recorded : Recorded line (p.adapter .master) (q.adapter .master)
  hwInt : q.hwInt = p.hwInt

theorem requested_request {line : Fin 8} {calls : ℕ} :
    Yields (p.request .master line calls) (Requested line p) := by
  rw [Pic.request]
  refine .ite (fun _ => .ok ?_) fun _ => .error
  exact ⟨⟨rfl, rfl, fun l hl => by simp [hl], rfl, rfl⟩, ⟨fun l => by simp, rfl, rfl, rfl, rfl, rfl⟩, rfl⟩

/-- A request raised on the master is offered if the lock lets the call scan. -/
theorem hwInterrupt_master (h : (p.adapter .master).cpuInt = true → p.hwInt = true) (hlock : p.lock = 0)
    {number calls : ℕ} :
    Yields (p.hwInterruptBy (fun p line => .ok (p.interruptMaster line)) .master number calls) fun q =>
      Offered q ∧ Beside p q ∧ ∃ l : Fin 8, (l : ℕ) = number ∧ on (q.adapter .master).irr l = true := by
  refine yields_index.bind fun line hline => requested_request.bind fun q hq => ?_
  refine .ite (fun hlocked => absurd (hq.lock.trans hlock) hlocked) fun _ => ?_
  have hraised : on (q.adapter .master).irr line = true := by
    rw [hq.recorded.irr line, decide_eq_true rfl, Bool.or_true]
  have hup : (({ q with lock := q.lock + 1 } : Pic).adapter .master).cpuInt = true → q.hwInt = true := by
    intro hint
    rw [hq.hwInt]; exact h (hq.recorded.cpuInt ▸ hint)
  refine (rescan_master hup).bind fun r ⟨hr, hbeside⟩ => .ok ⟨⟨hr.int, hr.line⟩, ?_, line, hline, ?_⟩
  · exact ⟨hbeside.slave.trans hq.slave, hbeside.delayed.trans hq.delayed,
      fun l hl => hbeside.irr l (hq.irr l hl), hbeside.isr.trans hq.isr, hlock.symm⟩
  · exact hbeside.irr line hraised

/-- …and else only recorded. -/
theorem hwInterrupt_master_locked (hlock : p.lock ≠ 0) {number calls : ℕ} :
    Yields (p.hwInterruptBy (fun p line => .ok (p.interruptMaster line)) .master number calls) fun q =>
      ∃ l : Fin 8, (l : ℕ) = number ∧ Requested l p q := by
  refine yields_index.bind fun line hline => requested_request.bind fun q hq => ?_
  rw [if_pos (hq.lock ▸ hlock)]
  exact .ok ⟨line, hline, hq⟩

/-! ## The slave relays -/

/-- The slave's INT up, its request on the master offered or recorded; the rest of the slave is as it
was. -/
structure Signalled (line : Fin 8) (p q : Pic) : Prop where
  slave : q.adapter .slave = { p.adapter .slave with intLine := line, cpuInt := true }
  delayed : q.delayed = p.delayed
  lock : q.lock = p.lock
  cascaded : Cascaded q

theorem Signalled.relayed {line : Fin 8} (h : Signalled line p q) : Relayed q :=
  ⟨fun _ => by rw [h.slave], fun _ => h.cascaded⟩

/-- Within a locked call the cascade request is offered too. -/
theorem interruptSlave_locked (ho : Offered p) (hc : (p.adapter .slave).cpuInt = true → Cascaded p)
    (hlock : p.lock = 1) (line : Fin 8) :
    Yields (p.interruptSlave line) fun q => Offered q ∧ Signalled line p q := by
  rw [Pic.interruptSlave]
  refine .ite (fun hint => .ok ⟨⟨ho.int, ho.line⟩, ?_, rfl, rfl, hc hint⟩) fun _ => ?_
  · rw [Pic.setAdapter_self, ← hint]
  · refine (hwInterrupt_master (p := { p.setAdapter .slave { p.adapter .slave with
      intLine := line, cpuInt := true } with lock := p.lock - 1 }) ho.line ?_).bind ?_
    · change p.lock - 1 = 0
      rw [hlock]; rfl
    · rintro q ⟨hoffered, hbeside, l, hl, hirr⟩
      refine .ok ⟨⟨hoffered.int, hoffered.line⟩, hbeside.slave, hbeside.delayed, ?_, l, ?_, .inl hirr⟩
      · have hback : q.lock = p.lock - 1 := hbeside.lock
        change q.lock + 1 = p.lock
        rw [hback, hlock]; decide
      · change (l : ℕ) = (q.adapter .slave).ssr.toNat
        rw [hbeside.slave]; exact hl

/-- Outside one it is recorded, and the master does not scan. -/
theorem interruptSlave_unlocked (hc : (p.adapter .slave).cpuInt = true → Cascaded p) (hlock : p.lock = 0)
    (line : Fin 8) :
    Yields (p.interruptSlave line) fun q => Signalled line p q ∧
      (((p.adapter .slave).cpuInt = true ∧ q.adapter .master = p.adapter .master ∧ q.hwInt = p.hwInt) ∨
        ((p.adapter .slave).cpuInt = false ∧ ∃ l : Fin 8, (l : ℕ) = (p.adapter .slave).ssr.toNat ∧
          Recorded l (p.adapter .master) (q.adapter .master) ∧ q.hwInt = p.hwInt)) := by
  rw [Pic.interruptSlave]
  refine .ite (fun hint => .ok ⟨⟨?_, rfl, rfl, hc hint⟩, .inl ⟨hint, rfl, rfl⟩⟩) fun hint => ?_
  · rw [Pic.setAdapter_self, ← hint]
  · refine (hwInterrupt_master_locked (p := { p.setAdapter .slave { p.adapter .slave with
      intLine := line, cpuInt := true } with lock := p.lock - 1 }) ?_).bind ?_
    · change p.lock - 1 ≠ 0
      rw [hlock]; decide
    · rintro q ⟨l, hl, hq⟩
      refine .ok ⟨⟨hq.slave, hq.delayed, ?_, l, ?_, .inl ?_⟩, .inr ⟨?_, l, hl, hq.recorded, hq.hwInt⟩⟩
      · have hback : q.lock = p.lock - 1 := hq.lock
        change q.lock + 1 = p.lock
        rw [hback, hlock]; decide
      · change (l : ℕ) = (q.adapter .slave).ssr.toNat
        rw [hq.slave]; exact hl
      · change on (q.adapter .master).irr l = true
        rw [hq.recorded.irr l, decide_eq_true rfl, Bool.or_true]
      · exact Bool.not_eq_true _ ▸ hint

/-- A scan of the slave within a locked call. -/
theorem rescan_slave_locked (ho : Offered p) (hc : (p.adapter .slave).cpuInt = true → Cascaded p)
    (hlock : p.lock = 1) :
    Yields (p.rescan .slave) fun q => Offered q ∧ Relayed q ∧ q.lock = 1 := by
  rw [Pic.rescan, Pic.scanBy]
  split
  · rename_i hscan
    refine .ok ⟨ho, ⟨fun hsome => ?_, hc⟩, hlock⟩
    rw [hscan] at hsome
    cases hsome
  · exact (interruptSlave_locked ho hc hlock _).mono fun q hq =>
      ⟨hq.1, hq.2.relayed, hq.2.lock.trans hlock⟩

/-- What every operation leaves. -/
structure Heeded (p : Pic) : Prop where
  offered : Offered p
  relayed : Relayed p
  unlocked : p.lock = 0

/-! ## Raising -/

/-- A request recorded on the slave leaves the master alone. -/
theorem request_slave {line : Fin 8} {calls : ℕ} :
    Yields (p.request .slave line calls) fun q =>
      q.adapter .master = p.adapter .master ∧ (q.adapter .slave).cpuInt = (p.adapter .slave).cpuInt ∧
        (q.adapter .slave).ssr = (p.adapter .slave).ssr ∧ q.delayed = p.delayed ∧ q.hwInt = p.hwInt ∧
        q.lock = p.lock := by
  rw [Pic.request]
  exact .ite (fun _ => .ok ⟨rfl, rfl, rfl, rfl, rfl, rfl⟩) fun _ => .error

theorem Offered.congr (h : Offered p) (hmaster : q.adapter .master = p.adapter .master)
    (hdelayed : q.delayed .master = p.delayed .master) (hhw : q.hwInt = p.hwInt) : Offered q where
  int hscan := by
    rw [scanIrr_congr hmaster hdelayed] at hscan
    rw [hmaster]; exact h.int hscan
  line hint := by
    rw [hmaster] at hint
    rw [hhw]; exact h.line hint

theorem Cascaded.congr (h : Cascaded p) (hmaster : q.adapter .master = p.adapter .master)
    (hssr : (q.adapter .slave).ssr = (p.adapter .slave).ssr) : Cascaded q := by
  rw [Cascaded, hmaster, hssr]
  exact h

theorem Heeded.hwInterrupt (h : Heeded p) (line calls : ℕ) :
    Yields (p.hwInterrupt a line calls) Heeded := by
  cases a with
  | master =>
    refine (hwInterrupt_master h.offered.line h.unlocked).mono fun q ⟨ho, hbeside, _⟩ => ?_
    exact ⟨ho, h.relayed.beside hbeside, hbeside.lock.trans h.unlocked⟩
  | slave =>
    refine yields_index.bind fun l _ => request_slave.bind ?_
    rintro q ⟨hmaster, hint, hssr, hdelayed, hhw, hlock⟩
    refine .ite (fun hlocked => absurd (hlock.trans h.unlocked) hlocked) fun _ => ?_
    have ho : Offered { q with lock := q.lock + 1 } :=
      h.offered.congr hmaster (by rw [hdelayed]) hhw
    have hc : (q.adapter .slave).cpuInt = true → Cascaded { q with lock := q.lock + 1 } := by
      intro hq
      rw [hint] at hq
      exact (h.relayed.request hq).congr hmaster hssr
    refine (rescan_slave_locked ho hc ?_).bind ?_
    · change q.lock + 1 = 1
      rw [hlock, h.unlocked]; rfl
    · rintro r ⟨ho, hr, _⟩
      exact .ok ⟨⟨ho.int, ho.line⟩, ⟨hr.int, hr.request⟩, rfl⟩

/-! ## Delays -/

/-- A delay only hides requests. -/
theorem pending_hold {b : Chip} {line l : Fin 8} (h : on ((p.hold a line).pending b) l = true) :
    on (p.pending b) l = true := by
  simp only [Pic.pending, Pic.hold, on_and, on_not, on_or, Bool.and_eq_true, Bool.not_eq_true',
    Bool.or_eq_false_iff] at h ⊢
  obtain ⟨hirr, himr, hd⟩ := h
  refine ⟨hirr, himr, ?_⟩
  by_cases hb : b = a
  · subst hb
    rw [Function.update_self, on_or, Bool.or_eq_false_iff] at hd
    exact hd.1
  · rwa [Function.update_of_ne hb] at hd

theorem Heeded.hold (h : Heeded p) (line : Fin 8) : Heeded (p.hold a line) := by
  have hsub : ∀ b, ((p.hold a line).scanIrr b).isSome = true → (p.scanIrr b).isSome = true :=
    fun b => scanIrr_mono (p := p) (q := p.hold a line) rfl (fun _ => pending_hold) fun _ hl => hl
  exact ⟨⟨fun hscan => h.offered.int (hsub _ hscan), h.offered.line⟩,
    ⟨fun hscan => h.relayed.int (hsub _ hscan), h.relayed.request⟩, h.unlocked⟩

theorem Heeded.delay (h : Heeded p) (line : Fin 8) (calls : ℕ) : Yields (p.delay a line calls) Heeded :=
  .ite (fun _ => .ok (h.hold line)) fun _ => (h.hold line).hwInterrupt _ _

/-- The master is told nothing of a request the slave sends up outside a lock.  It need not be: the
slave or the master has INT up already, the slave has nothing to send, or the master would not deliver
it. -/
def Unsent (p : Pic) : Prop :=
  (p.adapter .slave).cpuInt = true ∨ (p.adapter .master).cpuInt = true ∨ p.scanIrr .slave = none ∨
    ∀ c : Fin 8, (c : ℕ) = (p.adapter .slave).ssr.toNat →
      (p.setAdapter .master { p.adapter .master with
        irr := (p.adapter .master).irr ||| bit c }).scanIrr .master = none

theorem pending_recorded {c : Fin 8} (h : Recorded c (p.adapter .master) (q.adapter .master))
    (hdelayed : q.delayed = p.delayed) {l : Fin 8} (hl : on (q.pending .master) l = true) :
    on ((p.setAdapter .master { p.adapter .master with
      irr := (p.adapter .master).irr ||| bit c }).pending .master) l = true := by
  rw [Pic.pending, on_and, h.irr, h.imr, hdelayed] at hl
  rw [Pic.pending, on_and, Pic.setAdapter_self, on_or, on_bit]
  exact hl

theorem active_recorded {c : Fin 8} (h : Recorded c (p.adapter .master) (q.adapter .master)) :
    q.active .master = p.active .master := by
  rw [Pic.active, Pic.active, h.mode, h.isr]

/-- A scan of the slave outside a locked call. -/
theorem rescan_slave_unlocked (ho : Offered p) (hc : (p.adapter .slave).cpuInt = true → Cascaded p)
    (hlock : p.lock = 0) (hunsent : Unsent p) : Yields (p.rescan .slave) Heeded := by
  rw [Pic.rescan, Pic.scanBy]
  split
  · rename_i hscan
    refine .ok ⟨ho, ⟨fun hsome => ?_, hc⟩, hlock⟩
    rw [hscan] at hsome
    cases hsome
  · rename_i line hscan
    refine (interruptSlave_unlocked hc hlock line).mono fun q hq => ?_
    obtain ⟨hsig, hcases⟩ := hq
    refine ⟨?_, hsig.relayed, hsig.lock.trans hlock⟩
    rcases hcases with ⟨_, hmaster, hhw⟩ | ⟨hint, c, hc, hrec, hhw⟩
    · exact ho.congr hmaster (by rw [hsig.delayed]) hhw
    · refine ⟨fun hsome => ?_, fun hup => ?_⟩
      · rcases hunsent with hs | hm | hnone | hhidden
        · rw [hint] at hs
          cases hs
        · rw [hrec.cpuInt]; exact hm
        · rw [hnone] at hscan
          cases hscan
        · have hsent := scanIrr_mono (p := p.setAdapter .master { p.adapter .master with
            irr := (p.adapter .master).irr ||| bit c }) (a := .master) hrec.hipri
            (fun l => pending_recorded hrec hsig.delayed) ?_ hsome
          · rw [hhidden c hc] at hsent
            cases hsent
          · intro l hl
            rw [active_recorded hrec]
            exact hl
      · rw [hhw]
        exact ho.line (hrec.cpuInt ▸ hup)

/-- A release is heard on the master always, on the slave as a cascade call outside a lock is. -/
theorem Heeded.release (h : Heeded p) {line : Fin 8} (hslave : a = .slave → Unsent (p.undelay .slave line)) :
    Yields (p.release a line) Heeded := by
  cases a with
  | master =>
    have hr : Relayed (p.undelay .master line) := ⟨h.relayed.int, h.relayed.request⟩
    refine (rescan_master (p := p.undelay .master line) h.offered.line).mono ?_
    intro q ⟨ho, hbeside⟩
    exact ⟨ho, hr.beside hbeside, hbeside.lock.trans h.unlocked⟩
  | slave =>
    have ho : Offered (p.undelay .slave line) := ⟨h.offered.int, h.offered.line⟩
    exact rescan_slave_unlocked ho h.relayed.request h.unlocked (hslave rfl)

/-- INT is up, or no request waits unmasked. -/
def Quiet (p : Pic) (a : Chip) : Prop := (p.adapter a).cpuInt = true ∨ ∀ l, on (p.pending a) l = false

/-- A cancelled delay is not followed by a scan. -/
theorem Heeded.undelay (h : Heeded p) {line : Fin 8} (hquiet : Quiet (p.undelay a line) a) :
    Heeded (p.undelay a line) := by
  have hint : ((p.undelay a line).scanIrr a).isSome = true → (p.adapter a).cpuInt = true := by
    intro hscan
    rcases hquiet with hup | hnone
    · exact hup
    · rw [scanIrr_none_of_pending hnone] at hscan
      cases hscan
  cases a with
  | master => exact ⟨⟨hint, h.offered.line⟩, ⟨h.relayed.int, h.relayed.request⟩, h.unlocked⟩
  | slave => exact ⟨⟨h.offered.int, h.offered.line⟩, ⟨hint, h.relayed.request⟩, h.unlocked⟩

/-! ## Lowering -/

/-- A withdrawal takes at most the line's bit. -/
theorem withdraw_eq (p : Pic) (a : Chip) (line : Fin 8) :
    ∃ t irr count, p.withdraw a line =
        (p.setTally a line t).setAdapter a { p.adapter a with irr, count } ∧
      ∀ l, (on irr l = true → on (p.adapter a).irr l = true) ∧
        (l ≠ line → on irr l = on (p.adapter a).irr l) := by
  rw [Pic.withdraw]
  dsimp only
  split
  · refine ⟨_, _, _, rfl, fun l => ⟨fun hl => ?_, fun hl => ?_⟩⟩
    · rw [on_and, Bool.and_eq_true] at hl
      exact hl.1
    · rw [on_and, on_not, on_bit, decide_eq_false hl.symm, Bool.not_false, Bool.and_true]
  · exact ⟨_, _, _, rfl, fun l => ⟨fun hl => hl, fun _ => rfl⟩⟩

/-- With fewer requests, a scan that finds one found one before. -/
theorem scanIrr_of_irr {s : Adapter} {line : Fin 8} {t : Tally}
    (hirr : ∀ l, on s.irr l = true → on (p.adapter a).irr l = true)
    (hs : s.imr = (p.adapter a).imr ∧ s.isr = (p.adapter a).isr ∧ s.mode = (p.adapter a).mode ∧
      s.hipri = (p.adapter a).hipri)
    (h : (((p.setTally a line t).setAdapter a s).scanIrr a).isSome = true) :
    (p.scanIrr a).isSome = true := by
  obtain ⟨himr, hisr, hmode, hhipri⟩ := hs
  refine scanIrr_mono (p := p) ?_ (fun l hl => ?_) (fun l hl => ?_) h
  · rw [Pic.setAdapter_self, hhipri]
  · rw [Pic.pending, on_and, Bool.and_eq_true, Pic.setAdapter_self, himr] at hl
    rw [Pic.pending, on_and, Bool.and_eq_true]
    exact ⟨hirr l hl.1, hl.2⟩
  · rw [Pic.active, Pic.setAdapter_self, hmode, hisr]
    exact hl

/-- What a withdrawal on the master leaves of the rest. -/
structure Lowered (number : ℕ) (p q : Pic) : Prop where
  slave : q.adapter .slave = p.adapter .slave
  delayed : q.delayed = p.delayed
  lock : q.lock = p.lock
  isr : (q.adapter .master).isr = (p.adapter .master).isr
  irr : ∀ l : Fin 8, (l : ℕ) ≠ number → on (q.adapter .master).irr l = on (p.adapter .master).irr l

theorem hookIf_offered (h : Offered p) (pending : Bool) (line : Fin 8) :
    Offered (p.hookIf pending a line) := by
  rw [Pic.hookIf]
  split
  · exact ⟨h.int, h.line⟩
  · exact h

theorem hookIf_lowered {number : ℕ} (h : Lowered number p q) (pending : Bool) (line : Fin 8) :
    Lowered number p (q.hookIf pending a line) := by
  rw [Pic.hookIf]
  split
  · exact ⟨h.slave, h.delayed, h.lock, h.isr, h.irr⟩
  · exact h

theorem clearMaster_offered (h : Offered p) (number : ℕ) :
    Yields (p.clearMaster number) fun q => Offered q ∧ Lowered number p q := by
  refine yields_index.bind fun line hline => ?_
  obtain ⟨t, irr, count, hw, hirr⟩ := withdraw_eq p .master line
  have ho : Offered (p.withdraw .master line) := by
    rw [hw]
    refine ⟨fun hscan => h.int (scanIrr_of_irr ?_ ?_ hscan), h.line⟩
    · exact fun l => (hirr l).1
    · exact ⟨rfl, rfl, rfl, rfl⟩
  have hl : Lowered number p (p.withdraw .master line) := by
    rw [hw]
    exact ⟨rfl, rfl, rfl, rfl, fun l hne => (hirr l).2 fun heq => hne (heq ▸ hline)⟩
  refine .ite (fun _ => .ok ?_) fun _ => .ok ⟨ho, hl⟩
  split
  · rename_i hidle
    have hlow : Offered (p.withdraw .master line).lower := by
      refine ⟨fun hscan => ?_, nofun⟩
      have hnone : (p.withdraw .master line).lower.scanIrr .master = none := hidle.2
      rw [hnone] at hscan
      cases hscan
    have hlow' : Lowered number p (p.withdraw .master line).lower :=
      ⟨hl.slave, hl.delayed, hl.lock, hl.isr, hl.irr⟩
    exact ⟨hookIf_offered hlow _ _, hookIf_lowered hlow' _ _⟩
  · exact ⟨hookIf_offered ho _ _, hookIf_lowered hl _ _⟩

/-- The slave silent: INT low and its request on the master gone. -/
theorem lowerSlave_offered (h : Offered p) :
    Yields p.lowerSlave fun q => Offered q ∧ (q.adapter .slave).cpuInt = false ∧ q.lock = p.lock ∧
      q.scanIrr .slave = p.scanIrr .slave := by
  have ho : Offered (p.setAdapter .slave { p.adapter .slave with cpuInt := false }) := ⟨h.int, h.line⟩
  refine (clearMaster_offered ho _).mono fun q ⟨hq, hl⟩ => ⟨hq, ?_, hl.lock, ?_⟩
  · rw [hl.slave]; rfl
  · rw [scanIrr_congr hl.slave (by rw [hl.delayed])]; rfl

theorem relayed_of_low (hint : (p.adapter .slave).cpuInt = false) (hscan : p.scanIrr .slave = none) :
    Relayed p where
  int h := by rw [hscan] at h; cases h
  request h := by rw [hint] at h; cases h

theorem hookIf_heeded (h : Heeded p) (pending : Bool) (line : Fin 8) :
    Heeded (p.hookIf pending a line) := by
  rw [Pic.hookIf]
  split
  · exact ⟨⟨h.offered.int, h.offered.line⟩, ⟨h.relayed.int, h.relayed.request⟩, h.unlocked⟩
  · exact h

/-- A device's withdrawal, of a line of the master that is not the slave's while its INT is up. -/
theorem Heeded.clearInt (h : Heeded p) {line : Fin 8}
    (hline : a = .master → (p.adapter .slave).cpuInt = true →
      (line : ℕ) ≠ (p.adapter .slave).ssr.toNat) : Yields (p.clearInt a line) Heeded := by
  cases a with
  | master =>
    refine (clearMaster_offered h.offered _).mono fun q ⟨ho, hl⟩ => ⟨ho, ?_, hl.lock.trans h.unlocked⟩
    refine ⟨fun hscan => ?_, fun hint => ?_⟩
    · rw [scanIrr_congr hl.slave (by rw [hl.delayed])] at hscan
      rw [hl.slave]; exact h.relayed.int hscan
    · rw [hl.slave] at hint
      obtain ⟨c, hc, hreq⟩ := h.relayed.request hint
      refine ⟨c, by rw [hl.slave]; exact hc, ?_⟩
      rw [hl.isr, hl.irr c fun heq => hline rfl hint (heq.symm.trans hc)]
      exact hreq
  | slave =>
    refine yields_index.bind fun l _ => ?_
    obtain ⟨t, irr, count, hw, hirr⟩ := withdraw_eq p .slave l
    have hq : Heeded (p.withdraw .slave l) := by
      rw [hw]
      refine ⟨⟨h.offered.int, h.offered.line⟩, ⟨fun hscan => ?_, h.relayed.request⟩, h.unlocked⟩
      refine h.relayed.int (scanIrr_of_irr ?_ ?_ hscan)
      · exact fun l => (hirr l).1
      · exact ⟨rfl, rfl, rfl, rfl⟩
    refine .ite (fun _ => ?_) fun _ => .ok hq
    refine Yields.bind (Q := Heeded) ?_ fun r hr => .ok (hookIf_heeded hr _ _)
    refine .ite (fun hscan => ?_) fun _ => .ok hq
    refine (lowerSlave_offered hq.offered).mono fun r ⟨ho, hint, hlock, hs⟩ => ?_
    exact ⟨ho, relayed_of_low hint (hs.trans hscan), hlock.trans hq.unlocked⟩

theorem Heeded.hwInterruptCancel (h : Heeded p) {line : Fin 8}
    (hline : a = .master → (p.adapter .slave).cpuInt = true →
      (line : ℕ) ≠ (p.adapter .slave).ssr.toNat) : Yields (p.hwInterruptCancel a line) Heeded := by
  refine yields_index.bind fun l _ => Heeded.clearInt ?_ ?_
  · cases a with
    | master =>
      exact ⟨⟨h.offered.int, h.offered.line⟩, ⟨h.relayed.int, h.relayed.request⟩, h.unlocked⟩
    | slave =>
      exact ⟨⟨h.offered.int, h.offered.line⟩, ⟨h.relayed.int, h.relayed.request⟩, h.unlocked⟩
  · rintro rfl
    exact hline rfl

/-! ## End of interrupt -/

/-- What `ica_eoi` changes before it scans. -/
structure Retired (a : Chip) (line : Fin 8) (p q : Pic) : Prop where
  other : ∀ b, b ≠ a → q.adapter b = p.adapter b
  delayed : q.delayed = p.delayed
  lock : q.lock = p.lock
  hwInt : q.hwInt = p.hwInt
  cpuInt : (q.adapter a).cpuInt = (p.adapter a).cpuInt
  ssr : (q.adapter a).ssr = (p.adapter a).ssr
  irr : (q.adapter a).irr = (p.adapter a).irr
  isr : ∀ l, l ≠ line → on (q.adapter a).isr l = on (p.adapter a).isr l
  pending : q.pending a = p.pending a

theorem retired_retire (p : Pic) (a : Chip) (line : Fin 8) (rotate : Bool) :
    Retired a line p (p.retire a line rotate) := by
  have hisr : ∀ l, l ≠ line →
      on ((p.adapter a).isr &&& ~~~bit line) l = on (p.adapter a).isr l := by
    intro l hl
    rw [on_and, on_not, on_bit, decide_eq_false hl.symm, Bool.not_false, Bool.and_true]
  rw [Pic.retire]
  split
  · exact ⟨fun b hb => Function.update_of_ne hb _ _, rfl, rfl, rfl, by simp [Pic.hook], by simp [Pic.hook],
      by simp [Pic.hook], fun l hl => by simpa [Pic.hook] using hisr l hl,
      by simp [Pic.hook, Pic.pending]; rfl⟩
  · exact ⟨fun b hb => Function.update_of_ne hb _ _, rfl, rfl, rfl, by simp, by simp,
      by simp, fun l hl => by simpa using hisr l hl, by simp [Pic.pending]; rfl⟩

/-- While the slave's INT is up its request is pending on the master, or the EOI is of another line. -/
def EoiHeard (p : Pic) (line : Option (Fin 8)) : Prop :=
  ∀ c, p.eoiLine .master line = some c → (c : ℕ) = (p.adapter .slave).ssr.toNat →
    (p.adapter .slave).cpuInt = true → on (p.adapter .master).irr c = true

theorem eoi_master (ho : (p.adapter .master).cpuInt = true → p.hwInt = true) (hr : Relayed p)
    {line : Option (Fin 8)} (hline : EoiHeard p line) (rotate : Bool) :
    Yields (p.eoi .master line rotate) fun q => Offered q ∧ Relayed q ∧ q.lock = p.lock := by
  rw [Pic.eoi]
  split
  · exact (rescan_master ho).mono fun q hq => ⟨hq.1, hr.beside hq.2, hq.2.lock⟩
  · rename_i c hc
    have hret := retired_retire p .master c rotate
    have hslave := hret.other .slave (by decide)
    have hup : ((p.retire .master c rotate).adapter .master).cpuInt = true →
        (p.retire .master c rotate).hwInt = true := by
      rw [hret.cpuInt, hret.hwInt]; exact ho
    have hr' : Relayed (p.retire .master c rotate) := by
      refine ⟨fun hscan => ?_, fun hint => ?_⟩
      · rw [scanIrr_congr hslave (by rw [hret.delayed])] at hscan
        rw [hslave]; exact hr.int hscan
      · rw [hslave] at hint
        obtain ⟨l, hl, hreq⟩ := hr.request hint
        refine ⟨l, by rw [hslave]; exact hl, ?_⟩
        rw [hret.irr]
        by_cases hlc : l = c
        · subst hlc
          exact .inl (hline l hc hl hint)
        · rw [hret.isr l hlc]; exact hreq
    exact (rescan_master hup).mono fun q hq =>
      ⟨hq.1, hr'.beside hq.2, hq.2.lock.trans hret.lock⟩

theorem eoi_slave (ho : Offered p) (hr : (p.adapter .slave).cpuInt = true → Cascaded p)
    (hlock : p.lock = 1) (line : Option (Fin 8)) (rotate : Bool) :
    Yields (p.eoi .slave line rotate) fun q => Offered q ∧ Relayed q ∧ q.lock = 1 := by
  rw [Pic.eoi]
  split
  · exact rescan_slave_locked ho hr hlock
  · rename_i c _
    have hret := retired_retire p .slave c rotate
    have hmaster := hret.other .master (by decide)
    refine rescan_slave_locked (ho.congr hmaster (by rw [hret.delayed]) hret.hwInt) ?_
      (hret.lock.trans hlock)
    intro hint
    rw [hret.cpuInt] at hint
    exact (hr hint).congr hmaster hret.ssr

/-! ## Acknowledge -/

/-- What taking a request into service changes. -/
structure Taken (a : Chip) (line : Fin 8) (p q : Pic) : Prop where
  other : ∀ b, b ≠ a → q.adapter b = p.adapter b
  delayed : q.delayed = p.delayed
  lock : q.lock = p.lock
  hwInt : q.hwInt = p.hwInt
  cpuInt : (q.adapter a).cpuInt = (p.adapter a).cpuInt
  ssr : (q.adapter a).ssr = (p.adapter a).ssr
  imr : (q.adapter a).imr = (p.adapter a).imr
  mode : (q.adapter a).mode = (p.adapter a).mode
  hipri : (q.adapter a).hipri = (p.adapter a).hipri
  isr : (q.adapter a).isr = (p.adapter a).isr ||| bit line
  irr : ∀ l, on (q.adapter a).irr l = true → on (p.adapter a).irr l = true
  irr_of_ne : ∀ l, l ≠ line → on (q.adapter a).irr l = on (p.adapter a).irr l
  last : (p.adapter a).count line = 1 → on (q.adapter a).irr line = false

theorem taken_take (p : Pic) (a : Chip) (line : Fin 8) : Taken a line p (p.take a line) := by
  rw [Pic.take]
  dsimp only
  split
  · refine ⟨fun b hb => Function.update_of_ne hb _ _, rfl, rfl, rfl, ?_, ?_, ?_, ?_, ?_, ?_,
      fun l hl => ?_, fun l hl => ?_, fun _ => ?_⟩ <;> try rw [Pic.setAdapter_self]
    · rw [Pic.setAdapter_self, on_and, Bool.and_eq_true] at hl
      exact hl.1
    · rw [on_and, on_not, on_bit, decide_eq_false hl.symm, Bool.not_false, Bool.and_true]
    · rw [on_and, on_not, on_bit, decide_eq_true rfl, Bool.not_true, Bool.and_false]
  · rename_i hcount
    refine ⟨fun b hb => Function.update_of_ne hb _ _, rfl, rfl, rfl, ?_, ?_, ?_, ?_, ?_, ?_,
      fun l hl => ?_, fun l hl => ?_, fun hone => absurd hone ?_⟩ <;> try rw [Pic.setAdapter_self]
    · rwa [Pic.setAdapter_self] at hl
    · omega

theorem Taken.pending {line : Fin 8} (h : Taken a line p q) {l : Fin 8}
    (hl : on (q.pending a) l = true) : on (p.pending a) l = true := by
  rw [Pic.pending, on_and, Bool.and_eq_true, h.imr, h.delayed] at hl
  rw [Pic.pending, on_and, Bool.and_eq_true]
  exact ⟨h.irr l hl.1, hl.2⟩

/-- Neither Special Mask nor Special Fully Nested mode, and no automatic EOI. -/
def Plain (p : Pic) (a : Chip) : Prop :=
  (p.adapter a).mode &&& (smm ||| sfnm) = 0 ∧ (p.adapter a).mode &&& aeoi = 0

/-- The request a scan finds is the only one that waits unmasked. -/
def Sole (p : Pic) (a : Chip) : Prop :=
  ∀ line, p.scanIrr a = some line →
    (∀ l, on (p.pending a) l = true → l = line) ∧ (p.adapter a).count line = 1

/-- An acknowledge that leaves nothing deliverable behind. -/
def Final (p : Pic) (a : Chip) : Prop := Plain p a ∨ Sole p a

theorem Taken.scanIrr_none_of_plain {line : Fin 8} (h : Taken a line p q) (hscan : p.scanIrr a = some line)
    (hplain : (p.adapter a).mode &&& (smm ||| sfnm) = 0) : q.scanIrr a = none := by
  refine scanIrr_none_of_active hscan h.hipri (fun l => h.pending) ?_
  rw [Pic.active, h.mode, if_neg (not_not.mpr hplain), h.isr, on_or, on_bit, decide_eq_true rfl,
    Bool.or_true]

theorem Taken.pending_of_sole {line : Fin 8} (h : Taken a line p q) (hscan : p.scanIrr a = some line)
    (hsole : Sole p a) (l : Fin 8) : on (q.pending a) l = false := by
  by_contra hl
  rw [Bool.not_eq_false] at hl
  obtain ⟨honly, hcount⟩ := hsole line hscan
  obtain rfl := honly l (h.pending hl)
  rw [Pic.pending, on_and, h.last hcount, Bool.false_and] at hl
  cases hl

/-- A rescan that finds nothing does nothing. -/
theorem rescan_of_none (h : p.scanIrr a = none) : p.rescan a = .ok p := by
  rw [Pic.rescan, Pic.scanBy, h]

/-- What an acknowledge of `a` leaves of the rest. -/
structure Accepted (a : Chip) (p q : Pic) : Prop where
  other : ∀ b, b ≠ a → q.adapter b = p.adapter b
  delayed : q.delayed = p.delayed
  lock : q.lock = p.lock
  hwInt : q.hwInt = p.hwInt
  ssr : (q.adapter a).ssr = (p.adapter a).ssr
  cpuInt : (q.adapter a).cpuInt = false
  scan : q.scanIrr a = none

/-- INT low; a scan does not read it. -/
theorem scanIrr_low (p : Pic) (a : Chip) :
    (p.setAdapter a { p.adapter a with cpuInt := false }).scanIrr a = p.scanIrr a := by
  simp only [scanIrr_eq, Pic.pending, Pic.active, Pic.setAdapter_self]
  rfl

theorem accepted_low (h : p.scanIrr a = none) :
    Accepted a p (p.setAdapter a { p.adapter a with cpuInt := false }) :=
  ⟨fun b hb => Function.update_of_ne hb _ _, rfl, rfl, rfl, by simp, by simp,
    (scanIrr_low p a).trans h⟩

theorem Taken.accepted {line : Fin 8}
    (h : Taken a line (p.setAdapter a { p.adapter a with cpuInt := false }) q)
    (hscan : q.scanIrr a = none) : Accepted a p q where
  other b hb := (h.other b hb).trans (Function.update_of_ne hb _ _)
  delayed := h.delayed
  lock := h.lock
  hwInt := h.hwInt
  ssr := h.ssr.trans (by simp)
  cpuInt := h.cpuInt.trans (by simp)
  scan := hscan

theorem Accepted.retired {line : Fin 8} {r : Pic} (h : Accepted a p q) (hr : Retired a line q r)
    (hpending : ∀ l, on (q.pending a) l = false) : Accepted a p r where
  other b hb := (hr.other b hb).trans (h.other b hb)
  delayed := hr.delayed.trans h.delayed
  lock := hr.lock.trans h.lock
  hwInt := hr.hwInt.trans h.hwInt
  ssr := hr.ssr.trans h.ssr
  cpuInt := hr.cpuInt.trans h.cpuInt
  scan := scanIrr_none_of_pending (hr.pending ▸ hpending)

/-- Automatic EOI with nothing left to find. -/
theorem autoEoi_accepted (h : Accepted a p q) (hpending : ∀ l, on (q.pending a) l = false) :
    Yields (q.autoEoi a) (Accepted a p) := by
  rw [Pic.autoEoi]
  refine .ite (fun _ => ?_) fun _ => .ok h
  rw [Pic.eoi]
  split
  · rw [rescan_of_none h.scan]
    exact .ok h
  · rename_i line _
    have hret := h.retired (retired_retire q a line ((q.adapter a).mode &&& raeoi = raeoi)) hpending
    rw [rescan_of_none hret.scan]
    exact .ok hret

/-- …keeps it so. -/
theorem autoEoi_pending (hpending : ∀ l, on (q.pending a) l = false) :
    Yields (q.autoEoi a) fun r => ∀ l, on (r.pending a) l = false := by
  rw [Pic.autoEoi]
  refine .ite (fun _ => ?_) fun _ => .ok hpending
  rw [Pic.eoi]
  split
  · rw [rescan_of_none (scanIrr_none_of_pending hpending)]
    exact .ok hpending
  · rename_i line _
    have hret := retired_retire q a line ((q.adapter a).mode &&& raeoi = raeoi)
    rw [rescan_of_none (scanIrr_none_of_pending (hret.pending ▸ hpending))]
    exact .ok (hret.pending ▸ hpending)

theorem Sole.low (h : Sole p a) : Sole (p.setAdapter a { p.adapter a with cpuInt := false }) a := by
  intro l hl
  obtain ⟨honly, hcount⟩ := h l (scanIrr_low p a ▸ hl)
  refine ⟨fun m hm => honly m ?_, by rw [Pic.setAdapter_self]; exact hcount⟩
  rw [Pic.pending, Pic.setAdapter_self] at hm
  exact hm

/-- The only request taken, none waits. -/
theorem accept_sole (hsole : Sole p a) (hsome : p.scanIrr a ≠ none) :
    Yields (p.accept a) fun r => ∀ l, on (r.2.pending a) l = false := by
  rw [Pic.accept]
  split
  · rename_i hscan
    exact absurd ((scanIrr_low p a).symm.trans hscan) hsome
  · rename_i line hscan
    have htake := taken_take (p.setAdapter a { p.adapter a with cpuInt := false }) a line
    exact (autoEoi_pending (htake.pending_of_sole hscan hsole.low)).bind fun q hq => .ok hq

/-- A final acknowledge takes what the scan finds, and the chip falls silent. -/
theorem accept_final (hfinal : Final p a) :
    Yields (p.accept a) fun r => r.1 = p.scanIrr a ∧ Accepted a p r.2 := by
  have hlow := scanIrr_low p a
  rw [Pic.accept]
  split
  · rename_i hscan
    rw [hlow] at hscan
    exact .ok ⟨hscan.symm, accepted_low hscan⟩
  · rename_i line hscan
    have hscan' := hlow ▸ hscan
    have htake := taken_take (p.setAdapter a { p.adapter a with cpuInt := false }) a line
    refine Yields.bind (Q := Accepted a p) ?_ fun q hq => .ok ⟨hscan'.symm, hq⟩
    rcases hfinal with ⟨hplain, hauto⟩ | hsole
    · have hnone := htake.scanIrr_none_of_plain hscan (by rw [Pic.setAdapter_self]; exact hplain)
      rw [Pic.autoEoi, if_neg]
      · exact .ok (htake.accepted hnone)
      · rw [htake.mode, Pic.setAdapter_self]
        exact not_not.mpr hauto
    · have hpending := htake.pending_of_sole hscan hsole.low
      exact autoEoi_accepted (htake.accepted (scanIrr_none_of_pending hpending)) hpending

/-- In automatic EOI mode the cascade request must outlive the line acknowledged. -/
def CascadeKept (p : Pic) (line : Fin 8) : Prop :=
  (p.adapter .master).mode &&& aeoi ≠ 0 → (p.adapter .slave).cpuInt = true →
    ∀ c : Fin 8, (c : ℕ) = (p.adapter .slave).ssr.toNat → c ≠ line ∧ on (p.adapter .master).irr c = true

theorem Taken.cascaded {line : Fin 8} (h : Taken .master line p q) (hc : Cascaded p) : Cascaded q := by
  obtain ⟨c, hssr, hreq⟩ := hc
  refine ⟨c, by rw [h.other .slave nofun]; exact hssr, ?_⟩
  rw [h.isr, on_or, on_bit]
  by_cases hcl : c = line
  · exact .inr (by rw [decide_eq_true hcl.symm, Bool.or_true])
  · rw [h.irr_of_ne c hcl]
    exact hreq.imp id fun hisr => by rw [hisr, Bool.true_or]

/-- An acknowledge of the master keeps the slave's request there. -/
theorem accept_cascaded (hc : (p.adapter .slave).cpuInt = true → Cascaded p)
    (hkept : ∀ line, p.scanIrr .master = some line → CascadeKept p line) :
    Yields (p.accept .master) fun r => (p.adapter .slave).cpuInt = true → Cascaded r.2 := by
  rw [Pic.accept]
  split
  · exact .ok fun hint => (hc hint)
  · rename_i line hscan
    rw [scanIrr_low] at hscan
    have htake := taken_take (p.setAdapter .master { p.adapter .master with cpuInt := false }) .master line
    refine Yields.bind (Q := fun q => (p.adapter .slave).cpuInt = true → Cascaded q) ?_ fun q hq => .ok hq
    rw [Pic.autoEoi]
    refine .ite (fun hauto => ?_) fun _ => .ok fun hint => htake.cascaded (hc hint)
    rw [htake.mode] at hauto
    by_cases hint : (p.adapter .slave).cpuInt = true
    swap
    · exact fun _ _ h => absurd h hint
    obtain ⟨c, hssr, -⟩ := hc hint
    obtain ⟨hne, hirr⟩ := hkept line hscan hauto hint c hssr
    have hslave := htake.other .slave (by decide)
    have hirr' := (htake.irr_of_ne c hne).trans hirr
    have hcascaded : ∀ q : Pic, q.adapter .slave = p.adapter .slave →
        on (q.adapter .master).irr c = true → Cascaded q := by
      intro q hs hi
      exact ⟨c, by rw [hs]; exact hssr, .inl hi⟩
    -- the automatic EOI and its scan take nothing from IRR
    rw [Pic.eoi]
    split
    · exact (beside_rescan _).mono fun q hq _ => hcascaded q (hq.slave.trans hslave) (hq.irr c hirr')
    · rename_i done _
      have hret := retired_retire ((p.setAdapter .master { p.adapter .master with
        cpuInt := false }).take .master line) .master done
      refine (beside_rescan _).mono fun q hq _ => hcascaded q ?_ (hq.irr c ?_)
      · exact hq.slave.trans (((hret _).other .slave (by decide)).trans hslave)
      · rw [(hret _).irr]
        exact hirr'

theorem offered_of_low (hint : (p.adapter .master).cpuInt = false) (hscan : p.scanIrr .master = none) :
    Offered p where
  int h := by rw [hscan] at h; cases h
  line h := by rw [hint] at h; cases h

theorem Accepted.relayed (h : Accepted .master p q) (hr : Relayed p)
    (hc : (p.adapter .slave).cpuInt = true → Cascaded q) : Relayed q where
  int hscan := by
    rw [scanIrr_congr (h.other .slave nofun) (by rw [h.delayed])] at hscan
    rw [h.other .slave nofun]; exact hr.int hscan
  request hint := by
    rw [h.other .slave nofun] at hint
    exact hc hint

theorem Final.congr (h : Final p a) (hadapter : q.adapter a = p.adapter a)
    (hdelayed : q.delayed a = p.delayed a) : Final q a := by
  have hscan := scanIrr_congr hadapter hdelayed
  have hpending : q.pending a = p.pending a := by rw [Pic.pending, Pic.pending, hadapter, hdelayed]
  rcases h with hplain | hsole
  · exact .inl (by rw [Plain, hadapter]; exact hplain)
  · refine .inr fun line hline => ?_
    rw [hpending, hadapter]
    exact hsole line (hscan ▸ hline)

/-- What a CPU acknowledge must find: it is final on the master; on a slave's line it is final on the
slave too, and where the slave rejects it nothing else waits on the master; on another line it does not
take the slave's request out of service. -/
def IntackHeard (p : Pic) : Prop :=
  ∀ line, p.scanIrr .master = some line → Final p .master ∧
    if on (p.adapter .master).ssr line then
      if p.scanIrr .slave = none then Sole p .master else Final p .slave
    else CascadeKept p line

/-- Both chips silent towards the CPU until the next operation. -/
structure Acknowledged (p q : Pic) : Prop where
  relayed : Relayed q
  cpuInt : (q.adapter .master).cpuInt = false
  scan : q.scanIrr .master = none
  lock : q.lock = p.lock

/-- The slave's half of an acknowledge; `q` is the state the master's left. -/
theorem intackSlave_heard {line : Fin 8} {r : Option (Fin 8) × Pic} (hq : Accepted .master p r.2)
    (hr : p.accept .master = .ok r) (hscan : p.scanIrr .master = some line)
    (hline : if p.scanIrr .slave = none then Sole p .master else Final p .slave) :
    Yields (r.2.intackSlave line) fun r => Acknowledged p r.2 := by
  have hslave := hq.other .slave nofun
  have hscan' : r.2.scanIrr .slave = p.scanIrr .slave :=
    scanIrr_congr hslave (by rw [hq.delayed])
  have hfinal : Final r.2 .slave := by
    by_cases hnone : p.scanIrr .slave = none
    · exact .inr fun l hl => by rw [hscan', hnone] at hl; cases hl
    · rw [if_neg hnone] at hline
      exact hline.congr hslave (by rw [hq.delayed])
  refine (accept_final hfinal).bind fun u ⟨h₁, hu⟩ => ?_
  have hmaster := hu.other .master nofun
  rw [h₁, hscan']
  split
  · rename_i hnone
    rw [if_pos hnone] at hline
    have hpending := accept_sole hline (by rw [hscan]; exact nofun) r hr
    have hend : (u.2.endService line).scanIrr .master = none := by
      refine scanIrr_none_of_pending fun l => ?_
      have := hpending l
      rw [Pic.pending] at this
      rw [Pic.pending, Pic.endService, Pic.setAdapter_self, hmaster]
      rw [← hu.delayed] at this
      exact this
    refine .ok ⟨⟨fun hsome => ?_, fun hint => ?_⟩, ?_, hend, hu.lock.trans hq.lock⟩
    · have hs : (u.2.endService line).scanIrr .slave = none := hu.scan
      rw [hs] at hsome
      cases hsome
    · exact absurd hu.cpuInt (by rw [Bool.not_eq_false]; exact hint)
    · change (u.2.adapter .master).cpuInt = false
      rw [hmaster]; exact hq.cpuInt
  · refine .ok ⟨relayed_of_low hu.cpuInt hu.scan, ?_, ?_, hu.lock.trans hq.lock⟩
    · rw [hmaster]; exact hq.cpuInt
    · rw [scanIrr_congr hmaster (by rw [hu.delayed])]; exact hq.scan

theorem intack_heard (hr : Relayed p) (h : IntackHeard p) :
    Yields p.intack fun r => Acknowledged p r.2 := by
  cases hscan : p.scanIrr .master with
  | none =>
    have hfinal : Final p .master := .inr fun line hline => by rw [hscan] at hline; cases hline
    have hc := accept_cascaded hr.request fun line hline => by rw [hscan] at hline; cases hline
    refine ((accept_final hfinal).and hc).bind fun r ⟨⟨h₁, hq⟩, hc⟩ => ?_
    rw [h₁, hscan]
    exact .ok ⟨hq.relayed hr hc, hq.cpuInt, hq.scan, hq.lock⟩
  | some line =>
    obtain ⟨hfinal, hline⟩ := h line hscan
    by_cases hslave : on (p.adapter .master).ssr line = true
    · rw [if_pos hslave] at hline
      refine ((accept_final hfinal).and (fun r hr => hr)).bind fun r ⟨⟨h₁, hq⟩, hr'⟩ => ?_
      rw [h₁, hscan]
      dsimp only
      rw [if_pos (by rw [hq.ssr]; exact hslave)]
      exact intackSlave_heard hq hr' hscan hline
    · rw [if_neg hslave] at hline
      have hc := accept_cascaded hr.request fun l hl => by
        rw [hscan] at hl; injection hl with hl; exact hl ▸ hline
      refine ((accept_final hfinal).and hc).bind fun r ⟨⟨h₁, hq⟩, hc⟩ => ?_
      rw [h₁, hscan]
      dsimp only
      rw [if_neg (by rw [hq.ssr]; exact hslave)]
      exact .ok ⟨hq.relayed hr hc, hq.cpuInt, hq.scan, hq.lock⟩

/-! ## The ports -/

/-- What a poll must find: it is final; on the master it does not take the slave's request out of
service, and on the slave, whose poll lowers the CPU's line, the master has INT low. -/
def PollHeard (p : Pic) (a : Chip) : Prop :=
  ∀ line, p.scanIrr a = some line → Final p a ∧
    match a with
    | .master => CascadeKept p line
    | .slave => (p.adapter .master).cpuInt = false

theorem polled_heard (ho : Offered p) (hr : Relayed p) (h : PollHeard p a) :
    Yields (p.polled a) fun q => Offered q ∧ Relayed q := by
  rw [Pic.polled, Pic.scanByte]
  cases hscan : p.scanIrr a with
  | none => exact .ok ⟨ho, hr⟩
  | some line =>
    obtain ⟨hfinal, hline⟩ := h line hscan
    refine .ite (fun _ => ?_) fun _ => .ok ⟨ho, hr⟩
    cases a with
    | master =>
      have hc := accept_cascaded hr.request fun l hl => by
        rw [hscan] at hl; injection hl with hl; exact hl ▸ hline
      refine ((accept_final hfinal).and hc).bind fun r hr' => ?_
      obtain ⟨⟨-, hq⟩, hc⟩ := hr'
      refine .ok ⟨?_, ?_⟩
      · exact offered_of_low (p := { r.2 with hwInt := false }) hq.cpuInt hq.scan
      · have hr' := hq.relayed hr hc
        exact ⟨hr'.int, hr'.request⟩
    | slave =>
      refine (accept_final hfinal).bind fun r hr' => ?_
      obtain ⟨-, hq⟩ := hr'
      refine .ok ⟨?_, ?_⟩
      · have hmaster := hq.other .master (by decide)
        have hlow : (r.2.adapter .master).cpuInt = false := by rw [hmaster]; exact hline
        refine offered_of_low (p := { r.2 with hwInt := false }) hlow ?_
        cases hs : p.scanIrr .master with
        | none => exact (scanIrr_congr hmaster (by rw [hq.delayed])).trans hs
        | some l =>
          have hup := ho.int (by rw [hs]; rfl)
          rw [hline] at hup
          cases hup
      · exact relayed_of_low (p := { r.2 with hwInt := false }) hq.cpuInt hq.scan

/-- An adapter re-set with the fields a scan and the cascade read. -/
theorem Offered.edit (h : Offered p) {s : Adapter} (hint : s.cpuInt = (p.adapter .master).cpuInt)
    (hscan : ((p.setAdapter .master s).scanIrr .master).isSome = true → s.cpuInt = true) :
    Offered (p.setAdapter .master s) := by
  refine ⟨fun hs => ?_, fun hup => h.line ?_⟩
  · rw [Pic.setAdapter_self]; exact hscan hs
  · rw [Pic.setAdapter_self] at hup
    exact hint ▸ hup

/-- A change of one adapter's mode or priority, heard. -/
theorem heard_edit (ho : Offered p) (hr : Relayed p) {s : Adapter}
    (hs : s.irr = (p.adapter a).irr ∧ s.isr = (p.adapter a).isr ∧ s.ssr = (p.adapter a).ssr ∧
      s.cpuInt = (p.adapter a).cpuInt)
    (hscan : ((p.setAdapter a s).scanIrr a).isSome = true → s.cpuInt = true) :
    Offered (p.setAdapter a s) ∧ Relayed (p.setAdapter a s) := by
  obtain ⟨hirr, hisr, hssr, hint⟩ := hs
  cases a with
  | master =>
    refine ⟨ho.edit hint hscan, ⟨hr.int, fun hup => ?_⟩⟩
    obtain ⟨c, hc, hreq⟩ := hr.request hup
    refine ⟨c, hc, ?_⟩
    rw [Pic.setAdapter_self, hirr, hisr]
    exact hreq
  | slave =>
    refine ⟨⟨ho.int, ho.line⟩, ⟨fun hsome => ?_, fun hup => ?_⟩⟩
    · rw [Pic.setAdapter_self]; exact hscan hsome
    · rw [Pic.setAdapter_self, hint] at hup
      obtain ⟨c, hc, hreq⟩ := hr.request hup
      exact ⟨c, by rw [Pic.setAdapter_self, hssr]; exact hc, hreq⟩

/-- …because the chip is quiet. -/
theorem Quiet.scan {s : Adapter} (h : Quiet p a) (hs : s.irr = (p.adapter a).irr ∧
    s.imr = (p.adapter a).imr ∧ s.cpuInt = (p.adapter a).cpuInt)
    (hscan : ((p.setAdapter a s).scanIrr a).isSome = true) : s.cpuInt = true := by
  obtain ⟨hirr, himr, hint⟩ := hs
  rcases h with hup | hnone
  · exact hint.trans hup
  · rw [scanIrr_none_of_pending fun l => ?_] at hscan
    · cases hscan
    · rw [Pic.pending, Pic.setAdapter_self, hirr, himr]
      exact hnone l

/-- The modes that ignore ISR are bits 8 and 9. -/
theorem special_iff (x : BitVec 16) :
    x &&& (smm ||| sfnm) = 0 ↔ x[8] = false ∧ x[9] = false := by
  constructor
  · intro h
    have h8 := congrArg (BitVec.getLsbD · 8) h
    have h9 := congrArg (BitVec.getLsbD · 9) h
    simp only [BitVec.getLsbD_and] at h8 h9
    exact ⟨by simpa [smm, sfnm] using h8, by simpa [smm, sfnm] using h9⟩
  · rintro ⟨h8, h9⟩
    apply BitVec.eq_of_getLsbD_eq
    intro i hi
    rw [BitVec.getLsbD_and]
    interval_cases i <;> simp [smm, sfnm, h8, h9]

/-- ICW4 turns them on by its bit 4, OCW3 by bits 6 and 5. -/
theorem icw4_special (mode : BitVec 16) (value : BitVec 8)
    (h : ((mode &&& ~~~icw4Mask) ||| ((value.setWidth 16 <<< 4) &&& icw4Mask)) &&& (smm ||| sfnm) ≠ 0) :
    mode &&& (smm ||| sfnm) ≠ 0 ∨ value[4] = true := by
  by_contra hn
  rw [not_or, not_not, special_iff, Bool.not_eq_true] at hn
  obtain ⟨⟨h8, h9⟩, h4⟩ := hn
  refine h ((special_iff _).mpr ?_)
  simp [icw4Mask, h9, h4]

theorem ocw3_special (mode : BitVec 16) (value : BitVec 8)
    (h : Pic.ocw3Mode mode value &&& (smm ||| sfnm) ≠ 0) :
    mode &&& (smm ||| sfnm) ≠ 0 ∨ value &&& 0x40 ≠ 0 ∧ value[5] = true := by
  by_contra hn
  rw [not_or, not_not, special_iff, not_and, Bool.not_eq_true] at hn
  obtain ⟨⟨h8, h9⟩, h5⟩ := hn
  refine h ((special_iff _).mpr ?_)
  rw [Pic.ocw3Mode]
  by_cases hsmm : value &&& 0x40 ≠ 0
  · rw [if_pos hsmm]
    split_ifs <;> simp [smm, poll, ris, h8, h9, h5 hsmm]
  · rw [if_neg hsmm]
    split_ifs <;> simp [poll, ris, h8, h9]

/-- With ISR read at least as before, a scan that finds a request found one before. -/
theorem scanIrr_of_mode {s : Adapter} (hs : s.irr = (p.adapter a).irr ∧ s.imr = (p.adapter a).imr ∧
    s.isr = (p.adapter a).isr ∧ s.hipri = (p.adapter a).hipri)
    (hmode : s.mode &&& (smm ||| sfnm) ≠ 0 → (p.adapter a).mode &&& (smm ||| sfnm) ≠ 0)
    (h : ((p.setAdapter a s).scanIrr a).isSome = true) : (p.scanIrr a).isSome = true := by
  obtain ⟨hirr, himr, hisr, hhipri⟩ := hs
  refine scanIrr_mono (p := p) ?_ (fun l hl => ?_) (fun l hl => ?_) h
  · rw [Pic.setAdapter_self, hhipri]
  · rw [Pic.pending, Pic.setAdapter_self, hirr, himr] at hl
    exact hl
  · rw [Pic.active] at hl
    rw [Pic.active, Pic.setAdapter_self, hisr]
    split_ifs at hl with hold
    · exact absurd hl (by simp)
    · rwa [if_neg fun hnew => hold (hmode hnew)]

/-- The scan of either chip is heard. -/
theorem heard_int (ho : Offered p) (hr : Relayed p) (h : (p.scanIrr a).isSome = true) :
    (p.adapter a).cpuInt = true := by
  cases a with
  | master => exact ho.int h
  | slave => exact hr.int h

/-- What OCW2 must find: an EOI of the master leaves the slave's request, and a new priority finds the
chip quiet. -/
def Ocw2Heard (p : Pic) (a : Chip) (value : BitVec 8) : Prop :=
  let line : Fin 8 := ⟨(value &&& 7).toNat % 8, Pic.line_lt value⟩
  match ((value >>> 5) &&& 7).toNat with
  | 1 | 5 => a = .master → EoiHeard p none
  | 3 | 7 => a = .master → EoiHeard p (some line)
  | 6 => Quiet p a
  | _ => True

theorem eoi_heard (ho : Offered p) (hr : Relayed p) (hlock : p.lock = 1) {line : Option (Fin 8)}
    (h : a = .master → EoiHeard p line) (rotate : Bool) :
    Yields (p.eoi a line rotate) fun q => Offered q ∧ Relayed q := by
  cases a with
  | master => exact (eoi_master ho.line hr (h rfl) rotate).mono fun q hq => ⟨hq.1, hq.2.1⟩
  | slave => exact (eoi_slave ho hr.request hlock line rotate).mono fun q hq => ⟨hq.1, hq.2.1⟩

/-- Rotation in automatic EOI mode is no part of a scan. -/
theorem raeoi_and (mode : BitVec 16) : (mode &&& ~~~raeoi) &&& (smm ||| sfnm) = mode &&& (smm ||| sfnm) := by
  rw [BitVec.and_assoc]
  congr 1

theorem raeoi_or (mode : BitVec 16) : (mode ||| raeoi) &&& (smm ||| sfnm) = mode &&& (smm ||| sfnm) := by
  have hnone : raeoi &&& (smm ||| sfnm) = 0#16 := by decide
  rw [BitVec.and_comm, BitVec.and_or_distrib_left, BitVec.and_comm (smm ||| sfnm) raeoi, hnone,
    BitVec.or_zero, BitVec.and_comm]

theorem ocw2_heard (ho : Offered p) (hr : Relayed p) (hlock : p.lock = 1) {value : BitVec 8}
    (h : Ocw2Heard p a value) : Yields (p.ocw2 a value) fun q => Offered q ∧ Relayed q := by
  rw [Pic.ocw2]
  rw [Ocw2Heard] at h
  generalize ((value >>> 5) &&& 7).toNat = command at h ⊢
  have hraeoi : ∀ mode, mode &&& (smm ||| sfnm) = (p.adapter a).mode &&& (smm ||| sfnm) →
      Offered (p.setAdapter a { p.adapter a with mode }) ∧
        Relayed (p.setAdapter a { p.adapter a with mode }) := by
    intro mode hmode
    refine heard_edit ho hr ⟨rfl, rfl, rfl, rfl⟩ fun hscan => heard_int ho hr ?_
    refine scanIrr_of_mode ?_ ?_ hscan
    · exact ⟨rfl, rfl, rfl, rfl⟩
    · exact fun hne => hmode ▸ hne
  rcases command with _ | _ | _ | _ | _ | _ | _ | _ | n
  · exact .ok (hraeoi _ (raeoi_and _))
  · exact eoi_heard ho hr hlock h false
  · exact .ok ⟨ho, hr⟩
  · exact eoi_heard ho hr hlock h false
  · exact .ok (hraeoi _ (raeoi_or _))
  · exact eoi_heard ho hr hlock h true
  · exact .ok (heard_edit ho hr ⟨rfl, rfl, rfl, rfl⟩ (Quiet.scan h ⟨rfl, rfl, rfl⟩))
  · exact eoi_heard ho hr hlock h true
  · exact .ok ⟨ho, hr⟩

/-- What the words of an initialisation and the OCWs must find. -/
def WordHeard (p : Pic) (a : Chip) (odd : Bool) (value : BitVec 8) : Prop :=
  match p.sequence a with
  | .powerOn | .icw2 => True
  | .ready =>
    if odd then True
    else if value &&& 8 = 0 then Ocw2Heard p a value
    else value &&& 0x40 ≠ 0 ∧ value[5] = true → Quiet p a
  | .icw3 => odd = true → a = .slave → (p.adapter .slave).cpuInt = false
  | .icw4 => odd = true → value[4] = true → Quiet p a

/-- OCW1 needs nothing: it scans again, whether its mask hides the request offered or not. -/
theorem ocw1_heard (ho : Offered p) (hr : Relayed p) (hlock : p.lock = 1) (value : BitVec 8) :
    Yields (p.ocw1 a value) fun q => Offered q ∧ Relayed q := by
  cases a with
  | master =>
    have hup : ∀ q : Pic, q.adapter .slave = p.adapter .slave → q.delayed = p.delayed →
        (∀ l, on (p.adapter .master).irr l = true → on (q.adapter .master).irr l = true) →
        (q.adapter .master).isr = (p.adapter .master).isr → q.lock = p.lock →
        ((q.adapter .master).cpuInt = true → q.hwInt = true) →
        Yields (if (q.adapter .master).cpuInt then .ok q else q.rescan .master) fun q =>
          Offered q ∧ Relayed q := by
      intro q hslave hdelayed hirr hisr hlock' hline
      have hr' := hr.beside ⟨hslave, hdelayed, hirr, hisr, hlock'⟩
      refine .ite (fun hint => .ok ⟨⟨fun _ => hint, hline⟩, hr'⟩) fun _ => ?_
      exact (rescan_master hline).mono fun u ⟨hu, hbeside⟩ => ⟨hu, hr'.beside hbeside⟩
    refine Yields.bind (Q := fun q => q = _ ∨ q = _) (.ite (fun _ => .ok (.inl rfl)) fun _ =>
      .ok (.inr rfl)) ?_
    rintro q (rfl | rfl)
    · exact hup _ rfl rfl (fun _ h => h) rfl rfl nofun
    · exact hup _ rfl rfl (fun _ h => h) rfl rfl ho.line
  | slave =>
    have hlow : Yields ((p.setAdapter .slave { p.adapter .slave with imr := value }).maskOut .slave)
        fun q => Offered q ∧ ((q.adapter .slave).cpuInt = true → Cascaded q) ∧ q.lock = 1 := by
      have ho' : Offered (p.setAdapter .slave { p.adapter .slave with imr := value }) :=
        ⟨ho.int, ho.line⟩
      refine .ite (fun _ => ?_) fun _ => .ok ⟨ho', hr.request, hlock⟩
      refine (lowerSlave_offered ho').mono fun q ⟨hq, hint, hlock', _⟩ => ⟨hq, ?_, hlock'.trans hlock⟩
      rw [hint]
      exact nofun
    refine hlow.bind fun q ⟨hq, hc, hlock'⟩ => ?_
    refine .ite (fun hint => .ok ⟨hq, fun _ => hint, hc⟩) fun _ => ?_
    exact (rescan_slave_locked hq hc hlock').mono fun r hr => ⟨hr.1, hr.2.1⟩

/-- A new mode is heard if ISR counts as before or the chip is quiet. -/
theorem mode_heard (ho : Offered p) (hr : Relayed p) (mode : BitVec 16)
    (h : mode &&& (smm ||| sfnm) ≠ 0 → (p.adapter a).mode &&& (smm ||| sfnm) ≠ 0 ∨ Quiet p a) :
    Offered (p.setAdapter a { p.adapter a with mode }) ∧
      Relayed (p.setAdapter a { p.adapter a with mode }) := by
  refine heard_edit ho hr ⟨rfl, rfl, rfl, rfl⟩ fun hscan => ?_
  by_cases hquiet : Quiet p a
  · exact hquiet.scan ⟨rfl, rfl, rfl⟩ hscan
  · refine heard_int ho hr (scanIrr_of_mode ?_ ?_ hscan)
    · exact ⟨rfl, rfl, rfl, rfl⟩
    · exact fun hnew => (h hnew).resolve_right hquiet

theorem sequence_heard (h : Offered p ∧ Relayed p) (s : Sequence) :
    Offered (p.setSequence a s) ∧ Relayed (p.setSequence a s) :=
  ⟨⟨h.1.int, h.1.line⟩, ⟨h.2.int, h.2.request⟩⟩

theorem word_heard (ho : Offered p) (hr : Relayed p) (hlock : p.lock = 1) {odd : Bool} {value : BitVec 8}
    (h : WordHeard p a odd value) : Yields (p.word a odd value) fun q => Offered q ∧ Relayed q := by
  rw [WordHeard] at h
  rw [Pic.word]
  cases hseq : p.sequence a with
  | powerOn => exact .ok ⟨ho, hr⟩
  | ready =>
    rw [hseq] at h
    dsimp only at h ⊢
    split_ifs at h ⊢
    · exact ocw1_heard ho hr hlock value
    · exact ocw2_heard ho hr hlock h
    · refine .ok (mode_heard ho hr _ fun hnew => ?_)
      rcases ocw3_special _ _ hnew with hold | hset
      · exact .inl hold
      · exact .inr (h hset)
  | icw2 =>
    dsimp only
    split_ifs
    · refine .ok (sequence_heard ?_ _)
      refine heard_edit ho hr ⟨rfl, rfl, rfl, rfl⟩ fun hscan => ?_
      refine heard_int ho hr (scanIrr_of_mode ?_ ?_ hscan)
      · exact ⟨rfl, rfl, rfl, rfl⟩
      · exact id
    · exact .ok ⟨ho, hr⟩
  | icw3 =>
    rw [hseq] at h
    dsimp only at h ⊢
    split_ifs with hodd
    · refine .ok (sequence_heard ?_ _)
      cases a with
      | master => exact ⟨⟨ho.int, ho.line⟩, ⟨hr.int, hr.request⟩⟩
      | slave =>
        refine ⟨⟨ho.int, ho.line⟩, ⟨hr.int, fun hup => ?_⟩⟩
        exact absurd (h hodd rfl) (by rw [Bool.not_eq_false]; exact hup)
    · exact .ok ⟨ho, hr⟩
  | icw4 =>
    rw [hseq] at h
    dsimp only at h ⊢
    refine .ok (sequence_heard ?_ _)
    split_ifs with hodd
    · refine mode_heard ho hr _ fun hnew => ?_
      rcases icw4_special _ _ hnew with hold | hset
      · exact .inl hold
      · exact .inr (h hodd hset)
    · exact ⟨ho, hr⟩

/-- Re-initialising the master, its slave must have INT low. -/
theorem icw1_heard (ho : Offered p) (hr : Relayed p) (value : BitVec 8)
    (h : a = .master → (p.adapter .slave).cpuInt = false) :
    Offered (p.icw1 a value) ∧ Relayed (p.icw1 a value) := by
  have hnone : (p.icw1 a value).scanIrr a = none := by
    refine scanIrr_none_of_pending fun l => ?_
    simp [Pic.icw1, Pic.pending]
  cases a with
  | master =>
    refine ⟨offered_of_low rfl hnone, ⟨hr.int, fun hup => ?_⟩⟩
    exact absurd (h rfl) (by rw [Bool.not_eq_false]; exact hup)
  | slave => exact ⟨⟨ho.int, ho.line⟩, relayed_of_low rfl hnone⟩

/-- What a byte written to a port must find. -/
def OutbHeard (p : Pic) (port : BitVec 16) (value : BitVec 8) : Prop :=
  let a := Pic.adapterForPort port
  port &&& 0xfffe = Pic.port0 a →
    if Pic.isIcw1 port value then a = .master → (p.adapter .slave).cpuInt = false
    else WordHeard p a (Pic.odd port) value

theorem Heeded.outb (h : Heeded p) {port : BitVec 16} {value : BitVec 8} (hp : OutbHeard p port value) :
    Yields (p.outb port value) Heeded := by
  rw [Pic.outb]
  refine .ite (fun _ => .ok h) fun hport => ?_
  have hword := hp (not_not.mp hport)
  refine .ite (fun hicw => .ok ?_) fun hicw => ?_
  · rw [if_pos hicw] at hword
    obtain ⟨ho, hr⟩ := icw1_heard h.offered h.relayed value hword
    exact ⟨ho, hr, h.unlocked⟩
  · rw [if_neg hicw] at hword
    have ho : Offered { p with lock := 1 } := ⟨h.offered.int, h.offered.line⟩
    have hr : Relayed { p with lock := 1 } := ⟨h.relayed.int, h.relayed.request⟩
    refine (word_heard ho hr rfl hword).bind fun q hq => .ok ?_
    exact ⟨⟨hq.1.int, hq.1.line⟩, ⟨hq.2.int, hq.2.request⟩, rfl⟩

/-- What a port read must find: where a poll was asked for, it is answered. -/
def InbHeard (p : Pic) (port : BitVec 16) : Prop :=
  (p.adapter (Pic.adapterForPort port)).mode &&& poll ≠ 0 → PollHeard p (Pic.adapterForPort port)

/-- The poll bit is no part of a scan, and no part of what a poll must find. -/
theorem pollBit (mode : BitVec 16) : (mode &&& ~~~poll) &&& (smm ||| sfnm) = mode &&& (smm ||| sfnm) := by
  rw [BitVec.and_assoc]
  congr 1

theorem pollBit_aeoi (mode : BitVec 16) : (mode &&& ~~~poll) &&& aeoi = mode &&& aeoi := by
  rw [BitVec.and_assoc]
  congr 1

/-- `p` with its poll bit cleared, as `SWPIC_inb` scans it. -/
def answering (p : Pic) (a : Chip) : Pic :=
  { p with lock := 1 }.setAdapter a { p.adapter a with mode := (p.adapter a).mode &&& ~~~poll }

theorem answering_scan (p : Pic) (a : Chip) : (answering p a).scanIrr a = p.scanIrr a := by
  simp only [scanIrr_eq, Pic.pending, Pic.active, answering, Pic.setAdapter_self, pollBit]
  rfl

theorem answering_pending (p : Pic) (a : Chip) : (answering p a).pending a = p.pending a := by
  simp only [Pic.pending, answering, Pic.setAdapter_self]
  rfl

theorem PollHeard.answering (h : PollHeard p a) : PollHeard (answering p a) a := by
  intro line hline
  rw [answering_scan] at hline
  obtain ⟨hfinal, hrest⟩ := h line hline
  refine ⟨?_, ?_⟩
  · rcases hfinal with ⟨hplain, hauto⟩ | hsole
    · refine .inl ⟨?_, ?_⟩
      · rw [Ica.answering, Pic.setAdapter_self, pollBit]; exact hplain
      · rw [Ica.answering, Pic.setAdapter_self, pollBit_aeoi]; exact hauto
    · refine .inr fun l hl => ?_
      rw [answering_scan] at hl
      rw [answering_pending, Ica.answering, Pic.setAdapter_self]
      exact hsole l hl
  · cases a with
    | master =>
      intro hauto
      rw [Ica.answering, Pic.setAdapter_self, pollBit_aeoi] at hauto
      exact hrest hauto
    | slave => exact hrest

theorem Heeded.inb (h : Heeded p) {port : BitVec 16} (hp : InbHeard p port) :
    Yields (p.inb port) fun r => Heeded r.2 := by
  rw [Pic.inb]
  refine .ite (fun hpoll => ?_) fun _ => .ok h
  have ho : Offered { p with lock := 1 } := ⟨h.offered.int, h.offered.line⟩
  have hr : Relayed { p with lock := 1 } := ⟨h.relayed.int, h.relayed.request⟩
  have hmode := mode_heard (a := Pic.adapterForPort port) ho hr
    ((p.adapter (Pic.adapterForPort port)).mode &&& ~~~poll) fun hne => .inl (pollBit _ ▸ hne)
  refine (polled_heard (p := answering p (Pic.adapterForPort port)) hmode.1 hmode.2
    (hp hpoll).answering).bind fun q hq => .ok ?_
  exact ⟨⟨hq.1.int, hq.1.line⟩, ⟨hq.2.int, hq.2.request⟩, rfl⟩

/-! ## Runs -/

/-- What an operation must find to leave no deliverable request unheard. -/
def Op.Heard (p : Pic) : Op → Prop
  | .outb port value => OutbHeard p port value
  | .inb port => InbHeard p port
  | .hwInterrupt _ _ _ | .delay _ _ _ => True
  | .clearInt a line | .cancel a line =>
    a = .master → (p.adapter .slave).cpuInt = true → (line : ℕ) ≠ (p.adapter .slave).ssr.toNat
  | .release a line => a = .slave → Unsent (p.undelay .slave line)
  | .undelay a line => Quiet (p.undelay a line) a
  | .acknowledge | .intack => IntackHeard p

theorem step_heeded (h : Heeded p) {op : Op} (hop : op.Heard p) : Yields (step p op) Heeded := by
  cases op with
  | outb port value => exact h.outb hop
  | inb port => exact (h.inb hop).bind fun r hr => .ok hr
  | hwInterrupt a line calls => exact h.hwInterrupt line calls
  | clearInt a line => exact h.clearInt hop
  | cancel a line => exact h.hwInterruptCancel hop
  | delay a line calls => exact h.delay line calls
  | release a line => exact h.release hop
  | undelay a line => exact .ok (h.undelay hop)
  | acknowledge =>
    refine .ite (fun _ => ?_) fun _ => .ok h
    refine (intack_heard h.relayed hop).bind fun r hr => .ok ⟨?_, ?_, hr.lock.trans h.unlocked⟩
    · exact offered_of_low (p := { r.2 with hwInt := false }) hr.cpuInt hr.scan
    · exact ⟨hr.relayed.int, hr.relayed.request⟩
  | intack =>
    refine (intack_heard h.relayed hop).bind fun r hr => .ok ?_
    exact ⟨offered_of_low hr.cpuInt hr.scan, hr.relayed, hr.lock.trans h.unlocked⟩

theorem heeded_init : Heeded .init :=
  ⟨offered_of_low rfl rfl, relayed_of_low rfl rfl, rfl⟩

/-- **No deliverable request is left unheard** in a run whose operations are in range and heard: after it,
a request a scan of the master finds has INT and the CPU's line up, and one a scan of the slave finds
has the slave's INT up and its line requested or in service on the master. -/
theorem deliverable_heard (ops : List Op)
    (h : Meets step (fun p op => op.InRange p ∧ op.Heard p) .init ops) :
    ∃ q, run .init ops = .ok q ∧
      ((q.scanIrr .master).isSome = true → (q.adapter .master).cpuInt = true ∧ q.hwInt = true) ∧
      ((q.scanIrr .slave).isSome = true → (q.adapter .slave).cpuInt = true ∧ Cascaded q) := by
  have hstep : ∀ p op, (Exact p ∧ Heeded p) → (op.InRange p ∧ op.Heard p) →
      Ends (step p op) fun q => Exact q ∧ Heeded q :=
    fun p op hp hop => (step_exact p op hp.1 hop.1).and_yields (step_heeded hp.2 hop.2)
  obtain ⟨q, hq, -, hheeded⟩ := ends_foldlM hstep ⟨exact_init, heeded_init⟩ h
  refine ⟨q, hq, fun hscan => ?_, fun hscan => ?_⟩
  · have hint := hheeded.offered.int hscan
    exact ⟨hint, hheeded.offered.line hint⟩
  · have hint := hheeded.relayed.int hscan
    exact ⟨hint, hheeded.relayed.request hint⟩

/-- In automatic EOI mode the second of two requests is offered while the first is acknowledged, and the
CPU loop then drops its line. -/
theorem burst_unheard :
    ∃ q, run .init [.outb 0x20 0x11, .outb 0x21 0x08, .outb 0x21 0x04, .outb 0x21 0x03,
        .hwInterrupt .master 0 1, .hwInterrupt .master 1 1, .acknowledge] = .ok q ∧
      (q.scanIrr .master).isSome = true ∧ q.hwInt = false := ⟨_, rfl, rfl, rfl⟩

/-- A slave's request, relayed and acknowledged. -/
theorem slave_request_heard :
    ∃ q, run .init [.hwInterrupt .slave 1 1, .acknowledge] = .ok q ∧
      ((q.scanIrr .master).isSome = true → (q.adapter .master).cpuInt = true ∧ q.hwInt = true) ∧
      ((q.scanIrr .slave).isSome = true → (q.adapter .slave).cpuInt = true ∧ Cascaded q) := by
  refine deliverable_heard _
    ⟨⟨⟨nofun, fun _ line => ?_, ?_⟩, trivial⟩, fun q hq => ⟨⟨⟨nofun, ?_, trivial⟩, ?_⟩, ?_⟩⟩
  · revert line
    decide
  · rw [Op.fits]
    decide
  · obtain rfl := Except.ok.inj hq
    intro _ line
    revert line
    decide
  · have hssr : (q.adapter .master).ssr = 0#8 := by obtain rfl := Except.ok.inj hq; rfl
    have hmode : (q.adapter .master).mode = 0#16 := by obtain rfl := Except.ok.inj hq; rfl
    intro line _
    rw [hssr, on_zero, if_neg Bool.false_ne_true]
    refine ⟨.inl ⟨?_, ?_⟩, fun hauto => absurd ?_ hauto⟩ <;> rw [hmode] <;> rfl
  · exact fun _ _ => trivial

end SoftPC.Ica
