import Mathlib.Tactic.SplitIfs
import Mathlib.Algebra.GroupWithZero.Nat
import SoftPC.Machinery.Outcome
import SoftPC.System.Timer

/-!
# System/TimerBacklog — interrupts of the 8253 that wait their turn

    issueIREQ0(n) ──▸ first interrupt          the rest ──▸ timer_multiple_ints ──▸ one more
                └──▸ more_timer_mult ──────────────────────▴        └── event again ──▴

Several interrupts asked for at once are spread over a tick by one quick event, which takes up what is
asked for in the meantime and files itself again until nothing is left.  Nothing is lost but what the cap
throws away (`Backlog.backlog_conserved`), as long as no addition is so large that the event is filed
with no delay: the queue calls such an event at once, inside the one that files it.
-/

namespace SoftPC.Timer

/-- `add_q_event_t(timer_multiple_ints, delay, numInts)`, among the calls made, the last one first. -/
def added (calls : List Call) : List (BitVec 32 × BitVec 32) :=
  calls.reverse.filterMap fun
    | .addMultipleInts delay numInts => some (delay, numInts)
    | _ => none

/-- How many interrupts a call asks for. -/
def Call.asked : Call → ℕ
  | .issueIREQ0 n => n.toNat
  | _ => 0

/-- The backlog: the globals, the count of counter 0, and the events that were filed. -/
structure Backlog where
  globals : Globals := {}
  initialCount : BitVec 32
  /-- The events of `timer_multiple_ints` on the queue, each with its delay and its parameter. -/
  queue : List (BitVec 32 × BitVec 32) := []
  /-- The parameters of those that the queue calls at once, inside the call that filed them. -/
  atOnce : List (BitVec 32) := []
  /-- All calls made so far, the last one first. -/
  log : List Call := []
  /-- How many interrupts the cap has thrown away. -/
  discarded : ℕ := 0

namespace Backlog

/-- What happens to the backlog. -/
inductive Op
  /-- `issueIREQ0(n)`. -/
  | issue (n : BitVec 32)
  /-- The first event on the queue expires. -/
  | expire
  /-- The call at once of an event filed with no delay. -/
  | nested
  deriving DecidableEq

/-- Why the model stops. -/
inductive Stop
  | fault (e : Fault)
  /-- No event to expire or to call; or one to call at once, before anything else. -/
  | outOfTurn
  deriving DecidableEq

variable (b : Backlog)

/-- The backlog once a function has left these globals, with the calls it made. -/
def after (g : Globals) : Backlog :=
  { b with
    globals := { g with calls := [] }
    log := g.calls ++ b.log
    queue := b.queue ++ (added g.calls).filter fun e => e.1 ≠ 0
    atOnce := ((added g.calls).filter fun e => e.1 = 0).map Prod.snd ++ b.atOnce }

/-- A function of the globals. -/
def run (f : Globals → Except Fault Globals) : Except Stop Backlog :=
  match f { b.globals with calls := [] } with
  | .ok g => .ok (b.after g)
  | .error e => .error (.fault e)

/-- What `timer_multiple_ints` has to do after its first interrupt, before the cap. -/
def due (numInts : BitVec 32) : BitVec 32 := numInts - 1 + b.globals.moreTimerMult

/-- `timer_multiple_ints`. -/
def call (numInts : BitVec 32) : Except Stop Backlog :=
  { b with discarded := b.discarded + ((b.due numInts).toNat - b.globals.maxBacklog.toNat) }.run
    fun g => g.timerMultipleInts b.initialCount numInts

def step : Op → Except Stop Backlog
  | .issue n => if b.atOnce = [] then b.run fun g => g.issueIREQ0 n else .error .outOfTurn
  | .expire =>
    match b.atOnce, b.queue with
    | [], (_, numInts) :: queue => { b with queue }.call numInts
    | _, _ => .error .outOfTurn
  | .nested =>
    match b.atOnce with
    | numInts :: atOnce => { b with atOnce }.call numInts
    | [] => .error .outOfTurn

/-! ## The accounts -/

/-- Interrupts asked for, and generated. -/
def issued : ℕ := (b.log.map Call.asked).sum

def generated : ℕ := b.log.count .hwInterrupt

/-- Interrupts still to come: the events' parameters, and what they will take up. -/
def scheduled : ℕ := (b.queue.map fun e => e.2.toNat).sum + b.globals.moreTimerMult.toNat

/-- Timer interrupts are enabled, none is blocked and none held back for being too soon. -/
structure Enabled (g : Globals) : Prop where
  timerIntEnabled : g.timerIntEnabled = true
  ticksBlocked : g.ticksBlocked = 0
  hackActive : g.hackActive = false

/-- No event is filed. -/
structure Idle (b : Backlog) : Prop where
  active : b.globals.activeIntEvent = false
  queue : b.queue = []
  more : b.globals.moreTimerMult = 0

/-- One event is, with a delay, and its account fits the counters of the code. -/
structure Draining (b : Backlog) : Prop where
  active : b.globals.activeIntEvent = true
  queue : ∃ delay numInts, b.queue = [(delay, numInts)] ∧ delay ≠ 0 ∧ numInts ≠ 0
  delay : b.globals.timerMultipleDelay ≠ 0
  fits : b.scheduled ≤ 2 ^ 32

/-- **The invariant**: nothing is called at once, and the books balance. -/
structure Balanced (b : Backlog) : Prop where
  enabled : Enabled b.globals
  count : b.initialCount ≠ 0
  atOnce : b.atOnce = []
  phase : b.Idle ∨ b.Draining
  books : b.generated + b.scheduled + b.discarded = b.issued

/-- At least one interrupt is asked for; and while an event is on the queue, fewer than a tick has
microseconds, and not so many that the account overflows. -/
def Fits (b : Backlog) : Op → Prop
  | .issue n => n ≠ 0 ∧ (b.globals.activeIntEvent → n < systemTickIntv ∧ b.scheduled + n.toNat ≤ 2 ^ 32)
  | .expire | .nested => True

instance (op : Op) : Decidable (b.Fits op) :=
  match op with
  | .issue _ => inferInstanceAs (Decidable (_ ∧ _))
  | .expire | .nested => .isTrue trivial

variable {b}

/-! ## What a function leaves -/

theorem run_ok {f : Globals → Except Fault Globals} {g : Globals}
    (h : f { b.globals with calls := [] } = .ok g) : b.run f = .ok (b.after g) := by
  unfold run
  rw [h]

/-- What stays as it is: interrupts are enabled. -/
theorem Enabled.congr {g g' : Globals} (h : Enabled g) (hint : g'.timerIntEnabled = g.timerIntEnabled)
    (hblocked : g'.ticksBlocked = g.ticksBlocked) (hhack : g'.hackActive = g.hackActive) : Enabled g' :=
  ⟨hint.trans h.timerIntEnabled, hblocked.trans h.ticksBlocked, hhack.trans h.hackActive⟩

/-- An interrupt, when none is held back. -/
theorem Enabled.timerGenerateInt {g : Globals} (h : Enabled g) :
    g.timerGenerateInt = g.call .hwInterrupt := by
  unfold Globals.timerGenerateInt
  rw [h.hackActive]
  rfl

theorem Enabled.issueIREQ0 {g : Globals} (h : Enabled g) (n : BitVec 32) :
    g.issueIREQ0 n =
      if g.activeIntEvent then (g.call (.issueIREQ0 n)).addToWorkload n
      else if n = 1 then
        .ok ({ g.call (.issueIREQ0 n) with timerMultipleDelay := systemTickIntv >>> 1 }.call .hwInterrupt)
      else (g.call (.issueIREQ0 n)).spreadOverTick n := by
  have hone : Enabled { g.call (.issueIREQ0 n) with timerMultipleDelay := systemTickIntv >>> 1 } :=
    h.congr rfl rfl rfl
  unfold Globals.issueIREQ0
  dsimp only
  rw [hone.timerGenerateInt, if_pos (show (g.call _).ticksBlocked = 0 from h.ticksBlocked),
    if_pos (show (g.call _).timerIntEnabled = true from h.timerIntEnabled)]
  rfl

theorem quotient_ok {a d : BitVec 32} (h : d ≠ 0) (e : Fault) : quotient a d e = .ok (a / d) := if_neg h

/-- A tick spread over the interrupts that come on top leaves each of them time. -/
theorem intDelay_ne_zero {n : BitVec 32} (h : n < systemTickIntv) :
    n + 1 ≠ 0 ∧ ((systemTickIntv / (n + 1)).setWidth 16).setWidth 32 ≠ (0 : BitVec 32) := by
  have hn : n.toNat < 54925 := BitVec.lt_def.mp h
  have hone : (1 : BitVec 32).toNat = 1 := rfl
  have hadd : (n + 1).toNat = n.toNat + 1 := by
    rw [BitVec.toNat_add, hone]
    exact Nat.mod_eq_of_lt (by omega)
  have hdiv : (systemTickIntv / (n + 1)).toNat = 54925 / (n.toNat + 1) := by
    rw [BitVec.toNat_udiv, hadd]
    rfl
  have hpos : 0 < 54925 / (n.toNat + 1) := Nat.div_pos (by omega) (Nat.succ_pos _)
  have hle : 54925 / (n.toNat + 1) ≤ 54925 := Nat.div_le_self _ _
  refine ⟨fun hz => ?_, fun hz => ?_⟩
  · rw [hz] at hadd
    cases hadd
  · have hzero := congrArg BitVec.toNat hz
    rw [BitVec.toNat_setWidth, BitVec.toNat_setWidth, hdiv, Nat.mod_eq_of_lt (by omega),
      Nat.mod_eq_of_lt (by omega)] at hzero
    exact absurd hzero (Nat.ne_of_gt hpos)

@[simp] theorem issued_after (g : Globals) : (b.after g).issued = (g.calls.map Call.asked).sum + b.issued := by
  simp [issued, after]

@[simp] theorem generated_after (g : Globals) :
    (b.after g).generated = g.calls.count .hwInterrupt + b.generated := by
  simp [generated, after, List.count_append]

/-- Events filed with a delay are on the queue, and none is called at once. -/
theorem after_delayed {g : Globals} (h : ∀ e ∈ added g.calls, e.1 ≠ 0) :
    (b.after g).queue = b.queue ++ added g.calls ∧ (b.after g).atOnce = b.atOnce := by
  have hqueue : (added g.calls).filter (fun e => e.1 ≠ 0) = added g.calls :=
    List.filter_eq_self.mpr fun e he => decide_eq_true (h e he)
  have hatOnce : (added g.calls).filter (fun e => e.1 = 0) = [] :=
    List.filter_eq_nil_iff.mpr fun e he => by simpa using h e he
  exact ⟨congrArg (b.queue ++ ·) hqueue, by rw [after, hatOnce]; rfl⟩

/-- One less, while there is one. -/
theorem toNat_pred {n : BitVec 32} (h : n ≠ 0) : (n - 1).toNat + 1 = n.toNat := by
  have hpos : n.toNat ≠ 0 := fun hz => h (BitVec.eq_of_toNat_eq hz)
  have hone : (1 : BitVec 32).toNat = 1 := rfl
  rw [BitVec.toNat_sub, hone]
  omega

theorem scheduled_nil (h : b.queue = []) : b.scheduled = b.globals.moreTimerMult.toNat := by
  rw [scheduled, h]
  exact Nat.zero_add _

theorem scheduled_one {delay numInts : BitVec 32} (h : b.queue = [(delay, numInts)]) :
    b.scheduled = numInts.toNat + b.globals.moreTimerMult.toNat := by
  rw [scheduled, h]
  rfl

theorem Idle.scheduled (h : b.Idle) : b.scheduled = 0 := by
  rw [scheduled_nil h.queue, h.more]
  rfl

/-- No event is filed, and none is left. -/
theorem balanced_idle {g : Globals} (henabled : Enabled g) (hcount : b.initialCount ≠ 0)
    (hatOnce : b.atOnce = []) (hqueue : b.queue = []) (hadded : added g.calls = [])
    (hactive : g.activeIntEvent = false) (hmore : g.moreTimerMult = 0)
    (hbooks : g.calls.count .hwInterrupt + b.generated + b.discarded
      = (g.calls.map Call.asked).sum + b.issued) : (b.after g).Balanced := by
  obtain ⟨hq, hnow⟩ := b.after_delayed (g := g) (by rw [hadded]; nofun)
  have hidle : (b.after g).Idle := ⟨hactive, by rw [hq, hqueue, hadded]; rfl, hmore⟩
  refine ⟨henabled.congr rfl rfl rfl, hcount, hnow.trans hatOnce, .inl hidle, ?_⟩
  rw [generated_after, issued_after, hidle.scheduled]
  exact hbooks

/-- One event is filed, and it is the only one. -/
theorem balanced_draining {g : Globals} {numInts : BitVec 32} (henabled : Enabled g)
    (hcount : b.initialCount ≠ 0) (hatOnce : b.atOnce = []) (hqueue : b.queue = [])
    (hadded : added g.calls = [(g.timerMultipleDelay, numInts)]) (hactive : g.activeIntEvent = true)
    (hdelay : g.timerMultipleDelay ≠ 0) (hnum : numInts ≠ 0)
    (hfits : numInts.toNat + g.moreTimerMult.toNat ≤ 2 ^ 32)
    (hbooks : g.calls.count .hwInterrupt + b.generated + (numInts.toNat + g.moreTimerMult.toNat) + b.discarded
      = (g.calls.map Call.asked).sum + b.issued) : (b.after g).Balanced := by
  obtain ⟨hq, hnow⟩ := b.after_delayed (g := g) fun e he => by
    rw [hadded] at he
    exact List.mem_singleton.mp he ▸ hdelay
  rw [hqueue, hadded] at hq
  have hscheduled : (b.after g).scheduled = numInts.toNat + g.moreTimerMult.toNat := scheduled_one hq
  refine ⟨henabled.congr rfl rfl rfl, hcount, hnow.trans hatOnce,
    .inr ⟨hactive, ⟨_, _, hq, hdelay, hnum⟩, hdelay, hscheduled ▸ hfits⟩, ?_⟩
  rw [generated_after, issued_after, hscheduled]
  exact hbooks

/-! ## Steps -/

/-- **One interrupt**, nothing being scheduled, is generated at once. -/
theorem issue_one (h : b.Balanced) (hidle : b.Idle) : Ends (b.step (.issue 1)) Balanced := by
  have henabled : Enabled { b.globals with calls := [] } := h.enabled.congr rfl rfl rfl
  have hrun : { b.globals with calls := [] }.issueIREQ0 1 = .ok { b.globals with
      timerMultipleDelay := systemTickIntv >>> 1, calls := [.hwInterrupt, .issueIREQ0 1] } := by
    rw [henabled.issueIREQ0, if_neg (by simp [hidle.active]), if_pos rfl]
    rfl
  have hbooks := h.books
  rw [hidle.scheduled] at hbooks
  refine ⟨_, (if_pos h.atOnce).trans (run_ok hrun), balanced_idle (h.enabled.congr rfl rfl rfl) h.count
    h.atOnce hidle.queue rfl hidle.active hidle.more ?_⟩
  change 1 + b.generated + b.discarded = 1 + b.issued
  omega

/-- **Several**: one is generated at once, the rest is filed with a delay. -/
theorem issue_many (h : b.Balanced) (hidle : b.Idle) {n : BitVec 32} (h0 : n ≠ 0) (h1 : n ≠ 1) :
    Ends (b.step (.issue n)) Balanced := by
  have henabled : Enabled { b.globals with calls := [] } := h.enabled.congr rfl rfl rfl
  obtain ⟨delay, hdelay, hquotient⟩ : ∃ delay : BitVec 32, delay ≠ 0 ∧
      (if systemTickIntv / n = 0 then 1 else systemTickIntv / n) = delay := by
    refine ⟨_, ?_, rfl⟩
    split_ifs with hz
    · decide
    · exact hz
  have hrun : { b.globals with calls := [] }.issueIREQ0 n = .ok { b.globals with
      timerMultipleDelay := delay, activeIntEvent := true,
      calls := [.addMultipleInts delay (n - 1), .hwInterrupt, .issueIREQ0 n] } := by
    have hcalled : Enabled ({ b.globals with calls := [] }.call (.issueIREQ0 n)) := henabled.congr rfl rfl rfl
    rw [henabled.issueIREQ0, if_neg (by simp [hidle.active]), if_neg h1]
    unfold Globals.spreadOverTick
    rw [quotient_ok h0, hcalled.timerGenerateInt, ← hquotient]
    rfl
  have hpred := toNat_pred h0
  have hmore : b.globals.moreTimerMult.toNat = 0 := congrArg BitVec.toNat hidle.more
  have hbooks := h.books
  rw [hidle.scheduled] at hbooks
  refine ⟨_, (if_pos h.atOnce).trans (run_ok hrun), balanced_draining (h.enabled.congr rfl rfl rfl) h.count
    h.atOnce hidle.queue rfl rfl hdelay ?_ ?_ ?_⟩
  · exact fun hz => h1 (BitVec.eq_of_toNat_eq (hpred.symm.trans (by rw [hz]; rfl)))
  · change (n - 1).toNat + b.globals.moreTimerMult.toNat ≤ 2 ^ 32
    omega
  · change 1 + b.generated + ((n - 1).toNat + b.globals.moreTimerMult.toNat) + b.discarded
      = 0 + (0 + (n.toNat + 0)) + b.issued
    omega

/-- **While an event is on the queue**, what is asked for is added to its work. -/
theorem issue_more (h : b.Balanced) (hdraining : b.Draining) {n : BitVec 32} (hn : n < systemTickIntv)
    (hfits : b.scheduled + n.toNat ≤ 2 ^ 32) : Ends (b.step (.issue n)) Balanced := by
  have henabled : Enabled { b.globals with calls := [] } := h.enabled.congr rfl rfl rfl
  obtain ⟨hnext, hint⟩ := intDelay_ne_zero hn
  obtain ⟨delay, hdelay, hmin⟩ : ∃ delay : BitVec 32, delay ≠ 0 ∧
      (if ((systemTickIntv / (n + 1)).setWidth 16).setWidth 32 < b.globals.timerMultipleDelay then
        ((systemTickIntv / (n + 1)).setWidth 16).setWidth 32 else b.globals.timerMultipleDelay) = delay := by
    refine ⟨_, ?_, rfl⟩
    split_ifs
    · exact hint
    · exact hdraining.delay
  have hrun : { b.globals with calls := [] }.issueIREQ0 n = .ok { b.globals with
      timerMultipleDelay := delay, moreTimerMult := b.globals.moreTimerMult + n,
      calls := [.issueIREQ0 n] } := by
    rw [henabled.issueIREQ0, if_pos hdraining.active]
    unfold Globals.addToWorkload
    rw [quotient_ok hnext, ← hmin]
    rfl
  obtain ⟨filed, numInts, hqueue, hfiled, hnum⟩ := hdraining.queue
  have hscheduled := scheduled_one hqueue
  have hadd : (b.globals.moreTimerMult + n).toNat = b.globals.moreTimerMult.toNat + n.toNat := by
    have hpos := toNat_pred hnum
    rw [BitVec.toNat_add]
    exact Nat.mod_eq_of_lt (by omega)
  have hbooks := h.books
  refine ⟨_, (if_pos h.atOnce).trans (run_ok hrun), ?_⟩
  obtain ⟨hq, hnow⟩ := b.after_delayed (g := { b.globals with
    timerMultipleDelay := delay, moreTimerMult := b.globals.moreTimerMult + n, calls := [.issueIREQ0 n] }) nofun
  have hq' : _ = [(filed, numInts)] := hq.trans (by rw [hqueue]; rfl)
  have hscheduled' := (scheduled_one hq').trans (congrArg (numInts.toNat + ·) hadd)
  refine ⟨h.enabled.congr rfl rfl rfl, h.count, hnow.trans h.atOnce,
    .inr ⟨hdraining.active, ⟨_, _, hq', hfiled, hnum⟩, hdelay, ?_⟩, ?_⟩
  · omega
  · rw [generated_after, issued_after, hscheduled']
    change 0 + b.generated + (numInts.toNat + (b.globals.moreTimerMult.toNat + n.toNat)) + b.discarded
      = n.toNat + 0 + b.issued
    omega

/-- The interrupts left after the cap. -/
def capped (b : Backlog) (numInts : BitVec 32) : BitVec 32 :=
  if b.globals.maxBacklog < b.due numInts then b.globals.maxBacklog else b.due numInts

/-- What the cap leaves and what it throws away is what was due. -/
theorem capped_add (b : Backlog) (numInts : BitVec 32) :
    (b.capped numInts).toNat + ((b.due numInts).toNat - b.globals.maxBacklog.toNat) = (b.due numInts).toNat := by
  unfold capped
  split_ifs with hlt
  · have := BitVec.lt_def.mp hlt
    omega
  · have := Nat.not_lt.mp fun h => hlt (BitVec.lt_def.mpr h)
    omega

/-- **An expiry** generates one interrupt and files the event again for the others, if there are any. -/
theorem expire_one (h : b.Balanced) (hdraining : b.Draining) : Ends (b.step .expire) Balanced := by
  obtain ⟨filed, numInts, hqueue, -, hnum⟩ := hdraining.queue
  have hfits := hdraining.fits
  have hbooks := h.books
  rw [scheduled_one hqueue] at hfits hbooks
  have hpred := toNat_pred hnum
  have hdue : (b.due numInts).toNat + 1 = numInts.toNat + b.globals.moreTimerMult.toNat := by
    have hsum : (b.due numInts).toNat = (numInts - 1).toNat + b.globals.moreTimerMult.toNat := by
      unfold due
      rw [BitVec.toNat_add]
      exact Nat.mod_eq_of_lt (by omega)
    omega
  have hcapped := b.capped_add numInts
  have henabled : Enabled { b.globals with calls := [] } := h.enabled.congr rfl rfl rfl
  have hstep : b.step .expire = { b with queue := [] }.call numInts := by
    unfold step
    rw [h.atOnce, hqueue]
  have hmulti : { b.globals with calls := [] }.timerMultipleInts b.initialCount numInts =
      if b.capped numInts = 0 then
        .ok { b.globals with
          moreTimerMult := 0, activeIntEvent := false
          maxBacklog := clocksOfBacklog / b.initialCount, calls := [.hwInterrupt] }
      else
        .ok { b.globals with
          moreTimerMult := 0
          calls := [.addMultipleInts b.globals.timerMultipleDelay (b.capped numInts), .hwInterrupt] } := by
    unfold Globals.timerMultipleInts
    rw [henabled.timerGenerateInt, quotient_ok h.count]
    rfl
  rw [hstep]
  by_cases hzero : b.capped numInts = 0
  · rw [if_pos hzero] at hmulti
    have hleft : (b.capped numInts).toNat = 0 := congrArg BitVec.toNat hzero
    refine ⟨_, run_ok hmulti, balanced_idle (h.enabled.congr rfl rfl rfl) h.count h.atOnce rfl rfl rfl rfl ?_⟩
    change 1 + b.generated + (b.discarded + ((b.due numInts).toNat - b.globals.maxBacklog.toNat)) = 0 + b.issued
    omega
  · rw [if_neg hzero] at hmulti
    refine ⟨_, run_ok hmulti, balanced_draining (h.enabled.congr rfl rfl rfl) h.count h.atOnce rfl rfl
      hdraining.active hdraining.delay hzero ?_ ?_⟩
    · change (b.capped numInts).toNat + 0 ≤ 2 ^ 32
      omega
    · change 1 + b.generated + ((b.capped numInts).toNat + 0)
        + (b.discarded + ((b.due numInts).toNat - b.globals.maxBacklog.toNat)) = 0 + b.issued
      omega

/-- Every step keeps the books. -/
theorem step_balanced (h : b.Balanced) {op : Op} (hfits : b.Fits op) :
    EndsUnless (· = .outOfTurn) (b.step op) Balanced := by
  cases op with
  | issue n =>
    obtain hidle | hdraining := h.phase
    · by_cases h1 : n = 1
      · exact h1 ▸ (issue_one h hidle).unless
      · exact (issue_many h hidle hfits.1 h1).unless
    · obtain ⟨hn, hsum⟩ := hfits.2 hdraining.active
      exact (issue_more h hdraining hn hsum).unless
  | expire =>
    obtain hidle | hdraining := h.phase
    · unfold step
      rw [h.atOnce, hidle.queue]
      exact .error rfl
    · exact (expire_one h hdraining).unless
  | nested =>
    unfold step
    rw [h.atOnce]
    exact .error rfl

/-! ## Runs -/

/-- A backlog with nothing in it, timer interrupts being enabled. -/
structure Fresh (b : Backlog) : Prop where
  enabled : Enabled b.globals
  count : b.initialCount ≠ 0
  idle : b.Idle
  atOnce : b.atOnce = []
  log : b.log = []
  discarded : b.discarded = 0

theorem Fresh.balanced (h : b.Fresh) : b.Balanced := by
  refine ⟨h.enabled, h.count, h.atOnce, .inl h.idle, ?_⟩
  rw [h.idle.scheduled, h.discarded, generated, issued, h.log]
  rfl

/-- What a backlog that is conserved and drained one by one looks like. -/
structure Conserved (b : Backlog) : Prop where
  books : b.generated + b.scheduled + b.discarded = b.issued
  atMostOne : b.queue.length ≤ 1
  filed : b.queue ≠ [] ↔ b.globals.activeIntEvent = true
  delayed : ∀ e ∈ b.queue, e.1 ≠ 0
  notNested : b.atOnce = []

theorem Balanced.conserved (h : b.Balanced) : b.Conserved := by
  obtain hidle | ⟨hactive, ⟨delay, numInts, hqueue, hdelay, -⟩, -, -⟩ := h.phase
  · have hq := hidle.queue
    have ha := hidle.active
    exact ⟨h.books, by simp [hq], by simp [hq, ha], by simp [hq], h.atOnce⟩
  · refine ⟨h.books, by simp [hqueue], by simp [hqueue, hactive], fun e he => ?_, h.atOnce⟩
    rw [hqueue] at he
    exact List.mem_singleton.mp he ▸ hdelay

/-- **The backlog is conserved** along every run from a fresh one whose additions fit: it faults nowhere,
the books balance, and its one event is never called inside another. -/
theorem backlog_conserved (h : b.Fresh) {ops : List Op} (hfits : Meets step Fits b ops) :
    EndsUnless (· = .outOfTurn) (ops.foldlM step b) Conserved :=
  (hfits.endsUnless_foldlM (fun _ _ hb hop => step_balanced hb hop) h.balanced).mono
    fun _ => Balanced.conserved

/-- The globals once timer 0 runs in mode 3, its interrupt enabled. -/
def running : Backlog := { globals := { timerIntEnabled := true, maxBacklog := 50 }, initialCount := 0xffff }

/-- Three interrupts, two more while the first batch drains, and three expiries. -/
theorem backlog_conserved_top_up :
    EndsUnless (· = .outOfTurn) ([.issue 3, .issue 2, .expire, .expire].foldlM step running) Conserved :=
  backlog_conserved ⟨⟨rfl, rfl, rfl⟩, by decide, ⟨rfl, rfl, rfl⟩, rfl, rfl, rfl⟩ (by decide)

/-- A tick's worth of interrupts added to a batch leaves the event no delay: it is called inside the one
that files it. -/
theorem top_up_nests :
    ∃ b, [.issue 2, .issue 54925, .expire].foldlM step running = .ok b ∧ ¬b.Conserved :=
  ⟨_, rfl, fun h => List.cons_ne_nil _ _ h.notNested⟩

end Backlog

end SoftPC.Timer
