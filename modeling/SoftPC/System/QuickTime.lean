import SoftPC.System.TickEvents

/-!
# System/QuickTime — a quick event keeps its time when others come and go

The list holds microseconds and the CPU counts jumps, ten microseconds each.  `remaining` is what every
event still waits, the head's read off the counter; an add or a delete should insert into it or erase
from it, up to one jump, and leave the counter at the head's jumps.

It does (`quick_undisturbed`) unless a step takes one of three paths of the code: a delete of the head
before another event converts the counter the wrong way round (`delete_delays`); an add finds the head's
wait above its `original_time`, which a delete of its predecessor can bring about, and counts one jump;
or the times of the list leave the word.
-/

namespace SoftPC.QuickEv

variable {φ : Type*}

namespace Queue

variable {q q' : Queue φ} {e : Event φ} {es : List (Event φ)} {r : Request φ}

/-- The nodes with the microseconds they still wait. -/
def remaining (q : Queue φ) : List (Ticket φ × ℕ) :=
  (coding φ).times 0 ((coding φ).rebase (timeForInst q.count) q.events)

/-- The same event, its time within one jump. -/
def Near (x y : Ticket φ × ℕ) : Prop := x.1 = y.1 ∧ x.2 ≤ y.2 + 10 ∧ y.2 ≤ x.2 + 10

/-- While events wait the counter runs, and its microseconds fit a word. -/
structure Steady (q : Queue φ) : Prop where
  fits : (coding φ).last 0 q.events < 2 ^ 32
  counting : q.events ≠ [] → 1 ≤ q.count.toNat ∧ q.count.toNat ≤ 429496729

/-- Setting up the counter again would not change it. -/
def Settled (q : Queue φ) : Prop := ∀ e es, q.events = e :: es → triggerCount .quick e = q.count

theorem Settled.setUp_eq_self (h : q.Settled) : q.setUp .quick = q := by
  rcases q with ⟨_ | ⟨e, es⟩, _, _, _, _, _⟩
  · rfl
  · simp [setUp, h e es rfl]

/-- The times of the list, as an add will sum them, fit a word. -/
def Room (q : Queue φ) : Prop :=
  (coding φ).last 0 ((coding φ).rebase (timeForInst q.count) q.events) < 2 ^ 32

/-- An add leaves at the head an event that waits longer than its `original_time` says. -/
def Overrun (q : Queue φ) (r : Request φ) : Prop :=
  ∃ e es, q.events = e :: es ∧ e.originalTime < timeForInst q.count ∧ q.count ≠ 1 ∧
    ¬(q.Issues r ∧ r.time < timeForInst q.count)

/-- The handle is the head's, and another event waits behind it. -/
def Heads (q : Queue φ) (handle : ℤ) : Prop :=
  ∃ e n es, q.events = e :: n :: es ∧ e.handle = handle

instance (q : Queue φ) : Decidable q.Room :=
  inferInstanceAs (Decidable (_ < 2 ^ 32))

instance (q : Queue φ) (r : Request φ) : Decidable (q.Overrun r) :=
  match h : q.events with
  | e :: _ =>
    decidable_of_iff (e.originalTime < timeForInst q.count ∧ q.count ≠ 1 ∧
      ¬(q.Issues r ∧ r.time < timeForInst q.count)) <| by simp [Overrun, h]
  | [] => isFalse <| by simp [Overrun, h]

instance (q : Queue φ) (handle : ℤ) : Decidable (q.Heads handle) :=
  match h : q.events with
  | e :: _ :: _ => decidable_of_iff (e.handle = handle) <| by simp [Heads, h]
  | [_] => isFalse <| by simp [Heads, h]
  | [] => isFalse <| by simp [Heads, h]

theorem toNat_timeForInst {c : BitVec 32} (hc : c.toNat ≤ 429496729) :
    (timeForInst c).toNat = 10 * c.toNat := by
  rw [timeForInst, BitVec.toNat_mul]
  change c.toNat * 10 % 4294967296 = _
  omega

theorem toNat_actionable (c : BitVec 32) : (actionable c).toNat = max 1 c.toNat := by
  unfold actionable
  split
  next h => rw [h]; rfl
  next h =>
    have : c.toNat ≠ 0 := fun hz => h (BitVec.eq_of_toNat_eq (y := 0) hz)
    omega

theorem toNat_jumps (d : BitVec 32) : (actionable (instForTime d)).toNat = max 1 (d.toNat / 10) := by
  rw [toNat_actionable, instForTime, BitVec.toNat_udiv]
  rfl

/-- The counter an add sets, in jumps. -/
theorem toNat_triggerCount (h : e.originalTime < e.timeFromLast → e.timeFromLast = 10) :
    (triggerCount .quick e).toNat = max 1 (e.timeFromLast.toNat / 10) := by
  rw [triggerCount]
  split
  next hlt => rw [h hlt]; rfl
  next => exact toNat_jumps _

theorem remaining_cons (he : q.events = e :: es) (hc : q.count.toNat ≤ 429496729) :
    q.remaining = (e.toTicket, 10 * q.count.toNat) :: (coding φ).times (10 * q.count.toNat) es := by
  simp only [remaining, he, DeltaCode.rebase, DeltaCode.times, coding_wait,
    coding_setWait_timeFromLast, toNat_timeForInst hc, Nat.zero_add]
  rfl

theorem near_refl (l : List (Ticket φ × ℕ)) : List.Forall₂ Near l l :=
  List.forall₂_same.2 fun _ _ => ⟨rfl, Nat.le_add_right _ _, Nat.le_add_right _ _⟩

/-- **Setting up the counter moves the list by less than a jump**, where the head waits no longer than
its `original_time`. -/
theorem near_setUp (hhead : ∀ e es, q.events = e :: es →
      e.originalTime < e.timeFromLast → e.timeFromLast = 10) :
    List.Forall₂ Near ((coding φ).times 0 q.events) (q.setUp .quick).remaining ∧
      (∀ x xs, (coding φ).times 0 q.events = x :: xs →
        (q.setUp .quick).count.toNat = max 1 (x.2 / 10)) ∧
      ((q.setUp .quick).events ≠ [] →
        1 ≤ (q.setUp .quick).count.toNat ∧ (q.setUp .quick).count.toNat ≤ 429496729) ∧
      (q.setUp .quick).Settled := by
  cases he : q.events with
  | nil =>
    have hs : q.setUp .quick = q := setUp_nil he
    rw [hs]
    refine ⟨?_, nofun, fun h => absurd he h, ?_⟩
    · simp [remaining, he, DeltaCode.rebase, DeltaCode.times]
    · intro e es h
      rw [he] at h
      cases h
  | cons e es =>
    have hs : q.setUp .quick = { q with count := triggerCount .quick e } := setUp_cons he
    have hev : (q.setUp .quick).events = e :: es := by rw [hs]; exact he
    have hc := toNat_triggerCount (hhead e es he)
    have hb : 1 ≤ (q.setUp .quick).count.toNat ∧ (q.setUp .quick).count.toNat ≤ 429496729 := by
      have := e.timeFromLast.isLt
      rw [hs]
      dsimp only
      omega
    refine ⟨?_, ?_, fun _ => hb, ?_⟩
    · rw [remaining_cons hev hb.2, DeltaCode.times, hs]
      dsimp only
      rw [hc]
      have hle : 0 + e.timeFromLast.toNat ≤ 10 * max 1 (e.timeFromLast.toNat / 10) + 10 := by omega
      have hle' : 10 * max 1 (e.timeFromLast.toNat / 10) ≤ 0 + e.timeFromLast.toNat + 10 := by omega
      exact .cons ⟨rfl, hle, hle'⟩ (DeltaCode.times_near hle hle' es)
    · rintro x xs hx
      obtain ⟨rfl, -⟩ := List.cons.inj hx
      rw [hs]
      simpa using hc
    · intro e' es' he'
      rw [hev] at he'
      obtain ⟨rfl, -⟩ := List.cons.inj he'
      rw [hs]

/-- What should remain after an add. -/
def afterAdd (q : Queue φ) (r : Request φ) : List (Ticket φ × ℕ) :=
  if q.Issues r then q.remaining.orderedInsert (fun x y => x.2 < y.2) (q.ticket r, r.time.toNat)
  else q.remaining

/-- The list is as it should be, and the counter at its head's jumps. -/
def Follows (q : Queue φ) (should : List (Ticket φ × ℕ)) : Prop :=
  List.Forall₂ Near should q.remaining ∧
    ∀ x xs, should = x :: xs → q.count.toNat = max 1 (x.2 / 10)

/-- The head an add finds waits as long as the counter says. -/
theorem head_rebase (ho : ¬q.Overrun r) (hi : ¬(q.Issues r ∧ r.time < timeForInst q.count)) :
    ∀ e es, (q.rebase (timeForInst q.count)).events = e :: es →
      e.originalTime < e.timeFromLast → e.timeFromLast = 10 := by
  intro e es he hlt
  cases hev : q.events with
  | nil => simp [Queue.rebase, hev, DeltaCode.rebase] at he
  | cons e' es' =>
    simp only [Queue.rebase, hev, DeltaCode.rebase] at he
    obtain ⟨rfl, rfl⟩ := List.cons.inj he
    have h1 : q.count = 1 := by
      by_contra hne
      exact ho ⟨e', es', hev, hlt, hne, hi⟩
    rw [coding_setWait_timeFromLast, h1]
    rfl

namespace Steady

theorem follows_self (hq : q.Steady) : q.Follows q.remaining := by
  refine ⟨near_refl _, fun x xs hx => ?_⟩
  obtain ⟨e, es, he⟩ : ∃ e es, q.events = e :: es := by
    cases he : q.events with
    | nil => simp [remaining, he, DeltaCode.rebase, DeltaCode.times] at hx
    | cons e es => exact ⟨e, es, rfl⟩
  obtain ⟨h1, h2⟩ := hq.counting (by simp [he])
  rw [remaining_cons he h2] at hx
  obtain ⟨rfl, -⟩ := List.cons.inj hx
  dsimp only
  omega

theorem rebase (hq : q.Steady) (hr : q.Room) : (q.rebase (timeForInst q.count)).Steady where
  fits := hr
  counting h := hq.counting (by simpa [Queue.rebase] using h)

theorem remaining_rebase (q : Queue φ) :
    (q.rebase (timeForInst q.count)).remaining = q.remaining := by
  rcases q with ⟨_ | ⟨e, es⟩, _, _, _, _, _⟩ <;> rfl

theorem times_rebase (q : Queue φ) :
    (coding φ).times 0 (q.rebase (timeForInst q.count)).events = q.remaining := rfl

/-- A list whose counter was set up on the times it should have. -/
theorem of_setUp {should : List (Ticket φ × ℕ)} (hfit : (coding φ).last 0 q.events < 2 ^ 32)
    (hshould : (coding φ).times 0 q.events = should)
    (hhead : ∀ e es, q.events = e :: es → e.originalTime < e.timeFromLast → e.timeFromLast = 10) :
    (q.setUp .quick).Steady ∧ (q.setUp .quick).Settled ∧ (q.setUp .quick).Follows should := by
  obtain ⟨hnear, hcount, hcounting, hsettled⟩ := near_setUp hhead
  rw [hshould] at hnear hcount
  refine ⟨⟨?_, hcounting⟩, hsettled, hnear, hcount⟩
  obtain ⟨count, h⟩ := q.setUp_eq .quick
  rw [h]
  exact hfit

/-- An add without a node sets up the counter. -/
theorem noMemory (hr : q.Room) (ho : ¬q.Overrun r) (hi : ¬q.Issues r) :
    ((q.rebase (timeForInst q.count)).setUp .quick).Steady ∧
      ((q.rebase (timeForInst q.count)).setUp .quick).Settled ∧
      ((q.rebase (timeForInst q.count)).setUp .quick).Follows (q.afterAdd r) := by
  rw [afterAdd, if_neg hi]
  exact of_setUp hr (times_rebase q) (head_rebase ho fun h => hi h.1)

/-- **An add inserts the event at its time and moves the others by less than a jump.** -/
theorem enqueue (hr : q.Room) (ho : ¬q.Overrun r) (hi : q.Issues r) :
    (((q.rebase (timeForInst q.count)).enqueue r).setUp .quick).Steady ∧
      (((q.rebase (timeForInst q.count)).enqueue r).setUp .quick).Settled ∧
      (((q.rebase (timeForInst q.count)).enqueue r).setUp .quick).Follows (q.afterAdd r) := by
  have hkey : ∀ wait, (coding φ).key ⟨q.ticket r, wait, wait⟩ = q.ticket r := fun _ => rfl
  have hrun : (0 : BitVec 32) ≤ r.time := BitVec.le_def.2 (Nat.zero_le _)
  rw [afterAdd, if_pos hi]
  refine of_setUp ?_ ?_ ?_
  · exact DeltaCode.last_insert_lt (fun _ => rfl) hkey hrun hr
  · exact DeltaCode.times_insert (fun _ => rfl) hkey hrun hr
  · intro e es he hlt
    -- The head is the new event, which waits its `original_time`, or the one that was there.
    by_cases hnew : r.time < timeForInst q.count ∨ q.events = []
    · have hhead : e.timeFromLast = e.originalTime := by
        cases hev : q.events with
        | nil =>
          simp only [Queue.enqueue, Queue.rebase, hev, DeltaCode.rebase, DeltaCode.insert] at he
          obtain ⟨rfl, -⟩ := List.cons.inj he
          rfl
        | cons e' es' =>
          have htime : r.time < 0 + timeForInst q.count := by
            rcases hnew with h | h
            · simpa using h
            · rw [hev] at h; cases h
          simp only [Queue.enqueue, Queue.rebase, hev, DeltaCode.rebase, DeltaCode.insert, coding_wait,
            coding_setWait_timeFromLast, if_pos htime] at he
          obtain ⟨rfl, -⟩ := List.cons.inj he
          rfl
      rw [hhead] at hlt
      exact absurd hlt (BitVec.lt_irrefl _)
    · push Not at hnew
      obtain ⟨e', es', hev⟩ := List.exists_cons_of_ne_nil hnew.2
      have htime : ¬r.time < 0 + timeForInst q.count := by simpa using hnew.1
      refine head_rebase ho (fun h => absurd h.2 (by simpa using hnew.1)) e es' ?_ hlt
      simp only [Queue.enqueue, Queue.rebase, hev, DeltaCode.rebase, DeltaCode.insert, coding_wait,
        coding_setWait_timeFromLast, if_neg htime] at he
      simp only [Queue.rebase, hev, DeltaCode.rebase]
      rw [(List.cons.inj he).1]

/-- An add due at once only reads the counter into the head. -/
theorem atOnce (hq : q.Steady) (hr : q.Room) (ho : ¬q.Overrun r) (hi : ¬q.Issues r) :
    (q.rebase (timeForInst q.count)).Settled ∧
      (q.rebase (timeForInst q.count)).Follows (q.afterAdd r) := by
  have hst := hq.rebase hr
  constructor
  · intro e es he
    have hc := toNat_triggerCount (head_rebase ho (fun h => hi h.1) e es he)
    obtain ⟨h1, h2⟩ := hst.counting (by simp [he])
    refine BitVec.eq_of_toNat_eq (hc.trans ?_)
    have hwait : e.timeFromLast = timeForInst q.count := by
      cases hev : q.events with
      | nil => simp [Queue.rebase, hev, DeltaCode.rebase] at he
      | cons e' es' =>
        simp only [Queue.rebase, hev, DeltaCode.rebase] at he
        obtain ⟨rfl, -⟩ := List.cons.inj he
        rfl
    rw [hwait, toNat_timeForInst (c := q.count) h2]
    change max 1 (10 * q.count.toNat / 10) = q.count.toNat
    have : 1 ≤ q.count.toNat := h1
    omega
  · rw [afterAdd, if_neg hi, ← remaining_rebase]
    exact hst.follows_self

/-- **A delete of another event than the head of several leaves the others their times.** -/
theorem delete (hq : q.Steady) (hf : Filed .quick q) {h : ℤ} (hh : ¬q.Heads h) :
    (q.delete h).2 = false ∧ (q.delete h).1.Steady ∧ (q.Settled → (q.delete h).1.Settled) ∧
      (q.delete h).1.Follows (q.remaining.eraseP fun x => x.1.handle = h) := by
  have hfst : q.remaining.map Prod.fst = q.tickets := by
    rw [remaining, DeltaCode.map_fst_times, DeltaCode.map_key_rebase]
    rfl
  rcases hf.toIndexed.delete_cases h with ⟨hno, hd⟩ | ⟨e, es, hev, rfl, hd⟩ | ⟨e, es, hev, hne, -, hd⟩
  · rw [hd, List.eraseP_of_forall_not]
    · exact ⟨rfl, hq, id, hq.follows_self⟩
    · intro x hx
      have := hno x.1 (by rw [← hfst]; exact List.mem_map_of_mem hx)
      simpa using this
  · cases es with
    | nil =>
      rw [hd]
      refine ⟨rfl, ⟨by simp [deleteHead], by simp [deleteHead]⟩, by simp [deleteHead, Settled], ?_⟩
      obtain ⟨-, h2⟩ := hq.counting (by simp [hev])
      have hnil : q.remaining.eraseP (fun x => x.1.handle = e.handle) = [] := by
        rw [remaining_cons hev h2]
        simp [DeltaCode.times]
      rw [hnil]
      exact ⟨.nil, fun _ _ hnone => by cases hnone⟩
    | cons n es => exact absurd ⟨e, n, es, hev, rfl⟩ hh
  · rw [hd]
    obtain ⟨h1, h2⟩ := hq.counting (by simp [hev])
    have hfit := hq.fits
    rw [hev, DeltaCode.last_cons] at hfit
    have hes : (coding φ).last 0 es < 2 ^ 32 := by
      simp only [DeltaCode.last] at hfit ⊢
      omega
    have hst : Steady { q.unlink h with
        events := e :: (coding φ).remove (fun e => e.handle = h) es } := by
      refine ⟨?_, fun _ => ⟨h1, h2⟩⟩
      rw [DeltaCode.last_cons]
      exact lt_of_le_of_lt
        (DeltaCode.last_remove_le (q := fun t : Ticket φ => t.handle = h) (fun _ => rfl) hes) hfit
    refine ⟨rfl, hst, ?_, ?_⟩
    · rintro hs e' es' he'
      obtain ⟨rfl, -⟩ := List.cons.inj he'
      exact hs e es hev
    · have herase : q.remaining.eraseP (fun x => x.1.handle = h) = remaining { q.unlink h with
          events := e :: (coding φ).remove (fun e => e.handle = h) es } := by
        rw [remaining_cons hev h2, List.eraseP_cons_of_neg (by simpa using hne),
          remaining_cons (q := { q.unlink h with
            events := e :: (coding φ).remove (fun e => e.handle = h) es }) rfl h2]
        congr 1
        exact (DeltaCode.times_remove (q := fun t : Ticket φ => t.handle = h) (fun _ => rfl) hes).symm
      rw [herase]
      exact hst.follows_self

/-- A dispatch sets the counter for the next. -/
theorem take (hfit : (coding φ).last 0 q.events < 2 ^ 32) (hf : Filed .quick q)
    (ht : q.take = some (e, q')) : q'.Steady := by
  obtain ⟨hf', hev, -, hcount⟩ := hf.take_eq_some ht
  rw [hev, DeltaCode.last_cons] at hfit
  refine ⟨?_, fun hne => ?_⟩
  · simp only [DeltaCode.last] at hfit ⊢
    omega
  · obtain ⟨n, es, hn⟩ := List.exists_cons_of_ne_nil hne
    have hkind : n.eventType ≠ .tick := by
      have := hf'.kinds n.toTicket (by simp [tickets, hn])
      intro hk
      rw [show n.toTicket.eventType = .tick from hk] at this
      cases this
    have hc : q'.count.toNat = max 1 (n.timeFromLast.toNat / 10) := by
      rw [hcount, hn, ← toNat_jumps]
      dsimp only [countFor]
      split
      next hk => exact absurd hk hkind
      next => rfl
    have := n.timeFromLast.isLt
    omega

end Steady

end Queue

/-! ## The system -/

namespace Module

/-- What every run keeps of the quick list: while an add has a callback in progress the counter is set
up, and a dispatch is at the bottom of the stack. -/
structure Quickly (m : Module φ) : Prop where
  steady : (m.queue .quick).Steady
  settled : .adding .quick ∈ m.stack → (m.queue .quick).Settled
  bottom : m.stack.Pairwise fun f _ => f ≠ .dispatching .quick

/-- A proper step that takes none of the three paths. -/
def Careful (m : Module φ) (op : Op φ) : Prop :=
  m.Proper op ∧
    match op with
    | .add r => r.kind.which = .quick → (m.queue .quick).Room ∧ ¬(m.queue .quick).Overrun r
    | .delete .quick handle => ¬(m.queue .quick).Heads handle
    | _ => True

instance (m : Module φ) : ∀ op, Decidable (m.Careful op)
  | .add r => inferInstanceAs (Decidable (_ ∧ (r.kind.which = .quick → _ ∧ ¬_)))
  | .delete .quick handle => inferInstanceAs (Decidable (_ ∧ ¬(m.queue .quick).Heads handle))
  | .delete .tick _ => inferInstanceAs (Decidable (_ ∧ True))
  | .tick => inferInstanceAs (Decidable (_ ∧ True))
  | .jump => inferInstanceAs (Decidable (_ ∧ True))
  | .ret => inferInstanceAs (Decidable (_ ∧ True))

/-- What should remain of the quick list after an add to it, a delete from it or the return of an add
that was due at once. -/
def should (m : Module φ) : Op φ → Option (List (Ticket φ × ℕ))
  | .add r => if r.kind.which = .quick then some ((m.queue .quick).afterAdd r) else none
  | .delete .quick handle => some ((m.queue .quick).remaining.eraseP fun x => x.1.handle = handle)
  | .ret => if m.stack.head? = some (.adding .quick) then some (m.queue .quick).remaining else none
  | _ => none

/-- The step disturbs no quick event. -/
def Undisturbed (m : Module φ) (op : Op φ) (m' : Module φ) : Prop :=
  ∀ l, m.should op = some l → (m'.queue .quick).Follows l

variable {m m' : Module φ}

namespace Quickly

theorem init : (init φ).Quickly where
  steady := ⟨by simp [Module.init], by simp [Module.init]⟩
  settled := nofun
  bottom := .nil

/-- A step of the tick list. -/
theorem aside (h : m.Quickly) (hq : m'.queue .quick = m.queue .quick)
    (hs : m'.stack = m.stack ∨ ∃ f, f.which = .tick ∧ m'.stack = f :: m.stack) : m'.Quickly := by
  rcases hs with hs | ⟨f, hf, hs⟩
  · exact ⟨hq ▸ h.steady, by rw [hq, hs]; exact h.settled, hs ▸ h.bottom⟩
  · refine ⟨hq ▸ h.steady, ?_, ?_⟩
    · rw [hq, hs, List.mem_cons]
      rintro (rfl | hmem)
      · cases hf
      · exact h.settled hmem
    · rw [hs]
      refine .cons (fun _ _ he => ?_) h.bottom
      rw [he] at hf
      cases hf

theorem performTick (h : m.Quickly) : (m.perform .tick).Quickly := by
  unfold perform
  split
  · exact h
  · exact h.aside rfl (.inr ⟨.dispatching .tick, rfl, rfl⟩)

/-- A dispatch of the quick list, with nothing else in progress. -/
theorem performQuick (hfit : (coding φ).last 0 (m.queue .quick).events < 2 ^ 32)
    (hf : Filed .quick (m.queue .quick)) (hs : m.stack = []) : (m.perform .quick).Quickly := by
  unfold perform
  split
  next ht =>
    have hnil : (m.queue .quick).events = [] := by
      rcases hq : m.queue .quick with ⟨_ | ⟨e, _ | ⟨n, es⟩⟩, _, _, _, _, _⟩
      · rfl
      all_goals simp [hq, Queue.take] at ht
    exact ⟨⟨hfit, fun hne => absurd hnil hne⟩, by simp [hs], by simp [hs]⟩
  next e q ht => exact ⟨.take hfit hf ht, by simp [hs], by simp [hs]⟩

theorem add (h : m.Quickly) {r : Request φ} (hop : m.Careful (.add r)) :
    Yields (m.add r) fun m' => m'.Quickly ∧ Undisturbed m (.add r) m' := by
  by_cases hw : r.kind.which = .quick
  · obtain ⟨hroom, hover⟩ := hop.2 hw
    have hshould : ∀ m', (m'.queue .quick).Follows ((m.queue .quick).afterAdd r) →
        Undisturbed m (.add r) m' := by
      intro m' hf l hl
      simp only [should, hw, if_true, Option.some.injEq] at hl
      exact hl ▸ hf
    unfold Module.add
    rw [hw]
    refine .ite (fun h0 => .ok ?_) fun h0 => .ite (fun hfree => .ok ?_) fun hfree => .ite (fun _ => .error)
      fun _ => .ok ?_
    · obtain ⟨hset, hfol⟩ := h.steady.atOnce hroom hover fun hi => hi.1 h0
      refine ⟨⟨h.steady.rebase hroom, fun _ => hset, ?_⟩, hshould _ hfol⟩
      exact .cons (fun _ _ => nofun) h.bottom
    · obtain ⟨hst, hset, hfol⟩ := Queue.Steady.noMemory hroom hover fun hi => hi.2 hfree
      exact ⟨⟨hst, fun _ => hset, h.bottom⟩, hshould _ hfol⟩
    · obtain ⟨hst, hset, hfol⟩ := Queue.Steady.enqueue hroom hover ⟨h0, hfree⟩
      exact ⟨⟨hst, fun _ => hset, h.bottom⟩, hshould _ hfol⟩
  · have hshould : ∀ m', Undisturbed m (.add r) m' := by
      intro m' l hl
      simp [should, hw] at hl
    have htick : r.kind.which = .tick := by
      cases hk : r.kind.which with
      | quick => exact absurd hk hw
      | tick => rfl
    unfold Module.add
    rw [htick]
    refine .ite (fun _ => .ok ⟨?_, hshould _⟩) fun _ => .ite (fun _ => .ok ⟨?_, hshould _⟩) fun _ =>
      .ite (fun _ => .error) fun _ => .ok ⟨?_, hshould _⟩
    · exact h.aside rfl (.inr ⟨.adding .tick, rfl, rfl⟩)
    · exact h.aside rfl (.inl rfl)
    · exact h.aside rfl (.inl rfl)

theorem delete (ht : m.Ticking) (h : m.Quickly) {w : Which} {k : ℤ} (hop : m.Careful (.delete w k)) :
    (m.delete w k).Quickly ∧ Undisturbed m (.delete w k) (m.delete w k) := by
  cases w with
  | quick =>
    obtain ⟨hagain, hst, hset, hfol⟩ := h.steady.delete (ht.filed .quick) hop.2
    have hdel : m.delete .quick k =
        (m.setQueue .quick ((m.queue .quick).delete k).1).see (.deleted .quick k) := by
      simp [Module.delete, hagain]
    rw [hdel]
    refine ⟨⟨hst, fun hmem => hset (h.settled hmem), h.bottom⟩, ?_⟩
    rintro l hl
    obtain rfl := Option.some.inj hl
    exact hfol
  | tick =>
    obtain ⟨hagain, -⟩ := ht.timed.delete (ht.filed .tick) hop.1
    have hdel : m.delete .tick k =
        (m.setQueue .tick ((m.queue .tick).delete k).1).see (.deleted .tick k) := by
      simp [Module.delete, hagain]
    rw [hdel]
    exact ⟨h.aside rfl (.inl rfl), fun _ hnone => by cases hnone⟩

theorem tick (h : m.Quickly) : ({ m with ticks := m.ticks + 1 }.countDown .tick).Quickly := by
  have h' : Quickly { m with ticks := m.ticks + 1 } := h.aside rfl (.inl rfl)
  unfold countDown
  dsimp only
  split
  · exact h'
  · split
    · exact performTick (h'.aside rfl (.inl rfl))
    · exact h'.aside rfl (.inl rfl)

theorem jump (ht : m.Ticking) (h : m.Quickly) (hs : m.stack = []) : (m.countDown .quick).Quickly := by
  unfold countDown
  dsimp only
  split
  next => exact h
  next hc =>
    have hpos : 0 < (m.queue .quick).count.toNat := by
      rw [Nat.pos_iff_ne_zero]
      exact fun hz => hc (BitVec.eq_of_toNat_eq (y := 0) hz)
    have hsub : ((m.queue .quick).count - 1).toNat + 1 = (m.queue .quick).count.toNat := by bv_omega
    split
    next => exact performQuick h.steady.fits ((ht.filed .quick).congr rfl rfl rfl rfl) hs
    next h0 =>
      have hne : ((m.queue .quick).count - 1).toNat ≠ 0 :=
        fun hz => h0 (BitVec.eq_of_toNat_eq (y := 0) hz)
      refine ⟨⟨h.steady.fits, fun hev => ?_⟩, by simp [hs], h.bottom⟩
      have := h.steady.counting hev
      simp only [setQueue_queue, Function.update_self]
      omega

/-- A callback returns. -/
theorem ret (ht : m.Ticking) (h : m.Quickly) {f : Frame} {stack : List Frame}
    (hs : m.stack = f :: stack) :
    ({ m with stack }.resume f).Quickly ∧ Undisturbed m .ret ({ m with stack }.resume f) := by
  have hbottom := h.bottom
  rw [hs, List.pairwise_cons] at hbottom
  have hpop : Quickly { m with stack } := by
    refine ⟨h.steady, fun hmem => h.settled ?_, hbottom.2⟩
    rw [hs]
    exact .tail _ hmem
  rcases f with ⟨_ | _⟩ | ⟨_ | _⟩
  · -- A dispatch is the last frame, so nothing is left above which the next callback runs.
    have hnil : stack = [] := List.eq_nil_iff_forall_not_mem.2 fun g hg => hbottom.1 g hg rfl
    refine ⟨?_, by simp [Undisturbed, should, hs]⟩
    rw [resume]
    split
    · exact hpop
    · split
      · exact performQuick h.steady.fits (ht.filed .quick) hnil
      · exact hpop
  · refine ⟨?_, by simp [Undisturbed, should, hs]⟩
    rw [resume]
    split
    · exact hpop
    · split
      · exact hpop.performTick
      · exact hpop
  · have hset : (m.queue .quick).Settled := h.settled (by rw [hs]; exact .head _)
    rw [resume]
    dsimp only
    rw [hset.setUp_eq_self]
    refine ⟨⟨h.steady, fun _ => hset, hbottom.2⟩, ?_⟩
    intro l hl
    simp only [should, hs, List.head?_cons, if_true, Option.some.injEq] at hl
    exact hl ▸ h.steady.follows_self
  · exact ⟨hpop.aside rfl (.inl rfl), by simp [Undisturbed, should, hs]⟩

theorem step (ht : m.Ticking) (h : m.Quickly) {op : Op φ} (hop : m.Careful op) :
    Yields (m.step op) fun m' => m'.Quickly ∧ Undisturbed m op m' := by
  cases op with
  | add r => exact h.add hop
  | delete w k => exact .ok (h.delete ht hop)
  | tick => exact .ite (fun _ => .error) fun _ => .ok ⟨h.tick, nofun⟩
  | jump => exact .ite (fun hs => .ok ⟨h.jump ht hs, nofun⟩) fun _ => .error
  | ret =>
    obtain ⟨f, stack, hs⟩ := List.exists_cons_of_ne_nil hop.1
    rw [Module.step, hs]
    exact .ok (h.ret ht hs)

end Quickly

end Module

/-- **Adding or deleting a quick event does not move the others.**  In every state of a run of careful
steps, a careful step disturbs no quick event. -/
theorem quick_undisturbed (ops : List (Op φ))
    (h : Meets Module.step Module.Careful (Module.init φ) ops) :
    Ends (ops.foldlM Module.step (Module.init φ)) fun m =>
      ∀ op, m.Careful op → Ends (m.step op) fun m' => m.Undisturbed op m' := by
  have hrun := ends_foldlM (I := fun m : Module φ => m.Ticking ∧ m.Quickly)
    (fun m op hm hop => (hm.1.step op hop.1).and_yields ((hm.2.step hm.1 hop).mono fun _ hm' => hm'.1))
    ⟨.init, .init⟩ h
  refine hrun.mono fun m hm op hop => ?_
  exact ((hm.1.step op hop.1).and_yields (hm.2.step hm.1 hop)).mono fun m' hm' => hm'.2.2

/-- The second of three events is deleted. -/
theorem second_deleted :
    Ends ([.add ⟨.time, 'a', 100, 0, true⟩, .add ⟨.time, 'b', 200, 0, true⟩,
        .add ⟨.instructions, 'c', 250, 0, true⟩, .jump].foldlM Module.step (Module.init Char)) fun m =>
      Ends (m.step (.delete .quick 2)) fun m' => m.Undisturbed (.delete .quick 2) m' := by
  obtain ⟨m, hm, h⟩ := quick_undisturbed [.add ⟨.time, 'a', 100, 0, true⟩, .add ⟨.time, 'b', 200, 0, true⟩,
    .add ⟨.instructions, 'c', 250, 0, true⟩, .jump] (by decide)
  refine ⟨m, hm, h _ ?_⟩
  obtain rfl := Except.ok.inj hm
  decide

/-- The first of two events, 100 and 200 microseconds away, is deleted: the other is now 10100 away. -/
theorem delete_delays :
    ∃ m m', [.add ⟨.time, 'a', 100, 0, true⟩, .add ⟨.time, 'b', 200, 0, true⟩].foldlM Module.step
        (Module.init Char) = .ok m ∧
      m.step (.delete .quick 1) = .ok m' ∧
      m.should (.delete .quick 1) = some [(⟨1, 2, 'b', 0, .time⟩, 200)] ∧
      (m'.queue .quick).remaining = [(⟨1, 2, 'b', 0, .time⟩, 10100)] ∧
      ¬m.Undisturbed (.delete .quick 1) m' := by
  refine ⟨_, _, rfl, rfl, rfl, rfl, fun h => ?_⟩
  obtain ⟨hnear, -⟩ := h _ rfl
  have hfar := (List.forall₂_cons.1 hnear).1.2.2
  revert hfar
  decide

end SoftPC.QuickEv
