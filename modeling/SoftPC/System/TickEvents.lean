import SoftPC.System.QuickEvLinks
import SoftPC.System.TickAgenda

/-!
# System/TickEvents — every tick event is called once, at its tick

The tick list refines the agenda: `waits` reads the remaining ticks of its events, the head's from the
counter, and an add is an ordered insertion into them, a delete an erasure, a dispatch takes the first
off at zero and a tick takes one from each.  So the contract holds of every run (`ticks_honoured`) in which no
delete meets the one slip of the list: taking out the head while it is due, with the next due as well,
calls `dispatch_q_event` and runs the quick list ahead of its time (`delete_runs_quick`).
-/

namespace SoftPC.QuickEv

variable {φ : Type*}

namespace Queue

/-- The events with the head's wait read off the counter. -/
def view (q : Queue φ) : List (Event φ) := (coding φ).rebase q.count q.events

/-- The nodes with the ticks they still wait. -/
def waits (q : Queue φ) : List (Ticket φ × ℕ) := (coding φ).times 0 q.view

/-- The head's stored wait is the counter. -/
def Exact (q : Queue φ) : Prop := ∀ e es, q.events = e :: es → e.timeFromLast = q.count

variable {q q' : Queue φ} {e : Event φ} {es : List (Event φ)}

theorem Exact.view_eq (h : q.Exact) : q.view = q.events := by
  rcases q with ⟨_ | ⟨e, es⟩, _, _, _, _, _⟩
  · rfl
  · obtain rfl := h e es rfl
    rfl

theorem Exact.setUp_eq_self (h : q.Exact) : q.setUp .tick = q := by
  rcases q with ⟨_ | ⟨e, es⟩, _, _, _, _, _⟩
  · rfl
  · simp [setUp, triggerCount, h e es rfl]

theorem exact_setUp (q : Queue φ) : (q.setUp .tick).Exact := by
  rintro e es he
  rcases q with ⟨_ | ⟨e', es'⟩, _, _, _, _, _⟩
  · cases he
  · obtain ⟨rfl, rfl⟩ : e' = e ∧ es' = es := by simpa [setUp] using he
    rfl

theorem exact_rebase (q : Queue φ) : (q.rebase q.count).Exact := by
  rintro e es he
  rcases q with ⟨_ | ⟨e', es'⟩, _, _, _, _, _⟩
  · cases he
  · obtain ⟨rfl, rfl⟩ : { e' with timeFromLast := _ } = e ∧ es' = es := by
      simpa [Queue.rebase, DeltaCode.rebase, coding] using he
    rfl

theorem view_rebase (q : Queue φ) : (q.rebase q.count).view = q.view := by
  rw [(exact_rebase q).view_eq]
  rfl

theorem map_fst_waits (q : Queue φ) : q.waits.map Prod.fst = q.tickets := by
  rw [waits, DeltaCode.map_fst_times, view, DeltaCode.map_key_rebase]
  rfl

theorem waits_cons (h : q.events = e :: es) :
    q.waits = (e.toTicket, q.count.toNat) :: (coding φ).times q.count.toNat es := by
  simp [waits, view, h, DeltaCode.rebase, DeltaCode.times, coding]

/-- The counter is behind the head's stored wait, no time leaves the word, and an empty list counts
nothing. -/
structure Timed (q : Queue φ) : Prop where
  fits : (coding φ).last 0 q.events < 2 ^ 32
  counted : ∀ e es, q.events = e :: es → q.count ≤ e.timeFromLast
  empty : q.events = [] → q.count = 0

/-- The delete that runs the wrong list: of the head, due, with the next due as well. -/
def Strikes (q : Queue φ) (handle : ℤ) : Prop :=
  ∃ e n es, q.events = e :: n :: es ∧ e.handle = handle ∧ q.count = 0 ∧ n.timeFromLast = 0

instance (q : Queue φ) (handle : ℤ) : Decidable (q.Strikes handle) :=
  match h : q.events with
  | e :: n :: _ =>
    decidable_of_iff (e.handle = handle ∧ q.count = 0 ∧ n.timeFromLast = 0) <| by simp [Strikes, h]
  | [_] => isFalse <| by simp [Strikes, h]
  | [] => isFalse <| by simp [Strikes, h]

namespace Timed

theorem view_fits (hq : q.Timed) : (coding φ).last 0 q.view < 2 ^ 32 := by
  refine lt_of_le_of_lt ?_ hq.fits
  cases he : q.events with
  | nil => simp [view, he, DeltaCode.rebase]
  | cons e es =>
    have hc : q.count.toNat ≤ e.timeFromLast.toNat := BitVec.le_def.1 (hq.counted e es he)
    simp only [view, he, DeltaCode.rebase, DeltaCode.last_cons, coding_wait, coding_setWait_timeFromLast]
    simp only [DeltaCode.last]
    omega

/-- A list whose stored waits are its waits. -/
theorem of_exact (hfit : (coding φ).last 0 q.events < 2 ^ 32) (he : q.Exact)
    (hempty : q.events = [] → q.count = 0) : q.Timed where
  fits := hfit
  counted e es h := by rw [he e es h]; exact BitVec.le_refl _
  empty := hempty

theorem rebase (hq : q.Timed) : (q.rebase q.count).Timed :=
  of_exact hq.view_fits q.exact_rebase fun h => hq.empty (by simpa [Queue.rebase] using h)

/-- **An add inserts behind the events that are not later.** -/
theorem enqueue (hq : q.Timed) (r : Request φ) :
    (((q.rebase q.count).enqueue r).setUp .tick).Timed ∧
      (((q.rebase q.count).enqueue r).setUp .tick).waits =
        q.waits.orderedInsert (fun x y => x.2 < y.2) (q.ticket r, r.time.toNat) := by
  have hfit := hq.view_fits
  have hex := exact_setUp ((q.rebase q.count).enqueue r)
  have hev : (((q.rebase q.count).enqueue r).setUp .tick).events =
      (coding φ).insert (fun wait => ⟨q.ticket r, wait, wait⟩) r.time 0 q.view := by
    obtain ⟨count, h⟩ := setUp_eq ((q.rebase q.count).enqueue r) .tick
    rw [h]
    rfl
  have hkey : ∀ wait, (coding φ).key ⟨q.ticket r, wait, wait⟩ = q.ticket r := fun _ => rfl
  have hrun : (0 : BitVec 32) ≤ r.time := BitVec.le_def.2 (Nat.zero_le _)
  refine ⟨of_exact ?_ hex ?_, ?_⟩
  · rw [hev]
    exact DeltaCode.last_insert_lt (fun _ => rfl) hkey hrun hfit
  · intro h
    have := congrArg List.length h
    have hp : (((coding φ).insert (fun wait => ⟨q.ticket r, wait, wait⟩) r.time 0 q.view).map
        (coding φ).key).length = (q.ticket r :: q.view.map (coding φ).key).length :=
      ((coding φ).map_key_insert_perm hkey).length_eq
    simp [hev] at this hp
    simp [this] at hp
  · rw [waits, hex.view_eq, hev]
    exact DeltaCode.times_insert (fun _ => rfl) hkey hrun hfit

/-- **A delete takes out the event of its handle**, and dispatches nothing unless it strikes. -/
theorem delete (hq : q.Timed) (hf : Filed .tick q) {h : ℤ} (hs : ¬q.Strikes h) :
    (q.delete h).2 = false ∧ (q.delete h).1.Timed ∧ (q.Exact → (q.delete h).1.Exact) ∧
      (q.delete h).1.waits = q.waits.eraseP fun x => x.1.handle = h := by
  -- In every case the view loses the node, its wait going to the next.
  have hwaits : q.waits.eraseP (fun x => x.1.handle = h) =
      (coding φ).times 0 ((coding φ).remove (fun e => e.handle = h) q.view) :=
    (DeltaCode.times_remove (q := fun t => t.handle = h) (fun _ => rfl) hq.view_fits).symm
  rcases hf.toIndexed.delete_cases h with ⟨hno, hd⟩ | ⟨e, es, hev, rfl, hd⟩ | ⟨e, es, hev, hne, -, hd⟩
  · rw [hd, List.eraseP_of_forall_not]
    · exact ⟨rfl, hq, id, rfl⟩
    · intro x hx
      have := hno x.1 (by rw [← map_fst_waits]; exact List.mem_map_of_mem hx)
      simpa using this
  · rw [hwaits, hd]
    have hview : q.view = (coding φ).setWait q.count e :: es := by rw [view, hev]; rfl
    have hhead : ((coding φ).setWait q.count e).handle = e.handle := rfl
    rw [hview]
    cases es with
    | nil =>
      refine ⟨rfl, ⟨by simp [deleteHead], by simp [deleteHead], fun _ => rfl⟩,
        by simp [deleteHead, Exact], ?_⟩
      simp [deleteHead, waits, view, DeltaCode.rebase, DeltaCode.remove, hhead]
    | cons n es =>
      have hc : q.count.toNat ≤ e.timeFromLast.toNat := BitVec.le_def.1 (hq.counted e _ hev)
      have hfit := hq.fits
      rw [hev, DeltaCode.last_cons, DeltaCode.last_cons] at hfit
      have hsum := (coding φ).le_last (0 + e.timeFromLast.toNat + n.timeFromLast.toNat) es
      have hlt : n.timeFromLast.toNat + e.timeFromLast.toNat < 2 ^ 32 := by
        simp only [coding_wait] at hfit
        omega
      have hkind : e.eventType = .tick := by
        have := hf.kinds e.toTicket (by simp [tickets, hev])
        cases hk : e.eventType <;> simp_all [EventType.which]
      have hnext : ¬n.timeFromLast + e.timeFromLast ≤ e.timeFromLast - q.count := by
        rw [BitVec.le_def, BitVec.toNat_add_of_lt hlt, BitVec.toNat_sub_of_le (BitVec.le_def.2 hc)]
        intro hle
        refine hs ⟨e, n, es, hev, rfl, BitVec.eq_of_toNat_eq ?_, BitVec.eq_of_toNat_eq ?_⟩
        · change q.count.toNat = 0
          omega
        · change n.timeFromLast.toNat = 0
          omega
      have hwait : n.timeFromLast + e.timeFromLast - (e.timeFromLast - q.count) =
          n.timeFromLast + q.count := by bv_omega
      have heq : (q.unlink e.handle).deleteHead e (n :: es) =
          ({ q.unlink e.handle with
              events := (coding φ).setWait (n.timeFromLast + q.count) n :: es
              count := n.timeFromLast + q.count }, false) := by
        simp only [deleteHead, hkind, EventType.scale, EventType.unscale]
        rw [if_neg (by exact hnext)]
        simp only [unlink, hwait]
        rfl
      rw [heq]
      have hex : Exact { q.unlink e.handle with
          events := (coding φ).setWait (n.timeFromLast + q.count) n :: es
          count := n.timeFromLast + q.count } := by
        rintro e' es' he'
        obtain ⟨rfl, rfl⟩ := List.cons.inj he'
        rfl
      refine ⟨rfl, of_exact ?_ hex (by simp), fun _ => hex, ?_⟩
      · refine lt_of_le_of_lt ?_ hfit
        have hle : n.timeFromLast.toNat + q.count.toNat < 2 ^ 32 := by omega
        rw [DeltaCode.last_cons]
        simp only [DeltaCode.last, coding_wait, coding_setWait_timeFromLast,
          BitVec.toNat_add_of_lt hle]
        omega
      · rw [waits, hex.view_eq]
        simp [DeltaCode.remove, hhead]
  · rw [hwaits, hd]
    have hview : q.view = (coding φ).setWait q.count e :: es := by rw [view, hev]; rfl
    have hhead : ¬((coding φ).setWait q.count e).handle = h := hne
    have hremove : (coding φ).remove (fun e => e.handle = h) q.view =
        (coding φ).setWait q.count e :: (coding φ).remove (fun e => e.handle = h) es := by
      rw [hview]
      simp [DeltaCode.remove, hhead]
    have hfit := hq.fits
    rw [hev, DeltaCode.last_cons] at hfit
    refine ⟨rfl, ⟨?_, ?_, by simp⟩, ?_, ?_⟩
    · rw [DeltaCode.last_cons]
      have hes : (coding φ).last 0 es < 2 ^ 32 := by
        simp only [DeltaCode.last] at hfit ⊢
        omega
      exact lt_of_le_of_lt
        (DeltaCode.last_remove_le (q := fun t : Ticket φ => t.handle = h) (fun _ => rfl) hes) hfit
    · rintro e' es' he'
      obtain ⟨rfl, -⟩ := List.cons.inj he'
      exact hq.counted e es hev
    · rintro hex e' es' he'
      obtain ⟨rfl, -⟩ := List.cons.inj he'
      exact hex e es hev
    · rw [hremove]
      rfl

/-- **A dispatch takes the first event off, at zero.** -/
theorem take (hq : q.Timed) (hf : Filed .tick q) (hc : q.count = 0) (ht : q.take = some (e, q')) :
    q'.Timed ∧ q'.Exact ∧ q.waits = (e.toTicket, 0) :: q'.waits := by
  obtain ⟨hf', hev, -, hcount⟩ := hf.take_eq_some ht
  have hex : q'.Exact := by
    intro n es hn
    have hkind : n.eventType = .tick := by
      have := hf'.kinds n.toTicket (by simp [tickets, hn])
      cases hk : n.eventType <;> simp_all [EventType.which]
    rw [hcount, hn]
    simp [countFor, hkind]
  have hfit := hq.fits
  rw [hev, DeltaCode.last_cons] at hfit
  refine ⟨of_exact ?_ hex ?_, hex, ?_⟩
  · simp only [DeltaCode.last] at hfit ⊢
    omega
  · intro hnil
    rw [hcount, hnil]
    exact hc
  · rw [waits_cons hev, waits, hex.view_eq, hc]
    rfl

/-- **A tick takes one from every wait.** -/
theorem countDown (hq : q.Timed) (hc : q.count ≠ 0) :
    Timed { q with count := q.count - 1 } ∧
      q.waits = (waits { q with count := q.count - 1 }).map fun x => (x.1, x.2 + 1) := by
  have hpos : 0 < q.count.toNat := by
    rw [Nat.pos_iff_ne_zero]
    exact fun h => hc (BitVec.eq_of_toNat_eq (by simpa using h))
  have hsub : (q.count - 1).toNat + 1 = q.count.toNat := by bv_omega
  refine ⟨⟨hq.fits, ?_, ?_⟩, ?_⟩
  · intro e es he
    have := BitVec.le_def.1 (hq.counted e es he)
    rw [BitVec.le_def]
    dsimp only
    omega
  · intro he
    exact absurd (hq.empty he) hc
  · obtain ⟨e, es, he⟩ := List.exists_cons_of_ne_nil fun h => hc (hq.empty h)
    rw [waits_cons he, waits_cons (q := { q with count := q.count - 1 }) he, List.map_cons,
      ← DeltaCode.times_add, hsub]

end Timed

end Queue

/-! ## The system -/

namespace Module

/-- The agenda of the tick list. -/
def agenda (m : Module φ) : Agenda φ where
  now := m.ticks
  issued := (m.queue .tick).issued
  due := (m.queue .tick).waits.map fun x => (x.1, m.ticks + x.2)
  trace := m.trace

/-- Both lists are filed, and the tick list refines a sound agenda. -/
structure Refines (m : Module φ) : Prop where
  filed : ∀ w, Filed w (m.queue w)
  timed : (m.queue .tick).Timed
  sound : m.agenda.Sound
  quiet : ∀ s, (s, .dispatched .tick .quick) ∉ m.trace

/-- What every run keeps: the stored head is exact while a call of the tick list is in progress, and
nothing is due unless it is being dispatched. -/
structure Ticking (m : Module φ) : Prop extends Refines m where
  exact : (∃ f ∈ m.stack, f.which = .tick) → (m.queue .tick).Exact
  idle : .dispatching .tick ∉ m.stack → ∀ x ∈ (m.queue .tick).waits, 0 < x.2

theorem Ticking.init : (init φ).Ticking where
  filed := .init
  timed := ⟨by simp [Module.init], by simp [Module.init], fun _ => rfl⟩
  sound := Agenda.init
  exact := by simp [Module.init]
  idle := by simp [Module.init, Queue.waits, Queue.view, DeltaCode.rebase, DeltaCode.times]
  quiet := by simp [Module.init]

/-- **What is kept is the contract.** -/
theorem Ticking.honoured {m : Module φ} (h : m.Ticking) :
    Honoured m.ticks (.dispatching .tick ∉ m.stack) m.trace := by
  refine h.sound.honoured ?_ ?_ h.quiet
  · intro x hx
    obtain ⟨y, -, rfl⟩ := List.mem_map.1 hx
    exact Nat.le_add_right _ _
  · intro hidle x hx
    obtain ⟨y, hy, rfl⟩ := List.mem_map.1 hx
    exact Nat.lt_add_of_pos_right (h.idle hidle y hy)

/-! ### Steps of the quick list -/

/-- An observation that is not about the tick list. -/
theorem Refines.see {m : Module φ} (h : m.Refines) {o : Obs φ} (ho : Agenda.Aside o)
    (hq : o ≠ .dispatched .tick .quick) : (m.see o).Refines where
  filed := h.filed
  timed := h.timed
  sound := h.sound.note ho
  quiet s hs := by
    rcases List.mem_append.1 hs with hs | hs
    · exact h.quiet s hs
    · simp only [List.mem_singleton, Prod.mk.injEq] at hs
      exact hq hs.2.symm

theorem Ticking.see {m : Module φ} (h : m.Ticking) {o : Obs φ} (ho : Agenda.Aside o)
    (hq : o ≠ .dispatched .tick .quick) : (m.see o).Ticking where
  toRefines := h.toRefines.see ho hq
  exact := h.exact
  idle := h.idle

/-- A change of the quick list. -/
theorem Ticking.setQuick {m : Module φ} (h : m.Ticking) {q : Queue φ} (hq : Filed .quick q) :
    (m.setQueue .quick q).Ticking where
  filed w := by
    cases w with
    | quick => exact hq
    | tick => exact h.filed .tick
  timed := h.timed
  sound := h.sound
  exact := h.exact
  idle := h.idle
  quiet := h.quiet

theorem Refines.push {m : Module φ} (h : m.Refines) (f : Frame) : (m.push f).Refines :=
  ⟨h.filed, h.timed, h.sound, h.quiet⟩

theorem Ticking.pushQuick {m : Module φ} (h : m.Ticking) {f : Frame} (hf : f.which = .quick) :
    (m.push f).Ticking where
  toRefines := h.toRefines.push f
  exact := by
    rintro ⟨f', hf', ht⟩
    rcases List.mem_cons.1 hf' with rfl | hf'
    · rw [hf] at ht; cases ht
    · exact h.exact ⟨f', hf', ht⟩
  idle hidle := h.idle fun hmem => hidle (.tail _ hmem)

theorem Ticking.performQuick {m : Module φ} (h : m.Ticking) : (m.perform .quick).Ticking := by
  unfold perform
  split
  next => exact h
  next e q ht =>
    obtain ⟨hq, hev, -⟩ := (h.filed .quick).take_eq_some ht
    have hkind := (h.filed .quick).kinds e.toTicket (by simp [Queue.tickets, hev])
    refine ((h.setQuick hq).pushQuick rfl).see ?_ (by simp)
    intro hk
    rw [hk] at hkind
    cases hkind

/-! ### Steps of the tick list -/

/-- The first event is called, at zero. -/
theorem Refines.performTick {m : Module φ} (h : m.Refines) (hc : (m.queue .tick).count = 0)
    (hne : (m.queue .tick).events ≠ []) : (m.perform .tick).Ticking := by
  unfold perform
  split
  next ht =>
    rcases hq : m.queue .tick with ⟨_ | ⟨e, _ | ⟨n, es⟩⟩, _, _, _, _, _⟩
    · exact absurd (by rw [hq]) hne
    · simp [hq, Queue.take] at ht
    · simp [hq, Queue.take] at ht
  next e q ht =>
    obtain ⟨hfiled, hev, hissued, -⟩ := (h.filed .tick).take_eq_some ht
    obtain ⟨htimed, hexact, hwaits⟩ := h.timed.take (h.filed .tick) hc ht
    have hdue : m.agenda.due =
        (e.toTicket, m.ticks) :: q.waits.map fun x => (x.1, m.ticks + x.2) := by
      rw [agenda, hwaits]
      rfl
    have hsound := h.sound.call hdue rfl
    refine ⟨⟨?_, htimed, ?_, ?_⟩, fun _ => hexact, fun hn => absurd (.head _) hn⟩
    · intro w
      cases w with
      | quick => exact h.filed .quick
      | tick => exact hfiled
    · simpa [agenda, hissued] using hsound
    · intro s hs
      rcases List.mem_append.1 hs with hs | hs
      · exact h.quiet s hs
      · simp at hs

/-- The tick list replaced by one with the same waits. -/
theorem Ticking.setTick {m : Module φ} (h : m.Ticking) {q : Queue φ} (hq : Filed .tick q)
    (ht : q.Timed) (hw : q.waits = (m.queue .tick).waits) (hi : q.issued = (m.queue .tick).issued)
    (he : q.Exact) : (m.setQueue .tick q).Ticking where
  filed w := by
    cases w with
    | quick => exact h.filed .quick
    | tick => exact hq
  timed := ht
  sound := by simpa [agenda, hw, hi] using h.sound
  quiet := h.quiet
  exact _ := he
  idle hidle := by simpa [hw] using h.idle hidle

theorem Ticking.tick {m : Module φ} (h : m.Ticking) (hidle : ∀ f ∈ m.stack, f.which ≠ .tick) :
    ({ m with ticks := m.ticks + 1 }.countDown .tick).Ticking := by
  have hnot : .dispatching .tick ∉ m.stack := fun hmem => hidle _ hmem rfl
  have hnone : ¬∃ f ∈ m.stack, f.which = .tick := by
    rintro ⟨f, hf, he⟩
    exact hidle f hf he
  unfold countDown
  dsimp only
  split
  next hc =>
    -- The counter is at rest only with an empty list.
    have hnil : (m.queue .tick).events = [] := by
      by_contra hne
      obtain ⟨e, es, he⟩ := List.exists_cons_of_ne_nil hne
      have := h.idle hnot (e.toTicket, _) (by rw [Queue.waits_cons he]; exact .head _)
      simp [hc] at this
    have hw : (m.queue .tick).waits = [] := by simp [Queue.waits, Queue.view, hnil, DeltaCode.rebase,
      DeltaCode.times]
    refine ⟨⟨h.filed, h.timed, ?_, h.quiet⟩, h.exact, h.idle⟩
    simpa [agenda, hw] using h.sound.tick
  next hc =>
    obtain ⟨htimed, hw⟩ := h.timed.countDown hc
    set q := { m.queue .tick with count := (m.queue .tick).count - 1 } with hq
    have hr : (setQueue { m with ticks := m.ticks + 1 } .tick q).Refines := by
      refine ⟨?_, htimed, ?_, h.quiet⟩
      · intro w
        cases w with
        | quick => exact h.filed .quick
        | tick => exact (h.filed .tick).congr rfl rfl rfl rfl
      · have hdue : q.waits.map (fun x => (x.1, m.ticks + 1 + x.2)) =
            (m.queue .tick).waits.map fun x => (x.1, m.ticks + x.2) := by
          rw [hw, List.map_map]
          refine List.map_congr_left fun x _ => Prod.ext rfl ?_
          dsimp only [Function.comp_apply]
          omega
        change Agenda.Sound ⟨m.ticks + 1, _, q.waits.map fun x => (x.1, m.ticks + 1 + x.2), m.trace⟩
        rw [hdue]
        exact h.sound.tick
    split
    next h0 =>
      refine (hr.see (o := .dispatched .tick .tick) trivial (by simp)).performTick h0 fun hnil => hc (h.timed.empty hnil)
    next h0 =>
      refine ⟨hr, fun hex => absurd hex hnone, fun _ x hx => ?_⟩
      have hne : (m.queue .tick).events ≠ [] := fun hnil => hc (h.timed.empty hnil)
      obtain ⟨e, es, he⟩ := List.exists_cons_of_ne_nil hne
      have hpos : 0 < (q.count).toNat := by
        rw [Nat.pos_iff_ne_zero]
        exact fun hz => h0 (BitVec.eq_of_toNat_eq (y := 0) hz)
      have hx' : x ∈ q.waits := hx
      rw [Queue.waits_cons (q := q) he] at hx'
      rcases List.mem_cons.1 hx' with rfl | hx'
      · exact hpos
      · exact hpos.trans_le (DeltaCode.le_of_mem_times hx')

theorem Ticking.deleteTick {m : Module φ} (h : m.Ticking) {k : ℤ}
    (hs : ¬(m.queue .tick).Strikes k) : (m.delete .tick k).Ticking := by
  obtain ⟨hagain, htimed, hexact, hwaits⟩ := h.timed.delete (h.filed .tick) hs
  have hfiled := (h.filed .tick).delete k
  obtain ⟨-, hissued, -⟩ := (h.filed .tick).toIndexed.delete k
  have hdel : m.delete .tick k =
      (m.setQueue .tick ((m.queue .tick).delete k).1).see (.deleted .tick k) := by
    simp [delete, hagain]
  rw [hdel]
  -- The handles of the agenda are those of the list, on one node each.
  have hhandles : (m.queue .tick).waits.Pairwise fun x y => x.1.handle ≠ y.1.handle := by
    have := (h.filed .tick).linked.handles
    rwa [← Queue.map_fst_waits, List.pairwise_map] at this
  have hsub : ((m.queue .tick).delete k).1.waits.map (fun x => (x.1, m.ticks + x.2)) =
      m.agenda.due.eraseP fun x => x.1.handle = k := by
    rw [hwaits, agenda, List.eraseP_map]
    rfl
  refine ⟨⟨?_, htimed, ?_, ?_⟩, fun hex => hexact (h.exact hex), ?_⟩
  · intro w
    cases w with
    | quick => exact h.filed .quick
    | tick => exact hfiled
  · have hpair : m.agenda.due.Pairwise fun x y => x.1.handle ≠ y.1.handle := by
      rw [agenda, List.pairwise_map]
      exact hhandles
    have := h.sound.delete (k := k) (List.eraseP_sublist (p := fun x => x.1.handle = k))
      fun x => mem_eraseP_of_pairwise hpair
    rw [← hsub] at this
    simpa [agenda, hissued] using this
  · intro s hs
    rcases List.mem_append.1 hs with hs | hs
    · exact h.quiet s hs
    · simp at hs
  · intro hidle x hx
    refine h.idle hidle x ?_
    have hx' : x ∈ ((m.queue .tick).delete k).1.waits := hx
    rw [hwaits] at hx'
    exact List.mem_of_mem_eraseP hx'

theorem Ticking.addTick {m : Module φ} (h : m.Ticking) {r : Request φ} (hr : r.kind = .tick)
    (hf : (m.queue .tick).Issues r → Fresh (m.queue .tick)) : Ends (m.add r) Ticking := by
  have hw : r.kind.which = .tick := by rw [hr]; rfl
  set q := (m.queue .tick).rebase (m.queue .tick).count with hq
  have hfiled : Filed .tick q := (h.filed .tick).rebase
  have hexact : q.Exact := Queue.exact_rebase _
  have hsame : (m.setQueue .tick q).Ticking :=
    h.setTick hfiled h.timed.rebase (by rw [Queue.waits, hq, Queue.view_rebase]; rfl) rfl hexact
  have hfresh : q.Issues r → Fresh q := fun hi t ht => hf hi t (by simpa [hq] using ht)
  unfold add
  rw [hw]
  dsimp only [Queue.toNextTrigger]
  rw [← hq]
  refine .ite (fun _ => .ok ?_) fun h0 => .ite (fun _ => .ok ?_) fun hfree => ?_
  · have hpush : ((m.setQueue .tick q).push (.adding .tick)).Ticking := by
      refine ⟨hsame.toRefines.push _, fun _ => hexact, fun hidle => ?_⟩
      exact hsame.idle fun hmem => hidle (.tail _ hmem)
    exact hpush.see (o := .atOnce r) trivial nofun
  · rw [hexact.setUp_eq_self]
    exact hsame.see (o := .noMemory r) trivial nofun
  · replace hfresh := hfresh ⟨h0, hfree⟩
    rw [hfiled.holds_eq_false hfresh]
    refine .ok ?_
    obtain ⟨htimed, hwaits⟩ := h.timed.enqueue r
    rw [← hq] at htimed hwaits
    have hissued : ((q.enqueue r).setUp .tick).issued = (m.queue .tick).issued + 1 := by
      obtain ⟨count, hc⟩ := (q.enqueue r).setUp_eq .tick
      rw [hc]
      rfl
    have hpos : 0 < r.time.toNat := by
      rw [Nat.pos_iff_ne_zero]
      exact fun hz => h0 (BitVec.eq_of_toNat_eq (y := 0) hz)
    have hsound := h.sound.add (q.ticket r) r.time hr rfl
    have hdue : ((q.enqueue r).setUp .tick).waits.map (fun x => (x.1, m.ticks + x.2)) =
        m.agenda.due.orderedInsert (fun x y => x.2 < y.2) (q.ticket r, m.ticks + r.time.toNat) := by
      rw [hwaits]
      exact List.map_orderedInsert _ _ (fun x : Ticket φ × ℕ => (x.1, m.ticks + x.2)) _ _
        (by simp) (by simp)
    refine ⟨⟨?_, htimed, ?_, ?_⟩, fun _ => Queue.exact_setUp _, ?_⟩
    · intro w
      cases w with
      | quick => exact h.filed .quick
      | tick => exact (hfiled.enqueue hfresh hw).setUp .tick
    · change Agenda.Sound ⟨m.ticks, ((q.enqueue r).setUp .tick).issued,
        ((q.enqueue r).setUp .tick).waits.map fun x => (x.1, m.ticks + x.2),
        m.trace ++ [(m.ticks, .added (q.ticket r) r.time)]⟩
      rw [hdue, hissued]
      exact hsound
    · intro s hs
      rcases List.mem_append.1 hs with hs | hs
      · exact h.quiet s hs
      · simp at hs
    · intro hidle x hx
      have hx' : x ∈ ((q.enqueue r).setUp .tick).waits := hx
      rw [hwaits, List.mem_orderedInsert] at hx'
      rcases hx' with rfl | hx'
      · exact hpos
      · exact h.idle hidle x hx'

/-! ### Runs -/

theorem Ticking.addQuick {m : Module φ} (h : m.Ticking) {r : Request φ} (hr : r.kind.which = .quick)
    (hf : (m.queue .quick).Issues r → Fresh (m.queue .quick)) : Ends (m.add r) Ticking := by
  have hkind : r.kind ≠ .tick := fun he => by rw [he] at hr; cases hr
  unfold add
  rw [hr]
  set q := (m.queue .quick).rebase ((m.queue .quick).toNextTrigger .quick) with hq
  have hfiled : Filed .quick q := (h.filed .quick).rebase
  have hfresh : q.Issues r → Fresh q := fun hi t ht => hf hi t (by simpa [hq] using ht)
  refine .ite (fun _ => .ok ?_) fun h0 => .ite (fun _ => .ok ?_) fun hfree => ?_
  · exact ((h.setQuick hfiled).pushQuick rfl).see (o := .atOnce r) trivial nofun
  · exact (h.setQuick (hfiled.setUp .quick)).see (o := .noMemory r) trivial nofun
  · replace hfresh := hfresh ⟨h0, hfree⟩
    rw [hfiled.holds_eq_false hfresh]
    refine .ok ((h.setQuick ((hfiled.enqueue hfresh hr).setUp .quick)).see ?_ nofun)
    exact hkind

theorem Ticking.deleteQuick {m : Module φ} (h : m.Ticking) (k : ℤ) :
    (m.delete .quick k).Ticking := by
  have hdel : ((m.setQueue .quick ((m.queue .quick).delete k).1).see (.deleted .quick k)).Ticking :=
    (h.setQuick ((h.filed .quick).delete k)).see (o := .deleted .quick k) nofun nofun
  unfold delete
  dsimp only
  split
  · exact (hdel.see (o := .dispatched .quick .quick) trivial nofun).performQuick
  · exact hdel

theorem Ticking.jump {m : Module φ} (h : m.Ticking) : (m.countDown .quick).Ticking := by
  unfold countDown
  dsimp only
  have hset := h.setQuick (q := { m.queue .quick with count := (m.queue .quick).count - 1 })
    ((h.filed .quick).congr rfl rfl rfl rfl)
  split
  · exact h
  · split
    · exact (hset.see (o := .dispatched .quick .quick) trivial nofun).performQuick
    · exact hset

/-- A callback returns. -/
theorem Ticking.ret {m : Module φ} (h : m.Ticking) {f : Frame} {stack : List Frame}
    (hs : m.stack = f :: stack) : ({ m with stack }.resume f).Ticking := by
  have hr : Refines { m with stack } := ⟨h.filed, h.timed, h.sound, h.quiet⟩
  have hexact : (∃ f ∈ stack, f.which = .tick) → (m.queue .tick).Exact := by
    rintro ⟨f', hf', ht⟩
    exact h.exact ⟨f', by rw [hs]; exact .tail _ hf', ht⟩
  -- Every frame but a tick dispatch leaves the question of what is due as it was.
  have hidle : f ≠ .dispatching .tick → Frame.dispatching .tick ∉ stack →
      ∀ x ∈ (m.queue .tick).waits, 0 < x.2 := by
    intro hf hn
    refine h.idle ?_
    rw [hs, List.mem_cons]
    rintro (he | he)
    · exact hf he.symm
    · exact hn he
  rcases f with ⟨_ | _⟩ | ⟨_ | _⟩
  · have ht : Ticking { m with stack } := ⟨hr, hexact, hidle (by decide)⟩
    rw [resume]
    split
    · exact ht
    · split
      · exact ht.performQuick
      · exact ht
  · have hex : (m.queue .tick).Exact := h.exact ⟨_, by rw [hs]; exact .head _, rfl⟩
    rw [resume]
    split
    next hnil =>
      have hnil' : (m.queue .tick).events = [] := hnil
      refine ⟨hr, hexact, fun _ => ?_⟩
      simp [Queue.waits, Queue.view, hnil', DeltaCode.rebase, DeltaCode.times]
    next e es he =>
      have he' : (m.queue .tick).events = e :: es := he
      have hcount : e.timeFromLast = (m.queue .tick).count := hex e es he'
      split
      next h0 =>
        refine hr.performTick (hcount.symm.trans h0) ?_
        rw [he]
        exact List.cons_ne_nil _ _
      next h0 =>
        refine ⟨hr, hexact, fun _ x hx => ?_⟩
        have hpos : 0 < (m.queue .tick).count.toNat := by
          rw [Nat.pos_iff_ne_zero]
          exact fun hz => h0 (hcount.trans (BitVec.eq_of_toNat_eq (y := 0) hz))
        have hx' : x ∈ (m.queue .tick).waits := hx
        rw [Queue.waits_cons he'] at hx'
        rcases List.mem_cons.1 hx' with rfl | hx'
        · exact hpos
        · exact hpos.trans_le (DeltaCode.le_of_mem_times hx')
  · have ht : Ticking { m with stack } := ⟨hr, hexact, hidle (by decide)⟩
    exact ht.setQuick ((h.filed .quick).setUp .quick)
  · have ht : Ticking { m with stack } := ⟨hr, hexact, hidle (by decide)⟩
    have hex : (m.queue .tick).Exact := h.exact ⟨_, by rw [hs]; exact .head _, rfl⟩
    rw [resume]
    dsimp only
    rw [hex.setUp_eq_self]
    exact ht.setTick (h.filed .tick) h.timed rfl rfl hex

/-- The steps a run is made of: ticks come in no callback of the tick list and jumps in none, fewer than
65534 handles are issued while an event has its own, and no delete strikes. -/
def Proper (m : Module φ) : Op φ → Prop
  | .add r => (m.queue r.kind.which).Issues r → Fresh (m.queue r.kind.which)
  | .delete .tick handle => ¬(m.queue .tick).Strikes handle
  | .delete .quick _ => True
  | .tick => ∀ f ∈ m.stack, f.which ≠ .tick
  | .jump => m.stack = []
  | .ret => m.stack ≠ []

instance (m : Module φ) : ∀ op, Decidable (m.Proper op)
  | .add r => inferInstanceAs (Decidable ((m.queue r.kind.which).Issues r → Fresh _))
  | .delete .tick handle => inferInstanceAs (Decidable ¬(m.queue .tick).Strikes handle)
  | .delete .quick _ => inferInstanceAs (Decidable True)
  | .tick => inferInstanceAs (Decidable (∀ f ∈ m.stack, f.which ≠ .tick))
  | .jump => inferInstanceAs (Decidable (m.stack = []))
  | .ret => inferInstanceAs (Decidable (m.stack ≠ []))

theorem Ticking.step {m : Module φ} (h : m.Ticking) (op : Op φ) (hop : m.Proper op) :
    Ends (m.step op) Ticking := by
  cases op with
  | add r =>
    cases hk : r.kind with
    | tick =>
      rw [Proper, hk] at hop
      exact h.addTick hk hop
    | time =>
      rw [Proper, hk] at hop
      exact h.addQuick (by rw [hk]; rfl) hop
    | instructions =>
      rw [Proper, hk] at hop
      exact h.addQuick (by rw [hk]; rfl) hop
  | delete w k =>
    cases w with
    | quick => exact .ok (h.deleteQuick k)
    | tick => exact .ok (h.deleteTick hop)
  | tick =>
    have hany : ¬(m.stack.any fun f => f.which = .tick) = true := by
      simpa [Proper] using hop
    rw [Module.step, if_neg hany]
    exact .ok (h.tick hop)
  | jump =>
    have hstack : m.stack = [] := hop
    rw [Module.step, if_pos hstack]
    exact .ok h.jump
  | ret =>
    obtain ⟨f, stack, hs⟩ := List.exists_cons_of_ne_nil hop
    rw [Module.step, hs]
    exact .ok (h.ret hs)

end Module

/-- **Every tick event fires once, at its tick.**  In every run of the two lists, callbacks and all, whose
steps are proper the contract of the tick list holds. -/
theorem ticks_honoured (ops : List (Op φ)) (h : Meets Module.step Module.Proper (Module.init φ) ops) :
    Ends (ops.foldlM Module.step (Module.init φ)) fun m =>
      Honoured m.ticks (.dispatching .tick ∉ m.stack) m.trace :=
  (ends_foldlM (fun _ op hm hop => Module.Ticking.step hm op hop) .init h).mono
    fun _ hm => hm.honoured

/-- Two events, the first of which a callback of the second deletes. -/
theorem callback_deletes : Ends
    ([.add ⟨.tick, true, 2, 0, true⟩, .add ⟨.tick, false, 1, 7, true⟩, .tick, .delete .tick 1, .ret, .tick].foldlM
      Module.step (Module.init Bool)) fun m =>
      Honoured m.ticks (.dispatching .tick ∉ m.stack) m.trace :=
  ticks_honoured _ (by decide)

/-- Three events of one tick and a quick event that is not due: the callback of the first deletes the
second, and the quick event is called. -/
theorem delete_runs_quick :
    ∃ m, [.add ⟨.time, (), 1000, 0, true⟩, .add ⟨.tick, (), 1, 0, true⟩, .add ⟨.tick, (), 1, 0, true⟩,
        .add ⟨.tick, (), 1, 0, true⟩, .tick, .delete .tick 2].foldlM Module.step (Module.init Unit) = .ok m ∧
      (1, .called ⟨0, 1, (), 0, .time⟩) ∈ m.trace ∧
      ¬Honoured m.ticks (.dispatching .tick ∉ m.stack) m.trace := by
  refine ⟨_, rfl, by decide, fun h => h.quiet 1 (by decide)⟩

end SoftPC.QuickEv
