import SoftPC.System.QuickEvLinks

/-!
# System/QuickEvAlike — the addresses of the nodes do not show

Two states of the module that differ in the addresses of their nodes and the length of their free
lists behave alike: every step ends in the same way, is seen the same way and leaves them alike
(`Alike.step`), as long as the hash chains of both are sound and memory does not run out.
-/

namespace SoftPC.QuickEv

variable {φ : Type*}

/-! ## Forgetting the addresses -/

def Ticket.forget (t : Ticket φ) : Ticket φ := { t with node := 0 }

def Event.forget (e : Event φ) : Event φ := { e with node := 0 }

def Obs.forget : Obs φ → Obs φ
  | .added t d => .added t.forget d
  | .called t => .called t.forget
  | o => o

/-- Two lists that differ in addresses only. -/
structure Similar (q q' : Queue φ) : Prop where
  events : q.events.map Event.forget = q'.events.map Event.forget
  table : ∀ b, (q.table b).map Ticket.forget = (q'.table b).map Ticket.forget
  next : q.nextFreeHandle = q'.nextFreeHandle
  count : q.count = q'.count

theorem Event.countFor_forget (e : Event φ) : Queue.countFor e.forget = Queue.countFor e := rfl

namespace Similar

variable {q q' : Queue φ} {e e' : Event φ} {es es' : List (Event φ)} {r : Request φ} {d : BitVec 32}
  {w : Which} {h : ℤ}

theorem refl (q : Queue φ) : Similar q q := ⟨rfl, fun _ => rfl, rfl, rfl⟩

theorem symm (hs : Similar q q') : Similar q' q :=
  ⟨hs.events.symm, fun b => (hs.table b).symm, hs.next.symm, hs.count.symm⟩

/-- The head of one list is the head of the other. -/
theorem events_cons (hs : Similar q q') (he : q.events = e :: es) :
    ∃ e' es', q'.events = e' :: es' ∧ e'.forget = e.forget ∧
      es'.map Event.forget = es.map Event.forget := by
  have h := hs.events
  rw [he, List.map_cons] at h
  cases he' : q'.events with
  | nil => rw [he'] at h; cases h
  | cons e' es' =>
    rw [he', List.map_cons] at h
    obtain ⟨h₁, h₂⟩ := List.cons.inj h
    exact ⟨e', es', rfl, h₁.symm, h₂.symm⟩

theorem events_nil (hs : Similar q q') (he : q.events = []) : q'.events = [] := by
  have h := hs.events
  rw [he] at h
  exact List.map_eq_nil_iff.1 h.symm

theorem nextHandle (hs : Similar q q') : q.nextHandle = q'.nextHandle := by
  rw [Queue.nextHandle, Queue.nextHandle, hs.next]

theorem toNextTrigger (hs : Similar q q') : q.toNextTrigger w = q'.toNextTrigger w := by
  cases w <;> simp [Queue.toNextTrigger, hs.count]

/-- A test of the handles along a chain. -/
theorem any_table (hs : Similar q q') (b : Fin 16) :
    ((q.table b).any fun t => t.handle = h) = (q'.table b).any fun t => t.handle = h := by
  have key : ∀ l : List (Ticket φ), (l.any fun t => t.handle = h) =
      (l.map Ticket.forget).any fun t => t.handle = h := by
    intro l
    rw [List.any_map]
    rfl
  rw [key (q.table b), key (q'.table b), hs.table]

theorem holds (hs : Similar q q') : q.holds h = q'.holds h := hs.any_table _

theorem rebase (hs : Similar q q') : Similar (q.rebase d) (q'.rebase d) where
  events := by
    have hmap := (coding φ).map_rebase (g := Event.forget) (fun _ _ => rfl) d
    rw [Queue.rebase, Queue.rebase]
    dsimp only
    rw [hmap, hmap, hs.events]
  table := hs.table
  next := hs.next
  count := hs.count

theorem setUp (hs : Similar q q') : Similar (q.setUp w) (q'.setUp w) := by
  cases he : q.events with
  | nil =>
    rw [Queue.setUp_nil he, Queue.setUp_nil (hs.events_nil he)]
    exact hs
  | cons e es =>
    obtain ⟨e', es', he', hf, -⟩ := hs.events_cons he
    have hc : Queue.triggerCount w e = Queue.triggerCount w e' := by
      have := congrArg (Queue.triggerCount w) hf
      cases w <;> exact this.symm
    rw [Queue.setUp_cons he, Queue.setUp_cons he']
    exact ⟨hs.events, hs.table, hs.next, hc⟩

theorem enqueue (hs : Similar q q') : Similar (q.enqueue r) (q'.enqueue r) where
  events := by
    have hmap := (coding φ).map_insert (g := Event.forget) (fun _ => rfl) (fun _ _ => rfl)
    have hnew : (fun wait => Event.forget ⟨q.ticket r, wait, wait⟩) =
        fun wait => Event.forget ⟨q'.ticket r, wait, wait⟩ := by
      funext wait
      simp [Event.forget, Queue.ticket, hs.nextHandle]
    rw [Queue.enqueue, Queue.enqueue]
    dsimp only
    rw [hmap, hmap, hnew, hs.events]
  table b := by
    have ht : (q.ticket r).forget = (q'.ticket r).forget := by
      simp [Ticket.forget, Queue.ticket, hs.nextHandle]
    by_cases hb : b = bucket q'.nextHandle
    · subst hb
      simp [Queue.enqueue, hs.nextHandle, hs.table, ht]
    · simp [Queue.enqueue, hs.nextHandle, Function.update_of_ne hb, hs.table]
  next := by simp [Queue.enqueue, hs.nextHandle]
  count := hs.count

theorem unlink (hs : Similar q q') : Similar (q.unlink h) (q'.unlink h) where
  events := hs.events
  table b := by
    have herase : ∀ l : List (Ticket φ), (l.eraseP fun t => t.handle = h).map Ticket.forget =
        (l.map Ticket.forget).eraseP fun t => t.handle = h := by
      intro l
      rw [List.eraseP_map]
      rfl
    by_cases hb : b = bucket h
    · subst hb
      simp only [Queue.unlink, Function.update_self]
      rw [herase, herase, hs.table]
    · simp [Queue.unlink, Function.update_of_ne hb, hs.table]
  next := hs.next
  count := hs.count

/-- Another list of events and another counter on similar lists. -/
theorem withEvents (hs : Similar q q') {count : BitVec 32}
    (hes : es.map Event.forget = es'.map Event.forget) :
    Similar { q with events := es, count } { q' with events := es', count } :=
  ⟨hes, hs.table, hs.next, rfl⟩

/-- A dispatch takes the same event off both. -/
theorem take (hs : Similar q q') :
    (q.take = none ∧ q'.take = none) ∨ ∃ e p e' p', q.take = some (e, p) ∧ q'.take = some (e', p') ∧
      e.toTicket.forget = e'.toTicket.forget ∧ Similar p p' := by
  cases he : q.events with
  | nil =>
    left
    simp [Queue.take, he, hs.events_nil he]
  | cons e es =>
    right
    obtain ⟨e', es', he', hf, hes⟩ := hs.events_cons he
    have hh : e'.handle = e.handle := congrArg (fun e => e.handle) hf
    have ht : e.toTicket.forget = e'.toTicket.forget := congrArg Event.toTicket hf.symm
    cases es with
    | nil =>
      obtain rfl : es' = [] := by simpa using hes
      refine ⟨e, _, e', _, by rw [Queue.take, he], by rw [Queue.take, he'], ht, ?_⟩
      rw [hh]
      exact unlink ⟨rfl, hs.table, hs.next, hs.count⟩
    | cons n es =>
      cases es' with
      | nil => cases hes
      | cons n' es' =>
        have hn := (List.cons.inj (by simpa using hes : n'.forget :: _ = n.forget :: _)).1
        have hc : Queue.countFor n'.forget = Queue.countFor n.forget := congrArg Queue.countFor hn
        rw [Event.countFor_forget, Event.countFor_forget] at hc
        refine ⟨e, _, e', _, by rw [Queue.take, he], by rw [Queue.take, he'], ht, ?_⟩
        rw [hh, hc]
        exact unlink ⟨hes.symm, hs.table, hs.next, rfl⟩

theorem deleteHead (hs : Similar q q') (hf : e'.forget = e.forget)
    (hes : es'.map Event.forget = es.map Event.forget) :
    Similar (q.deleteHead e es).1 (q'.deleteHead e' es').1 ∧
      (q.deleteHead e es).2 = (q'.deleteHead e' es').2 := by
  have hd : e'.timeFromLast = e.timeFromLast := congrArg (fun e => e.timeFromLast) hf
  have hk : e'.eventType = e.eventType := congrArg (fun e => e.eventType) hf
  cases es with
  | nil =>
    obtain rfl : es' = [] := by simpa using hes
    exact ⟨hs.withEvents rfl, rfl⟩
  | cons n es =>
    cases es' with
    | nil => cases hes
    | cons n' es' =>
      obtain ⟨hn, hes⟩ := List.cons.inj (by simpa using hes : n'.forget :: _ = n.forget :: _)
      have hnd : n'.timeFromLast = n.timeFromLast := congrArg (fun e => e.timeFromLast) hn
      have hset : ∀ d, Event.forget { n' with timeFromLast := d } =
          Event.forget { n with timeFromLast := d } :=
        fun d => congrArg (fun e : Event φ => { e with timeFromLast := d }) hn
      rw [Queue.deleteHead, Queue.deleteHead, hd, hk, hnd, ← hs.count]
      split
      · refine ⟨⟨?_, hs.table, hs.next, rfl⟩, rfl⟩
        simp [hset, hes]
      · refine ⟨hs.withEvents ?_, rfl⟩
        simp [hset, hes]

/-- A handle on one list is on the other. -/
theorem mem_handles (hs : Similar q q') {t : Ticket φ} (ht : t ∈ q.tickets) :
    ∃ t' ∈ q'.tickets, t'.handle = t.handle := by
  obtain ⟨e, he, rfl⟩ := List.mem_map.1 ht
  have hmem : e.forget ∈ q'.events.map Event.forget := by
    rw [← hs.events]
    exact List.mem_map_of_mem he
  obtain ⟨e', he', hf⟩ := List.mem_map.1 hmem
  exact ⟨e'.toTicket, List.mem_map_of_mem he', congrArg (fun e => e.handle) hf⟩

/-- A delete does the same to both. -/
theorem delete (hs : Similar q q') (hq : Indexed q) (hq' : Indexed q') :
    Similar (q.delete h).1 (q'.delete h).1 ∧ (q.delete h).2 = (q'.delete h).2 := by
  rcases hq.delete_cases h with ⟨hno, hd⟩ | ⟨e, es, he, hh, hd⟩ | ⟨e, es, he, hh, hex, hd⟩
  · rcases hq'.delete_cases h with ⟨-, hd'⟩ | ⟨e', es', he', hh', -⟩ | ⟨e', es', he', -, ⟨t, ht, hh'⟩, -⟩
    · rw [hd, hd']
      exact ⟨hs, rfl⟩
    · obtain ⟨t, ht, hh⟩ := hs.symm.mem_handles (t := e'.toTicket) (by simp [Queue.tickets, he'])
      exact absurd (hh.trans hh') (hno t ht)
    · obtain ⟨t', ht', hh⟩ := hs.symm.mem_handles (t := t)
        (by rw [Queue.tickets, he', List.map_cons]; exact .tail _ ht)
      exact absurd (hh.trans hh') (hno t' ht')
  all_goals
    obtain ⟨e', es', he', hf, hes⟩ := hs.events_cons he
    have hh' : e'.handle = e.handle := congrArg (fun e => e.handle) hf
    have hmem' : ∀ t ∈ es'.map Event.toTicket, t ∈ q'.tickets := by
      rw [Queue.tickets, he', List.map_cons]
      exact fun t ht => .tail _ ht
  · have hd' : q'.delete h = (q'.unlink h).deleteHead e' es' := by
      rcases hq'.delete_cases h with ⟨hno, -⟩ | ⟨e'', es'', he'', -, hd'⟩ | ⟨e'', es'', he'', hne, -⟩
      · exact absurd (hh'.trans hh) (hno e'.toTicket (by simp [Queue.tickets, he']))
      · obtain ⟨rfl, rfl⟩ := List.cons.inj (he'.symm.trans he'')
        exact hd'
      · obtain ⟨rfl, rfl⟩ := List.cons.inj (he'.symm.trans he'')
        exact absurd (hh'.trans hh) hne
    rw [hd, hd']
    exact hs.unlink.deleteHead hf hes
  · have hd' : q'.delete h = ({ q'.unlink h with
        events := e' :: (coding φ).remove (fun e => e.handle = h) es' }, false) := by
      rcases hq'.delete_cases h with ⟨hno, -⟩ | ⟨e'', es'', he'', hhe, -⟩ | ⟨e'', es'', he'', -, -, hd'⟩
      · obtain ⟨t, ht, hh⟩ := hex
        obtain ⟨t', ht', hh''⟩ := hs.mem_handles (t := t)
          (by rw [Queue.tickets, he, List.map_cons]; exact .tail _ ht)
        exact absurd (hh''.trans hh) (hno t' ht')
      · obtain ⟨rfl, rfl⟩ := List.cons.inj (he'.symm.trans he'')
        exact absurd (hh'.symm.trans hhe) hh
      · obtain ⟨rfl, rfl⟩ := List.cons.inj (he'.symm.trans he'')
        exact hd'
    have hmap := (coding φ).map_remove (g := Event.forget) (p := fun e => e.handle = h)
      (fun _ => rfl) (fun _ _ => rfl) (fun _ => rfl)
    rw [hd, hd']
    refine ⟨⟨?_, hs.unlink.table, hs.next, hs.count⟩, rfl⟩
    rw [List.map_cons, List.map_cons, hmap, hmap, hf, hes]

end Similar

/-! ## The system -/

/-- Two states of the module that differ in addresses only, with sound chains. -/
structure Alike (m m' : Module φ) : Prop where
  indexed : ∀ w, Indexed (m.queue w)
  indexed' : ∀ w, Indexed (m'.queue w)
  similar : ∀ w, Similar (m.queue w) (m'.queue w)
  stack : m.stack = m'.stack
  ticks : m.ticks = m'.ticks
  trace : m.trace.map (Prod.map id Obs.forget) = m'.trace.map (Prod.map id Obs.forget)

/-- Two calls end in the same fault or in states that are alike. -/
def SameOutcome : Except Fault (Module φ) → Except Fault (Module φ) → Prop
  | .ok m, .ok m' => Alike m m'
  | .error e, .error e' => e = e'
  | _, _ => False

namespace Alike

variable {m m' : Module φ}

theorem refl (h : ∀ w, Indexed (m.queue w)) : Alike m m :=
  ⟨h, h, fun _ => .refl _, rfl, rfl, rfl⟩

theorem see (h : Alike m m') {o o' : Obs φ} (ho : o.forget = o'.forget) :
    Alike (m.see o) (m'.see o') where
  __ := h
  trace := by simp [Module.see, h.trace, h.ticks, ho]

theorem push (h : Alike m m') (f : Frame) : Alike (m.push f) (m'.push f) where
  __ := h
  stack := by simp [Module.push, h.stack]

theorem setQueue (h : Alike m m') {w : Which} {q q' : Queue φ} (hq : Indexed q) (hq' : Indexed q')
    (hs : Similar q q') : Alike (m.setQueue w q) (m'.setQueue w q') where
  __ := h
  indexed w' := by
    by_cases hw : w' = w
    · subst hw; simpa [Module.setQueue] using hq
    · simpa [Module.setQueue, hw] using h.indexed w'
  indexed' w' := by
    by_cases hw : w' = w
    · subst hw; simpa [Module.setQueue] using hq'
    · simpa [Module.setQueue, hw] using h.indexed' w'
  similar w' := by
    by_cases hw : w' = w
    · subst hw; simpa [Module.setQueue] using hs
    · simpa [Module.setQueue, hw] using h.similar w'

theorem perform (h : Alike m m') (w : Which) : Alike (m.perform w) (m'.perform w) := by
  rcases (h.similar w).take with ⟨ht, ht'⟩ | ⟨e, p, e', p', ht, ht', hf, hs⟩
  · simpa [Module.perform, ht, ht'] using h
  · simp only [Module.perform, ht, ht']
    refine ((h.setQueue ((h.indexed w).take ht).1 ((h.indexed' w).take ht').1 hs).push _).see ?_
    simp [Obs.forget, hf]

theorem dispatch (h : Alike m m') (w w' : Which) : Alike (m.dispatch w w') (m'.dispatch w w') :=
  (h.see rfl).perform w'

theorem delete (h : Alike m m') (w : Which) (k : ℤ) : Alike (m.delete w k) (m'.delete w k) := by
  obtain ⟨hs, hagain⟩ := (h.similar w).delete (h := k) (h.indexed w) (h.indexed' w)
  have hset : Alike ((m.setQueue w ((m.queue w).delete k).1).see (.deleted w k))
      ((m'.setQueue w ((m'.queue w).delete k).1).see (.deleted w k)) :=
    (h.setQueue ((h.indexed w).delete k).1 ((h.indexed' w).delete k).1 hs).see rfl
  simp only [Module.delete, hagain]
  split
  · exact hset.dispatch w .quick
  · exact hset

theorem countDown (h : Alike m m') (w : Which) : Alike (m.countDown w) (m'.countDown w) := by
  have hc := (h.similar w).count
  simp only [Module.countDown, ← hc]
  split
  · exact h
  · have hset : Alike (m.setQueue w { m.queue w with count := (m.queue w).count - 1 })
        (m'.setQueue w { m'.queue w with count := (m.queue w).count - 1 }) :=
      h.setQueue ((h.indexed w).congr rfl rfl rfl) ((h.indexed' w).congr rfl rfl rfl)
        ⟨(h.similar w).events, (h.similar w).table, (h.similar w).next, rfl⟩
    split
    · exact hset.dispatch w w
    · exact hset

theorem resume (h : Alike m m') (f : Frame) : Alike (m.resume f) (m'.resume f) := by
  cases f with
  | adding w => exact h.setQueue ((h.indexed w).setUp w) ((h.indexed' w).setUp w) (h.similar w).setUp
  | dispatching w =>
    rw [Module.resume, Module.resume]
    cases he : (m.queue w).events with
    | nil => rw [(h.similar w).events_nil he]; exact h
    | cons e es =>
      obtain ⟨e', es', he', hf, -⟩ := (h.similar w).events_cons he
      have hd : e'.timeFromLast = e.timeFromLast := congrArg (fun e => e.timeFromLast) hf
      simp only [he', hd]
      split
      · exact h.perform w
      · exact h

/-- An add does the same to both, as long as neither runs out of memory alone. -/
theorem add (h : Alike m m') {r : Request φ}
    (hmem : r.memory = true ∨ ∀ w, (m.queue w).free = (m'.queue w).free) :
    SameOutcome (m.add r) (m'.add r) := by
  set w := r.kind.which with hw
  set q := (m.queue w).rebase ((m.queue w).toNextTrigger w) with hq
  set q' := (m'.queue w).rebase ((m'.queue w).toNextTrigger w) with hq'
  have hi : Indexed q := (h.indexed w).rebase
  have hi' : Indexed q' := (h.indexed' w).rebase
  have hs : Similar q q' := by
    rw [hq, hq', (h.similar w).toNextTrigger]
    exact (h.similar w).rebase
  have hfree : (q.free = 0 ∧ r.memory = false) = (q'.free = 0 ∧ r.memory = false) := by
    rcases hmem with hm | hf
    · simp [hm]
    · have : q.free = q'.free := hf w
      rw [this]
  have hticket : (q.ticket r).forget = (q'.ticket r).forget := by
    simp [Ticket.forget, Queue.ticket, hs.nextHandle]
  simp only [Module.add, ← hw, ← hq, ← hq', hfree, hs.holds, hs.nextHandle]
  split
  · exact ((h.setQueue hi hi' hs).push _).see rfl
  · split
    · exact (h.setQueue (hi.setUp w) (hi'.setUp w) hs.setUp).see rfl
    · split
      · rfl
      next hno =>
        have hno' : q'.holds q'.nextHandle = false := by simpa using hno
        refine (h.setQueue ((hi.enqueue ?_).setUp w) ((hi'.enqueue hno').setUp w) hs.enqueue.setUp).see ?_
        · rw [hs.holds, hs.nextHandle, hno']
        · simp [Obs.forget, hticket]

/-- **Every step does the same to states that are alike.** -/
theorem step (h : Alike m m') (op : Op φ)
    (hmem : ∀ r, op = .add r → r.memory = true ∨ ∀ w, (m.queue w).free = (m'.queue w).free) :
    SameOutcome (m.step op) (m'.step op) := by
  cases op with
  | add r => exact h.add (hmem r rfl)
  | delete w k => exact h.delete w k
  | tick =>
    have htick : Alike { m with ticks := m.ticks + 1 }
        { m' with stack := m.stack, ticks := m'.ticks + 1 } :=
      { h with stack := rfl, ticks := congrArg (· + 1) h.ticks }
    simp only [Module.step, ← h.stack]
    split
    · rfl
    · exact htick.countDown .tick
  | jump =>
    simp only [Module.step, ← h.stack]
    split
    · exact h.countDown .quick
    · rfl
  | ret =>
    cases hstack : m.stack with
    | nil =>
      have hstack' : m'.stack = [] := h.stack ▸ hstack
      simp only [Module.step, hstack, hstack']
      rfl
    | cons f stack =>
      have hstack' : m'.stack = f :: stack := h.stack ▸ hstack
      simp only [Module.step, hstack, hstack']
      have hrest : Alike { m with stack } { m' with stack } := { h with stack := rfl }
      exact hrest.resume f

/-- …and so does every run in which memory does not run out. -/
theorem run (h : Alike m m') (ops : List (Op φ)) (hmem : ∀ r, .add r ∈ ops → r.memory = true) :
    SameOutcome (ops.foldlM Module.step m) (ops.foldlM Module.step m') := by
  induction ops generalizing m m' with
  | nil => exact h
  | cons op ops ih =>
    have hstep := h.step op fun r he => .inl (hmem r (he ▸ .head _))
    rw [List.foldlM_cons, List.foldlM_cons]
    cases hr : m.step op with
    | error e =>
      cases hr' : m'.step op with
      | error e' => rw [hr, hr'] at hstep; exact hstep
      | ok t' => rw [hr, hr'] at hstep; exact hstep.elim
    | ok t =>
      cases hr' : m'.step op with
      | error e' => rw [hr, hr'] at hstep; exact hstep.elim
      | ok t' =>
        rw [hr, hr'] at hstep
        exact ih hstep fun r he => hmem r (.tail _ he)

end Alike

/-- The chains of every reachable state are sound. -/
theorem indexed_of_run {ops : List (Op φ)} {m : Module φ}
    (h : ops.foldlM Module.step (Module.init φ) = .ok m) (w : Which) : Indexed (m.queue w) := by
  refine yields_foldlM (I := fun m : Module φ => ∀ w, Indexed (m.queue w)) ?_ (fun _ => .init) m h w
  intro m op hm t ht
  have := (Alike.refl hm).step op fun _ _ => .inr fun _ => rfl
  rw [ht] at this
  exact this.indexed

end SoftPC.QuickEv
