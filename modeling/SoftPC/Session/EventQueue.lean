import SoftPC.KvmBase.Event
import SoftPC.Machinery.Ring
import SoftPC.Session.ControlState
import SoftPC.Machinery.Numerals

/-!
# Session/EventQueue — the growable ring between the session's producers and its control thread

`emulator/session/control.c`, the FIFO and its two fault latches.  Every entry point runs under the
queue's lock, so an interleaving of the producers and the control thread is a list of locked
sections (`Section`); `emulator_session_queue_push_required` and its KVM sibling are two sections
each, and other threads may come between them.

What the host decides — whether an allocation, a signal or a reset succeeds — is an argument of each
section (`Host`).
-/

namespace SoftPC

/-- `emulator_session_component_kind`. -/
inductive ComponentKind where
  | window | vmConsole
  deriving DecidableEq

/-- `emulator_session_event_kind`, with the member of the union each kind reads. -/
inductive SessionEventValue where
  | kvmInput (event : InputEvent)
  | monitorLine (text : List UInt8)
  | runtimeCompleted (state : SessionMachineState)
  | frameCompleted
  | componentCompleted (component : ComponentKind) (present : Bool)
  | brokerCompleted (vmConsoleCurrent : Bool)
  | kvmDeliveryFailed (sourceIdentity : UInt64) (status : Status)
  | queueDeliveryFailed (status : Status)
  | consoleFailed
  deriving DecidableEq

/-- `emulator_session_event`. -/
structure SessionEvent where
  runGeneration : UInt32
  monitorLineRejected : Bool
  value : SessionEventValue
  deriving DecidableEq

/-- The event `lib_allocate_zero` fills fresh cells with. -/
def SessionEvent.zero : SessionEvent := ⟨0, false, .kvmInput ⟨0, 0, .key ⟨0, 0, 0, 0, false⟩⟩⟩

/-- What the host decides in one locked section. -/
structure Host where
  /-- Growth of the ring. -/
  storage : Allocation
  /-- `base_sync_event_signal` succeeds. -/
  signals : Bool
  /-- `base_sync_event_reset` succeeds. -/
  resets : Bool

/-- The FIFO and the fault latches of `emulator_session_queue`. -/
structure EventQueue where
  available : Bool
  events : ℕ → SessionEvent
  first : ℕ
  count : ℕ
  capacity : ℕ
  faults : Fin 2 → SessionEvent
  faultPending : Fin 2 → Bool
  first_lt : first < capacity
  count_le : count ≤ capacity

namespace EventQueue

/-- `EMULATOR_SESSION_EVENT_QUEUE_INITIAL_CAPACITY`. -/
def initialCapacity : ℕ := 64

/-- `emulator_session_queue_initialize`, once its resources exist. -/
def initialized : EventQueue where
  available := false
  events _ := .zero
  first := 0
  count := 0
  capacity := initialCapacity
  faults _ := .zero
  faultPending _ := false
  first_lt := by decide
  count_le := by decide

/-! ## The locked sections -/

/-- The growth branch of `emulator_session_queue_push`; `none` is `LIB_STATUS_NO_MEMORY`. -/
def grow (host : Host) (q : EventQueue) : Option EventQueue :=
  let next := host.storage.doubled q.capacity
  if h : next ≤ q.capacity ∨ host.storage.holds next = false then none
  else
    some { q with
      events := Ring.unwrap .zero q.events q.capacity q.first q.count
      first := 0
      capacity := next
      first_lt := by omega
      count_le := by have := q.count_le; omega }

theorem count_lt_of_grow {host : Host} {q r : EventQueue} (h : q.grow host = some r) :
    r.count < r.capacity := by
  simp only [grow] at h
  split at h
  · cases h
  · cases h
    have := q.count_le
    simp only
    omega

/-- The tail of `emulator_session_queue_push`, with a cell to spare. -/
def store (q : EventQueue) (h : q.count < q.capacity) (event : SessionEvent) : EventQueue :=
  { q with
    available := true
    events := Function.update q.events ((q.first + q.count) % q.capacity) event
    count := q.count + 1
    count_le := h }

/-- A full ring grows first. -/
def room (host : Host) (q : EventQueue) : Option { r : EventQueue // r.count < r.capacity } :=
  if h : q.count = q.capacity then
    match hr : q.grow host with
    | none => none
    | some r => some ⟨r, count_lt_of_grow hr⟩
  else some ⟨q, lt_of_le_of_ne q.count_le h⟩

/-- `emulator_session_queue_push`. -/
def push (host : Host) (q : EventQueue) (event : SessionEvent) : Status × EventQueue :=
  match q.room host with
  | none => (.noMemory, q)
  | some ⟨r, h⟩ => if host.signals then (.ok, r.store h event) else (.ioError, r)

/-- `emulator_session_queue_latch_failure`: each class keeps its first fault. -/
def latchFailure (host : Host) (q : EventQueue) (slot : Fin 2) (event : SessionEvent) :
    EventQueue :=
  { q with
    faults := if q.faultPending slot then q.faults else Function.update q.faults slot event
    faultPending := Function.update q.faultPending slot true
    available := q.available || host.signals }

/-- Where the next event comes from: the FIFO, then the KVM fault (slot 0), then the control fault
(slot 1). -/
inductive Origin where
  | fifo
  | fault (slot : Fin 2)
  deriving DecidableEq

/-- The branch `emulator_session_queue_take` takes. -/
def origin (q : EventQueue) : Option Origin :=
  if q.count ≠ 0 then some .fifo
  else ((List.finRange 2).find? q.faultPending).map .fault

/-- The event an origin holds, and the queue without it. -/
def remove (q : EventQueue) : Origin → SessionEvent × EventQueue
  | .fifo => (q.events q.first,
      { q with
        first := (q.first + 1) % q.capacity
        count := q.count - 1
        first_lt := Nat.mod_lt _ (Nat.zero_lt_of_lt q.first_lt)
        count_le := (Nat.sub_le _ _).trans q.count_le })
  | .fault slot => (q.faults slot,
      { q with faultPending := Function.update q.faultPending slot false })

/-- The drained queue closes its wakeup. -/
def settle (host : Host) (q : EventQueue) : EventQueue :=
  if q.count = 0 ∧ q.faultPending 0 = false ∧ q.faultPending 1 = false ∧ host.resets then
    { q with available := false }
  else q

/-- `emulator_session_queue_take`, with the branch it took. -/
def take (host : Host) (q : EventQueue) : Option (Origin × SessionEvent) × EventQueue :=
  if q.available then
    match q.origin with
    | none => (none, q.settle host)
    | some o => (some (o, (q.remove o).1), (q.remove o).2.settle host)
  else (none, q)

/-- A push whose failure is latched, in a second section. -/
def pushOrLatch (host later : Host) (q : EventQueue) (event : SessionEvent) (slot : Fin 2)
    (failure : Status → SessionEventValue) : Bool × EventQueue :=
  match q.push host event with
  | (.ok, r) => (true, r)
  | (status, r) => (false, r.latchFailure later slot ⟨event.runGeneration, false, failure status⟩)

/-- `emulator_session_queue_push_required`. -/
def pushRequired (host later : Host) (q : EventQueue) (event : SessionEvent) :
    Bool × EventQueue :=
  q.pushOrLatch host later event 1 .queueDeliveryFailed

/-- `emulator_session_queue_push_kvm_for_run`. -/
def pushKvmForRun (host later : Host) (q : EventQueue) (event : InputEvent)
    (runGeneration : UInt32) : Bool × EventQueue :=
  q.pushOrLatch host later ⟨runGeneration, false, .kvmInput event⟩ 0
    (.kvmDeliveryFailed event.sourceIdentity)

/-! ## What each section does to the queued events -/

/-- The queued events, oldest first. -/
def contents (q : EventQueue) : List SessionEvent :=
  Ring.window q.events q.capacity q.first q.count

/-- The fault a class holds. -/
def fault (q : EventQueue) (slot : Fin 2) : Option SessionEvent :=
  if q.faultPending slot then some (q.faults slot) else none

/-- Something is waiting to be taken. -/
def Waiting (q : EventQueue) : Prop := q.contents ≠ [] ∨ ∃ slot, q.faultPending slot = true

theorem contents_eq_nil {q : EventQueue} : q.contents = [] ↔ q.count = 0 := by
  rw [← List.length_eq_zero_iff, contents, Ring.window_length]

theorem waiting_iff (q : EventQueue) :
    q.Waiting ↔ ¬ (q.count = 0 ∧ q.faultPending 0 = false ∧ q.faultPending 1 = false) := by
  simp only [Waiting, ne_eq, contents_eq_nil, Fin.exists_fin_two]
  grind -linarith

theorem grow_spec {host : Host} {q r : EventQueue} (h : q.grow host = some r) :
    r.contents = q.contents ∧ r.fault = q.fault ∧ r.faultPending = q.faultPending ∧
      r.available = q.available := by
  simp only [grow] at h
  split at h
  · cases h
  · cases h
    refine ⟨Ring.window_unwrap _ _ _ _ _ ?_, rfl, rfl, rfl⟩
    have := q.count_le
    simp only
    omega

theorem room_spec {host : Host} {q : EventQueue} {r} (h : q.room host = some r) :
    r.1.contents = q.contents ∧ r.1.fault = q.fault ∧ r.1.faultPending = q.faultPending ∧
      r.1.available = q.available := by
  unfold room at h
  split at h
  · split at h
    · cases h
    · rename_i hr
      cases h
      exact grow_spec hr
  · cases h
    exact ⟨rfl, rfl, rfl, rfl⟩

theorem contents_store (q : EventQueue) (h : q.count < q.capacity) (event : SessionEvent) :
    (q.store h event).contents = q.contents ++ [event] :=
  Ring.window_push q.events h event

/-- **A push appends or changes nothing that is queued**, and leaves the faults alone. -/
theorem push_spec (host : Host) (q : EventQueue) (event : SessionEvent) :
    (q.push host event).2.contents
        = q.contents ++ (if (q.push host event).1 = .ok then [event] else []) ∧
      (q.push host event).2.fault = q.fault ∧
      (q.push host event).2.faultPending = q.faultPending ∧
      ((q.push host event).2.available
        = if (q.push host event).1 = .ok then true else q.available) := by
  unfold push
  split
  · simp
  · rename_i r h hr
    obtain ⟨hc, hf, hp, ha⟩ := room_spec hr
    split
    · exact ⟨by rw [contents_store]; simpa using hc, hf, hp, by simp [store]⟩
    · exact ⟨by simpa using hc, hf, hp, by simpa using ha⟩

/-- **A latch keeps the first fault of its class.** -/
theorem fault_latchFailure (host : Host) (q : EventQueue) (slot : Fin 2) (event : SessionEvent) :
    (q.latchFailure host slot event).fault
      = Function.update q.fault slot (some ((q.fault slot).getD event)) := by
  ext1 s
  unfold fault latchFailure
  by_cases hs : s = slot
  · subst hs
    cases q.faultPending s <;> simp
  · cases q.faultPending slot <;> simp [hs]

@[simp] theorem contents_settle (host : Host) (q : EventQueue) :
    (q.settle host).contents = q.contents := by
  unfold settle
  split <;> rfl

@[simp] theorem fault_settle (host : Host) (q : EventQueue) :
    (q.settle host).fault = q.fault := by
  unfold settle
  split <;> rfl

/-- **The branch taken**: the FIFO while it has events, then KVM, then control. -/
theorem origin_cases (q : EventQueue) :
    (q.origin = some .fifo ∧ q.count ≠ 0) ∨
    (q.origin = some (.fault 0) ∧ q.count = 0 ∧ q.faultPending 0 = true) ∨
    (q.origin = some (.fault 1) ∧ q.count = 0 ∧ q.faultPending 0 = false ∧
      q.faultPending 1 = true) ∨
    (q.origin = none ∧ q.count = 0 ∧ q.faultPending 0 = false ∧ q.faultPending 1 = false) := by
  unfold origin
  by_cases hc : q.count = 0
  · cases h0 : q.faultPending 0 <;> cases h1 : q.faultPending 1 <;>
      simp [hc, List.finRange_succ, h0, h1]
  · simp [hc]

theorem contents_remove_fifo {q : EventQueue} (h : q.count ≠ 0) :
    q.contents = (q.remove .fifo).1 :: (q.remove .fifo).2.contents := by
  obtain ⟨n, hn⟩ := Nat.exists_eq_succ_of_ne_zero h
  have hpop := Ring.window_pop q.events q.capacity q.first n
  rw [Nat.mod_eq_of_lt q.first_lt] at hpop
  simp only [contents, remove, hn]
  exact hpop

theorem fault_remove_fault (q : EventQueue) (slot : Fin 2) :
    (q.remove (.fault slot)).2.fault = Function.update q.fault slot none := by
  ext1 s
  by_cases hs : s = slot
  · subst hs
    simp [remove, fault]
  · simp [remove, fault, hs]

/-- **A removal takes the oldest event of its origin and nothing else.** -/
theorem remove_spec {q : EventQueue} {o : Origin} (ho : q.origin = some o) :
    q.contents = (if o = .fifo then [(q.remove o).1] else []) ++ (q.remove o).2.contents ∧
    ∀ slot, (q.fault slot).toList
      = (if o = .fault slot then [(q.remove o).1] else []) ++ ((q.remove o).2.fault slot).toList := by
  have hfault : ∀ slot, q.faultPending slot = true → o = .fault slot → ∀ s,
      (q.fault s).toList
        = (if o = .fault s then [(q.remove o).1] else []) ++ ((q.remove o).2.fault s).toList := by
    rintro slot hp rfl s
    rw [fault_remove_fault]
    by_cases hs : slot = s
    · subst hs
      simp [fault, remove, hp]
    · simp [hs, Ne.symm hs]
  rcases origin_cases q with ⟨h, hn⟩ | ⟨h, -, hp⟩ | ⟨h, -, -, hp⟩ | ⟨h, -⟩ <;>
    rw [ho] at h
  · obtain rfl := Option.some.inj h
    exact ⟨by simpa using contents_remove_fifo hn, fun slot => rfl⟩
  · obtain rfl := Option.some.inj h
    exact ⟨rfl, hfault 0 hp rfl⟩
  · obtain rfl := Option.some.inj h
    exact ⟨rfl, hfault 1 hp rfl⟩
  · cases h

/-! ## Histories -/

/-- One locked section of any thread. -/
inductive Section where
  | push (event : SessionEvent)
  | latch (slot : Fin 2) (event : SessionEvent)
  | take

/-- A queue with everything it accepted and everything taken from it. -/
structure History where
  queue : EventQueue
  accepted : List SessionEvent
  latched : Fin 2 → List SessionEvent
  taken : List (Origin × SessionEvent)

/-- What was taken from one origin, in order. -/
def takenFrom (taken : List (Origin × SessionEvent)) (o : Origin) : List SessionEvent :=
  (taken.filter (·.1 = o)).map (·.2)

theorem takenFrom_append (taken : List (Origin × SessionEvent)) (o p : Origin)
    (e : SessionEvent) :
    takenFrom (taken ++ [(p, e)]) o = takenFrom taken o ++ if p = o then [e] else [] := by
  by_cases h : p = o <;> simp [takenFrom, h]

namespace History

/-- One section, recorded. -/
def step (h : History) : Host × Section → History
  | (host, .push event) =>
    { h with
      queue := (h.queue.push host event).2
      accepted := h.accepted ++ if (h.queue.push host event).1 = .ok then [event] else [] }
  | (host, .latch slot event) =>
    { h with
      queue := h.queue.latchFailure host slot event
      latched := Function.update h.latched slot
        (h.latched slot ++ if h.queue.faultPending slot then [] else [event]) }
  | (host, .take) =>
    { h with
      queue := (h.queue.take host).2
      taken := h.taken ++ (h.queue.take host).1.toList }

/-- Any interleaving of the threads' sections, from a fresh queue. -/
def run (sections : List (Host × Section)) : History :=
  sections.foldl step ⟨.initialized, [], fun _ => [], []⟩

theorem run_append_singleton (sections : List (Host × Section)) (c : Host × Section) :
    run (sections ++ [c]) = (run sections).step c := by
  rw [run, List.foldl_append, ← run]
  rfl

/-- The producers' entry points are runs of sections, so what holds of every run holds across them,
whatever the other threads do in between. -/
theorem pushOrLatch_sections (sections : List (Host × Section)) (host later : Host)
    (event : SessionEvent) (slot : Fin 2) (failure : Status → SessionEventValue) :
    ∃ more, (run (sections ++ more)).queue
      = ((run sections).queue.pushOrLatch host later event slot failure).2 := by
  unfold pushOrLatch
  cases hp : (run sections).queue.push host event with
  | mk status r =>
    have hpush : (run (sections ++ [(host, .push event)])).queue = r := by
      rw [run_append_singleton]
      exact congrArg Prod.snd hp
    by_cases hs : status = .ok
    · exact ⟨[(host, .push event)], by subst hs; exact hpush⟩
    · refine ⟨[(host, .push event)] ++
        [(later, .latch slot ⟨event.runGeneration, false, failure status⟩)], ?_⟩
      rw [← List.append_assoc, run_append_singleton]
      simp only [step, hpush]

/-- **The conservation invariant**: every accepted event and every first fault has been taken, in
order, or is still there. -/
structure Conserved (h : History) : Prop where
  fifo : h.accepted = takenFrom h.taken .fifo ++ h.queue.contents
  faults : ∀ slot, h.latched slot = takenFrom h.taken (.fault slot) ++ (h.queue.fault slot).toList

theorem Conserved.push {h : History} (hc : h.Conserved) (host : Host) (event : SessionEvent) :
    (h.step (host, .push event)).Conserved := by
  obtain ⟨hcont, hfault, -, -⟩ := push_spec host h.queue event
  refine ⟨?_, fun slot => ?_⟩
  · simp only [step]
    rw [hcont, hc.fifo, List.append_assoc]
  · simp only [step]
    rw [hfault, hc.faults slot]

theorem Conserved.latch {h : History} (hc : h.Conserved) (host : Host) (slot : Fin 2)
    (event : SessionEvent) : (h.step (host, .latch slot event)).Conserved := by
  refine ⟨hc.fifo, fun s => ?_⟩
  simp only [step, fault_latchFailure]
  by_cases hs : s = slot
  · subst hs
    rw [Function.update_self, Function.update_self, hc.faults s, fault]
    cases h.queue.faultPending s <;> simp
  · rw [Function.update_of_ne hs, Function.update_of_ne hs, hc.faults s]

theorem Conserved.take {h : History} (hc : h.Conserved) (host : Host) :
    (h.step (host, .take)).Conserved := by
  simp only [step]
  unfold EventQueue.take
  by_cases ha : h.queue.available = true
  · rw [if_pos ha]
    cases ho : h.queue.origin with
    | none => exact ⟨by simpa using hc.fifo, by simpa using hc.faults⟩
    | some o =>
      obtain ⟨hcont, hfault⟩ := remove_spec ho
      refine ⟨?_, fun slot => ?_⟩
      · simp only [Option.toList_some, takenFrom_append, contents_settle, List.append_assoc]
        rw [← hcont, hc.fifo]
      · simp only [Option.toList_some, takenFrom_append, fault_settle, List.append_assoc]
        rw [← hfault, hc.faults]
  · simpa [ha] using ⟨hc.fifo, hc.faults⟩

theorem Conserved.step {h : History} (hc : h.Conserved) (c : Host × Section) :
    (h.step c).Conserved := by
  obtain ⟨host, s⟩ := c
  cases s with
  | push event => exact hc.push host event
  | latch slot event => exact hc.latch host slot event
  | take => exact hc.take host

theorem conserved_run (sections : List (Host × Section)) : (run sections).Conserved :=
  List.foldlRecOn sections History.step
    ⟨rfl, fun slot => by simp [takenFrom, fault, initialized]⟩ fun _ hc c _ => hc.step c

/-! ## The wakeup -/

/-- The wakeup is signalled exactly when something is waiting. -/
def Awake (q : EventQueue) : Prop := q.available = true ↔ q.Waiting

theorem awake_settle {host : Host} (hr : host.resets = true) {q : EventQueue}
    (ha : q.available = true) : Awake (q.settle host) := by
  unfold settle
  split
  · rename_i hc
    have hquiet : ¬ q.Waiting := fun hw => (waiting_iff q).mp hw ⟨hc.1, hc.2.1, hc.2.2.1⟩
    exact ⟨fun h => absurd h (by simp), fun h => absurd h hquiet⟩
  · rename_i hc
    refine ⟨fun _ => (waiting_iff q).mpr fun hq => hc ⟨hq.1, hq.2.1, hq.2.2, hr⟩, fun _ => ha⟩

/-- **A section whose signal and reset reach the host keeps the wakeup true.** -/
theorem awake_step {h : History} (ha : Awake h.queue) {c : Host × Section}
    (hs : c.1.signals = true) (hr : c.1.resets = true) : Awake (h.step c).queue := by
  obtain ⟨host, s⟩ := c
  cases s with
  | push event =>
    obtain ⟨hcont, -, hpend, havail⟩ := push_spec host h.queue event
    simp only [Awake, History.step, Waiting, havail, hcont, hpend]
    split
    · simp
    · simpa [Awake, Waiting] using ha
  | latch slot event =>
    have hw : (h.queue.latchFailure host slot event).Waiting := .inr ⟨slot, by simp [latchFailure]⟩
    have hon : (h.queue.latchFailure host slot event).available = true := by
      simpa [latchFailure] using .inr hs
    exact ⟨fun _ => hw, fun _ => hon⟩
  | take =>
    simp only [History.step]
    unfold EventQueue.take
    by_cases hav : h.queue.available = true
    · rw [if_pos hav]
      cases h.queue.origin with
      | none => exact awake_settle hr hav
      | some o => cases o <;> exact awake_settle hr hav
    · rwa [if_neg hav]

theorem awake_run {sections : List (Host × Section)}
    (hok : ∀ c ∈ sections, c.1.signals = true ∧ c.1.resets = true) :
    Awake (run sections).queue := by
  refine List.foldlRecOn sections History.step (motive := fun h => Awake h.queue) ?_ ?_
  · simp [Awake, Waiting, initialized, contents]
  · exact fun h ha c hc => awake_step ha (hok c hc).1 (hok c hc).2

/-- **Every accepted event is delivered exactly once, in order.**  Over any interleaving of locked
sections, with allocations failing anywhere: what was accepted is what was taken from the FIFO and
then what is queued; a push that fails changes nothing of it; each class's first faults are taken once,
in order, only from an empty FIFO, the control fault after the KVM fault; and while the host's signals
and resets succeed, the wakeup stands exactly when the next take returns something. -/
theorem queue_exactly_once (sections : List (Host × Section)) :
    let h := run sections
    let q := h.queue
    h.accepted = takenFrom h.taken .fifo ++ q.contents ∧
    (∀ slot, h.latched slot = takenFrom h.taken (.fault slot) ++ (q.fault slot).toList) ∧
    (∀ host event, (q.push host event).1 ≠ .ok →
      (q.push host event).2.contents = q.contents ∧ (q.push host event).2.fault = q.fault) ∧
    (∀ host slot event, (q.latchFailure host slot event).fault slot
        = some ((q.fault slot).getD event) ∧
      (q.latchFailure host slot event).contents = q.contents) ∧
    (∀ host slot event, (q.take host).1 = some (.fault slot, event) →
      q.contents = [] ∧ q.fault slot = some event ∧ (slot = 1 → q.fault 0 = none)) ∧
    ((∀ c ∈ sections, c.1.signals = true ∧ c.1.resets = true) →
      (q.available = true ↔ q.contents ≠ [] ∨ ∃ slot, (q.fault slot).isSome) ∧
      ∀ host, (q.take host).1.isSome ↔ q.contents ≠ [] ∨ ∃ slot, (q.fault slot).isSome) := by
  intro h q
  have hc := conserved_run sections
  have hsome : ∀ slot, (q.fault slot).isSome ↔ q.faultPending slot = true := by
    intro slot
    cases hp : q.faultPending slot <;> simp [fault, hp]
  refine ⟨hc.fifo, hc.faults, fun host event hfail => ?_, fun host slot event => ⟨?_, rfl⟩,
    fun host slot event htake => ?_, fun hok => ?_⟩
  · obtain ⟨hcont, hfault, -⟩ := push_spec host q event
    exact ⟨by simpa [hfail] using hcont, hfault⟩
  · rw [fault_latchFailure, Function.update_self]
  · unfold EventQueue.take at htake
    split at htake
    · rcases origin_cases q with ⟨ho, -⟩ | ⟨ho, hn, h0⟩ | ⟨ho, hn, h0, h1⟩ | ⟨ho, -⟩ <;>
        simp only [ho, remove, Option.some.injEq, Prod.mk.injEq, Origin.fault.injEq,
          reduceCtorEq, false_and] at htake
      · obtain ⟨rfl, rfl⟩ := htake
        exact ⟨contents_eq_nil.2 hn, by simp [fault, h0], by simp⟩
      · obtain ⟨rfl, rfl⟩ := htake
        exact ⟨contents_eq_nil.2 hn, by simp [fault, h1], by simp [fault, h0]⟩
    · cases htake
  · have ha : Awake q := awake_run hok
    simp only [hsome]
    refine ⟨ha, fun host => ?_⟩
    change _ ↔ q.Waiting
    rw [← show q.available = true ↔ q.Waiting from ha]
    unfold EventQueue.take
    split
    · rename_i hav
      have hw := (waiting_iff q).mp (ha.mp hav)
      rcases origin_cases q with ⟨ho, -⟩ | ⟨ho, -⟩ | ⟨ho, -⟩ | ⟨-, hnone⟩
      · simp [ho, hav]
      · simp [ho, hav]
      · simp [ho, hav]
      · exact absurd hnone hw
    · rename_i hav
      simp [hav]

/-- A pushed event wakes the control thread, which takes it. -/
theorem queue_exactly_once_pushed :
    let host : Host := ⟨⟨2 ^ 64 - 1, 4200, true⟩, true, true⟩
    let q := (run [(host, .push ⟨1, false, .frameCompleted⟩)]).queue
    q.available = true ∧ (q.take host).1.isSome = true := by
  intro host q
  have h := (queue_exactly_once [(host, .push ⟨1, false, .frameCompleted⟩)]).2.2.2.2.2 (by simp [host])
  have hq : q.contents ≠ [] := by decide
  exact ⟨h.1.mpr (.inl hq), (h.2 host).mpr (.inl hq)⟩

end History

end EventQueue

end SoftPC
