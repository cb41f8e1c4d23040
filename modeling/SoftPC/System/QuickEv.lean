import SoftPC.Machinery.DeltaList

/-!
# System/QuickEv — the quick-event and tick-event lists

    add_event ──▸ time-ordered list + hash chain ──count reaches 0──▸ dispatch_event ──▸ callback
                                  ▴ delete_event                                           │
                                  └────────────── adds and deletes ────────────────────────┘

`base/system/quick_ev.c` in the CCPU build.  Two lists, each with a hash table over its handles and a
counter: the CPU's heartbeat for quick events, in jumps, and `tic_event_count` for tick events.  Only
the head's wait is counted down; every other event holds the time from its predecessor.

A callback is opaque, and what it calls are the next steps of the run: a stack of frames remembers the
dispatch loop or the add that goes on when it returns.  An add that would issue a handle an event on the
list still has stops the model: from there on the code's chains and its free list run together.
-/

namespace SoftPC.QuickEv

inductive EventType
  | time
  | instructions
  | tick
  deriving DecidableEq

/-- The two lists. -/
inductive Which
  | quick
  | tick
  deriving DecidableEq

/-- The list an event of each type is on. -/
def EventType.which : EventType → Which
  | .tick => .tick
  | _ => .quick

/-- What a node of the list keeps from its add to its call.  `node` is its place in the order of the
adds to its list, which stands for its address. -/
structure Ticket (φ : Type*) where
  node : ℕ
  handle : ℤ
  func : φ
  param : BitVec 32
  eventType : EventType
  deriving DecidableEq

/-- `Q_EVENT`, without its links. -/
structure Event (φ : Type*) extends Ticket φ where
  timeFromLast : BitVec 32
  originalTime : BitVec 32
  deriving DecidableEq

/-- The time-ordered list is a list of waits. -/
@[simps key wait] def coding (φ : Type*) : DeltaCode (Event φ) (Ticket φ) 32 where
  key := Event.toTicket
  wait := Event.timeFromLast
  setWait d e := { e with timeFromLast := d }
  wait_setWait _ _ := rfl
  key_setWait _ _ := rfl

@[simp] theorem coding_setWait_timeFromLast {φ : Type*} (d : BitVec 32) (e : Event φ) :
    ((coding φ).setWait d e).timeFromLast = d := rfl

/-- `handle & HASH_MASK`. -/
def bucket (handle : ℤ) : Fin 16 := ⟨(handle % 16).toNat, by omega⟩

/-- One list: its events in time order, its hash chains (the same nodes, linked by `next_free`), the next
handle, the nodes on the free list, the counter, and the number of handles it has issued. -/
structure Queue (φ : Type*) where
  events : List (Event φ) := []
  table : Fin 16 → List (Ticket φ) := fun _ => []
  nextFreeHandle : ℤ := 1
  free : ℕ := 0
  count : BitVec 32 := 0
  issued : ℕ := 0

/-- `calc_q_inst_for_time` and `calc_q_time_for_inst`, uncalibrated. -/
def instForTime (time : BitVec 32) : BitVec 32 := time / 10

def timeForInst (inst : BitVec 32) : BitVec 32 := inst * 10

/-- `scale_func` and `unscale_func` of `delete_event`. -/
def EventType.scale : EventType → BitVec 32 → BitVec 32
  | .tick, x => x
  | _, x => instForTime x

def EventType.unscale : EventType → BitVec 32 → BitVec 32
  | .tick, x => x
  | _, x => timeForInst x

/-- A delay of zero jumps would be ignored. -/
def actionable (jumps : BitVec 32) : BitVec 32 := if jumps = 0 then 1 else jumps

/-- The arguments of an add, and whether `host_malloc` would give it a node. -/
structure Request (φ : Type*) where
  kind : EventType
  func : φ
  time : BitVec 32
  param : BitVec 32 := 0
  memory : Bool := true
  deriving DecidableEq

namespace Queue

variable {φ : Type*} (q : Queue φ)

/-! ## Adding -/

/-- `handle = (*free_handle)++`, 0 and 0xffff skipped. -/
def nextHandle : ℤ :=
  if q.nextFreeHandle = 0 ∨ q.nextFreeHandle = 0xffff then 1 else q.nextFreeHandle

/-- The handle is one of an event on the list. -/
def holds (handle : ℤ) : Bool := (q.table (bucket handle)).any fun t => t.handle = handle

/-- The head of `add_event`. -/
def rebase (timeToNextTrigger : BitVec 32) : Queue φ :=
  { q with events := (coding φ).rebase timeToNextTrigger q.events }

/-- The node a request gets. -/
def ticket (r : Request φ) : Ticket φ := ⟨q.issued, q.nextHandle, r.func, r.param, r.kind⟩

/-- The rest of `add_event`: the new node at the end of its chain and in its place in time. -/
def enqueue (r : Request φ) : Queue φ :=
  { q with
    events := (coding φ).insert (fun wait => ⟨q.ticket r, wait, wait⟩) r.time 0 q.events
    table := Function.update q.table (bucket q.nextHandle)
      (q.table (bucket q.nextHandle) ++ [q.ticket r])
    nextFreeHandle := q.nextHandle + 1
    free := q.free - 1
    issued := q.issued + 1 }

/-- `time_to_next_trigger`, as the two adds compute it. -/
def toNextTrigger : Which → BitVec 32
  | .quick => timeForInst q.count
  | .tick => q.count

/-- The counter the two adds set for the head of the list. -/
def triggerCount : Which → Event φ → BitVec 32
  | .tick, e => e.timeFromLast
  | .quick, e =>
    if e.originalTime < e.timeFromLast then 1 else actionable (instForTime e.timeFromLast)

/-- The end of the two adds. -/
def setUp (w : Which) : Queue φ :=
  match q.events with
  | [] => q
  | e :: _ => { q with count := triggerCount w e }

/-! ## Dispatching and deleting -/

/-- The first node of the handle's chain with that handle, unlinked. -/
def unlink (handle : ℤ) : Queue φ :=
  { q with
    table := Function.update q.table (bucket handle)
      ((q.table (bucket handle)).eraseP fun t => t.handle = handle)
    free := q.free + 1 }

/-- The counter `dispatch_event` sets for a new head. -/
def countFor (e : Event φ) : BitVec 32 :=
  match e.eventType with
  | .tick => e.timeFromLast
  | _ => actionable (instForTime e.timeFromLast)

/-- The body of the loop of `dispatch_event`, up to the call. -/
def take : Option (Event φ × Queue φ) :=
  match q.events with
  | [] => none
  | [e] => some (e, { q with events := [] }.unlink e.handle)
  | e :: n :: es => some (e, { q with events := n :: es, count := countFor n }.unlink e.handle)

/-- `delete_event` for the head: the queue, and whether it calls `dispatch_q_event`. -/
def deleteHead (e : Event φ) : List (Event φ) → Queue φ × Bool
  | [] => ({ q with events := [], count := 0 }, false)
  | n :: es =>
    let wait := n.timeFromLast + e.timeFromLast
    let counted := e.timeFromLast - e.eventType.scale q.count
    if wait ≤ counted then
      ({ q with events := { n with timeFromLast := wait } :: es }, true)
    else
      ({ q with
          events := { n with timeFromLast := wait - counted } :: es
          count := e.eventType.unscale (wait - counted) }, false)

/-- `delete_event`. -/
def delete (handle : ℤ) : Queue φ × Bool :=
  if handle = 0 then (q, false)
  else
    match (q.table (bucket handle)).find? fun t => t.handle = handle with
    | none => (q, false)
    | some t =>
      match q.events with
      | [] => (q.unlink handle, false)
      | e :: es =>
        if e.node = t.node then (q.unlink handle).deleteHead e es
        else
          ({ q.unlink handle with events := (coding φ).remove (fun e => e.node = t.node) (e :: es) },
            false)

end Queue

/-! ## The system -/

/-- A call in progress: a dispatch loop, or an add whose event was due at once. -/
inductive Frame
  | dispatching (w : Which)
  | adding (w : Which)
  deriving DecidableEq

/-- The list a frame is a call of. -/
def Frame.which : Frame → Which
  | .dispatching w => w
  | .adding w => w

/-- What can be seen of the module, each with the number of the tick it happens at. -/
inductive Obs (φ : Type*)
  /-- An add returns a handle. -/
  | added (t : Ticket φ) (time : BitVec 32)
  /-- An add calls its function at once. -/
  | atOnce (r : Request φ)
  /-- An add returns 0xffff. -/
  | noMemory (r : Request φ)
  /-- A delete is asked for a handle. -/
  | deleted (w : Which) (handle : ℤ)
  /-- An operation on one list starts dispatching a list. -/
  | dispatched (on of : Which)
  /-- A dispatch calls an event's function. -/
  | called (t : Ticket φ)
  deriving DecidableEq

/-- The module, its calls in progress, the ticks so far and what was seen. -/
structure Module (φ : Type*) where
  queue : Which → Queue φ := fun _ => {}
  stack : List Frame := []
  ticks : ℕ := 0
  trace : List (ℕ × Obs φ) := []

/-- `q_event_init` and `tic_event_init`. -/
def Module.init (φ : Type*) : Module φ := {}

/-- What the module is told to do, from outside or by a callback. -/
inductive Op (φ : Type*)
  /-- `add_q_event_t`, `add_q_event_i` or `add_tic_event`. -/
  | add (r : Request φ)
  /-- `delete_q_event` or `delete_tic_event`. -/
  | delete (w : Which) (handle : ℤ)
  /-- `dispatch_tic_event`. -/
  | tick
  /-- `QUICK_EVENT_TICK`, between two instructions. -/
  | jump
  /-- The callback in progress returns. -/
  | ret
  deriving DecidableEq

/-- Why the model stops. -/
inductive Fault
  /-- A return with no callback, a tick in a callback of the tick list or a jump in any callback. -/
  | outOfTurn
  /-- The handle to be issued is on the list. -/
  | handleHeld
  deriving DecidableEq

namespace Module

variable {φ : Type*} (m : Module φ)

@[simps] def setQueue (w : Which) (q : Queue φ) : Module φ := { m with queue := Function.update m.queue w q }

@[simps] def push (f : Frame) : Module φ := { m with stack := f :: m.stack }

@[simps] def see (o : Obs φ) : Module φ := { m with trace := m.trace ++ [(m.ticks, o)] }

/-- One turn of the loop of `dispatch_event`. -/
def perform (w : Which) : Module φ :=
  match (m.queue w).take with
  | none => m
  | some (e, q) => ((m.setQueue w q).push (.dispatching w)).see (.called e.toTicket)

/-- `dispatch_q_event`, or the call of `dispatch_event` in `dispatch_tic_event`. -/
def dispatch (on of : Which) : Module φ := (m.see (.dispatched on of)).perform of

/-- `add_q_event_t`, `add_q_event_i`, `add_tic_event`. -/
def add (r : Request φ) : Except Fault (Module φ) :=
  let w := r.kind.which
  let q := (m.queue w).rebase ((m.queue w).toNextTrigger w)
  if r.time = 0 then .ok (((m.setQueue w q).push (.adding w)).see (.atOnce r))
  else if q.free = 0 ∧ r.memory = false then .ok ((m.setQueue w (q.setUp w)).see (.noMemory r))
  else if q.holds q.nextHandle then .error .handleHeld
  else .ok ((m.setQueue w ((q.enqueue r).setUp w)).see (.added (q.ticket r) r.time))

/-- `delete_q_event`, `delete_tic_event`: the list of quick events is the one dispatched. -/
def delete (w : Which) (handle : ℤ) : Module φ :=
  let (q, again) := (m.queue w).delete handle
  let m := (m.setQueue w q).see (.deleted w handle)
  if again then m.dispatch w .quick else m

/-- The counter of a list goes down by one, and at zero the list is dispatched. -/
def countDown (w : Which) : Module φ :=
  let q := m.queue w
  if q.count = 0 then m
  else
    let m := m.setQueue w { q with count := q.count - 1 }
    if q.count - 1 = 0 then m.dispatch w w else m

/-- What a frame does when its callback returns. -/
def resume : Frame → Module φ
  | .adding w => m.setQueue w ((m.queue w).setUp w)
  | .dispatching w =>
    match (m.queue w).events with
    | [] => m
    | e :: _ => if e.timeFromLast = 0 then m.perform w else m

def step : Op φ → Except Fault (Module φ)
  | .add r => m.add r
  | .delete w handle => .ok (m.delete w handle)
  | .tick =>
    if m.stack.any fun f => f.which = .tick then .error .outOfTurn
    else .ok ({ m with ticks := m.ticks + 1 }.countDown .tick)
  | .jump => if m.stack = [] then .ok (m.countDown .quick) else .error .outOfTurn
  | .ret =>
    match m.stack with
    | [] => .error .outOfTurn
    | f :: stack => .ok ({ m with stack }.resume f)

end Module

end SoftPC.QuickEv
