import SoftPC.Lib.Types
import Mathlib.Data.List.Induction
import Mathlib.Tactic.Common
import Mathlib.Algebra.GroupWithZero.Nat

/-!
# App/Debug — the execution plan of the debugger

`app-softpc/machine/debug.c` and its users in `driver.c`.  The CPU reports each instruction as it
begins, each operand access, and each retirement; the plan (a trace count or a breakpoint) and the
three watches decide at which beginning the machine stops.  `CS_BASE + EIP` is an argument.

The result (`plan_stops_where_asked`) compares the machine with a reading of the event history that
knows nothing of pending hits, skip flags or counters (`Due`).
-/

namespace SoftPC.Debug

/-- `x86_debug_execution_plan_kind`. -/
inductive PlanKind where
  | none | trace | breakReal | breakLinear
  deriving DecidableEq

/-- `kind >= X86_DEBUG_EXECUTION_BREAK_REAL`. -/
def PlanKind.breaks : PlanKind → Bool
  | .breakReal | .breakLinear => true
  | _ => false

/-- `x86_debug_watch_kind`. -/
inductive WatchKind where
  | read | write | execute
  deriving DecidableEq

structure Watch where
  enabled : Bool := false
  address : UInt32 := 0
  deriving DecidableEq

/-- `x86_debug_memory_access`. -/
structure MemoryAccess where
  write : Bool
  linear : UInt32
  bytes : UInt32
  data : UInt64
  deriving DecidableEq

/-- `X86_DEBUG_ACCESS_CAPACITY`. -/
def accessCapacity : ℕ := 32

/-- `x86_debug_observation`; `count` is the length of `accesses`. -/
structure Observation where
  accesses : List MemoryAccess := []
  truncated : Bool := false
  watchHit : Bool := false
  watchKind : WatchKind := .read
  watchAddress : UInt32 := 0
  deriving DecidableEq

/-- `softpc_debug_state`. -/
structure State where
  kind : PlanKind := .none
  targetCount : UInt64 := 0
  address : UInt32 := 0
  executed : UInt32 := 0
  stoppedAddress : UInt32 := 0
  stopPending : Bool := false
  resultReady : Bool := false
  skipFirst : Bool := false
  inInstruction : Bool := false
  watches : WatchKind → Watch := fun _ => {}
  observation : Observation := {}

/-- The arguments of `softpc_host_debug_access`; `data` is the buffer behind the pointer. -/
structure Access where
  address : UInt64
  bytes : UInt64
  write : Bool
  data : ℕ → UInt8
  reversed : Bool

/-- The watch an access is held against. -/
def Access.kind (x : Access) : WatchKind := if x.write then .write else .read

/-- The lowest-addressed up to eight bytes, little endian. -/
def Access.value (x : Access) : UInt64 :=
  (List.range (min x.bytes.toNat 8)).foldl (fun value index =>
    value ||| (x.data (if x.reversed then x.bytes.toNat - 1 - index else index)).toUInt64 <<<
      (index * 8).toUInt64) 0

namespace State

variable (s : State)

/-- One of the three watches is enabled. -/
def watching : Bool :=
  (s.watches .read).enabled || (s.watches .write).enabled || (s.watches .execute).enabled

/-- There is a plan or a watch. -/
def active : Bool := s.kind ≠ .none || s.watching

/-- The end of `softpc_host_debug_begin`: the machine stops here. -/
def stop (address : UInt32) : State :=
  { s with
    inInstruction := false
    stoppedAddress := address
    skipFirst := true
    resultReady := true
    stopPending := true
    kind := .none }

/-- `softpc_host_debug_begin`: whether the machine stops, before the executor is told. -/
def begin (address : UInt32) : Bool × State :=
  if s.kind = .none && !s.stopPending && !s.watching then (false, { s with inInstruction := false })
  else
    let skip := s.skipFirst && s.stoppedAddress == address
    let s := { s with skipFirst := false }
    if s.stopPending then (true, s.stop address)
    else
      let s := { s with observation := {}, resultReady := false }
      if !skip && (s.watches .execute).enabled && (s.watches .execute).address == address then
        (true, { s with observation :=
          { watchHit := true, watchKind := .execute, watchAddress := address } }.stop address)
      else if skip || !s.kind.breaks || address != s.address then
        (false, { s with inInstruction := true })
      else (true, s.stop address)

/-- The instruction counter, which saturates. -/
def tally : UInt32 := if s.executed ≠ 0xffffffff then s.executed + 1 else s.executed

/-- `softpc_host_debug_retired`. -/
def retired : State :=
  if s.kind = .none && !s.watching then { s with inInstruction := false }
  else
    { s with
      inInstruction := false
      executed := s.tally
      stopPending := s.stopPending || (s.kind = .trace && s.targetCount ≤ s.tally.toUInt64) ||
        s.observation.watchHit }

/-- The watch test of `softpc_host_debug_access`: `(lib_u32)(watch - address) < bytes`. -/
def covers (x : Access) : Bool :=
  (s.watches x.kind).enabled &&
    ((s.watches x.kind).address - x.address.toUInt32).toNat < x.bytes.toNat

/-- The hit of an access is recorded, if it is the first. -/
def noteHit (x : Access) : Observation :=
  if s.covers x && !s.observation.watchHit then
    { s.observation with
      watchHit := true
      watchKind := x.kind
      watchAddress := (s.watches x.kind).address }
  else s.observation

/-- The access itself is recorded, while there is room. -/
def noteAccess (o : Observation) (x : Access) : Observation :=
  if o.accesses.length = accessCapacity then { o with truncated := true }
  else { o with accesses := o.accesses ++
    [⟨x.write, x.address.toUInt32, x.bytes.toUInt32, x.value⟩] }

/-- `softpc_host_debug_access`. -/
def access (x : Access) : State :=
  if !s.inInstruction || x.bytes == 0 then s
  else
    let record := s.noteHit x
    { s with observation :=
        if s.kind ≠ .trace && !record.watchHit then record else noteAccess record x }

/-- `vm_driver_take_debug_stop`. -/
def takeDebugStop : Bool × State :=
  (s.stopPending && s.resultReady,
    if s.stopPending && s.resultReady then { s with stopPending := false } else s)

/-- `vm_driver_cancel_debug`. -/
def cancelDebug : State := {}

/-- The fields of `x86_debug_request` that `X86_DEBUG_SET_EXECUTION_PLAN` reads. -/
structure PlanRequest where
  executionKind : ℕ
  instructionCount : UInt64
  segment : UInt16
  offset : UInt16
  address : UInt32
  deriving DecidableEq

/-- The enumerator of a valid `execution_kind`. -/
def planKind : ℕ → PlanKind
  | 1 => .trace
  | 2 => .breakReal
  | 3 => .breakLinear
  | _ => .none

/-- `X86_DEBUG_SET_EXECUTION_PLAN` of `softpc_machine_debug`, with the CPU at `pc`. -/
def setPlan (request : PlanRequest) (pc : UInt32) : Status × State :=
  if request.executionKind < 1 || 3 < request.executionKind ||
      (request.executionKind == 1 &&
        (request.instructionCount == 0 || 0xffffffff < request.instructionCount)) then
    (.invalidArgument, s)
  else
    (.ok, { s with
      kind := planKind request.executionKind
      targetCount := request.instructionCount
      address := if request.executionKind = 2 then
        request.segment.toUInt32 <<< 4 + request.offset.toUInt32 else request.address
      executed := 0
      stopPending := false
      resultReady := false
      skipFirst := (s.resultReady || s.skipFirst) && s.stoppedAddress == pc
      observation := {} })

/-- `X86_DEBUG_CLEAR_EXECUTION_PLAN`. -/
def clearPlan : State :=
  { s with
    kind := .none
    executed := 0
    stopPending := false
    resultReady := false
    observation := {} }

/-- `X86_DEBUG_SET_WATCH`. -/
def setWatch (k : WatchKind) (address : UInt32) : State :=
  { s with watches := fun j => if j = k then ⟨true, address⟩ else s.watches j }

/-- `X86_DEBUG_CLEAR_WATCH`. -/
def clearWatch (k : WatchKind) : State :=
  { s with watches := fun j => if j = k then { s.watches j with enabled := false } else s.watches j }

end State

/-! ## Runs -/

/-- What the CPU reports, and the executor's polls in between. -/
inductive Event where
  | begin (address : UInt32)
  | access (x : Access)
  | retired
  | poll

/-- One event; `none` is a stop. -/
def State.step (s : State) : Event → Option State
  | .begin address => if (s.begin address).1 then none else some (s.begin address).2
  | .access x => some (s.access x)
  | .retired => some s.retired
  | .poll => if s.takeDebugStop.1 then none else some s.takeDebugStop.2

/-- The events, as long as none of them stops the machine. -/
def State.advance (s : State) (events : List Event) : Option State :=
  events.foldlM State.step s

/-- The machine comes through the events and stops at the instruction that begins next. -/
def State.StopsAt (s : State) (events : List Event) (address : UInt32) : Prop :=
  ∃ s', s.advance events = some s' ∧ (s'.begin address).1 = true

/-! ## What the history asks for -/

namespace Event

def isRetired : Event → Bool
  | .retired => true
  | _ => false

end Event

/-- The accesses of the instruction under way: those since it began, until it retires or the next
one begins.  `opened` says that one is under way at the start. -/
def underWay (opened : Bool) (events : List Event) : Option (List Access) :=
  events.foldl (fun w e => match e with
    | .begin _ => some []
    | .access x => w.map (· ++ [x])
    | .retired => none
    | .poll => w) (if opened then some [] else none)

/-- Some instruction has begun. -/
def Begun (events : List Event) : Prop := ∃ address, Event.begin address ∈ events

namespace State

variable (s : State)

/-- **An access hits a watch**: one of its bytes, modulo 2³², is at the watched address. -/
def Hit (x : Access) : Prop :=
  (s.watches x.kind).enabled = true ∧
    ∃ i < x.bytes.toNat, (x.address.toNat + i) % 2 ^ 32 = (s.watches x.kind).address.toNat

/-- The instruction under way has hit a watch. -/
def Hitting (events : List Event) : Prop :=
  ∃ body, underWay s.inInstruction events = some body ∧ ∃ x ∈ body, s.Hit x

/-- An instruction that hit a watch has retired. -/
def Covered (events : List Event) : Prop :=
  ∃ pre post, events = pre ++ .retired :: post ∧ s.Hitting pre

/-- A breakpoint or the execute watch is at this address. -/
def Asks (address : UInt32) : Prop :=
  ((s.watches .execute).enabled = true ∧ (s.watches .execute).address = address) ∨
    (s.kind.breaks = true ∧ s.address = address)

/-- **A stop is due** at an instruction that begins at `address` after `events`: the trace has run
its count, a watched operand was accessed, or an address is asked for — unless this is the very
first instruction, and the machine resumes from a stop at it. -/
def Due (events : List Event) (address : UInt32) : Prop :=
  (s.kind = .trace ∧ s.targetCount.toNat ≤ events.countP Event.isRetired) ∨ s.Covered events ∨
    (s.Asks address ∧ ¬(¬Begun events ∧ s.skipFirst = true ∧ s.stoppedAddress = address))

/-- The machine goes on from `s`: no stop is pending, a trace has yet to count, and if a hit is left
from an earlier stop it is at an instruction boundary, so that what retires has begun since. -/
structure Resumes (events : List Event) : Prop where
  settled : s.stopPending = false
  count : s.kind = .trace →
    s.executed = 0 ∧ 1 ≤ s.targetCount.toNat ∧ s.targetCount.toNat ≤ 0xffffffff
  clear : (s.observation.watchHit = false ∧ s.resultReady = false) ∨ (s.inInstruction = false ∧
    ∀ pre post, events = pre ++ .retired :: post → Begun pre)

/-- Nothing is left from an earlier stop, or an instruction has begun since. -/
def Fresh (events : List Event) : Prop :=
  (s.observation.watchHit = false ∧ s.resultReady = false) ∨ Begun events

/-- **The machine after the events**, read off the history. -/
structure After (events : List Event) (s' : State) : Prop where
  kind : s'.kind = s.kind
  targetCount : s'.targetCount = s.targetCount
  address : s'.address = s.address
  watches : s'.watches = s.watches
  counted : s.kind = .trace →
    s'.executed.toNat = min (events.countP Event.isRetired) 0xffffffff
  pending : s'.stopPending = true ↔
    (s.kind = .trace ∧ s.targetCount.toNat ≤ events.countP Event.isRetired) ∨ s.Covered events
  ready : s.active = true → s.Fresh events → s'.resultReady = false
  hit_sound : s.active = true → s.Fresh events → s'.observation.watchHit = true →
    s.Hitting events ∨ s.Covered events
  hit_complete : s.Hitting events → s'.observation.watchHit = true
  inside : s.active = true → s'.inInstruction = (underWay s.inInstruction events).isSome
  still : ¬Begun events → s'.skipFirst = s.skipFirst ∧ s'.stoppedAddress = s.stoppedAddress
  skipped : s.active = true → Begun events → s'.skipFirst = false

end State

/-! ## The machine follows the history -/

variable {s s' : State} {events : List Event} {e : Event} {x : Access} {address : UInt32}

@[simp] theorem begun_snoc : Begun (events ++ [e]) ↔ Begun events ∨ ∃ a, e = .begin a := by
  simp [Begun, exists_or, eq_comm]

@[simp] theorem underWay_snoc {opened : Bool} : underWay opened (events ++ [e]) = match e with
    | .begin _ => some []
    | .access x => (underWay opened events).map (· ++ [x])
    | .retired => none
    | .poll => underWay opened events := by
  cases e <;> simp [underWay]

namespace State

theorem hitting_snoc : s.Hitting (events ++ [e]) ↔ match e with
    | .begin _ => False
    | .access x => s.Hitting events ∨ ((underWay s.inInstruction events).isSome ∧ s.Hit x)
    | .retired => False
    | .poll => s.Hitting events := by
  unfold Hitting
  rw [underWay_snoc]
  cases e with
  | begin a => simp
  | access x =>
    cases underWay s.inInstruction events with
    | none => simp
    | some body => simp [or_and_right, exists_or]
  | retired => simp
  | poll => rfl

theorem covered_snoc :
    s.Covered (events ++ [e]) ↔ s.Covered events ∨ (e = .retired ∧ s.Hitting events) := by
  constructor
  · rintro ⟨pre, post, heq, hhit⟩
    rcases List.eq_nil_or_concat post with rfl | ⟨post, y, rfl⟩
    · obtain ⟨rfl, he⟩ := List.append_inj' heq rfl
      exact .inr ⟨by simpa using he, hhit⟩
    · refine .inl ⟨pre, post, ?_, hhit⟩
      rw [List.concat_eq_append, ← List.cons_append, ← List.append_assoc] at heq
      exact (List.append_inj' heq rfl).1
  · rintro (⟨pre, post, rfl, hhit⟩ | ⟨rfl, hhit⟩)
    · exact ⟨pre, post ++ [e], by simp, hhit⟩
    · exact ⟨events, [], rfl, hhit⟩

/-- `(lib_u32)(watch - address) < bytes` is the test modulo 2³². -/
theorem covers_iff : s.covers x = true ↔ s.Hit x := by
  unfold covers Hit
  rw [Bool.and_eq_true, decide_eq_true_eq]
  refine and_congr_right fun _ => ?_
  have hsub : ((s.watches x.kind).address - x.address.toUInt32).toNat =
      (2 ^ 32 - x.address.toNat % 2 ^ 32 + (s.watches x.kind).address.toNat) % 2 ^ 32 := by
    rw [UInt32.toNat_sub, UInt64.toNat_toUInt32]
  have hlt := (s.watches x.kind).address.toNat_lt
  rw [hsub]
  constructor
  · intro h
    exact ⟨_, h, by omega⟩
  · rintro ⟨i, hi, heq⟩
    omega

/-- What makes the machine stop at a beginning. -/
theorem begin_stops : (s.begin address).1 = true ↔ s.stopPending = true ∨
    (s.Asks address ∧ ¬(s.skipFirst = true ∧ s.stoppedAddress = address)) := by
  unfold begin Asks
  by_cases hidle : (s.kind = .none && !s.stopPending && !s.watching) = true
  · rw [if_pos hidle]
    simp only [Bool.and_eq_true, decide_eq_true_eq, Bool.not_eq_true', watching,
      Bool.or_eq_false_iff] at hidle
    obtain ⟨⟨hkind, hpending⟩, -, hexecute⟩ := hidle
    simp [hkind, hpending, hexecute, PlanKind.breaks]
  · rw [if_neg hidle]
    cases hp : s.stopPending with
    | true => simp
    | false =>
      simp only [Bool.false_eq_true, if_false, false_or]
      split
      · rename_i hexecute
        simp only [Bool.and_eq_true, Bool.not_eq_true', Bool.and_eq_false_iff, beq_iff_eq,
          beq_eq_false_iff_ne] at hexecute
        obtain ⟨⟨hskip, henabled⟩, haddress⟩ := hexecute
        refine iff_of_true rfl ⟨.inl ⟨henabled, haddress⟩, ?_⟩
        rintro ⟨hf, ha⟩
        rcases hskip with h | h
        · exact absurd (hf.symm.trans h) (by simp)
        · exact h ha
      · split
        · grind -linarith
        · grind -linarith

/-- Nothing but an active plan can be hit. -/
theorem Hit.active (h : s.Hit x) : s.active = true := by
  have := h.1
  unfold Access.kind at this
  simp only [State.active, watching]
  split at this <;> simp [this]

theorem Covered.active (h : s.Covered events) : s.active = true := by
  obtain ⟨-, -, -, -, -, x, -, hx⟩ := h
  exact hx.active

theorem Covered.retired (h : s.Covered events) : 0 < events.countP Event.isRetired := by
  obtain ⟨pre, post, rfl, -⟩ := h
  simp only [List.countP_append, List.countP_cons, Event.isRetired, if_true]
  omega

theorem After.refl (h : s.Resumes []) : s.After [] s where
  kind := rfl
  targetCount := rfl
  address := rfl
  watches := rfl
  counted hk := by simp [(h.count hk).1]
  pending := by
    rw [h.settled]
    refine ⟨by simp, ?_⟩
    rintro (⟨hk, hcount⟩ | hc)
    · have := (h.count hk).2.1
      simp at hcount
      omega
    · simpa using hc.retired
  ready _ hf := by
    have : s.observation.watchHit = false ∧ s.resultReady = false := by simpa [Fresh, Begun] using hf
    exact this.2
  hit_sound _ hf hhit := by
    simp_all [Fresh, Begun]
  hit_complete hhit := by
    obtain ⟨body, hb, x, hx, -⟩ := hhit
    simp only [underWay, List.foldl_nil] at hb
    split at hb <;> cases hb
    cases hx
  inside _ := by cases hi : s.inInstruction <;> simp [underWay]
  still _ := ⟨rfl, rfl⟩
  skipped _ hb := by simp [Begun] at hb

theorem After.active (h : s.After events s') : s'.active = s.active := by
  simp [State.active, watching, h.kind, h.watches]

/-! ### What each event does -/

theorem active_iff : s.active = true ↔ ¬(s.kind = .none && !s.watching) = true := by
  simp only [State.active, Bool.or_eq_true, Bool.and_eq_true, decide_eq_true_eq, Bool.not_eq_true',
    not_and, Bool.not_eq_false]
  tauto

theorem begin_passes (h : (s.begin address).1 = false) : s.stopPending = false ∧
    (s.begin address).2 = if s.active then
      { s with skipFirst := false, observation := {}, resultReady := false, inInstruction := true }
    else { s with inInstruction := false } := by
  have hpending : s.stopPending = false := by
    by_contra hp
    have := begin_stops.2 (.inl (Bool.not_eq_false _ ▸ hp) : _ ∨ (s.Asks address ∧ _))
    exact absurd (h.symm.trans this) (by simp)
  refine ⟨hpending, ?_⟩
  unfold begin at h ⊢
  cases hactive : s.active with
  | false =>
    have hidle : (s.kind = .none && !s.stopPending && !s.watching) = true := by
      simpa [State.active, hpending] using hactive
    rw [if_pos hidle]
    rfl
  | true =>
    have hidle : ¬(s.kind = .none && !s.stopPending && !s.watching) = true := by
      simpa [hpending] using active_iff.1 hactive
    rw [if_neg hidle] at h ⊢
    simp only [hpending, Bool.false_eq_true, if_false] at h ⊢
    split at h
    · cases h
    · rename_i hexecute
      rw [if_neg hexecute]
      split at h
      · rename_i hbreak
        rw [if_pos hbreak]
        simp
      · cases h

theorem access_eq : s.access x = { s with observation := (s.access x).observation } := by
  unfold access
  split <;> rfl

theorem access_watchHit : (s.access x).observation.watchHit = true ↔
    s.observation.watchHit = true ∨ (s.inInstruction = true ∧ s.Hit x) := by
  rw [← covers_iff]
  have hbytes : s.covers x = true → x.bytes ≠ 0 := by
    intro hc hzero
    simp [covers, hzero] at hc
  unfold access
  split
  · rename_i h
    simp only [Bool.or_eq_true, Bool.not_eq_true', beq_iff_eq] at h
    grind -linarith
  · rename_i h
    have hrecord : (s.noteHit x).watchHit = true ↔ s.observation.watchHit = true ∨ s.covers x = true := by
      unfold noteHit
      split <;> grind -linarith
    have hnote : (noteAccess (s.noteHit x) x).watchHit = (s.noteHit x).watchHit := by
      unfold noteAccess
      split <;> rfl
    have hinside : s.inInstruction = true := by
      simp only [Bool.or_eq_true, Bool.not_eq_true', not_or] at h
      simpa using h.1
    simp only [hinside, true_and, ← hrecord]
    split <;> simp [hnote]

theorem retired_inactive (h : s.active = false) : s.retired = { s with inInstruction := false } := by
  have hidle : (s.kind = .none && !s.watching) = true := by simpa [State.active] using h
  rw [retired, if_pos hidle]

theorem retired_active (h : s.active = true) : s.retired =
    { s with
      inInstruction := false
      executed := s.tally
      stopPending := s.stopPending || (s.kind = .trace && s.targetCount ≤ s.tally.toUInt64) ||
        s.observation.watchHit } := by
  rw [retired, if_neg (active_iff.1 h)]

theorem tally_toNat : s.tally.toNat = min (s.executed.toNat + 1) 0xffffffff := by
  have hlt := s.executed.toNat_lt
  unfold tally
  split
  · rename_i h
    have hne : s.executed.toNat ≠ 0xffffffff := fun heq => h (UInt32.toNat.inj heq)
    rw [UInt32.toNat_add]
    simp only [UInt32.toNat_one]
    omega
  · rename_i h
    rw [Decidable.not_not.mp h]
    rfl

theorem Resumes.prefix (h : s.Resumes (events ++ [e])) : s.Resumes events where
  settled := h.settled
  count := h.count
  clear := by
    refine h.clear.imp_right fun ⟨hi, hb⟩ => ⟨hi, fun pre post heq => hb pre (post ++ [e]) ?_⟩
    rw [heq, List.append_assoc, List.cons_append]

/-- What has retired has begun, or nothing was left over. -/
theorem Resumes.fresh (h : s.Resumes (events ++ [.retired])) : s.Fresh events :=
  h.clear.imp_right fun h => h.2 events [] rfl

theorem fresh_snoc : s.Fresh (events ++ [e]) ↔ s.Fresh events ∨ ∃ a, e = .begin a := by
  simp [Fresh, or_assoc]

namespace After

theorem begin (h : s.After events s') (hpass : (s'.begin address).1 = false) :
    s.After (events ++ [.begin address]) (s'.begin address).2 := by
  have heq := (begin_passes hpass).2
  rw [heq, h.active]
  cases hactive : s.active
  all_goals
    refine ⟨h.kind, h.targetCount, h.address, h.watches, ?_, ?_, ?_, ?_, ?_, ?_, ?_, ?_⟩
    · simpa [List.countP_append, List.countP_cons, Event.isRetired] using h.counted
    · simpa [covered_snoc, List.countP_append, List.countP_cons, Event.isRetired] using h.pending
    all_goals simp [hitting_snoc, hactive]

theorem access (h : s.After events s') :
    s.After (events ++ [.access x]) (s'.access x) := by
  have hit : s'.Hit x ↔ s.Hit x := by simp [Hit, h.watches]
  rw [access_eq]
  refine ⟨h.kind, h.targetCount, h.address, h.watches, ?_, ?_, ?_, ?_, ?_, ?_, ?_, ?_⟩
  · simpa [List.countP_append, List.countP_cons, Event.isRetired] using h.counted
  · simpa [covered_snoc, List.countP_append, List.countP_cons, Event.isRetired] using h.pending
  · simpa [fresh_snoc] using h.ready
  · intro hactive hfresh hhit
    rw [hitting_snoc, covered_snoc]
    rw [fresh_snoc] at hfresh
    rcases access_watchHit.1 hhit with hold | ⟨hinside, hx⟩
    · rcases h.hit_sound hactive (by simpa using hfresh) hold with h | h
      · exact .inl (.inl h)
      · exact .inr (.inl h)
    · rw [h.inside hactive] at hinside
      exact .inl (.inr ⟨hinside, hit.mp hx⟩)
  · rw [hitting_snoc]
    rintro (hhit | ⟨hinside, hx⟩)
    · exact access_watchHit.2 (.inl (h.hit_complete hhit))
    · refine access_watchHit.2 (.inr ⟨?_, hit.mpr hx⟩)
      rw [h.inside hx.active, hinside]
  · intro hactive
    simpa using h.inside hactive
  · simpa using h.still
  · simpa using h.skipped

theorem retired (h : s.After events s') (hr : s.Resumes (events ++ [.retired])) :
    s.After (events ++ [.retired]) s'.retired := by
  have hcount : (events ++ [Event.retired]).countP Event.isRetired =
      events.countP Event.isRetired + 1 := by
    simp [List.countP_append, List.countP_cons, Event.isRetired]
  cases hactive : s.active with
  | false =>
    have htrace : s.kind ≠ .trace := by
      intro hk
      simp [State.active, hk] at hactive
    have hcovered : ∀ events, ¬s.Covered events := fun events hc =>
      absurd (hactive.symm.trans hc.active) (by simp)
    rw [retired_inactive (h.active.trans hactive)]
    refine ⟨h.kind, h.targetCount, h.address, h.watches, fun hk => absurd hk htrace, ?_, ?_, ?_, ?_,
      ?_, ?_, ?_⟩
    · simpa [htrace, hcovered] using h.pending
    · simp [hactive]
    · simp [hactive]
    · simp [hitting_snoc]
    · simp [hactive]
    · simpa using h.still
    · simp [hactive]
  | true =>
    have hfresh := hr.fresh
    have htally : s.kind = .trace →
        s'.tally.toNat = min (events.countP Event.isRetired + 1) 0xffffffff := by
      intro hk
      rw [tally_toNat, h.counted hk]
      omega
    rw [retired_active (h.active.trans hactive)]
    refine ⟨h.kind, h.targetCount, h.address, h.watches, ?_, ?_, ?_, ?_, ?_, ?_, ?_, ?_⟩
    · rw [hcount]
      exact htally
    · rw [hcount, covered_snoc]
      have hdone : (s'.kind = .trace && s'.targetCount ≤ s'.tally.toUInt64) = true ↔
          s.kind = .trace ∧ s.targetCount.toNat ≤ events.countP Event.isRetired + 1 := by
        rw [h.kind, h.targetCount, Bool.and_eq_true, decide_eq_true_eq, decide_eq_true_eq]
        refine and_congr_right fun hk => ?_
        have hmax := (hr.count hk).2.2
        rw [UInt64.le_iff_toNat_le, UInt32.toNat_toUInt64, htally hk]
        omega
      rw [Bool.or_eq_true, Bool.or_eq_true, hdone, h.pending]
      constructor
      · rintro (((⟨hk, hle⟩ | hc) | hd) | hw)
        · exact .inl ⟨hk, Nat.le_succ_of_le hle⟩
        · exact .inr (.inl hc)
        · exact .inl hd
        · exact .inr ((h.hit_sound hactive hfresh hw).elim (fun hh => .inr ⟨rfl, hh⟩) .inl)
      · rintro (hd | hc | ⟨-, hh⟩)
        · exact .inl (.inr hd)
        · exact .inl (.inl (.inr hc))
        · exact .inr (h.hit_complete hh)
    · intro _ _
      exact h.ready hactive hfresh
    · intro _ _ hhit
      rw [covered_snoc]
      rcases h.hit_sound hactive hfresh hhit with hh | hh
      · exact .inr (.inr ⟨rfl, hh⟩)
      · exact .inr (.inl hh)
    · simp [hitting_snoc]
    · simp
    · simpa using h.still
    · simpa using h.skipped

/-- The executor's polls find no stop: one is announced at a beginning only. -/
theorem poll (h : s.After events s') (hr : s.Resumes events) :
    s'.takeDebugStop = (false, s') ∧ s.After (events ++ [.poll]) s' := by
  have hcount : (events ++ [Event.poll]).countP Event.isRetired = events.countP Event.isRetired := by
    simp [List.countP_append, Event.isRetired]
  constructor
  · have hnot : (s'.stopPending && s'.resultReady) = false := by
      by_contra hb
      simp only [Bool.not_eq_false, Bool.and_eq_true] at hb
      obtain ⟨hpending, hready⟩ := hb
      have hdue := h.pending.mp hpending
      have hactive : s.active = true := by
        rcases hdue with ⟨hk, -⟩ | hc
        · simp [State.active, hk]
        · exact hc.active
      have hretired : 0 < events.countP Event.isRetired := by
        rcases hdue with ⟨hk, hle⟩ | hc
        · exact Nat.lt_of_lt_of_le (hr.count hk).2.1 hle
        · exact hc.retired
      have hfresh : s.Fresh events := by
        refine hr.clear.imp_right fun ⟨_, hbegun⟩ => ?_
        obtain ⟨e, he, hre⟩ := List.countP_pos_iff.mp hretired
        obtain ⟨pre, post, heq⟩ := List.append_of_mem he
        cases e <;> simp [Event.isRetired] at hre
        obtain ⟨a, ha⟩ := hbegun pre post heq
        exact ⟨a, heq ▸ List.mem_append_left _ ha⟩
      exact absurd ((h.ready hactive hfresh).symm.trans hready) (by simp)
    simp [takeDebugStop, hnot]
  · refine ⟨h.kind, h.targetCount, h.address, h.watches, ?_, ?_, ?_, ?_, ?_, ?_, ?_, ?_⟩
    · rw [hcount]
      exact h.counted
    · rw [hcount]
      simpa [covered_snoc] using h.pending
    · simpa [fresh_snoc] using h.ready
    · simpa [fresh_snoc, covered_snoc, hitting_snoc] using h.hit_sound
    · simpa [hitting_snoc] using h.hit_complete
    · simpa using h.inside
    · simpa using h.still
    · simpa using h.skipped

/-- **At the next beginning the machine stops exactly if a stop is due.** -/
theorem stops_iff (h : s.After events s') :
    (s'.begin address).1 = true ↔ s.Due events address := by
  rw [begin_stops, h.pending, Due, or_assoc]
  have hasks : s'.Asks address ↔ s.Asks address := by
    simp [Asks, h.kind, h.address, h.watches]
  rw [hasks]
  refine or_congr_right (or_congr_right (and_congr_right fun ha => not_congr ?_))
  have hactive : s.active = true := by
    rcases ha with ⟨he, -⟩ | ⟨hb, -⟩
    · simp [State.active, watching, he]
    · have hk : s.kind ≠ .none := by
        intro hk
        simp [hk, PlanKind.breaks] at hb
      simp [State.active, hk]
  by_cases hb : Begun events
  · simp [h.skipped hactive hb, hb]
  · obtain ⟨hskip, hstopped⟩ := h.still hb
    simp [hskip, hstopped, hb]

end After

theorem advance_snoc : s.advance (events ++ [e]) = (s.advance events).bind fun s' => s'.step e := by
  simp [advance, List.foldlM_append]

/-- The machine comes through the events exactly if none of them begins where a stop is due. -/
theorem advance_after (h : s.Resumes events) :
    (∃ s', s.advance events = some s' ∧ s.After events s') ∨
      (s.advance events = none ∧ ∃ pre a post, events = pre ++ .begin a :: post ∧ s.Due pre a) := by
  induction events using List.reverseRecOn with
  | nil => exact .inl ⟨s, rfl, After.refl h⟩
  | append_singleton events e ih =>
    rcases ih h.prefix with ⟨s', hrun, hafter⟩ | ⟨hstop, pre, a, post, heq, hdue⟩
    · rw [advance_snoc, hrun, Option.bind_some]
      cases e with
      | begin a =>
        cases hb : (s'.begin a).1 with
        | true => exact .inr ⟨by simp [step, hb], events, a, [], rfl, hafter.stops_iff.mp hb⟩
        | false => exact .inl ⟨_, by simp [step, hb], hafter.begin hb⟩
      | access x => exact .inl ⟨_, rfl, hafter.access⟩
      | retired => exact .inl ⟨_, rfl, hafter.retired h⟩
      | poll =>
        obtain ⟨hpoll, hafter'⟩ := hafter.poll h.prefix
        exact .inl ⟨s', by simp [step, hpoll], hafter'⟩
    · refine .inr ⟨by rw [advance_snoc, hstop, Option.bind_none], pre, a, post ++ [e], ?_, hdue⟩
      rw [heq, List.append_assoc, List.cons_append]

/-- The machine stops first at `address` exactly if a stop is due there and none was before. -/
theorem Resumes.stopsAt_iff (h : s.Resumes events) : s.StopsAt events address ↔
    s.Due events address ∧ ∀ pre a post, events = pre ++ .begin a :: post → ¬s.Due pre a := by
  constructor
  · rintro ⟨s', hrun, hstop⟩
    rcases advance_after h with ⟨s'', hrun', hafter⟩ | ⟨hnone, -⟩
    · obtain rfl : s'' = s' := Option.some.inj (hrun'.symm.trans hrun)
      refine ⟨hafter.stops_iff.mp hstop, fun pre a post heq hdue => ?_⟩
      -- The machine has come through this earlier beginning.
      have hpre : s.Resumes pre :=
        ⟨h.settled, h.count, h.clear.imp_right fun ⟨hi, hb⟩ => ⟨hi, fun p q hpq =>
          hb p (q ++ .begin a :: post) (by rw [heq, hpq, List.append_assoc, List.cons_append])⟩⟩
      rw [heq, advance, List.foldlM_append, ← advance] at hrun
      rcases advance_after hpre with ⟨t, ht, hafter'⟩ | ⟨hnone, -⟩
      · simp [ht, step, hafter'.stops_iff.mpr hdue] at hrun
      · simp [hnone] at hrun
    · exact absurd (hnone.symm.trans hrun) (by simp)
  · rintro ⟨hdue, hbefore⟩
    rcases advance_after h with ⟨s', hrun, hafter⟩ | ⟨-, pre, a, post, heq, hdue'⟩
    · exact ⟨s', hrun, hafter.stops_iff.mpr hdue⟩
    · exact absurd hdue' (hbefore pre a post heq)

/-! ### How a machine comes to resume -/

/-- A plan that is set is ready, whatever was before. -/
theorem setPlan_resumes {request : PlanRequest} {pc : UInt32} (h : (s.setPlan request pc).1 = .ok) :
    (s.setPlan request pc).2.Resumes events := by
  unfold setPlan at h ⊢
  split at h
  · cases h
  · rename_i hvalid
    rw [if_neg hvalid]
    refine ⟨rfl, fun hk => ⟨rfl, ?_⟩, .inl ⟨rfl, rfl⟩⟩
    have hone : request.executionKind = 1 := by
      simp only [planKind] at hk
      split at hk <;> first | assumption | cases hk
    simp only [hone, Bool.or_eq_true, Bool.and_eq_true, not_or, beq_self_eq_true, true_and,
      beq_iff_eq, decide_eq_true_eq] at hvalid
    obtain ⟨-, hzero, hmax⟩ := hvalid
    have hpos : request.instructionCount.toNat ≠ 0 := fun h0 => hzero (UInt64.toNat.inj h0)
    rw [UInt64.lt_iff_toNat_lt] at hmax
    have hlit : (0xffffffff : UInt64).toNat = 0xffffffff := rfl
    have hle : request.instructionCount.toNat ≤ 0xffffffff := by omega
    exact ⟨Nat.one_le_iff_ne_zero.mpr hpos, hle⟩

/-- Every way to stop ends in `stop`. -/
theorem begin_stop (h : (s.begin address).1 = true) : ∃ t : State, (s.begin address).2 = t.stop address := by
  unfold begin at h ⊢
  dsimp only at h ⊢
  split at h
  · cases h
  · rename_i hidle
    rw [if_neg hidle]
    split at h
    · exact ⟨_, by rw [if_pos ‹_›]⟩
    · rename_i hpending
      rw [if_neg hpending]
      split at h
      · exact ⟨_, by rw [if_pos ‹_›]⟩
      · rename_i hexecute
        rw [if_neg hexecute]
        split at h
        · cases h
        · exact ⟨_, by rw [if_neg ‹_›]⟩

/-- A stop, once taken, is at an instruction boundary. -/
theorem stop_resumes (h : (s.begin address).1 = true)
    (hevents : ∀ pre post, events = pre ++ .retired :: post → Begun pre) :
    (s.begin address).2.takeDebugStop.2.Resumes events ∧
      (s.begin address).2.takeDebugStop.2.skipFirst = true ∧
      (s.begin address).2.takeDebugStop.2.stoppedAddress = address := by
  obtain ⟨t, ht⟩ := begin_stop h
  rw [ht]
  refine ⟨⟨rfl, fun hk => ?_, .inr ⟨rfl, hevents⟩⟩, rfl, rfl⟩
  simp [takeDebugStop, stop] at hk

theorem Resumes.of_watches {watches : WatchKind → Watch} (h : s.Resumes events) :
    { s with watches }.Resumes events :=
  ⟨h.settled, h.count, h.clear⟩

end State

/-- **The debugger stops exactly where it is asked to.**  A machine that resumes comes through its
events and stops at the first beginning where the history asks for it (`State.Due`); and it resumes
so from every plan that is set, from every stop — at whose address it then skips the first
instruction — and from a cancellation, with whatever watches are set or cleared. -/
theorem plan_stops_where_asked :
    (∀ (s : State) events address, s.Resumes events → (s.StopsAt events address ↔
      s.Due events address ∧ ∀ pre a post, events = pre ++ .begin a :: post → ¬s.Due pre a)) ∧
    (∀ (s : State) request pc events, (s.setPlan request pc).1 = .ok →
      (s.setPlan request pc).2.Resumes events ∧ ((s.setPlan request pc).2.skipFirst = true ↔
        (s.resultReady = true ∨ s.skipFirst = true) ∧ s.stoppedAddress = pc)) ∧
    (∀ (s : State) address events, (s.begin address).1 = true →
      (∀ pre post, events = pre ++ .retired :: post → Begun pre) →
      (s.begin address).2.takeDebugStop.2.Resumes events ∧
      (s.begin address).2.takeDebugStop.2.skipFirst = true ∧
      (s.begin address).2.takeDebugStop.2.stoppedAddress = address) ∧
    (∀ events, State.cancelDebug.Resumes events) ∧
    ∀ (s : State) k address events, s.Resumes events →
      (s.setWatch k address).Resumes events ∧ (s.clearWatch k).Resumes events := by
  refine ⟨fun s events address h => h.stopsAt_iff, fun s request pc events h =>
    ⟨State.setPlan_resumes h, ?_⟩, fun s address events h hevents => State.stop_resumes h hevents,
    fun events => ⟨rfl, by simp [State.cancelDebug], .inl ⟨rfl, rfl⟩⟩,
    fun s k address events h => ⟨h.of_watches, h.of_watches⟩⟩
  unfold State.setPlan at h ⊢
  split at h
  · cases h
  · rw [if_neg ‹_›]
    simp

/-- One instruction is traced: the machine stops at the second. -/
theorem plan_stops_where_asked_trace_one :
    (({} : State).setPlan ⟨1, 1, 0, 0, 0⟩ 0).2.Due [.begin 0, .retired] 1 := by
  have hresumes := (plan_stops_where_asked.2.1 {} ⟨1, 1, 0, 0, 0⟩ 0 [.begin 0, .retired] rfl).1
  exact ((plan_stops_where_asked.1 _ _ _ hresumes).mp ⟨_, rfl, rfl⟩).1

end SoftPC.Debug
