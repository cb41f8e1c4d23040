import SoftPC.System.TimerActions

/-!
# System/TimerPort — the bytes that pass between a guest and a counter

    write ──▸ low ──▸ last        latch ──▸ latched ──┐
    latch status ──▸ status ──▸ read ◂── low or high ─┘

`Port` is what the guest can rely on, with no word on how a counter counts: the bytes of a count come and
go in the order of the access mode, a mode word starts both orders anew, a latched count stays until it
has been read, and a latched status is read first.  A counter *fits* a port when its fields stand for it
(`Port.Writes`, `Port.Reads`).
-/

namespace SoftPC.Timer

/-- One counter, as its port shows it. -/
structure Port where
  access : Access := .latch
  bcd : Bool := false
  /-- The byte written, while the other is still to come. -/
  low : Option (BitVec 8) := none
  /-- The last count whose bytes were all written in this mode, low byte first. -/
  last : Option (BitVec 8 × BitVec 8) := none
  status : Option (BitVec 8) := none
  latched : Option (BitVec 16) := none
  /-- The next byte of a count read is its high one. -/
  high : Bool := false
  deriving DecidableEq

/-- What the guest has a counter do. -/
inductive Command
  | write (value : BitVec 8)
  | mode (cwd : BitVec 8)
  | latchCount
  | latchStatus
  | read
  deriving DecidableEq

namespace Port

variable (s : Port)

/-- What two bytes count, in decimal digits or not; nothing counts for the most there can be. -/
def value (bcd : Bool) (bytes : BitVec 8 × BitVec 8) : ℕ :=
  let low := bytes.1.toNat
  let high := bytes.2.toNat
  if bcd then
    if low = 0 ∧ high = 0 then 10000
    else low % 16 + low / 16 * 10 + high % 16 * 100 + high / 16 * 1000
  else if low = 0 ∧ high = 0 then 65536 else low + 256 * high

/-- A byte written. -/
def write (value : BitVec 8) : Port :=
  match s.access with
  | .latch => s
  | .lsb => { s with last := some (value, 0) }
  | .msb => { s with last := some (0, value) }
  | .lmsb =>
    match s.low with
    | none => { s with low := some value }
    | some low => { s with low := none, last := some (low, value) }

variable {s}

theorem write_lsb (h : s.access = .lsb) (hlow : s.low = none) (value : BitVec 8) :
    s.write value = { s with low := none, last := some (value, 0) } := by
  unfold write
  rw [h, ← hlow]

theorem write_msb (h : s.access = .msb) (hlow : s.low = none) (value : BitVec 8) :
    s.write value = { s with low := none, last := some (0, value) } := by
  unfold write
  rw [h, ← hlow]

theorem write_first (h : s.access = .lmsb) (hlow : s.low = none) (value : BitVec 8) :
    s.write value = { s with low := some value } := by
  unfold write
  rw [h, hlow]

theorem write_second (h : s.access = .lmsb) {low : BitVec 8} (hlow : s.low = some low) (value : BitVec 8) :
    s.write value = { s with low := none, last := some (low, value) } := by
  unfold write
  rw [h, hlow]

variable (s)

/-- A byte read is gone; with the last byte of a count goes the count latched. -/
def taken : Port :=
  if s.status.isSome then { s with status := none }
  else
    match s.access with
    | .latch => s
    | .lsb | .msb => { s with latched := none }
    | .lmsb => if s.high then { s with high := false, latched := none } else { s with high := true }

variable {s}

theorem taken_status (h : s.status.isSome) : s.taken = { s with status := none } := if_pos h

theorem taken_latch (h : ¬s.status.isSome) (hs : s.access = .latch) : s.taken = s := by
  unfold taken
  rw [if_neg h, hs]

theorem taken_single (h : ¬s.status.isSome) (hs : s.access = .lsb ∨ s.access = .msb) :
    s.taken = { s with latched := none } := by
  unfold taken
  rw [if_neg h]
  obtain hs | hs := hs <;> rw [hs]

theorem taken_low (h : ¬s.status.isSome) (hs : s.access = .lmsb) (hhigh : s.high = false) :
    s.taken = { s with high := true } := by
  unfold taken
  rw [if_neg h, hs, hhigh]
  rfl

theorem taken_high (h : ¬s.status.isSome) (hs : s.access = .lmsb) (hhigh : s.high = true) :
    s.taken = { s with high := false, latched := none } := by
  unfold taken
  rw [if_neg h, hs, hhigh]
  rfl

variable (s)

/-- The byte read, when the counter stands at `count`. -/
def out (count : BitVec 16) : Option (BitVec 8) :=
  let shown := s.latched.getD count
  let low := shown.setWidth 8
  let high := (shown >>> 8).setWidth 8
  s.status.or <| match s.access with
    | .latch => none
    | .lsb => some low
    | .msb => some high
    | .lmsb => some (if s.high then high else low)

/-- A command, when the counter stands at `count` and its status is `status`. -/
def step (count : BitVec 16) (status : BitVec 8) : Command → Port
  | .write value => s.write value
  | .mode cwd => { status := s.status, access := Access.ofWord cwd, bcd := cwd &&& 1 = 1 }
  | .latchCount => if s.latched.isSome then s else { s with latched := some count, high := false }
  | .latchStatus => { s with status := some status }
  | .read => s.taken

end Port

/-- The state is not one in which a count is being written, and the counter has a mode. -/
def Settled (state : Option StateFn) : Prop :=
  state ≠ some .uninit ∧ state ≠ some .waitingFor1stWrite ∧ state ≠ some .waitingFor2ndWrite

instance (state : Option StateFn) : Decidable (Settled state) := inferInstanceAs (Decidable (_ ∧ _ ∧ _))

namespace Port

/-- The counter takes the bytes that the port was written. -/
structure Writes (s : Port) (t : Shown) : Prop where
  access : t.rl = s.access
  bcd : t.bcd = s.bcd
  uninit : t.state = some .uninit ↔ s.access = .latch
  pair : t.state = some .waitingFor2ndWrite → s.access = .lmsb
  low : s.low = if t.state = some .waitingFor2ndWrite then some t.outblsb else none
  last : Settled t.state → s.last = some (t.outblsb, t.outbmsb)
  loaded : Settled t.state → t.newCount = .used → t.initialCount = t.modulo
  wt : ¬Settled t.state → t.actionOnWtComplete ≠ some .timererror
  onGate : Settled t.stateOnGate

/-- The counter has the bytes that the port has to be read. -/
structure Reads (s : Port) (t : Shown) : Prop where
  latched : s.access ≠ .latch →
    s.latched = if t.countlatched then some (t.latchvaluemsb ++ t.latchvaluelsb) else none
  readState : t.readState = if s.status.isSome then .readStatus else if s.high then .readMsb else .unread
  status : ∀ b ∈ s.status, t.latchstatus = b
  first : s.status.isSome → s.high = false
  off : s.access ≠ .lmsb → s.high = false

/-- The counter is what the port shows. -/
structure Fits (s : Port) (t : Shown) : Prop extends Writes s t, Reads s t

end Port

/-! ## What the actions do to the bytes -/

namespace Shown

variable {s t r : Shown}

/-- The fields of the bytes. -/
def held (s : Shown) : Programming where
  rl := s.rl
  bcd := s.bcd
  outblsb := s.outblsb
  outbmsb := s.outbmsb
  readState := s.readState
  countlatched := s.countlatched
  latchvaluelsb := s.latchvaluelsb
  latchvaluemsb := s.latchvaluemsb
  latchstatus := s.latchstatus

theorem modulo_held (h : t.held = s.held) : t.modulo = s.modulo := by
  change t.held.modulo = s.held.modulo
  rw [h]

/-- The bytes are as they were, and the count too unless it was loaded. -/
structure Moved (s t : Shown) : Prop where
  held : t.held = s.held
  onGate : Settled s.stateOnGate → Settled t.stateOnGate
  count : t.initialCount = s.initialCount ∧ t.newCount = s.newCount ∨
    t.initialCount = s.modulo ∧ t.newCount = .used

/-- …and the counter does not wait for bytes any more. -/
def Arrives (s t : Shown) : Prop := s.Moved t ∧ Settled t.state

theorem Moved.rfl : s.Moved s := ⟨Eq.refl _, id, .inl ⟨Eq.refl _, Eq.refl _⟩⟩

theorem Moved.trans (h : s.Moved t) (h' : t.Moved r) : s.Moved r where
  held := h'.held.trans h.held
  onGate hs := h'.onGate (h.onGate hs)
  count := by
    obtain ⟨hcount, hnew⟩ | ⟨hcount, hnew⟩ := h'.count
    · rw [hcount, hnew]
      exact h.count
    · exact .inr ⟨hcount.trans (modulo_held h.held), hnew⟩

theorem Moved.arrives (h : s.Moved t) (h' : t.Arrives r) : s.Arrives r := ⟨h.trans h'.1, h'.2⟩

theorem moved_loaded : s.Moved s.loaded := ⟨rfl, id, .inr ⟨rfl, rfl⟩⟩

theorem moved_loadedNew : s.Moved s.loadedNew := by
  unfold loadedNew
  split_ifs
  · exact moved_loaded
  · exact .rfl

theorem settled_of_counts {state : StateFn} (h : Counts state) : Settled (some state) := by
  obtain rfl | rfl | rfl | rfl := h <;> decide

theorem arrives_goto {state : Option StateFn} (h : Settled state) : s.Arrives (s.goto state) :=
  ⟨⟨rfl, id, .inl ⟨rfl, rfl⟩⟩, h⟩

theorem moved_onGate {state : StateFn} (h : Settled (some state)) : s.Moved (s.onGate state) :=
  ⟨rfl, fun _ => h, .inl ⟨rfl, rfl⟩⟩

theorem arrives_ran (h : Settled s.stateOnGate) : s.Arrives s.ran := by
  unfold ran
  split_ifs
  · exact ⟨moved_loaded.trans ⟨rfl, id, .inl ⟨rfl, rfl⟩⟩, h⟩
  · exact arrives_goto h

theorem arrives_bufferLoaded : s.Arrives s.bufferLoaded := by
  have hload : s.Moved (s.wtAction .timererror).loaded := ⟨rfl, id, .inr ⟨rfl, rfl⟩⟩
  unfold bufferLoaded
  have hcounting := settled_of_counts (counts_countingState s.m)
  have hawaiting : Settled (some .awaitingGate) := by decide
  dsimp only
  split_ifs
  · exact hload.arrives (arrives_goto hcounting)
  · exact hload.arrives ⟨⟨rfl, fun _ => hcounting, .inl ⟨rfl, rfl⟩⟩, hawaiting⟩

theorem arrives_resumed0 (tc : Bool) : s.Arrives (s.resumed0 tc) := by
  have hload : s.Moved s.unfrozen.loadedNew :=
    Moved.trans (t := s.unfrozen) ⟨rfl, id, .inl ⟨rfl, rfl⟩⟩ moved_loadedNew
  have hcounting : Settled (some .counting0) := by decide
  unfold resumed0
  dsimp only
  split_ifs
  · exact hload.arrives (arrives_goto hcounting)
  · exact hload.arrives ((moved_onGate hcounting).arrives (arrives_ran hcounting))

theorem arrives_resumed234 : s.Arrives s.resumed234 := by
  have hcounting := settled_of_counts (counts_strobeState s.m)
  exact moved_loadedNew.arrives ((moved_onGate hcounting).arrives (arrives_ran hcounting))

theorem arrives_resumed15 (tc : Bool) : s.Arrives (s.resumed15 tc) := by
  unfold resumed15
  split_ifs <;> exact arrives_goto (by decide)

end Shown

end SoftPC.Timer
