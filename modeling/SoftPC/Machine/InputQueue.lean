import SoftPC.KvmBase.Event
import SoftPC.Machinery.Ring

/-!
# Machine/InputQueue — the fixed ring between the input producers and the executor

`emulator/machine/input_queue.c`.  Every entry point runs under the queue's own lock, so each is one
step.  The ring keeps a head and a tail and no count: it is full when the head would meet the tail,
so one of its 256 cells is always free.
-/

namespace SoftPC

/-- `emulator_machine_input_queue`. -/
structure InputQueue where
  entries : ℕ → InputEvent
  head : ℕ
  tail : ℕ
  accepting : Bool
  head_lt : head < 256
  tail_lt : tail < 256

namespace InputQueue

/-- `EMULATOR_MACHINE_INPUT_QUEUE_CAPACITY`. -/
abbrev capacity : ℕ := 256

/-- The cell `lib_allocate_zero` leaves. -/
def zeroEvent : InputEvent := ⟨0, 0, .key ⟨0, 0, 0, 0, false⟩⟩

/-- `emulator_machine_input_queue_initialize`. -/
def initialized : InputQueue := ⟨fun _ => zeroEvent, 0, 0, false, by decide, by decide⟩

/-- `emulator_machine_input_queue_admit`. -/
def admitInput (q : InputQueue) (accepting : Bool) : InputQueue := { q with accepting }

/-- `emulator_machine_input_queue_push`. -/
def push (q : InputQueue) (event : InputEvent) : Status × InputQueue :=
  if q.accepting = false then (.invalidState, q)
  else if (q.head + 1) % capacity = q.tail then (.limitExceeded, q)
  else (.ok, { q with
    entries := Function.update q.entries q.head event
    head := (q.head + 1) % capacity
    head_lt := Nat.mod_lt _ (by decide) })

/-- `emulator_machine_input_queue_pop`. -/
def pop (q : InputQueue) : Option InputEvent × InputQueue :=
  if q.tail = q.head then (none, q)
  else (some (q.entries q.tail), { q with
    tail := (q.tail + 1) % capacity
    tail_lt := Nat.mod_lt _ (by decide) })

/-- `emulator_machine_input_queue_pending`. -/
def pending (q : InputQueue) : Bool := q.tail != q.head

/-- `emulator_machine_input_queue_clear`. -/
def clear (q : InputQueue) : InputQueue :=
  { q with head := 0, tail := 0, head_lt := by decide, tail_lt := by decide }

/-! ## What each section does to the queued inputs -/

/-- How many cells lie between the tail and the head. -/
def count (q : InputQueue) : ℕ := (q.head + capacity - q.tail) % capacity

/-- The queued inputs, oldest first. -/
def contents (q : InputQueue) : List InputEvent := Ring.window q.entries capacity q.tail q.count

/-- The head is `count` cells past the tail. -/
theorem head_eq (q : InputQueue) : q.head = (q.tail + q.count) % capacity := by
  have hh := q.head_lt
  have ht := q.tail_lt
  simp only [count, capacity]
  omega

/-- **At most 255 inputs are queued**: a full ring would look empty. -/
theorem contents_length_lt (q : InputQueue) : q.contents.length < capacity := by
  rw [contents, Ring.window_length]
  exact Nat.mod_lt _ (by decide)

theorem count_eq_zero_iff (q : InputQueue) : q.count = 0 ↔ q.tail = q.head := by
  have hh := q.head_lt
  have ht := q.tail_lt
  simp only [count, capacity]
  omega

@[simp] theorem initialized_contents : initialized.contents = [] := rfl

@[simp] theorem initialized_accepting : initialized.accepting = false := rfl

@[simp] theorem admitInput_contents (q : InputQueue) (b : Bool) : (q.admitInput b).contents = q.contents :=
  rfl

@[simp] theorem admitInput_accepting (q : InputQueue) (b : Bool) : (q.admitInput b).accepting = b := rfl

@[simp] theorem clear_contents (q : InputQueue) : q.clear.contents = [] := by
  simp [contents, count, clear]

@[simp] theorem clear_accepting (q : InputQueue) : q.clear.accepting = q.accepting := rfl

/-- Admission is decided elsewhere. -/
@[simp] theorem push_accepting (q : InputQueue) (event : InputEvent) :
    (q.push event).2.accepting = q.accepting := by
  unfold push
  split <;> [rfl; split <;> rfl]

@[simp] theorem pop_accepting (q : InputQueue) : q.pop.2.accepting = q.accepting := by
  unfold pop
  split <;> rfl

/-- A push is accepted only while admission is open. -/
theorem accepting_of_push {q : InputQueue} {event : InputEvent} (h : (q.push event).1 = .ok) :
    q.accepting = true := by
  unfold push at h
  split at h
  · cases h
  · simpa using ‹¬q.accepting = false›

/-- **A rejected push leaves the queue as it was.** -/
theorem push_rejected {q : InputQueue} {event : InputEvent} (h : (q.push event).1 ≠ .ok) :
    (q.push event).2 = q := by
  unfold push at h ⊢
  split
  · rfl
  · rw [if_neg ‹_›] at h
    split
    · rfl
    · simp [*] at h

/-- **An accepted push appends.** -/
theorem push_accepted {q : InputQueue} {event : InputEvent} (h : (q.push event).1 = .ok) :
    (q.push event).2.contents = q.contents ++ [event] := by
  have hh := q.head_lt
  have ht := q.tail_lt
  unfold push at h ⊢
  split at h
  · cases h
  · split at h
    · cases h
    · rename_i hopen hroom
      rw [if_neg hopen, if_neg hroom]
      have hroom' : q.count + 1 < capacity := by
        simp only [count, capacity] at hroom ⊢
        omega
      have hcount : ((q.head + 1) % capacity + capacity - q.tail) % capacity = q.count + 1 := by
        simp only [count, capacity] at hroom ⊢
        omega
      have hpush : Ring.window (Function.update q.entries ((q.tail + q.count) % capacity) event)
          capacity q.tail (q.count + 1) = q.contents ++ [event] :=
        Ring.window_push q.entries (Nat.lt_of_succ_lt hroom') event
      rw [← q.head_eq] at hpush
      simpa only [contents, count, hcount] using hpush

/-- **A pop takes the oldest**, or finds nothing queued. -/
theorem pop_contents (q : InputQueue) :
    q.contents = q.pop.1.toList ++ q.pop.2.contents := by
  have hh := q.head_lt
  have ht := q.tail_lt
  unfold pop
  split
  · rfl
  · rename_i hne
    have hpos : q.count ≠ 0 := fun h => hne (q.count_eq_zero_iff.mp h)
    have hcount : (q.head + capacity - (q.tail + 1) % capacity) % capacity = q.count - 1 := by
      simp only [count, capacity] at hpos ⊢
      omega
    obtain ⟨n, hn⟩ := Nat.exists_eq_succ_of_ne_zero hpos
    have hwindow := Ring.window_pop q.entries capacity q.tail n
    rw [Nat.mod_eq_of_lt ht] at hwindow
    simp only [contents, count, hcount]
    rw [← count, hn]
    exact hwindow

theorem pop_cons {q : InputQueue} {event : InputEvent} {rest : List InputEvent}
    (h : q.contents = event :: rest) : q.pop.1 = some event ∧ q.pop.2.contents = rest := by
  have hpop := q.pop_contents
  rw [h] at hpop
  by_cases he : q.tail = q.head
  · have hempty : q.contents = [] := by simp [contents, q.count_eq_zero_iff.mpr he]
    simp [hempty] at h
  · have hsome : q.pop.1 = some (q.entries q.tail) := by simp [pop, he]
    rw [hsome, Option.toList_some, List.singleton_append, List.cons.injEq] at hpop
    exact ⟨hsome.trans (congrArg some hpop.1.symm), hpop.2.symm⟩

end InputQueue

end SoftPC
