import SoftPC.Lib.Types
import SoftPC.Machinery.Ring

/-!
# KvmBase/Mailbox — the control queue of a leaf, with a slot kept for STOP

`lib/kvm-base/mailbox.c`, the control half.  Every entry point does its work under the control lock,
so an interleaving of the callers is a list of operations (`Op`).  Ordinary commands fill 32 cells of
a ring of 33; STOP closes the mailbox as it is queued, so that nothing comes after it and the cell
that is left is its own.
-/

namespace SoftPC

/-- `kvm_component_control`. -/
structure Control where
  kind : UInt32
  payload : Fin 128 → UInt8

/-- `KVM_COMPONENT_CONTROL_STOP`. -/
def Control.isStop (c : Control) : Bool := c.kind == 0

/-- The control queue of `kvm_component_mailboxes`. -/
structure Mailbox where
  controls : ℕ → Control
  head : ℕ
  count : ℕ
  closed : Bool
  head_lt : head < 33
  count_le : count ≤ 33
  /-- The last cell is STOP's, which closes. -/
  room : closed = false → count ≤ 32

namespace Mailbox

/-- `KVM_COMPONENT_CONTROL_CAPACITY` and `KVM_COMPONENT_CONTROL_STORAGE_CAPACITY`. -/
def capacity : ℕ := 32
def storageCapacity : ℕ := 33

/-- `kvm_component_mailboxes_create`, once its locks exist. -/
def create : Mailbox where
  controls _ := ⟨0, fun _ => 0⟩
  head := 0
  count := 0
  closed := false
  head_lt := by decide
  count_le := by decide
  room _ := by decide

variable (m : Mailbox)

/-- The command stored past the window; `stop` closes first. -/
def append (c : Control) (stop : Bool) (hcount : m.count ≤ 32) (hroom : stop = false → m.count < 32) :
    Mailbox where
  controls := Function.update m.controls ((m.head + m.count) % storageCapacity) c
  head := m.head
  count := m.count + 1
  closed := m.closed || stop
  head_lt := m.head_lt
  count_le := Nat.succ_le_succ hcount
  room h := hroom (Bool.or_eq_false_iff.mp h).2

/-- `kvm_component_mailboxes_enqueue_control`. -/
def enqueueControl (c : Control) : Status × Mailbox :=
  if hstop : c.isStop then
    if hclosed : m.closed then (.ok, m)
    else (.ok, m.append c true (m.room (Bool.not_eq_true _ ▸ hclosed)) nofun)
  else if hfull : m.closed ∨ m.count = capacity then
    (if m.closed then .invalidState else .limitExceeded, m)
  else
    have hcount : m.count < 32 := by
      obtain ⟨hclosed, hne⟩ := not_or.mp hfull
      exact lt_of_le_of_ne (m.room (Bool.not_eq_true _ ▸ hclosed)) hne
    (.ok, m.append c false (Nat.le_of_lt hcount) fun _ => hcount)

/-- `kvm_component_mailboxes_take_control`. -/
def takeControl : Option Control × Mailbox :=
  if m.count = 0 then (none, m)
  else
    (some (m.controls m.head),
      { m with
        head := (m.head + 1) % storageCapacity
        count := m.count - 1
        head_lt := Nat.mod_lt _ (by decide)
        count_le := (Nat.sub_le _ _).trans m.count_le
        room := fun h => (Nat.sub_le _ _).trans (m.room h) })

/-- `kvm_component_mailboxes_close`. -/
def close : Mailbox := { m with closed := true, room := nofun }

/-- The commands queued, first to last. -/
def queued : List Control := Ring.window m.controls storageCapacity m.head m.count

/-! ## What an operation does to the queue -/

variable {m} {c : Control}

theorem queued_length : m.queued.length = m.count := Ring.window_length _ _ _ _

theorem append_queued {stop : Bool} (hcount : m.count ≤ 32) (hroom : stop = false → m.count < 32) :
    (m.append c stop hcount hroom).queued = m.queued ++ [c] :=
  Ring.window_push m.controls (Nat.lt_succ_of_le hcount) c

/-- **Enqueue**: the command goes to the end of the queue, and closes if it is STOP; or nothing
changes, for a reason that the status gives. -/
theorem enqueueControl_cases (m : Mailbox) (c : Control) :
    (m.closed = false ∧ (c.isStop ∨ m.count < 32) ∧ (m.enqueueControl c).1 = .ok ∧
      (m.enqueueControl c).2.queued = m.queued ++ [c] ∧
      (m.enqueueControl c).2.closed = c.isStop) ∨
    ((m.enqueueControl c).2 = m ∧
      ((c.isStop ∧ m.closed ∧ (m.enqueueControl c).1 = .ok) ∨
        (c.isStop = false ∧ m.closed ∧ (m.enqueueControl c).1 = .invalidState) ∨
        (c.isStop = false ∧ m.closed = false ∧ m.count = 32 ∧
          (m.enqueueControl c).1 = .limitExceeded))) := by
  unfold enqueueControl
  split_ifs with hstop hclosed hfull hclosed'
  · exact .inr ⟨rfl, .inl ⟨hstop, hclosed, rfl⟩⟩
  · have hopen : m.closed = false := Bool.not_eq_true _ ▸ hclosed
    refine .inl ⟨hopen, .inl hstop, rfl, append_queued (m.room hopen) fun h => absurd h.symm Bool.false_ne_true, ?_⟩
    rw [hstop]
    exact Bool.or_true _
  · exact .inr ⟨rfl, .inr (.inl ⟨Bool.not_eq_true _ ▸ hstop, hclosed', rfl⟩)⟩
  · have hcount : m.count = 32 := hfull.resolve_left hclosed'
    exact .inr ⟨rfl, .inr (.inr ⟨Bool.not_eq_true _ ▸ hstop, Bool.not_eq_true _ ▸ hclosed', hcount, rfl⟩)⟩
  · obtain ⟨hopen, hne⟩ := not_or.mp hfull
    have hopen' : m.closed = false := Bool.not_eq_true _ ▸ hopen
    have hcount : m.count < 32 := lt_of_le_of_ne (m.room hopen') hne
    refine .inl ⟨hopen', .inr hcount, rfl, append_queued (Nat.le_of_lt hcount) fun _ => hcount, ?_⟩
    have hordinary : c.isStop = false := Bool.not_eq_true _ ▸ hstop
    rw [hordinary]
    change (m.closed || false) = false
    rw [hopen', Bool.or_false]

/-- **Take**: the first of the queue leaves it. -/
theorem takeControl_queued (m : Mailbox) :
    m.queued = (m.takeControl.1.toList) ++ m.takeControl.2.queued ∧
      (m.takeControl.1 = none → m.queued = []) ∧ m.takeControl.2.closed = m.closed := by
  unfold takeControl
  split
  · rename_i hzero
    have hempty : m.queued = [] := List.length_eq_zero_iff.mp (queued_length.trans hzero)
    exact ⟨rfl, fun _ => hempty, rfl⟩
  · rename_i hne
    refine ⟨?_, nofun, rfl⟩
    have hhead : m.head % storageCapacity = m.head := Nat.mod_eq_of_lt m.head_lt
    have hcount : m.count = m.count - 1 + 1 := by omega
    calc m.queued
        = Ring.window m.controls storageCapacity m.head (m.count - 1 + 1) :=
          congrArg (Ring.window m.controls storageCapacity m.head) hcount
      _ = m.controls m.head ::
            Ring.window m.controls storageCapacity ((m.head + 1) % storageCapacity) (m.count - 1) := by
          rw [Ring.window_pop, hhead]

/-! ## Histories -/

/-- What a caller does. -/
inductive Op where
  | enqueue (c : Control)
  | take
  | close

/-- A mailbox, with the commands that were queued and those that were taken. -/
structure History where
  mailbox : Mailbox := create
  accepted : List Control := []
  taken : List Control := []

namespace History

/-- One operation.  A command is accepted where it takes a cell. -/
def step (h : History) : Op → History
  | .enqueue c =>
    let m := (h.mailbox.enqueueControl c).2
    { h with
      mailbox := m
      accepted := if m.count = h.mailbox.count + 1 then h.accepted ++ [c] else h.accepted }
  | .take =>
    { h with mailbox := h.mailbox.takeControl.2, taken := h.taken ++ h.mailbox.takeControl.1.toList }
  | .close => { h with mailbox := h.mailbox.close }

def run (ops : List Op) : History := ops.foldl step {}

/-- What was accepted was taken or waits; STOP is the last of it, and nothing is accepted after it. -/
structure Inv (h : History) : Prop where
  fifo : h.accepted = h.taken ++ h.mailbox.queued
  stop_last : ∀ before c after, h.accepted = before ++ c :: after → c.isStop →
    after = [] ∧ h.mailbox.closed

variable {h : History}

theorem Inv.enqueue (hinv : Inv h) (c : Control) : Inv (h.step (.enqueue c)) := by
  rcases h.mailbox.enqueueControl_cases c with ⟨hopen, -, -, hqueued, hclosed⟩ | ⟨hsame, -⟩
  · have hcount : (h.mailbox.enqueueControl c).2.count = h.mailbox.count + 1 := by
      rw [← queued_length, hqueued, List.length_append, queued_length]
      rfl
    have haccepted : (h.step (.enqueue c)).accepted = h.accepted ++ [c] := if_pos hcount
    refine ⟨?_, fun before d after heq hstop => ?_⟩
    · rw [haccepted, hinv.fifo, List.append_assoc]
      exact congrArg (h.taken ++ ·) hqueued.symm
    · -- An open mailbox has accepted no STOP, so that it can only be the new one.
      rw [haccepted] at heq
      rcases List.eq_nil_or_concat' after with rfl | ⟨rest, last, rfl⟩
      · obtain ⟨-, hlast⟩ := List.append_inj' heq rfl
        obtain rfl : c = d := List.head_eq_of_cons_eq hlast
        exact ⟨rfl, hclosed.trans hstop⟩
      · rw [← List.cons_append, ← List.append_assoc] at heq
        obtain ⟨hinit, -⟩ := List.append_inj' heq rfl
        have := (hinv.stop_last before d rest hinit hstop).2
        rw [hopen] at this
        cases this
  · have hcount : (h.mailbox.enqueueControl c).2.count ≠ h.mailbox.count + 1 := by
      rw [hsame]
      exact Nat.ne_of_lt (Nat.lt_succ_self _)
    have hstep : h.step (.enqueue c) = h := by
      simp only [step, hsame, if_neg (Nat.ne_of_lt (Nat.lt_succ_self h.mailbox.count))]
    rw [hstep]
    exact hinv

theorem Inv.take (hinv : Inv h) : Inv (h.step .take) := by
  obtain ⟨hqueued, -, hclosed⟩ := h.mailbox.takeControl_queued
  refine ⟨?_, fun before c after heq hstop => ?_⟩
  · change h.accepted = (h.taken ++ h.mailbox.takeControl.1.toList) ++ h.mailbox.takeControl.2.queued
    rw [hinv.fifo, List.append_assoc, ← hqueued]
  · obtain ⟨hafter, hmailbox⟩ := hinv.stop_last before c after heq hstop
    exact ⟨hafter, hclosed.trans hmailbox⟩

theorem Inv.close (hinv : Inv h) : Inv (h.step .close) :=
  ⟨hinv.fifo, fun before c after heq hstop => ⟨(hinv.stop_last before c after heq hstop).1, rfl⟩⟩

/-- **Step.** -/
theorem Inv.step (hinv : Inv h) (op : Op) : Inv (h.step op) := by
  cases op with
  | enqueue c => exact hinv.enqueue c
  | take => exact hinv.take
  | close => exact hinv.close

/-- **Run.** -/
theorem run_inv (ops : List Op) : Inv (run ops) := by
  induction ops using List.reverseRecOn with
  | nil => exact ⟨rfl, fun before c after heq _ => absurd heq (by simp [run])⟩
  | append_singleton ops op ih =>
    rw [run, List.foldl_append]
    exact ih.step op

/-- A closed mailbox stays closed and accepts nothing. -/
theorem closed_step (hclosed : h.mailbox.closed) (op : Op) :
    (h.step op).mailbox.closed ∧ (h.step op).accepted = h.accepted := by
  cases op with
  | enqueue c =>
    rcases h.mailbox.enqueueControl_cases c with ⟨hopen, -⟩ | ⟨hsame, -⟩
    · rw [hclosed] at hopen
      cases hopen
    · simp only [step, hsame]
      exact ⟨hclosed, if_neg (Nat.ne_of_lt (Nat.lt_succ_self _))⟩
  | take => exact ⟨h.mailbox.takeControl_queued.2.2.trans hclosed, rfl⟩
  | close => exact ⟨rfl, rfl⟩

theorem closed_run (hclosed : h.mailbox.closed) (ops : List Op) :
    (ops.foldl step h).mailbox.closed ∧ (ops.foldl step h).accepted = h.accepted := by
  induction ops generalizing h with
  | nil => exact ⟨hclosed, rfl⟩
  | cons op rest ih =>
    obtain ⟨hstep, haccepted⟩ := closed_step hclosed op
    obtain ⟨hrun, hrest⟩ := ih hstep
    exact ⟨hrun, hrest.trans haccepted⟩

theorem run_append (ops more : List Op) : run (ops ++ more) = more.foldl step (run ops) :=
  List.foldl_append

/-- A mailbox that was closed is. -/
theorem closed_of_mem {ops : List Op} (h : Op.close ∈ ops) : (run ops).mailbox.closed := by
  obtain ⟨before, after, rfl⟩ := List.append_of_mem h
  rw [run_append]
  have hstep : ((run before).step .close).mailbox.closed := rfl
  exact (closed_run hstep after).1

theorem taken_grows (h : History) (ops : List Op) : ∃ tail, (ops.foldl step h).taken = h.taken ++ tail := by
  induction ops generalizing h with
  | nil => exact ⟨[], (List.append_nil _).symm⟩
  | cons op rest ih =>
    obtain ⟨tail, htail⟩ := ih (h.step op)
    cases op with
    | enqueue c => exact ⟨tail, htail⟩
    | take => exact ⟨_, htail.trans (List.append_assoc _ _ _)⟩
    | close => exact ⟨tail, htail⟩

/-- For every interleaving of enqueue, take and close, and every continuation of it: what was accepted
is what was taken followed by what waits, first in first out; the ring holds at most 33; STOP is the
last command accepted and taken, and after it or a close nothing is accepted; an open mailbox accepts
a STOP whatever is queued, and an ordinary command only while fewer than 32 are; and a command that is
not accepted leaves the mailbox as it is. -/
theorem control_fifo_ends_with_stop (ops more : List Op) :
    let h := run ops
    let later := run (ops ++ more)
    h.accepted = h.taken ++ h.mailbox.queued ∧
    h.mailbox.takeControl.1 = h.mailbox.queued.head? ∧
    h.mailbox.queued.length ≤ 33 ∧
    (∀ before c after, h.accepted = before ++ c :: after → c.isStop → after = []) ∧
    (∀ before c after, h.taken = before ++ c :: after → c.isStop →
      after = [] ∧ later.taken = h.taken) ∧
    (.close ∈ ops ∨ (∃ c ∈ h.accepted, c.isStop) → later.accepted = h.accepted) ∧
    ∀ c,
      let r := h.mailbox.enqueueControl c
      (h.mailbox.closed = false ∧ (c.isStop ∨ h.mailbox.queued.length < 32) → r.1 = .ok ∧
        r.2.queued = h.mailbox.queued ++ [c] ∧ (h.step (.enqueue c)).accepted = h.accepted ++ [c]) ∧
      (h.mailbox.closed ∨ c.isStop = false ∧ h.mailbox.queued.length = 32 → r.2 = h.mailbox ∧
        (h.step (.enqueue c)).accepted = h.accepted ∧
        r.1 = if c.isStop then .ok else if h.mailbox.closed then .invalidState else .limitExceeded) := by
  intro h later
  have hinv : Inv h := run_inv ops
  have hlater : later = more.foldl step h := run_append ops more
  have hclosed_of : Op.close ∈ ops ∨ (∃ c ∈ h.accepted, c.isStop) → h.mailbox.closed := by
    rintro (hclose | ⟨c, hc, hstop⟩)
    · exact closed_of_mem hclose
    · obtain ⟨before, after, heq⟩ := List.append_of_mem hc
      exact (hinv.stop_last before c after heq hstop).2
  refine ⟨hinv.fifo, ?_, ?_, fun before c after heq hstop => (hinv.stop_last before c after heq hstop).1,
    fun before c after heq hstop => ?_, fun hstopped => ?_, fun c => ?_⟩
  · obtain ⟨hqueued, hnone, -⟩ := h.mailbox.takeControl_queued
    cases htake : h.mailbox.takeControl.1 with
    | none => rw [hnone htake, List.head?_nil]
    | some c => rw [hqueued, htake, Option.toList_some, List.singleton_append, List.head?_cons]
  · rw [queued_length]
    exact h.mailbox.count_le
  · -- STOP taken: everything accepted was taken, and nothing more is accepted.
    have haccepted : h.accepted = before ++ c :: (after ++ h.mailbox.queued) := by
      rw [hinv.fifo, heq, List.append_assoc, List.cons_append]
    obtain ⟨hnil, hclosed⟩ := hinv.stop_last before c _ haccepted hstop
    obtain ⟨hafter, hqueued⟩ := List.append_eq_nil_iff.mp hnil
    have hsame : later.accepted = h.accepted := hlater ▸ (closed_run hclosed more).2
    have hfifo : later.accepted = later.taken ++ later.mailbox.queued := (run_inv (ops ++ more)).fifo
    have hprefix : ∃ tail, later.taken = h.taken ++ tail := by
      rw [hlater]
      exact taken_grows h more
    obtain ⟨tail, htail⟩ := hprefix
    refine ⟨hafter, ?_⟩
    have hlength := congrArg List.length (hsame.symm.trans hfifo)
    rw [hinv.fifo, hqueued, htail, List.append_nil, List.length_append, List.length_append] at hlength
    have hzero : tail = [] := List.length_eq_zero_iff.mp (by omega)
    rw [htail, hzero, List.append_nil]
  · rw [hlater]
    exact (closed_run (hclosed_of hstopped) more).2
  · have hcount : h.mailbox.count = h.mailbox.queued.length := queued_length.symm
    rcases h.mailbox.enqueueControl_cases c with
      ⟨hopen, hroom, hok, hqueued, -⟩ | ⟨hsame, hwhy⟩
    · have hgrown : (h.mailbox.enqueueControl c).2.count = h.mailbox.count + 1 := by
        rw [← queued_length, hqueued, List.length_append, queued_length]
        rfl
      refine ⟨fun _ => ⟨hok, hqueued, if_pos hgrown⟩, ?_⟩
      rintro (hclosed | ⟨hordinary, hfull⟩)
      · rw [hopen] at hclosed
        cases hclosed
      · rw [hordinary] at hroom
        rcases hroom with hroom | hroom
        · cases hroom
        · omega
    · have haccepted : (h.step (.enqueue c)).accepted = h.accepted := by
        simp only [step, hsame]
        exact if_neg (Nat.ne_of_lt (Nat.lt_succ_self _))
      refine ⟨?_, fun _ => ⟨hsame, haccepted, ?_⟩⟩
      · rintro ⟨hopen, hroom⟩
        rcases hwhy with ⟨-, hclosed, -⟩ | ⟨-, hclosed, -⟩ | ⟨hordinary, -, hfull, -⟩
        · rw [hopen] at hclosed
          cases hclosed
        · rw [hopen] at hclosed
          cases hclosed
        · rw [hordinary] at hroom
          rcases hroom with hroom | hroom
          · cases hroom
          · omega
      · rcases hwhy with ⟨hstop, -, hok⟩ | ⟨hordinary, hclosed, hstatus⟩ | ⟨hordinary, hopen, -, hstatus⟩
        · rw [hok, if_pos hstop]
        · rw [hstatus, hordinary, if_neg Bool.false_ne_true, if_pos hclosed]
        · rw [hstatus, hordinary, hopen, if_neg Bool.false_ne_true, if_neg Bool.false_ne_true]

end History

end Mailbox

end SoftPC
