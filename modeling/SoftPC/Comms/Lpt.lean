import Mathlib.Data.Nat.Notation
import Mathlib.Logic.Function.Basic
import Mathlib.Tactic.Common

/-!
# Comms/Lpt — the printer ports of the host

    host_print_byte ─▸ buffer ──flush_buffer──▸ file writer, or the virtual sink

`compat/parallel.c`.  What a port has taken is its *stream*: the bytes accepted, and those in its buffer.  A byte
is refused and yet in the stream if it fills the buffer and the writer does not take it (`printed_exactly`), and a
port that was busy once stays so while it is open.
-/

namespace SoftPC.Lpt

def numParallelPorts : ℕ := 3

def kbufferSize : ℕ := 1024

/-- `HIGH_WATER` and `DIRECT_ACCESS_HIGH_WATER`. -/
def highWater : ℕ := 1020

def directAccessHighWater : ℕ := 1020

/-- What the writer does when the buffer is written: how much it takes, and whether the write and the flush after it
succeed. -/
structure Reply where
  written : ℕ
  writeOk : Bool
  flushOk : Bool

/-- All of `n` bytes are taken, without an error. -/
def Reply.Takes (r : Reply) (n : ℕ) : Prop := n ≤ r.written ∧ r.writeOk = true ∧ r.flushOk = true

instance (r : Reply) (n : ℕ) : Decidable (r.Takes n) := inferInstanceAs (Decidable (_ ∧ _))

/-- `HOST_LPT`, and the bytes that its writer or its sink has accepted; of `port_status` only `HOST_LPT_BUSY` is
ever set. -/
structure Port where
  busy : Bool
  inactiveCounter : ℕ
  inactiveTrigger : ℕ
  flushThreshold : ℕ
  active : Bool
  directAccess : Bool
  noDeviceAttached : Bool
  buffer : List (BitVec 8)
  output : Bool
  outputPath : Bool
  accepted : List (BitVec 8)

namespace Port

variable (s : Port)

/-- The stream of a port. -/
def stream : List (BitVec 8) := s.accepted ++ s.buffer

def flushBuffer (r : Reply) : Bool × Port :=
  if !s.active then (false, s)
  else if s.output && s.buffer ≠ [] then
    let written := min r.written s.buffer.length
    if written ≠ 0 ∧ written < s.buffer.length then
      (false, { s with
        accepted := s.accepted ++ s.buffer.take written
        buffer := s.buffer.drop written })
    else if written ≠ s.buffer.length then (false, s)
    else (r.flushOk && r.writeOk, { s with accepted := s.accepted ++ s.buffer, buffer := [] })
  else (true, { s with accepted := s.accepted ++ s.buffer, buffer := [] })

/-- `host_lpt_open`; `there` says that the buffer is allocated and the file opens. -/
def hostLptOpen (directAccess there : Bool) : Bool × Port :=
  if directAccess && s.noDeviceAttached then (false, s)
  else if s.active then (true, s)
  else if !there then (false, s)
  else
    (true, { s with
      output := s.outputPath
      buffer := []
      flushThreshold := if directAccess then directAccessHighWater else highWater
      busy := false
      inactiveCounter := 0
      inactiveTrigger := 0
      directAccess := directAccess
      active := true })

def hostLptClose (r : Reply) : Port :=
  if !s.active then s
  else
    { (s.flushBuffer r).2 with
      output := false
      buffer := []
      active := false
      directAccess := false
      busy := false }

def hostSetLptDirectAccess (directAccess there : Bool) (r : Reply) : Bool × Port :=
  let o := (s.hostLptClose r).hostLptOpen directAccess there
  (o.1, if o.1 then o.2 else { o.2 with busy := true })

/-- `lpt->buffer[lpt->bytes_in_buffer++] = value`. -/
def store (value : BitVec 8) : Port := { s with buffer := s.buffer ++ [value] }

/-- The end of `host_print_byte`: the byte is stored, and the buffer flushed once it is full. -/
def storeByte (value : BitVec 8) (r : Reply) : Bool × Port :=
  if kbufferSize ≤ s.buffer.length then (false, { s with busy := true })
  else if (s.store value).flushThreshold ≤ (s.store value).buffer.length then
    let f := (s.store value).flushBuffer r
    if f.1 then (true, { f.2 with inactiveCounter := 0 }) else (false, { f.2 with busy := true })
  else (true, { s.store value with inactiveCounter := 0 })

/-- `host_print_byte`, of which the buffer may be flushed before and after the byte is stored. -/
def hostPrintByte (value : BitVec 8) (there : Bool) (before after : Reply) : Bool × Port :=
  let o := s.hostLptOpen false there
  if !o.1 then (false, { o.2 with busy := true })
  else if o.2.flushThreshold ≤ o.2.buffer.length then
    let f := o.2.flushBuffer before
    if f.1 then f.2.storeByte value after else (false, { f.2 with busy := true })
  else o.2.storeByte value after

/-- `host_lpt_heart_beat`, of one port. -/
def heartBeat (r : Reply) : Port :=
  if s.active && s.inactiveTrigger ≠ 0 then
    let s := { s with inactiveCounter := s.inactiveCounter + 1 }
    if s.inactiveCounter = s.inactiveTrigger then s.hostLptClose r else s
  else s

end Port

/-! ## Calls -/

/-- The calls of a port, with what the host answers. -/
inductive Call where
  | printByte (value : BitVec 8) (there : Bool) (before after : Reply)
  | printDoc (r : Reply)
  | heartBeat (r : Reply)
  | status
  | readStatusPort (there : Bool) (r : Reply)
  | setDirectAccess (directAccess there : Bool) (r : Reply)
  | close (r : Reply)

/-- A call, and what it returns. -/
def Port.call (s : Port) : Call → Bool × Port
  | .printByte value there before after => s.hostPrintByte value there before after
  | .printDoc r => s.flushBuffer r
  | .heartBeat r => (true, s.heartBeat r)
  | .status => (s.busy, s)
  | .readStatusPort there r => (false, (s.hostSetLptDirectAccess true there r).2)
  | .setDirectAccess directAccess there r => s.hostSetLptDirectAccess directAccess there r
  | .close r => (true, s.hostLptClose r)

/-- The ports as the host starts: none is open. -/
def Port.initial (noDeviceAttached outputPath : Bool) : Port where
  busy := false
  inactiveCounter := 0
  inactiveTrigger := 0
  flushThreshold := 0
  active := false
  directAccess := false
  noDeviceAttached := noDeviceAttached
  buffer := []
  output := false
  outputPath := outputPath
  accepted := []

/-- The ports after calls to them; the heart beat is a call to each. -/
def run (ports : Fin numParallelPorts → Port) (calls : List (Fin numParallelPorts × Call)) :
    Fin numParallelPorts → Port :=
  calls.foldl (fun ports c => Function.update ports c.1 ((ports c.1).call c.2).2) ports

/-! ## The buffer -/

namespace Port

variable {s : Port} {r before after : Reply} {value : BitVec 8} {there : Bool}

/-- What a flush leaves: bytes move on along the stream, and all of them if it succeeds. -/
theorem flushBuffer_spec (s : Port) (r : Reply) : ∃ accepted buffer, (s.flushBuffer r).2 = { s with accepted, buffer } ∧
    accepted ++ buffer = s.stream ∧ buffer.length ≤ s.buffer.length ∧
    ((s.flushBuffer r).1 = true → buffer = []) ∧
    (s.active = true → ((s.flushBuffer r).1 = true ↔ ¬(s.output = true ∧ s.buffer ≠ [] ∧ ¬r.Takes s.buffer.length))) := by
  rw [flushBuffer]
  split
  · rename_i hidle
    refine ⟨s.accepted, s.buffer, rfl, rfl, Nat.le_refl _, nofun, fun hactive => ?_⟩
    rw [hactive] at hidle
    cases hidle
  · split
    · rename_i hwrite
      rw [Bool.and_eq_true, decide_eq_true_eq] at hwrite
      dsimp only
      split
      · rename_i hpart
        refine ⟨_, _, rfl, ?_, ?_, nofun, fun _ => iff_of_false Bool.false_ne_true fun h => h ⟨hwrite.1, hwrite.2, ?_⟩⟩
        · rw [List.append_assoc, List.take_append_drop]
          rfl
        · rw [List.length_drop]
          omega
        · intro htakes
          have := htakes.1
          omega
      · split
        · rename_i hnone
          refine ⟨s.accepted, s.buffer, rfl, rfl, Nat.le_refl _, nofun, fun _ =>
            iff_of_false Bool.false_ne_true fun h => h ⟨hwrite.1, hwrite.2, fun htakes => ?_⟩⟩
          have := htakes.1
          omega
        · rename_i hall
          refine ⟨s.accepted ++ s.buffer, [], rfl, List.append_nil _, Nat.zero_le _, fun _ => rfl, fun _ => ?_⟩
          rw [Bool.and_eq_true]
          have hwritten : s.buffer.length ≤ r.written := by omega
          constructor
          · rintro ⟨hflush, hok⟩ ⟨-, -, hnot⟩
            exact hnot ⟨hwritten, hok, hflush⟩
          · intro h
            have htakes : r.Takes s.buffer.length := by
              by_contra hnot
              exact h ⟨hwrite.1, hwrite.2, hnot⟩
            exact ⟨htakes.2.2, htakes.2.1⟩
    · rename_i hsink
      refine ⟨s.accepted ++ s.buffer, [], rfl, List.append_nil _, Nat.zero_le _, fun _ => rfl, fun _ =>
        iff_of_true rfl fun h => hsink ?_⟩
      rw [h.1, decide_eq_true h.2.1]
      rfl

theorem flushBuffer_stream (s : Port) (r : Reply) : (s.flushBuffer r).2.stream = s.stream := by
  obtain ⟨accepted, buffer, heq, hstream, -⟩ := s.flushBuffer_spec r
  rw [heq]
  exact hstream

/-- **A port**: what is open is flushed at the high water, and holds no more; the heart beat closes none. -/
structure Sound (s : Port) : Prop where
  threshold : s.active = true → s.flushThreshold = highWater
  room : s.buffer.length ≤ highWater
  closed : s.active = false → s.buffer = []
  trigger : s.inactiveTrigger = 0

theorem Sound.flushBuffer (h : s.Sound) (r : Reply) : (s.flushBuffer r).2.Sound := by
  obtain ⟨accepted, buffer, heq, -, hlength, -⟩ := s.flushBuffer_spec r
  rw [heq]
  refine ⟨h.threshold, Nat.le_trans hlength h.room, fun hclosed => ?_, h.trigger⟩
  rw [h.closed hclosed] at hlength
  exact List.eq_nil_of_length_eq_zero (Nat.le_zero.mp hlength)

theorem Sound.hostLptClose (h : s.Sound) (r : Reply) : (s.hostLptClose r).Sound := by
  rw [Port.hostLptClose]
  split
  · exact h
  · refine ⟨nofun, Nat.zero_le _, fun _ => rfl, ?_⟩
    obtain ⟨accepted, buffer, heq, -⟩ := s.flushBuffer_spec r
    rw [heq]
    exact h.trigger

theorem Sound.hostLptOpen (h : s.Sound) (directAccess there : Bool) : (s.hostLptOpen directAccess there).2.Sound := by
  rw [Port.hostLptOpen]
  split
  · exact h
  split
  · exact h
  split
  · exact h
  · refine ⟨fun _ => ?_, Nat.zero_le _, nofun, rfl⟩
    change (if directAccess then directAccessHighWater else highWater) = highWater
    split <;> rfl

theorem Sound.hostSetLptDirectAccess (h : s.Sound) (directAccess there : Bool) (r : Reply) :
    (s.hostSetLptDirectAccess directAccess there r).2.Sound := by
  rw [Port.hostSetLptDirectAccess]
  have ho := (h.hostLptClose r).hostLptOpen directAccess there
  dsimp only
  split
  · exact ho
  · exact ⟨ho.threshold, ho.room, ho.closed, ho.trigger⟩

/-! ## A byte -/

/-- A byte where there is room is in the stream, whatever is returned. -/
theorem storeByte_spec (h : s.Sound) (hactive : s.active = true) (hroom : s.buffer.length < highWater) :
    (s.storeByte value r).2.stream = s.stream ++ [value] ∧
      ((s.storeByte value r).1 = true ↔
        ¬(s.output = true ∧ s.buffer.length + 1 = highWater ∧ ¬r.Takes highWater)) ∧
      ((s.storeByte value r).1 = true → (s.storeByte value r).2.busy = s.busy) ∧ (s.storeByte value r).2.Sound := by
  have hsize : ¬kbufferSize ≤ s.buffer.length := Nat.not_le_of_lt (Nat.lt_trans hroom (by decide))
  have hlength : (s.store value).buffer.length = s.buffer.length + 1 := List.length_append
  have hthreshold : (s.store value).flushThreshold = highWater := h.threshold hactive
  have hstored : (s.store value).Sound :=
    ⟨h.threshold, hlength ▸ hroom, fun hclosed => absurd (hactive.symm.trans hclosed) (Bool.false_ne_true ·.symm),
      h.trigger⟩
  have hstream : (s.store value).stream = s.stream ++ [value] := (List.append_assoc _ _ _).symm
  rw [storeByte, if_neg hsize, hthreshold, hlength]
  split
  · rename_i hfull
    have heq : s.buffer.length + 1 = highWater := Nat.le_antisymm hroom hfull
    obtain ⟨accepted, buffer, hflush, hsame, -, -, hok⟩ := (s.store value).flushBuffer_spec r
    have hne : (s.store value).buffer ≠ [] := List.append_ne_nil_of_right_ne_nil _ (List.cons_ne_nil _ _)
    have hiff : ((s.store value).flushBuffer r).1 = true ↔
        ¬(s.output = true ∧ s.buffer.length + 1 = highWater ∧ ¬r.Takes highWater) := by
      rw [hok hactive, hlength, heq]
      exact not_congr (and_congr_right fun _ => and_congr_left fun _ => iff_of_true hne rfl)
    have hsound := hstored.flushBuffer r
    have hflushed : ((s.store value).flushBuffer r).2.stream = s.stream ++ [value] :=
      (flushBuffer_stream _ r).trans hstream
    have hbusy : ((s.store value).flushBuffer r).2.busy = s.busy := by
      rw [hflush]
      rfl
    generalize (s.store value).flushBuffer r = f at hiff hsound hflushed hbusy ⊢
    dsimp only
    split
    · rename_i htaken
      exact ⟨hflushed, iff_of_true rfl (hiff.mp htaken), fun _ => hbusy, hsound.threshold, hsound.room, hsound.closed,
        hsound.trigger⟩
    · rename_i hrefused
      exact ⟨hflushed, iff_of_false Bool.false_ne_true fun htaken => hrefused (hiff.mpr htaken), nofun,
        hsound.threshold, hsound.room, hsound.closed,
        hsound.trigger⟩
  · rename_i hpart
    refine ⟨hstream, iff_of_true rfl fun hfull => ?_, fun _ => rfl, hstored.threshold, hstored.room, hstored.closed,
      hstored.trigger⟩
    exact hpart (Nat.le_of_eq hfull.2.1.symm)

/-- A byte is appended if it is taken, and else nothing changes. -/
def PrintedOnce (s : Port) (value : BitVec 8) (o : Bool × Port) : Prop :=
  o.2.stream = s.stream ++ if o.1 then [value] else []

/-- A port is not busy after it has taken a byte. -/
def BusyUntilTaken (o : Bool × Port) : Prop := o.1 = true → o.2.busy = false

/-- **When a byte is printed as it should be**: an open port's writer takes the buffer that the byte fills, and an
open port that is busy takes none. -/
def Meets (s : Port) (before after : Reply) : Prop :=
  s.active = true →
    ¬(s.output = true ∧ s.buffer.length + 1 = highWater ∧ ¬after.Takes highWater) ∧
    (s.busy = true → s.output = true ∧ s.buffer.length = highWater ∧ ¬before.Takes highWater)

theorem printed_iff {o : Bool × Port} (hstream : o.2.stream = s.stream ++ [value]) :
    PrintedOnce s value o ↔ o.1 = true := by
  rw [PrintedOnce, hstream, List.append_cancel_left_eq]
  cases o.1 <;> simp

/-- A byte stored in a port `t` whose stream is that of `s`. -/
theorem stored_iff {t : Port} (h : t.Sound) (hactive : t.active = true) (hroom : t.buffer.length < highWater)
    (hstream : t.stream = s.stream) :
    (PrintedOnce s value (t.storeByte value r) ∧ BusyUntilTaken (t.storeByte value r)) ↔
      ¬(t.output = true ∧ t.buffer.length + 1 = highWater ∧ ¬r.Takes highWater) ∧ t.busy = false := by
  obtain ⟨happended, htaken, hbusy, -⟩ := @storeByte_spec t r value h hactive hroom
  rw [printed_iff (hstream ▸ happended), ← htaken]
  exact and_congr_right fun hok => ⟨fun h => hbusy hok ▸ h hok, fun h _ => (hbusy hok).trans h⟩

/-- A port that is not open has an empty buffer, and opens not busy. -/
theorem opened_of_closed (h : s.Sound) (hclosed : s.active = false) :
    (s.hostLptOpen false true).1 = true ∧ (s.hostLptOpen false true).2.active = true ∧
      (s.hostLptOpen false true).2.busy = false ∧ (s.hostLptOpen false true).2.buffer = [] ∧
      (s.hostLptOpen false true).2.stream = s.stream := by
  rw [hostLptOpen, Bool.false_and, if_neg Bool.false_ne_true, hclosed, if_neg Bool.false_ne_true, Bool.not_true,
    if_neg Bool.false_ne_true]
  refine ⟨rfl, rfl, rfl, rfl, ?_⟩
  rw [stream, stream, h.closed hclosed]

/-- **A byte printed**, exactly when it meets its conditions. -/
theorem printByte_iff (h : s.Sound) (value : BitVec 8) (there : Bool) (before after : Reply) :
    (PrintedOnce s value (s.hostPrintByte value there before after) ∧
      BusyUntilTaken (s.hostPrintByte value there before after)) ↔ s.Meets before after := by
  rw [hostPrintByte]
  cases hactive : s.active with
  | false =>
    refine iff_of_true ?_ fun hopen => absurd (hopen.symm.trans hactive) (Bool.false_ne_true ·.symm)
    cases there with
    | false =>
      have hopen : s.hostLptOpen false false = (false, s) := by
        rw [hostLptOpen, Bool.false_and, if_neg Bool.false_ne_true, hactive, if_neg Bool.false_ne_true]
        rfl
      rw [hopen]
      exact ⟨(List.append_nil _).symm, nofun⟩
    | true =>
      obtain ⟨hok, hopen, hidle, hempty, hstream⟩ := opened_of_closed h hactive
      have hsound := h.hostLptOpen false true
      have hthreshold := hsound.threshold hopen
      generalize s.hostLptOpen false true = o at hok hopen hidle hempty hstream hsound hthreshold ⊢
      have hroom : o.2.buffer.length < highWater := by
        rw [hempty]
        decide
      dsimp only
      rw [hok, Bool.not_true, if_neg Bool.false_ne_true, hthreshold, if_neg (Nat.not_le_of_lt hroom), stored_iff hsound hopen hroom hstream,
        hempty]
      exact ⟨fun hfull => absurd hfull.2.1 (by decide), hidle⟩
  | true =>
    have hopen : s.hostLptOpen false there = (true, s) := by
      rw [hostLptOpen, Bool.false_and, if_neg Bool.false_ne_true, hactive, if_pos rfl]
    rw [hopen]
    dsimp only
    rw [Bool.not_true, if_neg Bool.false_ne_true, h.threshold hactive, Meets, hactive]
    split
    · rename_i hfull
      have hlength : s.buffer.length = highWater := Nat.le_antisymm h.room hfull
      have hnext : s.buffer.length + 1 ≠ highWater := by omega
      have hne : s.buffer ≠ [] := fun hnil => absurd (hnil ▸ hlength) (by decide)
      obtain ⟨accepted, buffer, hflush, -, -, hdrained, hok⟩ := s.flushBuffer_spec before
      have hsound := h.flushBuffer before
      have hstream := s.flushBuffer_stream before
      have hok := hok hactive
      rw [hlength] at hok
      generalize s.flushBuffer before = f at hflush hdrained hok hsound hstream ⊢
      split
      · rename_i htaken
        have hempty : f.2.buffer = [] := by
          rw [hflush]
          exact hdrained htaken
        have hactive' : f.2.active = true := by
          rw [hflush]
          exact hactive
        have hbusy : f.2.busy = s.busy := by rw [hflush]
        rw [stored_iff hsound hactive' (by rw [hempty]; decide) hstream, hempty, hbusy]
        have hall := hok.mp htaken
        constructor
        · rintro ⟨-, hidle⟩ -
          exact ⟨fun hlast => hnext hlast.2.1, fun hbusy => absurd (hbusy.symm.trans hidle) (Bool.false_ne_true ·.symm)⟩
        · intro hmeets
          refine ⟨fun hlast => absurd hlast.2.1 (by decide), Bool.eq_false_iff.mpr fun hbusy => ?_⟩
          obtain ⟨hout, -, hnot⟩ := (hmeets rfl).2 hbusy
          exact hall ⟨hout, hne, hnot⟩
      · rename_i hrefused
        have hnot : s.output = true ∧ s.buffer ≠ [] ∧ ¬before.Takes highWater := by
          by_contra hcontra
          exact hrefused (hok.mpr hcontra)
        exact iff_of_true ⟨hstream.trans (List.append_nil _).symm, nofun⟩ fun _ =>
          ⟨fun hlast => hnext hlast.2.1, fun _ => ⟨hnot.1, hlength, hnot.2.2⟩⟩
    · rename_i hpart
      have hroom : s.buffer.length < highWater := Nat.lt_of_not_le hpart
      rw [stored_iff h hactive hroom rfl]
      constructor
      · rintro ⟨htaken, hidle⟩ -
        exact ⟨htaken, fun hbusy => absurd (hbusy.symm.trans hidle) (Bool.false_ne_true ·.symm)⟩
      · intro hmeets
        refine ⟨(hmeets rfl).1, Bool.eq_false_iff.mpr fun hbusy => ?_⟩
        exact Nat.ne_of_lt hroom ((hmeets rfl).2 hbusy).2.1

theorem Sound.storeByte (h : s.Sound) (hactive : s.active = true) (value : BitVec 8) (r : Reply)
    (hroom : s.buffer.length < highWater) : (s.storeByte value r).2.Sound :=
  (storeByte_spec h hactive hroom).2.2.2

theorem Sound.busy (h : s.Sound) : { s with busy := true }.Sound := ⟨h.threshold, h.room, h.closed, h.trigger⟩

/-- A port that opens is open. -/
theorem hostLptOpen_active (s : Port) (directAccess there : Bool) (h : (s.hostLptOpen directAccess there).1 = true) :
    (s.hostLptOpen directAccess there).2.active = true := by
  rw [hostLptOpen] at h ⊢
  split at h
  · cases h
  · rw [if_neg ‹_›]
    split at h
    · rw [if_pos ‹_›]
      assumption
    · rw [if_neg ‹_›]
      split at h
      · cases h
      · rw [if_neg ‹_›]

theorem Sound.hostPrintByte (h : s.Sound) (value : BitVec 8) (there : Bool) (before after : Reply) :
    (s.hostPrintByte value there before after).2.Sound := by
  have hsound := h.hostLptOpen false there
  have hactive := s.hostLptOpen_active false there
  rw [Port.hostPrintByte]
  generalize s.hostLptOpen false there = o at hsound hactive ⊢
  dsimp only
  split
  · exact hsound.busy
  · rename_i hopen
    rw [Bool.not_eq_true, Bool.not_eq_false'] at hopen
    have hactive := hactive hopen
    rw [hsound.threshold hactive]
    split
    · obtain ⟨accepted, buffer, hflush, -, -, hdrained, -⟩ := o.2.flushBuffer_spec before
      have hflushed := hsound.flushBuffer before
      generalize o.2.flushBuffer before = f at hflush hdrained hflushed ⊢
      split
      · rename_i htaken
        refine hflushed.storeByte ?_ value after ?_
        · rw [hflush]
          exact hactive
        · rw [hflush, hdrained htaken]
          exact Nat.zero_lt_of_lt (Nat.lt_succ_self 1019)
      · exact hflushed.busy
    · exact hsound.storeByte hactive value after (Nat.lt_of_not_le ‹_›)

/-! ## The other calls -/

/-- A close drops what its flush does not pass on. -/
def Dropped (s : Port) (r : Reply) (s' : Port) : Prop :=
  s'.buffer = [] ∧ ∃ tail, s'.stream ++ tail = s.stream ∧ ((s.flushBuffer r).1 = true → tail = [])

theorem hostLptClose_spec (h : s.Sound) (r : Reply) : s.Dropped r (s.hostLptClose r) := by
  rw [hostLptClose]
  split
  · rename_i hidle
    rw [Bool.not_eq_true'] at hidle
    exact ⟨h.closed hidle, [], List.append_nil _, fun _ => rfl⟩
  · obtain ⟨accepted, buffer, hflush, hstream, -, hdrained, -⟩ := s.flushBuffer_spec r
    refine ⟨rfl, buffer, ?_, hdrained⟩
    rw [hflush, ← hstream, stream, List.append_nil]

theorem hostSetLptDirectAccess_spec (h : s.Sound) (directAccess there : Bool) (r : Reply) :
    s.Dropped r (s.hostSetLptDirectAccess directAccess there r).2 := by
  have hclose := hostLptClose_spec h r
  have hsound := h.hostLptClose r
  rw [hostSetLptDirectAccess]
  generalize s.hostLptClose r = t at hclose hsound ⊢
  obtain ⟨hempty, hrest⟩ := hclose
  have hopen : (t.hostLptOpen directAccess there).2.buffer = [] ∧
      (t.hostLptOpen directAccess there).2.accepted = t.accepted := by
    rw [hostLptOpen]
    split
    · exact ⟨hempty, rfl⟩
    split
    · exact ⟨hempty, rfl⟩
    split
    · exact ⟨hempty, rfl⟩
    · exact ⟨rfl, rfl⟩
  have hstream : (t.hostLptOpen directAccess there).2.stream = t.stream := by
    rw [stream, hopen.1, hopen.2, stream, hempty]
  have hdropped : s.Dropped r (t.hostLptOpen directAccess there).2 := ⟨hopen.1, hstream ▸ hrest⟩
  dsimp only
  split
  · exact hdropped
  · exact hdropped

/-- What is promised of a call. -/
def Correct (s : Port) (o : Bool × Port) : Call → Prop
  | .printByte value _ _ _ => s.PrintedOnce value o ∧ BusyUntilTaken o
  | .printDoc _ => o.2.stream = s.stream
  | .heartBeat _ => o.2 = s
  | .status => o.2 = s
  | .readStatusPort _ r => s.Dropped r o.2
  | .setDirectAccess _ _ r => s.Dropped r o.2
  | .close r => s.Dropped r o.2

/-- …and when it is kept. -/
def MeetsCall (s : Port) : Call → Prop
  | .printByte _ _ before after => s.Meets before after
  | _ => True

theorem Sound.heartBeat (h : s.Sound) (r : Reply) : s.heartBeat r = s := by
  rw [Port.heartBeat, if_neg]
  rw [Bool.and_eq_true, h.trigger]
  exact fun hbeat => absurd hbeat.2 (by decide)

/-- **A call keeps its promise**, exactly when it meets its conditions. -/
theorem Sound.call_iff (h : s.Sound) (c : Call) : s.Correct (s.call c) c ↔ s.MeetsCall c := by
  cases c with
  | printByte value there before after => exact printByte_iff h value there before after
  | printDoc r => exact iff_of_true (s.flushBuffer_stream r) trivial
  | heartBeat r => exact iff_of_true (h.heartBeat r) trivial
  | status => exact iff_of_true rfl trivial
  | readStatusPort there r => exact iff_of_true (hostSetLptDirectAccess_spec h true there r) trivial
  | setDirectAccess directAccess there r => exact iff_of_true (hostSetLptDirectAccess_spec h directAccess there r) trivial
  | close r => exact iff_of_true (hostLptClose_spec h r) trivial

theorem Sound.call (h : s.Sound) (c : Call) : (s.call c).2.Sound := by
  cases c with
  | printByte value there before after => exact h.hostPrintByte value there before after
  | printDoc r => exact h.flushBuffer r
  | heartBeat r =>
    change (s.heartBeat r).Sound
    rw [h.heartBeat r]
    exact h
  | status => exact h
  | readStatusPort there r => exact h.hostSetLptDirectAccess true there r
  | setDirectAccess directAccess there r => exact h.hostSetLptDirectAccess directAccess there r
  | close r => exact h.hostLptClose r

theorem initial_sound (noDeviceAttached outputPath : Bool) : (initial noDeviceAttached outputPath).Sound :=
  ⟨nofun, Nat.zero_le _, fun _ => rfl, rfl⟩

end Port

/-! ## Runs -/

/-- The ports at the start. -/
def initial (noDeviceAttached outputPath : Fin numParallelPorts → Bool) : Fin numParallelPorts → Port := fun p =>
  .initial (noDeviceAttached p) (outputPath p)

theorem run_sound {ports : Fin numParallelPorts → Port} (h : ∀ p, (ports p).Sound)
    (calls : List (Fin numParallelPorts × Call)) (p : Fin numParallelPorts) : (run ports calls p).Sound := by
  induction calls generalizing ports with
  | nil => exact h p
  | cons c calls ih =>
    refine ih fun q => ?_
    by_cases hq : q = c.1
    · subst hq
      dsimp only
      rw [Function.update_self]
      exact (h c.1).call c.2
    · dsimp only
      rw [Function.update_of_ne hq]
      exact h q

/-- **Printer output, exactly**: in every run, a call appends the byte it takes and no other, drops what a close
could not pass on, and leaves a port that takes a byte not busy — but for a byte that fills the buffer of an open
port and whose flush is not taken, and for an open port that was busy; and no buffer overflows. -/
theorem printed_exactly (noDeviceAttached outputPath : Fin numParallelPorts → Bool)
    (calls : List (Fin numParallelPorts × Call)) (p : Fin numParallelPorts) :
    (∀ c, (run (initial noDeviceAttached outputPath) calls p).Correct
        ((run (initial noDeviceAttached outputPath) calls p).call c) c ↔
      (run (initial noDeviceAttached outputPath) calls p).MeetsCall c) ∧
    (run (initial noDeviceAttached outputPath) calls p).buffer.length ≤ kbufferSize := by
  have hsound := @run_sound (initial noDeviceAttached outputPath) (fun _ => Port.initial_sound _ _) calls p
  exact ⟨hsound.call_iff, Nat.le_trans hsound.room (by decide)⟩
/-! ### A full buffer -/

/-- A writer that takes all, and one that takes nothing. -/
def Reply.all : Reply := ⟨kbufferSize, true, true⟩

def Reply.nothing : Reply := ⟨0, true, true⟩

/-- The first port. -/
def lpt1 : Fin numParallelPorts := ⟨0, by decide⟩

/-- A byte to print. -/
def printA (after : Reply) : Call := .printByte 0x41#8 true .all after

/-- The first port, with a file, after `n` bytes. -/
def filled (n : ℕ) : Port :=
  run (initial (fun _ => false) fun _ => true) (List.replicate n (lpt1, printA .all)) lpt1

theorem filled_succ (n : ℕ) : filled (n + 1) = ((filled n).call (printA .all)).2 := by
  rw [filled, run, List.replicate_succ', List.foldl_append, List.foldl_cons, List.foldl_nil, Function.update_self]
  rfl

theorem filled_spec {n : ℕ} (hn : n < 1019) :
    (filled (n + 1)).active = true ∧ (filled (n + 1)).output = true ∧ (filled (n + 1)).flushThreshold = highWater ∧
      (filled (n + 1)).buffer.length = n + 1 := by
  induction n with
  | zero => exact ⟨rfl, rfl, rfl, rfl⟩
  | succ n ih =>
    obtain ⟨hactive, hout, hthreshold, hlength⟩ := ih (Nat.lt_of_succ_lt hn)
    rw [filled_succ (n + 1)]
    generalize filled (n + 1) = s at hactive hout hthreshold hlength ⊢
    have hopen : s.hostLptOpen false true = (true, s) := by
      rw [Port.hostLptOpen, Bool.false_and, if_neg Bool.false_ne_true, hactive, if_pos rfl]
    have hpart : ¬s.flushThreshold ≤ s.buffer.length := by
      rw [hthreshold, hlength]
      exact Nat.not_le_of_lt (Nat.lt_trans hn (by decide))
    have hsize : ¬kbufferSize ≤ s.buffer.length := by
      rw [hlength]
      exact Nat.not_le_of_lt (Nat.lt_trans hn (by decide))
    have hstored : (s.store 0x41#8).buffer.length = n + 2 := by
      rw [Port.store, List.length_append, hlength]
      rfl
    have hlast : ¬(s.store 0x41#8).flushThreshold ≤ (s.store 0x41#8).buffer.length := by
      rw [hstored]
      change ¬s.flushThreshold ≤ n + 2
      rw [hthreshold]
      exact Nat.not_le_of_lt (Nat.succ_lt_succ hn)
    have hcall : s.call (printA .all) = (true, { s.store 0x41#8 with inactiveCounter := 0 }) := by
      rw [printA, Port.call, Port.hostPrintByte, hopen]
      dsimp only
      rw [Bool.not_true, if_neg Bool.false_ne_true, if_neg hpart, Port.storeByte, if_neg hsize, if_neg hlast]
    rw [hcall]
    exact ⟨hactive, hout, hthreshold, hstored⟩

theorem filled_full : (filled 1019).active = true ∧ (filled 1019).output = true ∧
    (filled 1019).buffer.length = 1019 := by
  obtain ⟨hactive, hout, -, hlength⟩ := filled_spec (Nat.lt_succ_self 1018)
  exact ⟨hactive, hout, hlength⟩

/-- **The byte that fills the buffer is refused, and printed all the same**: the file takes nothing. -/
theorem refused_and_printed :
    ¬(filled 1019).Correct ((filled 1019).call (printA .nothing)) (printA .nothing) := by
  have hsound : (filled 1019).Sound := run_sound (fun _ => Port.initial_sound _ _) _ _
  obtain ⟨hactive, hout, hlength⟩ := filled_full
  rw [hsound.call_iff]
  intro hmeets
  refine (hmeets hactive).1 ⟨hout, ?_, fun htakes => absurd htakes.1 (by decide)⟩
  rw [hlength, highWater]

end SoftPC.Lpt
