import Mathlib.Data.List.Nodup
import SoftPC.System.TimerBytes
import SoftPC.System.TimerSnapshot

/-!
# System/TimerProtocol — runs of the 8253, as its ports show them

Beside the chip run its three ports (`Pit.traced`).  As long as no command finds a byte half read or a
count still latched (`Pit.Hears`), each read delivers the byte its port has next, the count in effect is
the last one written, and no channel but the one addressed changes (`Pit.ports_follow`).
-/

namespace SoftPC.Timer

/-- What the output, the programming and a count not yet taken make the status. -/
def Counter.status (c : Counter) : BitVec 8 :=
  (c.out.startLogicLevel.setWidth 8 <<< 7) ||| (if c.newCount = .available then 0x40 else 0) |||
    (c.rl.code <<< 4) ||| (c.m.code <<< 1) ||| (if c.bcd then 1 else 0)

/-- A counter without its output and its clock. -/
def Counter.shown (c : Counter) : Shown := ({ toCounter := c, toGlobals := {} } : Pcu 0).shown

/-- What an operation has a channel do. -/
def Op.commands (ch : Fin 3) : Op → List Command
  | .outb (some i) value => if i = ch then [.write value] else []
  | .outb none cwd =>
    match channelOf cwd with
    | some i => if i = ch then [if Access.ofWord cwd = .latch then .latchCount else .mode cwd] else []
    | none =>
      if ch ∈ Pit.selected cwd then
        (if cwd &&& 0x20 = 0 then [.latchCount] else []) ++
          (if cwd &&& 0x10 = 0 then [.latchStatus] else [])
      else []
  | .inb i => if i = ch then [.read] else []
  | _ => []

/-- The channels that an operation is for. -/
def Op.touches : Op → List (Fin 3)
  | .outb (some ch) _ | .inb ch | .gate ch _ => [ch]
  | .outb none cwd => match channelOf cwd with
    | some ch => [ch]
    | none => Pit.selected cwd
  | .tick => [0, 2]
  | .restore _ => [0, 1, 2]
  | .multipleInts _ | .noLongerTooSoon | .axeTicks _ => []

/-- A port after some commands, which leave the counter as `c`. -/
def Port.steps (s : Port) (c : Counter) (commands : List Command) : Port :=
  commands.foldl (fun s command => s.step c.reading c.status command) s

/-- No byte of a count is half read, and none is latched if one is to be. -/
def Command.Heard (c : Counter) : Command → Prop
  | .write _ | .read => True
  | .mode _ | .latchStatus => c.readState ≠ .readMsb
  | .latchCount => c.rl ≠ .latch → c.countlatched = false ∧ c.readState ≠ .readMsb

instance (c : Counter) (command : Command) : Decidable (command.Heard c) :=
  match command with
  | .write _ | .read => .isTrue trivial
  | .mode _ | .latchStatus => inferInstanceAs (Decidable (_ ≠ _))
  | .latchCount => inferInstanceAs (Decidable (_ → _))

/-- A restore is none of the guest's operations. -/
def Op.Guests : Op → Prop
  | .restore _ => False
  | _ => True

instance (op : Op) : Decidable op.Guests := by
  cases op <;> first | exact .isTrue trivial | exact .isFalse id

namespace Pit

variable {p : Pit}

/-- Every channel hears what an operation has it do. -/
def Hears (p : Pit) (op : Op) : Prop :=
  (∀ ch, ∀ command ∈ op.commands ch, command.Heard (p.timers ch)) ∧ op.Guests

instance (op : Op) : Decidable (p.Hears op) := inferInstanceAs (Decidable (_ ∧ _))

/-- The chip, and its ports beside it. -/
def traced (r : Pit × (Fin 3 → Port)) (op : Op) : Except Fault (Pit × (Fin 3 → Port)) := do
  let p ← r.1.step op
  return (p, fun ch => (r.2 ch).steps (p.timers ch) (op.commands ch))

/-- The ports show the counters, and no tick is held back. -/
structure Serves (p : Pit) (ports : Fin 3 → Port) : Prop where
  fits : ∀ ch, (ports ch).Fits (p.timers ch).shown
  unlocked : p.timelock = false
  noTick : p.needtick = false

/-! ## Channels -/

/-- **A function called for some channels**, one after the other. -/
theorem on_each {f : ∀ ch, Pcu ch → Except Fault (Pcu ch)} {R : Fin 3 → Counter → Counter → Prop}
    (hf : ∀ ch (u : Pcu ch), Yields (f ch u) fun v => R ch u.toCounter v.toCounter)
    {chs : List (Fin 3)} (hchs : chs.Nodup) (p : Pit) :
    Yields (chs.foldlM (fun p ch => p.on ch (f ch)) p) fun q =>
      q.timelock = p.timelock ∧ q.needtick = p.needtick ∧
        (∀ i ∈ chs, R i (p.timers i) (q.timers i)) ∧ ∀ i, i ∉ chs → q.timers i = p.timers i := by
  induction chs generalizing p with
  | nil => exact .ok ⟨rfl, rfl, nofun, fun _ _ => rfl⟩
  | cons ch chs ih =>
    rw [List.foldlM_cons]
    refine Yields.bind (Q := fun q => q.timelock = p.timelock ∧ q.needtick = p.needtick ∧
      R ch (p.timers ch) (q.timers ch) ∧ ∀ i, i ≠ ch → q.timers i = p.timers i) ?_ fun q hq => ?_
    · refine (hf ch (p.pcu ch)).bind fun v hv => .ok ⟨rfl, rfl, ?_, fun i hi => ?_⟩
      · rw [timers_put_self]
        exact hv
      · exact timers_put_of_ne p hi v
    obtain ⟨hlock, hneed, hch, hsame⟩ := hq
    obtain ⟨hnot, hnodup⟩ := List.nodup_cons.mp hchs
    refine (ih hnodup q).mono fun r hr => ⟨hr.1.trans hlock, hr.2.1.trans hneed, fun i hi => ?_, fun i hi => ?_⟩
    · obtain rfl | hmem := List.mem_cons.mp hi
      · rw [hr.2.2.2 i hnot]
        exact hch
      · rw [← hsame i fun heq => hnot (heq ▸ hmem)]
        exact hr.2.2.1 i hmem
    · have hne := List.ne_of_not_mem_cons hi
      rw [hr.2.2.2 i (List.not_mem_of_not_mem_cons hi), hsame i hne]

theorem on_one {ch : Fin 3} {f : Pcu ch → Except Fault (Pcu ch)} {R : Counter → Counter → Prop}
    (hf : Yields (f (p.pcu ch)) fun v => R (p.timers ch) v.toCounter) :
    Yields (p.on ch f) fun q => q.timelock = p.timelock ∧ q.needtick = p.needtick ∧
      R (p.timers ch) (q.timers ch) ∧ ∀ i, i ≠ ch → q.timers i = p.timers i := by
  refine hf.bind fun v hv => .ok ⟨rfl, rfl, ?_, fun i hi => timers_put_of_ne p hi v⟩
  rw [timers_put_self]
  exact hv

theorem commands_of_not_touched {op : Op} {i : Fin 3} (hi : i ∉ op.touches) : op.commands i = [] := by
  cases op with
  | outb port value =>
    cases port with
    | some ch => exact if_neg fun h => hi (List.mem_singleton.mpr h.symm)
    | none =>
      cases hch : channelOf value with
      | some ch =>
        simp only [Op.touches, hch] at hi
        simp only [Op.commands, hch]
        exact if_neg fun h => hi (List.mem_singleton.mpr h.symm)
      | none =>
        simp only [Op.touches, hch] at hi
        simp only [Op.commands, hch]
        exact if_neg hi
  | inb ch => exact if_neg fun h => hi (List.mem_singleton.mpr h.symm)
  | gate | tick | multipleInts | noLongerTooSoon | axeTicks | restore => rfl

/-- The channel does what an operation has it do. -/
def Obeys (s : Port) (commands : List Command) (c c' : Counter) : Prop :=
  (s.steps c' commands).Fits c'.shown ∧ (s.steps c' commands).Takes c.shown c'.shown

/-- An operation on some channels: they obey, the others stay as they are. -/
structure Answers (ports : Fin 3 → Port) (op : Op) (timers timers' : Fin 3 → Counter) : Prop where
  obeys : ∀ i ∈ op.touches, Obeys (ports i) (op.commands i) (timers i) (timers' i)
  same : ∀ i, i ∉ op.touches → timers' i = timers i

theorem checktimelock_of_noTick (h : p.needtick = false) :
    p.checktimelock = .ok { p with timelock := false } := by
  unfold checktimelock
  dsimp only
  rw [if_neg (by rw [h]; exact Bool.false_ne_true)]

/-- **A port access** that finds no tick held back. -/
theorem locked_yields (h : p.needtick = false) {f : Pit → Except Fault Pit}
    {T : (Fin 3 → Counter) → Prop}
    (hf : Yields (f { p with timelock := true }) fun q => q.needtick = p.needtick ∧ T q.timers) :
    Yields (p.locked f) fun q => (q.timelock = false ∧ q.needtick = false) ∧ T q.timers := by
  unfold locked
  refine hf.bind fun q hq => ?_
  rw [checktimelock_of_noTick (hq.1.trans h)]
  exact .ok ⟨⟨rfl, hq.1.trans h⟩, hq.2⟩

variable {ports : Fin 3 → Port}

theorem Answers.of_one {op : Op} {ch : Fin 3} (htouches : op.touches = [ch])
    {timers timers' : Fin 3 → Counter} (hch : Obeys (ports ch) (op.commands ch) (timers ch) (timers' ch))
    (hsame : ∀ i, i ≠ ch → timers' i = timers i) : Answers ports op timers timers' where
  obeys i hi := by
    rw [htouches] at hi
    obtain rfl := List.mem_singleton.mp hi
    exact hch
  same i hi := hsame i fun heq => hi (htouches ▸ List.mem_singleton.mpr heq)

/-- A locked access to one channel. -/
theorem locked_on (h : p.Serves ports) {op : Op} {ch : Fin 3} (htouches : op.touches = [ch])
    {f : Pcu ch → Except Fault (Pcu ch)}
    (hf : ∀ u : Pcu ch, u.toCounter = p.timers ch → (ports ch).Fits u.shown → Yields (f u) fun v =>
      Obeys (ports ch) (op.commands ch) u.toCounter v.toCounter) :
    Yields (p.locked fun p => p.on ch f) fun q =>
      (q.timelock = false ∧ q.needtick = false) ∧ Answers ports op p.timers q.timers :=
  locked_yields h.noTick <| (on_one (p := { p with timelock := true })
    (R := fun c c' => Obeys (ports ch) (op.commands ch) c c') (hf _ rfl (h.fits ch))).mono fun _ hq =>
      ⟨hq.2.1, .of_one htouches hq.2.2.1 hq.2.2.2⟩

theorem gate_answers (h : p.Serves ports) (ch : Fin 3) (value : BitVec 8) :
    Yields (p.gate ch value) fun q =>
      (q.timelock = false ∧ q.needtick = false) ∧ Answers ports (.gate ch value) p.timers q.timers :=
  locked_on h rfl fun _ _ hfits => Pcu.gateSignal_fits hfits value

theorem write_answers (h : p.Serves ports) (ch : Fin 3) (value : BitVec 8) :
    Yields (p.outb (some ch) value) fun q =>
      (q.timelock = false ∧ q.needtick = false) ∧ Answers ports (.outb (some ch) value) p.timers q.timers := by
  refine locked_on h rfl fun u _ hfits => ?_
  have hcommands : (Op.outb (some ch) value).commands ch = [.write value] := if_pos rfl
  rw [hcommands]
  exact Pcu.writeSignal_fits hfits value

theorem Obeys.of_count {s : Port} {commands : List Command} {c c' : Counter}
    (hfits : (s.steps c' commands).Fits c'.shown) (hcount : c'.initialCount = c.initialCount) :
    Obeys s commands c c' := ⟨hfits, .inl hcount⟩

/-- A control word for one counter. -/
theorem controlWord_answers (h : p.Serves ports) {cwd : BitVec 8} (hop : p.Hears (.outb none cwd))
    {ch : Fin 3} (hch : channelOf cwd = some ch) :
    Yields (p.outb none cwd) fun q =>
      (q.timelock = false ∧ q.needtick = false) ∧ Answers ports (.outb none cwd) p.timers q.timers := by
  have htouches : (Op.outb none cwd).touches = [ch] := by simp only [Op.touches, hch]
  have hcommands : (Op.outb none cwd).commands ch
      = [if Access.ofWord cwd = .latch then .latchCount else .mode cwd] := by
    simp only [Op.commands, hch]
    exact if_pos trivial
  have hword : p.outb none cwd = p.locked fun p => p.on ch fun u => u.controlWord cwd := by
    unfold outb controlWordReg
    rw [hch]
  have hheard := hop.1 ch
  rw [hword]
  rw [hcommands] at hheard
  refine locked_on h htouches fun u hu hfits => ?_
  rw [← hu] at hheard
  rw [hcommands]
  unfold Pcu.controlWord
  refine .ite (fun hlatch => ?_) fun hmode => ?_
  · rw [if_pos hlatch] at hheard ⊢
    have hfree := hheard _ (List.mem_singleton.mpr rfl)
    refine fun v hv => ?_
    have hv' := Pcu.latchCount_fits hfits hfree v.toCounter.status v hv
    exact .of_count hv'.1 hv'.2
  · rw [if_neg hmode] at hheard ⊢
    have hfree := hheard _ (List.mem_singleton.mpr rfl)
    have hnew := Pcu.newMode_fits hfits hfree hmode (u.newMode cwd).toCounter.reading
      (u.newMode cwd).toCounter.status
    exact .ok (.of_count hnew.1 hnew.2)

/-- A count latched on a counter that hears it. -/
def CountLatched (c c' : Counter) : Prop :=
  ∀ s : Port, s.Fits c.shown → Command.latchCount.Heard c →
    (s.step c'.reading c'.status .latchCount).Fits c'.shown ∧ c'.initialCount = c.initialCount

theorem latchCount_latches {ch : Fin 3} (u : Pcu ch) :
    Yields u.latchCount fun v => CountLatched u.toCounter v.toCounter := fun v hv _ hfits hheard =>
  Pcu.latchCount_fits (u := u) hfits hheard v.toCounter.status v hv

/-- A status latched. -/
def StatusLatched (c c' : Counter) : Prop := c' = { c with latchstatus := c.status, readState := .readStatus }

theorem latchStatusValue_latches {ch : Fin 3} (u : Pcu ch) :
    Yields (.ok u.latchStatusValue : Except Fault (Pcu ch)) fun v => StatusLatched u.toCounter v.toCounter :=
  .ok rfl

theorem StatusLatched.obeys {c c' : Counter} (h : StatusLatched c c') {s : Port} (hfits : s.Fits c.shown)
    (hfree : c.readState ≠ .readMsb) : (s.step c'.reading c'.status .latchStatus).Fits c'.shown := by
  rw [h]
  exact Pcu.latchStatusValue_fits (u := ({ toCounter := c, toGlobals := {} } : Pcu 0)) hfits hfree c.reading

/-- Both latched: the status goes before the count. -/
theorem StatusLatched.after {c c' c'' : Counter} (h' : StatusLatched c' c'') (h : CountLatched c c')
    {s : Port} (hfits : s.Fits c.shown) (hcount : Command.latchCount.Heard c)
    (hstatus : Command.latchStatus.Heard c) : Obeys s [.latchCount, .latchStatus] c c'' := by
  have hfirst := h s hfits hcount
  have hhigh : (s.step c'.reading c'.status .latchCount).high = false := by
    have hs : s.high = false := hfits.high_of_ne hstatus
    unfold Port.step
    dsimp only
    split_ifs
    · exact hs
    · rfl
  have hlatched := h'.obeys hfirst.1 (hfirst.1.ne_of_high hhigh)
  have hreading : c''.reading = c'.reading := h' ▸ rfl
  have hstatus' : c''.status = c'.status := h' ▸ rfl
  refine .of_count ?_ ((congrArg (fun c : Counter => c.initialCount) h').trans hfirst.2)
  unfold Port.steps
  rw [hreading, hstatus'] at hlatched ⊢
  exact hlatched

/-- The read back command: each channel selected latches its count first, then its status. -/
theorem readBack_answers (h : p.Serves ports) {cwd : BitVec 8} (hop : p.Hears (.outb none cwd))
    (hch : channelOf cwd = none) :
    Yields (p.outb none cwd) fun q =>
      (q.timelock = false ∧ q.needtick = false) ∧ Answers ports (.outb none cwd) p.timers q.timers := by
  have htouches : (Op.outb none cwd).touches = selected cwd := by simp only [Op.touches, hch]
  have hcommands : ∀ i ∈ selected cwd, (Op.outb none cwd).commands i
      = (if cwd &&& 0x20 = 0 then [.latchCount] else []) ++
          (if cwd &&& 0x10 = 0 then [.latchStatus] else []) := by
    intro i hi
    simp only [Op.commands, hch]
    exact if_pos hi
  have hheard : ∀ i ∈ selected cwd, ∀ command ∈ (if cwd &&& 0x20 = 0 then [Command.latchCount] else []) ++
      (if cwd &&& 0x10 = 0 then [.latchStatus] else []), command.Heard (p.timers i) :=
    fun i hi => hcommands i hi ▸ hop.1 i
  have hnodup : (selected cwd).Nodup := List.Nodup.filter _ (by decide)
  have hword : p.outb none cwd = p.locked fun p => p.readBack cwd := by
    unfold outb controlWordReg
    rw [hch]
  rw [hword]
  refine locked_yields h.noTick ?_
  unfold readBack
  by_cases hcount : cwd &&& 0x20 = 0 <;> by_cases hstatus : cwd &&& 0x10 = 0
  · simp only [hcount, hstatus, if_true] at hheard hcommands ⊢
    refine (on_each (fun _ u => latchCount_latches u) hnodup _).bind fun q hq => ?_
    refine (on_each (fun _ u => latchStatusValue_latches u) hnodup q).mono fun r hr =>
      ⟨hr.2.1.trans hq.2.1, fun i hi => ?_, fun i hi => ?_⟩
    · have hmem : i ∈ selected cwd := htouches ▸ hi
      rw [hcommands i hmem]
      exact (hr.2.2.1 i hmem).after (hq.2.2.1 i hmem) (h.fits i) (hheard i hmem _ (.head _))
        (hheard i hmem _ (.tail _ (.head _)))
    · rw [htouches] at hi
      exact (hr.2.2.2 i hi).trans (hq.2.2.2 i hi)
  · simp only [hcount, hstatus, if_true, if_false] at hheard hcommands ⊢
    refine (on_each (fun _ u => latchCount_latches u) hnodup _).bind fun q hq =>
      .ok ⟨hq.2.1, fun i hi => ?_, fun i hi => hq.2.2.2 i (htouches ▸ hi)⟩
    have hmem : i ∈ selected cwd := htouches ▸ hi
    rw [hcommands i hmem]
    have hlatched := hq.2.2.1 i hmem (ports i) (h.fits i) (hheard i hmem _ (.head _))
    exact .of_count hlatched.1 hlatched.2
  · simp only [hcount, hstatus, if_true, if_false] at hheard hcommands ⊢
    refine (on_each (fun _ u => latchStatusValue_latches u) hnodup { p with timelock := true }).mono fun q hq =>
      ⟨hq.2.1, fun i hi => ?_, fun i hi => hq.2.2.2 i (htouches ▸ hi)⟩
    have hmem : i ∈ selected cwd := htouches ▸ hi
    rw [hcommands i hmem]
    have hlatched := hq.2.2.1 i hmem
    exact .of_count (hlatched.obeys (h.fits i) (hheard i hmem _ (.head _)))
      (congrArg (fun c : Counter => c.initialCount) hlatched :)
  · simp only [hcount, hstatus, if_false] at hcommands ⊢
    refine .ok ⟨rfl, fun i hi => ?_, fun _ _ => rfl⟩
    rw [hcommands i (htouches ▸ hi)]
    exact .of_count (h.fits i) rfl

/-- **A read** delivers the byte that the port has next. -/
theorem read_answers (h : p.Serves ports) (ch : Fin 3) :
    Yields (p.inb ch) fun r => r.1 = (ports ch).out (r.2.timers ch).reading ∧
      (r.2.timelock = false ∧ r.2.needtick = false) ∧ Answers ports (.inb ch) p.timers r.2.timers := by
  have hcommands : (Op.inb ch).commands ch = [.read] := if_pos rfl
  unfold inb
  refine (Pcu.readUnlatched_fits (u := { p with timelock := true }.pcu ch) (h.fits ch)).bind fun u hu => ?_
  rw [checktimelock_of_noTick (show ({ p with timelock := true }.put u.delivered).needtick = false
    from h.noTick)]
  have hself : ({ p with timelock := true }.put u.delivered).timers ch = u.delivered.toCounter :=
    timers_put_self _ _
  refine .ok ⟨?_, ⟨rfl, h.noTick⟩, .of_one rfl ?_ fun i hi => timers_put_of_ne _ hi _⟩
  · change _ = (ports ch).out (({ p with timelock := true }.put u.delivered).timers ch).reading
    rw [hself, Pcu.reading_delivered]
    exact Pcu.deliver_fits hu.1 hu.2.2
  · change Obeys _ _ _ (({ p with timelock := true }.put u.delivered).timers ch)
    rw [hself, hcommands]
    exact .of_count (Pcu.delivered_fits hu.1) (u.initialCount_delivered.trans hu.2.1)

theorem tick_answers (h : p.Serves ports) : Yields p.timeTick fun q =>
    (q.timelock = false ∧ q.needtick = false) ∧ Answers ports .tick p.timers q.timers := by
  have hupdate : ∀ {ch} (u : Pcu ch), Yields u.updateCounter fun v =>
      v.toProgramming = u.toProgramming := fun u => u.updateCounter_keeps.mono fun _ hv => hv.programming
  have hlock : ¬p.timelock = true := by rw [h.unlocked]; exact Bool.false_ne_true
  unfold timeTick
  rw [if_neg hlock]
  refine (on_one (R := fun c c' => c'.toProgramming = c.toProgramming) (hupdate _)).bind fun q hq =>
    (on_one (R := fun c c' => c'.toProgramming = c.toProgramming) (hupdate _)).mono fun r hr => ?_
  have hkept : ∀ i ∈ ([0, 2] : List (Fin 3)), (r.timers i).toProgramming = (p.timers i).toProgramming := by
    intro i hi
    obtain rfl | hi := List.mem_cons.mp hi
    · exact (congrArg Counter.toProgramming (hr.2.2.2 0 (by decide))).trans hq.2.2.1
    · obtain rfl := List.mem_singleton.mp hi
      exact hr.2.2.1.trans (congrArg Counter.toProgramming (hq.2.2.2 2 (by decide)))
  refine ⟨⟨(hr.1.trans hq.1).trans h.unlocked, (hr.2.1.trans hq.2.1).trans h.noTick⟩,
    fun i hi => .of_count ?_ ?_, fun i hi => ?_⟩
  · exact Pcu.fits_of_programming (u := ({ toCounter := p.timers i, toGlobals := {} } : Pcu 0))
      (v := { toCounter := r.timers i, toGlobals := {} }) (h.fits i) (hkept i hi)
  · exact (congrArg Programming.initialCount (hkept i hi) :)
  · have h0 : i ≠ 0 := fun heq => hi (heq ▸ .head _)
    have h2 : i ≠ 2 := fun heq => hi (heq ▸ .tail _ (.head _))
    exact (hr.2.2.2 i h2).trans (hq.2.2.2 i h0)

/-- **One operation**: the channels addressed obey, the others stay as they are. -/
theorem step_answers (h : p.Serves ports) {op : Op} (hop : p.Hears op) : Yields (p.step op) fun q =>
    (q.timelock = false ∧ q.needtick = false) ∧ Answers ports op p.timers q.timers := by
  have hnone : ∀ {q : Pit}, op.touches = [] → q.timers = p.timers →
      Answers ports op p.timers q.timers := fun htouches hsame =>
    ⟨fun i hi => absurd (htouches ▸ hi) List.not_mem_nil, fun i _ => congrFun hsame i⟩
  cases op with
  | outb port value =>
    cases port with
    | some ch => exact write_answers h ch value
    | none =>
      cases hch : channelOf value with
      | some ch => exact controlWord_answers h hop hch
      | none => exact readBack_answers h hop hch
  | inb ch => exact (read_answers h ch).bind fun r hr => .ok hr.2
  | gate ch value => exact gate_answers h ch value
  | tick => exact tick_answers h
  | multipleInts numInts =>
    exact Yields.bind (Q := fun _ => True) (fun _ _ => trivial) fun g _ =>
      .ok ⟨⟨h.unlocked, h.noTick⟩, hnone rfl rfl⟩
  | noLongerTooSoon => exact .ok ⟨⟨h.unlocked, h.noTick⟩, hnone rfl rfl⟩
  | axeTicks ticks => exact .ok ⟨⟨h.unlocked, h.noTick⟩, hnone rfl rfl⟩
  | restore saved => exact hop.2.elim

/-! ## Runs -/

/-- The ports after an operation show the counters after it. -/
theorem traced_serves {r : Pit × (Fin 3 → Port)} (h : Serves r.1 r.2) {op : Op} (hop : r.1.Hears op) :
    Yields (traced r op) fun r' => Serves r'.1 r'.2 ∧ ∀ ch,
      (r'.2 ch).Takes (r.1.timers ch).shown (r'.1.timers ch).shown ∧
        (ch ∉ op.touches → r'.1.timers ch = r.1.timers ch) := by
  refine (step_answers h hop).bind fun q hq => .ok ?_
  have hch : ∀ ch, Obeys (r.2 ch) (op.commands ch) (r.1.timers ch) (q.timers ch) := by
    intro ch
    by_cases hmem : ch ∈ op.touches
    · exact hq.2.obeys ch hmem
    · rw [commands_of_not_touched hmem, hq.2.same ch hmem]
      exact .of_count (h.fits ch) rfl
  exact ⟨⟨fun ch => (hch ch).1, hq.1.1, hq.1.2⟩, fun ch => ⟨(hch ch).2, hq.2.same ch⟩⟩

/-- A fresh counter has nothing to show. -/
theorem init_serves (hostTimes : ℕ → TimeVal) : (init hostTimes).Serves fun _ => {} where
  fits ch := by
    have hshown : ((init hostTimes).timers ch).shown
        = { toProgramming := {}, guessesPerHostTick := 2, guessesSoFar := 2 } := rfl
    rw [hshown]
    exact ⟨⟨rfl, rfl, by decide, nofun, rfl, by decide, by decide, by decide, by decide⟩,
      ⟨fun h => absurd rfl h, rfl, nofun, nofun, fun _ => rfl⟩⟩
  unlocked := rfl
  noTick := rfl

/-- **The byte protocol**, in runs whose commands are heard: each read delivers the byte that the port
has next; the count in effect, once taken, is the last one written; at an operation it stays or becomes
that one; and channels not addressed do not change. -/
theorem ports_follow (hostTimes : ℕ → TimeVal) (ops : List Op)
    (h : Meets traced (fun r op => r.1.Hears op) (init hostTimes, fun _ => {}) ops) :
    Yields (ops.foldlM traced (init hostTimes, fun _ => {})) fun r =>
      (∀ ch, Yields (r.1.inb ch) fun a => a.1 = (r.2 ch).out (a.2.timers ch).reading) ∧
      (∀ ch, Settled (r.1.timers ch).state → (r.1.timers ch).newCount = .used →
        ∃ bytes ∈ (r.2 ch).last,
          (r.1.timers ch).initialCount.toNat = Port.value (r.2 ch).bcd bytes) ∧
      ∀ op, r.1.Hears op → Yields (traced r op) fun r' => ∀ ch,
        (r'.2 ch).Takes (r.1.timers ch).shown (r'.1.timers ch).shown ∧
          (ch ∉ op.touches → r'.1.timers ch = r.1.timers ch) := by
  have hrun := h.yields_foldlM (I := fun r => Serves r.1 r.2)
    (fun r op hr hop => (traced_serves hr hop).mono fun _ hr' => hr'.1) (init_serves hostTimes)
  refine hrun.mono fun r hr => ⟨fun ch => (read_answers hr ch).mono fun _ ha => ha.1, fun ch hs hused => ?_,
    fun op hop => (traced_serves hr hop).mono fun _ hr' => hr'.2⟩
  have hfits := hr.fits ch
  refine ⟨_, hfits.last hs, ?_⟩
  rw [show (r.1.timers ch).initialCount = (r.1.timers ch).toProgramming.modulo from hfits.loaded hs hused,
    Programming.toNat_modulo, ← hfits.bcd]
  rfl

/-- A host whose clock does not advance. -/
def stopped : ℕ → TimeVal := fun _ => {}

/-- Counter 0 divides by 0x1234, counter 2 by 0x55; the count of counter 0 is latched and its status too,
and both are read, then the counts of all three. -/
def heard : List Op :=
  [.outb none 0x34, .outb (some 0) 0x34, .outb (some 0) 0x12, .outb none 0x96, .outb (some 2) 0x55,
    .gate 2 gateRise, .outb none 0, .outb none 0xe2, .inb 0, .inb 0, .inb 0, .outb none 0xce, .tick, .inb 2,
    .inb 0, .inb 0]

theorem heard_follow :
    Yields (heard.foldlM traced (init stopped, fun _ => {})) fun r =>
      (∀ ch, Yields (r.1.inb ch) fun a => a.1 = (r.2 ch).out (a.2.timers ch).reading) ∧
      (∀ ch, Settled (r.1.timers ch).state → (r.1.timers ch).newCount = .used →
        ∃ bytes ∈ (r.2 ch).last,
          (r.1.timers ch).initialCount.toNat = Port.value (r.2 ch).bcd bytes) ∧
      ∀ op, r.1.Hears op → Yields (traced r op) fun r' => ∀ ch,
        (r'.2 ch).Takes (r.1.timers ch).shown (r'.1.timers ch).shown ∧
          (ch ∉ op.touches → r'.1.timers ch = r.1.timers ch) :=
  ports_follow stopped heard (by decide)

/-- After these operations a read delivers another byte than its port has next. -/
def Disagrees (ops : List Op) (ch : Fin 3) : Prop :=
  ∃ r, ops.foldlM traced (init stopped, fun _ => {}) = .ok r ∧
    Ends (r.1.inb ch) fun a => a.1 ≠ (r.2 ch).out (a.2.timers ch).reading

/-- Counter 2 counts down from 0x1234 and is read up to the low byte. -/
def halfRead : List Op :=
  [.gate 2 gateRise, .outb none 0xb4, .outb (some 2) 0x34, .outb (some 2) 0x12, .inb 2]

/-- Counter 0 counts down from 0x1234, its count latched and not read. -/
def countHeld : List Op :=
  [.gate 0 gateRise, .outb none 0x34, .outb (some 0) 0x34, .outb (some 0) 0x12, .outb none 0]

/-- **Commands unheard**: a mode word, a count latch and a status latch between the bytes of a read, and
a second latch of a count, a tick after the first. -/
theorem unheard_disagree :
    Disagrees (halfRead ++ [.outb none 0xb4]) 2 ∧
      Disagrees (halfRead ++ [.outb none 0x80]) 2 ∧
      Disagrees (halfRead ++ [.outb none 0xe8, .inb 2]) 2 ∧
      Disagrees (countHeld ++ [.tick, .outb none 0]) 0 :=
  ⟨⟨_, rfl, _, rfl, by decide⟩, ⟨_, rfl, _, rfl, by decide⟩, ⟨_, rfl, _, rfl, by decide⟩,
    ⟨_, rfl, _, rfl, by decide⟩⟩

end Pit

end SoftPC.Timer
