import SoftPC.App.PlanRuns
import SoftPC.X86Debug.Line

/-!
# X86Debug/Runs — the commands that run the machine

    T [[addr] n]   XT [n]        n instructions
    XG [lin [n]]                 to the n-th arrival at lin

`t`, `xt` and `xg` of `product/command.c` set an execution plan and ask for a resume; each stop of the machine
comes back as an observation (`observe`), which sets the next plan or ends the run.  A short trace is made of
plans of one instruction, a long one of a single plan.  Over the plans of `App/Debug`, a run retires the
instructions asked for (`counted_runs_exact`).
-/

namespace SoftPC.X86Debug

open Debug (Event Observation)
open Debug (arrivals)
open Debug.State (PlanRequest setPlan_tracing setPlan_breaking)

/-- `command_run_kind`. -/
inductive RunKind where
  | none | traceReal | traceLinear | breakReal | breakLinear
  deriving DecidableEq

/-- The run kinds of `T` and `XT`. -/
def RunKind.traces : RunKind → Bool
  | .traceReal | .traceLinear => true
  | _ => false

/-- Which of a command's accesses are granted: those of the registers it loads, of the execution result, of
what it prints, of the plan it sets and of the plan it clears; and whether its output had room. -/
structure Leases where
  registers : Bool := true
  result : Bool := true
  print : Bool := true
  plan : Bool := true
  clear : Bool := true
  output : Bool := true
  deriving DecidableEq

def Leases.all (l : Leases) : Bool :=
  l.registers && l.result && l.print && l.plan && l.clear && l.output

theorem Leases.of_all {l : Leases} (h : l.all = true) :
    l.registers = true ∧ l.result = true ∧ l.print = true ∧ l.plan = true ∧ l.output = true := by
  simp only [Leases.all, Bool.and_eq_true] at h
  exact ⟨h.1.1.1.1.1, h.1.1.1.1.2, h.1.1.1.2, h.1.1.2, h.2⟩

/-- What `x86_debug` keeps of a run, with the machine behind it: `access_status` is OK, `resume` is the
lifecycle request of the result, and `pc` is `CS_BASE + EIP`. -/
structure Context where
  accessOk : Bool := true
  observation : Observation := {}
  breakpointLinear : UInt32 := 0
  breakpointRemaining : ℕ := 0
  traceRemaining : ℕ := 0
  runKind : RunKind := .none
  resume : Bool := false
  machine : Debug.State := {}
  pc : UInt32 := 0

/-- The requests of `command_set_trace` and `command_set_break`. -/
def tracePlan (count : ℕ) : PlanRequest := ⟨1, .ofNat count, 0, 0, 0⟩

def breakPlan (linear : UInt32) : PlanRequest := ⟨3, 0, 0, 0, linear⟩

namespace Context

variable (c : Context)

/-! ## The plan -/

/-- An access that changes nothing but the status. -/
def access (lease : Bool) : Context := { c with accessOk := c.accessOk && lease }

/-- `command_execute` of `X86_DEBUG_SET_EXECUTION_PLAN`, and whether it succeeded. -/
def setPlan (lease : Bool) (request : PlanRequest) : Bool × Context :=
  if c.accessOk && lease && (c.machine.setPlan request c.pc).1 = .ok then
    (true, { c with machine := (c.machine.setPlan request c.pc).2 })
  else (false, { c with accessOk := false })

/-- `command_set_break`. -/
def setBreak (lease : Bool) (linear : UInt32) : Bool × Context :=
  let r := c.setPlan lease (breakPlan linear)
  (r.1, if r.1 then { r.2 with breakpointLinear := linear } else r.2)

/-- `command_clear_break`, whatever comes of its request. -/
def clearBreak (lease : Bool) : Context :=
  { c.access lease with
    machine := if c.accessOk && lease then c.machine.clearPlan else c.machine
    breakpointLinear := 0
    breakpointRemaining := 0 }

/-- `command_set_trace`. -/
def setTrace (lease : Bool) (count : ℕ) : Bool × Context := c.setPlan lease (tracePlan count)

/-- `command_get_execution_result`. -/
def executionResult (lease : Bool) : Bool × Context :=
  if c.accessOk && lease && c.machine.resultReady then
    (true, { c with observation := c.machine.observation })
  else (false, c.access lease)

/-- `command_begin_trace`. -/
def beginTrace (lease : Bool) (kind : RunKind) (count : ℕ) : Bool × Context :=
  let r := c.setTrace lease (if count < 0x100 then 1 else count)
  (r.1, if r.1 then { r.2 with runKind := kind, traceRemaining := if count < 0x100 then count else 1 }
    else r.2)

/-- `command_begin_break`. -/
def beginBreak (count : ℕ) : Context := { c with runKind := .breakLinear, breakpointRemaining := count }

/-- `command_resume`. -/
def requestResume : Context := { c with resume := true }

/-- `command_report_access`. -/
def reportAccess : Context := if c.accessOk then c else { c with runKind := .none, resume := false }

/-- `command_end_output`. -/
def endOutput (ok : Bool) : Context := if ok then c else { c with runKind := .none, resume := false }

end Context

/-! ## The commands -/

/-- What a command asks for, once its arguments are read. -/
inductive Request where
  /-- `T`, from the address it is given. -/
  | traceReal (start : Option (BitVec 16 × BitVec 16)) (count : BitVec 16)
  | traceLinear (count : BitVec 32)
  | breakLinear (linear count : BitVec 32)
  /-- `XG` alone, which is `G`. -/
  | go

section

variable (regs : SegmentRegs) (cs : BitVec 16) (args : List Arg)

/-- The request, if no argument is in error. -/
def unlessError (request : Request) : Scan (Option Request) := do
  return if (← get).nErrPos ≠ 0 then none else some request

def t : Scan (Option Request) := do
  match args.length with
  | 1 => unlessError (.traceReal none 1)
  | 2 => unlessError (.traceReal none (← scannubit16 args (argText args 1)))
  | 3 =>
    addrparse regs args cs (argText args 1)
    let r ← get
    unlessError (.traceReal (some (r.seg, r.ptr)) (← scannubit16 args (argText args 2)))
  | n =>
    seterr args (n - 1)
    return none

def xt : Scan (Option Request) := do
  match args.length with
  | 1 => unlessError (.traceLinear 1)
  | 2 => unlessError (.traceLinear (← scannubit32 args (argText args 1)))
  | n =>
    seterr args (n - 1)
    return none

def xg : Scan (Option Request) := do
  match args.length with
  | 1 => return some .go
  | 2 => unlessError (.breakLinear (← scannubit32 args (argText args 1)) 1)
  | 3 =>
    let linear ← scannubit32 args (argText args 1)
    unlessError (.breakLinear linear (← scannubit32 args (argText args 2)))
  | n =>
    seterr args (n - 1)
    return none

end

namespace Context

variable (c : Context)

/-- `command_begin_output`, and a status that is OK. -/
def beginOutput : Context := { c with resume := false, accessOk := true }

/-- A trace of some instructions, and a resume if its plan is set. -/
def trace (lease : Bool) (kind : RunKind) (count : ℕ) : Context :=
  if count = 0 then c
  else if (c.beginTrace lease kind count).1 then (c.beginTrace lease kind count).2.requestResume
  else (c.beginTrace lease kind count).2

/-- A request carried out on a paused machine; the linear address of a segment and offset is the CPU's. -/
def perform (linearOf : BitVec 16 × BitVec 16 → UInt32) (l : Leases) : Request → Context
  | .traceReal none count => c.trace l.plan .traceReal count.toNat
  | .traceReal (some start) count =>
    ({ c.access l.registers with pc := if l.registers then linearOf start else c.pc }).trace
      l.plan .traceReal count.toNat
  | .traceLinear count => c.trace l.plan .traceLinear count.toNat
  | .breakLinear linear count =>
    if count = 0 then c
    else if (c.setBreak l.plan (.ofBitVec linear)).1 then
      ((c.setBreak l.plan (.ofBitVec linear)).2.beginBreak count.toNat).requestResume
    else (c.setBreak l.plan (.ofBitVec linear)).2
  | .go => { c.clearBreak l.clear with runKind := .breakReal }.requestResume

/-- `x86_debug_submit_line`, with the machine paused. -/
def submit (linearOf : BitVec 16 × BitVec 16 → UInt32) (l : Leases) (request : Request) : Context :=
  ((c.beginOutput.perform linearOf l request).reportAccess).endOutput l.output

/-! ## Observations -/

/-- `x86_debug_machine_state`. -/
inductive MachineState where
  | running | paused | reset | stopped | fault
  deriving DecidableEq

/-- A hit ends the run, and is printed. -/
def reportHit (l : Leases) : Context :=
  if c.observation.watchHit then { c with runKind := .none }.access l.print else c

/-- The stop is printed and counted. -/
def countStop (l : Leases) : Context :=
  match c.runKind with
  | .traceReal | .traceLinear => { c.access l.print with traceRemaining := c.traceRemaining - 1 }
  | .breakReal => c.access l.print
  | .breakLinear => { c.access l.print with breakpointRemaining := c.breakpointRemaining - 1 }
  | .none => c

/-- A plan set again, and the machine resumed; or the run given up. -/
def again (r : Bool × Context) : Context :=
  if r.1 then r.2.requestResume else { r.2 with runKind := .none }

/-- The next plan, or the end of the run. -/
def next (l : Leases) : Context :=
  if c.runKind.traces ∧ c.traceRemaining ≠ 0 then again (c.setTrace l.plan 1)
  else if c.runKind = .breakLinear ∧ c.breakpointRemaining ≠ 0 then
    again (c.setBreak l.plan c.breakpointLinear)
  else { c with runKind := .none }.clearBreak l.clear

/-- A pause: the run ends if there is no result, and goes on from it if there is. -/
def pause (l : Leases) : Context :=
  let r := c.executionResult l.result
  if r.1 then ((r.2.reportHit l).countStop l).next l
  else { (if r.2.accessOk && r.2.runKind = .breakReal then r.2.access l.print else r.2) with
    runKind := .none }

/-- `x86_debug_observe_machine`; `ok` is the status it is given. -/
def observe (state : MachineState) (ok : Bool) (l : Leases) : Context :=
  let c := { c with resume := false }
  match state with
  | .stopped | .reset | .fault => { c with runKind := .none }.endOutput l.output
  | .running => c.endOutput l.output
  | .paused =>
    if ok then (({ c with accessOk := true }.pause l).reportAccess).endOutput l.output
    else c.endOutput l.output

end Context

/-! ## What an observation leaves -/

namespace Context

variable {c : Context} {l : Leases}

theorem setPlan_of_ok {request : PlanRequest} {lease : Bool} (hc : c.accessOk = true) (hl : lease = true)
    (hok : (c.machine.setPlan request c.pc).1 = .ok) :
    c.setPlan lease request = (true, { c with machine := (c.machine.setPlan request c.pc).2 }) := by
  rw [setPlan, hc, hl, hok]
  rfl

theorem setPlan_of_not {request : PlanRequest} {lease : Bool}
    (h : ¬(c.accessOk = true ∧ lease = true ∧ (c.machine.setPlan request c.pc).1 = .ok)) :
    c.setPlan lease request = (false, { c with accessOk := false }) := by
  rw [setPlan, if_neg]
  rwa [Bool.and_eq_true, Bool.and_eq_true, decide_eq_true_eq, and_assoc]

/-- A run that has ended. -/
def Ended (c : Context) : Prop := c.runKind = .none ∧ c.resume = false

/-- Nothing after a run has ended begins one. -/
theorem ended_report (h : c.Ended) (ok : Bool) : (c.reportAccess.endOutput ok).Ended := by
  rw [endOutput, reportAccess]
  split <;> split <;> first | exact h | exact ⟨rfl, rfl⟩

theorem report_failed (h : c.accessOk = false) (ok : Bool) : (c.reportAccess.endOutput ok).Ended := by
  rw [reportAccess, if_neg (h ▸ Bool.false_ne_true), endOutput]
  split <;> exact ⟨rfl, rfl⟩

theorem report_cases (h : c.accessOk = true) (ok : Bool) :
    ((c.reportAccess.endOutput ok).Ended ∧ ok = false) ∨ c.reportAccess.endOutput ok = c := by
  rw [reportAccess, if_pos h, endOutput]
  split
  · exact .inr rfl
  · exact .inl ⟨⟨rfl, rfl⟩, Bool.eq_false_iff.mpr ‹_›⟩

theorem ended_clearBreak (c : Context) (lease : Bool) (h : c.resume = false) :
    ({ c with runKind := .none }.clearBreak lease).Ended := ⟨rfl, h⟩

/-- A stop that was counted: the run ends with its last plan, and else goes on with another. -/
theorem next_counted {request : PlanRequest} {remaining : ℕ} (hr : c.resume = false)
    (hvalid : (c.machine.setPlan request c.pc).1 = .ok)
    (hnext : c.next l = if remaining ≠ 0 then again (c.setPlan l.plan request)
      else { c with runKind := .none }.clearBreak l.clear) :
    ((c.next l).Ended ∧ (c.accessOk = true → l.plan = true → remaining = 0)) ∨
      (c.accessOk = true ∧ remaining ≠ 0 ∧
        c.next l = { c with machine := (c.machine.setPlan request c.pc).2, resume := true }) := by
  rw [hnext]
  by_cases hrem : remaining = 0
  · rw [if_neg fun h => h hrem]
    exact .inl ⟨ended_clearBreak c _ hr, fun _ _ => hrem⟩
  · rw [if_pos hrem]
    by_cases hgo : c.accessOk = true ∧ l.plan = true
    · rw [setPlan_of_ok hgo.1 hgo.2 hvalid]
      exact .inr ⟨hgo.1, hrem, rfl⟩
    · rw [setPlan_of_not fun h => hgo ⟨h.1, h.2.1⟩]
      exact .inl ⟨⟨rfl, hr⟩, fun hok hplan => absurd ⟨hok, hplan⟩ hgo⟩

theorem next_trace (hk : c.runKind.traces = true) :
    c.next l = if c.traceRemaining ≠ 0 then again (c.setPlan l.plan (tracePlan 1))
      else { c with runKind := .none }.clearBreak l.clear := by
  rw [next, if_neg (c := c.runKind = .breakLinear ∧ _) fun h => by rw [h.1] at hk; cases hk]
  exact if_congr (and_iff_right hk) rfl rfl

theorem next_break (hk : c.runKind = .breakLinear) :
    c.next l = if c.breakpointRemaining ≠ 0 then again (c.setPlan l.plan (breakPlan c.breakpointLinear))
      else { c with runKind := .none }.clearBreak l.clear := by
  rw [next, if_neg fun h => by rw [hk] at h; cases h.1]
  refine if_congr (and_iff_right hk) ?_ rfl
  rw [setBreak, setPlan]
  split <;> rfl

theorem next_ended (hk : c.runKind = .none ∨ c.runKind = .breakReal) (hr : c.resume = false) :
    (c.next l).Ended := by
  have h1 : ¬(c.runKind.traces = true ∧ c.traceRemaining ≠ 0) := by
    obtain hk | hk := hk <;> rw [hk] <;> exact fun h => nomatch h.1
  have h2 : ¬(c.runKind = .breakLinear ∧ c.breakpointRemaining ≠ 0) := by
    obtain hk | hk := hk <;> rw [hk] <;> exact fun h => nomatch h.1
  rw [next, if_neg h1, if_neg h2]
  exact ended_clearBreak c _ hr

/-- The stop as the observation finds it. -/
def found (c : Context) : Context := { c with resume := false, accessOk := true }

theorem executionResult_of_not (h : ¬(l.result = true ∧ c.machine.resultReady = true)) :
    c.found.executionResult l.result = (false, c.found.access l.result) := by
  rw [executionResult, if_neg]
  rw [Bool.and_eq_true, Bool.and_eq_true, and_assoc]
  exact fun hr => h hr.2

/-- A pause without a result ends the run. -/
theorem pause_without_result (h : ¬(l.result = true ∧ c.machine.resultReady = true)) :
    (c.found.pause l).Ended := by
  rw [pause, executionResult_of_not h]
  refine ⟨rfl, ?_⟩
  dsimp only
  split
  · cases ‹false = true›
  · split <;> rfl

/-- …and one with a result goes on from it. -/
theorem pause_with_result (h : l.result = true ∧ c.machine.resultReady = true) :
    c.found.pause l =
      (({ c.found with observation := c.machine.observation }.reportHit l).countStop l).next l := by
  have hr : c.found.executionResult l.result =
      (true, { c.found with observation := c.machine.observation }) := by
    rw [executionResult, if_pos]
    · rfl
    · rw [Bool.and_eq_true, Bool.and_eq_true]
      exact ⟨⟨rfl, h.1⟩, h.2⟩
  rw [pause, hr]
  rfl

theorem pause_with_hit (h : l.result = true ∧ c.machine.resultReady = true)
    (hhit : c.machine.observation.watchHit = true) : (c.found.pause l).Ended := by
  rw [pause_with_result h, reportHit, if_pos hhit]
  exact next_ended (.inl rfl) rfl

/-- A clean stop that is counted comes to `d`, if it can be printed. -/
theorem pause_counted {d : Context} {request : PlanRequest} {remaining : ℕ}
    (h : l.result = true ∧ c.machine.resultReady = true)
    (hclean : c.machine.observation.watchHit = false)
    (hcount : ({ c.found with observation := c.machine.observation } : Context).countStop l = d.access l.print)
    (hd : d.accessOk = true) (hr : d.resume = false) (hvalid : (d.machine.setPlan request d.pc).1 = .ok)
    (hnext : (d.access l.print).next l =
      if remaining ≠ 0 then again ((d.access l.print).setPlan l.plan request)
      else { d.access l.print with runKind := .none }.clearBreak l.clear) :
    ((c.found.pause l).Ended ∧ (l.print = true → l.plan = true → remaining = 0)) ∨
      (remaining ≠ 0 ∧ c.found.pause l =
        { d with machine := (d.machine.setPlan request d.pc).2, resume := true }) := by
  rw [pause_with_result h, reportHit, if_neg (by rw [hclean]; exact Bool.false_ne_true), hcount]
  obtain ⟨hended, hlast⟩ | ⟨hok, hrem, hstep⟩ := next_counted (c := d.access l.print) hr hvalid hnext
  · exact .inl ⟨hended, fun hprint hplan => hlast (by rw [access, hd, hprint]; rfl) hplan⟩
  · have hprint : (d.accessOk && l.print) = d.accessOk := hok.trans hd.symm
    have hprinted : d.access l.print = d := by rw [access, hprint]
    exact .inr ⟨hrem, by rw [hstep, hprinted]⟩

/-- The stop of a trace. -/
theorem pause_traced (h : l.result = true ∧ c.machine.resultReady = true)
    (hclean : c.machine.observation.watchHit = false) (hk : c.runKind.traces = true) :
    ((c.found.pause l).Ended ∧ (l.print = true → l.plan = true → c.traceRemaining - 1 = 0)) ∨
      (c.traceRemaining - 1 ≠ 0 ∧ c.found.pause l = { c.found with
        observation := c.machine.observation
        traceRemaining := c.traceRemaining - 1
        machine := (c.machine.setPlan (tracePlan 1) c.pc).2
        resume := true }) := by
  refine pause_counted (d := { c.found with
    observation := c.machine.observation, traceRemaining := c.traceRemaining - 1 }) h hclean ?_ rfl rfl rfl
    (next_trace hk)
  rw [countStop]
  change (match c.runKind with
    | .traceReal | .traceLinear => _
    | .breakReal => _
    | .breakLinear => _
    | .none => _) = _
  cases hc : c.runKind <;> first | rfl | (rw [hc] at hk; cases hk)

/-- The stop of a counted breakpoint. -/
theorem pause_broken (h : l.result = true ∧ c.machine.resultReady = true)
    (hclean : c.machine.observation.watchHit = false) (hk : c.runKind = .breakLinear) :
    ((c.found.pause l).Ended ∧ (l.print = true → l.plan = true → c.breakpointRemaining - 1 = 0)) ∨
      (c.breakpointRemaining - 1 ≠ 0 ∧ c.found.pause l = { c.found with
        observation := c.machine.observation
        breakpointRemaining := c.breakpointRemaining - 1
        machine := (c.machine.setPlan (breakPlan c.breakpointLinear) c.pc).2
        resume := true }) := by
  refine pause_counted (d := { c.found with
    observation := c.machine.observation, breakpointRemaining := c.breakpointRemaining - 1 }) h hclean ?_
    rfl rfl rfl (next_break hk)
  rw [countStop]
  change (match c.runKind with
    | .traceReal | .traceLinear => _
    | .breakReal => _
    | .breakLinear => _
    | .none => _) = _
  rw [hk]
  rfl

theorem observe_paused (c : Context) (l : Leases) :
    c.observe .paused true l = (c.found.pause l).reportAccess.endOutput l.output := rfl

theorem observe_without_lease {last : Prop} (hl : ¬l.result = true) :
    (c.observe .paused true l).Ended ∧ (l.all = true → last) :=
  ⟨ended_report (pause_without_result fun h => hl h.1) l.output,
    fun hall => absurd (Leases.of_all hall).2.1 hl⟩

/-- A stop that ends the run, observed, or one that goes on. -/
theorem observe_of_pause {renewed : Context} {last : Prop} (hrenewed : renewed.accessOk = true)
    (h : ((c.found.pause l).Ended ∧ (l.print = true → l.plan = true → last)) ∨
      (¬last ∧ c.found.pause l = renewed)) :
    ((c.observe .paused true l).Ended ∧ (l.all = true → last)) ∨
      (¬last ∧ c.observe .paused true l = renewed) := by
  rw [observe_paused]
  obtain ⟨hended, hlast⟩ | ⟨hmore, hpause⟩ := h
  · exact .inl ⟨ended_report hended l.output, fun hall =>
      hlast (Leases.of_all hall).2.2.1 (Leases.of_all hall).2.2.2.1⟩
  · rw [hpause]
    obtain ⟨hended, hout⟩ | heq := report_cases hrenewed l.output
    · exact .inl ⟨hended, fun hall => absurd (Leases.of_all hall).2.2.2.2 (hout ▸ Bool.false_ne_true)⟩
    · exact .inr ⟨hmore, heq⟩

theorem countStop_none (h : c.runKind = .none) : c.countStop l = c := by
  rw [countStop, h]

/-- A pause that is no clean stop of a run ends it. -/
theorem observe_ends (h : c.runKind = .none ∨ c.machine.observation.watchHit = true ∨
    c.machine.resultReady = false) : (c.observe .paused true l).Ended := by
  rw [observe_paused]
  refine ended_report ?_ l.output
  by_cases hresult : l.result = true ∧ c.machine.resultReady = true
  · obtain hnone | hhit | hno := h
    · rw [pause_with_result hresult, reportHit]
      split
      · exact next_ended (.inl rfl) rfl
      · have hcount := countStop_none (l := l)
          (c := { c.found with observation := c.machine.observation }) hnone
        rw [hcount]
        exact next_ended (.inl hnone) rfl
    · exact pause_with_hit hresult hhit
    · rw [hresult.2] at hno
      cases hno
  · exact pause_without_result hresult

/-- The clean stop of a trace, observed. -/
theorem observe_traced (hready : c.machine.resultReady = true)
    (hclean : c.machine.observation.watchHit = false) (hk : c.runKind.traces = true) :
    ((c.observe .paused true l).Ended ∧ (l.all = true → c.traceRemaining - 1 = 0)) ∨
      (c.traceRemaining - 1 ≠ 0 ∧ c.observe .paused true l = { c.found with
        observation := c.machine.observation
        traceRemaining := c.traceRemaining - 1
        machine := (c.machine.setPlan (tracePlan 1) c.pc).2
        resume := true }) := by
  by_cases hl : l.result = true
  · exact observe_of_pause rfl (pause_traced ⟨hl, hready⟩ hclean hk)
  · exact .inl (observe_without_lease hl)

/-- …and of a counted breakpoint. -/
theorem observe_broken (hready : c.machine.resultReady = true)
    (hclean : c.machine.observation.watchHit = false) (hk : c.runKind = .breakLinear) :
    ((c.observe .paused true l).Ended ∧ (l.all = true → c.breakpointRemaining - 1 = 0)) ∨
      (c.breakpointRemaining - 1 ≠ 0 ∧ c.observe .paused true l = { c.found with
        observation := c.machine.observation
        breakpointRemaining := c.breakpointRemaining - 1
        machine := (c.machine.setPlan (breakPlan c.breakpointLinear) c.pc).2
        resume := true }) := by
  by_cases hl : l.result = true
  · exact observe_of_pause rfl (pause_broken ⟨hl, hready⟩ hclean hk)
  · exact .inl (observe_without_lease hl)

theorem setPlan_pc (c : Context) (lease : Bool) (request : PlanRequest) :
    (c.setPlan lease request).2.pc = c.pc := by
  rw [setPlan]
  split <;> rfl

theorem again_pc (r : Bool × Context) : (again r).pc = r.2.pc := by
  rw [again]
  split <;> rfl

theorem next_pc (c : Context) (l : Leases) : (c.next l).pc = c.pc := by
  rw [next]
  split
  · rw [again_pc, setTrace, setPlan_pc]
  · split
    · rw [again_pc, setBreak]
      dsimp only
      split <;> exact setPlan_pc c l.plan _
    · rfl

theorem countStop_pc (c : Context) (l : Leases) : (c.countStop l).pc = c.pc := by
  rw [countStop]
  split <;> rfl

theorem reportHit_pc (c : Context) (l : Leases) : (c.reportHit l).pc = c.pc := by
  rw [reportHit]
  split <;> rfl

theorem report_pc (c : Context) (ok : Bool) : (c.reportAccess.endOutput ok).pc = c.pc := by
  rw [endOutput, reportAccess]
  split <;> split <;> rfl

/-- No observation moves the machine. -/
theorem observe_pc (c : Context) (l : Leases) : (c.observe .paused true l).pc = c.pc := by
  rw [observe_paused, report_pc]
  by_cases hresult : l.result = true ∧ c.machine.resultReady = true
  · rw [pause_with_result hresult, next_pc, countStop_pc, reportHit_pc]
    rfl
  · rw [pause, executionResult_of_not hresult]
    dsimp only
    split
    · cases ‹false = true›
    · split <;> rfl

end Context

/-! ## Runs -/

/-- What becomes of a request: the machine runs or does not, some units have been counted along its legs, and
the run may have been ended early — by a hit, a failure or a cancellation.  The product gives
`LIB_STATUS_OK` with a pause. -/
inductive Follows (linearOf : BitVec 16 × BitVec 16 → UInt32) (count : Debug.State → List Event → ℕ)
    (request : Request) : Context → Bool → ℕ → Bool → Prop
  /-- The request is submitted to an idle command. -/
  | issued {c : Context} (l : Leases) (hidle : c.runKind = .none) :
    Follows linearOf count request (c.submit linearOf l request) (c.submit linearOf l request).resume 0 (!l.all)
  /-- The machine is seen running. -/
  | running {c : Context} {going : Bool} {done : ℕ} {early : Bool} (ok : Bool) (l : Leases)
    (h : Follows linearOf count request c going done early) :
    Follows linearOf count request (c.observe .running ok l) going done (early || !l.output)
  /-- A plan completes: the machine stops as an instruction begins, and pauses there. -/
  | stopped {c : Context} {done : ℕ} {early : Bool} {events : List Event} {m : Debug.State} {address : UInt32}
    (l : Leases) (h : Follows linearOf count request c true done early)
    (hrun : c.machine.advance events = some m) (hpaired : Debug.Paired false events)
    (hstop : (m.begin address).1 = true) :
    Follows linearOf count request
      ({ c with machine := (m.begin address).2.takeDebugStop.2, pc := address }.observe .paused true l)
      ({ c with machine := (m.begin address).2.takeDebugStop.2, pc := address }.observe .paused true l).resume
      (done + count c.machine (events ++ [.begin address]))
      (early || (m.begin address).2.observation.watchHit || !l.all)
  /-- The user pauses the machine, which cancels its plan. -/
  | cancelled {c : Context} {done : ℕ} {early : Bool} {events : List Event} {m : Debug.State} {pc : UInt32}
    (l : Leases) (h : Follows linearOf count request c true done early)
    (hrun : c.machine.advance events = some m) (hpaired : Debug.Paired false events) :
    Follows linearOf count request ({ c with machine := .cancelDebug, pc := pc }.observe .paused true l) false
      (done + count c.machine events) true
  /-- The machine stops, is reset or faults. -/
  | ended {c : Context} {done : ℕ} {early : Bool} {events : List Event} {m : Debug.State}
    {state : Context.MachineState}
    (ok : Bool) (l : Leases) (h : Follows linearOf count request c true done early)
    (hrun : c.machine.advance events = some m) (hpaired : Debug.Paired false events)
    (hstate : state = .stopped ∨ state = .reset ∨ state = .fault) :
    Follows linearOf count request ({ c with machine := m }.observe state ok l) false
      (done + count c.machine events) true

/-- What a way of counting needs: of `left` units to go, a machine under way counts no more; a stop that ends
the run without a hit has counted them all; and one that goes on leaves the rest. -/
structure Counts (count : Debug.State → List Event → ℕ) (Going : Context → ℕ → Prop)
    (There : UInt32 → Prop) : Prop where
  left : ∀ {c n}, Going c n → 0 < n
  bound : ∀ {c n events m}, Going c n → c.machine.advance events = some m → Debug.Paired false events →
    count c.machine events ≤ n
  seen : ∀ {c n}, Going c n → Going { c with resume := false } n ∧
    Going { c with runKind := .none, resume := false } n
  stop : ∀ {c n events m address l c'}, Going c n → c.machine.advance events = some m →
    Debug.Paired false events → (m.begin address).1 = true →
    c' = { c with machine := (m.begin address).2.takeDebugStop.2, pc := address }.observe .paused true l →
    count c.machine (events ++ [.begin address]) ≤ n ∧
      ((c'.Ended ∧ (l.all = true → (m.begin address).2.observation.watchHit = false → c.runKind ≠ .none →
          count c.machine (events ++ [.begin address]) = n ∧ There c'.pc)) ∨
        (c'.resume = true ∧ c'.runKind ≠ .none ∧
          Going c' (n - count c.machine (events ++ [.begin address]))))

/-- **A run so far.** -/
structure Exact (n : ℕ) (There : UInt32 → Prop) (c : Context) (going : Bool) (done : ℕ) (early : Bool) :
    Prop where
  bound : done ≤ n
  under_way : going = true → done < n
  given_up : going = true → c.runKind = .none → early = true
  complete : going = false → early = false → done = n ∧ (n ≠ 0 → There c.pc)
  idle : going = false → c.Ended

/-- What is counted along a run is what was asked for: by induction on the run, with a leg under way when the
machine is going. -/
theorem Counts.exact {linearOf count request Going There n} (hc : Counts count Going There)
    (hissued : ∀ {c : Context} (l : Leases), c.runKind = .none →
      ((c.submit linearOf l request).Ended ∧ (l.all = true → n = 0)) ∨
      ((c.submit linearOf l request).resume = true ∧ (c.submit linearOf l request).runKind ≠ .none ∧
        Going (c.submit linearOf l request) n)) {c going done early}
    (h : Follows linearOf count request c going done early) :
    Exact n There c going done early ∧ (going = true → Going c (n - done)) := by
  induction h with
  | issued l hidle =>
    obtain ⟨hended, hzero⟩ | ⟨hresume, hkind, hgoing⟩ := hissued l hidle
    · rw [hended.2]
      refine ⟨⟨Nat.zero_le n, by simp, by simp, fun _ hearly => ?_, fun _ => hended⟩, by simp⟩
      rw [Bool.not_eq_false'] at hearly
      exact ⟨(hzero hearly).symm, fun hn => absurd (hzero hearly) hn⟩
    · rw [hresume]
      exact ⟨⟨Nat.zero_le n, fun _ => hc.left hgoing, fun _ hnone => absurd hnone hkind, by simp, by simp⟩,
        fun _ => hgoing⟩
  | @running c going done early ok l h ih =>
    obtain ⟨hexact, hgoing⟩ := ih
    change Exact n There ({ c with resume := false }.endOutput l.output) going done _ ∧
      (going = true → Going ({ c with resume := false }.endOutput l.output) (n - done))
    rw [Context.endOutput]
    split
    · rename_i hout
      rw [hout, Bool.not_true, Bool.or_false]
      exact ⟨⟨hexact.bound, hexact.under_way, hexact.given_up, hexact.complete,
        fun hg => ⟨(hexact.idle hg).1, rfl⟩⟩, fun hg => (hc.seen (hgoing hg)).1⟩
    · rename_i hout
      rw [Bool.eq_false_iff.mpr hout, Bool.not_false, Bool.or_true]
      exact ⟨⟨hexact.bound, hexact.under_way, fun _ _ => rfl, by simp, fun _ => ⟨rfl, rfl⟩⟩,
        fun hg => (hc.seen (hgoing hg)).2⟩
  | @stopped c done early events m address l h hrun hpaired hstop ih =>
    obtain ⟨hexact, hgoing⟩ := ih
    have hdone := hexact.under_way rfl
    obtain ⟨hle, hend⟩ := hc.stop (l := l) (hgoing rfl) hrun hpaired hstop rfl
    obtain ⟨hended, hlast⟩ | ⟨hresume, hkind, hrest⟩ := hend
    · rw [hended.2]
      refine ⟨⟨by omega, by simp, by simp, fun _ hearly => ?_, fun _ => hended⟩, by simp⟩
      simp only [Bool.or_eq_false_iff, Bool.not_eq_false'] at hearly
      obtain ⟨⟨hearly, hclean⟩, hall⟩ := hearly
      have hrunning : c.runKind ≠ .none := fun hnone => by
        rw [hexact.given_up rfl hnone] at hearly
        cases hearly
      obtain ⟨hcount, hthere⟩ := hlast hall hclean hrunning
      exact ⟨by omega, fun _ => hthere⟩
    · rw [hresume]
      have hleft := hc.left hrest
      refine ⟨⟨by omega, fun _ => by omega, fun _ hnone => absurd hnone hkind, by simp, by simp⟩, fun _ => ?_⟩
      rwa [← Nat.sub_sub]
  | @cancelled c done early events m pc l h hrun hpaired ih =>
    obtain ⟨hexact, hgoing⟩ := ih
    have hle := hc.bound (hgoing rfl) hrun hpaired
    have hdone := hexact.under_way rfl
    have hended : ({ c with machine := .cancelDebug, pc := pc }.observe .paused true l).Ended :=
      Context.observe_ends (.inr (.inr rfl))
    exact ⟨⟨by omega, by simp, by simp, by simp, fun _ => hended⟩, by simp⟩
  | @ended c done early events m state ok l h hrun hpaired hstate ih =>
    obtain ⟨hexact, hgoing⟩ := ih
    have hle := hc.bound (hgoing rfl) hrun hpaired
    have hdone := hexact.under_way rfl
    refine ⟨⟨by omega, by simp, by simp, by simp, fun _ => ?_⟩, by simp⟩
    obtain rfl | rfl | rfl := hstate <;>
    · change (Context.endOutput _ _).Ended
      rw [Context.endOutput]
      split <;> exact ⟨rfl, rfl⟩

/-! ## Traces and breakpoints -/

/-- The instructions that retire. -/
def retirements (_ : Debug.State) (events : List Event) : ℕ := events.countP Event.isRetired

/-- A trace under way: `traceRemaining` plans of `k` instructions, of which only one may be long. -/
structure TraceGoing (c : Context) (n : ℕ) : Prop where
  kind : c.runKind.traces = true ∨ c.runKind = .none
  plan : ∃ k, 0 < k ∧ c.machine.Tracing k false 0 ∧ n = k * c.traceRemaining ∧ (k = 1 ∨ c.traceRemaining = 1)
  remaining : 0 < c.traceRemaining

theorem setPlan_tracePlan {s : Debug.State} {count : ℕ} {pc : UInt32} (hpos : 0 < count)
    (hmax : count ≤ 0xffffffff) :
    (s.setPlan (tracePlan count) pc).1 = .ok ∧
      (s.setPlan (tracePlan count) pc).2.Tracing count false 0 := by
  have hcount : (UInt64.ofNat count).toNat = count := UInt64.toNat_ofNat_of_lt' <|
    Nat.lt_of_le_of_lt hmax (by decide)
  have hvalid : (s.setPlan (tracePlan count) pc).1 = .ok := by
    rw [Debug.State.setPlan, if_neg]
    simp only [tracePlan, Nat.lt_irrefl, Nat.reduceLT, decide_false, Bool.or_self, beq_self_eq_true,
      Bool.true_and, Bool.false_or, Bool.or_eq_true, beq_iff_eq, decide_eq_true_eq, not_or,
      ← UInt64.toNat_inj, UInt64.lt_iff_toNat_lt, hcount]
    exact ⟨Nat.ne_of_gt hpos, Nat.not_lt_of_le hmax⟩
  have h := setPlan_tracing hvalid
  rw [hcount] at h
  exact ⟨hvalid, h⟩

theorem trace_counts : Counts retirements TraceGoing fun _ => True where
  left := by
    rintro c n ⟨-, ⟨k, hk, -, rfl, -⟩, hrem⟩
    exact Nat.mul_pos hk hrem
  bound := by
    rintro c n events m ⟨-, ⟨k, hk, htracing, rfl, -⟩, hrem⟩ hrun hpaired
    obtain ⟨opened, h⟩ := htracing.advance hrun hpaired
    have hle := h.bound
    rw [Nat.zero_add] at hle
    exact Nat.le_trans hle (Nat.le_mul_of_pos_right k hrem)
  seen := fun h => ⟨⟨h.kind, h.plan, h.remaining⟩, ⟨.inr rfl, h.plan, h.remaining⟩⟩
  stop := by
    rintro c n events m address l c' ⟨hkind, ⟨k, hk, htracing, rfl, hone⟩, hrem⟩ hrun hpaired hstop rfl
    obtain ⟨opened, h⟩ := htracing.advance hrun hpaired
    have hle := h.bound
    have hmul := Nat.le_mul_of_pos_right k hrem
    have hcount : retirements c.machine (events ++ [.begin address]) = events.countP Event.isRetired := by
      rw [retirements, List.countP_append]
      rfl
    rw [hcount]
    refine ⟨by omega, ?_⟩
    obtain ⟨hready, hobs, -⟩ := Debug.State.stopped hstop
    generalize (m.begin address).2.takeDebugStop.2 = t at hready hobs ⊢
    obtain htraces | hnone := hkind
    · cases hclean : (m.begin address).2.observation.watchHit with
      | true =>
        refine .inl ⟨Context.observe_ends (.inr (.inl ?_)), fun _ hno => by cases hno⟩
        rw [hobs, hclean]
      | false =>
        have hall := h.stop hstop hclean
        obtain ⟨hended, hlast⟩ | ⟨hmore, heq⟩ := Context.observe_traced (l := l)
          (c := { c with machine := t, pc := address }) hready (hobs ▸ hclean) htraces
        · refine .inl ⟨hended, fun hl _ _ => ⟨?_, trivial⟩⟩
          have hrem' : c.traceRemaining = 1 := Nat.le_antisymm (Nat.le_of_sub_eq_zero (hlast hl)) hrem
          rw [hrem', Nat.mul_one]
          omega
        · obtain rfl : k = 1 := hone.resolve_right fun hrem' => hmore (by rw [hrem'])
          rw [heq]
          refine .inr ⟨rfl, fun hnone => ?_, .inl htraces, ⟨1, Nat.one_pos,
            (setPlan_tracePlan Nat.one_pos (by decide)).2, ?_, .inl rfl⟩, ?_⟩
          · change c.runKind = .none at hnone
            rw [hnone] at htraces
            cases htraces
          · change _ = 1 * (c.traceRemaining - 1)
            omega
          · exact Nat.pos_of_ne_zero hmore
    · exact .inl ⟨Context.observe_ends (.inl hnone), fun _ _ hno => absurd hnone hno⟩

/-- A trace asked for. -/
theorem trace_issued {c : Context} {l : Leases} {kind : RunKind} {n : ℕ} (hidle : c.Ended)
    (hkind : kind.traces = true) (hmax : n ≤ 0xffffffff) (hregs : l.all = true → c.accessOk = true) :
    (((c.trace l.plan kind n).reportAccess.endOutput l.output).Ended ∧ (l.all = true → n = 0)) ∨
      (((c.trace l.plan kind n).reportAccess.endOutput l.output).resume = true ∧
        ((c.trace l.plan kind n).reportAccess.endOutput l.output).runKind ≠ .none ∧
        TraceGoing ((c.trace l.plan kind n).reportAccess.endOutput l.output) n) := by
  rw [Context.trace]
  split
  · exact .inl ⟨Context.ended_report hidle l.output, fun _ => ‹_›⟩
  · rename_i hn
    have hk : 0 < (if n < 0x100 then 1 else n) ∧ (if n < 0x100 then 1 else n) ≤ 0xffffffff := by
      split <;> omega
    obtain ⟨hvalid, htracing⟩ := @setPlan_tracePlan c.machine _ c.pc hk.1 hk.2
    rw [Context.beginTrace, Context.setTrace]
    by_cases hgo : c.accessOk = true ∧ l.plan = true
    · rw [Context.setPlan_of_ok hgo.1 hgo.2 hvalid]
      dsimp only
      rw [if_pos rfl, if_pos rfl]
      obtain ⟨hended, hout⟩ | heq := Context.report_cases (c := Context.requestResume { c with
        runKind := kind
        traceRemaining := if n < 0x100 then n else 1
        machine := (c.machine.setPlan (tracePlan (if n < 0x100 then 1 else n)) c.pc).2 }) hgo.1 l.output
      · exact .inl ⟨hended, fun hall => absurd (Leases.of_all hall).2.2.2.2 (hout ▸ Bool.false_ne_true)⟩
      · rw [heq]
        refine .inr ⟨rfl, fun hnone => ?_, .inl hkind, ⟨_, hk.1, htracing, ?_, ?_⟩, ?_⟩
        · change kind = .none at hnone
          rw [hnone] at hkind
          cases hkind
        · change n = (if n < 0x100 then 1 else n) * (if n < 0x100 then n else 1)
          split <;> omega
        · change (if n < 0x100 then 1 else n) = 1 ∨ (if n < 0x100 then n else 1) = 1
          split
          · exact .inl rfl
          · exact .inr rfl
        · change 0 < (if n < 0x100 then n else 1)
          split <;> omega
    · rw [Context.setPlan_of_not fun h => hgo ⟨h.1, h.2.1⟩]
      refine .inl ⟨Context.report_failed rfl l.output, fun hall => absurd ⟨hregs hall, ?_⟩ hgo⟩
      exact (Leases.of_all hall).2.2.2.1

/-- A breakpoint under way. -/
structure BreakGoing (linear : UInt32) (c : Context) (n : ℕ) : Prop where
  kind : c.runKind = .breakLinear ∨ c.runKind = .none
  address : c.breakpointLinear = linear
  plan : c.machine.Breaking linear (c.machine.heldAt linear)
  remaining : c.breakpointRemaining = n
  left : 0 < n

theorem break_counts (linear : UInt32) :
    Counts (fun s events => arrivals linear (s.heldAt linear) events) (BreakGoing linear) (· = linear) where
  left := fun h => h.left
  bound := fun h hrun _ => (h.plan.advance hrun).1 ▸ Nat.zero_le _
  seen := fun h => ⟨⟨h.kind, h.address, h.plan, h.remaining, h.left⟩,
    ⟨.inr rfl, h.address, h.plan, h.remaining, h.left⟩⟩
  stop := by
    rintro c n events m address l c' ⟨hkind, hlinear, hbreaking, rfl, hleft⟩ hrun hpaired hstop rfl
    obtain ⟨-, held, h, hcount⟩ := hbreaking.advance hrun
    rw [hcount]
    refine ⟨by split <;> omega, ?_⟩
    obtain ⟨hready, hobs, -⟩ := Debug.State.stopped hstop
    generalize (m.begin address).2.takeDebugStop.2 = t at hready hobs ⊢
    obtain hk | hk := hkind
    · cases hclean : (m.begin address).2.observation.watchHit with
      | true =>
        refine .inl ⟨Context.observe_ends (.inr (.inl ?_)), fun _ hno => by cases hno⟩
        rw [hobs, hclean]
      | false =>
        have hthere := h.stop hstop hclean
        rw [if_pos hthere]
        obtain ⟨hended, hlast⟩ | ⟨hmore, heq⟩ := Context.observe_broken (l := l)
          (c := { c with machine := t, pc := address }) hready (hobs ▸ hclean) hk
        · refine .inl ⟨hended, fun hl _ _ => ⟨?_, ?_⟩⟩
          · have hlast : c.breakpointRemaining - 1 = 0 := hlast hl
            omega
          · rw [Context.observe_pc]
            exact hthere.1
        · rw [heq]
          refine .inr ⟨rfl, fun hnone => ?_, .inl hk, hlinear, ?_, rfl, Nat.pos_of_ne_zero hmore⟩
          · change c.runKind = .none at hnone
            rw [hnone] at hk
            cases hk
          · rw [hlinear]
            exact setPlan_breaking
    · exact .inl ⟨Context.observe_ends (.inl hk), fun _ _ hno => absurd hk hno⟩


/-- A counted breakpoint asked for. -/
theorem break_issued {c : Context} {l : Leases} {linearOf linear} {n : BitVec 32} (hidle : c.Ended)
    (hok : c.accessOk = true) {c' : Context}
    (hc' : c' = (c.perform linearOf l (.breakLinear linear n)).reportAccess.endOutput l.output) :
    (c'.Ended ∧ (l.all = true → n.toNat = 0)) ∨
      (c'.resume = true ∧ c'.runKind ≠ .none ∧ BreakGoing (.ofBitVec linear) c' n.toNat) := by
  rw [Context.perform] at hc'
  split at hc'
  · rename_i hn
    exact .inl ⟨hc' ▸ Context.ended_report hidle l.output, fun _ => hn ▸ rfl⟩
  · rename_i hn
    have hvalid : (c.machine.setPlan (breakPlan (.ofBitVec linear)) c.pc).1 = .ok := rfl
    rw [Context.setBreak] at hc'
    by_cases hplan : l.plan = true
    · rw [Context.setPlan_of_ok hok hplan hvalid] at hc'
      dsimp only at hc'
      rw [if_pos rfl, if_pos rfl] at hc'
      obtain ⟨hended, hout⟩ | heq := Context.report_cases (c := Context.requestResume (Context.beginBreak {
        c with
        machine := (c.machine.setPlan (breakPlan (.ofBitVec linear)) c.pc).2
        breakpointLinear := .ofBitVec linear } n.toNat)) hok l.output
      · exact .inl ⟨hc' ▸ hended, fun hall => absurd (Leases.of_all hall).2.2.2.2 (hout ▸ Bool.false_ne_true)⟩
      · rw [hc', heq]
        refine .inr ⟨rfl, nofun, .inl rfl, rfl, setPlan_breaking, rfl, ?_⟩
        exact Nat.pos_of_ne_zero fun hzero => hn (BitVec.eq_of_toNat_eq hzero)
    · rw [Context.setPlan_of_not fun h => hplan h.2.1] at hc'
      exact .inl ⟨hc' ▸ Context.report_failed rfl l.output, fun hall =>
        absurd (Leases.of_all hall).2.2.2.1 hplan⟩

/-- **Trace and counted go execute what was asked.**  Along any run of `T` or `XT`, whichever its legs, no more
instructions retire than were asked for, and along a run of `XG` the machine arrives at the address no more
often; when the machine no longer goes the command is idle, and unless a hit, a failure or a cancellation ended
the run early the count is exact, with the machine at the address it was to go to. -/
theorem counted_runs_exact {linearOf : BitVec 16 × BitVec 16 → UInt32} {c : Context} {going : Bool} {done : ℕ}
    {early : Bool} :
    (∀ start count, Follows linearOf retirements (.traceReal start count) c going done early →
      Exact count.toNat (fun _ => True) c going done early) ∧
    (∀ count, Follows linearOf retirements (.traceLinear count) c going done early →
      Exact count.toNat (fun _ => True) c going done early) ∧
    ∀ linear count, Follows linearOf (fun s events => arrivals (.ofBitVec linear)
        (s.heldAt (.ofBitVec linear)) events) (.breakLinear linear count) c going done early →
      Exact count.toNat (· = .ofBitVec linear) c going done early := by
  refine ⟨fun start count h => (trace_counts.exact (fun l hidle => ?_) h).1,
    fun count h => (trace_counts.exact (fun l hidle => ?_) h).1,
    fun linear count h => ((break_counts _).exact (fun l hidle => break_issued (c := Context.beginOutput _) ⟨hidle, rfl⟩ rfl rfl) h).1⟩
  · have hmax : count.toNat ≤ 0xffffffff := by
      have := count.isLt
      omega
    cases start with
    | none => exact trace_issued ⟨hidle, rfl⟩ rfl hmax fun _ => rfl
    | some start =>
      refine trace_issued ⟨hidle, rfl⟩ rfl hmax fun hall => ?_
      change (true && l.registers) = true
      rw [(Leases.of_all hall).1]
      rfl
  · exact trace_issued ⟨hidle, rfl⟩ rfl (Nat.le_of_lt_succ count.isLt) fun _ => rfl

/-- Two instructions, one at a time: the first stop sets the plan again, the second ends the run. -/
theorem counted_runs_exact_two : ∃ c, Exact 2 (fun _ => True) c false 2 false := by
  have h0 := @Follows.issued (fun _ => 0) retirements (.traceLinear 2) {} {} rfl
  have h1 := @Follows.stopped _ _ _ _ _ _ [.begin 0, .retired] _ 1 {} h0 rfl ⟨rfl, trivial⟩ rfl
  have h2 := @Follows.stopped _ _ _ _ _ _ [.begin 1, .retired] _ 2 {} h1 rfl ⟨rfl, trivial⟩ rfl
  exact ⟨_, counted_runs_exact.2.1 2 h2⟩

end SoftPC.X86Debug
