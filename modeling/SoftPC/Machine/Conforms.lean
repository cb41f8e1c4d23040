import Mathlib.Tactic.MkIffOfInductiveProp
import SoftPC.Machine.Protocol

/-!
# Machine/Conforms — every thread keeps to its protocol

One lemma per function of the source: from which phases it may be called, and in which phase it
leaves its thread.
-/

namespace SoftPC.Machine

open SoftPC.Threads Threads.Prog

/-! ## The worker -/

namespace WorkerPhase

/-- The worker is between two jobs at a place: it holds no input, is in the middle of no state read,
and owes just what is said. -/
@[mk_iff rest_iff]
structure Rest (p : Place) (l : Bool) (o : Option (Kind × Stage)) (w : WorkerPhase) : Prop where
  place : w.place = p
  locked : w.locked = l
  hand : w.hand = none
  owes : w.owes = o
  reading : w.reading = .none ∨ w.reading = .following
  admits : w.admits = true → p = .live

section Worker

variable {hooks : Hooks} {w : WorkerPhase} {p : Place} {l : Bool} {o : Option (Kind × Stage)}

open Stepping

attribute [local simp] Kind.flag Kind.event

theorem follows_notifyState {s : State} (h : Rest p l o w)
    (hs : s.ended = true ∨ p = .live ∧ w.sawStop = false) :
    Follows next (notifyState hooks s)
      (fun _ w' => Rest p l o w' ∧ w'.sawStop = w.sawStop) w := by
  rw [← h.place] at hs
  unfold notifyState Prog.when
  split
  · simp [hs]
    simpa [rest_iff] using h
  · exact ⟨h, rfl⟩

/-- A recorded outcome may be announced. -/
theorem follows_completeRequest {k : Kind} (h : Rest p l (some (k, .recorded)) w)
    (hk : k = .stateRead → w.armed = false ∧ w.ready = false) :
    Follows next (completeRequest k.event) (fun _ w' => Rest p l none w') w := by
  have ho := h.owes
  unfold completeRequest failSyncUnless
  cases k <;> simp [ho] <;> simpa [rest_iff, ho, hk] using h

/-- … and so may a refusal. -/
theorem follows_completeRefused (h : Rest p l (some (.debug, .refused)) w) :
    Follows next (completeRequest .debug) (fun _ w' => Rest p l none w') w := by
  have ho := h.owes
  unfold completeRequest failSyncUnless
  simp [ho]
  simpa [rest_iff, ho] using h

theorem follows_takeRequest {k : Kind} (hk : k ≠ .stateRead) (hc : p ≠ .closing)
    (h : Rest p false none w) :
    Follows next (takeRequest k.flag)
      (fun b w' => Rest p false (if b then some (k, .claimed) else none) w') w := by
  obtain ⟨hp, hl, hh, ho, hr, ha⟩ := h
  unfold takeRequest Prog.and Prog.not load exchange
  cases k with
  | stateRead => exact absurd rfl hk
  | _ => simp [rest_iff, hp, hc, hh, ho, hr]; exact ha

/-- The medium is changed, or the change reported impossible, and the request answered. -/
theorem follows_serviceMedia (hc : p ≠ .closing) (h : Rest p false none w) :
    Follows next (serviceMedia hooks) (fun _ w' => Rest p false none w') w := by
  refine (follows_takeRequest (k := .media) (by decide) hc h).bind fun taken w' h' => ?_
  cases taken with
  | false => exact h'
  | true =>
    have ho := h'.owes
    unfold Prog.when
    cases hooks.setRemovableMedia <;> simp [ho] <;>
      exact follows_completeRequest (k := .media) (by simpa [rest_iff, ho] using h') (by simp)

/-- The three checks of a debug request, in the order the worker makes them. -/
theorem follows_debugChecks (h : Rest p false (some (.debug, .refused)) w) :
    Follows next (Prog.and (stateIs .paused) (Prog.and (load .pauseRequested) leaseCurrent))
      (fun b w' => Rest p false (some (.debug, .refused)) w' ∧ (b = true → w'.checks.passed = true))
      w := by
  obtain ⟨hp, hl, hh, ho, hr, ha⟩ := h
  unfold Prog.and stateIs load leaseCurrent
  simp +contextual [rest_iff, Checks.passed, *]

theorem follows_executeDebug (h : Rest p false (some (.debug, .refused)) w)
    (hpass : w.checks.passed = true) :
    Follows next executeDebug (fun _ w' => Rest p false (some (.debug, .recorded)) w') w := by
  obtain ⟨hp, hl, hh, ho, hr, ha⟩ := h
  unfold executeDebug
  simp [rest_iff, *]
  exact fun _ => ha

theorem follows_settleDebug {capacity : ℕ}
    (h : Rest p false (some (.debug, .refused)) w ∨ Rest p false (some (.debug, .recorded)) w) :
    Follows next (settleDebug capacity) (fun _ w' => Rest p false none w') w := by
  have hrecorded : ∀ w', Rest p false (some (.debug, .recorded)) w' →
      Follows next (completeRequest .debug) (fun _ w' => Rest p false none w') w' :=
    fun w' h' => follows_completeRequest (k := .debug) h' (by simp)
  unfold settleDebug
  rcases h with h | h <;> have ho := h.owes <;> simp [ho] <;>
    refine fun size => ⟨fun _ _ => hrecorded _ ?_, fun _ _ => ?_⟩
  · simpa [rest_iff, ho] using h
  · exact follows_completeRefused (by simpa [rest_iff, ho] using h)
  · simpa [rest_iff, ho] using h
  · exact hrecorded _ (by simpa [rest_iff, ho] using h)

theorem follows_answerDebug (h : Rest p false (some (.debug, .claimed)) w) :
    Follows next answerDebug (fun _ w' => Rest p false none w') w := by
  have ho := h.owes
  unfold answerDebug
  simp [ho]
  intro capacity
  have hrefused : Rest p false (some (.debug, .refused))
      { w with owes := some (.debug, .refused), mayComplete := false } := by
    simpa [rest_iff, ho] using h
  refine (follows_debugChecks hrefused).bind fun passed w' h' => ?_
  cases passed with
  | false => simpa using follows_settleDebug (.inl h'.1)
  | true =>
    simpa using (follows_executeDebug h'.1 (h'.2 rfl)).bind
      fun _ _ h'' => follows_settleDebug (.inr h'')

theorem follows_serviceDebug (hc : p ≠ .closing) (h : Rest p false none w) :
    Follows next (serviceDebug hooks) (fun _ w' => Rest p false none w') w := by
  have htouched : Rest p false none { w with mayComplete := false } := by
    simpa [rest_iff] using h
  have hclaim : Follows next ((takeRequest .debugRequested).bind fun taken => when taken answerDebug)
      (fun _ w' => Rest p false none w') { w with mayComplete := false } := by
    refine (follows_takeRequest (k := .debug) (by decide) hc htouched).bind fun taken w' h' => ?_
    cases taken with
    | false => exact h'
    | true => exact follows_answerDebug h'
  unfold serviceDebug
  simp
  exact ⟨hclaim, fun _ => hclaim, fun _ => hclaim⟩

/-! ### State reads -/

theorem follows_armStateRead (h : Rest .live false none w) :
    Follows next armStateRead (fun r w' => (r = (false, false) ∧ Rest .live false none w') ∨
      (r = (true, false) ∧ Rest .live false none w' ∧ w'.reading = .following) ∨
      (r = (true, true) ∧ Rest .live false none { w' with reading := .none } ∧
        w'.reading = .arming)) w := by
  obtain ⟨hp, hl, hh, ho, hr, ha⟩ := h
  unfold armStateRead Prog.or Prog.not load
  simp [rest_iff, *]

theorem follows_stateReadDone {s : Status} (h : Rest .live false none { w with reading := .none })
    (hr : w.reading = .got s ∨ (w.reading = .arming ∧ s = .unsupported)) :
    Follows next (stateReadDone s) (fun _ w' => Rest .live false none w' ∧ w'.reading = .following)
      w := by
  obtain ⟨hp, hl, hh, ho, -, ha⟩ := h
  simp only at hp hl hh ho
  unfold stateReadDone store
  rcases hr with hr | ⟨hr, rfl⟩ <;> simp [rest_iff, *]

theorem follows_beginStateRead (h : Rest .live false none { w with reading := .none })
    (hr : w.reading = .arming) :
    Follows next (beginStateRead hooks)
      (fun _ w' => Rest .live false none w' ∧ w'.reading = .following) w := by
  have h' := h
  obtain ⟨hp, hl, hh, ho, -, ha⟩ := h
  simp only at hp hl hh ho
  unfold beginStateRead
  cases hooks.beginStateRead with
  | false => simpa [hr] using follows_stateReadDone h' (.inr ⟨hr, rfl⟩)
  | true =>
    simp [hr]
    intro s
    refine ⟨fun hs => follows_stateReadDone ?_ ?_, fun hs => ?_⟩
    · simp [rest_iff, *]
    · simp [hs]
    · simp [rest_iff, *]

/-- A read that has been begun is polled until it has its result. -/
theorem follows_pollStateRead (h : Rest .live false none w) (hr : w.reading = .following) :
    Follows next (pollStateRead hooks) (fun _ w' => Rest .live false none w') w := by
  obtain ⟨hp, hl, hh, ho, -, ha⟩ := h
  unfold pollStateRead
  simp [rest_iff, *]
  intro _ r
  cases r with
  | none => simp
  | some s =>
    refine (follows_stateReadDone (s := s) ?_ (.inl rfl)).mono fun _ _ h' => ?_
    · simp [rest_iff, *]
    · simpa [rest_iff] using h'.1

theorem follows_answerStateRead (begin : Bool)
    (h : Rest .live false none { w with reading := .none })
    (hr : w.reading = if begin then .arming else .following) :
    Follows next (answerStateRead hooks begin) (fun _ w' => Rest .live false none w') w := by
  have hpoll : ∀ w', Rest .live false none w' ∧ w'.reading = .following →
      Follows next ((pollStateRead hooks).bind fun _ =>
        .op (.load .stateReadReady) fun ready => when ready (store .pauseRequested true))
      (fun _ w' => Rest .live false none w') w' := by
    intro w' ⟨h', hr'⟩
    refine (follows_pollStateRead h' hr').bind fun _ w'' h'' => ?_
    simpa [store, rest_iff] using h''
  unfold answerStateRead
  cases begin with
  | true => simpa using (follows_beginStateRead h hr).bind fun _ w' h' => hpoll w' h'
  | false =>
    simp
    refine hpoll w ⟨?_, hr⟩
    obtain ⟨hp, hl, hh, ho, -, ha⟩ := h
    exact ⟨hp, hl, hh, ho, .inr hr, ha⟩

theorem follows_serviceStateRead (h : Rest .live false none w) :
    Follows next (serviceStateRead hooks) (fun _ w' => Rest .live false none w') w := by
  refine (follows_armStateRead h).bind fun r w' h' => ?_
  rcases h' with ⟨rfl, h'⟩ | ⟨rfl, h', hr⟩ | ⟨rfl, h', hr⟩
  · simpa using h'
  · refine follows_answerStateRead false ?_ hr
    obtain ⟨hp, hl, hh, ho, -, ha⟩ := h'
    exact ⟨hp, hl, hh, ho, .inl rfl, ha⟩
  · exact follows_answerStateRead true h' hr

/-- A state read with an outcome is completed. -/
theorem follows_completeStateRead (h : Rest p l none w) (hm : w.mayComplete = true) :
    Follows next completeStateRead (fun _ w' => Rest p l none w') w := by
  obtain ⟨hp, hl, hh, ho, hr, ha⟩ := h
  unfold completeStateRead store
  simp [hm, ho]
  refine ⟨⟨hp, hl, hh, rfl, .inl rfl, ha⟩, ?_⟩
  exact follows_completeRequest (k := .stateRead) ⟨hp, hl, hh, rfl, .inl rfl, ha⟩ (by simp)

/-! ### The end of every request -/

theorem follows_failStateRead (h : Rest p l none w) :
    Follows next failStateRead (fun _ w' => Rest p l none w') w := by
  obtain ⟨hp, hl, hh, ho, hr, ha⟩ := h
  unfold failStateRead
  simp [ho]
  refine ⟨⟨hp, hl, hh, rfl, hr, ha⟩, ?_⟩
  rcases hr with hr | hr <;> simp [hr] <;>
    exact follows_completeStateRead ⟨hp, hl, hh, rfl, by simp, ha⟩ rfl

theorem follows_failStateWrite (hf : p.finishing = true) (h : Rest p l none w) :
    Follows next failStateWrite (fun _ w' => Rest p l none w') w := by
  obtain ⟨hp, hl, hh, ho, hr, ha⟩ := h
  have hdone : ∀ w', Rest p l (some (.stateWrite, .recorded)) w' →
      Follows next (completeRequest .state) (fun _ w' => Rest p l none w') w' :=
    fun w' h' => follows_completeRequest (k := .stateWrite) h' (by simp)
  unfold failStateWrite
  simp [ho, hp, hf]
  refine ⟨⟨⟨rfl, hl, hh, rfl, hr, ha⟩, hdone _ ?_⟩, hdone _ ?_, hdone _ ?_⟩ <;>
    exact ⟨rfl, hl, hh, rfl, hr, ha⟩

theorem follows_failDebug (h : Rest p l none w) :
    Follows next failDebug (fun _ w' => Rest p l none w') w := by
  obtain ⟨hp, hl, hh, ho, hr, ha⟩ := h
  unfold failDebug
  simp [ho]
  exact ⟨⟨hp, hl, hh, rfl, hr, ha⟩,
    follows_completeRequest (k := .debug) ⟨hp, hl, hh, rfl, hr, ha⟩ (by simp)⟩

theorem follows_failMedia (h : Rest p l none w) :
    Follows next failMedia (fun _ w' => Rest p l none w') w := by
  obtain ⟨hp, hl, hh, ho, hr, ha⟩ := h
  unfold failMedia
  simp [ho]
  exact ⟨⟨hp, hl, hh, rfl, hr, ha⟩,
    follows_completeRequest (k := .media) ⟨hp, hl, hh, rfl, hr, ha⟩ (by simp)⟩

/-- Where `finish_requests` may be called, with which state, and where it leaves the worker. -/
def finishes (terminal : State) (w : WorkerPhase) : Place → Place → Prop
  | .launching, q | .unwinding, q => (terminal = .stopped ∨ terminal = .error) ∧ q = .idle
  | .turning, q => terminal = .starting ∧ q = .recycling .opened
  | .leaving, q => terminal ∈ w.seen ∧ q = .leaving
  | _, _ => False

theorem follows_failRequests (hf : p.finishing = true) (h : Rest p true none w) :
    Follows next (do
      failStateRead
      failStateWrite
      failDebug
      failMedia
      Op.unlock : Code Unit)
      (fun _ w' => Rest (if p = .closing then .idle else p) false none w') w := by
  refine (follows_failStateRead h).bind fun _ _ h => ?_
  refine (follows_failStateWrite hf h).bind fun _ _ h => ?_
  refine (follows_failDebug h).bind fun _ _ h => ?_
  refine (follows_failMedia h).bind fun _ w h => ?_
  obtain ⟨hp, hl, hh, ho, hr, ha⟩ := h
  simp
  refine ⟨by simp [hp], rfl, hh, ho, hr, fun h => ?_⟩
  simp [ha h]

theorem follows_finishRequests {terminal : State} {q : Place} (h : Rest p false none w)
    (hf : finishes terminal w p q) :
    Follows next (finishRequests terminal)
      (fun _ w' => ∃ q, finishes terminal w p q ∧ Rest q false none w') w := by
  have hfail : ∀ q w', q.finishing = true → Rest q true none w' →
      finishes terminal w p (if q = .closing then .idle else q) → Follows next (do
      failStateRead
      failStateWrite
      failDebug
      failMedia
      Op.unlock : Code Unit) (fun _ w' => ∃ q, finishes terminal w p q ∧ Rest q false none w') w' :=
    fun q w' hf h' hq => (follows_failRequests hf h').mono fun _ _ h'' => ⟨_, hq, h''⟩
  obtain ⟨hp, hl, hh, ho, hr, ha⟩ := h
  unfold finishRequests closeInput stateIs
  simp
  intro s
  cases p with
  | launching | unwinding =>
    have ht := hf.1
    simp [hp]
    refine ⟨?_, hfail .closing _ rfl ?_ ⟨ht, rfl⟩⟩
    · by_cases hs : s = .error <;> simp [hs, ht]
    · exact ⟨rfl, rfl, hh, ho, hr, by simp⟩
  | turning =>
    obtain ⟨rfl, -⟩ := hf
    simp [hp]
    refine hfail (.recycling .opened) _ rfl ?_ ⟨rfl, rfl⟩
    exact ⟨rfl, rfl, hh, ho, hr, by simp⟩
  | leaving =>
    have ht := hf.1
    simp [hp]
    refine ⟨?_, hfail .leaving _ rfl ?_ ⟨ht, rfl⟩⟩
    · by_cases hs : s = .error <;> simp [hs, ht]
    · exact ⟨rfl, rfl, hh, ho, hr, by simp⟩
  | _ => exact hf.elim

/-! ### The executor callback -/

theorem follows_noticeDebugStop (h : Rest .live false none w) :
    Follows next (noticeDebugStop hooks) (fun _ w' => Rest .live false none w') w := by
  obtain ⟨hp, hl, hh, ho, hr, ha⟩ := h
  unfold noticeDebugStop Prog.or exchange load store
  cases hooks.takeDebugStop <;> cases hooks.cancelDebug <;> simp [rest_iff, *]

theorem follows_admitOrDrain (h : Rest .live false none w) :
    Follows next admitOrDrain (fun _ w' => Rest .live false none w') w := by
  obtain ⟨hp, hl, hh, ho, hr, ha⟩ := h
  unfold admitOrDrain Prog.or load closeInput stateIs drainInput
  simp [rest_iff, *]
  intro event
  cases event <;> simpa using hr

theorem follows_publish (h : Rest .live l none w) :
    Follows next (publish hooks) (fun _ w' => Rest .live l none w') w := by
  obtain ⟨hp, hl, hh, ho, hr, ha⟩ := h
  unfold publish
  simp only [bind_eq, liftM_eq, perform_bind, follows_op]
  rintro ⟨status, _ | frame⟩
  · exact ⟨hp, hl, hh, ho, hr, ha⟩
  · simp [rest_iff, *]

theorem follows_serviceParked (h : Rest .live false none w) :
    Follows next (serviceParked hooks) (fun _ w' => Rest .live false none w') w := by
  refine (follows_serviceMedia (by decide) h).bind fun _ _ h => ?_
  refine (follows_serviceDebug (by decide) h).bind fun _ _ h => ?_
  refine (follows_serviceStateRead h).bind fun _ w h => ?_
  obtain ⟨hp, hl, hh, ho, hr, ha⟩ := h
  simp [store]
  refine ⟨⟨hp, hl, hh, ho, hr, ha⟩, ⟨hp, hl, hh, ho, hr, ha⟩, follows_completeStateRead ?_ rfl⟩
  exact ⟨hp, hl, hh, ho, hr, ha⟩

theorem follows_abandonRun (h : Rest .live false none w) :
    Follows next abandonRun (fun _ w' => Rest .live false none w') w := by
  obtain ⟨hp, hl, hh, ho, hr, ha⟩ := h
  unfold abandonRun store
  simp [rest_iff, *]

theorem follows_pauseDue (h : Rest p l none w) :
    Follows next pauseDue (fun _ w' => Rest p l none w') w := by
  obtain ⟨hp, hl, hh, ho, hr, ha⟩ := h
  unfold pauseDue Prog.and Prog.not load
  simp
  refine ⟨?_, ?_, ?_⟩ <;> exact ⟨hp, hl, hh, ho, hr, ha⟩

/-- The paused executor stays at rest in its run. -/
theorem follows_parkedRounds (h : Rest .live false none w) :
    Follows next (iterate (parkedRound hooks) ()) (fun _ w' => Rest .live false none w') w := by
  refine Follows.iterate (fun _ w => Rest .live false none w) h fun _ w h => ?_
  refine (follows_pauseDue h).bind fun due w h => ?_
  have htouched : Rest .live false none { w with mayComplete := false } := by
    simpa [rest_iff] using h
  cases due with
  | false => exact h
  | true =>
    simp
    rintro (index | _ | _)
    · have hserve : Follows next ((serviceParked hooks).bind fun _ => .ret (Sum.inl ()))
          (fun (_ : Unit ⊕ Unit) w' => Rest .live false none w')
          { w with mayComplete := false } := by
        refine (follows_serviceParked htouched).bind fun _ _ h' => ?_
        exact h'
      simp
      exact ⟨fun _ => hserve, fun _ => htouched⟩
    · simp [h.place]
      refine Follows.bind (follows_abandonRun ?_) fun _ _ h' => ?_
      · simpa [h.place] using htouched
      · exact h'
    · trivial

theorem follows_announceParked {suppress : Bool} (h : Rest .live false none w)
    (hs : w.sawStop = false) :
    Follows next (announceParked hooks suppress) (fun _ w' => Rest .live false none w') w := by
  have htouched : Rest .live false none { w with mayComplete := false } := by
    simpa [rest_iff] using h
  have hnotify : ∀ s, Follows next (notifyState hooks s) (fun _ w' => Rest .live false none w')
      { w with mayComplete := false } := by
    intro s
    exact (follows_notifyState htouched (.inr ⟨rfl, hs⟩)).mono fun _ _ h' => h'.1
  unfold announceParked
  simp
  exact ⟨⟨fun _ => hnotify _, fun _ => htouched⟩, hnotify _⟩

theorem follows_completeParked (h : Rest .live false none w) :
    Follows next completeParked (fun _ w' => Rest .live false none w') w := by
  have hwrite : ∀ w', Rest .live false none w' → Follows next
      (.op (.exchange .stateWriteWaiting false) fun waiting =>
        when waiting (completeRequest .state)) (fun _ w' => Rest .live false none w') w' := by
    intro w' ⟨hp, hl, hh, ho, hr, ha⟩
    simp [ho, hp]
    exact ⟨⟨rfl, hl, hh, rfl, hr, ha⟩,
      follows_completeRequest (k := .stateWrite) ⟨rfl, hl, hh, rfl, hr, ha⟩ (by simp)⟩
  unfold completeParked
  obtain ⟨hp, hl, hh, ho, hr, ha⟩ := h
  simp only [bind_eq, liftM_eq, perform_bind, follows_op, when_bind]
  rintro (_ | _)
  · exact hwrite _ ⟨hp, hl, hh, ho, hr, ha⟩
  · refine (follows_completeStateRead ?_ rfl).bind fun _ _ h' => hwrite _ h'
    exact ⟨hp, hl, hh, ho, hr, ha⟩

theorem follows_resumeRun (h : Rest .live false none w) (hs : w.sawStop = false) :
    Follows next (resumeRun hooks) (fun _ w' => Rest .live false none w') w := by
  obtain ⟨hp, hl, hh, ho, hr, ha⟩ := h
  unfold resumeRun notifyState
  simp [rest_iff, *]

theorem follows_park {suppress : Bool} (h : Rest .live false none w) :
    Follows next (park hooks suppress) (fun _ w' => Rest .live false none w') w := by
  have hrounds : ∀ w', Rest .live false none w' → Follows next
      ((iterate (parkedRound hooks) ()).bind fun _ => .op (.load .stopRequested) fun stopped =>
        if stopped then .ret () else resumeRun hooks) (fun _ w' => Rest .live false none w') w' := by
    intro w' h'
    refine (follows_parkedRounds h').bind fun _ w'' h'' => ?_
    obtain ⟨hp, hl, hh, ho, hr, ha⟩ := h''
    simp
    refine ⟨follows_resumeRun ?_ rfl, ?_⟩ <;> exact ⟨hp, hl, hh, ho, hr, ha⟩
  obtain ⟨hp, hl, hh, ho, hr, ha⟩ := h
  unfold park closeInput
  simp [hp, hh]
  refine ⟨⟨?_, ?_⟩, ?_⟩
  · exact ⟨rfl, hl, rfl, ho, hr, fun _ => rfl⟩
  · refine Follows.bind (follows_announceParked ?_ rfl) fun _ _ h' =>
      (follows_completeParked h').bind fun _ _ h'' => hrounds _ h''
    exact ⟨rfl, hl, rfl, ho, hr, fun _ => rfl⟩
  · exact ⟨rfl, hl, rfl, ho, hr, fun _ => rfl⟩

theorem follows_endContinuation (h : Rest p l none w) :
    Follows next endContinuation (fun _ w' => Rest p l none w') w := by
  obtain ⟨hp, hl, hh, ho, hr, ha⟩ := h
  unfold endContinuation Prog.and load
  simp
  refine ⟨?_, ?_, ?_⟩ <;> exact ⟨hp, hl, hh, ho, hr, ha⟩

theorem follows_executorEvent (h : Rest .live false none w) :
    Follows next (executorEvent hooks) (fun _ w' => Rest .live false none w') w := by
  refine (follows_noticeDebugStop h).bind fun _ _ h => ?_
  refine (follows_serviceStateRead h).bind fun _ _ h => ?_
  refine (follows_admitOrDrain h).bind fun _ _ h => ?_
  refine (follows_publish h).bind fun status w h => ?_
  split
  · obtain ⟨hp, hl, hh, ho, hr, ha⟩ := h
    unfold closeInput
    simp [hp, hh]
    exact follows_abandonRun ⟨rfl, hl, rfl, ho, hr, fun _ => rfl⟩
  · refine (follows_endContinuation h).bind fun suppress _ h => ?_
    refine (follows_pauseDue h).bind fun due _ h => ?_
    cases due with
    | false => exact h
    | true => exact follows_park h

/-! ### The worker -/

theorem follows_beginRestoredRun (h : Rest .idle false (some (.stateWrite, .restored)) w) :
    Follows next beginRestoredRun (fun _ w' => Rest .idle false none w') w := by
  obtain ⟨hp, hl, hh, ho, hr, ha⟩ := h
  unfold beginRestoredRun store failSyncUnless
  simp [hp, ho]
  exact ⟨rfl, hl, hh, rfl, hr, ha⟩

theorem follows_serviceStateWrite (h : Rest .idle false none w) :
    Follows next (serviceStateWrite hooks) (fun _ w' => Rest .idle false none w') w := by
  refine (follows_takeRequest (k := .stateWrite) (by decide) (by decide) h).bind fun taken w' h' => ?_
  cases taken with
  | false => exact h'
  | true =>
    obtain ⟨hp, hl, hh, ho, hr, ha⟩ := h'
    have hdone : ∀ w', Rest .idle false (some (.stateWrite, .recorded)) w' →
        Follows next (completeRequest .state) (fun _ w' => Rest .idle false none w') w' :=
      fun w' h' => follows_completeRequest (k := .stateWrite) h' (by simp)
    unfold Prog.when
    cases hooks.writeState with
    | false =>
      simp [ho]
      exact hdone _ ⟨hp, hl, hh, rfl, hr, ha⟩
    | true =>
      simp [ho, hp]
      intro s
      refine ⟨fun hs => follows_beginRestoredRun ?_, fun hs => hdone _ ?_⟩ <;>
        exact ⟨rfl, hl, hh, by simp [hs], hr, ha⟩

theorem follows_driverRun (h : Rest .live false none w) :
    Follows next (driverRun hooks) (fun _ w' => Rest .live false none w') w := by
  refine Follows.iterate (fun _ w => Rest .live false none w) h fun _ w h => ?_
  have htouched : Rest .live false none { w with mayComplete := false } := by
    simpa [rest_iff] using h
  simp only [bind_eq, liftM_eq, perform_bind, follows_op]
  rintro (_ | succeeded)
  · refine (follows_executorEvent htouched).bind fun _ _ h' => ?_
    exact h'
  · exact htouched

theorem follows_runUntilStopped (h : Rest .live false none w) :
    Follows next (runUntilStopped hooks) (fun _ w' => Rest .live false none w') w := by
  refine Follows.iterate (fun _ w => Rest .live false none w) h fun _ w h => ?_
  refine (follows_driverRun h).bind fun succeeded w' h' => ?_
  obtain ⟨hp, hl, hh, ho, hr, ha⟩ := h'
  unfold Prog.and Prog.not load
  cases succeeded <;> simp [rest_iff, *]

theorem follows_unwind {succeeded : Bool} (h : Rest .live false none w) :
    Follows next (unwind hooks succeeded) (fun _ w' => Rest .unwinding false none w') w := by
  obtain ⟨hp, hl, hh, ho, hr, ha⟩ := h
  unfold unwind closeInput Prog.and Prog.not stateIs
  cases hooks.cancelDebug <;> cases succeeded <;> simp [rest_iff, *]

theorem follows_beginColdRun {pause : Bool} (h : Rest (.recycling .opened) false none w) :
    Follows next (beginColdRun pause) (fun _ w' => Rest .idle false none w') w := by
  obtain ⟨hp, hl, hh, ho, hr, ha⟩ := h
  unfold beginColdRun closeInput store
  simp [rest_iff, *]

/-- The end of a run leaves the worker idle. -/
theorem follows_finish {terminal : State} (h : Rest p false none w)
    (hp : p = .launching ∨ p = .unwinding) (ht : terminal = .stopped ∨ terminal = .error) :
    Follows next (finishRequests terminal) (fun _ w' => Rest .idle false none w') w := by
  have hf : finishes terminal w p .idle := by rcases hp with rfl | rfl <;> exact ⟨ht, rfl⟩
  refine (follows_finishRequests h hf).mono fun _ w' ⟨q, hq, h'⟩ => ?_
  obtain rfl : q = .idle := by rcases hp with rfl | rfl <;> exact hq.2
  exact h'

theorem follows_settle {terminal : State} (h : Rest p false none w)
    (hp : p = .launching ∨ p = .unwinding) (ht : terminal = .stopped ∨ terminal = .error) :
    Follows next (settle hooks terminal) (fun _ w' => Rest .idle false none w') w := by
  have hended : terminal.ended = true := by simpa [State.ended] using ht
  refine (follows_finish h hp ht).bind fun _ _ h' => ?_
  exact (follows_notifyState h' (.inl hended)).mono fun _ _ h'' => h''.1

theorem follows_recycle (h : Rest .turning false none w) {α : Type} (x : α) :
    Follows next (do
      finishRequests .starting
      store .stopRequested false
      beginColdRun true
      failSyncUnless (← Op.signal .command)
      pure x) (fun _ w' => Rest .idle false none w') w := by
  refine (follows_finishRequests (q := .recycling .opened) h ⟨rfl, rfl⟩).bind
    fun _ w ⟨q, ⟨_, hq⟩, h⟩ => ?_
  subst hq
  have hstop : Follows next (store .stopRequested false)
      (fun _ w' => Rest (.recycling .opened) false none w') w := by
    obtain ⟨hp, hl, hh, ho, hr, ha⟩ := h
    unfold store
    simp [hp]
    exact ⟨rfl, hl, hh, ho, hr, ha⟩
  refine hstop.bind fun _ _ h => ?_
  refine (follows_beginColdRun h).bind fun _ w h => ?_
  obtain ⟨hp, hl, hh, ho, hr, ha⟩ := h
  unfold failSyncUnless
  simp
  exact ⟨hp, hl, hh, ho, hr, ha⟩

theorem follows_recycleOrSettle {failureNotified succeeded : Bool}
    (h : Rest .unwinding false none w) :
    Follows next (recycleOrSettle hooks failureNotified succeeded)
      (fun _ w' => Rest .idle false none w') w := by
  have hsettle : ∀ w', Rest .unwinding false none w' → Follows next
      ((settle hooks (if succeeded then .stopped else .error)).bind fun _ => .ret !succeeded)
      (fun _ w' => Rest .idle false none w') w' := by
    intro w' h'
    refine (follows_settle h' (.inr rfl) ?_).bind fun _ _ h'' => ?_
    · cases succeeded <;> simp
    · exact h''
  unfold recycleOrSettle Prog.and exchange
  cases succeeded with
  | false => exact hsettle w h
  | true =>
    obtain ⟨hp, hl, hh, ho, hr, ha⟩ := h
    simp only [bind_eq, pure_eq, ret_bind, perform_bind, if_true, follows_op]
    rintro (_ | _)
    · simp [hp]
      exact hsettle _ ⟨rfl, hl, hh, ho, hr, ha⟩
    · simp [hp]
      refine follows_recycle ?_ _
      exact ⟨rfl, hl, hh, ho, hr, by simpa using ha⟩

theorem follows_openRun (h : Rest .live false none w) (hs : w.sawStop = false) :
    Follows next (openRun hooks) (fun _ w' => Rest .live false none w') w := by
  have hnotify : ∀ w', Rest .live false none w' → w'.sawStop = false →
      Follows next (notifyState hooks .running) (fun _ w' => Rest .live false none w') w' :=
    fun w' h' hs' => (follows_notifyState h' (.inr ⟨rfl, hs'⟩)).mono fun _ _ h'' => h''.1
  obtain ⟨hp, hl, hh, ho, hr, ha⟩ := h
  unfold openRun Prog.and Prog.not load
  simp [hp]
  refine ⟨⟨⟨hnotify _ ?_ hs, ?_⟩, ?_⟩, hnotify _ ?_ hs, ?_⟩ <;>
    exact ⟨rfl, hl, hh, ho, hr, fun _ => rfl⟩

theorem follows_liveRun {failureNotified : Bool} (h : Rest .live false none w)
    (hs : w.sawStop = false) :
    Follows next (liveRun hooks failureNotified) (fun _ w' => Rest .idle false none w') w := by
  refine (follows_openRun h hs).bind fun _ _ h => ?_
  refine (follows_runUntilStopped h).bind fun _ _ h => ?_
  refine (follows_unwind h).bind fun _ _ h => ?_
  exact follows_recycleOrSettle h

/-- Where a round of the worker ends: idle to go round again, or leaving. -/
def roundEnds (r : Bool ⊕ Bool) (w : WorkerPhase) : Prop :=
  Sum.elim (fun _ => Rest .idle false none w) (fun _ => Rest .leaving false none w) r

theorem follows_launchRun {failureNotified : Bool} (h : Rest .launching false none w)
    (hs : w.sawStop = false) :
    Follows next (launchRun hooks failureNotified) roundEnds w := by
  obtain ⟨hp, hl, hh, ho, hr, ha⟩ := h
  have hadmits : w.admits = false := by simpa using ha
  unfold launchRun
  simp [hp]
  refine ⟨⟨rfl, hl, hh, ho, hr, by simp [hadmits]⟩, ?_⟩
  refine Follows.bind (follows_liveRun ?_ hs) fun _ _ h' => ?_
  · exact ⟨rfl, hl, hh, ho, hr, by simp [hadmits]⟩
  · exact h'

theorem follows_launchUnlessStopped {failureNotified : Bool} (h : Rest .launching false none w) :
    Follows next (launchUnlessStopped hooks failureNotified) roundEnds w := by
  obtain ⟨hp, hl, hh, ho, hr, ha⟩ := h
  unfold launchUnlessStopped
  simp only [bind_eq, liftM_eq, perform_bind, follows_op]
  rintro (_ | _)
  · exact follows_launchRun ⟨hp, hl, hh, ho, hr, ha⟩ rfl
  · refine Follows.bind (follows_finish (p := .launching) ?_ (.inl rfl) (.inl rfl)) fun _ w' h' => ?_
    · exact ⟨hp, hl, hh, ho, hr, ha⟩
    have hstate : Follows next (stateIs .error) (fun _ w' => Rest .idle false none w') w' := by
      obtain ⟨hp, hl, hh, ho, hr, ha⟩ := h'
      simp [stateIs]
      exact fun _ => ⟨hp, hl, hh, ho, hr, ha⟩
    refine hstate.bind fun failed _ h'' => ?_
    refine (follows_notifyState h'' (.inl ?_)).bind fun _ _ h''' => h'''.1
    cases failed <;> rfl

theorem follows_launch {failureNotified restored : Bool} (h : Rest .launching false none w)
    (hres : restored = true → w.restored = true) :
    Follows next (launch hooks failureNotified restored) roundEnds w := by
  obtain ⟨hp, hl, hh, ho, hr, ha⟩ := h
  unfold launch
  cases restored with
  | true =>
    rcases hr with hr | hr <;> simp [hp, ho, hr, hres] <;>
      refine follows_launchUnlessStopped ?_ <;> exact ⟨rfl, hl, hh, rfl, by simp, ha⟩
  | false =>
    simp
    refine ⟨Follows.bind (follows_settle ?_ (.inl rfl) (.inr rfl)) fun _ _ h' => ?_,
      follows_launchUnlessStopped ?_⟩
    · exact ⟨hp, hl, hh, ho, hr, ha⟩
    · exact h'
    · exact ⟨hp, hl, hh, ho, hr, ha⟩

theorem follows_takeStart {failureNotified : Bool} (h : Rest .idle false none w) :
    Follows next (takeStart hooks failureNotified) roundEnds w := by
  obtain ⟨hp, hl, hh, ho, hr, ha⟩ := h
  unfold takeStart
  simp [hp, ho]
  refine ⟨⟨?_, follows_launch ?_ (by simp)⟩, ?_, follows_launch ?_ (by simp)⟩ <;>
    exact ⟨rfl, hl, hh, rfl, hr, by simpa using ha⟩

theorem follows_dispatchRequest {failureNotified : Bool} (h : Rest .idle false none w) :
    Follows next (dispatchRequest hooks failureNotified) roundEnds w := by
  obtain ⟨hp, hl, hh, ho, hr, ha⟩ := h
  unfold dispatchRequest
  simp
  refine ⟨⟨follows_takeStart ?_, Follows.bind (follows_serviceStateWrite ?_) fun _ _ h' => h'⟩,
    Follows.bind (follows_serviceMedia (p := .idle) (by decide) ?_) fun _ _ h' => h'⟩ <;>
    exact ⟨hp, hl, hh, ho, hr, ha⟩

theorem follows_dispatch {failureNotified : Bool} (h : Rest .idle false none w) :
    Follows next (dispatch hooks failureNotified) roundEnds w := by
  have hleave : ∀ w', Rest .idle false none w' → Follows next
      (.op (.load .terminateRequested) fun terminate => if terminate then .ret (.inr failureNotified)
        else dispatchRequest hooks failureNotified) roundEnds w' := by
    intro w' ⟨hp, hl, hh, ho, hr, ha⟩
    simp [hp, hl]
    refine ⟨follows_dispatchRequest ?_, ?_⟩ <;> exact ⟨rfl, rfl, hh, ho, hr, by simpa using ha⟩
  obtain ⟨hp, hl, hh, ho, hr, ha⟩ := h
  unfold dispatch
  simp [hp, hl]
  refine ⟨Follows.bind (follows_serviceDebug (p := .idle) (by decide) ?_) fun _ _ h' => hleave _ h', ?_⟩ <;>
    exact ⟨rfl, rfl, hh, ho, hr, by simpa using ha⟩

theorem follows_workerRound {failureNotified : Bool} (h : Rest .idle false none w) :
    Follows next (workerRound hooks failureNotified) roundEnds w := by
  obtain ⟨hp, hl, hh, ho, hr, ha⟩ := h
  unfold workerRound
  simp only [bind_eq, liftM_eq, perform_bind, follows_op]
  rintro (_ | _ | _)
  · simp
    exact follows_dispatch ⟨hp, hl, hh, ho, hr, ha⟩
  · simp [hp]
    exact ⟨rfl, hl, hh, ho, hr, by simpa using ha⟩
  · trivial

/-- The worker past its loop. -/
theorem follows_leave {failureNotified : Bool} (h : Rest .leaving false none w) :
    Follows next (do
      store .terminateRequested true
      finishRequests (← Op.loadState)
      when (← Prog.and (pure !failureNotified) (stateIs .error)) (notifyState hooks .error)
      Op.exit : Code Unit) (fun _ _ => True) w := by
  obtain ⟨hp, hl, hh, ho, hr, ha⟩ := h
  unfold store
  simp [hp]
  intro s
  refine Follows.bind (follows_finishRequests (p := .leaving) (q := .leaving) ?_ ⟨by simp, rfl⟩)
    fun _ w' ⟨q, ⟨_, hq⟩, h'⟩ => ?_
  · exact ⟨rfl, hl, hh, ho, hr, ha⟩
  subst hq
  have hexit : ∀ w', Rest .leaving false none w' →
      Follows next (perform .exit) (fun _ _ => True) w' := by
    intro w' h'
    simp [h'.place]
  have hstate : Follows next (Prog.and (.ret !failureNotified) (stateIs .error))
      (fun _ w' => Rest .leaving false none w') w' := by
    obtain ⟨hp, hl, hh, ho, hr, ha⟩ := h'
    unfold Prog.and stateIs
    cases failureNotified with
    | true => exact ⟨hp, hl, hh, ho, hr, ha⟩
    | false =>
      simp
      exact fun _ => ⟨hp, hl, hh, ho, hr, ha⟩
  refine hstate.bind fun failed w'' h'' => ?_
  cases failed with
  | false => exact hexit w'' h''
  | true =>
    refine (follows_notifyState h'' (.inl rfl)).bind fun _ _ h''' => ?_
    exact hexit _ h'''.1

/-- **The worker keeps to its protocol.** -/
theorem follows_worker : Follows next (worker hooks) (fun _ _ => True) {} := by
  have hrounds : Follows next (iterate (workerRound hooks) false)
      (fun _ w' => Rest .leaving false none w') {} := by
    refine Follows.iterate (fun _ w => Rest .idle false none w) ?_ fun _ w h => ?_
    · exact ⟨rfl, rfl, rfl, rfl, .inl rfl, by simp⟩
    · exact follows_workerRound h
  exact hrounds.bind fun _ _ h => follows_leave h

end Worker

end WorkerPhase

/-! ## The callers -/

namespace ControlPhase

section Control

variable {hooks : Hooks} {c : ControlPhase}

attribute [local simp] next onLoad onLoadState onExchange onInvalidate onRead onWrite onSignal onReset
  onWait Kind.flag Kind.event

/-- The control thread stands where a lifecycle call may return. -/
def Calm (c : ControlPhase) : Prop := c.stand = .idle ∨ c.stand = .sawStopped

theorem follows_waitRequest {k : Kind} (h : c.stand = .waiting k) :
    Follows next (waitRequest k.event)
      (fun s c' => s = .ok ∧ c' = { c with stand := .answered k }) c := by
  unfold waitRequest
  simp only [bind_eq, liftM_eq, perform_bind, follows_op]
  rintro (_ | _ | _) <;> simp [h]

theorem follows_submitRequest {k : Kind} {allowed : State → Bool} (h : c.stand = .idle)
    (hk : k = .stateWrite → ∀ s, allowed s = true → s = .stopped) :
    Follows next (submitRequest k allowed) (fun s c' =>
      (s = .ok ∧ ∃ f, c' = { c with stand := .waiting k, foundStopped := f }) ∨
      (s ≠ .ok ∧ (c' = c ∨ ∃ f, c' = { c with stand := .submitting, foundStopped := f }))) c := by
  unfold submitRequest Prog.and Prog.not load store
  cases k <;> simp [h, Decidable.not_or_of_imp]; exact hk rfl

theorem follows_beginColdRun {pause : Bool} (h : c.stand = .sawStopped) :
    Follows next (beginColdRun pause) (fun _ c' => c' = { c with stand := .idle, hid := true }) c := by
  unfold beginColdRun closeInput store
  simp [h]

theorem follows_scheduleColdRun {pause : Bool} (h : c.Calm) :
    Follows next (scheduleColdRun pause) (fun _ => Calm) c := by
  have hbegin : Follows next ((beginColdRun pause).bind fun _ => .op (.signal .command) fun status =>
      if status = .ok then .ret true else failSync.bind fun _ => .ret false) (fun _ => Calm)
      { c with stand := .sawStopped } := by
    refine (follows_beginColdRun rfl).bind fun _ c' hc' => ?_
    simp [hc', Calm]
  have hsaw : ∀ s : State, (s = .stopped → Follows next ((beginColdRun pause).bind fun _ =>
      .op (.signal .command) fun status =>
        if status = .ok then .ret true else failSync.bind fun _ => .ret false) (fun _ => Calm)
      { c with stand := if s = .stopped then .sawStopped else .idle }) ∧
      (¬s = .stopped → Calm { c with stand := if s = .stopped then .sawStopped else .idle }) := by
    refine fun s => ⟨?_, fun hs => .inl (if_neg hs)⟩
    rintro rfl
    exact hbegin
  unfold scheduleColdRun Prog.and stateIs
  rcases h with h | h <;> simp [h] <;> exact ⟨by simp [Calm, h], hsaw⟩

theorem follows_debugCancel (h : c.stand = .idle) :
    Follows next debugCancel (fun _ => Calm) c := by
  unfold debugCancel store
  simp [h, Calm]

theorem follows_pause (h : c.stand = .idle) : Follows next pause (fun _ => Calm) c := by
  unfold pause stateIs store
  simp only [bind_eq, liftM_eq, perform_bind, follows_op, pure_eq, op_bind, ret_bind]
  intro s
  cases s <;> simp [h, Calm]

theorem follows_resume (h : c.stand = .idle) : Follows next resume (fun _ => Calm) c := by
  unfold resume stateIs store signalResume
  simp only [bind_eq, liftM_eq, perform_bind, follows_op, pure_eq, op_bind, ret_bind]
  intro s
  cases s <;> simp [h, Calm]

theorem follows_stop (h : c.stand = .idle) : Follows next stop (fun _ => Calm) c := by
  unfold stop store signalStop signalResume
  simp only [bind_eq, liftM_eq, perform_bind, follows_op, pure_eq, op_bind, ret_bind]
  intro s
  cases s <;> simp [h, Calm]

theorem follows_reset (h : c.stand = .idle) : Follows next reset (fun _ => Calm) c := by
  have hfailed : ∀ (started : Bool) c', Calm c' → Follows next (if started then .ret true else
      (store .resetActive false).bind fun _ => .ret false) (fun _ => Calm) c' := by
    intro started c' hc'
    cases started with
    | true => exact hc'
    | false => rcases hc' with hc' | hc' <;> simp [store, hc', Calm]
  unfold reset signalStop signalResume
  simp only [bind_eq, liftM_eq, perform_bind, follows_op, pure_eq]
  intro s
  cases s with
  | stopped =>
    simp [h, store]
    exact (follows_scheduleColdRun (.inr rfl)).bind fun started c' hc' => hfailed started c' hc'
  | _ => simp [h, Calm, store]

/-! ### Requests -/

/-- A submitted request waits for its outcome and reads it; one that is not accepted ends at once. -/
theorem follows_request {k : Kind} {α : Type} {allowed : State → Bool} {Q : α → ControlPhase → Prop}
    {refused : Status → Code α} (wake : Code Unit) {answer : Code α} (h : c.stand = .idle)
    (hk : k = .stateWrite → ∀ s, allowed s = true → s = .stopped)
    (hrefused : ∀ s c', (c' = c ∨ ∃ f, c' = { c with stand := .submitting, foundStopped := f }) →
      Follows next (refused s) Q c')
    (hwake : ∀ c', Follows next wake (fun _ c'' => c'' = c') c')
    (hanswer : ∀ f, Follows next answer Q { c with stand := .answered k, foundStopped := f }) :
    Follows next ((submitRequest k allowed).bind fun status =>
      if status = .ok then wake.bind fun _ => (waitRequest k.event).bind fun status =>
        if status = .ok then answer else refused status
      else refused status) Q c := by
  refine (follows_submitRequest h hk).bind fun status c' hc' => ?_
  rcases hc' with ⟨rfl, f, rfl⟩ | ⟨hs, hc'⟩
  · simp
    refine (hwake _).bind fun _ _ hc' => ?_
    subst hc'
    refine (follows_waitRequest rfl).bind fun _ _ hc' => ?_
    obtain ⟨rfl, rfl⟩ := hc'
    simpa using hanswer f
  · simpa [hs] using hrefused status c' hc'

theorem follows_setRemovableMedia {path : Option (List UInt8)} {mode : ℕ} :
    Follows next (setRemovableMedia hooks path mode)
      (fun b c' => c'.mayReturn (.setRemovableMedia path mode) (.bool b) = true) {} := by
  have hrefused : ∀ c' : ControlPhase, (c' = {} ∨ ∃ f, c' = { stand := .submitting, foundStopped := f }) →
      c'.mayReturn (.setRemovableMedia path mode) (.bool false) = true := by
    rintro c' (rfl | ⟨f, rfl⟩) <;> rfl
  unfold setRemovableMedia
  simp [hrefused]
  intro _ _ _
  refine follows_request (k := .media) (.ret ()) rfl (by simp) (fun _ => hrefused) (fun _ => rfl) ?_
  simp [mayReturn, Reply.spares, Reply.returns]

theorem follows_readState {writer : Option ℕ} :
    Follows next (readState writer)
      (fun s c' => c'.mayReturn (.readState writer) (.status s) = true) {} := by
  have hrefused : ∀ s (c' : ControlPhase), (c' = {} ∨ ∃ f, c' = { stand := .submitting, foundStopped := f }) →
      c'.mayReturn (.readState writer) (.status s) = true := by
    rintro s c' (rfl | ⟨f, rfl⟩) <;> rfl
  unfold readState
  cases writer with
  | none => exact hrefused _ _ (.inl rfl)
  | some writer =>
    simp
    refine follows_request (k := .stateRead) (perform .requestWake) rfl (by simp) hrefused ?_ ?_
    · simp
    · simp [mayReturn, Reply.spares, Reply.returns]

theorem follows_writeState {reader : Option ℕ} :
    Follows next (writeState reader)
      (fun s c' => c'.mayReturn (.writeState reader) (.status s) = true) {} := by
  have hrefused : ∀ s (c' : ControlPhase), (c' = {} ∨ ∃ f, c' = { stand := .submitting, foundStopped := f }) →
      c'.mayReturn (.writeState reader) (.status s) = true := by
    rintro s c' (rfl | ⟨f, rfl⟩) <;> rfl
  unfold writeState
  cases reader with
  | none => exact hrefused _ _ (.inl rfl)
  | some reader =>
    simp
    refine follows_request (k := .stateWrite) (.ret ()) rfl (by simp) hrefused (fun _ => rfl) ?_
    simp [mayReturn, Reply.spares, Reply.returns]

theorem follows_debugAcquire :
    Follows next (debugAcquire hooks)
      (fun r c' => c'.mayReturn .debugAcquire (.lease r.1 r.2) = true) {} := by
  unfold debugAcquire stateIs
  simp only [bind_eq, liftM_eq, perform_bind, follows_op, pure_eq, op_bind, ret_bind]
  intro s
  cases s <;> simp [mayReturn, Reply.spares]

/-- A debug call that fails spares the caller's buffers. -/
theorem mayReturn_failed {call : DebugCall} {status : Status} (hsize : call.reportsSize = true)
    (hc : c.stand = .idle ∨ c.stand = .sawStopped ∨ c.stand = .submitting) :
    c.mayReturn (.debugExecute call) (call.failed status) = true := by
  rcases hc with hc | hc | hc <;> simp [mayReturn, DebugCall.failed, Reply.spares, hsize, hc]

theorem follows_submitDebug {call : DebugCall} {lease : UInt64} (h : c.stand = .idle)
    (hsize : call.reportsSize = true) :
    Follows next (submitDebug call lease)
      (fun r c' => c'.mayReturn (.debugExecute call) r = true) c := by
  unfold submitDebug
  simp [h]
  refine follows_request (k := .debug) (.ret ()) h (by simp) ?_ (fun _ => rfl) ?_
  · rintro s c' (rfl | ⟨f, rfl⟩)
    · exact mayReturn_failed hsize (.inl h)
    · exact mayReturn_failed hsize (.inr (.inr rfl))
  · unfold collectDebug
    simp [mayReturn, DebugCall.failed, Reply.spares, Reply.returns, hsize]

theorem follows_debugExecute {call : DebugCall} :
    Follows next (debugExecuteWithLease hooks call)
      (fun r c' => c'.mayReturn (.debugExecute call) r = true) {} := by
  unfold debugExecuteWithLease stateIs
  simp
  refine ⟨fun hsize => ?_, fun hsize => ⟨fun _ => mayReturn_failed hsize (.inl rfl),
    fun _ => ⟨fun _ => mayReturn_failed hsize (.inl rfl), fun _ _ s => ⟨?_, fun _ => ?_⟩⟩⟩⟩
  · simp [mayReturn, Reply.spares, hsize]
  · rintro rfl g
    refine ⟨fun _ => mayReturn_failed hsize (.inl rfl), fun _ _ =>
      ⟨fun _ => mayReturn_failed hsize (.inl rfl), fun _ => follows_submitDebug rfl hsize⟩⟩
  · refine mayReturn_failed hsize ?_
    split <;> simp

theorem follows_shutdown :
    Follows next shutdown (fun s c' => c'.mayReturn .shutdown (.status s) = true) {} := by
  unfold shutdown store
  simp
  refine ⟨rfl, (follows_stop rfl).bind fun _ c' hc' => ?_⟩
  rcases hc' with hc' | hc' <;> simp [hc', mayReturn, Reply.spares]

/-- A lifecycle call returns from where it stands. -/
theorem follows_lifecycle {α : Type} {p : Code α} {call : Call} {reply : α → Reply}
    (hp : Follows next p (fun _ => Calm) {}) (hspares : ∀ a, (reply a).spares call = true)
    (hcall : call ≠ .debugAcquire) :
    Follows next (reply <$> p) (fun r c' => c'.mayReturn call r = true) {} := by
  refine hp.bind fun a c' hc' => ?_
  rcases hc' with hc' | hc' <;> cases call <;> simp_all [mayReturn]

/-- Every call may return what it returns. -/
theorem follows_invoke (call : Call) :
    Follows next (invoke hooks call) (fun r c' => c'.mayReturn call r = true) {} := by
  cases call with
  | start => exact follows_lifecycle (follows_scheduleColdRun (.inl rfl)) (fun _ => rfl) (by simp)
  | pause => exact follows_lifecycle (follows_pause rfl) (fun _ => rfl) (by simp)
  | resume => exact follows_lifecycle (follows_resume rfl) (fun _ => rfl) (by simp)
  | stop => exact follows_lifecycle (follows_stop rfl) (fun _ => rfl) (by simp)
  | reset => exact follows_lifecycle (follows_reset rfl) (fun _ => rfl) (by simp)
  | debugCancel => exact follows_lifecycle (follows_debugCancel rfl) (fun _ => rfl) (by simp)
  | setRemovableMedia path mode => exact follows_setRemovableMedia.bind fun _ _ hc' => hc'
  | readState writer => exact follows_readState.bind fun _ _ hc' => hc'
  | writeState reader => exact follows_writeState.bind fun _ _ hc' => hc'
  | debugAcquire => exact follows_debugAcquire.bind fun _ _ hc' => hc'
  | debugExecute call => exact follows_debugExecute
  | shutdown => exact follows_shutdown.bind fun _ _ hc' => hc'

/-- **The control thread keeps to its protocol.** -/
theorem follows_control : Follows next (control hooks) (fun _ _ => True) {} := by
  refine Follows.iterate (fun _ c => c = {}) rfl fun _ c hc => ?_
  subst hc
  simp
  intro call
  refine (follows_invoke call).bind fun reply c' hc' => ?_
  simp [hc']

end Control

end ControlPhase

theorem follows_producer : Follows producerNext producer (fun _ _ => True) () := by
  refine Follows.iterate (fun _ _ => True) trivial fun _ _ _ => ?_
  unfold enqueueInput
  simp [producerNext]

theorem follows_canceller : Follows cancellerNext canceller (fun _ _ => True) () := by
  refine Follows.iterate (fun _ _ => True) trivial fun _ _ _ => ?_
  unfold debugCancel store
  simp [cancellerNext]

theorem follows_viewer : Follows viewerNext viewer (fun _ _ => True) () := by
  refine Follows.iterate (fun _ _ => True) trivial fun _ _ _ => ?_
  simp [viewerNext]

/-- The phases the threads start in. -/
def bootPhase : ∀ t, Phase t
  | .control => ({} : ControlPhase)
  | .worker => ({} : WorkerPhase)
  | .producer _ | .canceller _ | .viewer _ => ()

/-- **Every thread of a machine keeps to its protocol.** -/
theorem follows_code (hooks : Hooks) (t : Tid) :
    Follows (next t) (code hooks t) (fun _ _ => True) (bootPhase t) := by
  cases t with
  | control => exact ControlPhase.follows_control
  | worker => exact WorkerPhase.follows_worker
  | producer n => exact follows_producer
  | canceller n => exact follows_canceller
  | viewer n => exact follows_viewer

end SoftPC.Machine
