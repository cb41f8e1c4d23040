import SoftPC.Machine.Delivery

/-!
# Machine/Ledger — every request is answered once, by what its driver operation came to

    free ──requested──▸ asked ──executed──▸ asked, begun ──completed──▸ answered ──returned──▸ free

The synchronous requests are read off what the outside sees.  `custody` follows them and refuses a
second request, a second execution, an answer nobody waits for, a success the driver has not
reported, a worker that exits on a waiting caller, and a call that returns another outcome.
-/

namespace SoftPC.Machine

open SoftPC.Threads

/-! ## The ledger -/

def Outcome.succeeds : Outcome → Bool
  | .media b => b
  | .status s => s = .ok

/-- Where the synchronous requests stand; `begun` is what the driver operation came to, if it has
been executed. -/
inductive Custody where
  | free
  | asked (k : Kind) (begun : Option Outcome)
  | answered (k : Kind) (o : Outcome)
  deriving DecidableEq

/-- An observation that the ledger reads. -/
def Obs.isRequest : Obs → Bool
  | .requested _ | .executed _ _ | .completed _ _ | .returned _ _ | .exited => true
  | _ => false

/-- What an observation does to a request, if it may be made.  The execution of a state read only
begins it: its result comes later. -/
def Custody.next : Custody → Obs → Option Custody
  | .free, .requested k => some (.asked k none)
  | .asked k none, .executed k' o => if k' = k then some (.asked k (some o)) else none
  | .asked k begun, .completed e o =>
    if e = k.event ∧ (k ≠ .stateRead → o.succeeds = true → begun.any Outcome.succeeds = true) then
      some (.answered k o)
    else none
  | .answered _ o, .returned _ reply => if reply.returns o then some .free else none
  | .free, .returned _ _ | .free, .exited => some .free
  | s, x => if x.isRequest then none else some s

/-- The ledger of a trace, `none` once it was broken. -/
def custody : List Obs → Option Custody
  | [] => some .free
  | x :: trace => (custody trace).bind (·.next x)

theorem custody_cons {s : Custody} {x : Obs} {trace : List Obs} (h : custody trace = some s) :
    custody (x :: trace) = s.next x := by
  rw [custody, h]
  rfl

theorem Custody.next_quiet (s : Custody) {x : Obs} (h : x.isRequest = false) : s.next x = some s := by
  unfold Custody.next
  split <;> first | cases h | exact if_neg (by simp [h])

theorem custody_quiet {obs : List Obs} (trace : List Obs) (h : ∀ x ∈ obs, x.isRequest = false) :
    custody (obs ++ trace) = custody trace := by
  induction obs with
  | nil => rfl
  | cons x obs ih =>
    rw [List.cons_append, custody, ih fun y hy => h y (List.mem_cons_of_mem x hy)]
    cases custody trace with
    | none => rfl
    | some s => exact s.next_quiet (h x List.mem_cons_self)

/-! ## The invariant -/

/-- **What the worker knows of the request** it has been asked for. -/
structure Handled (owes : Option (Kind × Stage)) (reading : Reading) (armed : Bool)
    (flags : Flag → Bool) (outcome : Outcome) (k : Kind) (begun : Option Outcome) : Prop where
  unclaimed : k ≠ .stateRead → flags k.flag = true → begun = none
  claimed : k ≠ .stateRead → ∀ s, owes = some (k, s) → s = .claimed ∨ s = .refused → begun = none
  executed : ∀ o, owes = some (k, .executed o) → begun = some o
  restored : owes = some (k, .restored) ∨ flags .stateWriteWaiting = true →
    begun.any Outcome.succeeds = true
  recorded : k ≠ .stateRead → owes = some (k, .recorded) ∨ owes = some (k, .refused) →
    outcome.succeeds = true → begun.any Outcome.succeeds = true
  arming : reading = .arming → begun = none
  armed : k = .stateRead → begun ≠ none → armed = true ∨ owes = some (k, .recorded)

/-- What a ledger says of the phases and the store. -/
def Custody.Holds (w : WorkerPhase) (c : ControlPhase) (m : Store) : Custody → Prop
  | .free => (∀ k, c.stand ≠ .waiting k ∧ c.stand ≠ .answered k) ∧ c.outcome = none
  | .asked k begun => c.stand = .waiting k ∧ m.signaled k.event = false ∧ c.outcome = none ∧
      Handled w.owes w.reading w.armed m.flags (m.outcome k.event) k begun
  | .answered k o => (c.stand = .waiting k ∧ m.signaled k.event = true ∨ c.stand = .answered k) ∧
      m.outcome k.event = o ∧ ∀ o', c.outcome = some o' → o' = o

/-- **The ledger holds.** -/
def Ledger (w : WorkerPhase) (c : ControlPhase) (m : Store) : Prop :=
  ∃ s, custody m.trace = some s ∧ s.Holds w c m

/-! ## The operations -/

/-- The flags of a request, and of a restored state that waits for its run. -/
def Flag.isRequest : Flag → Bool
  | .mediaRequested | .debugRequested | .stateReadRequested | .stateWriteRequested
  | .stateWriteWaiting => true
  | _ => false

/-- The operations on which the ledger depends. -/
def Op.onLedger : ∀ {β : Type}, Op β → Bool
  | _, .exchange f _ => f.isRequest || f = .stateReadArmed
  | _, .write f _ => f ∈ [.mediaSucceeded, .debugStatus, .stateStatus]
  | _, .signal e | _, .reset e => e ≠ .command ∧ e ≠ .resume
  | _, .setRemovableMedia _ _ | _, .beginStateRead _ | _, .writeState _ | _, .executeDebug _ _
  | _, .exit | _, .returned _ _ => true
  | _, _ => false

section Operations

variable {β : Type} {t : Tid} {o : Op β} {a : Answer} {b : β} {w w' : WorkerPhase}
  {c c' : ControlPhase} {m m' : Store} {k : Kind}

/-- The others leave the requests, their events and their outcomes alone … -/
theorem effect_onLedger (ho : o.onLedger = false) (hexec : m.effect t a β o = some (b, m')) :
    (∀ f : Flag, f.isRequest = true → m'.flags f = m.flags f) ∧
      (∀ k : Kind, m'.signaled k.event = m.signaled k.event) ∧
      ∀ k : Kind, m'.outcome k.event = m.outcome k.event := by
  have hleaves := Store.effect_leaves hexec
  have hfield : ∀ f ∈ [Field.mediaSucceeded, .debugStatus, .stateStatus], m'.fields f = m.fields f :=
    fun f hf => hleaves.fields f fun hw => by
      cases hw
      exact absurd hf (of_decide_eq_false ho)
  refine ⟨fun f hf => hleaves.flags f fun hw => ?_, fun k => hleaves.signaled _ fun hw => ?_, fun k => ?_⟩
  · cases hw
    cases hf.symm.trans (Bool.or_eq_false_iff.mp ho).1
  · cases hw <;> cases k <;> cases ho
  · cases k
    · exact congrArg _ (hfield .mediaSucceeded (by simp))
    · exact congrArg _ (hfield .debugStatus (by simp))
    · exact congrArg _ (hfield .stateStatus (by simp))
    · exact congrArg _ (hfield .stateStatus (by simp))

/-- … and are not seen as requests. -/
theorem observe_onLedger (ho : o.onLedger = false) :
    ∀ x ∈ m.observe t β o b, x.isRequest = false := by
  intro x hx
  cases Store.mem_observe hx with
  | requested k => cases k <;> cases ho
  | completed he => exact absurd (decide_eq_true he) (ne_true_of_eq_false ho)
  | changed path mode | begun writer | restored reader | debugRan request capacity
  | debugged request capacity | returned call reply | exited => cases ho
  | _ => rfl

/-! ## The steps -/

/-- The control thread waits for no answer and has none. -/
def Stand.atRest (s : Stand) : Prop := ∀ k, s ≠ .waiting k ∧ s ≠ .answered k

/-- A step that is none of the requests' business, or that the worker takes with one of them. -/
theorem Ledger.update (h : Ledger w c m) (htrace : custody m'.trace = custody m.trace)
    (hsignaled : ∀ k : Kind, m'.signaled k.event = m.signaled k.event)
    (houtcome : ∀ k : Kind, m'.outcome k.event = m.outcome k.event) (hout : c'.outcome = c.outcome)
    (hstand : c'.stand = c.stand ∨ c.stand.atRest ∧ c'.stand.atRest)
    (hasked : ∀ k begun, c.stand = .waiting k →
      Handled w.owes w.reading w.armed m.flags (m.outcome k.event) k begun →
      Handled w'.owes w'.reading w'.armed m'.flags (m.outcome k.event) k begun) :
    Ledger w' c' m' := by
  obtain ⟨s, hs, hH⟩ := h
  refine ⟨s, htrace.trans hs, ?_⟩
  cases s with
  | free =>
    refine ⟨?_, hout.trans hH.2⟩
    rcases hstand with he | ⟨-, hr⟩
    · exact he ▸ hH.1
    · exact hr
  | asked k begun =>
    obtain ⟨hw, he, ho, hd⟩ := hH
    have hw' : c'.stand = .waiting k := hstand.elim (·.trans hw) fun hr => absurd hw (hr.1 k).1
    exact ⟨hw', (hsignaled k).trans he, hout.trans ho, houtcome k ▸ hasked k begun hw hd⟩
  | answered k o =>
    obtain ⟨hw, ho, hread⟩ := hH
    refine ⟨?_, (houtcome k).trans ho, fun o' ho' => hread o' (hout.symm.trans ho')⟩
    rw [hsignaled k]
    rcases hstand with he | ⟨hr, -⟩
    · rwa [he]
    · exact hw.elim (fun hw => absurd hw.1 (hr k).1) fun hw => absurd hw (hr k).2

/-- Without a waiting control thread there is no request … -/
theorem Ledger.free (h : Ledger w c m) (hr : c.stand.atRest) :
    custody m.trace = some .free ∧ c.outcome = none := by
  obtain ⟨s, hs, hH⟩ := h
  cases s with
  | free => exact ⟨hs, hH.2⟩
  | asked k begun => exact absurd hH.1 (hr k).1
  | answered k o => exact hH.1.elim (fun hw => absurd hw.1 (hr k).1) fun hw => absurd hw (hr k).2

/-- … and while it waits for an answer that is not there, its request is in the ledger. -/
theorem Ledger.asked (h : Ledger w c m) (hs : c.stand = .waiting k)
    (he : m.signaled k.event = false) : ∃ begun, custody m.trace = some (.asked k begun) ∧
      c.outcome = none ∧ Handled w.owes w.reading w.armed m.flags (m.outcome k.event) k begun := by
  obtain ⟨s, hs', hH⟩ := h
  cases s with
  | free => exact absurd hs (hH.1 k).1
  | asked k' begun =>
    obtain ⟨hw, -, ho, hd⟩ := hH
    cases hs.symm.trans hw
    exact ⟨begun, hs', ho, hd⟩
  | answered k' o =>
    rcases hH.1 with ⟨hw, he'⟩ | hw <;> cases hs.symm.trans hw
    cases he.symm.trans he'

/-- An operation that leaves the requests alone. -/
theorem Ledger.frame (h : Ledger w c m) (ho : o.onLedger = false)
    (hexec : m.effect t a β o = some (b, m')) (hout : c'.outcome = c.outcome)
    (hstand : c'.stand = c.stand ∨ c.stand.atRest ∧ c'.stand.atRest)
    (hw : w'.owes = w.owes ∧ w'.armed = w.armed ∧ (w'.reading = .arming → w.reading = .arming)) :
    Ledger w' c' { m' with trace := m.observe t β o b ++ m'.trace } := by
  obtain ⟨hflags, hsignaled, houtcome⟩ := effect_onLedger ho hexec
  refine h.update ?_ hsignaled houtcome hout hstand fun k begun _ hd => ?_
  · rw [custody_quiet _ (observe_onLedger ho), (Store.effect_leaves hexec).trace]
  · rw [hw.1, hw.2.1]
    exact { hd with
      unclaimed := fun hk hf => hd.unclaimed hk ((hflags _ (by cases k <;> rfl)).symm.trans hf)
      restored := fun hf => hd.restored (hf.imp_right (hflags .stateWriteWaiting rfl).symm.trans)
      arming := hd.arming ∘ hw.2.2 }

/-! ### The worker -/

section Worker

open WorkerPhase WorkerPhase.Stepping

attribute [local grind =] Function.update_apply Kind.flag
attribute [local grind cases] Kind

/-- The worker goes on with the request as it was, whatever else it does. -/
theorem next_onLedger (ho : o.onLedger = false) :
    (WorkerPhase.next β w o b).Lands fun w' => w'.owes = w.owes ∧ w'.armed = w.armed ∧
      (w'.reading = .arming → w.reading = .arming) := by
  cases o with
  | exchange f v =>
    cases f <;> first | (cases ho; done) | cases v <;> simp
    all_goals split <;> simp
  | load f => cases f <;> simp
  | write f v => cases f <;> first | (cases ho; done) | simp
  | signal e => cases e <;> first | (cases ho; done) | simp
  | setExecutorCallback installed =>
    cases installed <;> simp
    split <;> simp
  | _ => first | (cases ho; done) | (simp <;> split <;> simp)

/-- A flag of the requests is raised or lowered. -/
theorem ledger_exchange {f : Flag} {v : Bool} (ho : (Op.exchange f v).onLedger = true)
    (ht : Tokens w.hands c.stand m.flags m.signaled) (h : Ledger w c m)
    (hnext : w.onExchange f v (m.flags f) = .go w') : Ledger w' c (m.setFlag f v) := by
  refine h.update rfl (fun _ => rfl) (fun _ => rfl) rfl (.inl rfl) fun k begun hs hd => ?_
  have hasked := ht.asked
  have howed := ht.owed
  have hwaits := ht.waits
  have hknows := ht.knows
  have harmed := ht.mirrors.1
  obtain ⟨h₁, h₂, h₃, h₄, h₅, h₆, h₇⟩ := hd
  simp only [Store.setFlag]
  cases hf : m.flags f <;> cases f <;> cases v <;> (try (cases ho; done)) <;> simp [hf] at hnext <;>
    first
    | subst hnext
      constructor <;> grind -linarith
    | obtain ⟨hp, rfl⟩ := hnext
      constructor <;> grind -linarith

/-- The driver operation of a claimed request is executed. -/
theorem ledger_execute {out : Outcome} {trace : List Obs} (hk : k ≠ .stateRead)
    (ht : Tokens w.hands c.stand m.flags m.signaled) (h : Ledger w c m) {s : Stage}
    (ho : w.owes = some (k, s)) (hs : s = .claimed ∨ s = .refused)
    (htrace : custody trace = custody (.executed k out :: m.trace)) :
    Ledger { w with owes := some (k, .executed out) } c { m with trace } := by
  obtain ⟨hstand, hw, he⟩ := ht.owed k s ho
  obtain ⟨begun, hc, hout, hd⟩ := h.asked hstand he
  cases hd.claimed hk s ho hs
  have hflag : ∀ k' : Kind, m.flags k'.flag = false := fun k' =>
    Bool.eq_false_iff.mpr fun hf => by cases ho.symm.trans (ht.asked k' hf).2.1
  have hreading : w.reading ≠ .arming := fun hr => by
    cases (hflag .stateRead).symm.trans (ht.reads (by simp [hr])).1
  have hnow := (htrace.trans (custody_cons hc)).trans (if_pos rfl)
  refine ⟨.asked k (some out), hnow, hstand, he, hout, ?_⟩
  have hk' := hflag k
  constructor <;> grind -linarith

/-- The outcome of a request is recorded. -/
theorem Ledger.note {f : Field} {v : f.type} (h : Ledger w c m) (hs : c.stand = .waiting k)
    (he : m.signaled k.event = false)
    (hd : ∀ begun, Handled w.owes w.reading w.armed m.flags (m.outcome k.event) k begun →
      Handled w'.owes w'.reading w'.armed m.flags ((m.setField f v).outcome k.event) k begun) :
    Ledger w' c (m.setField f v) := by
  obtain ⟨begun, hc, hout, hd'⟩ := h.asked hs he
  exact ⟨.asked k begun, hc, hs, he, hout, hd begun hd'⟩

theorem ledger_record {f : Field} {v : f.type} {s stage : Stage} {x : Outcome}
    (ht : Tokens w.hands c.stand m.flags m.signaled) (h : Ledger w c m)
    (ho : w.owes = some (k, s)) (hs : s = .executed x ∨ x.succeeds = false)
    (hstage : stage = .recorded ∨ stage = .restored ∧ x.succeeds = true ∨
      stage = .refused ∧ s = .claimed) (hout : (m.setField f v).outcome k.event = x) :
    Ledger { w with owes := some (k, stage) } c (m.setField f v) := by
  obtain ⟨hstand, hw, he⟩ := ht.owed k s ho
  refine h.note hstand he fun begun hd => ?_
  rw [hout]
  obtain ⟨h₁, h₂, h₃, h₄, h₅, h₆, h₇⟩ := hd
  constructor <;> grind -linarith

/-- A state write or a state read has its outcome, or a restored state starts its run. -/
theorem ledger_stateStatus {s : Status} (ht : Tokens w.hands c.stand m.flags m.signaled)
    (h : Ledger w c m) (hnext : w.onWriteStateStatus s = .go w') :
    Ledger w' c (m.setField .stateStatus s) := by
  have hread : ∀ {r : Reading} {b : Bool}, m.flags .stateReadRequested = true → r ≠ .arming →
      Ledger { w with reading := r, mayComplete := b } c (m.setField .stateStatus s) := by
    intro r b hf hr
    obtain ⟨hstand, -, -, he⟩ := ht.asked .stateRead hf
    exact h.note hstand he fun begun hd =>
      { hd with recorded := fun hk => absurd rfl hk, arming := fun hr' => absurd hr' hr }
  unfold WorkerPhase.onWriteStateStatus at hnext
  split at hnext <;> simp at hnext
  case h_1 =>
    rename_i ho
    obtain ⟨hs, rfl⟩ := hnext
    refine ledger_record (k := .stateWrite) ht h ho ?_ (.inl rfl) rfl
    rcases hs with rfl | rfl <;> exact .inr rfl
  case h_2 =>
    rename_i ho
    obtain ⟨rfl, rfl⟩ := hnext
    refine ledger_record (k := .stateWrite) (x := .status s) ht h ho (.inl rfl) ?_ rfl
    by_cases hs : s = .ok <;> simp [hs, Outcome.succeeds]
  case h_3 =>
    rename_i ho
    obtain ⟨rfl, rfl⟩ := hnext
    exact ledger_record (k := .stateWrite) ht h ho (.inr rfl) (.inl rfl) rfl
  case h_4 | h_5 =>
    rename_i hr
    obtain ⟨rfl, rfl⟩ := hnext
    exact hread (ht.reads (by simp [hr])).1 (by simp)
  all_goals
    rename_i ho hr
    split at hnext <;> simp at hnext
    · obtain ⟨hq, rfl⟩ := hnext
      exact hread (ht.knows hq) (by simp [hr])
    · obtain ⟨⟨-, hr, -⟩, rfl⟩ := hnext
      obtain ⟨hstand, -, he⟩ := ht.waits (ht.restores hr)
      exact h.note hstand he fun begun hd => { hd with recorded := by simp [ho] }

/-- The outcome of a media or a debug request is recorded. -/
theorem ledger_write {f : Field} {v : f.type} (ho : (Op.write f v).onLedger = true)
    (ht : Tokens w.hands c.stand m.flags m.signaled) (h : Ledger w c m)
    (hnext : w.onWrite f v = .go w') : Ledger w' c (m.setField f v) := by
  cases f <;> first | (cases ho; done) | clear ho
  case stateStatus => exact ledger_stateStatus ht h hnext
  case mediaSucceeded =>
    simp at hnext
    split at hnext <;> simp at hnext <;> obtain ⟨rfl, rfl⟩ := hnext <;> rename_i ho
    · exact ledger_record (k := .media) ht h ho (.inr rfl) (.inl rfl) rfl
    · exact ledger_record (k := .media) ht h ho (.inl rfl) (.inl rfl) rfl
  case debugStatus =>
    simp at hnext
    split at hnext <;> simp at hnext <;> obtain ⟨hv, rfl⟩ := hnext <;> rename_i ho
    · rcases hv with rfl | rfl <;>
        exact ledger_record (k := .debug) ht h ho (.inr rfl) (by simp) rfl
    all_goals
      subst hv
      refine ledger_record (k := .debug) ht h ho ?_ (.inl rfl) rfl
      first | exact .inl rfl | exact .inr rfl

/-- A claimed request is answered. -/
theorem ledger_answer {s : Stage} (ht : Tokens w.hands c.stand m.flags m.signaled)
    (h : Ledger w c m) (ho : w.owes = some (k, s)) (hs : s = .recorded ∨ s = .refused) :
    Ledger { w with owes := none } c { m.setEvent k.event true with
      trace := .completed k.event (m.outcome k.event) :: m.trace } := by
  obtain ⟨hstand, -, he⟩ := ht.owed k s ho
  obtain ⟨begun, hc, hnone, hd⟩ := h.asked hstand he
  have hgood := fun hk => hd.recorded hk (hs.imp (fun hs => by rw [ho, hs]) fun hs => by rw [ho, hs])
  refine ⟨.answered k (m.outcome k.event), ?_, .inl ⟨hstand, Function.update_self _ _ _⟩, rfl,
    by simp [hnone]⟩
  rw [custody_cons hc]
  simpa [Custody.next] using hgood

/-- **The worker keeps the ledger.** -/
theorem ledger_worker (hO : Orderly w c m) (h : Ledger w c m)
    (hexec : m.effect .worker a β o = some (b, m')) (hnext : WorkerPhase.next β w o b = .go w') :
    Ledger w' c { m' with trace := m.observe .worker β o b ++ m'.trace } := by
  by_cases ho : o.onLedger = false
  · exact h.frame ho hexec rfl (.inl rfl) ((next_onLedger ho).go hnext)
  have ht : Tokens ({ w with mayComplete := false } : WorkerPhase).hands c.stand m.flags m.signaled :=
    hO.tokens
  have h₀ : Ledger { w with mayComplete := false } c m := h
  cases o with
  | exchange f v =>
    cases hexec
    have hseen : m.observe .worker Bool (.exchange f v) (m.flags f) = [] := by
      cases v <;> cases f <;> first | rfl | cases hnext
    rw [hseen]
    by_cases hf : f = .stateReadRequested
    · subst hf
      exact ledger_exchange (by simpa using ho) hO.tokens h hnext
    · refine ledger_exchange (by simpa using ho) ht h₀ ?_
      cases f <;> first | exact hnext | exact absurd rfl hf
  | write f v =>
    cases hexec
    rw [WorkerPhase.next_write w (by rintro rfl; exact ho rfl)] at hnext
    exact ledger_write (by simpa using ho) ht h₀ hnext
  | signal e =>
    obtain ⟨rfl, hsignal⟩ := unlessFailed_eq_go.mp hnext
    obtain ⟨-, rfl⟩ := Store.effect_signal.mp hexec
    unfold WorkerPhase.onSignal at hsignal
    split at hsignal <;> simp at hsignal
    · exact absurd rfl ho
    · obtain ⟨⟨rfl, -⟩, rfl⟩ := hsignal
      rename_i k howes hcommand hresume
      rw [show m.observe .worker Status (.signal k.event) .ok =
        [.completed k.event (m.outcome k.event)] from if_pos ⟨rfl, hcommand, hresume⟩]
      exact ledger_answer ht h₀ howes (.inl rfl)
    · subst hsignal
      exact ledger_answer (k := .debug) ht h₀ ‹_› (.inr rfl)
  | reset e =>
    simp at hnext
    rcases hnext.2.1 with rfl | rfl <;> exact absurd rfl ho
  | setRemovableMedia path mode =>
    cases hexec
    simp at hnext
    obtain ⟨hp, rfl⟩ := hnext
    exact ledger_execute (k := .media) (by simp) ht h₀ hp (.inl rfl) rfl
  | writeState reader =>
    cases hexec
    simp at hnext
    obtain ⟨-, hp, rfl⟩ := hnext
    exact ledger_execute (k := .stateWrite) (by simp) ht h₀ hp (.inl rfl) rfl
  | executeDebug request capacity =>
    cases hexec
    simp at hnext
    obtain ⟨⟨hp, -⟩, rfl⟩ := hnext
    exact ledger_execute (k := .debug) (by simp) ht h₀ hp (.inr rfl)
      (@custody_quiet [_] _ (by simp [Obs.isRequest]))
  | beginStateRead writer =>
    cases hexec
    simp at hnext
    obtain ⟨hp, rfl⟩ := hnext
    obtain ⟨hf, harmed⟩ := ht.reads (by simp [hp])
    obtain ⟨hs, howes, hw, he⟩ := ht.asked .stateRead hf
    obtain ⟨begun, hc, hnone, hd⟩ := h.asked hs he
    cases hd.arming hp
    refine ⟨.asked .stateRead (some (.status a.status)), custody_cons hc, hs, he, hnone, ?_⟩
    constructor <;> grind -linarith
  | exit =>
    cases hexec
    simp at hnext
    obtain ⟨hp, rfl⟩ := hnext
    have hrest : c.stand.atRest := by simp [hO.ending.leaving hp, Stand.atRest]
    obtain ⟨hc, hnone⟩ := h.free hrest
    exact ⟨.free, custody_cons hc, hrest, hnone⟩
  | returned call reply => cases hnext
  | _ => exact absurd rfl ho

end Worker

/-! ### The control thread -/

section Control

open ControlPhase

/-- The operations in which a call begins, waits or learns its outcome. -/
def Op.onCall : ∀ {β : Type}, Op β → Bool
  | _, .read _ | _, .waitAny _ | _, .nextCall => true
  | _, _ => false

/-- The control thread is in no request, or stays where it is. -/
theorem control_onLedger (ho : o.onLedger = false ∧ o.onCall = false) :
    (ControlPhase.next β c o b).Lands fun c' => c'.outcome = c.outcome ∧
      (c'.stand = c.stand ∨ c.stand.atRest ∧ c'.stand.atRest) := by
  cases o with
  | exchange f v =>
    simp only [ControlPhase.next, onExchange]
    split <;> first | (cases ho.1; done) | simp_all [Stand.atRest]
  | load f => cases f <;> simp_all [ControlPhase.next, onLoad, Stand.atRest]
  | loadState =>
    simp only [ControlPhase.next, onLoadState]
    split <;> simp_all [Stand.atRest] <;> split <;> simp
  | storeState s =>
    simp only [ControlPhase.next]
    split <;> simp_all [Stand.atRest]
  | debugInvalidate =>
    simp only [ControlPhase.next, onInvalidate]
    split <;> simp_all [Stand.atRest]
  | write f v =>
    simp only [ControlPhase.next, onWrite]
    split <;> simp
  | signal e =>
    simp only [ControlPhase.next, onSignal, lands_unlessFailed]
    split <;> simp
  | join => simp_all [ControlPhase.next, Stand.atRest]
  | inputAdmit accepting | inputClear =>
    simp only [ControlPhase.next]
    split <;> simp_all [Stand.atRest]
  | addRunGeneration => simp_all [ControlPhase.next, Stand.atRest]
  | reset e => cases e <;> first | (cases ho.1; done) | simp [ControlPhase.next, onReset]
  | read f | waitAny es | nextCall => cases ho.2
  | returned => cases ho.1
  | _ => simp [ControlPhase.next]

/-- A request is made. -/
theorem ledger_ask (hs : c.stand = .armed k.event) (hO : Orderly w c m) (h : Ledger w c m) :
    Ledger w { c with stand := .waiting k } { m.setFlag k.flag true with
      trace := .requested k :: m.trace } := by
  obtain ⟨hc, hnone⟩ := h.free (by simp [hs, Stand.atRest])
  obtain ⟨ho, hw, -⟩ := hO.tokens.nobody (by simp [hs])
  refine ⟨.asked k none, custody_cons hc, rfl, (hO.tokens.fresh _ hs).1, hnone, ?_⟩
  have hw' : (m.setFlag k.flag true).flags .stateWriteWaiting = false :=
    (Function.update_of_ne (by cases k <;> decide) _ _).trans hw
  have ho' : w.owes = none := ho
  constructor <;> simp [ho', hw']

/-- The outcome of an answered request is read. -/
theorem Ledger.learn (h : Ledger w c m) (hs : c.stand = .answered k) :
    Ledger w { c with outcome := some (m.outcome k.event) } m := by
  obtain ⟨s, hc, hH⟩ := h
  cases s with
  | free => exact absurd hs (hH.1 k).2
  | asked k' begun => cases hs.symm.trans hH.1
  | answered k' out =>
    obtain ⟨hw, hout, -⟩ := hH
    rcases hw with ⟨hw, -⟩ | hw <;> cases hs.symm.trans hw
    refine ⟨.answered k out, hc, .inr hs, hout, ?_⟩
    intro o' ho'
    exact (Option.some.inj ho').symm.trans hout

/-- The call returns what it has read. -/
theorem Ledger.return {call : Call} {reply : Reply} (h : Ledger w c m)
    (hr : c.mayReturn call reply = true) :
    Ledger w {} { m with trace := .returned call reply :: m.trace } := by
  obtain ⟨s, hc, hH⟩ := h
  unfold mayReturn at hr
  refine ⟨.free, ?_, by simp, rfl⟩
  rw [custody_cons hc]
  cases s with
  | free => rfl
  | asked k begun => simp [hH.1] at hr
  | answered k out =>
    obtain ⟨hw | hw, -, hread⟩ := hH
    · simp [hw.1] at hr
    · cases ho : c.outcome with
      | none => simp [hw, ho] at hr
      | some o' =>
        cases hread o' ho
        simp [hw, ho] at hr
        simp [Custody.next, hr]

/-- **The control thread keeps the ledger.** -/
theorem ledger_control (hO : Orderly w c m) (h : Ledger w c m)
    (hexec : m.effect .control a β o = some (b, m')) (hnext : ControlPhase.next β c o b = .go c') :
    Ledger w c' { m' with trace := m.observe .control β o b ++ m'.trace } := by
  by_cases ho : o.onLedger = false ∧ o.onCall = false
  · obtain ⟨hout, hstand⟩ := (control_onLedger ho).go hnext
    exact h.frame ho.1 hexec hout hstand ⟨rfl, rfl, id⟩
  cases o with
  | exchange f v =>
    cases hexec
    simp only [ControlPhase.next] at hnext
    unfold onExchange at hnext
    split at hnext <;> first | exact absurd ⟨rfl, rfl⟩ ho | skip
    case h_12 hs =>
      cases hnext
      exact ledger_ask (k := .media) hs hO h
    case h_13 hs =>
      cases hnext
      exact ledger_ask (k := .debug) hs hO h
    case h_14 hs =>
      cases hnext
      exact ledger_ask (k := .stateRead) hs hO h
    case h_15 hs =>
      cases (allowIf_eq_go.mp hnext).2
      exact ledger_ask (k := .stateWrite) hs hO h
    all_goals cases hnext
  | signal e =>
    obtain ⟨-, hsignal⟩ := unlessFailed_eq_go.mp hnext
    cases e <;> first | exact absurd ⟨rfl, rfl⟩ ho | cases hsignal
  | reset e =>
    obtain ⟨rfl, hreset⟩ := unlessFailed_eq_go.mp hnext
    obtain ⟨-, rfl⟩ := Store.effect_reset.mp hexec
    unfold onReset at hreset
    split at hreset <;> cases hreset <;> rename_i hs <;>
      exact ⟨.free, (h.free (by simp [hs, Stand.atRest])).1, by simp, (h.free (by simp [hs, Stand.atRest])).2⟩
  | waitAny es =>
    simp only [ControlPhase.next] at hnext
    unfold onWait at hnext
    split at hnext <;> try cases hnext
    rename_i k i hs
    simp at hnext
    obtain ⟨rfl, rfl⟩ := hnext
    obtain ⟨-, -, hsignaled, rfl⟩ := Store.effect_waitAny_signaled.mp hexec
    obtain ⟨s, hc, hH⟩ := h
    cases s with
    | free => exact absurd hs (hH.1 k).1
    | asked k' begun =>
      cases hs.symm.trans hH.1
      simp [List.findIdx?_cons, hH.2.1] at hsignaled
    | answered k' out =>
      rcases hH.1 with ⟨hw, -⟩ | hw <;> cases hs.symm.trans hw
      exact ⟨.answered k out, hc, .inr rfl, hH.2⟩
  | read f =>
    cases hexec
    simp only [ControlPhase.next] at hnext
    unfold onRead at hnext
    split at hnext <;> cases hnext <;> rename_i hs <;> try exact h
    · exact h.learn (k := .media) hs
    · exact h.learn (k := .debug) hs
    · exact h.learn (k := .stateRead) hs
    · exact h.learn (k := .stateWrite) hs
  | nextCall =>
    cases hexec
    obtain ⟨hs, hnext⟩ := allowIf_eq_go.mp hnext
    cases hnext
    obtain ⟨hc, -⟩ := h.free (by simp [of_decide_eq_true hs, Stand.atRest])
    exact ⟨.free, custody_cons hc, by simp, rfl⟩
  | returned call reply =>
    cases hexec
    obtain ⟨hr, hnext⟩ := allowIf_eq_go.mp hnext
    cases hnext
    exact h.return hr
  | write f v => cases f <;> first | exact absurd ⟨rfl, rfl⟩ ho | cases hnext
  | _ => first | exact absurd ⟨rfl, rfl⟩ ho | cases hnext

end Control

/-- Each thread keeps the ledger. -/
theorem ledger_kept : Kept Ledger where
  worker := ledger_worker
  control := ledger_control
  producer _ h hexec hnext :=
    h.frame (by cases producerNext_produces hnext nofun <;> rfl) hexec rfl (.inl rfl) ⟨rfl, rfl, id⟩
  canceller _ h hexec hnext :=
    h.frame (by cases cancellerNext_cancels hnext nofun <;> rfl) hexec rfl (.inl rfl) ⟨rfl, rfl, id⟩
  viewer _ h hexec hnext :=
    h.frame (by cases viewerNext_views hnext nofun <;> rfl) hexec rfl (.inl rfl) ⟨rfl, rfl, id⟩

end Operations

/-! ## Runs -/

/-- **Every request is answered once.**  After every run without a native failure: an accepted request
was followed by no other before its call returned; its driver operation was executed at most once; it
was answered once, with success only if that had succeeded (but for a state read), and its call
returned that answer; and the worker did not exit on a waiting caller.  A request that is raised, or
that waits for the run of a restored state, is the one asked for, with no answer and no termination. -/
theorem requests_answered_once {hooks : Hooks} {schedule : List (Tid × Answer)}
    {c : Config Tid Op Store} (hrun : runs hooks schedule = some c)
    (hfault : c.store.nativeFault = false) :
    ∃ s, custody c.store.trace = some s ∧
      (∀ k : Kind, c.store.flags k.flag = true ∨
          (k = .stateWrite ∧ c.store.flags .stateWriteWaiting = true) →
        (∃ begun, s = .asked k begun) ∧ c.store.signaled k.event = false ∧
          c.store.flags .terminateRequested = false) ∧
      (c.store.exited = true → ∀ k begun, s ≠ .asked k begun) := by
  have hboot : Ledger {} {} .created := ⟨.free, rfl, by simp, rfl⟩
  obtain ⟨w, p, hO, h, -⟩ := runs_keep ledger_kept hboot hrun hfault
  have hlive : ∀ {k}, p.stand = .waiting k → c.store.flags .terminateRequested = false :=
    fun hs => hO.ending.requesting (by simp [hs, Stand.requesting])
  have hasked : ∀ {k : Kind}, p.stand = .waiting k → c.store.signaled k.event = false →
      ∃ begun, custody c.store.trace = some (.asked k begun) := fun hs he =>
    (h.asked hs he).imp fun _ h => h.1
  obtain ⟨s, hs, hH⟩ := h
  refine ⟨s, hs, ?_, ?_⟩
  · rintro k (hf | ⟨rfl, hf⟩)
    · obtain ⟨hstand, -, -, he⟩ := hO.tokens.asked k hf
      obtain ⟨begun, hc⟩ := hasked hstand he
      exact ⟨⟨begun, Option.some.inj (hs.symm.trans hc)⟩, he, hlive hstand⟩
    · obtain ⟨hstand, -, he⟩ := hO.tokens.waits hf
      obtain ⟨begun, hc⟩ := hasked (k := .stateWrite) hstand he
      exact ⟨⟨begun, Option.some.inj (hs.symm.trans hc)⟩, he, hlive hstand⟩
  · rintro hexited k begun rfl
    have := hO.ending.gone (hO.ending.finished hexited)
    exact absurd (this.symm.trans (hlive hH.1)) (by simp)

/-- A media request is made, served and answered. -/
def mediaChanged : List (Tid × Answer) :=
  moves .control 1 {} ++ moves .control 1 { call := .setRemovableMedia none 0 } ++
    moves .control 10 {} ++ moves .worker 21 { yes := true } ++ moves .control 2 {}

theorem requests_answered_once_media :
    ∃ c s, runs { Hooks.bare with setRemovableMedia := true } mediaChanged = some c ∧
      custody c.store.trace = some s ∧ s = .answered .media (.media true) := by
  have hany : (runs { Hooks.bare with setRemovableMedia := true } mediaChanged).any (fun c =>
      custody c.store.trace = some (.answered .media (.media true)) ∧
        c.store.nativeFault = false) = true := by
    decide
  obtain ⟨c, hrun, hc⟩ := (Option.any_eq_true _ _).mp hany
  obtain ⟨hcustody, hfault⟩ := of_decide_eq_true hc
  obtain ⟨s, hs, -⟩ := requests_answered_once hrun hfault
  exact ⟨c, s, hrun, hs, Option.some.inj (hs.symm.trans hcustody)⟩

end SoftPC.Machine
