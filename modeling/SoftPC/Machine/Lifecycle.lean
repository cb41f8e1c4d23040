import SoftPC.Machine.Conforms

/-!
# Machine/Lifecycle — the state of a machine, and where its threads are

Which places of the worker and which stands of the control thread go with which `state` and
`start_requested` (`Lifecycle`), and how the worker ends (`Ending`).  Both are stated over the
components they speak of, with one lemma per move that changes one; one lemma per thread then says
that every operation is such a move or leaves the components alone.
-/

namespace SoftPC.Machine

open SoftPC.Threads

/-- The worker is between two runs, or past its loop. -/
@[grind] def Place.calm : Place → Prop
  | .idle | .closing | .leaving | .gone => True
  | _ => False

/-- … or restores a state. -/
@[grind] def Place.quiet : Place → Prop
  | .restoring _ => True
  | p => p.calm

/-- The control thread checks whether its request is allowed. -/
@[grind] def Stand.checking : Stand → Prop
  | .submitting | .armed _ => True
  | _ => False

/-- … or waits for the answer. -/
@[grind] def Stand.requesting : Stand → Prop
  | .waiting _ => True
  | s => s.checking

/-- STARTING is stored. -/
@[grind] def Renewal.started : Renewal → Bool
  | .announced | .counted => true
  | _ => false

/-! ## The life of a run -/

/-- **The life of a run.**  `writing` says that a state write has been accepted and neither executed
in full nor failed. -/
structure Lifecycle (place : Place) (stand : Stand) (found : Bool) (state : State) (start : Bool)
    (writing : Prop) : Prop where
  stopped : state = .stopped → place.quiet
  scheduled : start = true → state = .starting ∧ place.calm
  launching : place = .launching → state = .starting
  hit : place ≠ .misfired
  live : place = .live → state = .running ∨ state = .paused ∨ state = .error
  recycling : ∀ r, place = .recycling r →
    state = .starting ∨ (r.started = false ∧ state = .error)
  restoring : ∀ r, place = .restoring r →
    stand = .waiting .stateWrite ∧ state = if r.started then .starting else .stopped
  writable : writing → (∃ r, place = .restoring r) ∨ state = .stopped
  cold : ∀ r, stand = .cold r →
    place.calm ∧ start = false ∧ state = if r.started then .starting else .stopped
  sawStopped : stand = .sawStopped → state = .stopped
  checked : stand.checking → found = true → state = .stopped

namespace Lifecycle

variable {place : Place} {stand : Stand} {found : Bool} {state s : State} {start : Bool}
  {writing : Prop}

/-! ### The worker -/

theorem takeStart (h : Lifecycle .idle stand found state true writing) :
    Lifecycle .launching stand found state false writing := by
  cases h
  constructor <;> grind -linarith

theorem putStart {writing' : Prop} (h : Lifecycle place stand found state start writing)
    (hp : place = .recycling .counted ∨ place = .restoring .counted)
    (hw : writing' → writing ∧ ∀ r, place ≠ .restoring r) :
    Lifecycle .idle stand found state true writing' := by
  cases h
  constructor <;> grind -linarith

/-- The worker moves on, and the state is what it was. -/
theorem move {p : Place} (h : Lifecycle place stand found state start writing)
    (hp : (place = .live ∧ p = .unwinding) ∨ (place = .unwinding ∧ p = .turning) ∨
      (∃ r r', r.started = r'.started ∧ place = .recycling r ∧ p = .recycling r') ∨
      (∃ r r', r.started = r'.started ∧ place = .restoring r ∧ p = .restoring r') ∨
      (place = .closing ∧ p = .idle) ∨ (place.calm ∧ (p = .leaving ∨ p = .gone))) :
    Lifecycle p stand found state start writing := by
  cases h
  constructor <;> grind -linarith

theorem restore (h : Lifecycle .idle stand found state start writing) (hw : writing)
    (hs : stand = .waiting .stateWrite) :
    Lifecycle (.restoring .opened) stand found state start writing := by
  cases h
  constructor <;> grind -linarith

theorem close (h : Lifecycle place stand found state start writing)
    (hp : place = .launching ∨ place = .unwinding) :
    Lifecycle .closing stand found s start writing := by
  cases h
  constructor <;> grind -linarith

/-- The state moves inside a run. -/
theorem setLive (h : Lifecycle place stand found state start writing)
    (hp : place = .launching ∨ place = .live) (hs : s = .running ∨ s = .paused ∨ s = .error) :
    Lifecycle .live stand found s start writing := by
  cases h
  constructor <;> grind -linarith

theorem turn (h : Lifecycle .turning stand found state start writing)
    (hs : s = .starting ∨ s = .error) :
    Lifecycle (.recycling .opened) stand found s start writing := by
  cases h
  constructor <;> grind -linarith

theorem announceRecycling {r : Renewal}
    (h : Lifecycle (.recycling r) stand found state start writing) :
    Lifecycle (.recycling .announced) stand found .starting start writing := by
  cases h
  constructor <;> grind -linarith

theorem announceRestoring {r : Renewal}
    (h : Lifecycle (.restoring r) stand found state start writing) :
    Lifecycle (.restoring .announced) stand found .starting start writing := by
  cases h
  constructor <;> grind -linarith

theorem mono {writing' : Prop} (h : Lifecycle place stand found state start writing)
    (hw : writing' → writing) : Lifecycle place stand found state start writing' :=
  { h with writable := fun h' => h.writable (hw h') }

/-! ### The control thread -/

/-- The control thread comes to a stand that says nothing of the run. -/
theorem stands {stand' : Stand} {found' : Bool} (h : Lifecycle place stand found state start writing)
    (hs : stand' = .idle ∨ stand' = .shutting ∨ (∃ k, stand' = .answered k) ∨
      (∃ k, stand' = .waiting k) ∨ (stand'.checking ∧ found' = false) ∨
      (stand'.checking ∧ stand.checking ∧ found' = found))
    (hr : stand = .waiting .stateWrite → ∀ r, place ≠ .restoring r) :
    Lifecycle place stand' found' state start writing := by
  cases h
  constructor <;> grind -linarith

theorem see (h : Lifecycle place stand found state start writing)
    (hs : stand = .idle ∨ stand = .sawStopped) :
    Lifecycle place (if state = .stopped then .sawStopped else .idle) found state start writing := by
  cases h
  constructor <;> grind -linarith

theorem find (h : Lifecycle place .submitting found state start writing) :
    Lifecycle place .submitting (state = .stopped) state start writing := by
  cases h
  constructor <;> grind -linarith

theorem beginCold (h : Lifecycle place .sawStopped found state start writing) :
    Lifecycle place (.cold .opened) found state start writing := by
  have hstopped : state = .stopped := h.sawStopped rfl
  have hstart : start = false := by
    cases start with
    | false => rfl
    | true => cases hstopped.symm.trans (h.scheduled rfl).1
  have hrestoring : ∀ r, place ≠ .restoring r := fun r hr => by cases (h.restoring r hr).1
  have hcalm : place.calm := by
    have hquiet := h.stopped hstopped
    cases place with
    | restoring r => exact absurd rfl (hrestoring r)
    | _ => exact hquiet
  exact { h with
    restoring := fun r hr => absurd hr (hrestoring r)
    cold := fun r hr => by cases hr; exact ⟨hcalm, hstart, hstopped⟩
    sawStopped := nofun
    checked := fun hr => hr.elim }

theorem renewCold {r r' : Renewal} (h : Lifecycle place (.cold r) found state start writing)
    (hr : r.started = r'.started) : Lifecycle place (.cold r') found state start writing := by
  cases h
  constructor <;> grind -linarith

theorem announceCold {r : Renewal} (h : Lifecycle place (.cold r) found state start writing)
    (hw : ¬writing) : Lifecycle place (.cold .announced) found .starting start writing := by
  cases h
  constructor <;> grind -linarith

theorem schedule (h : Lifecycle place (.cold .counted) found state start writing) :
    Lifecycle place .idle found state true writing := by
  cases h
  constructor <;> grind -linarith

/-- A state write is accepted only in STOPPED. -/
theorem acceptWrite {e : Event} (h : Lifecycle place (.armed e) true state start writing) :
    Lifecycle place (.waiting .stateWrite) true state start True := by
  cases h
  constructor <;> grind -linarith

end Lifecycle

/-! ## The end of the worker -/

/-- **The end of the worker**: only a shutdown terminates it, and it keeps the state it finds. -/
structure Ending (place : Place) (seen : List State) (stand : Stand) (state : State)
    (terminate cancelled exited : Bool) : Prop where
  leaving : place = .leaving → stand = .shutting
  gone : place = .gone → terminate = true
  terminating : terminate = true → stand = .shutting ∨ place = .gone
  shutting : stand = .shutting → terminate = true
  requesting : stand.requesting → terminate = false
  cancelling : cancelled = true → terminate = true
  finished : exited = true → place = .gone
  saw : ∀ s ∈ seen, (place = .leaving ∧ state = s) ∨ place = .gone

namespace Ending

variable {place p : Place} {seen : List State} {stand : Stand} {state s : State}
  {terminate cancelled exited : Bool}

/-- The worker moves inside its loop. -/
theorem move (h : Ending place seen stand state terminate cancelled exited)
    (hp : place ≠ .leaving ∧ place ≠ .gone ∧ p ≠ .leaving ∧ p ≠ .gone) :
    Ending p seen stand s terminate cancelled exited := by
  cases h
  constructor <;> grind -linarith

theorem leave (h : Ending .idle seen stand state terminate cancelled exited)
    (ht : terminate = true ∨ cancelled = true) :
    Ending .leaving seen stand state terminate cancelled exited := by
  cases h
  constructor <;> grind -linarith

theorem see (h : Ending .leaving seen stand state terminate cancelled exited) :
    Ending .leaving (state :: seen) stand state terminate cancelled exited := by
  cases h
  constructor <;> grind -linarith

theorem exit (h : Ending .leaving seen stand state terminate cancelled exited) :
    Ending .gone seen stand state terminate cancelled true := by
  cases h
  constructor <;> grind -linarith

/-- The control thread moves on, other than into a shutdown. -/
theorem stands {stand' : Stand} (h : Ending place seen stand state terminate cancelled exited)
    (hs : stand ≠ .shutting) (hs' : stand' ≠ .shutting)
    (hr : stand'.requesting → stand.requesting ∨ terminate = false) :
    Ending place seen stand' state terminate cancelled exited := by
  cases h
  constructor <;> grind -linarith

/-- A run is announced by the control thread, and the worker is in its loop or gone. -/
theorem announce (h : Ending place seen stand state terminate cancelled exited)
    (hs : stand ≠ .shutting) : Ending place seen stand s terminate cancelled exited := by
  cases h
  constructor <;> grind -linarith

theorem shut (h : Ending place seen stand state terminate cancelled exited) :
    Ending place seen .shutting state true cancelled exited := by
  cases h
  constructor <;> grind -linarith

theorem cancel (h : Ending place seen .shutting state terminate cancelled exited) :
    Ending place seen .shutting state terminate true exited := by
  cases h
  constructor <;> grind -linarith

theorem join (h : Ending place seen .shutting state terminate cancelled true) :
    Ending place seen .idle state terminate cancelled true := by
  cases h
  constructor <;> grind -linarith

end Ending

end SoftPC.Machine
