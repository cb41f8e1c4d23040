import Mathlib.Data.List.Basic

/-!
# Machinery/Transitions — keys going down and up in a log of events

Some events of a log are transitions: a key goes down (`true`) or up (`false`).  `last` is a key's
last transition, `down` says that it was a make, and `mark` labels every event with whether it is a
make of a key that is already down — a typematic repeat.
-/

namespace SoftPC.Transitions

variable {ε κ : Type*} [DecidableEq κ] (tr : ε → Option (κ × Bool))

/-- The last transition of a key. -/
def last (log : List ε) (k : κ) : Option Bool :=
  log.foldl (fun before e =>
    match tr e with
    | some (i, pressed) => if i = k then some pressed else before
    | none => before) none

/-- The key is down: its last transition is a make. -/
def down (log : List ε) (k : κ) : Bool := last tr log k == some true

variable {tr} {e : ε}

theorem last_append_of_none (h : tr e = none) (log : List ε) (k : κ) :
    last tr (log ++ [e]) k = last tr log k := by
  simp [last, h]

theorem last_append_of_some {i : κ} {pressed : Bool} (h : tr e = some (i, pressed))
    (log : List ε) (k : κ) :
    last tr (log ++ [e]) k = if i = k then some pressed else last tr log k := by
  simp [last, h]

theorem down_append_of_none (h : tr e = none) (log : List ε) (k : κ) :
    down tr (log ++ [e]) k = down tr log k := by
  rw [down, last_append_of_none h, down]

theorem down_append_of_some {i : κ} {pressed : Bool} (h : tr e = some (i, pressed))
    (log : List ε) (k : κ) :
    down tr (log ++ [e]) k = if i = k then pressed else down tr log k := by
  rw [down, last_append_of_some h]
  by_cases hk : i = k
  · cases pressed <;> simp [hk]
  · simp [hk, down]

variable (tr)

@[simp] theorem down_nil (k : κ) : down tr [] k = false := rfl

/-- Events that are no transition of a key leave it as it was. -/
theorem down_append_of_forall (log es : List ε) (k : κ)
    (h : ∀ e ∈ es, ∀ pressed, tr e ≠ some (k, pressed)) :
    down tr (log ++ es) k = down tr log k := by
  induction es generalizing log with
  | nil => simp
  | cons e es ih =>
    rw [← List.singleton_append, ← List.append_assoc, ih _ fun e' h' => h e' (.tail _ h')]
    cases ht : tr e with
    | none => exact down_append_of_none ht log k
    | some t =>
      have hne : t.1 ≠ k := fun hk => h e List.mem_cons_self t.2 (by rw [ht, ← hk])
      rw [down_append_of_some ht, if_neg hne]

/-- A key that is down stays down while it is not broken. -/
theorem down_append_of_no_break (log es : List ε) (k : κ) (hdown : down tr log k = true)
    (h : ∀ e ∈ es, tr e ≠ some (k, false)) : down tr (log ++ es) k = true := by
  induction es generalizing log with
  | nil => simpa using hdown
  | cons e es ih =>
    rw [← List.singleton_append, ← List.append_assoc]
    refine ih _ ?_ fun e' h' => h e' (.tail _ h')
    cases ht : tr e with
    | none => rwa [down_append_of_none ht]
    | some t =>
      rw [down_append_of_some ht]
      split
      · rename_i hk
        cases hp : t.2 with
        | true => rfl
        | false => exact absurd (by rw [ht, ← hk, ← hp]) (h e List.mem_cons_self)
      · exact hdown

/-- A make of a key that is already down. -/
def isRepeat (log : List ε) (e : ε) : Bool :=
  match tr e with
  | some (k, true) => down tr log k
  | _ => false

/-- The events of a log, from `before` on, each with whether it is a repeat. -/
def markFrom (before : List ε) : List ε → List (ε × Bool)
  | [] => []
  | e :: es => (e, isRepeat tr before e) :: markFrom (before ++ [e]) es

/-- The events of a log, each with whether it is a repeat. -/
def mark (log : List ε) : List (ε × Bool) := markFrom tr [] log

theorem markFrom_append (before es fs : List ε) :
    markFrom tr before (es ++ fs) = markFrom tr before es ++ markFrom tr (before ++ es) fs := by
  induction es generalizing before with
  | nil => simp [markFrom]
  | cons e es ih => simp [markFrom, ih]

theorem mark_append (log es : List ε) : mark tr (log ++ es) = mark tr log ++ markFrom tr log es := by
  simp [mark, markFrom_append]

theorem mark_append_singleton (log : List ε) (e : ε) :
    mark tr (log ++ [e]) = mark tr log ++ [(e, isRepeat tr log e)] := by
  rw [mark_append, markFrom, markFrom]

end SoftPC.Transitions
