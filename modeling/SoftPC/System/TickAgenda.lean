import SoftPC.System.QuickEv
import Mathlib.Data.List.Sort
import Mathlib.Data.List.Pairwise

/-!
# System/TickAgenda — what a list of tick events is for

The tick list as a device sees it: events with the ticks they are due at, and the trace of adds,
deletes and calls.  `Sound` ties the two together, and is kept by the five things that can happen to an
agenda: an add, a delete, the call of the first event when it is due, a tick, and anything that is not
about tick events.  `Sound.honoured` reads the module's contract off it.
-/

open scoped List

namespace SoftPC.QuickEv

variable {φ : Type*}

/-- **The contract of the tick list**, on what was seen up to tick `now`; `idle` says that no dispatch
is in progress. -/
structure Honoured (now : ℕ) (idle : Prop) (trace : List (ℕ × Obs φ)) : Prop where
  /-- The events are numbered in the order they were added. -/
  numbered : ∀ t t' tk tk' d d', tk.eventType = .tick → tk'.eventType = .tick →
    [(t, .added tk d), (t', .added tk' d')] <+ trace → tk.node < tk'.node
  /-- Only an event that was added is called, with the function and parameter it was added with. -/
  added : ∀ s tk, tk.eventType = .tick → (s, .called tk) ∈ trace →
    ∃ t d, [(t, .added tk d), (s, .called tk)] <+ trace
  /-- It is called at its tick. -/
  onTime : ∀ t s tk d, tk.eventType = .tick → (t, .added tk d) ∈ trace → (s, .called tk) ∈ trace →
    s = t + d.toNat
  /-- It is called at most once. -/
  once : ∀ s s' tk tk', tk.eventType = .tick → tk'.eventType = .tick →
    [(s, .called tk), (s', .called tk')] <+ trace → tk.node ≠ tk'.node
  /-- When its tick is over it has been called, unless a delete was given its handle. -/
  fired : ∀ t tk d, tk.eventType = .tick → (t, .added tk d) ∈ trace →
    (t + d.toNat < now ∨ t + d.toNat = now ∧ idle) →
    (t + d.toNat, .called tk) ∈ trace ∨
      ∃ t', [(t, .added tk d), (t', .deleted .tick tk.handle)] <+ trace
  /-- A deleted event is never called. -/
  deleted : ∀ t t' s tk d, tk.eventType = .tick →
    ¬[(t, .added tk d), (t', .deleted .tick tk.handle), (s, .called tk)] <+ trace
  /-- Events of one tick are called in the order they were added. -/
  order : ∀ s tk tk', tk.eventType = .tick → tk'.eventType = .tick →
    [(s, .called tk), (s, .called tk')] <+ trace → tk.node < tk'.node
  /-- Nothing done to the tick list dispatches the quick list. -/
  quiet : ∀ s, (s, .dispatched .tick .quick) ∉ trace

/-- The last item of a list is the last of a sublist, or not in it. -/
theorem concat_sublist_concat {α : Type*} {s l : List α} {b x : α} :
    s ++ [b] <+ l ++ [x] ↔ s ++ [b] <+ l ∨ s <+ l ∧ b = x := by
  constructor
  · intro h
    obtain ⟨l₁, l₂, he, h₁, h₂⟩ := List.sublist_append_iff.1 h
    rcases List.sublist_singleton.1 h₂ with rfl | rfl
    · exact .inl (by simpa [he] using h₁)
    · obtain ⟨rfl, hb⟩ := List.append_inj' he rfl
      exact .inr ⟨h₁, by simpa using hb⟩
  · rintro (h | ⟨h, rfl⟩)
    · exact h.trans (List.sublist_append_left _ _)
    · exact h.append (.refl _)

theorem pair_sublist_concat {α : Type*} {l : List α} {a b x : α} :
    [a, b] <+ l ++ [x] ↔ [a, b] <+ l ∨ a ∈ l ∧ b = x := by
  simpa using concat_sublist_concat (s := [a]) (b := b) (l := l) (x := x)

theorem triple_sublist_concat {α : Type*} {l : List α} {a b c x : α} :
    [a, b, c] <+ l ++ [x] ↔ [a, b, c] <+ l ∨ [a, b] <+ l ∧ c = x := by
  simpa using concat_sublist_concat (s := [a, b]) (b := c) (l := l) (x := x)

/-- What is in a longer list, and is not the last, was in the list. -/
theorem mem_of_concat {α : Type*} {l : List α} {a x : α} (h : a ∈ l ++ [x]) (hne : a ≠ x) : a ∈ l :=
  (List.mem_append.mp h).resolve_right fun h => hne (List.mem_singleton.mp h)

theorem pair_of_concat {α : Type*} {l : List α} {a b x : α} (h : [a, b] <+ l ++ [x]) (hne : b ≠ x) :
    [a, b] <+ l :=
  (pair_sublist_concat.1 h).resolve_right fun h => hne h.2

theorem triple_of_concat {α : Type*} {l : List α} {a b c x : α} (h : [a, b, c] <+ l ++ [x])
    (hne : c ≠ x) : [a, b, c] <+ l :=
  (triple_sublist_concat.1 h).resolve_right fun h => hne h.2

theorem sublist_concat {α : Type*} {l s : List α} {x : α} (h : s <+ l) : s <+ l ++ [x] :=
  h.trans (List.sublist_append_left _ _)

/-- The order of the calls: by tick, then by number. -/
def Earlier (x y : Ticket φ × ℕ) : Prop := x.2 < y.2 ∨ x.2 = y.2 ∧ x.1.node < y.1.node

theorem earlier_insert {l : List (Ticket φ × ℕ)} {n : Ticket φ × ℕ} (hl : l.Pairwise Earlier)
    (hn : ∀ x ∈ l, x.1.node < n.1.node) :
    (l.orderedInsert (fun x y => x.2 < y.2) n).Pairwise Earlier := by
  induction l with
  | nil => simp
  | cons x l ih =>
    have ⟨hx, hl'⟩ := List.pairwise_cons.1 hl
    rw [List.orderedInsert_cons]
    split
    next hlt =>
      refine .cons ?_ hl
      rintro y (_ | ⟨_, hy⟩)
      · exact .inl hlt
      · exact .inl (hlt.trans_le (by have := hx y hy; unfold Earlier at this; omega))
    next hge =>
      refine .cons ?_ (ih hl' fun y hy => hn y (.tail _ hy))
      intro y hy
      rcases (List.mem_orderedInsert _).1 hy with rfl | hy
      · have := hn x (.head _)
        unfold Earlier
        omega
      · exact hx y hy

/-- The events not yet called or deleted, in the order they will be called, each with its tick. -/
structure Agenda (φ : Type*) where
  now : ℕ
  issued : ℕ
  due : List (Ticket φ × ℕ)
  trace : List (ℕ × Obs φ)

namespace Agenda

/-- What the trace says of the events. -/
structure Sound (a : Agenda φ) : Prop where
  sorted : a.due.Pairwise Earlier
  stamps : ∀ o ∈ a.trace, o.1 ≤ a.now
  kinds : ∀ x ∈ a.due, x.1.eventType = .tick
  issued_lt : ∀ t tk d, tk.eventType = .tick → (t, .added tk d) ∈ a.trace → tk.node < a.issued
  numbered : ∀ t t' tk tk' d d', tk.eventType = .tick → tk'.eventType = .tick →
    [(t, .added tk d), (t', .added tk' d')] <+ a.trace → tk.node < tk'.node
  present : ∀ x ∈ a.due, ∃ t d, (t, .added x.1 d) ∈ a.trace
  promised : ∀ x ∈ a.due, ∀ t tk d, tk.eventType = .tick → (t, .added tk d) ∈ a.trace →
    tk.node = x.1.node → tk = x.1 ∧ x.2 = t + d.toNat ∧
      ∀ t', ¬[(t, .added tk d), (t', .deleted .tick tk.handle)] <+ a.trace
  settled : ∀ t tk d, tk.eventType = .tick → (t, .added tk d) ∈ a.trace →
    (tk, t + d.toNat) ∈ a.due ∨ (t + d.toNat, .called tk) ∈ a.trace ∨
      ∃ t', [(t, .added tk d), (t', .deleted .tick tk.handle)] <+ a.trace
  called : ∀ s tk, tk.eventType = .tick → (s, .called tk) ∈ a.trace →
    (∀ x ∈ a.due, tk.node ≠ x.1.node) ∧ ∃ t d, [(t, .added tk d), (s, .called tk)] <+ a.trace
  onTime : ∀ t s tk d, tk.eventType = .tick → (t, .added tk d) ∈ a.trace →
    (s, .called tk) ∈ a.trace → s = t + d.toNat
  once : ∀ s s' tk tk', tk.eventType = .tick → tk'.eventType = .tick →
    [(s, .called tk), (s', .called tk')] <+ a.trace → tk.node ≠ tk'.node
  deleted : ∀ t t' s tk d, tk.eventType = .tick →
    ¬[(t, .added tk d), (t', .deleted .tick tk.handle), (s, .called tk)] <+ a.trace
  order : ∀ s tk tk', tk.eventType = .tick → tk'.eventType = .tick →
    [(s, .called tk), (s, .called tk')] <+ a.trace → tk.node < tk'.node
  first : ∀ x ∈ a.due, ∀ tk, tk.eventType = .tick → x.2 = a.now → (a.now, .called tk) ∈ a.trace →
    tk.node < x.1.node

/-- The observation is not about a tick event. -/
def Aside : Obs φ → Prop
  | .added tk _ => tk.eventType ≠ .tick
  | .called tk => tk.eventType ≠ .tick
  | .deleted w _ => w ≠ .tick
  | _ => True

theorem init : Sound ({ now := 0, issued := 0, due := [], trace := [] } : Agenda φ) := by
  constructor <;> simp

namespace Sound

variable {a : Agenda φ} (h : a.Sound)

include h

theorem stamps_concat (o : Obs φ) : ∀ x ∈ a.trace ++ [(a.now, o)], x.1 ≤ a.now := by
  intro x hx
  rcases List.mem_append.mp hx with hx | hx
  · exact h.stamps x hx
  · exact le_of_eq (by rw [List.mem_singleton.mp hx])

/-- Something else happens. -/
theorem note {o : Obs φ} (ho : Aside o) : Sound { a with trace := a.trace ++ [(a.now, o)] } := by
  have hadd : ∀ t tk d, tk.eventType = .tick → (t, Obs.added tk d) ≠ (a.now, o) := by
    rintro t tk d hk he
    cases he
    exact ho hk
  have hcall : ∀ t tk, tk.eventType = .tick → (t, Obs.called tk) ≠ (a.now, o) := by
    rintro t tk hk he
    cases he
    exact ho hk
  have hdel : ∀ t k, (t, Obs.deleted .tick k) ≠ (a.now, o) := by
    rintro t k he
    cases he
    exact ho rfl
  have hstep {s : List (ℕ × Obs φ)} : s <+ a.trace → s <+ a.trace ++ [(a.now, o)] := sublist_concat
  exact {
    sorted := h.sorted
    kinds := h.kinds
    first := fun x hx tk hk he hm => h.first x hx tk hk he (mem_of_concat hm (hcall _ _ hk))
    stamps := h.stamps_concat o
    issued_lt := fun t tk d hk hm => h.issued_lt t tk d hk (mem_of_concat hm (hadd _ _ _ hk))
    numbered := fun _ _ _ _ _ _ hk hk' hs =>
      h.numbered _ _ _ _ _ _ hk hk' (pair_of_concat hs (hadd _ _ _ hk'))
    present := fun x hx => by
      obtain ⟨t, d, ht⟩ := h.present x hx
      exact ⟨t, d, List.mem_append_left _ ht⟩
    promised := fun x hx t tk d hk hm hn => by
      obtain ⟨heq, hdue, hnot⟩ := h.promised x hx t tk d hk (mem_of_concat hm (hadd _ _ _ hk)) hn
      exact ⟨heq, hdue, fun t' hs => hnot t' (pair_of_concat hs (hdel _ _))⟩
    settled := fun t tk d hk hm => by
      rcases h.settled t tk d hk (mem_of_concat hm (hadd _ _ _ hk)) with hx | hx | ⟨t', hx⟩
      · exact .inl hx
      · exact .inr (.inl (List.mem_append_left _ hx))
      · exact .inr (.inr ⟨t', hstep hx⟩)
    called := fun s tk hk hm => by
      obtain ⟨hne, t, d, hs⟩ := h.called s tk hk (mem_of_concat hm (hcall _ _ hk))
      exact ⟨hne, t, d, hstep hs⟩
    onTime := fun t s tk d hk ha hc => h.onTime t s tk d hk (mem_of_concat ha (hadd _ _ _ hk))
      (mem_of_concat hc (hcall _ _ hk))
    once := fun s s' tk tk' hk hk' hs =>
      h.once s s' tk tk' hk hk' (pair_of_concat hs (hcall _ _ hk'))
    deleted := fun t t' s tk d hk hs => h.deleted t t' s tk d hk (triple_of_concat hs (hcall _ _ hk))
    order := fun s tk tk' hk hk' hs =>
      h.order s tk tk' hk hk' (pair_of_concat hs (hcall _ _ hk')) }

/-- A tick passes. -/
theorem tick : Sound { a with now := a.now + 1 } where
  __ := h
  stamps o ho := (h.stamps o ho).trans (Nat.le_succ _)
  first _ _ _ _ _ hc := absurd (h.stamps _ hc) (by simp)

/-- The first event is called, at its tick. -/
theorem call {x : Ticket φ × ℕ} {due : List (Ticket φ × ℕ)} (hdue : a.due = x :: due)
    (hx : x.2 = a.now) :
    Sound { a with due := due, trace := a.trace ++ [(a.now, .called x.1)] } := by
  have hmem : ∀ y, y ∈ a.due ↔ y = x ∨ y ∈ due := by simp [hdue]
  have hkx := h.kinds x (by simp [hmem])
  have hsorted := h.sorted
  rw [hdue, List.pairwise_cons] at hsorted
  obtain ⟨t₀, d₀, hadd⟩ := h.present x (by simp [hmem])
  -- The nodes of the rest are others, those of its tick later ones.
  have hnode : ∀ y ∈ due, x.1.node ≠ y.1.node := by
    intro y hy he
    have := (h.promised y (by simp [hmem, hy]) t₀ x.1 d₀ hkx hadd he).2.1
    have := (h.promised x (by simp [hmem]) t₀ x.1 d₀ hkx hadd rfl).2.1
    have hxy := hsorted.1 y hy
    unfold Earlier at hxy
    omega
  have hlater : ∀ y ∈ due, y.2 = a.now → x.1.node < y.1.node := by
    intro y hy he
    have hxy := hsorted.1 y hy
    unfold Earlier at hxy
    omega
  exact {
    sorted := hsorted.2
    kinds := fun y hy => h.kinds y ((hmem y).mpr (.inr hy))
    stamps := h.stamps_concat _
    issued_lt := fun t tk d hk hm => h.issued_lt t tk d hk (mem_of_concat hm (by simp))
    numbered := fun _ _ _ _ _ _ hk hk' hs =>
      h.numbered _ _ _ _ _ _ hk hk' (pair_of_concat hs (by simp))
    present := fun y hy => by
      obtain ⟨t, d, ht⟩ := h.present y ((hmem y).mpr (.inr hy))
      exact ⟨t, d, List.mem_append_left _ ht⟩
    promised := fun y hy t tk d hk hm hn => by
      obtain ⟨heq, hd, hnot⟩ :=
        h.promised y ((hmem y).mpr (.inr hy)) t tk d hk (mem_of_concat hm (by simp)) hn
      exact ⟨heq, hd, fun t' hs => hnot t' (pair_of_concat hs (by simp))⟩
    settled := fun t tk d hk hm => by
      rcases h.settled t tk d hk (mem_of_concat hm (by simp)) with hy | hc | ⟨t', hs⟩
      · rcases (hmem _).mp hy with heq | hy
        · refine .inr (.inl (List.mem_append_right _ (List.mem_singleton.mpr ?_)))
          rw [← hx, ← heq]
        · exact .inl hy
      · exact .inr (.inl (List.mem_append_left _ hc))
      · exact .inr (.inr ⟨t', sublist_concat hs⟩)
    called := fun s tk hk hm => by
      rcases List.mem_append.mp hm with hm | hm
      · obtain ⟨hne, t, d, hs⟩ := h.called s tk hk hm
        exact ⟨fun y hy => hne y ((hmem y).mpr (.inr hy)), t, d, sublist_concat hs⟩
      · cases List.mem_singleton.mp hm
        exact ⟨hnode, t₀, d₀, pair_sublist_concat.2 (.inr ⟨hadd, rfl⟩)⟩
    onTime := fun t s tk d hk ha hc => by
      have ha' := mem_of_concat ha (by simp)
      rcases List.mem_append.mp hc with hc | hc
      · exact h.onTime t s tk d hk ha' hc
      · cases List.mem_singleton.mp hc
        rw [← hx, (h.promised x ((hmem x).mpr (.inl rfl)) t x.1 d hk ha' rfl).2.1]
    once := fun s s' tk tk' hk hk' hs => by
      rcases pair_sublist_concat.1 hs with hs | ⟨hm, heq⟩
      · exact h.once s s' tk tk' hk hk' hs
      · cases heq
        exact (h.called s tk hk hm).1 x ((hmem x).mpr (.inl rfl))
    deleted := fun t t' s tk d hk hs => by
      rcases triple_sublist_concat.1 hs with hs | ⟨hp, heq⟩
      · exact h.deleted t t' s tk d hk hs
      · cases heq
        have hm : (t, Obs.added x.1 d) ∈ a.trace := hp.subset (by simp)
        exact (h.promised x ((hmem x).mpr (.inl rfl)) t x.1 d hk hm rfl).2.2 t' hp
    order := fun s tk tk' hk hk' hs => by
      rcases pair_sublist_concat.1 hs with hs | ⟨hm, heq⟩
      · exact h.order s tk tk' hk hk' hs
      · cases heq
        exact h.first x ((hmem x).mpr (.inl rfl)) tk hk hx hm
    first := fun y hy tk hk he hm => by
      rcases List.mem_append.mp hm with hm | hm
      · exact h.first y ((hmem y).mpr (.inr hy)) tk hk he hm
      · cases List.mem_singleton.mp hm
        exact hlater y hy he }

/-- The event of a handle is deleted. -/
theorem delete {k : ℤ} {due : List (Ticket φ × ℕ)} (hsub : due <+ a.due)
    (hmem : ∀ x, x ∈ due ↔ x ∈ a.due ∧ x.1.handle ≠ k) :
    Sound { a with due := due, trace := a.trace ++ [(a.now, .deleted .tick k)] } := by
  exact {
    sorted := h.sorted.sublist hsub
    kinds := fun y hy => h.kinds y ((hmem y).mp hy).1
    stamps := h.stamps_concat _
    issued_lt := fun t tk d hk hm => h.issued_lt t tk d hk (mem_of_concat hm (by simp))
    numbered := fun _ _ _ _ _ _ hk hk' hs =>
      h.numbered _ _ _ _ _ _ hk hk' (pair_of_concat hs (by simp))
    present := fun y hy => by
      obtain ⟨t, d, ht⟩ := h.present y ((hmem y).mp hy).1
      exact ⟨t, d, List.mem_append_left _ ht⟩
    promised := fun y hy t tk d hk hm hn => by
      obtain ⟨hy, hk'⟩ := (hmem y).mp hy
      obtain ⟨heq, hd, hnot⟩ := h.promised y hy t tk d hk (mem_of_concat hm (by simp)) hn
      refine ⟨heq, hd, fun t' hs => ?_⟩
      rcases pair_sublist_concat.1 hs with hs | ⟨-, hlast⟩
      · exact hnot t' hs
      · cases hlast
        exact hk' (by rw [heq])
    settled := fun t tk d hk hm => by
      have hm' := mem_of_concat hm (by simp)
      rcases h.settled t tk d hk hm' with hy | hc | ⟨t', hs⟩
      · by_cases hk' : tk.handle = k
        · exact .inr (.inr ⟨a.now, pair_sublist_concat.2 (.inr ⟨hm', by rw [hk']⟩)⟩)
        · exact .inl ((hmem _).mpr ⟨hy, hk'⟩)
      · exact .inr (.inl (List.mem_append_left _ hc))
      · exact .inr (.inr ⟨t', sublist_concat hs⟩)
    called := fun s tk hk hm => by
      obtain ⟨hne, t, d, hs⟩ := h.called s tk hk (mem_of_concat hm (by simp))
      exact ⟨fun y hy => hne y ((hmem y).mp hy).1, t, d, sublist_concat hs⟩
    onTime := fun t s tk d hk ha hc =>
      h.onTime t s tk d hk (mem_of_concat ha (by simp)) (mem_of_concat hc (by simp))
    once := fun s s' tk tk' hk hk' hs => h.once s s' tk tk' hk hk' (pair_of_concat hs (by simp))
    deleted := fun t t' s tk d hk hs => h.deleted t t' s tk d hk (triple_of_concat hs (by simp))
    order := fun s tk tk' hk hk' hs => h.order s tk tk' hk hk' (pair_of_concat hs (by simp))
    first := fun y hy tk hk he hm =>
      h.first y ((hmem y).mp hy).1 tk hk he (mem_of_concat hm (by simp)) }

/-- A new event is added behind those that are not due later. -/
theorem add (tk : Ticket φ) (d : BitVec 32) (hkind : tk.eventType = .tick)
    (hnode : tk.node = a.issued) :
    Sound { a with
      issued := a.issued + 1
      due := a.due.orderedInsert (fun x y => x.2 < y.2) (tk, a.now + d.toNat)
      trace := a.trace ++ [(a.now, .added tk d)] } := by
  have hlt : ∀ x ∈ a.due, x.1.node < a.issued := by
    intro x hx
    obtain ⟨t, e, ht⟩ := h.present x hx
    exact h.issued_lt t x.1 e (h.kinds x hx) ht
  have hcalled : ∀ s tk', tk'.eventType = .tick → (s, Obs.called tk') ∈ a.trace →
      tk'.node < a.issued := by
    intro s tk' hk hm
    obtain ⟨-, t, e, hs⟩ := h.called s tk' hk hm
    exact h.issued_lt t tk' e hk (hs.subset (by simp))
  exact {
    sorted := earlier_insert h.sorted fun x hx => hnode ▸ hlt x hx
    kinds := by
      intro x hx
      rcases (List.mem_orderedInsert _).mp hx with rfl | hx
      · exact hkind
      · exact h.kinds x hx
    stamps := h.stamps_concat _
    issued_lt := fun t tk' e hk hm => by
      rcases List.mem_append.mp hm with hm | hm
      · exact Nat.lt_succ_of_lt (h.issued_lt t tk' e hk hm)
      · cases List.mem_singleton.mp hm
        exact hnode ▸ Nat.lt_succ_self _
    numbered := fun t t' tk₁ tk₂ e e' hk hk' hs => by
      rcases pair_sublist_concat.1 hs with hs | ⟨hm, heq⟩
      · exact h.numbered t t' tk₁ tk₂ e e' hk hk' hs
      · cases heq
        exact hnode ▸ h.issued_lt t tk₁ e hk hm
    present := fun x hx => by
      rcases (List.mem_orderedInsert _).mp hx with rfl | hx
      · exact ⟨a.now, d, List.mem_append_right _ (List.mem_singleton.mpr rfl)⟩
      · obtain ⟨t, e, ht⟩ := h.present x hx
        exact ⟨t, e, List.mem_append_left _ ht⟩
    promised := fun x hx t tk' e hk hm hn => by
      rcases (List.mem_orderedInsert _).mp hx with rfl | hx
      · rcases List.mem_append.mp hm with hm | hm
        · exact absurd (h.issued_lt t tk' e hk hm) (by rw [hn, hnode]; exact lt_irrefl _)
        · cases List.mem_singleton.mp hm
          refine ⟨rfl, rfl, fun t' hs => ?_⟩
          have hold := pair_of_concat hs (by simp)
          exact absurd (h.issued_lt a.now tk d hk (hold.subset (by simp)))
            (by rw [hnode]; exact lt_irrefl _)
      · rcases List.mem_append.mp hm with hm | hm
        · obtain ⟨heq, hdue, hnot⟩ := h.promised x hx t tk' e hk hm hn
          exact ⟨heq, hdue, fun t' hs => hnot t' (pair_of_concat hs (by simp))⟩
        · cases List.mem_singleton.mp hm
          exact absurd (hlt x hx) (by rw [← hn, hnode]; exact lt_irrefl _)
    settled := fun t tk' e hk hm => by
      rcases List.mem_append.mp hm with hm | hm
      · rcases h.settled t tk' e hk hm with hx | hx | ⟨t', hx⟩
        · exact .inl ((List.mem_orderedInsert _).mpr (.inr hx))
        · exact .inr (.inl (List.mem_append_left _ hx))
        · exact .inr (.inr ⟨t', sublist_concat hx⟩)
      · cases List.mem_singleton.mp hm
        exact .inl ((List.mem_orderedInsert _).mpr (.inl rfl))
    called := fun s tk' hk hm => by
      have hm' := mem_of_concat hm (by simp)
      obtain ⟨hne, t, e, hs⟩ := h.called s tk' hk hm'
      refine ⟨fun x hx => ?_, t, e, sublist_concat hs⟩
      rcases (List.mem_orderedInsert _).mp hx with rfl | hx
      · exact ne_of_lt (hnode ▸ hcalled s tk' hk hm')
      · exact hne x hx
    onTime := fun t s tk' e hk ha hc => by
      have hc' := mem_of_concat hc (by simp)
      rcases List.mem_append.mp ha with ha | ha
      · exact h.onTime t s tk' e hk ha hc'
      · cases List.mem_singleton.mp ha
        exact absurd (hcalled s tk hk hc') (by rw [hnode]; exact lt_irrefl _)
    once := fun s s' tk₁ tk₂ hk hk' hs => h.once s s' tk₁ tk₂ hk hk' (pair_of_concat hs (by simp))
    deleted := fun t t' s tk' e hk hs => h.deleted t t' s tk' e hk (triple_of_concat hs (by simp))
    order := fun s tk₁ tk₂ hk hk' hs => h.order s tk₁ tk₂ hk hk' (pair_of_concat hs (by simp))
    first := fun x hx tk' hk he hm => by
      have hm' := mem_of_concat hm (by simp)
      rcases (List.mem_orderedInsert _).mp hx with rfl | hx
      · exact hnode ▸ hcalled _ tk' hk hm'
      · exact h.first x hx tk' hk he hm' }

/-- **A sound agenda honours the contract.** -/
theorem honoured {idle : Prop} (hnow : ∀ x ∈ a.due, a.now ≤ x.2)
    (hidle : idle → ∀ x ∈ a.due, a.now < x.2)
    (hquiet : ∀ s, (s, .dispatched .tick .quick) ∉ a.trace) : Honoured a.now idle a.trace where
  numbered := h.numbered
  added s tk hk hc := (h.called s tk hk hc).2
  onTime := h.onTime
  once := h.once
  fired t tk d hk ha hover := by
    rcases h.settled t tk d hk ha with hx | hx
    · rcases hover with hlt | ⟨he, hi⟩
      · exact absurd (hnow _ hx) (not_le.2 hlt)
      · exact absurd (hidle hi _ hx) (by simp [he])
    · exact hx
  deleted := h.deleted
  order := h.order
  quiet := hquiet

end Sound

end Agenda

end SoftPC.QuickEv
