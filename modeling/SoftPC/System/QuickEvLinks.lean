import SoftPC.System.QuickEv
import SoftPC.Machinery.Outcome
import Mathlib.Data.List.Pairwise

/-!
# System/QuickEvLinks — the hash chains and the time order hold the same nodes

Every operation keeps `Linked`: a node is on the time-ordered list iff it is on the chain of its
handle, and no two nodes have one handle.  The handles come round after `65534` of them, so this
needs what `Fresh` says of each issue; without the links no delete finds what it is given.
-/

namespace SoftPC.QuickEv

variable {φ : Type*}

/-- The chains hold the nodes of a list, and no handle twice. -/
structure Linked (ts : List (Ticket φ)) (table : Fin 16 → List (Ticket φ)) : Prop where
  mem_table : ∀ {b t}, t ∈ table b ↔ t ∈ ts ∧ bucket t.handle = b
  chain : ∀ b, (table b).Pairwise fun t t' => t.handle ≠ t'.handle
  handles : ts.Pairwise fun t t' => t.handle ≠ t'.handle

/-- Where a label is on one item only, erasing its first takes out that item. -/
theorem mem_eraseP_of_pairwise {α β : Type*} [DecidableEq β] {f : α → β} {b : β} {l : List α}
    (hl : l.Pairwise fun x y => f x ≠ f y) {x : α} :
    x ∈ l.eraseP (fun x => f x = b) ↔ x ∈ l ∧ f x ≠ b := by
  induction l with
  | nil => simp
  | cons a l ih =>
    rw [List.pairwise_cons] at hl
    by_cases ha : f a = b
    · rw [List.eraseP_cons_of_pos (by simpa using ha), List.mem_cons]
      grind -linarith
    · rw [List.eraseP_cons_of_neg (by simpa using ha), List.mem_cons, List.mem_cons, ih hl.2]
      grind -linarith

namespace Linked

variable {ts ts' : List (Ticket φ)} {table : Fin 16 → List (Ticket φ)} {t t' : Ticket φ} {h : ℤ}

theorem empty : Linked ([] : List (Ticket φ)) fun _ => [] where
  mem_table := by simp
  chain _ := .nil
  handles := .nil

theorem perm (hp : ts.Perm ts') (hl : Linked ts table) : Linked ts' table where
  mem_table := by simp [hl.mem_table, hp.mem_iff]
  chain := hl.chain
  handles := (hp.pairwise_iff fun h => h.symm).1 hl.handles

/-- Two nodes of one handle are one. -/
theorem eq_of_handle (hl : Linked ts table) (ht : t ∈ ts) (ht' : t' ∈ ts)
    (h : t.handle = t'.handle) : t = t' := by
  by_contra hne
  have : Std.Symm fun t t' : Ticket φ => t.handle ≠ t'.handle := ⟨fun _ _ h => h.symm⟩
  exact hl.handles.forall ht ht' hne h

theorem any_iff (hl : Linked ts table) :
    ((table (bucket h)).any fun t => t.handle = h) = true ↔ ∃ t ∈ ts, t.handle = h := by
  simp only [List.any_eq_true, decide_eq_true_eq]
  constructor
  · rintro ⟨t, ht, rfl⟩
    exact ⟨t, (hl.mem_table.1 ht).1, rfl⟩
  · rintro ⟨t, ht, rfl⟩
    exact ⟨t, hl.mem_table.2 ⟨ht, rfl⟩, rfl⟩

/-- The chain of a handle finds its node. -/
theorem find_iff (hl : Linked ts table) :
    (table (bucket h)).find? (fun t => t.handle = h) = some t ↔ t ∈ ts ∧ t.handle = h := by
  constructor
  · intro hf
    have hh : t.handle = h := by simpa using List.find?_some hf
    exact ⟨(hl.mem_table.1 (List.mem_of_find?_eq_some hf)).1, hh⟩
  · rintro ⟨ht, rfl⟩
    obtain ⟨t', hf⟩ : ∃ t', (table (bucket t.handle)).find? (fun t' => t'.handle = t.handle) = some t' := by
      rw [← Option.isSome_iff_exists, List.find?_isSome]
      exact ⟨t, hl.mem_table.2 ⟨ht, rfl⟩, by simp⟩
    have hh : t'.handle = t.handle := by simpa using List.find?_some hf
    rw [hf, hl.eq_of_handle (hl.mem_table.1 (List.mem_of_find?_eq_some hf)).1 ht hh]

/-- A node with a new handle, at the end of its chain. -/
theorem cons (hl : Linked ts table) (hnew : ∀ t' ∈ ts, t'.handle ≠ t.handle) :
    Linked (t :: ts)
      (Function.update table (bucket t.handle) (table (bucket t.handle) ++ [t])) where
  mem_table := by
    intro b t'
    by_cases hb : b = bucket t.handle
    · subst hb
      simp only [Function.update_self, List.mem_append, hl.mem_table, List.mem_cons]
      grind -linarith
    · rw [Function.update_of_ne hb, hl.mem_table, List.mem_cons]
      grind -linarith
  chain := by
    intro b
    by_cases hb : b = bucket t.handle
    · subst hb
      rw [Function.update_self, List.pairwise_append]
      refine ⟨hl.chain _, .cons (by simp) .nil, ?_⟩
      intro x hx y hy
      rw [List.mem_singleton.1 hy]
      exact hnew x (hl.mem_table.1 hx).1
    · rw [Function.update_of_ne hb]
      exact hl.chain b
  handles := .cons (fun t' ht' => (hnew t' ht').symm) hl.handles

/-- A node taken off its chain. -/
theorem erase (hl : Linked (t :: ts) table) :
    Linked ts (Function.update table (bucket t.handle)
      ((table (bucket t.handle)).eraseP fun t' => t'.handle = t.handle)) where
  mem_table := by
    intro b t'
    have hne : ∀ t' ∈ ts, t.handle ≠ t'.handle := (List.pairwise_cons.1 hl.handles).1
    by_cases hb : b = bucket t.handle
    · subst hb
      rw [Function.update_self]
      rw [mem_eraseP_of_pairwise (hl.chain _), hl.mem_table, List.mem_cons]
      grind -linarith
    · rw [Function.update_of_ne hb, hl.mem_table, List.mem_cons]
      grind -linarith
  chain := by
    intro b
    by_cases hb : b = bucket t.handle
    · subst hb
      rw [Function.update_self]
      exact (hl.chain _).sublist List.eraseP_sublist
    · rw [Function.update_of_ne hb]
      exact hl.chain b
  handles := (List.pairwise_cons.1 hl.handles).2

/-- The node of a handle, taken off the list and its chain. -/
theorem eraseP (hl : Linked ts table) (ht : t ∈ ts) :
    Linked (ts.eraseP fun t' => t'.handle = t.handle) (Function.update table (bucket t.handle)
      ((table (bucket t.handle)).eraseP fun t' => t'.handle = t.handle)) := by
  obtain ⟨a, l₁, l₂, -, ha, rfl, he⟩ := List.exists_of_eraseP ht
    (p := fun t' => t'.handle = t.handle) (by simp)
  have hat : a = t := hl.eq_of_handle (by simp) ht (by simpa using ha)
  subst hat
  rw [he]
  exact (hl.perm List.perm_middle).erase

end Linked

/-! ## What every operation keeps of a list -/

/-- The nodes of a list, in time order. -/
def Queue.tickets (q : Queue φ) : List (Ticket φ) := q.events.map Event.toTicket

/-- The nodes of a list are linked, each at an address of its own, and their handles are none of 0. -/
structure Indexed (q : Queue φ) : Prop where
  linked : Linked q.tickets q.table
  nodes : ∀ t ∈ q.tickets, ∀ t' ∈ q.tickets, t.node = t'.node → t = t'
  below : ∀ t ∈ q.tickets, t.node < q.issued
  handles : ∀ t ∈ q.tickets, t.handle ≠ 0

namespace Queue

variable {q : Queue φ} {w : Which} {d : BitVec 32}

@[simp] theorem tickets_rebase : (q.rebase d).tickets = q.tickets := by
  rcases q with ⟨_ | ⟨e, es⟩, _, _, _, _, _⟩ <;> rfl

theorem setUp_nil (he : q.events = []) : q.setUp w = q := by rw [setUp, he]

theorem setUp_cons {e : Event φ} {es : List (Event φ)} (he : q.events = e :: es) :
    q.setUp w = { q with count := triggerCount w e } := by rw [setUp, he]

theorem setUp_eq (q : Queue φ) (w : Which) : ∃ count, q.setUp w = { q with count } := by
  rcases q with ⟨_ | ⟨e, es⟩, _, _, _, _, _⟩
  · exact ⟨_, rfl⟩
  · exact ⟨triggerCount w e, rfl⟩

end Queue

namespace Indexed

variable {q q' : Queue φ} {w : Which} {d : BitVec 32} {r : Request φ}

theorem init : Indexed ({} : Queue φ) where
  linked := .empty
  nodes := by simp [Queue.tickets]
  below := by simp [Queue.tickets]
  handles := by simp [Queue.tickets]

/-- Only the nodes, the chains and the issues matter. -/
theorem congr (hq : Indexed q) (ht : q'.tickets = q.tickets) (htab : q'.table = q.table)
    (hi : q'.issued = q.issued) : Indexed q' where
  linked := by rw [ht, htab]; exact hq.linked
  nodes := by rw [ht]; exact hq.nodes
  below := by rw [ht, hi]; exact hq.below
  handles := by rw [ht]; exact hq.handles

theorem rebase (hq : Indexed q) : Indexed (q.rebase d) := hq.congr Queue.tickets_rebase rfl rfl

theorem setUp (hq : Indexed q) (w : Which) : Indexed (q.setUp w) := by
  obtain ⟨count, h⟩ := q.setUp_eq w
  rw [h]
  exact hq.congr rfl rfl rfl

theorem mem_enqueue {t : Ticket φ} :
    t ∈ (q.enqueue r).tickets ↔ t = q.ticket r ∨ t ∈ q.tickets := by
  have hp : (q.enqueue r).tickets.Perm (q.ticket r :: q.tickets) :=
    (coding φ).map_key_insert_perm fun _ => rfl
  rw [hp.mem_iff, List.mem_cons]

/-- A node whose handle is on no other. -/
theorem enqueue (hq : Indexed q) (hno : q.holds q.nextHandle = false) : Indexed (q.enqueue r) := by
  have hp : (q.enqueue r).tickets.Perm (q.ticket r :: q.tickets) :=
    (coding φ).map_key_insert_perm fun _ => rfl
  have hnew : ∀ t ∈ q.tickets, t.handle ≠ q.nextHandle := by
    intro t ht he
    exact absurd (hq.linked.any_iff.2 ⟨t, ht, he⟩) (by rw [← Queue.holds, hno]; exact Bool.false_ne_true)
  refine ⟨(hq.linked.cons (t := q.ticket r) hnew).perm hp.symm, ?_, ?_, ?_⟩
  · intro t ht t' ht' hn
    rcases mem_enqueue.1 ht with rfl | ht <;> rcases mem_enqueue.1 ht' with rfl | ht'
    · rfl
    · exact absurd hn (hq.below t' ht').ne'
    · exact absurd hn (hq.below t ht).ne
    · exact hq.nodes t ht t' ht' hn
  · intro t ht
    rcases mem_enqueue.1 ht with rfl | ht
    · exact Nat.lt_succ_self _
    · exact Nat.lt_succ_of_lt (hq.below t ht)
  · intro t ht
    rcases mem_enqueue.1 ht with rfl | ht
    · change q.nextHandle ≠ 0
      unfold Queue.nextHandle
      split <;> omega
    · exact hq.handles t ht

/-- A node of the list off its chain and its place. -/
theorem unlink (hq : Indexed q) {t : Ticket φ} (ht : t ∈ q.tickets) {events : List (Event φ)}
    (count : BitVec 32)
    (he : events.map Event.toTicket = q.tickets.eraseP fun t' => t'.handle = t.handle) :
    Indexed { q.unlink t.handle with events, count } := by
  have hsub : ∀ t' ∈ events.map Event.toTicket, t' ∈ q.tickets := by
    rw [he]
    exact fun t' => List.mem_of_mem_eraseP
  refine ⟨?_, fun t ht t' ht' => hq.nodes t (hsub t ht) t' (hsub t' ht'),
    fun t' ht' => hq.below t' (hsub t' ht'), fun t' ht' => hq.handles t' (hsub t' ht')⟩
  change Linked (events.map Event.toTicket) _
  rw [he]
  exact hq.linked.eraseP ht

/-- A dispatch takes the head off the list and its chain. -/
theorem take {e : Event φ} (hq : Indexed q) (h : q.take = some (e, q')) :
    Indexed q' ∧ q.events = e :: q'.events ∧ q'.issued = q.issued ∧
      q'.nextFreeHandle = q.nextFreeHandle ∧
      q'.count = match q'.events with | [] => q.count | n :: _ => Queue.countFor n := by
  rcases q with ⟨_ | ⟨e', _ | ⟨n, es⟩⟩, table, next, free, count, issued⟩
  · cases h
  all_goals
    obtain ⟨rfl, rfl⟩ : e' = e ∧ _ = q' := by simpa [Queue.take] using h
    refine ⟨hq.unlink (t := e'.toTicket) ?_ _ ?_, rfl, rfl, rfl, rfl⟩
    · simp [Queue.tickets]
    · simp [Queue.tickets]

/-- What a delete can do: nothing, when no node has the handle, or take out the head or a later
node. -/
theorem delete_cases (hq : Indexed q) (h : ℤ) :
    ((∀ t ∈ q.tickets, t.handle ≠ h) ∧ q.delete h = (q, false)) ∨
    (∃ e es, q.events = e :: es ∧ e.handle = h ∧ q.delete h = (q.unlink h).deleteHead e es) ∨
    ∃ e es, q.events = e :: es ∧ e.handle ≠ h ∧ (∃ t ∈ es.map Event.toTicket, t.handle = h) ∧
      q.delete h = ({ q.unlink h with
        events := e :: (coding φ).remove (fun e => e.handle = h) es }, false) := by
  by_cases hh : ∃ t ∈ q.tickets, t.handle = h
  · right
    obtain ⟨t, ht, rfl⟩ := hh
    have hfind := hq.linked.find_iff.2 ⟨ht, rfl⟩
    have h0 : ¬t.handle = 0 := hq.handles t ht
    rw [Queue.delete, if_neg h0, hfind]
    obtain ⟨e, es, hev⟩ : ∃ e es, q.events = e :: es := by
      cases hev : q.events with
      | nil => simp [Queue.tickets, hev] at ht
      | cons e es => exact ⟨e, es, rfl⟩
    have hmem : ∀ e' ∈ e :: es, e'.toTicket ∈ q.tickets := by
      intro e' he'
      rw [Queue.tickets, hev]
      exact List.mem_map_of_mem he'
    have hnode : ∀ e' ∈ e :: es, e'.node = t.node ↔ e'.handle = t.handle := by
      intro e' he'
      constructor
      · exact fun h => by rw [show e'.handle = t.handle from
          congrArg Ticket.handle (hq.nodes _ (hmem e' he') t ht h)]
      · exact fun h => congrArg Ticket.node (hq.linked.eq_of_handle (hmem e' he') ht h)
    by_cases he : e.handle = t.handle
    · refine .inl ⟨e, es, hev, he, ?_⟩
      simp [hev, (hnode e (.head _)).2 he]
    · refine .inr ⟨e, es, hev, he, ?_, ?_⟩
      · rw [Queue.tickets, hev, List.map_cons, List.mem_cons] at ht
        rcases ht with rfl | ht
        · exact absurd rfl he
        · exact ⟨t, ht, rfl⟩
      · have hne : e.node ≠ t.node := fun hn => he ((hnode e (.head _)).1 hn)
        have hcongr : (coding φ).remove (fun e => e.node = t.node) es =
            (coding φ).remove (fun e => e.handle = t.handle) es :=
          (coding φ).remove_congr fun a ha => by simp [hnode a (.tail _ ha)]
        simp [hev, hne, DeltaCode.remove, hcongr]
  · left
    push Not at hh
    refine ⟨hh, ?_⟩
    have hfind : (q.table (bucket h)).find? (fun t => t.handle = h) = none := by
      rw [List.find?_eq_none]
      intro t ht
      simpa using hh t (hq.linked.mem_table.1 ht).1
    rw [Queue.delete, hfind]
    split <;> rfl

/-- **A delete removes the node of its handle, and no other.** -/
theorem delete (hq : Indexed q) (h : ℤ) :
    Indexed (q.delete h).1 ∧ (q.delete h).1.issued = q.issued ∧
      (q.delete h).1.nextFreeHandle = q.nextFreeHandle ∧
      (q.delete h).1.tickets = q.tickets.eraseP fun t => t.handle = h := by
  rcases hq.delete_cases h with ⟨hno, hd⟩ | ⟨e, es, hev, rfl, hd⟩ | ⟨e, es, hev, hne, ⟨t, ht, rfl⟩, hd⟩
  · rw [hd, List.eraseP_of_forall_not (by simpa using hno)]
    exact ⟨hq, rfl, rfl, rfl⟩
  · have htickets : q.tickets = e.toTicket :: es.map Event.toTicket := by rw [Queue.tickets, hev]; rfl
    have hmem : e.toTicket ∈ q.tickets := by rw [htickets]; exact .head _
    have herase : q.tickets.eraseP (fun t => t.handle = e.handle) = es.map Event.toTicket := by
      rw [htickets, List.eraseP_cons_of_pos (by simp)]
    rw [hd]
    cases es with
    | nil => exact ⟨hq.unlink hmem _ herase.symm, rfl, rfl, herase.symm⟩
    | cons n es =>
      rw [Queue.deleteHead]
      split
      · exact ⟨hq.unlink hmem q.count herase.symm, rfl, rfl, herase.symm⟩
      · exact ⟨hq.unlink hmem _ herase.symm, rfl, rfl, herase.symm⟩
  · have htickets : q.tickets = e.toTicket :: es.map Event.toTicket := by rw [Queue.tickets, hev]; rfl
    have hmem : t ∈ q.tickets := by rw [htickets]; exact .tail _ ht
    have herase : (e :: (coding φ).remove (fun e => e.handle = t.handle) es).map Event.toTicket =
        q.tickets.eraseP fun t' => t'.handle = t.handle := by
      rw [htickets, List.eraseP_cons_of_neg (by simpa using hne), List.map_cons]
      congr 1
      exact (coding φ).map_key_remove (q := fun t' => t'.handle = t.handle) fun _ => rfl
    rw [hd]
    exact ⟨hq.unlink hmem q.count herase, rfl, rfl, herase⟩

end Indexed

/-! ## The handles come round -/

/-- The list's nodes are of its types, and the `n`-th issue has the handle `n % 65534 + 1`. -/
structure Filed (w : Which) (q : Queue φ) : Prop extends Indexed q where
  numbered : ∀ t ∈ q.tickets, t.handle = t.node % 65534 + 1
  kinds : ∀ t ∈ q.tickets, t.eventType.which = w
  next : q.nextHandle = q.issued % 65534 + 1

/-- Fewer than `65534` handles have been issued, with the next, since any node of the list was. -/
def Fresh (q : Queue φ) : Prop := ∀ t ∈ q.tickets, q.issued - t.node < 65534

/-- The request will be issued a handle: it is not due at once, and there is a node for it. -/
def Queue.Issues (q : Queue φ) (r : Request φ) : Prop := r.time ≠ 0 ∧ ¬(q.free = 0 ∧ r.memory = false)

instance (q : Queue φ) : Decidable (Fresh q) :=
  inferInstanceAs (Decidable (∀ t ∈ q.tickets, q.issued - t.node < 65534))

instance (q : Queue φ) (r : Request φ) : Decidable (q.Issues r) :=
  inferInstanceAs (Decidable (r.time ≠ 0 ∧ ¬(q.free = 0 ∧ r.memory = false)))

namespace Filed

variable {q q' : Queue φ} {w : Which} {d : BitVec 32} {r : Request φ} {h : ℤ}

theorem init (w : Which) : Filed w ({} : Queue φ) where
  toIndexed := .init
  numbered := by simp [Queue.tickets]
  kinds := by simp [Queue.tickets]
  next := rfl

/-- Fewer nodes of the same issues. -/
theorem of_subset (hq : Filed w q) (hq' : Indexed q') (hsub : ∀ t ∈ q'.tickets, t ∈ q.tickets)
    (hi : q'.issued = q.issued) (hn : q'.nextFreeHandle = q.nextFreeHandle) : Filed w q' where
  toIndexed := hq'
  numbered t ht := hq.numbered t (hsub t ht)
  kinds t ht := hq.kinds t (hsub t ht)
  next := by rw [Queue.nextHandle, hn, hi]; exact hq.next

theorem congr (hq : Filed w q) (ht : q'.tickets = q.tickets) (htab : q'.table = q.table)
    (hi : q'.issued = q.issued) (hn : q'.nextFreeHandle = q.nextFreeHandle) : Filed w q' :=
  hq.of_subset (hq.toIndexed.congr ht htab hi) (by simp [ht]) hi hn

theorem rebase (hq : Filed w q) : Filed w (q.rebase d) :=
  hq.congr Queue.tickets_rebase rfl rfl rfl

theorem setUp (hq : Filed w q) (w' : Which) : Filed w (q.setUp w') := by
  obtain ⟨count, h⟩ := q.setUp_eq w'
  rw [h]
  exact hq.congr rfl rfl rfl rfl

/-- A fresh handle is on no node. -/
theorem holds_eq_false (hq : Filed w q) (hf : Fresh q) : q.holds q.nextHandle = false := by
  rw [Bool.eq_false_iff]
  intro hh
  obtain ⟨t, ht, he⟩ := hq.linked.any_iff.1 hh
  have := hf t ht
  have := hq.below t ht
  rw [hq.numbered t ht, hq.next] at he
  omega

theorem enqueue (hq : Filed w q) (hf : Fresh q) (hr : r.kind.which = w) :
    Filed w (q.enqueue r) := by
  have hnext := hq.next
  refine ⟨hq.toIndexed.enqueue (hq.holds_eq_false hf), ?_, ?_, ?_⟩
  · intro t ht
    rcases Indexed.mem_enqueue.1 ht with rfl | ht
    · exact hnext
    · exact hq.numbered t ht
  · intro t ht
    rcases Indexed.mem_enqueue.1 ht with rfl | ht
    · exact hr
    · exact hq.kinds t ht
  · change (if q.nextHandle + 1 = 0 ∨ q.nextHandle + 1 = 0xffff then 1 else q.nextHandle + 1)
      = ((q.issued + 1 : ℕ) : ℤ) % 65534 + 1
    rw [hnext]
    split <;> omega

theorem take_eq_some {e : Event φ} (hq : Filed w q) (h : q.take = some (e, q')) :
    Filed w q' ∧ q.events = e :: q'.events ∧ q'.issued = q.issued ∧
      q'.count = match q'.events with | [] => q.count | n :: _ => Queue.countFor n := by
  obtain ⟨hi, hev, hissued, hnext, hcount⟩ := hq.toIndexed.take h
  refine ⟨hq.of_subset hi ?_ hissued hnext, hev, hissued, hcount⟩
  intro t ht
  rw [Queue.tickets, hev]
  exact .tail _ ht

theorem delete (hq : Filed w q) (h : ℤ) : Filed w (q.delete h).1 := by
  obtain ⟨hi, hissued, hnext, htickets⟩ := hq.toIndexed.delete h
  refine hq.of_subset hi ?_ hissued hnext
  rw [htickets]
  exact fun t => List.mem_of_mem_eraseP

end Filed

end SoftPC.QuickEv
