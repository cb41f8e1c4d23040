import SoftPC.Machinery.Numerals
import Mathlib.Logic.Function.Basic
import Mathlib.Data.Fintype.Option

/-!
# KvmBase/FrameExchange — four slots rotating between one producer and one consumer

`lib/kvm-base/frame_exchange.c`.  Every entry point but `writer` holds the exchange lock, so an
interleaving of the two threads is a list of operations (`Op`), and the producer's stores into its
own slot are one more operation, `write`, that takes no lock.

`Owned` is the ownership discipline of the five role pointers.  `Traffic` adds what the pointers
cannot see: which publication each slot holds, and what the consumer was handed.
-/

namespace SoftPC

variable {α : Type*}

/-- `slots[i]`, named by its index: the four allocations are distinct and never freed while the
exchange lives, so an index is the pointer and `none` is `LIB_NULL`. -/
abbrev Slot := Fin 4

/-- `struct kvm_frame_exchange`, over frame contents `α`. -/
structure FrameExchange (α : Type*) where
  slots : Slot → α
  writer : Option Slot
  pending : Option Slot
  processing : Option Slot
  displayed : Option Slot
  latest : Option Slot
  /-- Leaf-owned payload retirement, given the slot and the latest publication. -/
  retire : Option (α → Option α → α)

namespace FrameExchange

/-! ## The operations -/

/-- `kvm_frame_exchange_create`, once its allocations have succeeded. -/
def create (zero : α) (retire : Option (α → Option α → α)) : FrameExchange α where
  slots _ := zero
  writer := some 0
  pending := none
  processing := none
  displayed := none
  latest := none
  retire := retire

/-- The slots `kvm_frame_exchange_retire_free` hands to the leaf. -/
def unheld (x : FrameExchange α) (i : Slot) : Bool :=
  x.writer != some i && x.pending != some i && x.processing != some i && x.displayed != some i

/-- One round of the retirement loop. -/
def retireSlot (retire : α → Option α → α) (x : FrameExchange α) (i : Slot) : FrameExchange α :=
  if x.unheld i then
    { x with slots := Function.update x.slots i (retire (x.slots i) (x.latest.map x.slots)) }
  else x

/-- `kvm_frame_exchange_retire_free`. -/
def retireFree (x : FrameExchange α) : FrameExchange α :=
  match x.retire with
  | none => x
  | some retire => (List.finRange 4).foldl (retireSlot retire) x

/-- The producer's stores through `kvm_frame_exchange_writer`, outside the lock. -/
def write (x : FrameExchange α) (v : α) : FrameExchange α :=
  match x.writer with
  | none => x
  | some w => { x with slots := Function.update x.slots w v }

/-- The slots `publish` may pick its next writer from. -/
def writable (x : FrameExchange α) (i : Slot) : Bool :=
  x.pending != some i && x.processing != some i && x.displayed != some i

/-- The writer changes hands: the role moves at the head of `kvm_frame_exchange_publish`. -/
def handOver (x : FrameExchange α) : FrameExchange α :=
  { x with latest := x.writer, pending := x.writer, writer := none }

/-- `kvm_frame_exchange_publish`. -/
def publish (x : FrameExchange α) : FrameExchange α :=
  let y := x.handOver.retireFree
  { y with writer := (List.finRange 4).find? y.writable }

/-- `kvm_frame_exchange_take`: the frame, the previously displayed one, and the exchange after. -/
def take (x : FrameExchange α) : Option Slot × Option Slot × FrameExchange α :=
  if x.processing = none then
    (x.pending, if x.pending = none then none else x.displayed,
      { x with processing := x.pending, pending := none })
  else (none, none, x)

/-- `kvm_frame_exchange_finish`. -/
def finish (x : FrameExchange α) (success : Bool) : FrameExchange α :=
  let y := if x.processing = none then x else
    { x with
      displayed := if success then x.processing else x.displayed
      pending := if !success && x.latest = x.processing then x.processing else x.pending
      processing := none }
  y.retireFree

/-- `kvm_frame_exchange_redraw`. -/
def redraw (x : FrameExchange α) : FrameExchange α :=
  if x.pending = none ∧ x.latest ≠ none then
    { x with pending := if x.processing ≠ none then x.processing else x.displayed }
  else x

/-- `kvm_frame_exchange_detach`. -/
def detach (x : FrameExchange α) : FrameExchange α :=
  { x with processing := none, displayed := none, pending := x.latest }.retireFree

/-- `kvm_frame_exchange_invalidate`. -/
def invalidate (x : FrameExchange α) : FrameExchange α :=
  { x with pending := none, latest := none }.retireFree

/-- `kvm_frame_exchange_observe_latest`: what the observer is called with, if it is called. -/
def observeLatest (x : FrameExchange α) : Option α := x.latest.map x.slots

/-! ## Retirement touches no role and no held frame -/

/-- Two exchanges that differ at most in the contents of slots nobody holds. -/
structure SameHeld (x y : FrameExchange α) : Prop where
  writer : y.writer = x.writer
  pending : y.pending = x.pending
  processing : y.processing = x.processing
  displayed : y.displayed = x.displayed
  latest : y.latest = x.latest
  retire : y.retire = x.retire
  slots : ∀ i, x.unheld i = false → y.slots i = x.slots i

theorem SameHeld.refl (x : FrameExchange α) : SameHeld x x :=
  ⟨rfl, rfl, rfl, rfl, rfl, rfl, fun _ _ => rfl⟩

theorem SameHeld.unheld {x y : FrameExchange α} (h : SameHeld x y) (i : Slot) :
    y.unheld i = x.unheld i := by
  rw [FrameExchange.unheld, FrameExchange.unheld, h.writer, h.pending, h.processing, h.displayed]

theorem SameHeld.trans {x y z : FrameExchange α} (h : SameHeld x y) (k : SameHeld y z) :
    SameHeld x z where
  writer := k.writer.trans h.writer
  pending := k.pending.trans h.pending
  processing := k.processing.trans h.processing
  displayed := k.displayed.trans h.displayed
  latest := k.latest.trans h.latest
  retire := k.retire.trans h.retire
  slots i hi := (k.slots i ((h.unheld i).trans hi)).trans (h.slots i hi)

theorem sameHeld_retireSlot (retire : α → Option α → α) (x : FrameExchange α) (i : Slot) :
    SameHeld x (retireSlot retire x i) := by
  unfold retireSlot
  split
  · rename_i hfree
    refine ⟨rfl, rfl, rfl, rfl, rfl, rfl, fun j hj => Function.update_of_ne ?_ _ _⟩
    rintro rfl
    exact absurd hfree (by simp [hj])
  · exact SameHeld.refl x

/-- **Retirement changes the contents of unheld slots only.** -/
theorem sameHeld_retireFree (x : FrameExchange α) : SameHeld x x.retireFree := by
  unfold retireFree
  split
  · exact SameHeld.refl x
  · rename_i retire _
    have hfold : ∀ (l : List Slot) (y : FrameExchange α), SameHeld x y →
        SameHeld x (l.foldl (retireSlot retire) y) := by
      intro l
      induction l with
      | nil => exact fun _ hy => hy
      | cons i l ih => exact fun y hy => ih _ (hy.trans (sameHeld_retireSlot retire y i))
    exact hfold _ x (SameHeld.refl x)

@[simp] theorem retireFree_writer (x : FrameExchange α) : x.retireFree.writer = x.writer :=
  (sameHeld_retireFree x).writer
@[simp] theorem retireFree_pending (x : FrameExchange α) : x.retireFree.pending = x.pending :=
  (sameHeld_retireFree x).pending
@[simp] theorem retireFree_processing (x : FrameExchange α) :
    x.retireFree.processing = x.processing := (sameHeld_retireFree x).processing
@[simp] theorem retireFree_displayed (x : FrameExchange α) :
    x.retireFree.displayed = x.displayed := (sameHeld_retireFree x).displayed
@[simp] theorem retireFree_latest (x : FrameExchange α) : x.retireFree.latest = x.latest :=
  (sameHeld_retireFree x).latest

/-! ## The ownership discipline -/

/-- The slots the consumer holds, shows or is about to be given, and the newest publication. -/
def Held (x : FrameExchange α) (i : Slot) : Prop :=
  x.pending = some i ∨ x.processing = some i ∨ x.displayed = some i ∨ x.latest = some i

/-- **The ownership invariant**: the producer owns exactly one slot, nobody else holds it, and the
newest publication is always somewhere on its way to the display. -/
structure Owned (x : FrameExchange α) : Prop where
  writer : ∃ w, x.writer = some w ∧ ¬ x.Held w
  pending : x.pending = none ∨ x.pending = x.latest
  processing : x.latest ≠ none → x.pending = none → x.processing ≠ none → x.processing = x.latest
  displayed : x.latest ≠ none → x.pending = none → x.processing = none → x.displayed = x.latest

theorem owned_create (zero : α) (retire : Option (α → Option α → α)) :
    Owned (create zero retire) :=
  ⟨⟨0, rfl, by simp [Held, create]⟩, .inl rfl, fun h => absurd rfl h, fun h => absurd rfl h⟩

/-- Ownership is a matter of roles, which retirement leaves alone. -/
@[simp] theorem owned_retireFree {x : FrameExchange α} : x.retireFree.Owned ↔ x.Owned := by
  constructor <;> rintro ⟨hw, hp, hq, hd⟩ <;>
    exact ⟨by simpa [Held] using hw, by simpa using hp, by simpa using hq, by simpa using hd⟩

/-- At most three of the four slots are unavailable, so `publish` always finds its writer. -/
theorem exists_writable (x : FrameExchange α) :
    ∃ w, (List.finRange 4).find? x.writable = some w ∧ x.writable w := by
  have hex : ∀ p q d : Option Slot, ∃ i : Slot, p ≠ some i ∧ q ≠ some i ∧ d ≠ some i := by
    decide
  obtain ⟨i, hp, hq, hd⟩ := hex x.pending x.processing x.displayed
  have hi : x.writable i = true := by simp [writable, hp, hq, hd]
  obtain ⟨w, hw⟩ := Option.isSome_iff_exists.mp
    (List.find?_isSome.mpr ⟨i, List.mem_finRange i, hi⟩)
  exact ⟨w, hw, List.find?_some hw⟩

theorem owned_publish {x : FrameExchange α} (h : Owned x) : Owned x.publish := by
  obtain ⟨w, hw, -⟩ := h.writer
  obtain ⟨v, hv, hfree⟩ := exists_writable x.handOver.retireFree
  have hp : x.publish.pending = some w := by simp [publish, handOver, hw]
  have hl : x.publish.latest = some w := by simp [publish, handOver, hw]
  refine ⟨⟨v, hv, ?_⟩, .inr (hp.trans hl.symm), ?_, ?_⟩
  · simp only [writable, Bool.and_eq_true, bne_iff_ne, ne_eq] at hfree
    rintro (h1 | h1 | h1 | h1)
    · exact hfree.1.1 h1
    · exact hfree.1.2 h1
    · exact hfree.2 h1
    · exact hfree.1.1 (hp.trans (hl.symm.trans h1))
  · exact fun _ hnone => absurd (hp.symm.trans hnone) (by simp)
  · exact fun _ hnone => absurd (hp.symm.trans hnone) (by simp)

theorem owned_take {x : FrameExchange α} (h : Owned x) : Owned x.take.2.2 := by
  obtain ⟨w, hw, hfree⟩ := h.writer
  unfold take
  split
  · rename_i hproc
    refine ⟨⟨w, hw, ?_⟩, .inl rfl, ?_, ?_⟩
    · simp only [Held] at hfree ⊢
      tauto
    · intro _ _ hp
      exact h.pending.resolve_left hp
    · intro hl _ hp
      exact h.displayed hl hp hproc
  · exact h

theorem owned_finish {x : FrameExchange α} (h : Owned x) (success : Bool) :
    Owned (x.finish success) := by
  refine owned_retireFree.2 ?_
  obtain ⟨w, hw, hfree⟩ := h.writer
  split
  · exact h
  rename_i hproc
  cases success with
  | true =>
    refine ⟨⟨w, hw, ?_⟩, h.pending, fun _ _ hp => absurd rfl hp, ?_⟩
    · simp only [Held, Bool.not_true, Bool.false_and] at hfree ⊢
      tauto
    · exact fun hl hp _ => h.processing hl hp hproc
  | false =>
    by_cases hlat : x.latest = x.processing
    · -- An unsuperseded failure is requeued.
      refine ⟨⟨w, hw, ?_⟩, .inr (by simp [hlat]), fun _ _ hp => absurd rfl hp, ?_⟩
      · simp only [Held, hlat] at hfree ⊢
        simp
        tauto
      · intro _ hp
        simp [hlat] at hp
        exact absurd hp hproc
    · -- A superseded one is dropped: its successor is still pending.
      refine ⟨⟨w, hw, ?_⟩, by simpa [hlat] using h.pending, fun _ _ hp => absurd rfl hp, ?_⟩
      · simp only [Held] at hfree ⊢
        simp [hlat]
        tauto
      · intro hl hp _
        simp only [hlat] at hp
        exact absurd (h.processing hl (by simpa using hp) hproc).symm hlat

theorem owned_redraw {x : FrameExchange α} (h : Owned x) : Owned x.redraw := by
  unfold redraw
  split
  · rename_i hc
    have hpend : (if x.processing ≠ none then x.processing else x.displayed) = x.latest := by
      split
      · rename_i hp; exact h.processing hc.2 hc.1 hp
      · rename_i hp; exact h.displayed hc.2 hc.1 (not_not.mp hp)
    obtain ⟨w, hw, hfree⟩ := h.writer
    simp only [hpend]
    refine ⟨⟨w, hw, ?_⟩, .inr rfl, fun hl hp => absurd hp hl, fun hl hp => absurd hp hl⟩
    simp only [Held] at hfree ⊢
    tauto
  · exact h

theorem owned_detach {x : FrameExchange α} (h : Owned x) : Owned x.detach := by
  refine owned_retireFree.2 ?_
  obtain ⟨w, hw, hfree⟩ := h.writer
  refine ⟨⟨w, hw, ?_⟩, .inr rfl, fun hl hp => absurd hp hl, fun hl hp => absurd hp hl⟩
  simp only [Held] at hfree ⊢
  simp
  tauto

theorem owned_invalidate {x : FrameExchange α} (h : Owned x) : Owned x.invalidate := by
  refine owned_retireFree.2 ?_
  obtain ⟨w, hw, hfree⟩ := h.writer
  refine ⟨⟨w, hw, ?_⟩, .inl rfl, fun hl => absurd rfl hl, fun hl => absurd rfl hl⟩
  simp only [Held] at hfree ⊢
  simp
  tauto

theorem owned_write {x : FrameExchange α} (h : Owned x) (v : α) : Owned (x.write v) := by
  unfold write
  split
  · exact h
  · exact ⟨h.writer, h.pending, h.processing, h.displayed⟩

/-- **The newest publication is pending, being processed, or displayed.** -/
theorem Owned.latest_held {x : FrameExchange α} (h : Owned x) (hl : x.latest ≠ none) :
    x.latest = x.pending ∨ x.latest = x.processing ∨ x.latest = x.displayed := by
  by_cases hp : x.pending = none
  · by_cases hq : x.processing = none
    · exact .inr (.inr (h.displayed hl hp hq).symm)
    · exact .inr (.inl (h.processing hl hp hq).symm)
  · exact .inl (h.pending.resolve_left hp).symm

/-! ## Publications and takes

`Traffic` is the exchange together with its history: every frame published so far, the publication
each slot last carried, and the frames the consumer was handed. -/

/-- An exchange and the history of its traffic. -/
structure Traffic (α : Type*) where
  exchange : FrameExchange α
  /-- The contents of each publication, oldest first. -/
  published : List α
  /-- The publication a slot last carried, as an index into `published`. -/
  serial : Slot → ℕ
  /-- What `take` returned, with its publication, oldest first. -/
  taken : List (ℕ × α)

/-- The entry points of the exchange, and the producer's stores. -/
inductive Op (α : Type*) where
  | write (v : α)
  | publish
  | take
  | finish (success : Bool)
  | redraw
  | detach
  | invalidate
  | observe

namespace Traffic

/-- A fresh exchange, before any traffic. -/
def start (zero : α) (retire : Option (α → Option α → α)) : Traffic α where
  exchange := create zero retire
  published := []
  serial _ := 0
  taken := []

/-- A recorded publication stays where it is. -/
private theorem getElem?_append_some {l : List α} {k : ℕ} {v : α} (h : l[k]? = some v)
    (m : List α) : (l ++ m)[k]? = some v := by
  rwa [List.getElem?_append_left (List.getElem?_eq_some_iff.mp h).1]

/-- Publication, recorded. -/
def publish (t : Traffic α) : Traffic α :=
  match t.exchange.writer with
  | none => { t with exchange := t.exchange.publish }
  | some w =>
    { t with
      exchange := t.exchange.publish
      published := t.published ++ [t.exchange.slots w]
      serial := Function.update t.serial w t.published.length }

/-- Consumption, recorded. -/
def take (t : Traffic α) : Traffic α :=
  match t.exchange.take with
  | (none, _, x) => { t with exchange := x }
  | (some i, _, x) => { t with exchange := x, taken := t.taken ++ [(t.serial i, x.slots i)] }

/-- One operation of either thread. -/
def step (t : Traffic α) : Op α → Traffic α
  | .write v => { t with exchange := t.exchange.write v }
  | .publish => t.publish
  | .take => t.take
  | .finish success => { t with exchange := t.exchange.finish success }
  | .redraw => { t with exchange := t.exchange.redraw }
  | .detach => { t with exchange := t.exchange.detach }
  | .invalidate => { t with exchange := t.exchange.invalidate }
  | .observe => t

/-- Any interleaving of the two threads. -/
def run (zero : α) (retire : Option (α → Option α → α)) (ops : List (Op α)) : Traffic α :=
  ops.foldl step (start zero retire)

/-- **The history invariant**: a held slot still has the contents it was published with, the newest
publication is the last one, and the takes never go back. -/
structure Faithful (t : Traffic α) : Prop where
  owned : t.exchange.Owned
  contents : ∀ i, t.exchange.Held i → t.published[t.serial i]? = some (t.exchange.slots i)
  latest : ∀ i, t.exchange.latest = some i → t.serial i + 1 = t.published.length
  genuine : ∀ k v, (k, v) ∈ t.taken → t.published[k]? = some v
  ordered : t.taken.Pairwise (·.1 ≤ ·.1)

theorem faithful_start (zero : α) (retire : Option (α → Option α → α)) :
    Faithful (start zero retire) :=
  ⟨owned_create zero retire, by simp [start, create, Held], by simp [start, create], by simp [start],
    by simp [start]⟩

/-- An operation that only moves slots between roles keeps the history. -/
theorem Faithful.of_roles {t : Traffic α} (h : Faithful t) {x : FrameExchange α} (hx : x.Owned)
    (hheld : ∀ i, x.Held i → t.exchange.Held i ∧ x.slots i = t.exchange.slots i)
    (hlatest : x.latest = none ∨ x.latest = t.exchange.latest) :
    Faithful { t with exchange := x } where
  owned := hx
  contents i hi := by rw [(hheld i hi).2]; exact h.contents i (hheld i hi).1
  latest i hi := by
    rcases hlatest with hl | hl
    · exact absurd (hl.symm.trans hi) (by simp)
    · exact h.latest i (hl.symm.trans hi)
  genuine := h.genuine
  ordered := h.ordered

/-- Retirement spares every held slot; it may still spare nothing else, so the roles it runs after
decide what is held. -/
theorem slots_retireFree_of_held {x : FrameExchange α} (hx : x.Owned) {i : Slot}
    (hi : x.Held i) : x.retireFree.slots i = x.slots i := by
  refine (sameHeld_retireFree x).slots i ?_
  have hrole : x.pending = some i ∨ x.processing = some i ∨ x.displayed = some i := by
    rcases hi with hp | hp | hp | hl
    · exact .inl hp
    · exact .inr (.inl hp)
    · exact .inr (.inr hp)
    · rcases hx.latest_held (by simp [hl]) with h1 | h1 | h1
      · exact .inl (h1.symm.trans hl)
      · exact .inr (.inl (h1.symm.trans hl))
      · exact .inr (.inr (h1.symm.trans hl))
  rcases hrole with hp | hp | hp <;> simp [FrameExchange.unheld, hp]

/-- …so an operation that moves roles and then retires keeps the history too. -/
theorem Faithful.of_retireFree {t : Traffic α} (h : Faithful t) {x : FrameExchange α}
    (hx : x.retireFree.Owned) (hheld : ∀ i, x.Held i → t.exchange.Held i)
    (hslots : x.slots = t.exchange.slots)
    (hlatest : x.latest = none ∨ x.latest = t.exchange.latest) :
    Faithful { t with exchange := x.retireFree } := by
  refine h.of_roles hx (fun i hi => ?_) (by simpa using hlatest)
  have hxi : x.Held i := by simpa [Held] using hi
  exact ⟨hheld i hxi,
    (slots_retireFree_of_held (owned_retireFree.1 hx) hxi).trans (congrFun hslots i)⟩

theorem Faithful.write {t : Traffic α} (h : Faithful t) (v : α) :
    Faithful { t with exchange := t.exchange.write v } := by
  refine h.of_roles (owned_write h.owned v) ?_ (.inr ?_)
  · -- The producer stores into the one slot nobody holds.
    obtain ⟨w, hw, hfree⟩ := h.owned.writer
    intro i hi
    have hi' : t.exchange.Held i := by simpa [FrameExchange.write, hw, Held] using hi
    have hne : i ≠ w := fun h1 => hfree (h1 ▸ hi')
    exact ⟨hi', by simp [FrameExchange.write, hw, hne]⟩
  · unfold FrameExchange.write
    split <;> rfl

theorem Faithful.publish {t : Traffic α} (h : Faithful t) : Faithful t.publish := by
  obtain ⟨w, hw, hfree⟩ := h.owned.writer
  have ho := owned_publish h.owned
  have hlat : t.exchange.publish.latest = some w := by simp [FrameExchange.publish, handOver, hw]
  -- A slot held after the publication is the published one or was held before it.
  have hheld : ∀ i, t.exchange.publish.Held i → i = w ∨ t.exchange.Held i := by
    intro i hi
    simp only [Held, FrameExchange.publish, handOver, retireFree_pending, retireFree_processing,
      retireFree_displayed, retireFree_latest, hw, Option.some.injEq] at hi
    simp only [Held]
    tauto
  have hslots : ∀ i, t.exchange.publish.Held i →
      t.exchange.publish.slots i = t.exchange.slots i := by
    intro i hi
    refine (sameHeld_retireFree t.exchange.handOver).slots i ?_
    rcases ho.latest_held (by simp [hlat]) with h1 | h1 | h1 <;>
      rcases hi with h2 | h2 | h2 | h2 <;>
        simp_all [FrameExchange.unheld, FrameExchange.publish, handOver]
  rw [Traffic.publish, hw]
  refine ⟨ho, fun i hi => ?_, fun i hi => ?_, fun k v hk => ?_, h.ordered⟩
  · simp only [hslots i hi]
    by_cases hiw : i = w
    · simp [hiw]
    · simp only [Function.update_of_ne hiw]
      exact getElem?_append_some (h.contents i ((hheld i hi).resolve_left hiw)) _
  · obtain rfl : w = i := Option.some.inj (hlat.symm.trans hi)
    simp
  · exact getElem?_append_some (h.genuine k v hk) _

theorem Faithful.take {t : Traffic α} (h : Faithful t) : Faithful t.take := by
  have ho := owned_take h.owned
  unfold Traffic.take
  unfold FrameExchange.take at ho ⊢
  by_cases hproc : t.exchange.processing = none
  · simp only [hproc, if_true] at ho ⊢
    have hroles : Faithful { t with exchange :=
        { t.exchange with processing := t.exchange.pending, pending := none } } := by
      refine h.of_roles ho (fun i hi => ⟨?_, rfl⟩) (.inr rfl)
      simp only [Held] at hi ⊢
      tauto
    cases hp : t.exchange.pending with
    | none => simpa [hp] using hroles
    | some i =>
      rw [hp] at hroles
      have hpi : t.exchange.latest = some i := by
        rcases h.owned.pending with h1 | h1
        · exact absurd (hp.symm.trans h1) (by simp)
        · exact h1.symm.trans hp
      have hsome := h.contents i (.inl hp)
      refine ⟨hroles.owned, hroles.contents, hroles.latest, ?_, ?_⟩
      · intro k v hk
        rcases List.mem_append.mp hk with hk | hk
        · exact h.genuine k v hk
        · obtain ⟨rfl, rfl⟩ : k = t.serial i ∧ v = t.exchange.slots i := by simpa using hk
          exact hsome
      · -- Only the newest publication is ever pending, so every earlier take is at most as new.
        refine List.pairwise_append.mpr ⟨h.ordered, List.pairwise_singleton _ _, ?_⟩
        intro a ha b hb
        obtain rfl : b = (t.serial i, t.exchange.slots i) := by simpa using hb
        have hlt := (List.getElem?_eq_some_iff.mp (h.genuine a.1 a.2 ha)).1
        have := h.latest i hpi
        change a.1 ≤ t.serial i
        omega
  · simpa only [hproc, if_false] using h

theorem Faithful.finish {t : Traffic α} (h : Faithful t) (success : Bool) :
    Faithful { t with exchange := t.exchange.finish success } := by
  refine h.of_retireFree (owned_finish h.owned success) (fun i hi => ?_) ?_ (.inr ?_)
  · split at hi
    · exact hi
    · cases success <;> simp only [Held] at hi ⊢ <;> grind -linarith
  · split <;> rfl
  · split <;> rfl

theorem Faithful.redraw {t : Traffic α} (h : Faithful t) :
    Faithful { t with exchange := t.exchange.redraw } := by
  refine h.of_roles (owned_redraw h.owned) (fun i hi => ?_) (.inr ?_)
  · unfold FrameExchange.redraw at hi ⊢
    split at hi
    · rename_i hc
      refine ⟨?_, by simp [hc]⟩
      simp only [Held] at hi ⊢
      grind -linarith
    · rename_i hc
      exact ⟨hi, by simp only [hc, if_false]⟩
  · unfold FrameExchange.redraw
    split <;> rfl

theorem Faithful.detach {t : Traffic α} (h : Faithful t) :
    Faithful { t with exchange := t.exchange.detach } := by
  refine h.of_retireFree (owned_detach h.owned) (fun i hi => ?_) rfl (.inr rfl)
  simp only [Held] at hi ⊢
  grind -linarith

theorem Faithful.invalidate {t : Traffic α} (h : Faithful t) :
    Faithful { t with exchange := t.exchange.invalidate } := by
  refine h.of_retireFree (owned_invalidate h.owned) (fun i hi => ?_) rfl (.inl rfl)
  simp only [Held] at hi ⊢
  grind -linarith

/-- **One operation of either thread keeps the history.** -/
theorem Faithful.step {t : Traffic α} (h : Faithful t) (op : Op α) : Faithful (t.step op) := by
  cases op with
  | write v => exact h.write v
  | publish => exact h.publish
  | take => exact h.take
  | finish success => exact h.finish success
  | redraw => exact h.redraw
  | detach => exact h.detach
  | invalidate => exact h.invalidate
  | observe => exact h

/-- …hence so does every interleaving. -/
theorem faithful_run (zero : α) (retire : Option (α → Option α → α)) (ops : List (Op α)) :
    Faithful (run zero retire ops) :=
  List.foldlRecOn ops step (faithful_start zero retire) fun _ h op _ => h.step op

/-- **Ownership and no lost publication, over every interleaving.**  The producer's slot is never
one the consumer holds, shows or awaits; only the newest publication is ever pending and it is
always on its way to the display; what the consumer takes is what was published, never older than
what it took before; and with nothing pending or in process the newest publication is on display. -/
theorem exchange_ownership (zero : α) (retire : Option (α → Option α → α)) (ops : List (Op α)) :
    let t := run zero retire ops
    let x := t.exchange
    (∃ w, x.writer = some w ∧ x.pending ≠ some w ∧ x.processing ≠ some w ∧
      x.displayed ≠ some w ∧ x.latest ≠ some w) ∧
    (x.pending = none ∨ x.pending = x.latest) ∧
    (x.latest ≠ none → x.latest = x.pending ∨ x.latest = x.processing ∨ x.latest = x.displayed) ∧
    t.taken.Pairwise (·.1 ≤ ·.1) ∧
    (∀ k v, (k, v) ∈ t.taken → t.published[k]? = some v) ∧
    (x.pending = none → x.processing = none → x.displayed = x.latest ∨ x.latest = none) := by
  intro t x
  have h : Faithful t := faithful_run zero retire ops
  obtain ⟨w, hw, hfree⟩ := h.owned.writer
  simp only [Held, not_or] at hfree
  refine ⟨⟨w, hw, hfree⟩, h.owned.pending, h.owned.latest_held, h.ordered, h.genuine, ?_⟩
  intro hp hq
  by_cases hl : x.latest = none
  · exact .inr hl
  · exact .inl (h.owned.displayed hl hp hq)

end Traffic

/-! ## What an observer sees

The latest publication stays in sight, as it was published, until it is superseded or invalidated. -/

theorem observeLatest_write {x : FrameExchange α} (h : Owned x) (v : α) :
    (x.write v).observeLatest = x.observeLatest := by
  obtain ⟨w, hw, hfree⟩ := h.writer
  unfold write observeLatest
  rw [hw]
  cases hl : x.latest with
  | none => rfl
  | some i =>
    have hne : i ≠ w := fun hi => hfree (hi ▸ .inr (.inr (.inr hl)))
    simp [Function.update_of_ne hne]

/-- Retirement spares what an observer sees. -/
theorem observeLatest_retireFree {x : FrameExchange α} (h : Owned x) :
    x.retireFree.observeLatest = x.observeLatest := by
  unfold observeLatest
  rw [retireFree_latest]
  cases hl : x.latest with
  | none => rfl
  | some i =>
    have hslot := Traffic.slots_retireFree_of_held h (.inr (.inr (.inr hl)))
    simp [hslot]

/-- **A publication is what the producer wrote.** -/
theorem observeLatest_write_publish {x : FrameExchange α} (h : Owned x) (v : α) :
    (x.write v).publish.observeLatest = some v := by
  obtain ⟨w, hw, -⟩ := h.writer
  have hslot : (x.write v).handOver.retireFree.slots w = v := by
    rw [(sameHeld_retireFree _).slots w (by simp [unheld, handOver, write, hw])]
    simp [handOver, write, hw]
  simp [observeLatest, publish, handOver, write, hw] at hslot ⊢
  exact hslot

@[simp] theorem observeLatest_invalidate (x : FrameExchange α) : x.invalidate.observeLatest = none := by
  simp [observeLatest, invalidate]

@[simp] theorem observeLatest_take (x : FrameExchange α) : x.take.2.2.observeLatest = x.observeLatest := by
  unfold take
  split <;> rfl

@[simp] theorem observeLatest_redraw (x : FrameExchange α) : x.redraw.observeLatest = x.observeLatest := by
  unfold redraw
  split <;> rfl

theorem observeLatest_finish {x : FrameExchange α} (h : Owned x) (success : Bool) :
    (x.finish success).observeLatest = x.observeLatest := by
  unfold finish
  rw [observeLatest_retireFree (owned_retireFree.1 (owned_finish h success))]
  split <;> rfl

theorem observeLatest_detach {x : FrameExchange α} (h : Owned x) :
    x.detach.observeLatest = x.observeLatest :=
  observeLatest_retireFree (owned_retireFree.1 (owned_detach h))

end FrameExchange

end SoftPC
