import SoftPC.Machinery.Chains
import SoftPC.System.QuickEvAlike
import SoftPC.Machinery.Numerals

/-!
# System/QueueSnapshot — the event lists in a snapshot

    lists ──q_event_snapshot_capture──▸ entries, hash heads ──q_event_snapshot_restore──▸ lists

`base/system/quick_ev.c`.  A snapshot holds the entries of each list in time order, and the chains as
one-based indices into them.  A captured snapshot restores lists that behave as the captured ones
(`restore_capture`).  A snapshot from outside is rebuilt beside the live lists, which a failure leaves
alone; its chains are followed and must end, in range and in their own bucket, but nothing asks that they
reach every entry.  The lists are well formed exactly when they do (`snapshot_restores`).
-/

namespace SoftPC.QuickEv

open Chains

variable {φ : Type*}

/-- `Q_EVENT_SNAPSHOT_ENTRY`. -/
structure Entry where
  timeFromLast : BitVec 32
  originalTime : BitVec 32
  handle : ℤ
  param : BitVec 32
  eventType : ℕ
  callbackId : BitVec 32
  hashNextIndex : ℕ
  deriving DecidableEq

/-- What `Q_EVENT_SNAPSHOT_STATE` has of one list, and its array of entries. -/
structure Image where
  nextHandle : ℤ
  counter : BitVec 32
  count : ℕ
  hashHead : Fin 16 → ℕ
  entries : List Entry

def EventType.toNat : EventType → ℕ
  | .time => 0
  | .instructions => 1
  | .tick => 2

def EventType.ofNat? : ℕ → Option EventType
  | 0 => some .time
  | 1 => some .instructions
  | 2 => some .tick
  | _ => none

/-! ## Capture -/

namespace Queue

variable (q : Queue φ)

/-- The place of a chain's node on the list; its length when it is not there. -/
def place (t : Ticket φ) : ℕ := q.events.findIdx fun e => e.node = t.node

/-- An entry, before it is linked. -/
def entry (encode : φ → Option (BitVec 32)) (e : Event φ) : Option Entry :=
  (encode e.func).map fun id =>
    ⟨e.timeFromLast, e.originalTime, e.handle, e.param, e.eventType.toNat, id, 0⟩

/-- The loop over the entries. -/
def entriesOf (encode : φ → Option (BitVec 32)) : List (Event φ) → Option (List Entry)
  | [] => some []
  | e :: es =>
    match entry encode e, entriesOf encode es with
    | some x, some xs => some (x :: xs)
    | _, _ => none

/-- The last loop of `snapshot_capture_list`, over some of the buckets. -/
def captureChains : List (Fin 16) → (ℕ → ℕ) → (Fin 16 → ℕ) × (ℕ → ℕ)
  | [], next => (fun _ => 0, next)
  | b :: bs, next =>
    let chain := ((q.table b).map q.place).foldl (append q.events.length) (0, next)
    let rest := captureChains bs chain.2
    (Function.update rest.1 b chain.1, rest.2)

/-- `snapshot_capture_list`, with the handle and counter `q_event_snapshot_capture` adds. -/
def capture (encode : φ → Option (BitVec 32)) (capacity : ℕ) : Option Image :=
  if capacity < q.events.length then none
  else
    match entriesOf encode q.events with
    | none => none
    | some entries =>
      if ∀ b, ∀ t ∈ q.table b, q.place t < q.events.length then
        let chains := q.captureChains (List.finRange 16) fun _ => 0
        some
          { nextHandle := q.nextFreeHandle
            counter := q.count
            count := q.events.length
            hashHead := chains.1
            entries := entries.mapIdx fun i e => { e with hashNextIndex := chains.2 i } }
      else none

end Queue

/-! ## Restore -/

/-- The nodes of a rebuilt list by number, as the links left them. -/
structure Restored (φ : Type*) where
  nodes : List (Event φ) := []
  previous : ℕ → Option ℕ := fun _ => none
  next : ℕ → Option ℕ := fun _ => none
  nextFree : ℕ → Option ℕ := fun _ => none
  head : Option ℕ := none
  tail : Option ℕ := none
  table : Fin 16 → Option ℕ := fun _ => none

namespace Image

variable (img : Image)

/-- The entries in use. -/
def used : List Entry := img.entries.take img.count

/-- `hash_next_index` of an entry. -/
def nextIndex (i : ℕ) : ℕ := (img.used[i]?.map Entry.hashNextIndex).getD 0

/-- The node of an entry; `memory i` says whether the `i`-th `host_malloc` of the list succeeds. -/
def node (decode : BitVec 32 → Option φ) (memory : ℕ → Bool) (e : Entry) (i : ℕ) : Option (Event φ) :=
  match EventType.ofNat? e.eventType, decode e.callbackId with
  | some kind, some func =>
    if e.handle = 0 ∨ memory (i + 1) = false then none
    else some ⟨⟨i, e.handle, func, e.param, kind⟩, e.timeFromLast, e.originalTime⟩
  | _, _ => none

/-- The loop over the entries, from number `i` on. -/
def nodesFrom (decode : BitVec 32 → Option φ) (memory : ℕ → Bool) :
    ℕ → List Entry → Option (List (Event φ))
  | _, [] => some []
  | i, x :: xs =>
    match node decode memory x i, nodesFrom decode memory (i + 1) xs with
    | some e, some es => some (e :: es)
    | _, _ => none

/-- `previous` and `next` of the node made in turn `i`. -/
def threaded (links : (ℕ → Option ℕ) × (ℕ → Option ℕ)) (i : ℕ) : (ℕ → Option ℕ) × (ℕ → Option ℕ) :=
  if i = 0 then (Function.update links.1 i none, Function.update links.2 i none)
  else (Function.update links.1 i (some (i - 1)),
    Function.update (Function.update links.2 i none) (i - 1) (some i))

/-- The loop along the chain of a bucket; `fuel` is what `seen_count` leaves of `count`. -/
def follow (nodes : List (Event φ)) (b : Fin 16) :
    ℕ → ℕ → (ℕ → Option ℕ) → Option (ℕ → Option ℕ)
  | _, 0, nextFree => some nextFree
  | 0, _ + 1, _ => none
  | fuel + 1, j + 1, nextFree =>
    match nodes[j]? with
    | none => none
    | some e =>
      if bucket e.handle ≠ b ∨ img.count < img.nextIndex j then none
      else follow nodes b fuel (img.nextIndex j) (Function.update nextFree j (link (img.nextIndex j)))

/-- The loop over the buckets. -/
def followAll (nodes : List (Event φ)) : List (Fin 16) → (ℕ → Option ℕ) → Option (ℕ → Option ℕ)
  | [], nextFree => some nextFree
  | b :: bs, nextFree =>
    if img.count < img.hashHead b then none
    else
      match img.follow nodes b img.count (img.hashHead b) nextFree with
      | none => none
      | some nextFree => followAll nodes bs nextFree

/-- `snapshot_restore_list`. -/
def restore (decode : BitVec 32 → Option φ) (memory : ℕ → Bool) : Option (Restored φ) :=
  if img.count = 0 then some {}
  else if memory 0 = false then none
  else
    match nodesFrom decode memory 0 img.used with
    | none => none
    | some nodes =>
      let links := (List.range img.count).foldl threaded (fun _ => none, fun _ => none)
      match img.followAll nodes (List.finRange 16) fun _ => none with
      | none => none
      | some nextFree =>
        some
          { nodes, nextFree
            previous := links.1
            next := links.2
            head := some 0
            tail := some (img.count - 1)
            table := fun b => link (img.hashHead b) }

end Image

/-- The rebuilt list, as the operations see it. -/
def Restored.toQueue (r : Restored φ) (img : Image) : Queue φ where
  events := r.nodes
  table b := (chainOf r.nextFree r.nodes.length (r.table b)).filterMap fun i =>
    r.nodes[i]?.map Event.toTicket
  nextFreeHandle := img.nextHandle
  free := 0
  count := img.counter
  issued := r.nodes.length

namespace Module

/-- `q_event_snapshot_capture`. -/
def capture (m : Module φ) (encode : φ → Option (BitVec 32)) (capacity : Which → ℕ) :
    Option (Which → Image) :=
  match (m.queue .quick).capture encode (capacity .quick),
      (m.queue .tick).capture encode (capacity .tick) with
  | some quick, some tick => some fun | .quick => quick | .tick => tick
  | _, _ => none

/-- What `q_event_snapshot_restore` builds of both lists before it touches the live ones. -/
def rebuild (snapshot : Which → Image) (decode : BitVec 32 → Option φ) (memory : Which → ℕ → Bool) :
    Option (Which → Restored φ) :=
  if (snapshot .quick).entries.length < (snapshot .quick).count ∨
      (snapshot .tick).entries.length < (snapshot .tick).count then none
  else
    match (snapshot .quick).restore decode (memory .quick),
        (snapshot .tick).restore decode (memory .tick) with
    | some quick, some tick => some fun | .quick => quick | .tick => tick
    | _, _ => none

/-- `q_event_snapshot_restore`. -/
def restore (m : Module φ) (snapshot : Which → Image) (decode : BitVec 32 → Option φ)
    (memory : Which → ℕ → Bool) : Bool × Module φ :=
  match rebuild snapshot decode memory with
  | none => (false, m)
  | some lists => (true, { m with queue := fun w => (lists w).toQueue (snapshot w) })

end Module

/-! ## What a restore builds -/

/-- The list is linked both ways from head to tail, the chains end, and every node is on the chain of its
bucket and on no other. -/
structure Restored.WellFormed (r : Restored φ) : Prop where
  forward : Path r.next r.head (List.range r.nodes.length)
  backward : Path r.previous r.tail (List.range r.nodes.length).reverse
  chains : ∃ chain : Fin 16 → List ℕ, (∀ b, Path r.nextFree (r.table b) (chain b)) ∧
    ∀ b, (∀ i ∈ chain b, i < r.nodes.length) ∧
      ∀ i e, r.nodes[i]? = some e → (i ∈ chain b ↔ bucket e.handle = b)

/-- The chains of the snapshot reach every entry, from the head of its bucket. -/
def Image.Covers (img : Image) : Prop :=
  ∀ i x, img.used[i]? = some x →
    ∃ l, Path (fun j => link (img.nextIndex j)) (link (img.hashHead (bucket x.handle))) l ∧ i ∈ l

namespace Image

variable {img : Image} {decode : BitVec 32 → Option φ} {memory : ℕ → Bool} {nodes : List (Event φ)}

theorem nodesFrom_spec {i : ℕ} {xs : List Entry} {es : List (Event φ)}
    (h : nodesFrom decode memory i xs = some es) :
    es.length = xs.length ∧
      ∀ k x, xs[k]? = some x → ∃ e, es[k]? = some e ∧ node decode memory x (i + k) = some e := by
  induction xs generalizing i es with
  | nil =>
    obtain rfl : [] = es := Option.some.inj h
    simp
  | cons x xs ih =>
    rw [nodesFrom] at h
    split at h
    next e es' he hes =>
      obtain rfl : e :: es' = es := Option.some.inj h
      obtain ⟨hlen, hget⟩ := ih hes
      refine ⟨by simp [hlen], ?_⟩
      rintro (_ | k) y hy
      · obtain rfl : x = y := by simpa using hy
        exact ⟨e, rfl, by simpa using he⟩
      · obtain ⟨e', he', hn⟩ := hget k y (by simpa using hy)
        exact ⟨e', by simpa using he', by rw [← hn]; congr 1; omega⟩
    next => cases h

theorem handle_of_node {x : Entry} {i : ℕ} {e : Event φ} (h : node decode memory x i = some e) :
    e.handle = x.handle := by
  unfold node at h
  split at h
  · split at h
    · cases h
    · obtain rfl := Option.some.inj h
      rfl
  · cases h

/-- `previous` and `next` after `n` turns. -/
theorem threaded_range (n : ℕ) : ∀ i < n,
    ((List.range n).foldl threaded (fun _ => none, fun _ => none)).1 i =
        (if i = 0 then none else some (i - 1)) ∧
      ((List.range n).foldl threaded (fun _ => none, fun _ => none)).2 i =
        if i + 1 < n then some (i + 1) else none := by
  induction n with
  | zero => simp
  | succ n ih =>
    intro i hi
    rw [List.range_succ, List.foldl_append, List.foldl_cons, List.foldl_nil]
    generalize (List.range n).foldl threaded (fun _ => none, fun _ => none) = links at ih
    by_cases hn : n = 0
    · obtain rfl : i = 0 := by omega
      simp [threaded, hn]
    · rw [threaded, if_neg hn]
      by_cases hin : i = n
      · have hne : n ≠ n - 1 := by omega
        simp [hin, hn, hne]
      · obtain ⟨h₁, h₂⟩ := ih i (by omega)
        by_cases hlast : i = n - 1
        · simp [hlast, show n - 1 ≠ n by omega, show n - 1 + 1 = n by omega] at h₁ ⊢
          exact h₁
        · rw [if_pos (by omega)] at h₂
          simp [hin, hlast, h₁, h₂, show i + 1 < n + 1 by omega]

theorem path_next {f : ℕ → Option ℕ} {n : ℕ} (hf : ∀ i < n, f i = if i + 1 < n then some (i + 1) else none)
    (hn : 0 < n) : Path f (some 0) (List.range n) := by
  have key : ∀ k i, i + (k + 1) = n → Path f (some i) (List.range' i (k + 1)) := by
    intro k
    induction k with
    | zero =>
      intro i hi
      simp [path_cons, path_nil, hf i (by omega), hi]
    | succ k ih =>
      intro i hi
      rw [List.range'_succ, path_cons, hf i (by omega), if_pos (by omega)]
      exact ⟨rfl, ih (i + 1) (by omega)⟩
  obtain ⟨k, rfl⟩ := Nat.exists_eq_succ_of_ne_zero hn.ne'
  rw [List.range_eq_range']
  exact key k 0 (by omega)

theorem path_previous {f : ℕ → Option ℕ} {n : ℕ}
    (hf : ∀ i < n, f i = if i = 0 then none else some (i - 1)) (hn : 0 < n) :
    Path f (some (n - 1)) (List.range n).reverse := by
  induction n with
  | zero => omega
  | succ n ih =>
    rw [List.range_succ, List.reverse_append, List.reverse_singleton, List.singleton_append, path_cons]
    refine ⟨rfl, ?_⟩
    rw [hf n (by omega)]
    cases n with
    | zero => simp [path_nil]
    | succ n => exact ih (fun i hi => hf i (by omega)) (by omega)

/-- The chain that was followed. -/
theorem follow_spec {b : Fin 16} {fuel head : ℕ} {nextFree nextFree' : ℕ → Option ℕ}
    (h : img.follow nodes b fuel head nextFree = some nextFree') :
    ∃ l, Path (fun j => link (img.nextIndex j)) (link head) l ∧ l.length ≤ fuel ∧
      (∀ j ∈ l, ∃ e, nodes[j]? = some e ∧ bucket e.handle = b) ∧
      (∀ j ∈ l, nextFree' j = link (img.nextIndex j)) ∧
      ∀ j, nextFree j = link (img.nextIndex j) → nextFree' j = link (img.nextIndex j) := by
  induction fuel generalizing head nextFree with
  | zero =>
    cases head with
    | zero =>
      obtain rfl : nextFree = nextFree' := by simpa [follow] using h
      exact ⟨[], trivial, le_rfl, nofun, nofun, fun _ hj => hj⟩
    | succ j => cases h
  | succ fuel ih =>
    cases head with
    | zero =>
      obtain rfl : nextFree = nextFree' := by simpa [follow] using h
      exact ⟨[], trivial, Nat.zero_le _, nofun, nofun, fun _ hj => hj⟩
    | succ j =>
      rw [follow] at h
      split at h
      next => cases h
      next e he =>
        split at h
        next => cases h
        next hc =>
          push Not at hc
          obtain ⟨l, hpath, hlen, hown, hset, hkeep⟩ := ih h
          have hj : nextFree' j = link (img.nextIndex j) := hkeep j (by simp)
          refine ⟨j :: l, path_cons.2 ⟨rfl, hpath⟩, by simpa using hlen, ?_, ?_, ?_⟩
          · rintro i (_ | ⟨_, hi⟩)
            · exact ⟨e, he, hc.1⟩
            · exact hown i hi
          · rintro i (_ | ⟨_, hi⟩)
            · exact hj
            · exact hset i hi
          · intro i hi
            by_cases hij : i = j
            · exact hij ▸ hj
            · exact hkeep i (by rw [Function.update_of_ne hij, hi])

theorem followAll_spec {bs : List (Fin 16)} {nextFree nextFree' : ℕ → Option ℕ}
    (h : img.followAll nodes bs nextFree = some nextFree') :
    (∀ b ∈ bs, ∃ l, Path (fun j => link (img.nextIndex j)) (link (img.hashHead b)) l ∧
      l.length ≤ img.count ∧ (∀ j ∈ l, ∃ e, nodes[j]? = some e ∧ bucket e.handle = b) ∧
      ∀ j ∈ l, nextFree' j = link (img.nextIndex j)) ∧
    ∀ j, nextFree j = link (img.nextIndex j) → nextFree' j = link (img.nextIndex j) := by
  induction bs generalizing nextFree with
  | nil =>
    obtain rfl : nextFree = nextFree' := Option.some.inj h
    exact ⟨nofun, fun _ hj => hj⟩
  | cons b bs ih =>
    rw [followAll] at h
    split at h
    next => cases h
    next =>
      split at h
      next => cases h
      next nf hf =>
        obtain ⟨l, hpath, hlen, hown, hset, hkeep⟩ := follow_spec hf
        obtain ⟨hall, hkeep'⟩ := ih h
        refine ⟨?_, fun j hj => hkeep' j (hkeep j hj)⟩
        rintro b' (_ | ⟨_, hb'⟩)
        · exact ⟨l, hpath, hlen, hown, fun j hj => hkeep' j (hset j hj)⟩
        · exact hall b' hb'

/-- A list that was rebuilt from at least one entry. -/
theorem restore_spec (hcap : img.count ≤ img.entries.length) {r : Restored φ} (hcount : img.count ≠ 0)
    (h : img.restore decode memory = some r) :
    r.nodes.length = img.count ∧
      (∀ i x, img.used[i]? = some x → ∃ e, r.nodes[i]? = some e ∧ node decode memory x i = some e) ∧
      Path r.next r.head (List.range r.nodes.length) ∧
      Path r.previous r.tail (List.range r.nodes.length).reverse ∧
      ∃ chain : Fin 16 → List ℕ, ∀ b,
        Path (fun j => link (img.nextIndex j)) (link (img.hashHead b)) (chain b) ∧
        Path r.nextFree (r.table b) (chain b) ∧ (chain b).length ≤ img.count ∧
        ∀ j ∈ chain b, ∃ e, r.nodes[j]? = some e ∧ bucket e.handle = b := by
  rw [restore, if_neg hcount] at h
  split at h
  next => cases h
  next =>
    split at h
    next => cases h
    next nodes hnodes =>
      dsimp only at h
      split at h
      next => cases h
      next nextFree hfollow =>
        obtain rfl := Option.some.inj h
        obtain ⟨hlen, hget⟩ := nodesFrom_spec hnodes
        have hlen' : nodes.length = img.count := by
          rw [hlen, used, List.length_take]
          omega
        have hthread := threaded_range img.count
        obtain ⟨hall, -⟩ := followAll_spec hfollow
        refine ⟨hlen', ?_, ?_, ?_, ?_⟩
        · intro i x hx
          obtain ⟨e, he, hn⟩ := hget i x hx
          exact ⟨e, he, by simpa using hn⟩
        · dsimp only
          rw [hlen']
          exact path_next (fun i hi => (hthread i hi).2) (by omega)
        · dsimp only
          rw [hlen']
          exact path_previous (fun i hi => (hthread i hi).1) (by omega)
        · choose chain hchain using fun b => hall b (List.mem_finRange b)
          refine ⟨chain, fun b => ?_⟩
          obtain ⟨hpath, hle, hown, hset⟩ := hchain b
          exact ⟨hpath, hpath.congr hset, hle, hown⟩

/-- **A list that is accepted is well formed exactly when its chains reach every entry.** -/
theorem wellFormed_iff_covers (hcap : img.count ≤ img.entries.length) {r : Restored φ}
    (h : img.restore decode memory = some r) : r.WellFormed ↔ img.Covers := by
  by_cases hcount : img.count = 0
  · rw [restore, if_pos hcount] at h
    obtain rfl := Option.some.inj h
    have hcov : img.Covers := by
      intro i x hx
      simp [used, hcount] at hx
    exact ⟨fun _ => hcov, fun _ => ⟨trivial, trivial, fun _ => [], fun _ => trivial, by simp⟩⟩
  · obtain ⟨hlen, hget, hnext, hprev, chain, hchain⟩ := restore_spec hcap hcount h
    constructor
    · rintro ⟨-, -, chain', hpath', hmem'⟩ i x hx
      obtain ⟨e, he, hn⟩ := hget i x hx
      obtain ⟨hpath, hfree, -⟩ := hchain (bucket x.handle)
      refine ⟨_, hpath, ?_⟩
      rw [hfree.unique (hpath' _)]
      exact ((hmem' _).2 i e he).2 (by rw [handle_of_node hn])
    · intro hcov
      refine ⟨hnext, hprev, chain, fun b => (hchain b).2.1, fun b => ⟨?_, ?_⟩⟩
      · intro i hi
        obtain ⟨e, he, -⟩ := (hchain b).2.2.2 i hi
        exact (List.getElem?_eq_some_iff.1 he).1
      · intro i e he
        constructor
        · intro hi
          obtain ⟨e', he', hb⟩ := (hchain b).2.2.2 i hi
          obtain rfl : e = e' := Option.some.inj (he.symm.trans he')
          exact hb
        · rintro rfl
          have hi : i < img.used.length := by
            have := (List.getElem?_eq_some_iff.1 he).1
            rw [used, List.length_take]
            omega
          obtain ⟨e', he', hn⟩ := hget i _ (List.getElem?_eq_getElem hi)
          obtain rfl : e = e' := Option.some.inj (he.symm.trans he')
          obtain ⟨l, hpath, hmem⟩ := hcov i _ (List.getElem?_eq_getElem hi)
          rw [handle_of_node hn, (hchain _).1.unique hpath]
          exact hmem

/-- A chain that ends, in range and in its bucket, is followed. -/
theorem follow_eq_some {b : Fin 16} {fuel head : ℕ} {l : List ℕ} (nextFree : ℕ → Option ℕ)
    (hpath : Path (fun j => link (img.nextIndex j)) (link head) l) (hfuel : l.length ≤ fuel)
    (hown : ∀ j ∈ l, ∃ e, nodes[j]? = some e ∧ bucket e.handle = b)
    (hle : ∀ j ∈ l, img.nextIndex j ≤ img.count) :
    ∃ nextFree', img.follow nodes b fuel head nextFree = some nextFree' := by
  induction l generalizing fuel head nextFree with
  | nil =>
    cases head with
    | zero => exact ⟨nextFree, by cases fuel <;> rfl⟩
    | succ j => cases path_nil.1 hpath
  | cons i l ih =>
    obtain ⟨hi, htail⟩ := path_cons.1 hpath
    cases head with
    | zero => cases hi
    | succ j =>
      obtain rfl : j = i := Option.some.inj hi
      cases fuel with
      | zero => simp at hfuel
      | succ fuel =>
        obtain ⟨e, he, hb⟩ := hown j (.head _)
        have hj := hle j (.head _)
        simp only [follow, he, hb, ne_eq, not_true_eq_false, false_or, Nat.not_lt.2 hj, if_false]
        exact ih _ htail (by simpa using hfuel) (fun k hk => hown k (.tail _ hk))
          fun k hk => hle k (.tail _ hk)

theorem followAll_eq_some {bs : List (Fin 16)} {chain : Fin 16 → List ℕ} (nextFree : ℕ → Option ℕ)
    (hpath : ∀ b, Path (fun j => link (img.nextIndex j)) (link (img.hashHead b)) (chain b))
    (hlen : ∀ b, (chain b).length ≤ img.count) (hcount : nodes.length = img.count)
    (hown : ∀ b, ∀ j ∈ chain b, ∃ e, nodes[j]? = some e ∧ bucket e.handle = b) :
    ∃ nextFree', img.followAll nodes bs nextFree = some nextFree' := by
  have hlt : ∀ b, ∀ j ∈ chain b, j < img.count := by
    intro b j hj
    obtain ⟨e, he, -⟩ := hown b j hj
    exact hcount ▸ (List.getElem?_eq_some_iff.1 he).1
  -- A link is zero or the successor of a place on the chain.
  have hlink : ∀ b k, (link k = none ∨ ∃ j ∈ chain b, link k = some j) → k ≤ img.count := by
    rintro b (_ | k) hk
    · exact Nat.zero_le _
    · rcases hk with h0 | ⟨j, hj, hk⟩
      · cases h0
      · obtain rfl : k = j := Option.some.inj hk
        exact hlt b k hj
  induction bs generalizing nextFree with
  | nil => exact ⟨nextFree, rfl⟩
  | cons b bs ih =>
    have hhead : ¬img.count < img.hashHead b := Nat.not_lt.2 (hlink b _ (hpath b).start_mem)
    obtain ⟨nf, hnf⟩ := follow_eq_some nextFree (hpath b) (hlen b) (hown b)
      fun j hj => hlink b _ ((hpath b).next_mem hj)
    obtain ⟨nf', hnf'⟩ := ih nf
    exact ⟨nf', by rw [followAll, if_neg hhead, hnf]; exact hnf'⟩

end Image

/-! ## The round trip -/

namespace Queue

variable {q : Queue φ} {encode : φ → Option (BitVec 32)} {decode : BitVec 32 → Option φ}
  {memory : ℕ → Bool}

theorem ofNat?_toNat (k : EventType) : EventType.ofNat? k.toNat = some k := by cases k <;> rfl

theorem length_entriesOf {es : List (Event φ)} {xs : List Entry} (h : entriesOf encode es = some xs) :
    xs.length = es.length := by
  induction es generalizing xs with
  | nil => obtain rfl : [] = xs := Option.some.inj h; rfl
  | cons e es ih =>
    rw [entriesOf] at h
    split at h
    next x xs' _ hxs =>
      obtain rfl : x :: xs' = xs := Option.some.inj h
      simp [ih hxs]
    next => cases h

/-- The nodes of the entries are those of the list, numbered. -/
theorem nodesFrom_entriesOf (hcodec : ∀ f id, encode f = some id → decode id = some f)
    (hmem : ∀ i, memory i = true) {es : List (Event φ)} (hh : ∀ e ∈ es, e.handle ≠ 0) {xs : List Entry}
    (h : entriesOf encode es = some xs) (i : ℕ) (next : ℕ → ℕ) :
    Image.nodesFrom decode memory i (xs.mapIdx fun k x => { x with hashNextIndex := next k }) =
      some (es.mapIdx fun k e => { e with node := i + k }) := by
  induction es generalizing xs i next with
  | nil => obtain rfl : [] = xs := Option.some.inj h; rfl
  | cons e es ih =>
    rw [entriesOf] at h
    split at h
    next x xs' hx hxs =>
      obtain rfl : x :: xs' = xs := Option.some.inj h
      obtain ⟨id, hid, rfl⟩ := Option.map_eq_some_iff.1 hx
      have hhead : Image.node decode memory
          ⟨e.timeFromLast, e.originalTime, e.handle, e.param, e.eventType.toNat, id, next 0⟩ i =
          some { e with node := i } := by
        simp [Image.node, ofNat?_toNat, hcodec _ _ hid, hh e (.head _), hmem]
      have htail := ih (fun e he => hh e (.tail _ he)) hxs (i + 1) fun k => next (k + 1)
      rw [List.mapIdx_cons, Image.nodesFrom, hhead, htail, List.mapIdx_cons]
      simp [Nat.add_assoc, Nat.add_comm 1]
    next => cases h

/-- The node of a chain is at its place. -/
theorem place_spec (hq : Indexed q) {t : Ticket φ} (ht : t ∈ q.tickets) :
    ∃ e, q.events[q.place t]? = some e ∧ e.toTicket = t := by
  obtain ⟨e, he, rfl⟩ := List.mem_map.1 ht
  have hlt : q.place e.toTicket < q.events.length :=
    List.findIdx_lt_length_of_exists ⟨e, he, by simp⟩
  refine ⟨_, List.getElem?_eq_getElem hlt, ?_⟩
  have hnode := List.findIdx_getElem (p := fun e' : Event φ => e'.node = e.node) (w := hlt)
  exact hq.nodes _ (List.mem_map_of_mem (List.getElem_mem hlt)) _ ht (of_decide_eq_true hnode)

theorem place_injective (hq : Indexed q) {t t' : Ticket φ} (ht : t ∈ q.tickets) (ht' : t' ∈ q.tickets)
    (h : q.place t = q.place t') : t = t' := by
  obtain ⟨e, he, rfl⟩ := place_spec hq ht
  obtain ⟨e', he', rfl⟩ := place_spec hq ht'
  rw [h, he'] at he
  rw [Option.some.inj he]

theorem place_lt (hq : Indexed q) {t : Ticket φ} (ht : t ∈ q.tickets) :
    q.place t < q.events.length := by
  obtain ⟨e, he, -⟩ := place_spec hq ht
  exact (List.getElem?_eq_some_iff.1 he).1

/-- The places of a chain. -/
def places (q : Queue φ) (b : Fin 16) : List ℕ := (q.table b).map q.place

theorem mem_places (hq : Indexed q) {b : Fin 16} {i : ℕ} (hi : i ∈ q.places b) :
    ∃ e, q.events[i]? = some e ∧ bucket e.handle = b := by
  obtain ⟨t, ht, rfl⟩ := List.mem_map.1 hi
  obtain ⟨hmem, hb⟩ := hq.linked.mem_table.1 ht
  obtain ⟨e, he, rfl⟩ := place_spec hq hmem
  exact ⟨e, he, hb⟩

theorem nodup_places (hq : Indexed q) (b : Fin 16) : (q.places b).Nodup := by
  rw [places, List.Nodup, List.pairwise_map]
  refine (hq.linked.chain b).imp_of_mem fun ht ht' hne he => hne ?_
  rw [place_injective hq (hq.linked.mem_table.1 ht).1 (hq.linked.mem_table.1 ht').1 he]

theorem length_places (hq : Indexed q) (b : Fin 16) : (q.places b).length ≤ q.events.length := by
  have hsub : q.places b ⊆ List.range q.events.length := by
    intro i hi
    obtain ⟨e, he, -⟩ := mem_places hq hi
    exact List.mem_range.2 (List.getElem?_eq_some_iff.1 he).1
  simpa using (List.subperm_of_subset (nodup_places hq b) hsub).length_le

/-- **The captured chains visit the places of the live ones.** -/
theorem captureChains_spec (hq : Indexed q) {bs : List (Fin 16)} (hbs : bs.Nodup) (next : ℕ → ℕ)
    (h0 : ∀ b ∈ bs, ∀ i ∈ q.places b, next i = 0) :
    (∀ b ∈ bs, Path (fun j => link ((q.captureChains bs next).2 j))
        (link ((q.captureChains bs next).1 b)) (q.places b)) ∧
      ∀ i, (∀ b ∈ bs, i ∉ q.places b) → (q.captureChains bs next).2 i = next i := by
  induction bs generalizing next with
  | nil => exact ⟨nofun, fun _ _ => rfl⟩
  | cons b bs ih =>
    obtain ⟨hb, hbs'⟩ := List.nodup_cons.1 hbs
    obtain ⟨hpath, hout⟩ := path_foldl_append (nodup_places hq b) (length_places hq b) (h0 b (.head _))
    -- A place is on the chain of one bucket.
    have hdisj : ∀ b' ∈ bs, ∀ i ∈ q.places b', i ∉ q.places b := by
      intro b' hb' i hi' hi
      obtain ⟨e, he, rfl⟩ := mem_places hq hi
      obtain ⟨e', he', rfl⟩ := mem_places hq hi'
      obtain rfl : e = e' := Option.some.inj (he.symm.trans he')
      exact hb hb'
    obtain ⟨hpath', hout'⟩ := ih hbs' ((q.places b).foldl (append q.events.length) (0, next)).2
      fun b' hb' i hi => by rw [hout i (hdisj b' hb' i hi)]; exact h0 b' (.tail _ hb') i hi
    rw [captureChains]
    dsimp only
    rw [← places]
    refine ⟨?_, ?_⟩
    · rintro b' (_ | ⟨_, hb'⟩)
      · rw [Function.update_self]
        refine hpath.congr fun i hi => ?_
        rw [hout' i fun b' hb' hi' => hdisj b' hb' i hi' hi]
      · have hne : b' ≠ b := fun he => hb (he ▸ hb')
        rw [Function.update_of_ne hne]
        exact hpath' b' hb'
    · intro i hi
      rw [hout' i fun b' hb' => hi b' (.tail _ hb'), hout i (hi b (.head _))]

/-- The nodes of the list at the addresses of their places. -/
def numbered (q : Queue φ) : List (Event φ) := q.events.mapIdx fun i e => { e with node := i }

theorem numbered_getElem? (i : ℕ) :
    q.numbered[i]? = q.events[i]?.map fun e => { e with node := i } := by
  rw [numbered, List.getElem?_mapIdx]

/-- Entries linked along the chains are rebuilt. -/
theorem restore_of_chains (hq : Indexed q) (hcodec : ∀ f id, encode f = some id → decode id = some f)
    (hmem : ∀ i, memory i = true) {xs : List Entry} (hxs : entriesOf encode q.events = some xs)
    {heads : Fin 16 → ℕ} {next : ℕ → ℕ}
    (hpath : ∀ b, Path (fun j => link (next j)) (link (heads b)) (q.places b)) :
    ∃ r, Image.restore ⟨q.nextFreeHandle, q.count, q.events.length, heads,
        xs.mapIdx fun i x => { x with hashNextIndex := next i }⟩ decode memory = some r ∧
      r.nodes = q.numbered ∧ ∀ b, Path r.nextFree (r.table b) (q.places b) := by
  have hlen := length_entriesOf hxs
  set img : Image := ⟨q.nextFreeHandle, q.count, q.events.length, heads,
    xs.mapIdx fun i x => { x with hashNextIndex := next i }⟩ with himg
  by_cases h0 : q.events.length = 0
  · have hnil : q.events = [] := List.length_eq_zero_iff.1 h0
    refine ⟨{}, by rw [Image.restore, if_pos h0], by simp [numbered, hnil], fun b => ?_⟩
    have htable : q.table b = [] := by
      refine List.eq_nil_iff_forall_not_mem.2 fun t ht => ?_
      have := (hq.linked.mem_table.1 ht).1
      simp [tickets, hnil] at this
    simp [places, htable, path_nil]
  · have hused : img.used = img.entries := by
      rw [Image.used, List.take_of_length_le]
      simp [himg, hlen]
    have hnodes : Image.nodesFrom decode memory 0 img.used = some q.numbered := by
      rw [hused, himg, nodesFrom_entriesOf hcodec hmem ?_ hxs 0 next]
      · simp [numbered]
      · exact fun e he => hq.handles e.toTicket (List.mem_map_of_mem he)
    have hchain : ∀ b, Path (fun j => link (img.nextIndex j)) (link (img.hashHead b)) (q.places b) := by
      intro b
      refine (hpath b).congr fun i hi => ?_
      obtain ⟨e, he, -⟩ := mem_places hq hi
      have hi' : i < xs.length := hlen ▸ (List.getElem?_eq_some_iff.1 he).1
      rw [Image.nextIndex, hused, himg]
      simp [hi']
    have hown : ∀ b, ∀ j ∈ q.places b, ∃ e, q.numbered[j]? = some e ∧ bucket e.handle = b := by
      intro b j hj
      obtain ⟨e, he, hb⟩ := mem_places hq hj
      exact ⟨{ e with node := j }, by rw [numbered_getElem?, he]; rfl, hb⟩
    obtain ⟨nextFree, hfollow⟩ : ∃ nextFree, img.followAll q.numbered (List.finRange 16) (fun _ => none)
        = some nextFree :=
      Image.followAll_eq_some _ hchain (length_places hq) (by simp [numbered, himg]) hown
    obtain ⟨hall, -⟩ := Image.followAll_spec hfollow
    have hcount : img.count ≠ 0 := h0
    have hrestore : img.restore decode memory = some
        { nodes := q.numbered
          nextFree := nextFree
          previous := ((List.range img.count).foldl Image.threaded (fun _ => none, fun _ => none)).1
          next := ((List.range img.count).foldl Image.threaded (fun _ => none, fun _ => none)).2
          head := some 0
          tail := some (img.count - 1)
          table := fun b => link (img.hashHead b) } := by
      rw [Image.restore, if_neg hcount, if_neg (by simp [hmem]), hnodes]
      dsimp only
      rw [hfollow]
    refine ⟨_, hrestore, rfl, fun b => ?_⟩
    obtain ⟨l, hl, -, -, hset⟩ := hall b (List.mem_finRange b)
    obtain rfl := hl.unique (hchain b)
    exact hl.congr hset

/-- A snapshot that was captured is rebuilt. -/
theorem restore_of_capture (hq : Indexed q) (hcodec : ∀ f id, encode f = some id → decode id = some f)
    (hmem : ∀ i, memory i = true) {capacity : ℕ} {img : Image}
    (h : q.capture encode capacity = some img) :
    img.count ≤ img.entries.length ∧ img.nextHandle = q.nextFreeHandle ∧ img.counter = q.count ∧
      ∃ r, img.restore decode memory = some r ∧ r.nodes = q.numbered ∧
        ∀ b, Path r.nextFree (r.table b) (q.places b) := by
  rw [capture] at h
  split at h
  · cases h
  · split at h
    · cases h
    next xs hxs =>
      split at h
      · obtain rfl := Option.some.inj h
        refine ⟨by simp [length_entriesOf hxs], rfl, rfl, ?_⟩
        exact restore_of_chains hq hcodec hmem hxs fun b =>
          (captureChains_spec hq (List.nodup_finRange 16) _ (fun _ _ _ _ => rfl)).1 b (List.mem_finRange b)
      · cases h

/-- A node moved to the address of its place. -/
def readdress (q : Queue φ) (t : Ticket φ) : Ticket φ := { t with node := q.place t }

theorem place_getElem (hq : Indexed q) {i : ℕ} {e : Event φ} (he : q.events[i]? = some e) :
    q.place e.toTicket = i := by
  have hmem : e.toTicket ∈ q.tickets := List.mem_map_of_mem (List.mem_of_getElem? he)
  obtain ⟨e', he', ht⟩ := place_spec hq hmem
  have hnd : q.tickets.Nodup := hq.linked.handles.imp fun hne heq => hne (by rw [heq])
  refine (List.getElem?_inj ?_ hnd).1 ?_
  · simpa [tickets] using place_lt hq hmem
  · simp [tickets, he, he', ht]

theorem tickets_numbered (hq : Indexed q) :
    q.numbered.map Event.toTicket = q.tickets.map q.readdress := by
  refine List.ext_getElem? fun i => ?_
  rw [List.getElem?_map, numbered_getElem?, List.getElem?_map, tickets, List.getElem?_map]
  cases he : q.events[i]? with
  | none => rfl
  | some e => simp [readdress, place_getElem hq he]

variable {r : Restored φ} {img : Image}

theorem table_toQueue (hq : Indexed q) (hnodes : r.nodes = q.numbered)
    (hpath : ∀ b, Path r.nextFree (r.table b) (q.places b)) (b : Fin 16) :
    (r.toQueue img).table b = (q.table b).map q.readdress := by
  have hlen : (q.places b).length ≤ r.nodes.length := by
    rw [hnodes, numbered, List.length_mapIdx]
    exact length_places hq b
  change (chainOf r.nextFree r.nodes.length (r.table b)).filterMap _ = _
  rw [(hpath b).chainOf_eq hlen, places, List.filterMap_map, hnodes]
  rw [← List.filterMap_eq_map]
  refine List.filterMap_congr fun t ht => ?_
  obtain ⟨e, he, rfl⟩ := place_spec hq (hq.linked.mem_table.1 ht).1
  simp [numbered_getElem?, he, readdress]

/-- **The rebuilt list is the captured one, at other addresses.** -/
theorem similar_toQueue (hq : Indexed q) (hnodes : r.nodes = q.numbered)
    (hpath : ∀ b, Path r.nextFree (r.table b) (q.places b)) (hnext : img.nextHandle = q.nextFreeHandle)
    (hcount : img.counter = q.count) :
    Similar q (r.toQueue img) ∧ Indexed (r.toQueue img) := by
  have htable : ∀ b, (r.toQueue img).table b = (q.table b).map q.readdress :=
    table_toQueue hq hnodes hpath
  have htickets : (r.toQueue img).tickets = q.tickets.map q.readdress := by
    rw [tickets, Restored.toQueue, hnodes]
    exact tickets_numbered hq
  refine ⟨⟨?_, ?_, hnext.symm, hcount.symm⟩, ⟨⟨?_, ?_, ?_⟩, ?_, ?_, ?_⟩⟩
  · rw [Restored.toQueue, hnodes]
    refine List.ext_getElem? fun i => ?_
    rw [List.getElem?_map, List.getElem?_map, numbered_getElem?, Option.map_map]
    rfl
  · intro b
    rw [htable, List.map_map]
    rfl
  · intro b t
    rw [htable, htickets, List.mem_map, List.mem_map]
    constructor
    · rintro ⟨t', ht', rfl⟩
      obtain ⟨hmem, hb⟩ := hq.linked.mem_table.1 ht'
      exact ⟨⟨t', hmem, rfl⟩, hb⟩
    · rintro ⟨⟨t', ht', rfl⟩, hb⟩
      exact ⟨t', hq.linked.mem_table.2 ⟨ht', hb⟩, rfl⟩
  · intro b
    rw [htable, List.pairwise_map]
    exact hq.linked.chain b
  · rw [htickets, List.pairwise_map]
    exact hq.linked.handles
  · rw [htickets]
    rintro t ht t' ht' hn
    obtain ⟨u, hu, rfl⟩ := List.mem_map.1 ht
    obtain ⟨u', hu', rfl⟩ := List.mem_map.1 ht'
    rw [place_injective hq hu hu' hn]
  · rw [htickets]
    rintro t ht
    obtain ⟨u, hu, rfl⟩ := List.mem_map.1 ht
    change q.place u < r.nodes.length
    rw [hnodes, numbered, List.length_mapIdx]
    exact place_lt hq hu
  · rw [htickets]
    rintro t ht
    obtain ⟨u, hu, rfl⟩ := List.mem_map.1 ht
    exact hq.handles u hu

end Queue

/-! ## Both lists -/

namespace Module

variable {encode : φ → Option (BitVec 32)} {decode : BitVec 32 → Option φ} {memory : Which → ℕ → Bool}

/-- **A captured snapshot restores the lists**, at other addresses, into any live module. -/
theorem alike_restore {m : Module φ} (hm : ∀ w, Indexed (m.queue w))
    (hcodec : ∀ f id, encode f = some id → decode id = some f) (hmem : ∀ w i, memory w i = true)
    {capacity : Which → ℕ} {snapshot : Which → Image} (h : m.capture encode capacity = some snapshot)
    (live : Module φ) :
    (live.restore snapshot decode memory).1 = true ∧
      Alike m { m with queue := (live.restore snapshot decode memory).2.queue } := by
  have hw : ∀ w, (m.queue w).capture encode (capacity w) = some (snapshot w) := by
    rw [capture] at h
    split at h
    next quick tick hquick htick =>
      obtain rfl := Option.some.inj h
      rintro (_ | _)
      · exact hquick
      · exact htick
    next => cases h
  choose hcap hnext hcount r hr hnodes hpath using
    fun w => Queue.restore_of_capture (hm w) hcodec (hmem w) (hw w)
  have hrebuild : rebuild snapshot decode memory = some r := by
    have hfits : ¬((snapshot .quick).entries.length < (snapshot .quick).count ∨
        (snapshot .tick).entries.length < (snapshot .tick).count) := by
      rw [not_or, Nat.not_lt, Nat.not_lt]
      exact ⟨hcap .quick, hcap .tick⟩
    rw [rebuild, if_neg hfits, hr .quick, hr .tick]
    refine congrArg some (funext fun w => ?_)
    cases w <;> rfl
  have hrestore : live.restore snapshot decode memory =
      (true, { live with queue := fun w => (r w).toQueue (snapshot w) }) := by
    rw [restore, hrebuild]
  rw [hrestore]
  have hall : ∀ w, Similar (m.queue w) ((r w).toQueue (snapshot w)) ∧
      Indexed ((r w).toQueue (snapshot w)) := fun w =>
    Queue.similar_toQueue (hm w) (hnodes w) (hpath w) (hnext w) (hcount w)
  exact ⟨rfl, hm, fun w => (hall w).2, fun w => (hall w).1, rfl, rfl, rfl⟩

/-- A restore from outside does what it should: it installs lists that are well formed, or leaves the
live ones as they are. -/
def RestoresSoundly (live : Module φ) (snapshot : Which → Image) (decode : BitVec 32 → Option φ)
    (memory : Which → ℕ → Bool) : Prop :=
  match rebuild snapshot decode memory with
  | none => live.restore snapshot decode memory = (false, live)
  | some lists => ∀ w, (lists w).WellFormed ∧
      (live.restore snapshot decode memory).2.queue w = (lists w).toQueue (snapshot w)

theorem restoresSoundly_iff (live : Module φ) (snapshot : Which → Image) :
    live.RestoresSoundly snapshot decode memory ↔
      ((live.restore snapshot decode memory).1 = true → ∀ w, (snapshot w).Covers) := by
  rw [RestoresSoundly, restore]
  cases hr : rebuild snapshot decode memory with
  | none => simp
  | some lists =>
    have hcap : ∀ w, (snapshot w).count ≤ (snapshot w).entries.length ∧
        (snapshot w).restore decode (memory w) = some (lists w) := by
      rw [rebuild] at hr
      split at hr
      next => cases hr
      next hfits =>
        rw [not_or, Nat.not_lt, Nat.not_lt] at hfits
        split at hr
        next quick tick hquick htick =>
          obtain rfl := Option.some.inj hr
          rintro (_ | _)
          · exact ⟨hfits.1, hquick⟩
          · exact ⟨hfits.2, htick⟩
        next => cases hr
    simp only [forall_const, and_true]
    exact forall_congr' fun w => Image.wellFormed_iff_covers (hcap w).1 (hcap w).2

end Module

/-- **Snapshots of the event lists.**  For callback numbers that decode what they encode: what a capture
recorded of a reachable module restores lists with the same events, counters and handles, and every later
run does the same on them; and a restore of any snapshot does what it should exactly when it is refused or
its chains reach every entry. -/
theorem snapshot_restores (encode : φ → Option (BitVec 32)) (decode : BitVec 32 → Option φ)
    (hcodec : ∀ f id, encode f = some id → decode id = some f) :
    (∀ (ops : List (Op φ)) m, ops.foldlM Module.step (Module.init φ) = .ok m →
      ∀ capacity snapshot, m.capture encode capacity = some snapshot →
      ∀ (live : Module φ) (memory : Which → ℕ → Bool), (∀ w i, memory w i = true) →
        (live.restore snapshot decode memory).1 = true ∧
        (∀ w, Similar (m.queue w) ((live.restore snapshot decode memory).2.queue w)) ∧
        ∀ later : List (Op φ), (∀ r, .add r ∈ later → r.memory = true) →
          SameOutcome (later.foldlM Module.step m)
            (later.foldlM Module.step
              { m with queue := (live.restore snapshot decode memory).2.queue })) ∧
    ∀ (live : Module φ) (snapshot : Which → Image) (memory : Which → ℕ → Bool),
      live.RestoresSoundly snapshot decode memory ↔
        ((live.restore snapshot decode memory).1 = true → ∀ w, (snapshot w).Covers) := by
  refine ⟨?_, fun live snapshot memory => Module.restoresSoundly_iff live snapshot⟩
  intro ops m hrun capacity snapshot hcap live memory hmem
  obtain ⟨hok, halike⟩ := Module.alike_restore (indexed_of_run hrun) hcodec hmem hcap live
  exact ⟨hok, halike.similar, fun later hlater => halike.run later hlater⟩

/-- A snapshot of one tick event that no chain reaches. -/
def orphan : Which → Image
  | .quick => ⟨1, 0, 0, fun _ => 0, []⟩
  | .tick => ⟨2, 5, 1, fun _ => 0, [⟨5, 5, 1, 0, 2, 7, 0⟩]⟩

/-- It is accepted, and the delete of the event's handle does not find it. -/
theorem orphan_restored :
    ((Module.init Unit).restore orphan (fun _ => some ()) fun _ _ => true).1 = true ∧
      ¬(Module.init Unit).RestoresSoundly orphan (fun _ => some ()) (fun _ _ => true) ∧
      ((((Module.init Unit).restore orphan (fun _ => some ()) fun _ _ => true).2.delete .tick 1).queue
        .tick).events = [⟨⟨0, 1, (), 0, .tick⟩, 5, 5⟩] := by
  have hok : ((Module.init Unit).restore orphan (fun _ => some ()) fun _ _ => true).1 = true := rfl
  refine ⟨hok, ?_, rfl⟩
  rw [Module.restoresSoundly_iff]
  intro h
  obtain ⟨l, hpath, hmem⟩ := h hok .tick 0 ⟨5, 5, 1, 0, 2, 7, 0⟩ rfl
  obtain rfl : l = [] := hpath.unique (path_nil.2 rfl)
  cases hmem

/-- The same snapshot with its event on the chain of bucket 1. -/
def reached : Which → Image
  | .quick => ⟨1, 0, 0, fun _ => 0, []⟩
  | .tick => ⟨2, 5, 1, fun b => if b = 1 then 1 else 0, [⟨5, 5, 1, 0, 2, 7, 0⟩]⟩

/-- It is accepted as it should be, for a single callback that is numbered 7. -/
theorem reached_restored :
    (∀ f id, (fun _ : Unit => some (7 : BitVec 32)) f = some id →
      (fun id : BitVec 32 => if id = 7 then some () else none) id = some f) ∧
    ((Module.init Unit).restore reached (fun id => if id = 7 then some () else none)
      fun _ _ => true).1 = true ∧
    (Module.init Unit).RestoresSoundly reached (fun id => if id = 7 then some () else none)
      fun _ _ => true := by
  have hcodec : ∀ f id, (fun _ : Unit => some (7 : BitVec 32)) f = some id →
      (fun id : BitVec 32 => if id = 7 then some () else none) id = some f := by
    rintro ⟨⟩ id h
    obtain rfl := Option.some.inj h
    rfl
  refine ⟨hcodec, rfl, ?_⟩
  refine ((snapshot_restores _ _ hcodec).2 _ _ _).2 fun _ w i x hx => ?_
  cases w with
  | quick => simp [Image.used, reached] at hx
  | tick =>
    cases i with
    | zero =>
      obtain rfl : (⟨5, 5, 1, 0, 2, 7, 0⟩ : Entry) = x := Option.some.inj hx
      exact ⟨[0], ⟨rfl, trivial⟩, .head _⟩
    | succ i => simp [Image.used, reached] at hx

end SoftPC.QuickEv
