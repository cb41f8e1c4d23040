import Mathlib.Data.List.TakeDrop
import Mathlib.Logic.Function.Basic
import Mathlib.Tactic.Common

/-!
# Machinery/Decoder — programs that read a stream

A `Decoder` reads so many cells at a time, may ask for storage, and ends with a value or an error.
`run` gives it a `Source`, whose reads and storage may fail at any point; `parse` is what it makes of a
plain list when nothing fails.  `within` holds it to a length, as a section of a longer stream.

`Pairs d e ok` says that decoder and encoder belong together: `d` takes back what `e` emits for the
values `ok`, and emits for what `d` accepts exactly what was read.
-/

namespace SoftPC

/-- A program that reads cells `β`, and ends with an `α` or an error `ε`. -/
inductive Decoder (ε β α : Type) where
  | done (value : α)
  | fail (error : ε)
  | read (count : ℕ) (next : List β → Decoder ε β α)
  /-- Storage is asked for, and an error where there is none. -/
  | allocate (error : ε) (next : Decoder ε β α)

namespace Decoder

variable {ε β α γ : Type}

protected def bind : Decoder ε β α → (α → Decoder ε β γ) → Decoder ε β γ
  | done value, k => k value
  | fail error, _ => fail error
  | read count next, k => read count fun cells => (next cells).bind k
  | allocate error next, k => allocate error (next.bind k)

theorem bind_read (count : ℕ) (next : List β → Decoder ε β α) (k : α → Decoder ε β γ) :
    (read count next).bind k = read count fun cells => (next cells).bind k := rfl

theorem bind_allocate (error : ε) (next : Decoder ε β α) (k : α → Decoder ε β γ) :
    (allocate error next).bind k = allocate error (next.bind k) := rfl

instance : Monad (Decoder ε β) where
  pure := done
  bind := Decoder.bind

/-- The next `count` cells. -/
def cells (count : ℕ) : Decoder ε β (List β) := read count done

/-- A value that passes a check, or an error. -/
def ensure (accepts : Bool) (error : ε) : Decoder ε β Unit := if accepts then done () else fail error

/-- Storage, or an error. -/
def storage (error : ε) : Decoder ε β Unit := allocate error (done ())

/-- So many values, one after the other. -/
def many (d : Decoder ε β α) : ℕ → Decoder ε β (List α)
  | 0 => pure []
  | n + 1 => do
    let value ← d
    let rest ← many d n
    pure (value :: rest)

/-! ## What a decoder makes of a list -/

/-- The value, and what is left. -/
def parse : Decoder ε β α → List β → Option (α × List β)
  | done value, list => some (value, list)
  | fail _, _ => none
  | read count next, list =>
    if count ≤ list.length then (next (list.take count)).parse (list.drop count) else none
  | allocate _ next, list => next.parse list

variable {d : Decoder ε β α} {k : α → Decoder ε β γ} {list rest : List β} {a : α} {c : γ}

theorem parse_read (count : ℕ) (next : List β → Decoder ε β α) (list : List β) :
    (read count next).parse list =
      if count ≤ list.length then (next (list.take count)).parse (list.drop count) else none := rfl

@[simp] theorem parse_pure (a : α) (list : List β) :
    (pure a : Decoder ε β α).parse list = some (a, list) := rfl

@[simp] theorem parse_bind (d : Decoder ε β α) (k : α → Decoder ε β γ) (list : List β) :
    (d >>= k).parse list = (d.parse list).bind fun r => (k r.1).parse r.2 := by
  change (d.bind k).parse list = _
  induction d generalizing list with
  | done value => rfl
  | fail error => rfl
  | read count next ih =>
    simp only [bind_read, parse_read]
    split
    · exact ih _ _
    · rfl
  | allocate error next ih => exact ih list

@[simp] theorem parse_ensure (accepts : Bool) (error : ε) (list : List β) :
    (ensure accepts error : Decoder ε β Unit).parse list = if accepts then some ((), list) else none := by
  unfold ensure
  split <;> rfl

@[simp] theorem parse_storage (error : ε) (list : List β) :
    (storage error : Decoder ε β Unit).parse list = some ((), list) := rfl

/-- What a successful sequence did: its first decoder, and then the next. -/
theorem parse_bind_eq_some {r : γ × List β} :
    (d >>= k).parse list = some r ↔
      ∃ a mid, d.parse list = some (a, mid) ∧ (k a).parse mid = some r := by
  rw [parse_bind, Option.bind_eq_some_iff, Prod.exists]

theorem parse_pure_eq_some {b : α} :
    (pure a : Decoder ε β α).parse list = some (b, rest) ↔ a = b ∧ list = rest := by
  rw [parse_pure, Option.some.injEq, Prod.mk.injEq]

theorem parse_ensure_eq_some {accepts : Bool} {error : ε} {u : Unit} :
    (ensure accepts error : Decoder ε β Unit).parse list = some (u, rest) ↔
      accepts = true ∧ list = rest := by
  rw [parse_ensure]
  split <;> simp [*]

theorem parse_storage_eq_some {error : ε} {u : Unit} :
    (storage error : Decoder ε β Unit).parse list = some (u, rest) ↔ list = rest := by
  simp

theorem parse_cells (count : ℕ) (list : List β) :
    (cells count : Decoder ε β (List β)).parse list =
      if count ≤ list.length then some (list.take count, list.drop count) else none := rfl

/-- So many values, each of its own part of the list. -/
theorem parse_many {δ : Type} {encode : δ → List β} {f : δ → α} (values : List δ)
    (h : ∀ c ∈ values, ∀ rest, d.parse (encode c ++ rest) = some (f c, rest)) :
    (d.many values.length).parse (values.flatMap encode ++ rest) = some (values.map f, rest) := by
  induction values with
  | nil => rfl
  | cons value values ih =>
    rw [List.flatMap_cons, List.append_assoc, List.length_cons, many, parse_bind,
      h value (by simp)]
    dsimp only [Option.bind_some]
    rw [parse_bind, ih fun c hc => h c (List.mem_cons_of_mem _ hc)]
    rfl

/-- A decoder takes a first part of the list. -/
theorem parse_suffix (h : d.parse list = some (a, rest)) : ∃ taken, list = taken ++ rest := by
  induction d generalizing list with
  | done value =>
    obtain ⟨-, rfl⟩ := Prod.mk.inj (Option.some.inj h)
    exact ⟨[], rfl⟩
  | fail error => cases h
  | read count next ih =>
    simp only [parse_read] at h
    split at h
    · obtain ⟨taken, htaken⟩ := ih _ h
      exact ⟨list.take count ++ taken, by rw [List.append_assoc, ← htaken, List.take_append_drop]⟩
    · cases h
  | allocate error next ih => exact ih h

/-! ## Streams that fail -/

/-- A stream: what is still to be read, and which of the reads and allocations fail. -/
structure Source (ε β : Type) where
  list : List β
  /-- The error of a read, by the number of reads before it. -/
  fails : ℕ → Option ε
  /-- … and of one past the end. -/
  short : ε
  allocates : ℕ → Bool
  reads : ℕ := 0
  allocations : ℕ := 0

variable {s s' : Source ε β}

/-- A decoder on a stream. -/
def run : Decoder ε β α → Source ε β → Except ε α × Source ε β
  | done value, s => (.ok value, s)
  | fail error, s => (.error error, s)
  | read count next, s =>
    match s.fails s.reads with
    | some error => (.error error, { s with reads := s.reads + 1 })
    | none =>
      if count ≤ s.list.length then
        (next (s.list.take count)).run
          { s with list := s.list.drop count, reads := s.reads + 1 }
      else (.error s.short, { s with reads := s.reads + 1 })
  | allocate error next, s =>
    if s.allocates s.allocations then next.run { s with allocations := s.allocations + 1 }
    else (.error error, { s with allocations := s.allocations + 1 })

theorem run_read (count : ℕ) (next : List β → Decoder ε β α) (s : Source ε β) :
    (read count next).run s =
      match s.fails s.reads with
      | some error => (.error error, { s with reads := s.reads + 1 })
      | none =>
        if count ≤ s.list.length then
          (next (s.list.take count)).run
            { s with list := s.list.drop count, reads := s.reads + 1 }
        else (.error s.short, { s with reads := s.reads + 1 }) := rfl

theorem run_allocate (error : ε) (next : Decoder ε β α) (s : Source ε β) :
    (allocate error next).run s =
      if s.allocates s.allocations then next.run { s with allocations := s.allocations + 1 }
      else (.error error, { s with allocations := s.allocations + 1 }) := rfl

/-- A run goes on where the first decoder stopped, unless that failed. -/
theorem run_bind (d : Decoder ε β α) (k : α → Decoder ε β γ) (s : Source ε β) :
    (d >>= k).run s =
      match d.run s with
      | (.ok a, s') => (k a).run s'
      | (.error e, s') => (.error e, s') := by
  change (d.bind k).run s = _
  induction d generalizing s with
  | done value => rfl
  | fail error => rfl
  | read count next ih =>
    simp only [bind_read, run_read]
    split
    · rfl
    · split
      · exact ih _ _
      · rfl
  | allocate error next ih =>
    simp only [bind_allocate, run_allocate]
    split
    · exact ih _
    · rfl

/-- A stream on which nothing fails before its end. -/
def Source.Sound (s : Source ε β) : Prop := (∀ n, s.fails n = none) ∧ ∀ n, s.allocates n = true

/-- On a stream where nothing fails, a decoder does what it does on the list. -/
theorem run_of_parse (hs : s.Sound) (h : d.parse s.list = some (a, rest)) :
    (d.run s).1 = .ok a ∧ (d.run s).2.list = rest := by
  induction d generalizing s with
  | done value =>
    obtain ⟨rfl, rfl⟩ := Prod.mk.inj (Option.some.inj h)
    exact ⟨rfl, rfl⟩
  | fail error => cases h
  | read count next ih =>
    simp only [parse_read] at h
    split at h
    · rename_i hcount
      simp only [run_read, hs.1, if_pos hcount]
      exact ih _ ⟨hs.1, hs.2⟩ h
    · cases h
  | allocate error next ih =>
    simp only [run_allocate, hs.2, if_true]
    exact ih ⟨hs.1, hs.2⟩ h

/-- Whatever fails, a decoder that succeeds has done what it does on the list. -/
theorem parse_of_run (h : d.run s = (.ok a, s')) : d.parse s.list = some (a, s'.list) := by
  induction d generalizing s with
  | done value =>
    obtain ⟨hvalue, rfl⟩ := Prod.mk.inj h
    rw [← Except.ok.inj hvalue]
    rfl
  | fail error => cases (Prod.mk.inj h).1
  | read count next ih =>
    simp only [run_read] at h
    split at h
    · cases (Prod.mk.inj h).1
    · split at h
      · rename_i hcount
        simp only [parse_read, if_pos hcount]
        exact ih _ h
      · cases (Prod.mk.inj h).1
  | allocate error next ih =>
    simp only [run_allocate] at h
    split at h
    · have hparse := ih h
      exact hparse
    · cases (Prod.mk.inj h).1

/-- A run takes a first part of the stream, of at most `n` cells. -/
def Takes (d : Decoder ε β α) (s : Source ε β) (n : ℕ) : Prop :=
  ∃ taken, s.list = taken ++ (d.run s).2.list ∧ taken.length ≤ n

theorem Takes.mono {m n : ℕ} (h : d.Takes s m) (hmn : m ≤ n) : d.Takes s n := by
  obtain ⟨taken, hlist, hle⟩ := h
  exact ⟨taken, hlist, Nat.le_trans hle hmn⟩

theorem takes_pure (a : α) (s : Source ε β) : Takes (pure a : Decoder ε β α) s 0 := ⟨[], rfl, Nat.le_refl _⟩

theorem takes_ensure (accepts : Bool) (error : ε) (s : Source ε β) :
    Takes (ensure accepts error : Decoder ε β Unit) s 0 := by
  unfold ensure
  split
  · exact ⟨[], rfl, Nat.le_refl _⟩
  · exact ⟨[], rfl, Nat.le_refl _⟩

theorem takes_cells (count : ℕ) (s : Source ε β) :
    Takes (cells count : Decoder ε β (List β)) s count := by
  unfold Takes cells
  rw [run_read]
  split
  · exact ⟨[], rfl, Nat.zero_le _⟩
  · split
    · exact ⟨s.list.take count, (List.take_append_drop _ _).symm, List.length_take_le _ _⟩
    · exact ⟨[], rfl, Nat.zero_le _⟩

theorem Takes.bind {m n : ℕ} (hd : d.Takes s m)
    (hk : ∀ a s', d.run s = (.ok a, s') → (k a).Takes s' n) : (d >>= k).Takes s (m + n) := by
  obtain ⟨taken, hlist, hle⟩ := hd
  unfold Takes
  rw [run_bind]
  rcases hrun : d.run s with ⟨error | a, s'⟩
  · rw [hrun] at hlist
    exact ⟨taken, hlist, by omega⟩
  · rw [hrun] at hlist
    obtain ⟨taken', hlist', hle'⟩ := hk a s' hrun
    refine ⟨taken ++ taken', ?_, by rw [List.length_append]; omega⟩
    rw [hlist, hlist', List.append_assoc]

/-! ## Sections -/

/-- The decoder held to `remaining` cells: a read past them is an error.  It returns what remains. -/
def within (error : ε) : Decoder ε β α → ℕ → Decoder ε β (α × ℕ)
  | done value, remaining => done (value, remaining)
  | fail e, _ => fail e
  | read count next, remaining =>
    if remaining < count then fail error
    else read count fun cells => (next cells).within error (remaining - count)
  | allocate e next, remaining => allocate e (next.within error remaining)

theorem within_read (error : ε) (count : ℕ) (next : List β → Decoder ε β α) (remaining : ℕ) :
    (read count next).within error remaining =
      if remaining < count then fail error
      else read count fun cells => (next cells).within error (remaining - count) := rfl

theorem within_allocate (error e : ε) (next : Decoder ε β α) (remaining : ℕ) :
    (allocate e next).within error remaining = allocate e (next.within error remaining) := rfl

/-- **No section reads past its length**, however its run ends. -/
theorem takes_within (error : ε) (d : Decoder ε β α) (length : ℕ) (s : Source ε β) :
    (d.within error length).Takes s length := by
  unfold Takes
  induction d generalizing s length with
  | done value => exact ⟨[], rfl, Nat.zero_le _⟩
  | fail e => exact ⟨[], rfl, Nat.zero_le _⟩
  | read count next ih =>
    rw [within_read]
    split
    · exact ⟨[], rfl, Nat.zero_le _⟩
    · rename_i hcount
      rw [run_read]
      split
      · exact ⟨[], rfl, Nat.zero_le _⟩
      · split
        · rename_i hlength
          obtain ⟨taken, htaken, hle⟩ := ih (s.list.take count) (length - count)
            { s with list := s.list.drop count, reads := s.reads + 1 }
          refine ⟨s.list.take count ++ taken, ?_, ?_⟩
          · rw [List.append_assoc, ← htaken, List.take_append_drop]
          · rw [List.length_append, List.length_take_of_le hlength]
            omega
        · exact ⟨[], rfl, Nat.zero_le _⟩
  | allocate e next ih =>
    rw [within_allocate, run_allocate]
    split
    · exact ih length { s with allocations := s.allocations + 1 }
    · exact ⟨[], rfl, Nat.zero_le _⟩

/-- A section parses what the decoder parses, and counts what it takes. -/
theorem parse_within {error : ε} {length remaining : ℕ}
    (h : (d.within error length).parse list = some ((a, remaining), rest)) :
    d.parse list = some (a, rest) ∧ list.length + remaining = rest.length + length := by
  induction d generalizing list length with
  | done value =>
    obtain ⟨hvalue, rfl⟩ := Prod.mk.inj (Option.some.inj h)
    obtain ⟨rfl, rfl⟩ := Prod.mk.inj hvalue
    exact ⟨rfl, rfl⟩
  | fail e => cases h
  | read count next ih =>
    rw [within_read] at h
    split at h
    · cases h
    · rename_i hcount
      simp only [parse_read] at h ⊢
      split at h
      · rename_i hlength
        obtain ⟨hparse, hremaining⟩ := ih _ h
        rw [List.length_drop] at hremaining
        exact ⟨by rw [if_pos hlength, hparse], by omega⟩
      · cases h
  | allocate e next ih => exact ih h

/-- … as long as it does not take more than the length. -/
theorem within_parse {error : ε} {length : ℕ} (h : d.parse list = some (a, rest))
    (hlength : list.length ≤ rest.length + length) :
    (d.within error length).parse list =
      some ((a, length - (list.length - rest.length)), rest) := by
  induction d generalizing list length with
  | done value =>
    obtain ⟨rfl, rfl⟩ := Prod.mk.inj (Option.some.inj h)
    rw [Nat.sub_self]
    rfl
  | fail e => cases h
  | read count next ih =>
    simp only [parse_read] at h
    split at h
    · rename_i hcount
      obtain ⟨taken, htaken⟩ := parse_suffix h
      have hle : rest.length ≤ (list.drop count).length := by
        rw [htaken, List.length_append]
        omega
      rw [List.length_drop] at hle
      have hfit : ¬length < count := by omega
      rw [within_read, if_neg hfit, parse_read, if_pos hcount]
      rw [ih _ h (by rw [List.length_drop]; omega), List.length_drop]
      congr 3
      omega
    · cases h
  | allocate e next ih => exact ih h hlength

/-- What a decoder leaves has no part in what it parses. -/
theorem parse_of_append {tail : List β} (h : d.parse (list ++ tail) = some (a, rest ++ tail)) :
    d.parse list = some (a, rest) := by
  induction d generalizing list with
  | done value =>
    obtain ⟨rfl, hlist⟩ := Prod.mk.inj (Option.some.inj h)
    rw [List.append_cancel_right hlist]
    rfl
  | fail error => cases h
  | read count next ih =>
    simp only [parse_read] at h ⊢
    split at h
    · rename_i hle
      obtain ⟨taken, htaken⟩ := parse_suffix h
      have hlength := congrArg List.length htaken
      simp only [List.length_drop, List.length_append] at hlength hle
      have hcount : count ≤ list.length := by omega
      rw [List.take_append_of_le_length hcount, List.drop_append_of_le_length hcount] at h
      rw [if_pos hcount]
      exact ih _ h
    · cases h
  | allocate error next ih => exact ih h

theorem parse_append {tail : List β} (h : d.parse list = some (a, rest)) :
    d.parse (list ++ tail) = some (a, rest ++ tail) := by
  induction d generalizing list with
  | done value =>
    obtain ⟨rfl, rfl⟩ := Prod.mk.inj (Option.some.inj h)
    rfl
  | fail error => cases h
  | read count next ih =>
    simp only [parse_read] at h ⊢
    split at h
    · rename_i hcount
      rw [if_pos (by rw [List.length_append]; omega), List.take_append_of_le_length hcount,
        List.drop_append_of_le_length hcount]
      exact ih _ h
    · cases h
  | allocate error next ih => exact ih h

/-! ## Decoders and encoders -/

/-- Decoder and encoder belong together, for the values `ok`. -/
structure Pairs (d : Decoder ε β α) (encode : α → List β) (ok : α → Prop) : Prop where
  decodes : ∀ a rest, ok a → d.parse (encode a ++ rest) = some (a, rest)
  encodes : ∀ list a rest, d.parse list = some (a, rest) → list = encode a ++ rest ∧ ok a

namespace Pairs

variable {encode : α → List β} {ok : α → Prop}

theorem cells (count : ℕ) :
    Pairs (cells count : Decoder ε β (List β)) id fun list => list.length = count where
  decodes list rest h := by
    subst h
    simp [parse_cells]
  encodes list a rest h := by
    rw [parse_cells] at h
    split at h
    · obtain ⟨rfl, rfl⟩ := Prod.mk.inj (Option.some.inj h)
      exact ⟨(List.take_append_drop _ _).symm, List.length_take_of_le ‹_›⟩
    · cases h

protected theorem pure (a : α) : Pairs (pure a : Decoder ε β α) (fun _ => []) (· = a) where
  decodes b rest h := by rw [h]; rfl
  encodes list b rest h := by
    obtain ⟨rfl, rfl⟩ := Prod.mk.inj (Option.some.inj h)
    exact ⟨rfl, rfl⟩

/-- A value, and a check of it. -/
theorem check {accepts : α → Bool} {error : ε} (h : Pairs d encode ok) :
    Pairs (d >>= fun a => Decoder.ensure (accepts a) error >>= fun _ => pure a) encode
      (fun a => ok a ∧ accepts a) where
  decodes a rest hok := by
    simp only [parse_bind, h.decodes _ _ hok.1, Option.bind_some, parse_ensure, hok.2, if_true,
      parse_pure]
  encodes list a rest hparse := by
    simp only [parse_bind_eq_some, parse_ensure_eq_some, parse_pure_eq_some] at hparse
    obtain ⟨_, _, hd, _, _, ⟨haccepts, rfl⟩, rfl, rfl⟩ := hparse
    obtain ⟨hlist, hok⟩ := h.encodes _ _ _ hd
    exact ⟨hlist, hok, haccepts⟩

theorem many (h : Pairs d encode ok) (n : ℕ) :
    Pairs (d.many n) (fun values => values.flatMap encode)
      fun values => values.length = n ∧ ∀ a ∈ values, ok a where
  decodes values rest hvalues := by
    obtain ⟨rfl, hok⟩ := hvalues
    rw [parse_many values fun a ha rest => h.decodes a rest (hok a ha), List.map_id']
  encodes list values rest hparse := by
    induction n generalizing list values rest with
    | zero =>
      obtain ⟨rfl, rfl⟩ := Prod.mk.inj (Option.some.inj hparse)
      exact ⟨rfl, rfl, nofun⟩
    | succ n ih =>
      simp only [Decoder.many, parse_bind, Option.bind_eq_some_iff] at hparse
      obtain ⟨⟨value, mid⟩, hvalue, ⟨values', mid'⟩, hvalues, hpure⟩ := hparse
      obtain ⟨rfl, hok⟩ := h.encodes _ _ _ hvalue
      obtain ⟨rfl, rfl, hoks⟩ := ih _ _ _ hvalues
      obtain ⟨rfl, rfl⟩ := Prod.mk.inj (Option.some.inj hpure)
      refine ⟨by rw [List.flatMap_cons, List.append_assoc], rfl, fun a ha => ?_⟩
      rcases List.mem_cons.mp ha with rfl | ha
      · exact hok
      · exact hoks a ha

/-- Another name for the value. -/
theorem map {f : α → γ} {g : γ → α} {ok' : γ → Prop} (h : Pairs d encode ok)
    (hf : ∀ a, ok a → g (f a) = a ∧ ok' (f a)) (hg : ∀ c, ok' c → f (g c) = c ∧ ok (g c)) :
    Pairs (d >>= fun a => pure (f a)) (fun c => encode (g c)) ok' where
  decodes c rest hok := by
    rw [parse_bind, h.decodes _ _ (hg c hok).2]
    simp [(hg c hok).1]
  encodes list c rest hparse := by
    rw [parse_bind] at hparse
    obtain ⟨⟨a, mid⟩, hfst, hsnd⟩ := Option.bind_eq_some_iff.mp hparse
    obtain ⟨rfl, hok⟩ := h.encodes _ _ _ hfst
    obtain ⟨rfl, rfl⟩ := Prod.mk.inj (Option.some.inj hsnd)
    rw [(hf a hok).1]
    exact ⟨rfl, (hf a hok).2⟩

/-- The same encoder on the values that matter. -/
theorem congr {encode' : α → List β} {ok' : α → Prop} (h : Pairs d encode ok)
    (hok : ∀ a, ok' a ↔ ok a) (hencode : ∀ a, ok a → encode' a = encode a) :
    Pairs d encode' ok' where
  decodes a rest ha := by
    rw [hencode a ((hok a).mp ha)]
    exact h.decodes a rest ((hok a).mp ha)
  encodes list a rest hparse := by
    obtain ⟨hlist, ha⟩ := h.encodes list a rest hparse
    rw [hencode a ha]
    exact ⟨hlist, (hok a).mpr ha⟩

end Pairs

/-! ## Records

A record is a family of values, one a field; fields are read and written in some order. -/

section Records

variable {ν : Type} {φ : ν → Type} {read : ∀ n, Decoder ε β (φ n)} {write : ∀ n, φ n → List β}
  {ok : ∀ n, φ n → Prop}

/-- The fields of an order written. -/
def writeFields (write : ∀ n, φ n → List β) (order : List ν) (record : ∀ n, φ n) : List β :=
  order.flatMap fun n => write n (record n)

theorem writeFields_cons (n : ν) (order : List ν) (record : ∀ n, φ n) :
    writeFields write (n :: order) record = write n (record n) ++ writeFields write order record :=
  List.flatMap_cons

variable [DecidableEq ν]

/-- The fields of an order read into a record, one after the other. -/
def readFields (read : ∀ n, Decoder ε β (φ n)) : List ν → (∀ n, φ n) → Decoder ε β (∀ n, φ n)
  | [], record => pure record
  | n :: order, record => do
    let value ← read n
    readFields read order (Function.update record n value)

/-- What reading a record gives: the fields of the order from the stream, the others as they were. -/
theorem readFields_decodes (h : ∀ n, Pairs (read n) (write n) (ok n)) (order : List ν)
    (initial record : ∀ n, φ n) (rest : List β) (hok : ∀ n ∈ order, ok n (record n)) :
    (readFields read order initial).parse (writeFields write order record ++ rest) =
      some (fun n => if n ∈ order then record n else initial n, rest) := by
  induction order generalizing initial with
  | nil => simp [readFields, writeFields]
  | cons n order ih =>
    rw [writeFields_cons, List.append_assoc, readFields, parse_bind,
      (h n).decodes _ _ (hok n (by simp))]
    dsimp only [Option.bind_some]
    rw [ih _ fun m hm => hok m (List.mem_cons_of_mem _ hm)]
    congr 2
    funext m
    by_cases hm : m = n
    · subst hm
      by_cases hin : m ∈ order <;> simp [hin]
    · by_cases hin : m ∈ order <;> simp [hin, hm]

theorem readFields_encodes (h : ∀ n, Pairs (read n) (write n) (ok n)) {order : List ν}
    (hnodup : order.Nodup) {initial record : ∀ n, φ n} {list rest : List β}
    (hparse : (readFields read order initial).parse list = some (record, rest)) :
    list = writeFields write order record ++ rest ∧ (∀ n ∈ order, ok n (record n)) ∧
      ∀ n ∉ order, record n = initial n := by
  induction order generalizing initial list with
  | nil =>
    obtain ⟨rfl, rfl⟩ := Prod.mk.inj (Option.some.inj hparse)
    exact ⟨rfl, nofun, fun _ _ => rfl⟩
  | cons n order ih =>
    rw [readFields, parse_bind] at hparse
    obtain ⟨⟨value, mid⟩, hvalue, hmid⟩ := Option.bind_eq_some_iff.mp hparse
    obtain ⟨rfl, hok⟩ := (h n).encodes _ _ _ hvalue
    obtain ⟨hn, hnodup⟩ := List.nodup_cons.mp hnodup
    obtain ⟨rfl, hoks, houtside⟩ := ih hnodup hmid
    have hrecord : record n = value := by rw [houtside n hn, Function.update_self]
    refine ⟨?_, fun m hm => ?_, fun m hm => ?_⟩
    · rw [writeFields_cons, hrecord, List.append_assoc]
    · rcases List.mem_cons.mp hm with rfl | hm
      · rwa [hrecord]
      · exact hoks m hm
    · obtain ⟨hne, hm⟩ := not_or.mp (mt List.mem_cons.mpr hm)
      rw [houtside m hm, Function.update_of_ne hne]

/-- **A record** whose fields all stand in the order, each once. -/
theorem Pairs.fields (h : ∀ n, Pairs (read n) (write n) (ok n)) {order : List ν}
    (hnodup : order.Nodup) (hall : ∀ n, n ∈ order) (initial : ∀ n, φ n) :
    Pairs (readFields read order initial) (writeFields write order)
      (fun record => ∀ n, ok n (record n)) where
  decodes record rest hok := by
    rw [readFields_decodes h order initial record rest fun n _ => hok n]
    simp [hall]
  encodes list record rest hparse := by
    obtain ⟨hlist, hok, -⟩ := readFields_encodes h hnodup hparse
    exact ⟨hlist, fun n => hok n (hall n)⟩

end Records

end Decoder

end SoftPC
