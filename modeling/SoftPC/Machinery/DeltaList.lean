import Mathlib.Data.List.Sort
import Mathlib.Algebra.BigOperators.Group.List.Basic
import Mathlib.Algebra.GroupWithZero.Nat

/-!
# Machinery/DeltaList — a list of waits, each counted from the entry before it

    wait:   3    0    4         time:   3    3    7

Every entry carries the time from its predecessor, in words of `w` bits, so that one counter at the
head moves the whole list.  `times` reads the list as absolute times; on that reading `insert` is an
ordered insertion behind equal times, and `remove` an erasure: the successor takes over the wait.
Both hold as long as the last time fits a word.
-/

namespace SoftPC

/-- How an entry of type `α` names itself and holds its wait. -/
structure DeltaCode (α κ : Type*) (w : ℕ) where
  key : α → κ
  wait : α → BitVec w
  setWait : BitVec w → α → α
  wait_setWait : ∀ d a, wait (setWait d a) = d
  key_setWait : ∀ d a, key (setWait d a) = key a

namespace DeltaCode

variable {α κ : Type*} {w : ℕ} (c : DeltaCode α κ w)

attribute [simp] wait_setWait key_setWait

/-- The entries' times, the first wait counted from `b`. -/
def times (b : ℕ) : List α → List (κ × ℕ)
  | [] => []
  | a :: l => (c.key a, b + (c.wait a).toNat) :: times (b + (c.wait a).toNat) l

/-- The time of the last entry. -/
def last (b : ℕ) (l : List α) : ℕ := b + (l.map fun a => (c.wait a).toNat).sum

/-- The entry `new d`, whose wait is `d`, put where its time is `time`, behind the entries that are
not later; `run` is the time of the entry before the list. -/
def insert (new : BitVec w → α) (time : BitVec w) : BitVec w → List α → List α
  | run, [] => [new (time - run)]
  | run, a :: l =>
    if time < run + c.wait a then
      new (time - run) :: c.setWait (c.wait a - (time - run)) a :: l
    else a :: insert new time (run + c.wait a) l

@[simp] theorem insert_nil (new : BitVec w → α) (time run : BitVec w) :
    c.insert new time run [] = [new (time - run)] := rfl

theorem insert_cons (new : BitVec w → α) (time run : BitVec w) (a : α) (l : List α) :
    c.insert new time run (a :: l) =
      if time < run + c.wait a then
        new (time - run) :: c.setWait (c.wait a - (time - run)) a :: l
      else a :: c.insert new time (run + c.wait a) l := rfl

/-- The first entry with the property taken out, its wait given to the next. -/
def remove (p : α → Bool) : List α → List α
  | [] => []
  | a :: l =>
    if p a then
      match l with
      | [] => []
      | a' :: l' => c.setWait (c.wait a' + c.wait a) a' :: l'
    else a :: remove p l

@[simp] theorem remove_nil (p : α → Bool) : c.remove p [] = [] := rfl

theorem remove_cons (p : α → Bool) (a : α) (l : List α) :
    c.remove p (a :: l) =
      if p a then
        match l with
        | [] => []
        | a' :: l' => c.setWait (c.wait a' + c.wait a) a' :: l'
      else a :: c.remove p l := rfl

/-- The first wait replaced. -/
def rebase (d : BitVec w) : List α → List α
  | [] => []
  | a :: l => c.setWait d a :: l

section Reading

variable {c} {b : ℕ} {a : α} {l : List α}

@[simp] theorem last_nil : c.last b [] = b := by simp [last]

@[simp] theorem last_cons : c.last b (a :: l) = c.last (b + (c.wait a).toNat) l := by
  simp [last, add_assoc]

theorem le_last (b : ℕ) (l : List α) : b ≤ c.last b l := Nat.le_add_right _ _

@[simp] theorem rebase_eq_nil {d : BitVec w} : c.rebase d l = [] ↔ l = [] := by
  cases l <;> simp [rebase]

theorem le_of_mem_times {x : κ × ℕ} (hx : x ∈ c.times b l) : b ≤ x.2 := by
  induction l generalizing b with
  | nil => cases hx
  | cons a l ih =>
    rcases List.mem_cons.1 hx with rfl | hx
    · exact Nat.le_add_right _ _
    · exact le_trans (Nat.le_add_right _ _) (ih hx)

theorem le_last_of_mem_times {x : κ × ℕ} (hx : x ∈ c.times b l) : x.2 ≤ c.last b l := by
  induction l generalizing b with
  | nil => cases hx
  | cons a l ih =>
    rw [last_cons]
    rcases List.mem_cons.1 hx with rfl | hx
    · exact le_last _ _
    · exact ih hx

@[simp] theorem map_fst_times (b : ℕ) (l : List α) : (c.times b l).map Prod.fst = l.map c.key := by
  induction l generalizing b with
  | nil => rfl
  | cons a l ih => simp [times, ih]

/-- Waiting longer for the first moves every time. -/
theorem times_add (k b : ℕ) (l : List α) :
    c.times (b + k) l = (c.times b l).map fun x => (x.1, x.2 + k) := by
  induction l generalizing b with
  | nil => rfl
  | cons a l ih => simp only [times, List.map_cons, ← ih, Nat.add_right_comm]

/-- Bases near one another give times near one another. -/
theorem times_near {b' n : ℕ} (h : b ≤ b' + n) (h' : b' ≤ b + n) (l : List α) :
    List.Forall₂ (fun x y => x.1 = y.1 ∧ x.2 ≤ y.2 + n ∧ y.2 ≤ x.2 + n)
      (c.times b l) (c.times b' l) := by
  induction l generalizing b b' with
  | nil => exact .nil
  | cons a l ih =>
    have hb : b + (c.wait a).toNat ≤ b' + (c.wait a).toNat + n := by omega
    have hb' : b' + (c.wait a).toNat ≤ b + (c.wait a).toNat + n := by omega
    exact .cons ⟨rfl, hb, hb'⟩ (ih hb hb')

theorem last_le_of_times {n : ℕ} (hb : b ≤ n) (h : ∀ x ∈ c.times b l, x.2 ≤ n) :
    c.last b l ≤ n := by
  induction l generalizing b with
  | nil => simpa using hb
  | cons a l ih =>
    rw [last_cons]
    exact ih (h _ (.head _)) fun x hx => h x (.tail _ hx)

end Reading

/-! ## The entries each operation leaves -/

section Entries

variable {c} {new : BitVec w → α} {time run : BitVec w} {k : κ} {l : List α}

@[simp] theorem map_key_rebase (d : BitVec w) (l : List α) :
    (c.rebase d l).map c.key = l.map c.key := by
  cases l <;> simp [rebase]

theorem map_key_insert_perm (hkey : ∀ d, c.key (new d) = k) :
    ((c.insert new time run l).map c.key).Perm (k :: l.map c.key) := by
  induction l generalizing run with
  | nil => simp [hkey]
  | cons a l ih =>
    rw [insert_cons]
    split
    · simp [hkey]
    · exact (List.Perm.cons _ ih).trans (.swap _ _ _)

theorem map_key_remove {p : α → Bool} {q : κ → Bool} (hpq : ∀ a, p a = q (c.key a)) :
    (c.remove p l).map c.key = (l.map c.key).eraseP q := by
  induction l with
  | nil => rfl
  | cons a l ih =>
    have ha := hpq a
    cases l with
    | nil => by_cases hp : p a <;> simp_all [remove_cons]
    | cons a' l' => by_cases hp : p a <;> simp_all [remove_cons]

theorem remove_congr {p p' : α → Bool} (h : ∀ a ∈ l, p a = p' a) :
    c.remove p l = c.remove p' l := by
  induction l with
  | nil => rfl
  | cons a l ih =>
    simp only [remove_cons, h a (.head _), ih fun a ha => h a (.tail _ ha)]

variable {g : α → α} (hwait : ∀ a, c.wait (g a) = c.wait a)
  (hset : ∀ d a, g (c.setWait d a) = c.setWait d (g a))

include hset in
/-- A change of the entries that leaves their waits alone passes through the operations. -/
theorem map_rebase (d : BitVec w) (l : List α) : (c.rebase d l).map g = c.rebase d (l.map g) := by
  cases l <;> simp [rebase, hset]

include hwait hset in
theorem map_insert (new : BitVec w → α) (time run : BitVec w) (l : List α) :
    (c.insert new time run l).map g = c.insert (fun d => g (new d)) time run (l.map g) := by
  induction l generalizing run with
  | nil => rfl
  | cons a l ih =>
    simp only [insert_cons, List.map_cons, hwait]
    split
    · simp [hset]
    · simp [ih]

include hwait hset in
theorem map_remove {p : α → Bool} (hp : ∀ a, p (g a) = p a) (l : List α) :
    (c.remove p l).map g = c.remove p (l.map g) := by
  induction l with
  | nil => rfl
  | cons a l ih =>
    cases l with
    | nil => by_cases ha : p a <;> simp [remove_cons, hp, ha]
    | cons a' l' => by_cases ha : p a <;> simp_all [remove_cons]

end Entries

/-! ## Insertion and removal, on the times -/

section Operations

variable {c} {new : BitVec w → α} {time run : BitVec w} {k : κ} {l : List α}

theorem toNat_run_add (a : α) (h : c.last run.toNat (a :: l) < 2 ^ w) :
    (run + c.wait a).toNat = run.toNat + (c.wait a).toNat := by
  refine BitVec.toNat_add_of_lt (lt_of_le_of_lt ?_ h)
  rw [last_cons]
  exact le_last _ _

theorem toNat_run_add_sub (hrun : run ≤ time) :
    run.toNat + (time - run).toNat = time.toNat := by
  rw [BitVec.toNat_sub_of_le hrun]
  exact Nat.add_sub_cancel' hrun

/-- **Insertion is ordered insertion, behind equal times.** -/
theorem times_insert (hwait : ∀ d, c.wait (new d) = d) (hkey : ∀ d, c.key (new d) = k)
    (hrun : run ≤ time) (hfit : c.last run.toNat l < 2 ^ w) :
    c.times run.toNat (c.insert new time run l) =
      (c.times run.toNat l).orderedInsert (fun x y => x.2 < y.2) (k, time.toNat) := by
  induction l generalizing run with
  | nil => simp [times, hwait, hkey, toNat_run_add_sub hrun, -BitVec.toNat_sub]
  | cons a l ih =>
    have hadd := toNat_run_add a hfit
    by_cases ht : time < run + c.wait a
    · have hlt : time.toNat < run.toNat + (c.wait a).toNat := hadd ▸ BitVec.lt_def.1 ht
      have hrun' : run.toNat ≤ time.toNat := BitVec.le_def.1 hrun
      have hsub : time.toNat + (c.wait a - (time - run)).toNat = run.toNat + (c.wait a).toNat := by
        have hle : time - run ≤ c.wait a := by
          rw [BitVec.le_def, BitVec.toNat_sub_of_le hrun]
          omega
        rw [BitVec.toNat_sub_of_le hle, BitVec.toNat_sub_of_le hrun]
        omega
      simp [insert_cons, ht, times, hwait, hkey, toNat_run_add_sub hrun, hsub, hlt, -BitVec.toNat_sub]
    · have hle : run.toNat + (c.wait a).toNat ≤ time.toNat := hadd ▸ BitVec.not_lt.1 ht
      rw [last_cons, ← hadd] at hfit
      have := ih (BitVec.not_lt.1 ht) hfit
      rw [hadd] at this
      simp [insert_cons, ht, times, this, not_lt.2 hle]

/-- **Removal is erasure.** -/
theorem times_remove {p : α → Bool} {q : κ → Bool} (hpq : ∀ a, p a = q (c.key a)) {b : ℕ}
    (hfit : c.last 0 l < 2 ^ w) :
    c.times b (c.remove p l) = (c.times b l).eraseP fun x => q x.1 := by
  induction l generalizing b with
  | nil => rfl
  | cons a l ih =>
    rw [last_cons] at hfit
    by_cases hp : p a
    · have hq : q (c.key a) = true := by rw [← hpq, hp]
      cases l with
      | nil => simp [remove_cons, hp, times, hq]
      | cons a' l' =>
        rw [last_cons] at hfit
        have hlt : (c.wait a').toNat + (c.wait a).toNat < 2 ^ w := by
          have := le_last (c := c) (0 + (c.wait a).toNat + (c.wait a').toNat) l'
          omega
        have hsum : b + (c.wait a' + c.wait a).toNat = b + (c.wait a).toNat + (c.wait a').toNat := by
          rw [BitVec.toNat_add_of_lt hlt]
          omega
        simp [remove_cons, hp, times, hq, hsum, -BitVec.toNat_add]
    · have hq : ¬q (c.key a) = true := by rwa [← hpq]
      have hle : c.last 0 l ≤ c.last (0 + (c.wait a).toNat) l := by
        simp only [last]
        omega
      simp [remove_cons, hp, times, hq, ih (lt_of_le_of_lt hle hfit)]

theorem last_insert_lt (hwait : ∀ d, c.wait (new d) = d) (hkey : ∀ d, c.key (new d) = k)
    (hrun : run ≤ time) (hfit : c.last run.toNat l < 2 ^ w) :
    c.last run.toNat (c.insert new time run l) < 2 ^ w := by
  refine Nat.lt_of_le_pred (Nat.two_pow_pos w) (last_le_of_times (Nat.le_pred_of_lt run.isLt) ?_)
  intro x hx
  rw [times_insert hwait hkey hrun hfit, List.mem_orderedInsert] at hx
  rcases hx with rfl | hx
  · exact Nat.le_pred_of_lt time.isLt
  · exact Nat.le_pred_of_lt (lt_of_le_of_lt (le_last_of_mem_times hx) hfit)

theorem last_remove_le {p : α → Bool} {q : κ → Bool} (hpq : ∀ a, p a = q (c.key a)) {b : ℕ}
    (hfit : c.last 0 l < 2 ^ w) : c.last b (c.remove p l) ≤ c.last b l := by
  refine last_le_of_times (le_last b l) fun x hx => ?_
  rw [times_remove hpq hfit] at hx
  exact le_last_of_mem_times (List.mem_of_mem_eraseP hx)

end Operations

end DeltaCode

end SoftPC
