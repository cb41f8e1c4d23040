import Mathlib.Data.List.Induction
import Mathlib.Logic.Function.Basic

/-!
# Machinery/Chains — following a link field to its end

`Path next s l` says that following `next` from `s` visits exactly the places of `l` and ends; that
there is such an `l` is that the chain is not a cycle.  Chains stored as one-based indices, zero for the
end, are read through `link`, and grow at their last place (`path_foldl_append`).
-/

namespace SoftPC.Chains

variable {α : Type*} {f g : α → Option α} {s : Option α} {l l' : List α}

/-- Following `f` from `s` visits the places of `l`, in order, and ends. -/
def Path (f : α → Option α) : Option α → List α → Prop
  | none, [] => True
  | some a, b :: l => a = b ∧ Path f (f b) l
  | _, _ => False

theorem path_nil : Path f s [] ↔ s = none := by
  cases s <;> simp [Path]

theorem path_cons {a : α} : Path f s (a :: l) ↔ s = some a ∧ Path f (f a) l := by
  cases s <;> simp [Path]

theorem Path.unique (h : Path f s l) (h' : Path f s l') : l = l' := by
  induction l generalizing s l' with
  | nil =>
    cases l' with
    | nil => rfl
    | cons a l' => simp [path_nil.1 h, Path] at h'
  | cons a l ih =>
    cases l' with
    | nil => simp [path_nil.1 h', Path] at h
    | cons a' l' =>
      rw [path_cons] at h h'
      obtain rfl : a = a' := Option.some.inj (h.1.symm.trans h'.1)
      rw [ih h.2 h'.2]

/-- Only the links of the places visited matter. -/
theorem Path.congr (h : Path f s l) (hfg : ∀ a ∈ l, g a = f a) : Path g s l := by
  induction l generalizing s with
  | nil => exact path_nil.2 (path_nil.1 h)
  | cons a l ih =>
    rw [path_cons] at h ⊢
    refine ⟨h.1, ?_⟩
    rw [hfg a (.head _)]
    exact ih h.2 fun b hb => hfg b (.tail _ hb)

/-- The start of a chain is on it, unless it is empty. -/
theorem Path.start_mem (h : Path f s l) : s = none ∨ ∃ b ∈ l, s = some b := by
  cases l with
  | nil => exact .inl (path_nil.1 h)
  | cons a l => exact .inr ⟨a, .head _, (path_cons.1 h).1⟩

/-- A link of a place on a chain stays on it or ends it. -/
theorem Path.next_mem (h : Path f s l) {a : α} (ha : a ∈ l) : f a = none ∨ ∃ b ∈ l, f a = some b := by
  induction l generalizing s with
  | nil => cases ha
  | cons a' l ih =>
    obtain ⟨-, htail⟩ := path_cons.1 h
    rcases List.mem_cons.1 ha with rfl | ha
    · rcases htail.start_mem with h0 | ⟨b, hb, hs⟩
      · exact .inl h0
      · exact .inr ⟨b, .tail _ hb, hs⟩
    · rcases ih htail ha with h0 | ⟨b, hb, hs⟩
      · exact .inl h0
      · exact .inr ⟨b, .tail _ hb, hs⟩

/-- The places a chain visits, up to a number of them. -/
def chainOf (f : α → Option α) : ℕ → Option α → List α
  | _, none => []
  | 0, some _ => []
  | n + 1, some a => a :: chainOf f n (f a)

theorem Path.chainOf_eq (h : Path f s l) {n : ℕ} (hn : l.length ≤ n) : chainOf f n s = l := by
  induction l generalizing s n with
  | nil => rw [path_nil.1 h, chainOf]
  | cons a l ih =>
    obtain ⟨rfl, htail⟩ := path_cons.1 h
    cases n with
    | zero => simp at hn
    | succ n => rw [chainOf, ih htail (by simpa using hn)]

/-! ## One-based links -/

/-- A one-based index, zero for the end. -/
def link : ℕ → Option ℕ
  | 0 => none
  | j + 1 => some j

/-- The last place of the chain from `p`. -/
def lastOf (next : ℕ → ℕ) : ℕ → ℕ → ℕ
  | 0, p => p
  | fuel + 1, p => if next p = 0 then p else lastOf next fuel (next p - 1)

/-- A place put at the end of a chain of at most `n`. -/
def append (n : ℕ) (chain : ℕ × (ℕ → ℕ)) (j : ℕ) : ℕ × (ℕ → ℕ) :=
  if chain.1 = 0 then (j + 1, chain.2)
  else (chain.1, Function.update chain.2 (lastOf chain.2 n (chain.1 - 1)) (j + 1))

variable {next : ℕ → ℕ} {n : ℕ}

theorem lastOf_eq {p : ℕ} {l : List ℕ} (h : Path (fun j => link (next j)) (some p) (p :: l))
    (hn : l.length ≤ n) : lastOf next n p = (p :: l).getLast (List.cons_ne_nil _ _) := by
  induction l generalizing p n with
  | nil =>
    have h0 : link (next p) = none := path_nil.1 (path_cons.1 h).2
    have h0' : next p = 0 := by
      cases hp : next p with
      | zero => rfl
      | succ j => rw [hp] at h0; cases h0
    cases n <;> simp [lastOf, h0']
  | cons q l ih =>
    obtain ⟨hq, h'⟩ := path_cons.1 (path_cons.1 h).2
    cases n with
    | zero => simp at hn
    | succ n =>
      have hq' : next p = q + 1 := by
        cases hp : next p with
        | zero => rw [hp] at hq; cases hq
        | succ j => rw [hp] at hq; rw [Option.some.inj hq]
      rw [lastOf, hq', if_neg (Nat.succ_ne_zero q), Nat.add_sub_cancel,
        ih (path_cons.2 ⟨rfl, h'⟩) (by simpa using hn)]
      simp

/-- A chain with a place put behind its last. -/
theorem path_update {s : Option ℕ} {l : List ℕ} {j : ℕ} (h : Path (fun j => link (next j)) s l)
    (hne : l ≠ []) (hnd : l.Nodup) (hj : j ∉ l) (hj0 : next j = 0) :
    Path (fun i => link (Function.update next (l.getLast hne) (j + 1) i)) s (l ++ [j]) := by
  induction l generalizing s with
  | nil => exact absurd rfl hne
  | cons a l ih =>
    obtain ⟨rfl, htail⟩ := path_cons.1 h
    cases l with
    | nil =>
      have hja : j ≠ a := fun he => hj (he ▸ .head _)
      simp [path_cons, path_nil, link, Function.update_of_ne hja, hj0]
    | cons b l =>
      have ha : a ≠ (b :: l).getLast (List.cons_ne_nil _ _) := by
        intro he
        exact (List.nodup_cons.1 hnd).1 (he ▸ List.getLast_mem _)
      rw [List.cons_append, path_cons]
      refine ⟨rfl, ?_⟩
      rw [List.getLast_cons (List.cons_ne_nil _ _), Function.update_of_ne ha]
      exact ih htail (List.cons_ne_nil _ _) (List.nodup_cons.1 hnd).2 fun hm => hj (.tail _ hm)

/-- **A chain built place by place visits them in order.** -/
theorem path_foldl_append {js : List ℕ} (hnd : js.Nodup) (hn : js.length ≤ n)
    (h0 : ∀ j ∈ js, next j = 0) :
    Path (fun j => link ((js.foldl (append n) (0, next)).2 j))
        (link (js.foldl (append n) (0, next)).1) js ∧
      ∀ i ∉ js, (js.foldl (append n) (0, next)).2 i = next i := by
  induction js using List.reverseRecOn with
  | nil => exact ⟨trivial, fun _ _ => rfl⟩
  | append_singleton js j ih =>
    have hnd' := List.nodup_append.1 hnd
    have hj : j ∉ js := fun hm => hnd'.2.2 j hm j (.head _) rfl
    obtain ⟨hpath, hout⟩ := ih hnd'.1 (by simp at hn; omega) fun i hi => h0 i (by simp [hi])
    rw [List.foldl_append, List.foldl_cons, List.foldl_nil]
    generalize js.foldl (append n) (0, next) = c at hpath hout
    have hj0 : c.2 j = 0 := by rw [hout j hj]; exact h0 j (by simp)
    cases hc : c.1 with
    | zero =>
      rw [hc] at hpath
      obtain rfl : js = [] := by
        cases js with
        | nil => rfl
        | cons a js => cases (path_cons.1 hpath).1
      simp only [append, hc, if_true, List.nil_append, link, path_cons, hj0, path_nil, and_self,
        true_and]
      exact fun i hi => hout i (by simp)
    | succ p =>
      rw [hc] at hpath
      cases js with
      | nil => cases (path_nil.1 hpath)
      | cons a js =>
        obtain rfl : p = a := Option.some.inj (path_cons.1 hpath).1
        have hlast := lastOf_eq hpath (n := n) (by simp at hn ⊢; omega)
        simp only [append, hc, Nat.succ_ne_zero, if_false, Nat.add_sub_cancel, hlast]
        refine ⟨path_update hpath (List.cons_ne_nil _ _) hnd'.1 hj hj0, fun i hi => ?_⟩
        rw [List.mem_append, not_or] at hi
        rw [Function.update_of_ne, hout i hi.1]
        rintro rfl
        exact hi.1 (List.getLast_mem _)

end SoftPC.Chains
