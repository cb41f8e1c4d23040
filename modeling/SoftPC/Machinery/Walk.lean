import Mathlib.Data.List.Basic
import Mathlib.Data.Nat.Notation
import Mathlib.Algebra.GroupWithZero.Nat

/-!
# Machinery/Walk — a state written out and read in, step by step

    state ──save──▸ cells        cells, state ──restore──▸ state

Two lists of steps, each walking over the cells at its own pace.  What a step reads and what it changes is said on a
view of the state, and so is what the walks do: the saving one keeps the view (`Reads.map`), and the restoring one
folds its changes over the cells (`restore_map`).
-/

namespace SoftPC.Walk

variable {σ β κ ι : Type*}

/-- A step that writes cells out. -/
abbrev Save (σ β : Type*) := σ → List β × σ

/-- A step that reads so many cells in. -/
structure Restore (σ β : Type*) where
  size : ℕ
  put : List β → σ → σ

namespace Restore

/-- A step of one cell… -/
def cell (put : β → σ → σ) : Restore σ β where
  size := 1
  put
    | value :: _, s => put value s
    | [], s => s

/-- …of cells that are passed over… -/
def skip (size : ℕ) : Restore σ β := ⟨size, fun _ s => s⟩

/-- …and of none. -/
def act (f : σ → σ) : Restore σ β := ⟨0, fun _ s => f s⟩

end Restore

namespace Save

/-- A step of one cell… -/
def cell (get : σ → β × σ) : Save σ β := fun s => ([(get s).1], (get s).2)

/-- …of cells that are always the same… -/
def constant (cells : List β) : Save σ β := fun s => (cells, s)

/-- …and of none. -/
def act (f : σ → σ) : Save σ β := fun s => ([], f s)

end Save

def save : List (Save σ β) → Save σ β
  | [], s => ([], s)
  | step :: steps, s =>
    let (cells, s) := step s
    let (more, s) := save steps s
    (cells ++ more, s)

def restore : List (Restore σ β) → List β → σ → σ
  | [], _, s => s
  | step :: steps, cells, s => restore steps (cells.drop step.size) (step.put (cells.take step.size) s)

/-- How many cells a walk reads in. -/
def size (steps : List (Restore σ β)) : ℕ := (steps.map Restore.size).sum

variable (view : σ → κ)

/-- The cells of a step are a function of the view, and it keeps it. -/
def Reads (step : Save σ β) (cells : κ → List β) : Prop := ∀ s, (step s).1 = cells (view s) ∧ view (step s).2 = view s

variable {view}

/-! ## Saving -/

theorem Reads.nil : Reads view (save ([] : List (Save σ β))) fun _ => [] := fun _ => ⟨rfl, rfl⟩

theorem Reads.cons {step : Save σ β} {steps : List (Save σ β)} {cells more : κ → List β} (h : Reads view step cells)
    (hs : Reads view (save steps) more) : Reads view (save (step :: steps)) fun k => cells k ++ more k := by
  intro s
  obtain ⟨hcells, hview⟩ := h s
  obtain ⟨hmore, hview'⟩ := hs (step s).2
  refine ⟨?_, hview'.trans hview⟩
  dsimp only [save]
  rw [hcells, hmore, hview]

theorem Reads.single {step : Save σ β} {cells : κ → List β} (h : Reads view step cells) :
    Reads view (save [step]) cells := by
  intro s
  obtain ⟨hcells, hview⟩ := h s
  exact ⟨(List.append_nil _).trans hcells, hview⟩

theorem save_append (steps steps' : List (Save σ β)) (s : σ) : save (steps ++ steps') s =
    ((save steps s).1 ++ (save steps' (save steps s).2).1, (save steps' (save steps s).2).2) := by
  induction steps generalizing s with
  | nil => rfl
  | cons step steps ih =>
    simp only [List.cons_append, save, ih, List.append_assoc]

theorem Reads.append {steps steps' : List (Save σ β)} {cells more : κ → List β} (h : Reads view (save steps) cells)
    (h' : Reads view (save steps') more) : Reads view (save (steps ++ steps')) fun k => cells k ++ more k := by
  intro s
  obtain ⟨hcells, hview⟩ := h s
  obtain ⟨hmore, hview'⟩ := h' (save steps s).2
  rw [save_append]
  exact ⟨by rw [hcells, hmore, hview], hview'.trans hview⟩

/-- A step for each of a list. -/
theorem Reads.map {step : ι → Save σ β} {cells : ι → κ → List β} {l : List ι}
    (h : ∀ i ∈ l, Reads view (step i) (cells i)) : Reads view (save (l.map step)) fun k => l.flatMap (cells · k) := by
  induction l with
  | nil => exact Reads.nil
  | cons i l ih => exact (h i List.mem_cons_self).cons (ih fun j hj => h j (List.mem_cons_of_mem _ hj))

theorem Reads.constant (cells : List β) : Reads view (Save.constant cells) fun _ => cells := fun _ => ⟨rfl, rfl⟩

/-! ## Restoring -/

theorem size_append (steps steps' : List (Restore σ β)) : size (steps ++ steps') = size steps + size steps' := by
  unfold size
  rw [List.map_append, List.sum_append]

theorem size_skip (n : ℕ) : size ([Restore.skip n] : List (Restore σ β)) = n := rfl

theorem restore_append {steps steps' : List (Restore σ β)} {cells more : List β} (h : cells.length = size steps)
    (s : σ) : restore (steps ++ steps') (cells ++ more) s = restore steps' more (restore steps cells s) := by
  induction steps generalizing cells s with
  | nil =>
    obtain rfl := List.length_eq_zero_iff.mp h
    rfl
  | cons step steps ih =>
    have hsize : cells.length = step.size + size steps := h
    rw [List.cons_append, restore, restore, List.drop_append_of_le_length (by omega),
      List.take_append_of_le_length (by omega)]
    exact ih (by rw [List.length_drop]; omega) _

theorem restore_skip {n : ℕ} (cells : List β) (s : σ) : restore [Restore.skip n] cells s = s := rfl

theorem restore_cell (put : β → σ → σ) (value : β) (s : σ) : restore [Restore.cell put] [value] s = put value s := rfl

theorem restore_act (f : σ → σ) (steps : List (Restore σ β)) (cells : List β) (s : σ) :
    restore ([Restore.act f] ++ steps) cells s = restore steps cells (f s) := rfl

section

variable (view)

/-- A step for each of a list, on the cells of each; every step needs `P`, and leaves it. -/
theorem restore_map (step : ι → Restore σ β) (cells : ι → List β) (P : σ → Prop) {f : κ → ι → κ} {l : List ι}
    (hcells : ∀ i, (cells i).length = (step i).size)
    (h : ∀ i ∈ l, ∀ s, P s → P ((step i).put (cells i) s) ∧ view ((step i).put (cells i) s) = f (view s) i) {s : σ}
    (hs : P s) : P (restore (l.map step) (l.flatMap cells) s) ∧
      view (restore (l.map step) (l.flatMap cells) s) = l.foldl f (view s) := by
  induction l generalizing s with
  | nil => exact ⟨hs, rfl⟩
  | cons i l ih =>
    obtain ⟨hput, hview⟩ := h i List.mem_cons_self s hs
    rw [List.map_cons, List.flatMap_cons, restore, ← hcells i, List.drop_left, List.take_left, List.foldl_cons, ← hview]
    exact ih (fun j hj => h j (List.mem_cons_of_mem _ hj)) hput

/-- …of a cell each. -/
theorem restore_cells (put : ι → β → σ → σ) (value : ι → β) (P : σ → Prop) {f : κ → ι → κ} {l : List ι}
    (h : ∀ i ∈ l, ∀ s, P s → P (put i (value i) s) ∧ view (put i (value i) s) = f (view s) i) {s : σ} (hs : P s) :
    P (restore (l.map fun i => Restore.cell (put i)) (l.flatMap fun i => [value i]) s) ∧
      view (restore (l.map fun i => Restore.cell (put i)) (l.flatMap fun i => [value i]) s) = l.foldl f (view s) :=
  restore_map view _ _ P (fun _ => rfl) h hs

end

theorem size_map {step : ι → Restore σ β} {cells : ι → List β} (hcells : ∀ i, (cells i).length = (step i).size)
    (l : List ι) : (l.flatMap cells).length = size (l.map step) := by
  rw [List.length_flatMap, size, List.map_map]
  congr 1
  exact List.map_congr_left fun i _ => hcells i

/-! ## Folds -/

/-- A part of a whole, that can be replaced in it. -/
structure Part (κ α : Type*) where
  get : κ → α
  set : κ → α → κ
  get_set : ∀ k a, get (set k a) = a
  set_set : ∀ k a a', set (set k a) a' = set k a'
  set_get : ∀ k, set k (get k) = k

/-- A fold over a part; what it needs of the rest stays. -/
theorem Part.foldl {α : Type*} (p : Part κ α) {f : κ → α → ι → α} (hf : ∀ k a, f (p.set k a) = f k) (l : List ι)
    (k : κ) : l.foldl (fun k i => p.set k (f k (p.get k) i)) k = p.set k (l.foldl (f k) (p.get k)) := by
  induction l generalizing k with
  | nil => exact (p.set_get k).symm
  | cons i l ih => rw [List.foldl_cons, ih, p.get_set, hf, p.set_set, List.foldl_cons]

/-- A fold over the registers of a bank, where writing one leaves the others. -/
theorem read_foldl {α γ : Type*} [DecidableEq ι] (read : α → ι → γ) (write : α → ι → α) {v : ι → γ} {l : List ι}
    (hother : ∀ a i j, i ≠ j → read (write a i) j = read a j) (hself : ∀ a, ∀ i ∈ l, read (write a i) i = v i) (a : α)
    (j : ι) : read (l.foldl write a) j = if j ∈ l then v j else read a j := by
  induction l generalizing a with
  | nil => simp
  | cons i l ih =>
    rw [List.foldl_cons, ih fun a i hi => hself a i (List.mem_cons_of_mem _ hi)]
    by_cases hj : j ∈ l
    · rw [if_pos hj, if_pos (List.mem_cons_of_mem _ hj)]
    · rw [if_neg hj]
      by_cases hij : i = j
      · subst hij
        rw [if_pos List.mem_cons_self, hself a i List.mem_cons_self]
      · rw [hother a i j hij, if_neg (by simp [hj, Ne.symm hij])]

end SoftPC.Walk
