import SoftPC.Machinery.Ring
import Mathlib.Data.List.TakeWhile
import Mathlib.Tactic.Common

/-!
# Keymouse/BiosBuffer — the keyboard buffer of the BIOS

    keyboard interrupt, INT 16h AH 05h ─▸ tail ··· head ─▸ INT 16h AH 00h, 10h          AH 01h, 11h peek

`keymouse/keybd_io.c`.  The buffer is a ring of sixteen words in the BIOS data area, one of them always free.  A call
of INT 16h is taken by passes: between two of them it is in a recursive CPU, where interrupts and other calls may
come.  However they are interleaved the ring is a queue, and `bios_buffer_size` is its length unless it has wrapped
(`keyboard_buffer_exact`).
-/

namespace SoftPC.BiosKeyboard

/-! ## The BIOS data area -/

/-- The BIOS data area, by offset from `BIOS_VAR_START`. -/
abbrev Area := ℕ → BitVec 8

/-- `sas_w_at`. -/
def Area.word (a : Area) (o : ℕ) : BitVec 16 := a (o + 1) ++ a o

/-- `sas_storew`. -/
def Area.storeWord (a : Area) (o : ℕ) (value : BitVec 16) : Area :=
  Function.update (Function.update a o (value.setWidth 8)) (o + 1) (value.extractLsb' 8 8)

/-- `BIOS_KB_BUFFER_HEAD`, `BIOS_KB_BUFFER_TAIL`, `BIOS_KB_BUFFER_START`, `BIOS_KB_BUFFER_END`, `BIOS_KB_BUFFER`. -/
def headAt : ℕ := 0x1a
def tailAt : ℕ := 0x1c
def startAt : ℕ := 0x80
def endAt : ℕ := 0x82
def bufferAt : ℕ := 0x1e

/-- `BIOS_KB_BUFFER_SIZE`. -/
def bufferSize : ℕ := 16

/-- `kb_flag_3`, and `LC_E0 + LC_E1`. -/
def kbFlag3At : ℕ := 0x96
def marks : BitVec 8 := 0x03

namespace Area

variable (a : Area)

def head : BitVec 16 := a.word headAt
def tail : BitVec 16 := a.word tailAt

def incBufferPtr (p : BitVec 16) : BitVec 16 := if p + 2 = a.word endAt then a.word startAt else p + 2

/-- `keyboard_post`, of the buffer. -/
def keyboardPost : Area :=
  (((a.storeWord headAt (BitVec.ofNat 16 bufferAt)).storeWord tailAt (BitVec.ofNat 16 bufferAt)).storeWord startAt
    (BitVec.ofNat 16 bufferAt)).storeWord endAt (BitVec.ofNat 16 (bufferAt + 2 * bufferSize))

def biosBufferSize : ℤ :=
  if a.head.toNat < a.tail.toNat then (a.tail.toNat : ℤ) - a.head.toNat else (a.head.toNat : ℤ) - a.tail.toNat

/-- A word is stored at the tail, if there is room: by `PutInBufferFunc`, and by AH 05h. -/
def insert (w : BitVec 16) : Bool × Area :=
  if a.incBufferPtr a.tail = a.head then (false, a)
  else (true, (a.storeWord a.tail.toNat w).storeWord tailAt (a.incBufferPtr a.tail))

/-- The head moves on. -/
def dropHead : Area := a.storeWord headAt (a.incBufferPtr a.head)

end Area

/-- `translate_std`: the carry flag, and AX. -/
def translateStd (ax : BitVec 16) : Bool × BitVec 16 :=
  let ah : BitVec 8 := ax.extractLsb' 8 8
  let al : BitVec 8 := ax.setWidth 8
  if ah = 0xe0 then
    if al = 0x0d ∨ al = 0x0a then (false, 0x1c#8 ++ al) else (false, 0x35#8 ++ al)
  else if 0x84 < ah then (true, ax)
  else if al = 0xf0 then
    if ah = 0 then (false, ax) else (true, ax)
  else if al = 0xe0 ∧ ah ≠ 0 then (false, ah ++ 0#8)
  else (false, ax)

def translateExt (ax : BitVec 16) : BitVec 16 :=
  let ah : BitVec 8 := ax.extractLsb' 8 8
  if ax.setWidth 8 = 0xf0#8 ∧ ah ≠ 0 then ah ++ 0#8 else ax

/-! ## INT 16h -/

/-- The kinds of call, standard and extended. -/
inductive Kind where
  | std
  | ext
  deriving DecidableEq

/-- `translate_std` or `translate_ext`: whether the word is thrown away, and AX. -/
def Kind.translate : Kind → BitVec 16 → Bool × BitVec 16
  | .std, ax => translateStd ax
  | .ext, ax => (false, translateExt ax)

/-- A word is thrown away. -/
def Kind.rejects (k : Kind) (w : BitVec 16) : Bool := (k.translate w).1

/-- What is in progress: a call that reads (AH 00h, 10h) or peeks (AH 01h, 11h), or an interrupt that has stored its
word and calls INT 15h. -/
inductive Call where
  | read (k : Kind)
  | peek (k : Kind)
  | interrupt

/-- How a pass ends: the call waits, has thrown a word away and starts again, or returns. -/
inductive Outcome where
  | wait
  | thrown (word : BitVec 16)
  | key (word ax : BitVec 16)
  | noKey
  | done
  deriving DecidableEq

/-- A pass of a call, from one recursive CPU to the next. -/
def Area.pass (a : Area) : Call → Outcome × Area
  | .read k =>
    if a.tail = a.head then (.wait, a)
    else
      let ax := a.word a.head.toNat
      let t := k.translate ax
      (if t.1 then .thrown ax else .key ax t.2, a.dropHead)
  | .peek k =>
    let ax := a.word a.head.toNat
    if a.tail = a.head then (.noKey, a)
    else
      let t := k.translate ax
      if t.1 then (.thrown ax, a.dropHead) else (.key ax t.2, a)
  | .interrupt => (.done, Function.update a kbFlag3At (a kbFlag3At &&& ~~~marks))

/-- Whether the call goes on. -/
def Outcome.goesOn : Outcome → Bool
  | .wait => true
  | .thrown _ => true
  | _ => false

/-- A call that nothing interrupts, in so many passes. -/
def Area.finish (a : Area) (c : Call) : ℕ → Outcome × Area
  | 0 => (.wait, a)
  | fuel + 1 =>
    let o := a.pass c
    if o.1.goesOn then o.2.finish c fuel else o

/-! ## Runs -/

/-- What happens: an interrupt with a key, AH 05h with CX, the start of a call, a pass of the last call. -/
inductive Event where
  | key (s v : BitVec 8)
  | place (cx : BitVec 16)
  | call (c : Call)
  | pass

/-- What was done. -/
inductive Entry where
  | stored (w : BitVec 16)
  | refused (w : BitVec 16)
  | passed (c : Call) (o : Outcome)

/-- The data area, the calls in progress, and what was done, latest first. -/
structure Machine where
  area : Area
  calls : List Call
  log : List Entry

def Machine.insert (m : Machine) (w : BitVec 16) (calls : List Call) : Machine :=
  let o := m.area.insert w
  if o.1 then { area := o.2, calls := calls ++ m.calls, log := .stored w :: m.log }
  else { m with log := .refused w :: m.log }

def Machine.step (m : Machine) : Event → Machine
  | .key s v => m.insert (s ++ v) [.interrupt]
  | .place cx => m.insert cx []
  | .call c => { m with calls := c :: m.calls }
  | .pass =>
    match m.calls with
    | [] => m
    | c :: calls =>
      let o := m.area.pass c
      { area := o.2, calls := if o.1.goesOn then c :: calls else calls, log := .passed c o.1 :: m.log }

/-- The machine after `keyboard_post`. -/
def Machine.post (a : Area) : Machine where
  area := a.keyboardPost
  calls := []
  log := []

def Machine.run (m : Machine) (events : List Event) : Machine := events.foldl Machine.step m

/-! ## A queue of at most fifteen words -/

/-- A word at the end, if there is room. -/
def insertQueue (q : List (BitVec 16)) (w : BitVec 16) : Bool × List (BitVec 16) :=
  if q.length + 1 = bufferSize then (false, q) else (true, q ++ [w])

/-- A pass of a call, of the queue. -/
def passQueue : Call → List (BitVec 16) → Outcome × List (BitVec 16)
  | .read _, [] => (.wait, [])
  | .read k, w :: ws => (if (k.translate w).1 then .thrown w else .key w (k.translate w).2, ws)
  | .peek _, [] => (.noKey, [])
  | .peek k, w :: ws => if (k.translate w).1 then (.thrown w, ws) else (.key w (k.translate w).2, w :: ws)
  | .interrupt, q => (.done, q)

namespace Area

variable {a : Area} {o p h n i j : ℕ} {v w : BitVec 16}

/-! ### Words -/

theorem word_storeWord (a : Area) (o : ℕ) (v : BitVec 16) : (a.storeWord o v).word o = v := by
  rw [word, storeWord, Function.update_self, Function.update_of_ne (Nat.ne_of_lt o.lt_succ_self), Function.update_self]
  ext i hi
  simp
  grind

theorem word_storeWord_of_ne (a : Area) (v : BitVec 16) (h : p + 1 < o ∨ o + 1 < p) :
    (a.storeWord o v).word p = a.word p := by
  rw [word, storeWord, Function.update_of_ne (by omega), Function.update_of_ne (by omega),
    Function.update_of_ne (by omega), Function.update_of_ne (by omega), word]

/-- The offset of a word of the buffer. -/
def slot (i : ℕ) : BitVec 16 := BitVec.ofNat 16 (bufferAt + 2 * i)

theorem toNat_slot (h : i ≤ bufferSize) : (slot i).toNat = bufferAt + 2 * i := by
  rw [slot, BitVec.toNat_ofNat, Nat.mod_eq_of_lt]
  rw [bufferSize] at h
  rw [bufferAt]
  omega

theorem slot_inj (hi : i ≤ bufferSize) (hj : j ≤ bufferSize) : slot i = slot j ↔ i = j := by
  rw [← BitVec.toNat_inj, toNat_slot hi, toNat_slot hj]
  omega

theorem slot_add_two (i : ℕ) : slot i + 2 = slot (i + 1) := by
  rw [slot, slot, Nat.mul_succ, ← Nat.add_assoc, BitVec.ofNat_add _ 2]
  rfl

/-- The words of the buffer. -/
def cells (a : Area) (i : ℕ) : BitVec 16 := a.word (bufferAt + 2 * i)

theorem cells_storeWord (a : Area) (i : ℕ) (v : BitVec 16) :
    (a.storeWord (bufferAt + 2 * i) v).cells = Function.update a.cells i v := by
  funext j
  by_cases heq : j = i
  · rw [heq, Function.update_self, cells, word_storeWord]
  · rw [Function.update_of_ne heq, cells, word_storeWord_of_ne _ _ (by omega), cells]

theorem cells_storeWord_of_lt (a : Area) (v : BitVec 16) (h : o + 1 < bufferAt) : (a.storeWord o v).cells = a.cells := by
  funext j
  rw [cells, word_storeWord_of_ne _ _ (by omega), cells]

/-- The words from the head to the tail. -/
def queued (a : Area) : List (BitVec 16) :=
  Ring.window a.cells bufferSize ((a.head.toNat - bufferAt) / 2)
    ((a.tail.toNat / 2 + bufferSize - a.head.toNat / 2) % bufferSize)

/-- **The buffer** holds `n` words from `h` on. -/
structure Holds (a : Area) (h n : ℕ) : Prop where
  first : h < bufferSize
  room : n < bufferSize
  head : a.head = slot h
  tail : a.tail = slot ((h + n) % bufferSize)
  start : a.word startAt = slot 0
  stop : a.word endAt = slot bufferSize

theorem mod_le (i : ℕ) : i % bufferSize ≤ bufferSize := Nat.le_of_lt (Nat.mod_lt _ (by decide))

theorem Holds.queued (hold : a.Holds h n) : a.queued = Ring.window a.cells bufferSize h n := by
  have hfirst := hold.first
  have hroom := hold.room
  rw [Area.queued, hold.head, hold.tail, toNat_slot (Nat.le_of_lt hold.first), toNat_slot (mod_le _)]
  rw [bufferSize, bufferAt] at *
  congr 1
  · omega
  · omega

theorem Holds.inc (hold : a.Holds h n) (hi : i < bufferSize) :
    a.incBufferPtr (slot i) = slot ((i + 1) % bufferSize) := by
  rw [incBufferPtr, slot_add_two, hold.stop, hold.start]
  by_cases hlast : i + 1 = bufferSize
  · rw [hlast, if_pos rfl, Nat.mod_self]
  · rw [if_neg ((slot_inj hi (Nat.le_refl _)).not.mpr hlast), Nat.mod_eq_of_lt (Nat.lt_of_le_of_ne hi hlast)]

theorem Holds.inc_tail (hold : a.Holds h n) : a.incBufferPtr a.tail = slot ((h + (n + 1)) % bufferSize) := by
  rw [hold.tail, hold.inc (Nat.mod_lt _ (by decide)), Nat.mod_add_mod, Nat.add_assoc]

theorem Holds.empty_iff (hold : a.Holds h n) : a.tail = a.head ↔ n = 0 := by
  have hfirst := hold.first
  have hroom := hold.room
  rw [hold.tail, hold.head, slot_inj (mod_le _) (Nat.le_of_lt hold.first)]
  rw [bufferSize] at *
  omega

theorem Holds.full_iff (hold : a.Holds h n) : a.incBufferPtr a.tail = a.head ↔ n + 1 = bufferSize := by
  have hfirst := hold.first
  have hroom := hold.room
  rw [hold.inc_tail, hold.head, slot_inj (mod_le _) (Nat.le_of_lt hold.first)]
  rw [bufferSize] at *
  omega

/-- **A word stored** is the last of the queue. -/
theorem Holds.insert (hold : a.Holds h n) (w : BitVec 16) :
    (a.insert w).1 = (insertQueue a.queued w).1 ∧ (a.insert w).2.queued = (insertQueue a.queued w).2 ∧
      ∃ n', (a.insert w).2.Holds h n' := by
  rw [Area.insert, insertQueue, hold.queued, Ring.window_length]
  by_cases hfull : n + 1 = bufferSize
  · rw [if_pos (hold.full_iff.mpr hfull), if_pos hfull]
    exact ⟨rfl, hold.queued, n, hold⟩
  · rw [if_neg (hold.full_iff.not.mpr hfull), if_neg hfull]
    have hmod := Nat.mod_lt (h + n) (by decide : 0 < bufferSize)
    rw [hold.inc_tail, hold.tail, toNat_slot (mod_le _)]
    have hlow : bufferAt + 2 * ((h + n) % bufferSize) + 1 < startAt := by
      rw [bufferSize] at hmod
      rw [bufferAt, startAt, bufferSize]
      omega
    have hnext : ((a.storeWord (bufferAt + 2 * ((h + n) % bufferSize)) w).storeWord tailAt
        (slot ((h + (n + 1)) % bufferSize))).Holds h (n + 1) := by
      refine ⟨hold.first, Nat.lt_of_le_of_ne hold.room hfull, ?_, word_storeWord _ _ _, ?_, ?_⟩
      · rw [Area.head, word_storeWord_of_ne _ _ (by decide), word_storeWord_of_ne]
        · exact hold.head
        · exact .inl (by rw [headAt, bufferAt]; omega)
      · rw [word_storeWord_of_ne _ _ (by decide), word_storeWord_of_ne _ _ (.inr hlow)]
        exact hold.start
      · rw [word_storeWord_of_ne _ _ (by decide), word_storeWord_of_ne _ _ (.inr (Nat.lt_trans hlow (by decide)))]
        exact hold.stop
    refine ⟨rfl, ?_, n + 1, hnext⟩
    rw [hnext.queued, cells_storeWord_of_lt _ _ (by decide), cells_storeWord]
    exact Ring.window_push a.cells hold.room w

/-- **The head moved on** leaves the rest. -/
theorem Holds.dropHead (hold : a.Holds h (n + 1)) : a.dropHead.Holds ((h + 1) % bufferSize) n ∧
    a.queued = a.word a.head.toNat :: a.dropHead.queued := by
  have hnext : a.dropHead.Holds ((h + 1) % bufferSize) n := by
    refine ⟨Nat.mod_lt _ (by decide), Nat.lt_of_succ_lt hold.room, ?_, ?_, ?_, ?_⟩
    · rw [Area.head, Area.dropHead, word_storeWord, hold.head, hold.inc hold.first]
    · rw [Area.tail, Area.dropHead, word_storeWord_of_ne _ _ (by decide)]
      refine hold.tail.trans ?_
      rw [Nat.mod_add_mod, Nat.add_right_comm, Nat.add_assoc]
    · rw [Area.dropHead, word_storeWord_of_ne _ _ (by decide)]
      exact hold.start
    · rw [Area.dropHead, word_storeWord_of_ne _ _ (by decide)]
      exact hold.stop
  refine ⟨hnext, ?_⟩
  rw [hold.queued, hnext.queued, Ring.window_pop, Area.dropHead, cells_storeWord_of_lt _ _ (by decide), hold.head,
    toNat_slot (Nat.le_of_lt hold.first), Nat.mod_eq_of_lt hold.first]
  rfl

/-- **A pass is a pass of the queue.** -/
theorem Holds.pass (hold : a.Holds h n) (c : Call) : (a.pass c).1 = (passQueue c a.queued).1 ∧
    (a.pass c).2.queued = (passQueue c a.queued).2 ∧ ∃ h' n', (a.pass c).2.Holds h' n' := by
  cases c with
  | interrupt =>
    have hbyte (q : ℕ) (hq : q < kbFlag3At) : (a.pass .interrupt).2 q = a q := Function.update_of_ne (Nat.ne_of_lt hq) _ _
    have hmarks (p : ℕ) (hp : p + 1 < kbFlag3At) : (a.pass .interrupt).2.word p = a.word p := by
      rw [word, hbyte _ hp, hbyte _ (Nat.lt_of_succ_lt hp), word]
    have hcells : ∀ i < bufferSize, (a.pass .interrupt).2.cells i = a.cells i := fun i hi => by
      refine hmarks _ ?_
      rw [bufferSize] at hi
      rw [bufferAt, kbFlag3At]
      omega
    have hnext : (a.pass .interrupt).2.Holds h n :=
      ⟨hold.first, hold.room, (hmarks _ (by decide)).trans hold.head, (hmarks _ (by decide)).trans hold.tail,
        (hmarks _ (by decide)).trans hold.start, (hmarks _ (by decide)).trans hold.stop⟩
    refine ⟨rfl, ?_, h, n, hnext⟩
    rw [hnext.queued, passQueue, hold.queued]
    exact List.map_congr_left fun i _ => hcells _ (Nat.mod_lt _ (by decide))
  | read k =>
    cases n with
    | zero =>
      have hqueue : a.queued = [] := hold.queued
      rw [Area.pass, if_pos (hold.empty_iff.mpr rfl), hqueue]
      exact ⟨rfl, rfl, h, 0, hold⟩
    | succ n =>
      obtain ⟨hnext, hqueue⟩ := hold.dropHead
      rw [Area.pass, if_neg (hold.empty_iff.not.mpr n.succ_ne_zero), hqueue]
      exact ⟨rfl, rfl, _, n, hnext⟩
  | peek k =>
    cases n with
    | zero =>
      have hqueue : a.queued = [] := hold.queued
      rw [Area.pass]
      dsimp only
      rw [if_pos (hold.empty_iff.mpr rfl), hqueue]
      exact ⟨rfl, rfl, h, 0, hold⟩
    | succ n =>
      obtain ⟨hnext, hqueue⟩ := hold.dropHead
      rw [Area.pass]
      dsimp only
      rw [if_neg (hold.empty_iff.not.mpr n.succ_ne_zero), hqueue, passQueue]
      split
      · exact ⟨rfl, rfl, _, n, hnext⟩
      · exact ⟨rfl, hqueue, h, n + 1, hold⟩

theorem keyboardPost_holds (a : Area) : a.keyboardPost.Holds 0 0 := by
  refine ⟨by decide, by decide, ?_, ?_, ?_, ?_⟩
  · rw [Area.head, keyboardPost, word_storeWord_of_ne _ _ (by decide), word_storeWord_of_ne _ _ (by decide),
      word_storeWord_of_ne _ _ (by decide), word_storeWord]
    rfl
  · rw [Area.tail, keyboardPost, word_storeWord_of_ne _ _ (by decide), word_storeWord_of_ne _ _ (by decide),
      word_storeWord]
    rfl
  · rw [keyboardPost, word_storeWord_of_ne _ _ (by decide), word_storeWord]
    rfl
  · rw [keyboardPost, word_storeWord]
    rfl

/-- **The size of the buffer** is twice what is queued, unless the tail has wrapped. -/
theorem Holds.biosBufferSize_iff (hold : a.Holds h n) :
    a.biosBufferSize = 2 * a.queued.length ↔ a.head.toNat ≤ a.tail.toNat ∨ a.head.toNat = a.tail.toNat + 16 := by
  have hfirst := hold.first
  have hroom := hold.room
  rw [biosBufferSize, hold.queued, Ring.window_length, hold.head, hold.tail,
    toNat_slot (Nat.le_of_lt hold.first), toNat_slot (mod_le _)]
  rw [bufferSize] at *
  split <;> omega

/-! ### Whole calls -/

/-- **A peek** throws the words at the head away that it rejects, and shows the next. -/
theorem Holds.finish_peek (hold : a.Holds h n) (k : Kind) {fuel : ℕ} (hfuel : a.queued.length < fuel) :
    (a.finish (.peek k) fuel).1 = (match a.queued.dropWhile k.rejects with
      | [] => .noKey
      | w :: _ => .key w (k.translate w).2) ∧
    (a.finish (.peek k) fuel).2.queued = a.queued.dropWhile k.rejects ∧
    ∃ h' n', (a.finish (.peek k) fuel).2.Holds h' n' := by
  induction fuel generalizing a h n with
  | zero => exact absurd hfuel (Nat.not_lt_zero _)
  | succ fuel ih =>
    obtain ⟨houtcome, hqueue, h', n', hnext⟩ := hold.pass (.peek k)
    rw [Area.finish]
    cases hwords : a.queued with
    | nil =>
      rw [hwords] at houtcome hqueue
      have hends : (a.pass (.peek k)).1.goesOn = false := congrArg Outcome.goesOn houtcome
      rw [hends, if_neg Bool.false_ne_true]
      exact ⟨houtcome, hqueue, h', n', hnext⟩
    | cons w ws =>
      rw [hwords] at houtcome hqueue hfuel
      rw [passQueue] at houtcome hqueue
      cases hreject : (k.translate w).1 with
      | true =>
        rw [hreject, if_pos rfl] at houtcome hqueue
        have hagain : (a.pass (.peek k)).1.goesOn = true := congrArg Outcome.goesOn houtcome
        have hrest : (a.pass (.peek k)).2.queued = ws := hqueue
        have hdrop : (w :: ws).dropWhile k.rejects = ws.dropWhile k.rejects := List.dropWhile_cons_of_pos hreject
        rw [hagain, if_pos rfl, hdrop, ← hrest]
        exact ih hnext (hrest ▸ Nat.lt_of_succ_lt_succ hfuel)
      | false =>
        rw [hreject, if_neg Bool.false_ne_true] at houtcome hqueue
        have hends : (a.pass (.peek k)).1.goesOn = false := congrArg Outcome.goesOn houtcome
        have hkeep : (w :: ws).dropWhile k.rejects = w :: ws :=
          List.dropWhile_cons_of_neg (Bool.eq_false_iff.mp hreject)
        rw [hends, if_neg Bool.false_ne_true, hkeep]
        exact ⟨houtcome, hqueue, h', n', hnext⟩

/-- …a read takes it. -/
theorem Holds.finish_read (hold : a.Holds h n) {k : Kind} {w : BitVec 16} {ws : List (BitVec 16)}
    (hqueue : a.queued = w :: ws) (haccept : k.rejects w = false) (fuel : ℕ) :
    (a.finish (.read k) (fuel + 1)).1 = .key w (k.translate w).2 := by
  obtain ⟨houtcome, -⟩ := hold.pass (.read k)
  have htranslate : (k.translate w).1 = false := haccept
  rw [hqueue, passQueue, htranslate, if_neg Bool.false_ne_true] at houtcome
  have hends : (a.pass (.read k)).1.goesOn = false := congrArg Outcome.goesOn houtcome
  rw [Area.finish, hends, if_neg Bool.false_ne_true]
  exact houtcome

end Area

/-! ## What is promised -/

/-- The words stored, in their order. -/
def stored : List Entry → List (BitVec 16)
  | [] => []
  | .stored w :: log => stored log ++ [w]
  | _ :: log => stored log

/-- The words that have left the buffer, in their order. -/
def removed : List Entry → List (BitVec 16)
  | [] => []
  | .passed _ (.thrown w) :: log => removed log ++ [w]
  | .passed (.read _) (.key w _) :: log => removed log ++ [w]
  | _ :: log => removed log

/-- A word is thrown away if its call rejects it, and else translated. -/
def Entry.Proper : Entry → Prop
  | .passed (.read k) (.thrown w) => k.rejects w = true
  | .passed (.peek k) (.thrown w) => k.rejects w = true
  | .passed (.read k) (.key w ax) => k.translate w = (false, ax)
  | .passed (.peek k) (.key w ax) => k.translate w = (false, ax)
  | _ => True

/-- **The buffer as a queue.** -/
structure Fifo (m : Machine) : Prop where
  order : stored m.log = removed m.log ++ m.area.queued
  proper : ∀ e ∈ m.log, e.Proper
  bounded : m.area.queued.length < bufferSize
  insert (w : BitVec 16) : (m.area.insert w).1 = (insertQueue m.area.queued w).1 ∧
    (m.area.insert w).2.queued = (insertQueue m.area.queued w).2
  refused (w : BitVec 16) : (m.area.insert w).1 = false → (m.area.insert w).2 = m.area
  pass (c : Call) : (m.area.pass c).1 = (passQueue c m.area.queued).1 ∧
    (m.area.pass c).2.queued = (passQueue c m.area.queued).2
  peek (k : Kind) (w ax : BitVec 16) : (m.area.finish (.peek k) bufferSize).1 = .key w ax →
    ((m.area.finish (.peek k) bufferSize).2.finish (.read k) bufferSize).1 = .key w ax
  noKey (k : Kind) : (m.area.finish (.peek k) bufferSize).1 = .noKey ↔ ∀ w ∈ m.area.queued, k.rejects w = true

/-! ## Runs of the machine -/

/-- The invariant. -/
structure Machine.Sound (m : Machine) : Prop where
  holds : ∃ h n, m.area.Holds h n
  order : stored m.log = removed m.log ++ m.area.queued
  proper : ∀ e ∈ m.log, e.Proper

namespace Machine.Sound

variable {m : Machine}

theorem insert (h : m.Sound) (w : BitVec 16) (calls : List Call) : (m.insert w calls).Sound := by
  obtain ⟨first, n, hold⟩ := h.holds
  obtain ⟨hstored, hqueue, hnext⟩ := hold.insert w
  rw [Machine.insert]
  rw [insertQueue] at hstored hqueue
  generalize m.area.insert w = o at hstored hqueue hnext ⊢
  by_cases hfull : m.area.queued.length + 1 = bufferSize
  · rw [if_pos hfull] at hstored
    rw [hstored, if_neg Bool.false_ne_true]
    exact ⟨h.holds, h.order, List.forall_mem_cons.mpr ⟨trivial, h.proper⟩⟩
  · rw [if_neg hfull] at hstored hqueue
    rw [hstored, if_pos rfl]
    refine ⟨⟨first, hnext⟩, ?_, List.forall_mem_cons.mpr ⟨trivial, h.proper⟩⟩
    rw [stored, removed, h.order, hqueue, List.append_assoc]
    · exact nofun
    · exact nofun

/-- What a pass says of the word it took, and what is left. -/
theorem passQueue_order (c : Call) (q : List (BitVec 16)) (log : List Entry) :
    removed (.passed c (passQueue c q).1 :: log) ++ (passQueue c q).2 = removed log ++ q ∧
      (Entry.passed c (passQueue c q).1).Proper := by
  cases c with
  | interrupt => exact ⟨rfl, trivial⟩
  | read k =>
    cases q with
    | nil => exact ⟨rfl, trivial⟩
    | cons w ws =>
      rw [passQueue]
      dsimp only
      split
      · rename_i hreject
        exact ⟨List.append_assoc _ _ _, hreject⟩
      · rename_i haccept
        exact ⟨List.append_assoc _ _ _, Prod.ext (Bool.eq_false_iff.mpr haccept) rfl⟩
  | peek k =>
    cases q with
    | nil => exact ⟨rfl, trivial⟩
    | cons w ws =>
      rw [passQueue]
      split
      · rename_i hreject
        exact ⟨List.append_assoc _ _ _, hreject⟩
      · rename_i haccept
        exact ⟨rfl, Prod.ext (Bool.eq_false_iff.mpr haccept) rfl⟩

theorem step (h : m.Sound) (e : Event) : (m.step e).Sound := by
  cases e with
  | key s v => exact h.insert (s ++ v) [.interrupt]
  | place cx => exact h.insert cx []
  | call c => exact ⟨h.holds, h.order, h.proper⟩
  | pass =>
    rw [Machine.step]
    split
    · exact h
    · rename_i c calls _
      obtain ⟨first, n, hold⟩ := h.holds
      obtain ⟨houtcome, hqueue, hnext⟩ := hold.pass c
      obtain ⟨horder, hproper⟩ := passQueue_order c m.area.queued m.log
      dsimp only
      rw [houtcome]
      refine ⟨hnext, ?_, List.forall_mem_cons.mpr ⟨hproper, h.proper⟩⟩
      dsimp only
      rw [hqueue, horder]
      exact h.order

theorem run (h : m.Sound) (events : List Event) : (m.run events).Sound := by
  induction events generalizing m with
  | nil => exact h
  | cons e events ih => exact ih (h.step e)

theorem post (a : Area) : (Machine.post a).Sound := by
  have hold := a.keyboardPost_holds
  refine ⟨⟨0, 0, hold⟩, ?_, nofun⟩
  exact hold.queued.symm

theorem fifo (h : m.Sound) : Fifo m := by
  obtain ⟨first, n, hold⟩ := h.holds
  have hlength : m.area.queued.length = n := by rw [hold.queued, Ring.window_length]
  have hbounded : m.area.queued.length < bufferSize := hlength ▸ hold.room
  refine ⟨h.order, h.proper, hbounded, fun w => ?_, fun w => ?_, fun c => ?_, fun k w ax => ?_, fun k => ?_⟩
  · obtain ⟨hstored, hqueue, -⟩ := hold.insert w
    exact ⟨hstored, hqueue⟩
  · rw [Area.insert]
    split
    · exact fun _ => rfl
    · exact nofun
  · obtain ⟨houtcome, hqueue, -⟩ := hold.pass c
    exact ⟨houtcome, hqueue⟩
  · obtain ⟨houtcome, hqueue, first', n', hold'⟩ := hold.finish_peek k hbounded
    generalize m.area.finish (.peek k) bufferSize = o at houtcome hqueue hold' ⊢
    cases hwords : m.area.queued.dropWhile k.rejects with
    | nil =>
      rw [hwords] at houtcome
      intro hkey
      exact absurd (houtcome.symm.trans hkey) nofun
    | cons w' ws =>
      rw [hwords] at houtcome hqueue
      have haccept : k.rejects w' = false := by
        have hhead := List.head?_dropWhile_not k.rejects m.area.queued
        rw [hwords] at hhead
        exact hhead
      intro hkey
      rw [← hkey, houtcome]
      exact hold'.finish_read hqueue haccept 15
  · obtain ⟨houtcome, -⟩ := hold.finish_peek k hbounded
    rw [houtcome, ← List.dropWhile_eq_nil_iff]
    cases m.area.queued.dropWhile k.rejects with
    | nil => exact iff_of_true rfl rfl
    | cons w ws => exact iff_of_false nofun nofun

end Machine.Sound

/-- **The keyboard buffer, exactly**: however insertions, peeks and reads are interleaved it is a queue of at most
fifteen words, and `bios_buffer_size` is the number of bytes queued unless the tail is below the head by other than
sixteen. -/
theorem keyboard_buffer_exact (a : Area) (events : List Event) :
    Fifo ((Machine.post a).run events) ∧
      (((Machine.post a).run events).area.biosBufferSize = 2 * ((Machine.post a).run events).area.queued.length ↔
        ((Machine.post a).run events).area.head.toNat ≤ ((Machine.post a).run events).area.tail.toNat ∨
        ((Machine.post a).run events).area.head.toNat = ((Machine.post a).run events).area.tail.toNat + 16) := by
  have hsound := (Machine.Sound.post a).run events
  obtain ⟨first, n, hold⟩ := hsound.holds
  exact ⟨hsound.fifo, hold.biosBufferSize_iff⟩

/-- Fifteen words stored and read, and two stored. -/
def onceRound : List Event :=
  (List.replicate 15 [.place 0x1e61#16, .call (.read .ext), .pass]).flatten ++ [.place 0x1e61#16, .place 0x1e61#16]

/-- **The size of a buffer that has wrapped** is twenty-eight, of two words. -/
theorem wrapped_size : ((Machine.post fun _ => 0).run onceRound).area.biosBufferSize ≠
    2 * ((Machine.post fun _ => 0).run onceRound).area.queued.length := by
  decide +kernel

end SoftPC.BiosKeyboard
