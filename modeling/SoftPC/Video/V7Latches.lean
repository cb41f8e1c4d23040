import SoftPC.Machinery.Fields
import SoftPC.Machinery.Numerals
import Mathlib.Logic.Function.Basic
import Mathlib.Data.Fin.Basic

/-!
# Video/V7Latches — the latch ports of the V7

    video reads ─▸ four background latches ◂─ A0–A3, F2        four foreground latches ◂─ EC–EF, F0

`vga_extn_outb` and `vga_extn_inb` of `video/v7_ports.c`.  `put_latch` writes its byte into a copy of the background
latches that only `get_latch` brings up to date, and sets all four from it: the other three are kept if the copy of
them is current, and only then (`latch_ports_exact`).
-/

namespace SoftPC.V7

/-! ## Bytes and load counters -/

/-- The byte of a latch in the word of four. -/
def byteAt (w : BitVec 32) (n : Fin 4) : BitVec 8 := (takeField w 8 (8 * n)).setWidth 8

def putByte (w : BitVec 32) (n : Fin 4) (value : BitVec 8) : BitVec 32 := putField w (value.setWidth 32) 8 (8 * n)

/-- A load counter, two bits at `s`. -/
def loadState (b : BitVec 8) (s : ℕ) : Fin 4 := Fin.ofNat 4 (takeField b 2 s).toNat

def putLoadState (b : BitVec 8) (s : ℕ) (n : Fin 4) : BitVec 8 := putField b (BitVec.ofNat 8 n) 2 s

/-- Where `bg_latch_load_state` and `fg_latch_load_state` stand. -/
def bgShift : ℕ := 0

def fgShift : ℕ := 4

theorem byteAt_putByte (w : BitVec 32) (n m : Fin 4) (value : BitVec 8) :
    byteAt (putByte w n value) m = if m = n then value else byteAt w m := by
  rw [byteAt, putByte]
  split
  · rename_i heq
    rw [heq, takeField_putField _ _ (by omega)]
    ext i hi
    rw [← BitVec.getLsbD_eq_getElem, ← BitVec.getLsbD_eq_getElem, BitVec.getLsbD_setWidth, BitVec.getLsbD_and,
      getLsbD_lowBits, BitVec.getLsbD_setWidth]
    simp [hi, Nat.lt_trans hi (by decide : 8 < 32)]
  · rename_i hne
    rw [takeField_putField_of_ne _ _ (by omega), byteAt]

theorem loadState_putLoadState (b : BitVec 8) (n : Fin 4) {s : ℕ} (h : s + 2 ≤ 8) :
    loadState (putLoadState b s n) s = n := by
  rw [loadState, putLoadState, takeField_putField _ _ h]
  revert n
  decide

theorem loadState_putLoadState_of_ne (b : BitVec 8) (n : Fin 4) {s s' : ℕ} (h : s' + 2 ≤ s ∨ s + 2 ≤ s') :
    loadState (putLoadState b s n) s' = loadState b s' := by
  rw [loadState, putLoadState, takeField_putField_of_ne _ _ h, loadState]

/-! ## The ports -/

/-- The latches: those of the CPU's video state, the shared copy `latchval`, and the registers of
`extensions_controller`. -/
structure Latches where
  videolatches : BitVec 32
  latchval : BitVec 32
  v7FgLatches : BitVec 32
  foregroundLatch : Fin 4 → BitVec 8
  fastLatchLoadState : BitVec 8

/-- The extension registers of the latches, by index. -/
inductive Register where
  /-- `0xa0` to `0xa3`. -/
  | memLatch (n : Fin 4)
  /-- `0xec` to `0xef`. -/
  | foregroundLatch (n : Fin 4)
  /-- `0xf0`. -/
  | fastForegroundLatchLoad
  /-- `0xf1`. -/
  | fastLatchLoadState
  /-- `0xf2`. -/
  | fastBackgroundLatchLoad

/-- What happens to the latches. -/
inductive Access where
  | outb (r : Register) (value : BitVec 8)
  | inb (r : Register)
  | videoRead (value : BitVec 32)

def setV7FgLatchByte (v7latch : BitVec 32) (index : Fin 4) (value : BitVec 8) : BitVec 32 :=
  match index with
  | 0 => v7latch &&& 0xffffff00#32 ||| value.setWidth 32
  | 1 => v7latch &&& 0xffff00ff#32 ||| value.setWidth 32 <<< 8
  | 2 => v7latch &&& 0xff00ffff#32 ||| value.setWidth 32 <<< 16
  | 3 => v7latch &&& 0x00ffffff#32 ||| value.setWidth 32 <<< 24

namespace Latches

variable (s : Latches)

def getLatch (n : Fin 4) : BitVec 8 × Latches := (byteAt s.videolatches n, { s with latchval := s.videolatches })

def putLatch (n : Fin 4) (value : BitVec 8) : Latches :=
  { s with latchval := putByte s.latchval n value, videolatches := putByte s.latchval n value }

/-- A foreground latch and, by `SET_FG_LATCH`, its byte of the word. -/
def setForeground (n : Fin 4) (value : BitVec 8) : Latches :=
  { s with
    foregroundLatch := Function.update s.foregroundLatch n value
    v7FgLatches := setV7FgLatchByte s.v7FgLatches n value }

def bgLatchLoadState : Fin 4 := loadState s.fastLatchLoadState bgShift

def fgLatchLoadState : Fin 4 := loadState s.fastLatchLoadState fgShift

def setBgLatchLoadState (n : Fin 4) : Latches :=
  { s with fastLatchLoadState := putLoadState s.fastLatchLoadState bgShift n }

def setFgLatchLoadState (n : Fin 4) : Latches :=
  { s with fastLatchLoadState := putLoadState s.fastLatchLoadState fgShift n }

def vgaExtnOutb (r : Register) (value : BitVec 8) : Latches :=
  match r with
  | .memLatch n => s.putLatch n value
  | .foregroundLatch n => s.setForeground n value
  | .fastForegroundLatchLoad =>
    (s.setForeground s.fgLatchLoadState value).setFgLatchLoadState (s.fgLatchLoadState + 1)
  | .fastLatchLoadState => { s with fastLatchLoadState := value }
  | .fastBackgroundLatchLoad =>
    (s.putLatch s.bgLatchLoadState value).setBgLatchLoadState (s.bgLatchLoadState + 1)

def vgaExtnInb (r : Register) : BitVec 8 × Latches :=
  match r with
  | .memLatch n => s.getLatch n
  | .foregroundLatch n => (s.foregroundLatch n, s)
  | .fastForegroundLatchLoad => (s.foregroundLatch s.fgLatchLoadState, s.setFgLatchLoadState 0)
  | .fastLatchLoadState => (s.fastLatchLoadState, s)
  | .fastBackgroundLatchLoad =>
    let o := s.getLatch s.bgLatchLoadState
    (o.1, o.2.setBgLatchLoadState 0)

/-- An access, and what a read returns. -/
def access : Access → BitVec 8 × Latches
  | .outb r value => (0, s.vgaExtnOutb r value)
  | .inb r => s.vgaExtnInb r
  | .videoRead value => (0, { s with videolatches := value })

end Latches

/-- The foreground latches and the counters at the start, whatever the background latches are. -/
def Latches.initial (videolatches latchval : BitVec 32) : Latches where
  videolatches := videolatches
  latchval := latchval
  v7FgLatches := 0
  foregroundLatch := fun _ => 0
  fastLatchLoadState := 0

/-- The latches after accesses. -/
def run (s : Latches) (accesses : List Access) : Latches := accesses.foldl (fun s a => (s.access a).2) s

/-! ## Eight latches, two counters -/

/-- What the ports show. -/
structure View where
  background : Fin 4 → BitVec 8
  foreground : Fin 4 → BitVec 8
  bgLoad : Fin 4
  fgLoad : Fin 4

namespace View

variable (v : View)

/-- A latch is written alone. -/
def step : Access → View
  | .outb (.memLatch n) value => { v with background := Function.update v.background n value }
  | .outb (.foregroundLatch n) value => { v with foreground := Function.update v.foreground n value }
  | .outb .fastForegroundLatchLoad value =>
    { v with foreground := Function.update v.foreground v.fgLoad value, fgLoad := v.fgLoad + 1 }
  | .outb .fastLatchLoadState value => { v with bgLoad := loadState value bgShift, fgLoad := loadState value fgShift }
  | .outb .fastBackgroundLatchLoad value =>
    { v with background := Function.update v.background v.bgLoad value, bgLoad := v.bgLoad + 1 }
  | .inb .fastForegroundLatchLoad => { v with fgLoad := 0 }
  | .inb .fastBackgroundLatchLoad => { v with bgLoad := 0 }
  | .inb _ => v
  | .videoRead value => { v with background := byteAt value }

/-- The latch that is read. -/
def reads : Access → Option (BitVec 8)
  | .inb (.memLatch n) => some (v.background n)
  | .inb (.foregroundLatch n) => some (v.foreground n)
  | .inb .fastForegroundLatchLoad => some (v.foreground v.fgLoad)
  | .inb .fastBackgroundLatchLoad => some (v.background v.bgLoad)
  | _ => none

end View

namespace Latches

variable (s : Latches)

/-- The latches as the ports show them. -/
def view : View where
  background := byteAt s.videolatches
  foreground := s.foregroundLatch
  bgLoad := s.bgLatchLoadState
  fgLoad := s.fgLatchLoadState

/-- An access does to the latches what it should, and reads the latch it should. -/
def Correct (a : Access) : Prop :=
  (s.access a).2.view = s.view.step a ∧ ∀ value ∈ s.view.reads a, (s.access a).1 = value

/-- The background latch that a write is for. -/
def target : Access → Option (Fin 4)
  | .outb (.memLatch n) _ => some n
  | .outb .fastBackgroundLatchLoad _ => some s.bgLatchLoadState
  | _ => none

/-- **When the other background latches are kept**: the copy of them is current. -/
def Meets (a : Access) : Prop := ∀ n ∈ s.target a, ∀ m ≠ n, byteAt s.latchval m = byteAt s.videolatches m

/-- The word of the foreground latches has their bytes. -/
def Combined : Prop := ∀ n, byteAt s.v7FgLatches n = s.foregroundLatch n

/-! ## An access -/

variable {s}

theorem setV7FgLatchByte_eq (v7latch : BitVec 32) (index : Fin 4) (value : BitVec 8) :
    setV7FgLatchByte v7latch index value = putByte v7latch index value := by
  have hvalue : value.setWidth 32 &&& lowBits 32 8 = value.setWidth 32 := by
    ext i hi
    rw [← BitVec.getLsbD_eq_getElem, ← BitVec.getLsbD_eq_getElem, BitVec.getLsbD_and, getLsbD_lowBits,
      BitVec.getLsbD_setWidth]
    by_cases hbyte : i < 8
    · simp [hbyte, hi]
    · simp [hbyte, BitVec.getLsbD_of_ge value i (Nat.le_of_not_lt hbyte)]
  rw [putByte, putField, hvalue]
  have hcases : ∀ i : Fin 4, i = 0 ∨ i = 1 ∨ i = 2 ∨ i = 3 := by decide
  rcases hcases index with rfl | rfl | rfl | rfl
  · exact congrArg (v7latch &&& 0xffffff00#32 ||| ·) (BitVec.shiftLeft_zero _).symm
  · rfl
  · rfl
  · rfl

theorem background_putLatch (n : Fin 4) (value : BitVec 8) :
    byteAt (s.putLatch n value).videolatches = Function.update (byteAt s.videolatches) n value ↔
      ∀ m ≠ n, byteAt s.latchval m = byteAt s.videolatches m := by
  have hbyte (m : Fin 4) : byteAt (s.putLatch n value).videolatches m = if m = n then value else byteAt s.latchval m :=
    byteAt_putByte _ _ _ _
  constructor
  · intro h m hne
    have hm := congrFun h m
    rwa [hbyte, if_neg hne, Function.update_of_ne hne] at hm
  · intro h
    funext m
    rw [hbyte]
    by_cases heq : m = n
    · rw [if_pos heq, heq, Function.update_self]
    · rw [if_neg heq, Function.update_of_ne heq, h m heq]

theorem setFgLatchLoadState_bg (n : Fin 4) : (s.setFgLatchLoadState n).bgLatchLoadState = s.bgLatchLoadState :=
  loadState_putLoadState_of_ne _ _ (by decide)

theorem setFgLatchLoadState_fg (n : Fin 4) : (s.setFgLatchLoadState n).fgLatchLoadState = n :=
  loadState_putLoadState _ _ (by decide)

theorem setBgLatchLoadState_fg (n : Fin 4) : (s.setBgLatchLoadState n).fgLatchLoadState = s.fgLatchLoadState :=
  loadState_putLoadState_of_ne _ _ (by decide)

theorem setBgLatchLoadState_bg (n : Fin 4) : (s.setBgLatchLoadState n).bgLatchLoadState = n :=
  loadState_putLoadState _ _ (by decide)

/-- A background latch written, and perhaps a counter. -/
theorem putLatch_iff (n : Fin 4) (value : BitVec 8) (bgLoad : Fin 4) :
    ({ background := byteAt (s.putLatch n value).videolatches, foreground := s.foregroundLatch, bgLoad,
       fgLoad := s.fgLatchLoadState } : View) =
      { background := Function.update (byteAt s.videolatches) n value, foreground := s.foregroundLatch, bgLoad,
        fgLoad := s.fgLatchLoadState } ↔
    ∀ m ≠ n, byteAt s.latchval m = byteAt s.videolatches m := by
  rw [View.mk.injEq, and_iff_left ⟨rfl, rfl, rfl⟩]
  exact background_putLatch n value

/-- **An access touches one latch**, exactly when it meets its condition. -/
theorem correct_iff (s : Latches) (a : Access) : s.Correct a ↔ s.Meets a := by
  cases a with
  | outb r value =>
    rw [Correct, and_iff_left (nofun : ∀ _ ∈ s.view.reads (.outb r value), _)]
    cases r with
    | memLatch n =>
      refine (putLatch_iff n value s.bgLatchLoadState).trans ⟨fun h m hm => ?_, fun h => h n rfl⟩
      exact Option.some.inj hm ▸ h
    | foregroundLatch n => exact iff_of_true rfl nofun
    | fastForegroundLatchLoad =>
      refine iff_of_true ?_ nofun
      exact View.mk.injEq .. ▸ ⟨rfl, rfl, setFgLatchLoadState_bg _, setFgLatchLoadState_fg _⟩
    | fastLatchLoadState => exact iff_of_true rfl nofun
    | fastBackgroundLatchLoad =>
      have hview : (s.access (.outb .fastBackgroundLatchLoad value)).2.view =
          { background := byteAt (s.putLatch s.bgLatchLoadState value).videolatches
            foreground := s.foregroundLatch
            bgLoad := s.bgLatchLoadState + 1
            fgLoad := s.fgLatchLoadState } :=
        View.mk.injEq .. ▸ ⟨rfl, rfl, setBgLatchLoadState_bg _, setBgLatchLoadState_fg _⟩
      rw [hview]
      refine (putLatch_iff s.bgLatchLoadState value (s.bgLatchLoadState + 1)).trans ⟨fun h m hm => ?_, fun h => h _ rfl⟩
      exact Option.some.inj hm ▸ h
  | inb r =>
    refine iff_of_true ?_ nofun
    cases r with
    | memLatch n => exact ⟨rfl, fun value h => Option.some.inj h⟩
    | foregroundLatch n => exact ⟨rfl, fun value h => Option.some.inj h⟩
    | fastForegroundLatchLoad =>
      refine ⟨?_, fun value h => Option.some.inj h⟩
      exact View.mk.injEq .. ▸ ⟨rfl, rfl, setFgLatchLoadState_bg _, setFgLatchLoadState_fg _⟩
    | fastLatchLoadState => exact ⟨rfl, nofun⟩
    | fastBackgroundLatchLoad =>
      refine ⟨?_, fun value h => Option.some.inj h⟩
      exact View.mk.injEq .. ▸ ⟨rfl, rfl, setBgLatchLoadState_bg _, setBgLatchLoadState_fg _⟩
  | videoRead value => exact iff_of_true ⟨rfl, nofun⟩ nofun

theorem Combined.setForeground (h : s.Combined) (n : Fin 4) (value : BitVec 8) :
    (s.setForeground n value).Combined := by
  intro m
  change byteAt (setV7FgLatchByte s.v7FgLatches n value) m = Function.update s.foregroundLatch n value m
  rw [setV7FgLatchByte_eq, byteAt_putByte]
  by_cases heq : m = n
  · rw [if_pos heq, heq, Function.update_self]
  · rw [if_neg heq, Function.update_of_ne heq, h m]

theorem Combined.access (h : s.Combined) (a : Access) : (s.access a).2.Combined := by
  cases a with
  | outb r value =>
    cases r with
    | memLatch n => exact h
    | foregroundLatch n => exact h.setForeground n value
    | fastForegroundLatchLoad => exact h.setForeground _ value
    | fastLatchLoadState => exact h
    | fastBackgroundLatchLoad => exact h
  | inb r => cases r <;> exact h
  | videoRead value => exact h

theorem Combined.run (h : s.Combined) (accesses : List Access) : (run s accesses).Combined := by
  induction accesses generalizing s with
  | nil => exact h
  | cons a accesses ih => exact ih (h.access a)

theorem initial_combined (videolatches latchval : BitVec 32) : (initial videolatches latchval).Combined := by
  intro n
  change byteAt 0 n = 0
  revert n
  decide

end Latches

/-- **The latch ports, exactly**: after every sequence of accesses the foreground word has the foreground latches,
and an access touches its latch and its counter and no other, but for a background latch written while the copy of
the others is not current. -/
theorem latch_ports_exact (videolatches latchval : BitVec 32) (accesses : List Access) :
    (run (.initial videolatches latchval) accesses).Combined ∧
      ∀ a, (run (.initial videolatches latchval) accesses).Correct a ↔
        (run (.initial videolatches latchval) accesses).Meets a :=
  ⟨(Latches.initial_combined videolatches latchval).run accesses, Latches.correct_iff _⟩

/-- **A background latch written takes the others with it**: they were loaded by a read of memory. -/
theorem others_lost : ¬(run (.initial 0 0) [.videoRead 0x44332211#32]).Correct (.outb (.memLatch 0) 0xff#8) := by
  rw [Latches.correct_iff]
  intro h
  exact absurd (h 0 rfl 1 (by decide)) (by decide)

end SoftPC.V7
