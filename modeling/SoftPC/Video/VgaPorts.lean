import Mathlib.Data.Nat.Notation
import Mathlib.Logic.Function.Basic
import Mathlib.Tactic.IntervalCases

/-!
# Video/VgaPorts — the registers of the VGA behind their ports

    3C4/3C5 sequencer   3C2, 3CC misc   3D4/3D5 CRTC   3C0, 3C1, 3DA attribute   3CE/3CF graphics   3C7–3C9 DAC

The handlers of `vga_prts.c`, for the registers that a port reads back; of what a write does besides, only what later
accesses can tell is here.  The CRTC has four write protections: one is its own (bit 7 of register 11h), three are the
V7's (`emulation_control`).  Port 3CC is connected for reading only (`outb_miscRead`).
-/

namespace SoftPC.Video.Vga

/-! ## The chips -/

/-- `sequencer`, with `plane_enable`. -/
structure Sequencer where
  clockingMode : BitVec 8
  planeEnable : BitVec 4
  characterMapSelect : BitVec 8
  memoryMode : BitVec 8

/-- `vga_seq_inb` of the data port… -/
def Sequencer.read (q : Sequencer) : ℕ → BitVec 8
  | 0 => 3
  | 1 => q.clockingMode
  | 2 => q.planeEnable.setWidth 8
  | 3 => q.characterMapSelect
  | 4 => q.memoryMode
  | _ => 0xff

/-- …and `ega_seq_reset`, `vga_seq_clock`, `vga_seq_map_mask`, `vga_seq_char_map` and `vga_seq_mem_mode`. -/
def Sequencer.write (q : Sequencer) (value : BitVec 8) : ℕ → Sequencer
  | 1 => { q with clockingMode := value }
  | 2 => { q with planeEnable := value.setWidth 4 }
  | 3 => { q with characterMapSelect := value }
  | 4 => { q with memoryMode := value }
  | _ => q

theorem Sequencer.read_write_of_ne (q : Sequencer) (value : BitVec 8) (i j : ℕ) (h : i ≠ j) :
    (q.write value i).read j = q.read j := by
  unfold Sequencer.write
  split <;> unfold Sequencer.read <;> split <;> first | rfl | contradiction

/-- What is read can be written back. -/
theorem Sequencer.read_write_read (q q' : Sequencer) {i : ℕ} (hi : i < 5) :
    (q.write (q'.read i) i).read i = q'.read i := by
  have hwidth (x : BitVec 4) : ((x.setWidth 8).setWidth 4).setWidth 8 = x.setWidth 8 := by
    revert x
    decide
  interval_cases i
  · rfl
  · rfl
  · exact hwidth q'.planeEnable
  · rfl
  · rfl

/-- `crt_controller`, and what protects it. -/
structure Crtc where
  regs : ℕ → BitVec 8
  protect07 : Bool
  protect08 : Bool
  protect9b : Bool
  protectC : Bool

namespace Crtc

/-- `vga_crtc_inb`. -/
def read (c : Crtc) : ℕ → BitVec 8
  | 1 => c.regs 1 - 1
  | 0x11 => c.regs 0x11 &&& ~~~0x20
  | i => if i ≤ 0x18 then c.regs i else 0xff

def put (c : Crtc) (i : ℕ) (value : BitVec 8) : Crtc := { c with regs := Function.update c.regs i value }

/-- `vga_crtc_outb` of the data port.  Register 7 is written whole even when the CRTC protects it, and register 0Bh
only when the end of the cursor changes. -/
def write (c : Crtc) (value : BitVec 8) (i : ℕ) : Crtc :=
  match i with
  | 1 => if c.protect08 = false ∧ c.protect07 = false then c.put 1 (value + 1) else c
  | 0 | 2 | 3 | 4 | 5 | 6 => if c.protect08 = false ∧ c.protect07 = false then c.put i value else c
  | 7 | 8 => if c.protect08 = false then c.put i value else c
  | 9 | 0xa => if c.protect9b = false then c.put i value else c
  | 0xb =>
    if c.protect9b = false then if (c.regs 0xb).setWidth 5 ≠ value.setWidth 5 then c.put 0xb value else c else c
  | 0xc => if c.protectC = false then c.put 0xc value else c
  | 0x11 => { c.put 0x11 value with protect07 := value.getLsbD 7 }
  | i => if i ≤ 0x18 then c.put i value else c

/-! ### What a write does -/

/-- A write of `value` that leaves register `i` as it is. -/
def Kept (c : Crtc) (value : BitVec 8) (i : ℕ) : Prop :=
  if i ≤ 6 then c.protect08 = true ∨ c.protect07 = true
  else if i ≤ 8 then c.protect08 = true
  else if i ≤ 0xa then c.protect9b = true
  else if i = 0xb then c.protect9b = true ∨ (c.regs 0xb).setWidth 5 = value.setWidth 5
  else i = 0xc ∧ c.protectC = true

variable {c c' : Crtc} {value : BitVec 8} {i j : ℕ}

theorem write_of_kept (h : c.Kept value i) : c.write value i = c := by
  have hi : i < 0x19 := by
    unfold Kept at h
    split_ifs at h <;> omega
  interval_cases i <;> grind [Kept, write]

theorem write_regs (hi : i < 0x19) (h : ¬ c.Kept value i) :
    (c.write value i).regs i = if i = 1 then value + 1 else value := by
  interval_cases i <;> simp_all [Kept, write, put]

/-- A write does nothing, or puts something in its register; register 11h protects the first eight with it. -/
theorem write_cases (c : Crtc) (value : BitVec 8) (i : ℕ) : c.write value i = c ∨
    i < 0x19 ∧ (∃ x, c.write value i = c.put i x) ∨
    i = 0x11 ∧ c.write value i = { c.put i value with protect07 := value.getLsbD 7 } := by
  unfold write
  split <;> first
    | exact .inr (.inr ⟨rfl, rfl⟩)
    | split_ifs <;> first | exact .inl rfl | exact .inr (.inl ⟨by omega, _, rfl⟩)

theorem write_of_le (h : 0x19 ≤ i) : c.write value i = c := by
  rcases c.write_cases value i with hw | ⟨hi, -⟩ | ⟨rfl, -⟩
  · exact hw
  · exact absurd h (Nat.not_le.mpr hi)
  · exact absurd h (by decide)

theorem put_regs_of_ne (h : i ≠ j) : (c.put i value).regs j = c.regs j := Function.update_of_ne h.symm _ _

theorem write_regs_of_ne (h : i ≠ j) : (c.write value i).regs j = c.regs j := by
  rcases c.write_cases value i with hw | ⟨-, x, hw⟩ | ⟨-, hw⟩ <;> rw [hw]
  · exact put_regs_of_ne h
  · exact put_regs_of_ne h

theorem write_protect : (c.write value i).protect08 = c.protect08 ∧ (c.write value i).protect9b = c.protect9b ∧
    (c.write value i).protectC = c.protectC := by
  rcases c.write_cases value i with hw | ⟨-, x, hw⟩ | ⟨-, hw⟩ <;> rw [hw] <;> exact ⟨rfl, rfl, rfl⟩

theorem write_protect07 (h : i ≠ 0x11) : (c.write value i).protect07 = c.protect07 := by
  rcases c.write_cases value i with hw | ⟨-, x, hw⟩ | ⟨hi, -⟩
  · rw [hw]
  · rw [hw]
    rfl
  · exact absurd hi h

/-- What a write leaves in its register depends on the register, and on what protects it. -/
theorem write_congr (hregs : c.regs i = c'.regs i) (h07 : i ≤ 6 → c.protect07 = c'.protect07)
    (h08 : c.protect08 = c'.protect08) (h9b : c.protect9b = c'.protect9b) (hC : c.protectC = c'.protectC) :
    (c.write value i).regs i = (c'.write value i).regs i := by
  have hkept : c.Kept value i ↔ c'.Kept value i := by
    unfold Kept
    split_ifs with hi _ _ hb
    · rw [h08, h07 hi]
    · rw [h08]
    · rw [h9b]
    · subst hb
      rw [h9b, hregs]
    · rw [hC]
  by_cases h : c.Kept value i
  · rw [write_of_kept h, write_of_kept (hkept.mp h), hregs]
  · by_cases hi : i < 0x19
    · rw [write_regs hi h, write_regs hi (mt hkept.mpr h)]
    · rw [write_of_le (by omega), write_of_le (by omega), hregs]

theorem read_eq (hi : i < 0x19) (hone : i ≠ 1) (hend : i ≠ 0x11) : c.read i = c.regs i := by
  unfold read
  split <;> first | contradiction | exact if_pos (by omega)

/-- A register reads back as it was read, if the write is not kept from it. -/
theorem write_read (hi : i < 0x19) (h : ¬ c.Kept (c'.read i) i) : (c.write (c'.read i) i).read i = c'.read i := by
  have hregs := write_regs hi h
  by_cases hone : i = 1
  · subst hone
    rw [if_pos rfl] at hregs
    exact (congrArg (· - 1) hregs).trans (BitVec.add_sub_cancel _ _)
  · rw [if_neg hone] at hregs
    by_cases hend : i = 0x11
    · subst hend
      refine (congrArg (· &&& ~~~0x20) hregs).trans ?_
      simp only [read, BitVec.and_assoc, BitVec.and_self]
    · rw [read_eq hi hone hend, hregs]

theorem read_congr (h : c.regs i = c'.regs i) : c.read i = c'.read i := by
  unfold read
  split <;> rw [h]

/-! ### A write of each -/

/-- The registers from 0 on, in order. -/
def writes (c : Crtc) (value : ℕ → BitVec 8) (n : ℕ) : Crtc := (List.range n).foldl (fun c i => c.write (value i) i) c

variable {values : ℕ → BitVec 8} {n : ℕ}

theorem writes_succ : c.writes values (n + 1) = (c.writes values n).write (values n) n := by
  unfold writes
  rw [List.range_succ, List.foldl_append, List.foldl_cons, List.foldl_nil]

theorem writes_protect : (c.writes values n).protect08 = c.protect08 ∧ (c.writes values n).protect9b = c.protect9b ∧
    (c.writes values n).protectC = c.protectC := by
  induction n with
  | zero => exact ⟨rfl, rfl, rfl⟩
  | succ n ih =>
    rw [writes_succ]
    exact ⟨write_protect.1.trans ih.1, write_protect.2.1.trans ih.2.1, write_protect.2.2.trans ih.2.2⟩

theorem writes_protect07 (hn : n ≤ 0x11) : (c.writes values n).protect07 = c.protect07 := by
  induction n with
  | zero => rfl
  | succ n ih => rw [writes_succ, write_protect07 (by omega), ih (by omega)]

theorem writes_regs_of_le (h : n ≤ j) : (c.writes values n).regs j = c.regs j := by
  induction n with
  | zero => rfl
  | succ n ih => rw [writes_succ, write_regs_of_ne (by omega), ih (by omega)]

/-- Each register is as if it alone had been written: the protection of the CRTC is written after what it protects. -/
theorem writes_regs (h : j < n) : (c.writes values n).regs j = (c.write (values j) j).regs j := by
  induction n with
  | zero => exact absurd h (Nat.not_lt_zero j)
  | succ n ih =>
    rw [writes_succ]
    obtain hlt | rfl := Nat.lt_succ_iff_lt_or_eq.mp h
    · rw [write_regs_of_ne (by omega), ih hlt]
    · obtain ⟨h08, h9b, hC⟩ := @writes_protect c values j
      exact write_congr (writes_regs_of_le le_rfl) (fun hj => writes_protect07 (by omega)) h08 h9b hC

end Crtc

/-- `graphics_controller`, with `read_mapped_plane`; register 8 is the low byte of `bit_prot_mask`. -/
structure Graphics where
  regs : ℕ → BitVec 8
  readMappedPlane : BitVec 2

/-- `vga_gc_inb` of the data port… -/
def Graphics.read (g : Graphics) (i : ℕ) : BitVec 8 :=
  if i = 4 then g.readMappedPlane.setWidth 8 else if i ≤ 8 then g.regs i else 0xff

/-- …and the handlers that `ega_gc_regs` has. -/
def Graphics.write (g : Graphics) (value : BitVec 8) (i : ℕ) : Graphics :=
  if i = 4 then { g with readMappedPlane := value.setWidth 2 }
  else if i ≤ 8 then { g with regs := Function.update g.regs i value } else g

theorem Graphics.read_write_of_ne (g : Graphics) (value : BitVec 8) (i j : ℕ) (h : i ≠ j) :
    (g.write value i).read j = g.read j := by
  unfold Graphics.write
  split_ifs with hfour
  · subst hfour
    unfold Graphics.read
    rw [if_neg h.symm, if_neg h.symm]
  · unfold Graphics.read
    dsimp only
    rw [Function.update_of_ne h.symm]
  · rfl

theorem Graphics.read_write_read (g g' : Graphics) {i : ℕ} (hi : i < 9) :
    (g.write (g'.read i) i).read i = g'.read i := by
  have hwidth (x : BitVec 2) : ((x.setWidth 8).setWidth 2).setWidth 8 = x.setWidth 8 := by
    revert x
    decide
  unfold Graphics.write Graphics.read
  by_cases hfour : i = 4
  · simp only [hfour, if_true]
    exact hwidth g'.readMappedPlane
  · simp only [hfour, if_false, (by omega : i ≤ 8), if_true, Function.update_self]

/-- The registers; those of the attribute controller up to 14h. -/
structure Registers where
  seq : Sequencer
  misc : BitVec 8
  crtc : Crtc
  ac : ℕ → BitVec 8
  gc : Graphics

/-- A register that can be read. -/
inductive Register where
  | seq (i : Fin 5)
  | misc
  | crtc (i : Fin 0x19)
  | ac (i : Fin 0x15)
  | gc (i : Fin 9)

def Registers.read (r : Registers) : Register → BitVec 8
  | .seq i => r.seq.read i
  | .misc => r.misc
  | .crtc i => r.crtc.read i
  | .ac i => r.ac i
  | .gc i => r.gc.read i

/-! ## The ports -/

/-- `rgb_struct`. -/
@[ext]
structure Colour where
  red : BitVec 8
  green : BitVec 8
  blue : BitVec 8
  deriving DecidableEq

/-- `DAC_rgb_state`. -/
inductive RgbState where
  | red
  | green
  | blue

/-- What can be saved: the registers, the DAC and the BIOS data; and `DAC_data_mask`, which the V7 sets. -/
structure Content where
  regs : Registers
  dac : BitVec 8 → Colour
  dacDataMask : BitVec 8
  bios : ℕ → BitVec 8

/-- …with the addresses that the ports go by. -/
structure State extends Content where
  seqAddress : BitVec 8
  crtcAddress : BitVec 8
  gcAddress : BitVec 8
  acAddress : BitVec 6
  acIndexState : Bool
  dacRdAddr : BitVec 8
  dacWrAddr : BitVec 8
  dacRgbState : RgbState

inductive Port where
  | seqIndex
  | seqData
  | misc
  | miscRead
  | crtcIndex
  | crtcData
  | acIndexData
  | acSecret
  | ipstat1
  | gcIndex
  | gcData
  | dacRaddr
  | dacWaddr
  | dacData

namespace State

/-- The CRTC has 6 bits of its index. -/
def crtcIndex (v : State) : ℕ := (v.crtcAddress &&& 0x3f).toNat

def acIndex (v : State) : ℕ := (v.acAddress &&& 0x1f).toNat

/-- `vga_dac_data_outb`. -/
def dacOut (v : State) (value : BitVec 8) : State :=
  let value := value &&& v.dacDataMask
  let old := v.dac v.dacWrAddr
  match v.dacRgbState with
  | .red => { v with dac := Function.update v.dac v.dacWrAddr { old with red := value }, dacRgbState := .green }
  | .green => { v with dac := Function.update v.dac v.dacWrAddr { old with green := value }, dacRgbState := .blue }
  | .blue =>
    { v with dac := Function.update v.dac v.dacWrAddr { old with blue := value }, dacRgbState := .red
             dacWrAddr := v.dacWrAddr + 1 }

/-- `vga_dac_data_inb`. -/
def dacIn (v : State) : BitVec 8 × State :=
  match v.dacRgbState with
  | .red => ((v.dac v.dacRdAddr).red, { v with dacRgbState := .green })
  | .green => ((v.dac v.dacRdAddr).green, { v with dacRgbState := .blue })
  | .blue => ((v.dac v.dacRdAddr).blue, { v with dacRgbState := .red, dacRdAddr := v.dacRdAddr + 1 })

def outb (v : State) (port : Port) (value : BitVec 8) : State :=
  match port with
  | .seqIndex => { v with seqAddress := value &&& 7 }
  | .seqData => { v with regs.seq := v.regs.seq.write value v.seqAddress.toNat }
  | .misc => { v with regs.misc := value }
  | .miscRead => v
  | .crtcIndex => { v with crtcAddress := value }
  | .crtcData => { v with regs.crtc := v.regs.crtc.write value v.crtcIndex }
  | .acIndexData =>
    if v.acIndexState = false then { v with acIndexState := true, acAddress := value.setWidth 6 }
    else
      let v := { v with acIndexState := false }
      if v.acIndex ≤ 0x14 then { v with regs.ac := Function.update v.regs.ac v.acIndex value } else v
  | .acSecret => v
  | .ipstat1 => v
  | .gcIndex => { v with gcAddress := value &&& 0xf }
  | .gcData => { v with regs.gc := v.regs.gc.write value v.gcAddress.toNat }
  | .dacRaddr => { v with dacRdAddr := value, dacRgbState := .red }
  | .dacWaddr => { v with dacWrAddr := value, dacRgbState := .red }
  | .dacData => v.dacOut value

/-- `inb`, of the ports that are read here; what the others read as is left out. -/
def inb (v : State) (port : Port) : BitVec 8 × State :=
  match port with
  | .seqData => (v.regs.seq.read v.seqAddress.toNat, v)
  | .miscRead => (v.regs.misc, v)
  | .crtcData => (v.regs.crtc.read v.crtcIndex, v)
  | .acSecret => (v.regs.ac v.acIndex, v)
  | .ipstat1 => (0, { v with acIndexState := false })
  | .gcData => (v.regs.gc.read v.gcAddress.toNat, v)
  | .dacData => v.dacIn
  | _ => (0xff, v)

theorem outb_miscRead (v : State) (value : BitVec 8) : v.outb .miscRead value = v := rfl

end State

end SoftPC.Video.Vga
