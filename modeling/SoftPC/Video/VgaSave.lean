import SoftPC.Machinery.Walk
import SoftPC.Video.VgaPorts
import Mathlib.Data.Finset.Insert
import Mathlib.Data.List.Range

/-!
# Video/VgaSave — INT 10h AH 1Ch saves and restores the video state

    AL 01h  ports, BIOS data, DAC ──▸ buffer        AL 02h  buffer ──▸ ports, BIOS data, DAC

`vga_int_1C` of `vga_vide.c`.  The two walks have one layout (`length_save`), but what they restore is not all that
they save: miscellaneous output is written to the port that it is read from, the CRTC may protect its registers 0 to
6, the cursor registers lose their upper bits, attribute register 14h and the cursor mode of the BIOS data are in
neither walk, and the DAC goes through the grey scale (`restore_save_exact`).
-/

namespace SoftPC.Video.Vga

open Walk

/-- `const1` to `const5`. -/
def const1 : List (BitVec 8) := [2, 0x18, 6, 0x20]

def const2 : List (BitVec 8) := [0xd4, 3, 0x20, 7, 0, 0]

def const3 : List (BitVec 8) := [0x20]

def const4 : List (BitVec 8) := [0x68, 0x15, 0x20, 0x0a, 0x85, 0, 0, 0xc0, 0, 0x0c, 0, 0xc0, 0, 8, 0, 0xc0]

def const5 : List (BitVec 8) := [1, 0, 0xff]

/-- `buff_sizes`, in blocks of 64 bytes. -/
def buffSizes : List ℕ := [0, 2, 2, 3, 0x0d, 0x0e, 0x0e, 0x0f]

def egaPaletteEnable : BitVec 8 := 0x20

/-- `R10_CURS_START` and `R11_CURS_END`. -/
def r10CursStart : ℕ := 10

def r11CursEnd : ℕ := 11

def vgaFlags : ℕ := 0x489

def vidCurmod : ℕ := 0x460

/-- The BIOS data, a byte after the other, as the walks take them: `vd_video_mode`, `VID_COLS`, `VID_LEN`, `VID_ADDR`,
`VID_CURPOS`… -/
def biosCursors : List ℕ := List.range' 0x449 23

/-- …`vd_current_page`, `VID_INDEX`, `vd_crt_mode`, `vd_crt_palette`, `vd_rows_on_screen`, `ega_char_height`,
`ega_info`, `ega_info3`, `VGA_FLAGS`, the DCC and `EGA_SAVEPTR`. -/
def biosOthers : List ℕ := List.range' 0x462 5 ++ List.range' 0x484 7 ++ List.range' 0x4a8 4

def greyify (rgb : Colour) : Colour :=
  let grey := BitVec.ofNat 8 ((30 * rgb.red.toNat + 59 * rgb.green.toNat + 11 * rgb.blue.toNat) / 100)
  ⟨grey, grey, grey⟩

def isGrey (bios : ℕ → BitVec 8) : Prop := bios vgaFlags &&& 2 ≠ 0

instance (bios : ℕ → BitVec 8) : Decidable (isGrey bios) := inferInstanceAs (Decidable (_ ≠ _))

namespace State

def setDac (v : State) (dac : BitVec 8) (rgb : Colour) : State :=
  let rgb := if isGrey v.bios then greyify rgb else rgb
  (((v.outb .dacWaddr dac).outb .dacData rgb.red).outb .dacData rgb.green).outb .dacData rgb.blue

def getDac (v : State) (dac : BitVec 8) : Colour × State :=
  let (red, v) := (v.outb .dacRaddr dac).inb .dacData
  let (green, v) := v.inb .dacData
  let (blue, v) := v.inb .dacData
  (⟨red, green, blue⟩, v)

end State

/-! ## Saving -/

/-- An indexed register. -/
def saveIndexed (index data : Port) (i : ℕ) : Save State (BitVec 8) :=
  Save.cell fun v => (v.outb index (BitVec.ofNat 8 i)).inb data

/-- A register of the attribute controller. -/
def saveAttribute (i : ℕ) : Save State (BitVec 8) :=
  Save.cell fun v => ((v.inb .ipstat1).2.outb .acIndexData (BitVec.ofNat 8 i)).inb .acSecret

def saveHardware : List (Save State (BitVec 8)) :=
  [Save.constant const1] ++ (List.range 5).map (saveIndexed .seqIndex .seqData) ++ [Save.cell (·.inb .miscRead)] ++
    (List.range 0x19).map (saveIndexed .crtcIndex .crtcData) ++ (List.range 20).map saveAttribute ++
    [Save.act fun v => (v.inb .ipstat1).2.outb .acIndexData egaPaletteEnable] ++
    (List.range 9).map (saveIndexed .gcIndex .gcData) ++ [Save.constant const2]

def saveByte (a : ℕ) : Save State (BitVec 8) := Save.cell fun v => (v.bios a, v)

/-- A limit of the cursor. -/
def saveCursor (i : ℕ) : Save State (BitVec 8) :=
  Save.cell fun v =>
    let (temp, v) := (v.outb .crtcIndex (BitVec.ofNat 8 i)).inb .crtcData
    (temp &&& 0x1f, v)

def saveBios : List (Save State (BitVec 8)) :=
  [Save.constant const3] ++ biosCursors.map saveByte ++ [r11CursEnd, r10CursStart].map saveCursor ++
    biosOthers.map saveByte ++ [Save.constant const4]

def saveColour (i : ℕ) : Save State (BitVec 8) := fun v =>
  let (rgb, v) := v.getDac (BitVec.ofNat 8 i)
  ([rgb.red, rgb.green, rgb.blue], v)

def saveDac : List (Save State (BitVec 8)) := [Save.constant const5] ++ (List.range 256).map saveColour

/-- The parts of `states`. -/
def parts {α : Type*} (cx : BitVec 16) (hardware bios dac : List α) : List α :=
  (if cx.getLsbD 0 then hardware else []) ++ ((if cx.getLsbD 1 then bios else []) ++ if cx.getLsbD 2 then dac else [])

/-- AL 01h: the bytes from offset 20h of the buffer on. -/
def saveStates (cx : BitVec 16) : Save State (BitVec 8) := save (parts cx saveHardware saveBios saveDac)

/-! ## Restoring -/

def restoreIndexed (index data : Port) (i : ℕ) : Restore State (BitVec 8) :=
  Restore.cell fun value v => (v.outb index (BitVec.ofNat 8 i)).outb data value

def restoreAttribute (i : ℕ) : Restore State (BitVec 8) :=
  Restore.cell fun value v => (v.outb .acIndexData (BitVec.ofNat 8 i)).outb .acIndexData value

def restoreHardware : List (Restore State (BitVec 8)) :=
  [Restore.skip const1.length] ++ (List.range 5).map (restoreIndexed .seqIndex .seqData) ++
    [Restore.cell fun value v => v.outb .miscRead value] ++
    (List.range 0x19).map (restoreIndexed .crtcIndex .crtcData) ++ [Restore.act fun v => (v.inb .ipstat1).2] ++
    (List.range 20).map restoreAttribute ++ [Restore.act fun v => v.outb .acIndexData egaPaletteEnable] ++
    (List.range 9).map (restoreIndexed .gcIndex .gcData) ++ [Restore.skip const2.length]

def restoreByte (a : ℕ) : Restore State (BitVec 8) :=
  Restore.cell fun value v => { v with bios := Function.update v.bios a value }

def restoreCursor (i : ℕ) : Restore State (BitVec 8) :=
  Restore.cell fun value v => (v.outb .crtcIndex (BitVec.ofNat 8 i)).outb .crtcData (value &&& 0x1f)

def restoreBios : List (Restore State (BitVec 8)) :=
  [Restore.skip const3.length] ++ biosCursors.map restoreByte ++ [r11CursEnd, r10CursStart].map restoreCursor ++
    biosOthers.map restoreByte ++ [Restore.skip const4.length]

def restoreColour (i : ℕ) : Restore State (BitVec 8) where
  size := 3
  put
    | [red, green, blue], v => v.setDac (BitVec.ofNat 8 i) ⟨red, green, blue⟩
    | _, v => v

def restoreDac : List (Restore State (BitVec 8)) := [Restore.skip const5.length] ++ (List.range 256).map restoreColour

/-- AL 02h. -/
def restoreStates (cx : BitVec 16) : List (BitVec 8) → State → State :=
  restore (parts cx restoreHardware restoreBios restoreDac)

/-! ## What is saved -/

/-- The cells of the hardware… -/
def hardwareCells (k : Content) : List (BitVec 8) :=
  const1 ++ (List.range 5).flatMap (fun i => [k.regs.seq.read i]) ++ [k.regs.misc] ++
    (List.range 0x19).flatMap (fun i => [k.regs.crtc.read i]) ++ (List.range 20).flatMap (fun i => [k.regs.ac i]) ++
    [] ++ (List.range 9).flatMap (fun i => [k.regs.gc.read i]) ++ const2

/-- …of the BIOS data… -/
def biosCells (k : Content) : List (BitVec 8) :=
  const3 ++ biosCursors.flatMap (fun a => [k.bios a]) ++
    [r11CursEnd, r10CursStart].flatMap (fun i => [k.regs.crtc.read i &&& 0x1f]) ++
    biosOthers.flatMap (fun a => [k.bios a]) ++ const4

/-- …and of the DAC. -/
def dacCells (k : Content) : List (BitVec 8) :=
  const5 ++ (List.range 256).flatMap fun i =>
    [(k.dac (BitVec.ofNat 8 i)).red, (k.dac (BitVec.ofNat 8 i)).green, (k.dac (BitVec.ofNat 8 i)).blue]

theorem seqIndex_eq : ∀ i < 5, (BitVec.ofNat 8 i &&& 7).toNat = i := by decide

theorem crtcIndex_eq : ∀ i < 0x19, (BitVec.ofNat 8 i &&& 0x3f).toNat = i := by decide

theorem acIndex_eq : ∀ i < 20, ((BitVec.ofNat 8 i).setWidth 6 &&& 0x1f).toNat = i := by decide

theorem gcIndex_eq : ∀ i < 9, (BitVec.ofNat 8 i &&& 0xf).toNat = i := by decide

theorem saveHardware_reads : Reads State.toContent (save saveHardware) hardwareCells := by
  have hseq (i) (hi : i ∈ List.range 5) :
      Reads State.toContent (saveIndexed .seqIndex .seqData i) fun k => [k.regs.seq.read i] := fun v =>
    ⟨congrArg (fun n => [v.regs.seq.read n]) (seqIndex_eq i (List.mem_range.mp hi)), rfl⟩
  have hcrtc (i) (hi : i ∈ List.range 0x19) :
      Reads State.toContent (saveIndexed .crtcIndex .crtcData i) fun k => [k.regs.crtc.read i] := fun v =>
    ⟨congrArg (fun n => [v.regs.crtc.read n]) (crtcIndex_eq i (List.mem_range.mp hi)), rfl⟩
  have hac (i) (hi : i ∈ List.range 20) : Reads State.toContent (saveAttribute i) fun k => [k.regs.ac i] := fun v =>
    ⟨congrArg (fun n => [v.regs.ac n]) (acIndex_eq i (List.mem_range.mp hi)), rfl⟩
  have hgc (i) (hi : i ∈ List.range 9) :
      Reads State.toContent (saveIndexed .gcIndex .gcData i) fun k => [k.regs.gc.read i] := fun v =>
    ⟨congrArg (fun n => [v.regs.gc.read n]) (gcIndex_eq i (List.mem_range.mp hi)), rfl⟩
  have hmisc : Reads State.toContent (Save.cell (·.inb .miscRead)) fun k => [k.regs.misc] := fun v => ⟨rfl, rfl⟩
  have hact : Reads State.toContent (Save.act fun v => (v.inb .ipstat1).2.outb .acIndexData egaPaletteEnable)
      fun _ => ([] : List (BitVec 8)) := fun v => ⟨rfl, rfl⟩
  exact (((((((Reads.single (Reads.constant const1)).append (Reads.map hseq)).append (Reads.single hmisc)).append
    (Reads.map hcrtc)).append (Reads.map hac)).append (Reads.single hact)).append (Reads.map hgc)).append
      (Reads.single (Reads.constant const2))

theorem saveBios_reads : Reads State.toContent (save saveBios) biosCells := by
  have hbyte (l : List ℕ) : ∀ a ∈ l, Reads State.toContent (saveByte a) fun k => [k.bios a] := fun _ _ _ => ⟨rfl, rfl⟩
  have hcursor (i) (hi : i ∈ [r11CursEnd, r10CursStart]) :
      Reads State.toContent (saveCursor i) fun k => [k.regs.crtc.read i &&& 0x1f] := fun v => by
    have hlt : i < 0x19 := by
      obtain rfl | hi := List.mem_cons.mp hi
      · decide
      · rw [List.mem_singleton.mp hi]
        decide
    exact ⟨congrArg (fun n => [v.regs.crtc.read n &&& 0x1f]) (crtcIndex_eq i hlt), rfl⟩
  exact ((((Reads.single (Reads.constant const3)).append (Reads.map (hbyte _))).append (Reads.map hcursor)).append
    (Reads.map (hbyte _))).append (Reads.single (Reads.constant const4))

theorem saveDac_reads : Reads State.toContent (save saveDac) dacCells :=
  (Reads.single (Reads.constant const5)).append (Reads.map fun _ _ _ => ⟨rfl, rfl⟩)

variable (cx : BitVec 16)

/-- The cells of the parts asked for. -/
def cells (k : Content) : List (BitVec 8) := parts cx (hardwareCells k) (biosCells k) (dacCells k)

/-- **The save reads, and keeps what it reads.** -/
theorem saveStates_reads : Reads State.toContent (saveStates cx) (cells cx) := by
  have hpart {c : Bool} {steps : List (Save State (BitVec 8))} {f : Content → List (BitVec 8)}
      (h : Reads State.toContent (save steps) f) :
      Reads State.toContent (save (if c then steps else [])) fun k => if c then f k else [] := by
    cases c
    · exact Reads.nil
    · exact h
  exact (hpart saveHardware_reads).append ((hpart saveBios_reads).append (hpart saveDac_reads))

/-! ## What is restored -/

namespace Content

def seq : Part Content Sequencer where
  get k := k.regs.seq
  set k q := { k with regs.seq := q }
  get_set _ _ := rfl
  set_set _ _ _ := rfl
  set_get _ := rfl

def crtc : Part Content Crtc where
  get k := k.regs.crtc
  set k c := { k with regs.crtc := c }
  get_set _ _ := rfl
  set_set _ _ _ := rfl
  set_get _ := rfl

def attrib : Part Content (ℕ → BitVec 8) where
  get k := k.regs.ac
  set k ac := { k with regs.ac := ac }
  get_set _ _ := rfl
  set_set _ _ _ := rfl
  set_get _ := rfl

def graphics : Part Content Graphics where
  get k := k.regs.gc
  set k g := { k with regs.gc := g }
  get_set _ _ := rfl
  set_set _ _ _ := rfl
  set_get _ := rfl

def data : Part Content (ℕ → BitVec 8) where
  get k := k.bios
  set k m := { k with bios := m }
  get_set _ _ := rfl
  set_set _ _ _ := rfl
  set_get _ := rfl

def colours : Part Content (BitVec 8 → Colour) where
  get k := k.dac
  set k d := { k with dac := d }
  get_set _ _ := rfl
  set_set _ _ _ := rfl
  set_get _ := rfl

end Content

section

variable (v : State) (value : ℕ → BitVec 8)

/-- A bank of registers behind an index and a data port. -/
theorem restore_indexed {α : Type*} (p : Part Content α) {index data : Port} {write : α → BitVec 8 → ℕ → α} {n : ℕ}
    (h : ∀ i < n, ∀ (x : BitVec 8) (v : State), ((v.outb index (BitVec.ofNat 8 i)).outb data x).toContent =
      p.set v.toContent (write (p.get v.toContent) x i)) :
    (restore ((List.range n).map (restoreIndexed index data)) ((List.range n).flatMap fun i => [value i]) v).toContent =
      p.set v.toContent ((List.range n).foldl (fun a i => write a (value i) i) (p.get v.toContent)) := by
  refine (restore_cells State.toContent (fun i x v => (v.outb index (BitVec.ofNat 8 i)).outb data x) value
    (fun _ => True) (f := fun k i => p.set k (write (p.get k) (value i) i))
    (fun i hi v _ => ⟨trivial, h i (List.mem_range.mp hi) _ v⟩) trivial).2.trans ?_
  exact p.foldl (f := fun _ a i => write a (value i) i) (fun _ _ => rfl) _ _

theorem out_seq : ∀ i < 5, ∀ (x : BitVec 8) (v : State),
    ((v.outb .seqIndex (BitVec.ofNat 8 i)).outb .seqData x).toContent =
      Content.seq.set v.toContent ((Content.seq.get v.toContent).write x i) := by
  intro i hi x v
  simp only [State.outb, seqIndex_eq i hi]
  rfl

theorem out_crtc : ∀ i < 0x19, ∀ (x : BitVec 8) (v : State),
    ((v.outb .crtcIndex (BitVec.ofNat 8 i)).outb .crtcData x).toContent =
      Content.crtc.set v.toContent ((Content.crtc.get v.toContent).write x i) := by
  intro i hi x v
  simp only [State.outb, State.crtcIndex, crtcIndex_eq i hi]
  rfl

theorem out_gc : ∀ i < 9, ∀ (x : BitVec 8) (v : State),
    ((v.outb .gcIndex (BitVec.ofNat 8 i)).outb .gcData x).toContent =
      Content.graphics.set v.toContent ((Content.graphics.get v.toContent).write x i) := by
  intro i hi x v
  simp only [State.outb, gcIndex_eq i hi]
  rfl

/-- The attribute controller takes an index and its data by turns, an index first. -/
theorem out_ac : ∀ i < 20, ∀ (x : BitVec 8) (v : State), v.acIndexState = false →
    ((v.outb .acIndexData (BitVec.ofNat 8 i)).outb .acIndexData x).acIndexState = false ∧
      ((v.outb .acIndexData (BitVec.ofNat 8 i)).outb .acIndexData x).toContent =
        Content.attrib.set v.toContent (Function.update (Content.attrib.get v.toContent) i x) := by
  intro i hi x v hv
  have hle : i ≤ 0x14 := by omega
  simp only [State.outb, hv, State.acIndex, acIndex_eq i hi, hle, if_true, Bool.true_eq_false, if_false]
  exact ⟨trivial, rfl⟩

theorem out_index (x : BitVec 8) (hv : v.acIndexState = false) : (v.outb .acIndexData x).toContent = v.toContent := by
  simp only [State.outb, hv, if_true]

theorem restore_ac (hv : v.acIndexState = false) :
    (restore ((List.range 20).map restoreAttribute) ((List.range 20).flatMap fun i => [value i]) v).acIndexState =
        false ∧
      (restore ((List.range 20).map restoreAttribute) ((List.range 20).flatMap fun i => [value i]) v).toContent =
        Content.attrib.set v.toContent
          ((List.range 20).foldl (fun ac i => Function.update ac i (value i)) (Content.attrib.get v.toContent)) := by
  have hstep (i) (hi : i ∈ List.range 20) (v : State) (hv : v.acIndexState = false) :=
    out_ac i (List.mem_range.mp hi) (value i) v hv
  have h := restore_cells State.toContent
    (fun i x (v : State) => (v.outb .acIndexData (BitVec.ofNat 8 i)).outb .acIndexData x) value
    (fun v => v.acIndexState = false)
    (f := fun k i => Content.attrib.set k (Function.update (Content.attrib.get k) i (value i))) hstep hv
  exact ⟨h.1, h.2.trans (Content.attrib.foldl (f := fun _ ac i => Function.update ac i (value i)) (fun _ _ => rfl) _ _)⟩

theorem restore_bytes (l : List ℕ) : (restore (l.map restoreByte) (l.flatMap fun a => [value a]) v).toContent =
    Content.data.set v.toContent
      (l.foldl (fun m a => Function.update m a (value a)) (Content.data.get v.toContent)) := by
  refine (restore_cells State.toContent (fun a x v => { v with bios := Function.update v.bios a x }) value
    (fun _ => True) (f := fun k a => Content.data.set k (Function.update (Content.data.get k) a (value a)))
    (fun a _ v _ => ⟨trivial, rfl⟩) trivial).2.trans ?_
  exact Content.data.foldl (f := fun _ m a => Function.update m a (value a)) (fun _ _ => rfl) _ _

theorem restore_cursors : (restore ([r11CursEnd, r10CursStart].map restoreCursor)
    ([r11CursEnd, r10CursStart].flatMap fun i => [value i &&& 0x1f]) v).toContent =
      Content.crtc.set v.toContent
        ([r11CursEnd, r10CursStart].foldl (fun c i => c.write (value i &&& 0x1f) i)
          (Content.crtc.get v.toContent)) := by
  have hstep (i) (hi : i ∈ [r11CursEnd, r10CursStart]) (v : State) (_ : True) :
      True ∧ ((v.outb .crtcIndex (BitVec.ofNat 8 i)).outb .crtcData (value i &&& 0x1f &&& 0x1f)).toContent =
        Content.crtc.set v.toContent ((Content.crtc.get v.toContent).write (value i &&& 0x1f) i) := by
    have hlt : i < 0x19 := by
      simp only [r11CursEnd, r10CursStart, List.mem_cons, List.not_mem_nil, or_false] at hi
      omega
    rw [BitVec.and_assoc, BitVec.and_self]
    exact ⟨trivial, out_crtc i hlt _ v⟩
  have h := restore_cells State.toContent
    (fun i x (v : State) => (v.outb .crtcIndex (BitVec.ofNat 8 i)).outb .crtcData (x &&& 0x1f)) (value · &&& 0x1f)
    (fun _ => True) (f := fun k i => Content.crtc.set k ((Content.crtc.get k).write (value i &&& 0x1f) i)) hstep
    (s := v) trivial
  exact h.2.trans (Content.crtc.foldl (f := fun _ c i => c.write (value i &&& 0x1f) i) (fun _ _ => rfl) _ _)

/-- A colour as the DAC takes it. -/
def shown (k : Content) (rgb : Colour) : Colour :=
  let rgb := if isGrey k.bios then greyify rgb else rgb
  ⟨rgb.red &&& k.dacDataMask, rgb.green &&& k.dacDataMask, rgb.blue &&& k.dacDataMask⟩

theorem setDac_eq (dac : BitVec 8) (rgb : Colour) : (v.setDac dac rgb).toContent =
    Content.colours.set v.toContent (Function.update v.dac dac (shown v.toContent rgb)) := by
  unfold State.setDac shown
  simp only [State.outb, State.dacOut, Function.update_self, Function.update_idem, Content.colours]

theorem restore_dac (d : BitVec 8 → Colour) : (restore ((List.range 256).map restoreColour)
    ((List.range 256).flatMap fun i =>
      [(d (BitVec.ofNat 8 i)).red, (d (BitVec.ofNat 8 i)).green, (d (BitVec.ofNat 8 i)).blue]) v).toContent =
    Content.colours.set v.toContent ((List.range 256).foldl
      (fun e i => Function.update e (BitVec.ofNat 8 i) (shown v.toContent (d (BitVec.ofNat 8 i)))) v.dac) := by
  refine (restore_map State.toContent restoreColour
    (fun i => [(d (BitVec.ofNat 8 i)).red, (d (BitVec.ofNat 8 i)).green, (d (BitVec.ofNat 8 i)).blue]) (fun _ => True)
    (f := fun k i => Content.colours.set k (Function.update (Content.colours.get k) (BitVec.ofNat 8 i)
      (shown k (d (BitVec.ofNat 8 i))))) (fun _ => rfl)
    (fun i _ v _ => ⟨trivial, setDac_eq v _ _⟩) trivial).2.trans ?_
  exact Content.colours.foldl
    (f := fun k e i => Function.update e (BitVec.ofNat 8 i) (shown k (d (BitVec.ofNat 8 i)))) (fun _ _ => rfl) _ _

end

/-! ### The parts -/

/-- The hardware: the miscellaneous output register is as it was. -/
def hardwareRestored (s k : Content) : Content where
  regs :=
    { seq := (List.range 5).foldl (fun q i => q.write (s.regs.seq.read i) i) k.regs.seq
      misc := k.regs.misc
      crtc := (List.range 0x19).foldl (fun c i => c.write (s.regs.crtc.read i) i) k.regs.crtc
      ac := (List.range 20).foldl (fun ac i => Function.update ac i (s.regs.ac i)) k.regs.ac
      gc := (List.range 9).foldl (fun g i => g.write (s.regs.gc.read i) i) k.regs.gc }
  dac := k.dac
  dacDataMask := k.dacDataMask
  bios := k.bios

/-- The BIOS data, and the limits of the cursor. -/
def biosRestored (s k : Content) : Content where
  regs :=
    { k.regs with
      crtc := [r11CursEnd, r10CursStart].foldl (fun c i => c.write (s.regs.crtc.read i &&& 0x1f) i) k.regs.crtc }
  dac := k.dac
  dacDataMask := k.dacDataMask
  bios := (biosCursors ++ biosOthers).foldl (fun m a => Function.update m a (s.bios a)) k.bios

/-- The DAC. -/
def dacRestored (s k : Content) : Content where
  regs := k.regs
  dac := (List.range 256).foldl
    (fun e i => Function.update e (BitVec.ofNat 8 i) (shown k (s.dac (BitVec.ofNat 8 i)))) k.dac
  dacDataMask := k.dacDataMask
  bios := k.bios

section

variable (s : Content) (v : State)

theorem length_hardwareCells : (hardwareCells s).length = size restoreHardware := rfl

theorem length_biosCells : (biosCells s).length = size restoreBios := rfl

theorem length_dacCells : (dacCells s).length = size restoreDac := by
  have h : ((List.range 256).flatMap fun i => [(s.dac (BitVec.ofNat 8 i)).red, (s.dac (BitVec.ofNat 8 i)).green,
      (s.dac (BitVec.ofNat 8 i)).blue]).length = size ((List.range 256).map restoreColour) := size_map (fun _ => rfl) _
  rw [dacCells, restoreDac, size_append, List.length_append, h, size_skip]

theorem restore_hardware :
    (restore restoreHardware (hardwareCells s) v).toContent = hardwareRestored s v.toContent := by
  unfold restoreHardware hardwareCells
  simp only [List.append_assoc, List.nil_append]
  rw [restore_append rfl, restore_skip, restore_append (size_map (fun _ => rfl) _), restore_append rfl, restore_cell,
    restore_append (size_map (fun _ => rfl) _), restore_act, restore_append (size_map (fun _ => rfl) _), restore_act,
    restore_append (size_map (fun _ => rfl) _), restore_skip, restore_indexed _ _ _ out_gc]
  generalize hseq : restore ((List.range 5).map _) _ v = v₁
  have hv₁ := hseq ▸ restore_indexed v s.regs.seq.read Content.seq out_seq
  rw [State.outb_miscRead]
  generalize hcrtc : restore ((List.range 0x19).map _) _ v₁ = v₂
  have hv₂ := hcrtc ▸ restore_indexed v₁ s.regs.crtc.read Content.crtc out_crtc
  obtain ⟨hstate, hv₃⟩ := restore_ac (v₂.inb .ipstat1).2 s.regs.ac rfl
  have hin : (v₂.inb .ipstat1).2.toContent = v₂.toContent := rfl
  rw [out_index _ _ hstate, hv₃, hin, hv₂, hv₁]
  rfl

theorem restore_bios : (restore restoreBios (biosCells s) v).toContent = biosRestored s v.toContent := by
  unfold restoreBios biosCells
  simp only [List.append_assoc]
  rw [restore_append rfl, restore_skip, restore_append (size_map (fun _ => rfl) _), restore_append rfl,
    restore_append (size_map (fun _ => rfl) _), restore_skip, restore_bytes]
  generalize hdata : restore (biosCursors.map _) _ v = v₁
  have hv₁ := hdata ▸ restore_bytes v s.bios biosCursors
  rw [restore_cursors, hv₁, biosRestored, List.foldl_append]
  rfl

theorem restore_dacPart : (restore restoreDac (dacCells s) v).toContent = dacRestored s v.toContent := by
  unfold restoreDac dacCells
  rw [restore_append rfl, restore_skip, restore_dac]
  rfl

end

/-! ### What reads back -/

/-- A fold that writes from `w` at each place of a list. -/
theorem foldl_update {α β : Type*} [DecidableEq α] (w : α → β) (l : List α) (m : α → β) (a : α) :
    l.foldl (fun m a => Function.update m a (w a)) m a = if a ∈ l then w a else m a :=
  read_foldl (fun m a => m a) (fun m a => Function.update m a (w a)) (fun _ _ _ h => Function.update_of_ne h.symm _ _)
    (fun _ _ _ => Function.update_self _ _ _) m a

/-- All of what is asked for. -/
def restored (cx : BitVec 16) (s k : Content) : Content :=
  let k := if cx.getLsbD 0 then hardwareRestored s k else k
  let k := if cx.getLsbD 1 then biosRestored s k else k
  if cx.getLsbD 2 then dacRestored s k else k

theorem length_cells (cx : BitVec 16) (s : Content) :
    (cells cx s).length = size (parts cx restoreHardware restoreBios restoreDac) := by
  unfold cells parts
  rw [List.length_append, List.length_append, size_append, size_append]
  congr 1
  · split_ifs
    · exact length_hardwareCells s
    · rfl
  · congr 1
    · split_ifs
      · exact length_biosCells s
      · rfl
    · split_ifs
      · exact length_dacCells s
      · rfl

theorem restoreStates_eq (cx : BitVec 16) (s : Content) (v : State) :
    (restoreStates cx (cells cx s) v).toContent = restored cx s v.toContent := by
  have hpart {c : Bool} {steps : List (Restore State (BitVec 8))} {bytes : List (BitVec 8)} {f : Content → Content}
      (hlength : bytes.length = size steps) (h : ∀ v, (restore steps bytes v).toContent = f v.toContent) :
      (if c then bytes else []).length = size (if c then steps else []) ∧
        ∀ v, (restore (if c then steps else []) (if c then bytes else []) v).toContent =
          if c then f v.toContent else v.toContent := by
    cases c
    · exact ⟨rfl, fun _ => rfl⟩
    · exact ⟨hlength, h⟩
  obtain ⟨hlength, hhardware⟩ := hpart (c := cx.getLsbD 0) (length_hardwareCells s) (restore_hardware s)
  obtain ⟨hlength', hbios⟩ := hpart (c := cx.getLsbD 1) (length_biosCells s) (restore_bios s)
  obtain ⟨-, hdac⟩ := hpart (c := cx.getLsbD 2) (length_dacCells s) (restore_dacPart s)
  unfold restoreStates cells parts
  rw [restore_append hlength, restore_append hlength', hdac, hbios, hhardware]
  rfl

/-! ### …and what reads back -/

section

variable (s k : Content)

theorem seq_restored {i : ℕ} (hi : i < 5) : (hardwareRestored s k).regs.seq.read i = s.regs.seq.read i := by
  refine (read_foldl Sequencer.read (fun q i => q.write (s.regs.seq.read i) i)
    (fun q i j h => q.read_write_of_ne _ i j h)
    (fun q i hi => q.read_write_read _ (List.mem_range.mp hi)) k.regs.seq i).trans ?_
  exact if_pos (List.mem_range.mpr hi)

theorem gc_restored {i : ℕ} (hi : i < 9) : (hardwareRestored s k).regs.gc.read i = s.regs.gc.read i := by
  refine (read_foldl Graphics.read (fun g i => g.write (s.regs.gc.read i) i)
    (fun g i j h => g.read_write_of_ne _ i j h)
    (fun g i hi => g.read_write_read _ (List.mem_range.mp hi)) k.regs.gc i).trans ?_
  exact if_pos (List.mem_range.mpr hi)

theorem ac_restored (i : ℕ) : (hardwareRestored s k).regs.ac i = if i < 20 then s.regs.ac i else k.regs.ac i := by
  refine (foldl_update s.regs.ac (List.range 20) k.regs.ac i).trans ?_
  simp only [List.mem_range]

/-- The BIOS data that the walks have. -/
theorem bios_restored (a : ℕ) :
    (biosRestored s k).bios a = if a ∈ biosCursors ++ biosOthers then s.bios a else k.bios a :=
  foldl_update s.bios (biosCursors ++ biosOthers) k.bios a

theorem dac_restored (i : BitVec 8) : (dacRestored s k).dac i = shown k (s.dac i) := by
  have hlt := i.isLt
  have hfold := foldl_update (fun i => shown k (s.dac i)) ((List.range 256).map (BitVec.ofNat 8)) k.dac i
  simp only [List.foldl_map] at hfold
  have hmem : i ∈ (List.range 256).map (BitVec.ofNat 8) :=
    List.mem_map.mpr ⟨i.toNat, List.mem_range.mpr hlt, (BitVec.ofNat_toNat 8 i).trans (BitVec.setWidth_eq i)⟩
  rw [if_pos hmem] at hfold
  unfold dacRestored
  dsimp only
  rw [← hfold]

/-- The CRTC after the hardware is restored. -/
theorem crtc_restored {i : ℕ} (hi : i < 0x19) : (hardwareRestored s k).regs.crtc.regs i =
    (k.regs.crtc.write (s.regs.crtc.read i) i).regs i := Crtc.writes_regs hi

theorem protect_restored : (hardwareRestored s k).regs.crtc.protect9b = k.regs.crtc.protect9b :=
  Crtc.writes_protect.2.1

/-- The limits of the cursor that the BIOS data has, in the CRTC. -/
theorem cursor_restored (i : ℕ) : (biosRestored s k).regs.crtc.regs i =
    if i = r11CursEnd then (k.regs.crtc.write (s.regs.crtc.read r11CursEnd &&& 0x1f) r11CursEnd).regs r11CursEnd
    else if i = r10CursStart then
      (if k.regs.crtc.protect9b = true then k.regs.crtc.regs r10CursStart else s.regs.crtc.read r10CursStart &&& 0x1f)
    else k.regs.crtc.regs i := by
  have hstart (c : Crtc) (x : BitVec 8) : (c.write x r10CursStart).regs r10CursStart =
      if c.protect9b = true then c.regs r10CursStart else x := by
    split_ifs with h
    · rw [Crtc.write_of_kept (show c.Kept x r10CursStart from h)]
    · exact Crtc.write_regs (by decide) (show ¬ c.Kept x r10CursStart from h)
  change ((k.regs.crtc.write (s.regs.crtc.read r11CursEnd &&& 0x1f) r11CursEnd).write
    (s.regs.crtc.read r10CursStart &&& 0x1f) r10CursStart).regs i = _
  split_ifs with hend hcursor h9b
  · subst hend
    exact Crtc.write_regs_of_ne (by decide)
  · subst hcursor
    rw [hstart, Crtc.write_protect.2.1, if_pos h9b, Crtc.write_regs_of_ne (by decide)]
  · subst hcursor
    rw [hstart, Crtc.write_protect.2.1, if_neg h9b]
  · rw [Crtc.write_regs_of_ne (Ne.symm hcursor), Crtc.write_regs_of_ne (Ne.symm hend)]

end

/-! ## The round trip -/

/-- The BIOS data of the video. -/
def VideoData (a : ℕ) : Prop := 0x449 ≤ a ∧ a ≤ 0x466 ∨ 0x484 ≤ a ∧ a ≤ 0x48a ∨ 0x4a8 ≤ a ∧ a ≤ 0x4ab

instance (a : ℕ) : Decidable (VideoData a) := inferInstanceAs (Decidable (_ ∨ _))

theorem mem_walks (a : ℕ) : a ∈ biosCursors ++ biosOthers ↔ VideoData a ∧ a ≠ vidCurmod ∧ a ≠ vidCurmod + 1 := by
  simp only [biosCursors, biosOthers, List.mem_append, List.mem_range'_1, VideoData, vidCurmod]
  omega

/-- The offsets of the buffer that a save of so many bytes writes, with the words at its start. -/
def written (cx : BitVec 16) (length : ℕ) : Set ℕ :=
  {a | cx.getLsbD 0 ∧ a < 2 ∨ cx.getLsbD 1 ∧ 2 ≤ a ∧ a < 4 ∨ cx.getLsbD 2 ∧ 4 ≤ a ∧ a < 6 ∨
    0x20 ≤ a ∧ a < 0x20 + length}

/-- A save in the state `s`, and a restore in `t`: the save keeps what it saves, the walks have one layout, which fits
the blocks reported; and what was asked for reads as in `s`, all else as in `t`. -/
structure RoundTrip (cx : BitVec 16) (s t : State) : Prop where
  keeps : (saveStates cx s).2.toContent = s.toContent
  layout : (saveStates cx s).1.length = size (parts cx restoreHardware restoreBios restoreDac)
  fits : ∀ a ∈ written cx (saveStates cx s).1.length, a < 64 * buffSizes.getD (cx &&& 7).toNat 0
  registers : ∀ r, (restoreStates cx (saveStates cx s).1 t).toContent.regs.read r =
    (if cx.getLsbD 0 then s.toContent else t.toContent).regs.read r
  bios : ∀ a, (restoreStates cx (saveStates cx s).1 t).toContent.bios a =
    (if cx.getLsbD 1 = true ∧ VideoData a then s.toContent else t.toContent).bios a
  dac : ∀ i, (restoreStates cx (saveStates cx s).1 t).toContent.dac i =
    (if cx.getLsbD 2 then s.toContent else t.toContent).dac i

/-- When the CRTC of `c` reads as that of `s`: a register that is kept from its write is as saved already, and the
start of the cursor has no bit that the BIOS data leaves out. -/
def CrtcMeets (bios : Bool) (s c : Crtc) : Prop :=
  (∀ i < 0x19, c.Kept (s.read i) i → c.read i = s.read i) ∧
    (bios = true → c.protect9b = false → s.read r10CursStart &&& 0x1f = s.read r10CursStart)

/-- When the limits of the cursor, restored with the BIOS data, are those of `c`. -/
def CursorMeets (s c : Crtc) : Prop :=
  c.protect9b = true ∨ s.read r10CursStart &&& 0x1f = c.read r10CursStart ∧
    (c.read r11CursEnd).setWidth 5 = (s.read r11CursEnd).setWidth 5

/-! ### The CRTC -/

section

variable {s k : Content}

theorem read_write_iff {c c' : Crtc} {i : ℕ} (hi : i < 0x19) :
    (c.write (c'.read i) i).read i = c'.read i ↔ (c.Kept (c'.read i) i → c.read i = c'.read i) := by
  by_cases h : c.Kept (c'.read i) i
  · rw [Crtc.write_of_kept h]
    simp only [h, true_imp_iff]
  · exact iff_of_true (Crtc.write_read hi h) fun hkept => absurd hkept h

theorem crtc_hardware_iff : (∀ i < 0x19, (hardwareRestored s k).regs.crtc.read i = s.regs.crtc.read i) ↔
    CrtcMeets false s.regs.crtc k.regs.crtc := by
  unfold CrtcMeets
  simp only [Bool.false_eq_true, false_imp_iff, and_true]
  refine forall₂_congr fun i hi => ?_
  rw [Crtc.read_congr (crtc_restored s k hi), read_write_iff hi]

/-- The limits of the cursor are read as they are. -/
theorem read_cursor {c : Crtc} {i : ℕ} (h : i = r11CursEnd ∨ i = r10CursStart) : c.read i = c.regs i := by
  obtain rfl | rfl := h <;> rfl

theorem setWidth_and (x : BitVec 8) : (x &&& 0x1f).setWidth 5 = x.setWidth 5 := by
  revert x
  decide

/-- After the hardware is restored, the end of the cursor is not written again. -/
theorem end_kept : (hardwareRestored s k).regs.crtc.Kept (s.regs.crtc.read r11CursEnd &&& 0x1f) r11CursEnd := by
  change (hardwareRestored s k).regs.crtc.protect9b = true ∨
    ((hardwareRestored s k).regs.crtc.regs r11CursEnd).setWidth 5 = (s.regs.crtc.read r11CursEnd &&& 0x1f).setWidth 5
  rw [protect_restored, crtc_restored s k (by decide), setWidth_and]
  by_cases h : k.regs.crtc.Kept (s.regs.crtc.read r11CursEnd) r11CursEnd
  · rw [Crtc.write_of_kept h]
    exact h
  · rw [Crtc.write_regs (by decide) h, if_neg (by decide)]
    exact .inr rfl

theorem read_both {i : ℕ} (hi : i ≠ r10CursStart) :
    (biosRestored s (hardwareRestored s k)).regs.crtc.read i = (hardwareRestored s k).regs.crtc.read i := by
  refine Crtc.read_congr ?_
  rw [cursor_restored]
  split_ifs with hend
  · rw [Crtc.write_of_kept end_kept, hend]
  · rfl

theorem start_both : (biosRestored s (hardwareRestored s k)).regs.crtc.read r10CursStart =
    if k.regs.crtc.protect9b = true then k.regs.crtc.read r10CursStart else s.regs.crtc.read r10CursStart &&& 0x1f := by
  rw [read_cursor (.inr rfl), cursor_restored, if_neg (by decide), if_pos rfl, protect_restored]
  split_ifs with h9b
  · rw [crtc_restored s k (by decide), Crtc.write_of_kept (show k.regs.crtc.Kept _ r10CursStart from h9b),
      read_cursor (.inr rfl)]
  · rfl

theorem crtc_both_iff : (∀ i < 0x19, (biosRestored s (hardwareRestored s k)).regs.crtc.read i = s.regs.crtc.read i) ↔
    CrtcMeets true s.regs.crtc k.regs.crtc := by
  have hother {i : ℕ} (hi : i < 0x19) (hne : i ≠ r10CursStart) :
      (biosRestored s (hardwareRestored s k)).regs.crtc.read i = s.regs.crtc.read i ↔
        (k.regs.crtc.Kept (s.regs.crtc.read i) i → k.regs.crtc.read i = s.regs.crtc.read i) := by
    rw [read_both hne, Crtc.read_congr (crtc_restored s k hi), read_write_iff hi]
  constructor
  · intro h
    have hstart := h r10CursStart (by decide)
    rw [start_both] at hstart
    refine ⟨fun i hi hkept => ?_, fun _ h9b => ?_⟩
    · by_cases hne : i = r10CursStart
      · subst hne
        rwa [if_pos (show k.regs.crtc.protect9b = true from hkept)] at hstart
      · exact (hother hi hne).mp (h i hi) hkept
    · rwa [if_neg (by rw [h9b]; decide)] at hstart
  · rintro ⟨hkept, hstart⟩ i hi
    by_cases hne : i = r10CursStart
    · subst hne
      rw [start_both]
      split_ifs with h9b
      · exact hkept r10CursStart (by decide) h9b
      · exact hstart rfl (Bool.eq_false_iff.mpr h9b)
    · exact (hother hi hne).mpr (hkept i hi)

theorem crtc_bios_iff : (∀ i < 0x19, (biosRestored s k).regs.crtc.read i = k.regs.crtc.read i) ↔
    CursorMeets s.regs.crtc k.regs.crtc := by
  have hother {i : ℕ} (hend : i ≠ r11CursEnd) (hstart : i ≠ r10CursStart) :
      (biosRestored s k).regs.crtc.read i = k.regs.crtc.read i :=
    Crtc.read_congr ((cursor_restored s k i).trans (by rw [if_neg hend, if_neg hstart]))
  have hstart : (biosRestored s k).regs.crtc.read r10CursStart = k.regs.crtc.read r10CursStart ↔
      k.regs.crtc.protect9b = true ∨ s.regs.crtc.read r10CursStart &&& 0x1f = k.regs.crtc.read r10CursStart := by
    rw [read_cursor (.inr rfl), cursor_restored, if_neg (by decide), if_pos rfl, ← read_cursor (.inr rfl)]
    split_ifs with h9b
    · exact iff_of_true rfl (.inl h9b)
    · exact (or_iff_right h9b).symm
  have hend : (biosRestored s k).regs.crtc.read r11CursEnd = k.regs.crtc.read r11CursEnd ↔
      k.regs.crtc.protect9b = true ∨
        (k.regs.crtc.read r11CursEnd).setWidth 5 = (s.regs.crtc.read r11CursEnd).setWidth 5 := by
    have hkept : k.regs.crtc.Kept (s.regs.crtc.read r11CursEnd &&& 0x1f) r11CursEnd ↔ k.regs.crtc.protect9b = true ∨
        (k.regs.crtc.regs r11CursEnd).setWidth 5 = (s.regs.crtc.read r11CursEnd &&& 0x1f).setWidth 5 := Iff.rfl
    rw [← setWidth_and (s.regs.crtc.read r11CursEnd), read_cursor (.inl rfl), read_cursor (.inl rfl), ← hkept,
      cursor_restored, if_pos rfl]
    by_cases h : k.regs.crtc.Kept (s.regs.crtc.read r11CursEnd &&& 0x1f) r11CursEnd
    · rw [Crtc.write_of_kept h]
      exact iff_of_true rfl h
    · rw [Crtc.write_regs (by decide) h, if_neg (by decide)]
      exact iff_of_false (fun heq => h (hkept.mpr (.inr (congrArg _ heq.symm)))) h
  unfold CursorMeets
  rw [or_and_left, ← hstart, ← hend]
  refine ⟨fun h => ⟨h r10CursStart (by decide), h r11CursEnd (by decide)⟩, fun ⟨h, h'⟩ i hi => ?_⟩
  by_cases hi' : i = r11CursEnd
  · rw [hi']
    exact h'
  · by_cases hi'' : i = r10CursStart
    · rw [hi'']
      exact h
    · exact hother hi' hi''

end

/-! ### All of it -/

section

variable {s k : Content}

/-- The registers read as saved when those that no write keeps do. -/
theorem read_iff {r : Registers} (hseq : ∀ i < 5, r.seq.read i = s.regs.seq.read i)
    (hgc : ∀ i < 9, r.gc.read i = s.regs.gc.read i)
    (hac : ∀ i, r.ac i = if i < 20 then s.regs.ac i else k.regs.ac i) :
    (∀ x, r.read x = s.regs.read x) ↔ r.misc = s.regs.misc ∧ k.regs.ac 0x14 = s.regs.ac 0x14 ∧
      ∀ i < 0x19, r.crtc.read i = s.regs.crtc.read i := by
  constructor
  · intro h
    exact ⟨h .misc, ((hac 0x14).symm.trans (h (.ac 0x14)) :), fun i hi => h (.crtc ⟨i, hi⟩)⟩
  · rintro ⟨hmisc, hpadding, hcrtc⟩ x
    cases x with
    | seq i => exact hseq i i.isLt
    | misc => exact hmisc
    | crtc i => exact hcrtc i i.isLt
    | ac i =>
      refine (hac i).trans ?_
      split_ifs with hi
      · rfl
      · have heq : (i : ℕ) = 0x14 := by omega
        change k.regs.ac i = s.regs.ac i
        rw [heq]
        exact hpadding
    | gc i => exact hgc i i.isLt

theorem registers_iff (cx : BitVec 16) :
    (∀ r, (restored cx s k).regs.read r = (if cx.getLsbD 0 then s else k).regs.read r) ↔
      (cx.getLsbD 0 = true → k.regs.misc = s.regs.misc ∧ k.regs.ac 0x14 = s.regs.ac 0x14 ∧
        CrtcMeets (cx.getLsbD 1) s.regs.crtc k.regs.crtc) ∧
      (cx.getLsbD 0 = false → cx.getLsbD 1 = true → CursorMeets s.regs.crtc k.regs.crtc) := by
  have hdac : (restored cx s k).regs = (if cx.getLsbD 1 then biosRestored s (if cx.getLsbD 0 then hardwareRestored s k
      else k) else if cx.getLsbD 0 then hardwareRestored s k else k).regs := by
    unfold restored
    dsimp only
    split_ifs <;> rfl
  rw [hdac]
  cases cx.getLsbD 0 <;> cases cx.getLsbD 1
  · simp
  · simp only [Bool.false_eq_true, if_false, if_true, false_imp_iff, true_imp_iff, true_and]
    rw [← crtc_bios_iff]
    refine ⟨fun h i hi => h (.crtc ⟨i, hi⟩), fun h x => ?_⟩
    cases x with
    | crtc i => exact h i i.isLt
    | _ => rfl
  · simp only [if_true, Bool.false_eq_true, if_false, true_imp_iff, Bool.true_eq_false, false_imp_iff, and_true]
    rw [← crtc_hardware_iff]
    exact read_iff (fun i hi => seq_restored s k hi) (fun i hi => gc_restored s k hi) (ac_restored s k)
  · simp only [if_true, true_imp_iff, Bool.true_eq_false, false_imp_iff, and_true]
    rw [← crtc_both_iff]
    exact read_iff (fun i hi => seq_restored s k hi) (fun i hi => gc_restored s k hi) (ac_restored s k)

theorem bios_iff (cx : BitVec 16) :
    (∀ a, (restored cx s k).bios a = (if cx.getLsbD 1 = true ∧ VideoData a then s else k).bios a) ↔
      (cx.getLsbD 1 = true →
        k.bios vidCurmod = s.bios vidCurmod ∧ k.bios (vidCurmod + 1) = s.bios (vidCurmod + 1)) := by
  have hbios : (restored cx s k).bios = if cx.getLsbD 1 then (biosRestored s k).bios else k.bios := by
    unfold restored
    dsimp only
    split_ifs <;> rfl
  rw [hbios]
  cases cx.getLsbD 1
  · simp
  · simp only [if_true, true_and, true_imp_iff, bios_restored, mem_walks]
    constructor
    · intro h
      exact ⟨by simpa [VideoData, vidCurmod] using h vidCurmod, by simpa [VideoData, vidCurmod] using h (vidCurmod + 1)⟩
    · rintro ⟨hmode, hmode'⟩ a
      split_ifs with hwalk hdata hdata
      · rfl
      · exact absurd hwalk.1 hdata
      · obtain rfl | rfl : a = vidCurmod ∨ a = vidCurmod + 1 := by
          by_contra h
          exact hwalk ⟨hdata, not_or.mp h⟩
        · exact hmode
        · exact hmode'
      · rfl

theorem shown_congr (hflags : k.bios vgaFlags = s.bios vgaFlags) (hmask : k.dacDataMask = s.dacDataMask)
    (rgb : Colour) : shown k rgb = shown s rgb := by
  have hgrey : isGrey k.bios ↔ isGrey s.bios := by
    unfold isGrey
    rw [hflags]
  unfold shown
  simp only [hgrey, hmask]

theorem dac_iff (cx : BitVec 16) : (∀ i, (restored cx s k).dac i = (if cx.getLsbD 2 then s else k).dac i) ↔
    (cx.getLsbD 2 = true → ∀ i, shown { k with bios := (if cx.getLsbD 1 then s else k).bios } (s.dac i) = s.dac i) := by
  have hdac : (restored cx s k).dac = if cx.getLsbD 2 then fun i =>
      shown { k with bios := (if cx.getLsbD 1 then s else k).bios } (s.dac i) else k.dac := by
    unfold restored
    cases cx.getLsbD 2
    · simp only [Bool.false_eq_true, if_false]
      split_ifs <;> rfl
    · funext i
      refine (dac_restored s _ i).trans (shown_congr ?_ ?_ _)
      · cases cx.getLsbD 1
        · split_ifs <;> rfl
        · exact (bios_restored s _ vgaFlags).trans (if_pos (by decide))
      · split_ifs <;> rfl
  rw [hdac]
  cases cx.getLsbD 2
  · simp
  · simp

/-- The bits of `states`. -/
theorem states_eq (cx : BitVec 16) :
    (cx &&& 7).toNat = (cx.getLsbD 0).toNat + 2 * (cx.getLsbD 1).toNat + 4 * (cx.getLsbD 2).toNat := by
  have hmod : (cx &&& 7).toNat = cx.toNat % 8 := Nat.and_two_pow_sub_one_eq_mod cx.toNat 3
  have hbit (i : ℕ) : (cx.getLsbD i).toNat = cx.toNat / 2 ^ i % 2 := by
    rw [← BitVec.testBit_toNat, Nat.toNat_testBit]
  rw [hmod, hbit, hbit, hbit]
  omega

theorem fits_cells (cx : BitVec 16) (s : Content) :
    ∀ a ∈ written cx (cells cx s).length, a < 64 * buffSizes.getD (cx &&& 7).toNat 0 := by
  have hlength : (cells cx s).length = (if cx.getLsbD 0 then 70 else 0) + ((if cx.getLsbD 1 then 58 else 0) +
      if cx.getLsbD 2 then 771 else 0) := by
    have hdac : (dacCells s).length = 771 := by
      rw [dacCells, List.length_append, List.length_flatMap]
      simp only [List.length_cons, List.length_nil, List.map_const', List.length_range,
        List.sum_replicate_nat]
      rfl
    unfold cells parts
    rw [List.length_append, List.length_append, apply_ite List.length, apply_ite List.length, apply_ite List.length,
      hdac]
    rfl
  intro a ha
  rw [hlength] at ha
  rw [states_eq]
  revert ha
  unfold written buffSizes
  generalize cx.getLsbD 0 = hardware
  generalize cx.getLsbD 1 = bios
  generalize cx.getLsbD 2 = dac
  cases hardware <;> cases bios <;> cases dac <;> simp <;> omega

end

/-- When a save and a restore are a round trip. -/
structure Meets (cx : BitVec 16) (s t : Content) : Prop where
  hardware : cx.getLsbD 0 = true → t.regs.misc = s.regs.misc ∧ t.regs.ac 0x14 = s.regs.ac 0x14 ∧
    CrtcMeets (cx.getLsbD 1) s.regs.crtc t.regs.crtc
  cursor : cx.getLsbD 0 = false → cx.getLsbD 1 = true → CursorMeets s.regs.crtc t.regs.crtc
  bios : cx.getLsbD 1 = true → t.bios vidCurmod = s.bios vidCurmod ∧ t.bios (vidCurmod + 1) = s.bios (vidCurmod + 1)
  dac : cx.getLsbD 2 = true → ∀ i,
    shown { t with bios := (if cx.getLsbD 1 then s else t).bios } (s.dac i) = s.dac i

/-- **The round trip**, whatever state `t` the guest has led to since. -/
theorem restore_save_exact (cx : BitVec 16) (s t : State) : RoundTrip cx s t ↔ Meets cx s.toContent t.toContent := by
  obtain ⟨hcells, hkeeps⟩ := saveStates_reads cx s
  have hrestored := restoreStates_eq cx s.toContent t
  rw [← hcells] at hrestored
  constructor
  · rintro ⟨-, -, -, hregisters, hbios, hdac⟩
    rw [hrestored] at hregisters hbios hdac
    obtain ⟨hhardware, hcursor⟩ := (registers_iff cx).mp hregisters
    exact ⟨hhardware, hcursor, (bios_iff cx).mp hbios, (dac_iff cx).mp hdac⟩
  · rintro ⟨hhardware, hcursor, hbios, hdac⟩
    refine ⟨hkeeps, ?_, ?_, ?_, ?_, ?_⟩
    · rw [hcells]
      exact length_cells cx s.toContent
    · rw [hcells]
      exact fits_cells cx s.toContent
    · rw [hrestored]
      exact (registers_iff cx).mpr ⟨hhardware, hcursor⟩
    · rw [hrestored]
      exact (bios_iff cx).mpr hbios
    · rw [hrestored]
      exact (dac_iff cx).mpr hdac

/-- A VGA with 67h in its miscellaneous output register, and 0 in the others. -/
def mode67 : State where
  regs := ⟨⟨0, 0, 0, 0⟩, 0x67, ⟨fun _ => 0, false, false, false, false⟩, fun _ => 0, ⟨fun _ => 0, 0⟩⟩
  dac := fun _ => ⟨0, 0, 0⟩
  dacDataMask := 0x3f
  bios := fun _ => 0
  seqAddress := 0
  crtcAddress := 0
  gcAddress := 0
  acAddress := 0
  acIndexState := false
  dacRdAddr := 0
  dacWrAddr := 0
  dacRgbState := .red

/-- The hardware is saved, the guest writes E3h to port 3C2, and the restore leaves it there. -/
theorem misc_not_restored : (restoreStates 1 (saveStates 1 mode67).1 (mode67.outb .misc 0xe3)).regs.misc = 0xe3 ∧
    ¬ RoundTrip 1 mode67 (mode67.outb .misc 0xe3) := by
  have hmisc : (restoreStates 1 (saveStates 1 mode67).1 (mode67.outb .misc 0xe3)).regs.misc = 0xe3 := by decide
  refine ⟨hmisc, fun h => ?_⟩
  have hsame : (restoreStates 1 (saveStates 1 mode67).1 (mode67.outb .misc 0xe3)).regs.misc = 0x67 := h.registers .misc
  exact absurd (hmisc.symm.trans hsame) (by decide)

end SoftPC.Video.Vga
