import SoftPC.Machinery.Fields
import SoftPC.Video.ChainTwo
import Mathlib.Data.List.Find
import Mathlib.Logic.Function.Basic

/-!
# Video/CgaBios — pixels and characters of the CGA modes

    vd_write_dot ─▸ EGA_planes ◂─ place ─ sas_store ◂─ graphics_write_char
                        │
                        └─ place ─▸ sas_load ─▸ vd_read_dot, vd_read_attrib_char

The BIOS of `video.c` in modes 4, 5 and 6.  A dot is written to the planes themselves; all else goes through the
memory handlers, which have each byte of the window at its place in the planes.
-/

namespace SoftPC.Video.CgaBios

open ChainTwo (shifted)

/-- `video_pc_low_regen`, and how much of the memory from there on the handlers have. -/
def lowRegen : ℕ := 0xb8000

def windowSize : ℕ := 0x4000

def oddOff : ℕ := 0x2000

def scanLineLength : ℕ := 80

def oneLineOff : ℕ := 320

/-- The BIOS data area: `vd_video_mode`, `VID_COLS` and `VID_CURPOS`. -/
def vdVideoMode : ℕ := 0x449

def vidCols : ℕ := 0x44a

def vidCurpos : ℕ := 0x450

/-- `EGA_FONT_INT` and `BIOS_EXTEND_CHAR`. -/
def egaFontInt : ℕ := 0x43

def biosExtendChar : ℕ := 0x1f

def charsInGen : ℕ := 128

def charMapSize : ℕ := 8

/-- `EGA_planes`, and all other memory. -/
structure Memory where
  planes : ℕ → BitVec 8
  ram : ℕ → BitVec 8

/-- An address of the window. -/
def InWindow (a : ℕ) : Prop := lowRegen ≤ a ∧ a < lowRegen + windowSize

instance (a : ℕ) : Decidable (InWindow a) := inferInstanceAs (Decidable (_ ∧ _))

section

variable (place : ℕ → ℕ)

namespace Memory

variable (m : Memory)

/-- `sas_load`, `sas_hw_at_no_check`. -/
def load (a : ℕ) : BitVec 8 := if InWindow a then m.planes (place (a - lowRegen)) else m.ram a

/-- `sas_store`. -/
def store (a : ℕ) (v : BitVec 8) : Memory :=
  if InWindow a then { m with planes := Function.update m.planes (place (a - lowRegen)) v }
  else { m with ram := Function.update m.ram a v }

/-- `sas_loadw`. -/
def loadw (a : ℕ) : BitVec 16 := m.load place (a + 1) ++ m.load place a

/-- `sas_loads`. -/
def loads (a n : ℕ) : List (BitVec 8) := (List.range n).map fun i => m.load place (a + i)

/-- The mode in the BIOS data area. -/
def mode : BitVec 8 := m.load place vdVideoMode

/-- `extend_addr`: the address in a vector, or 0 for the default. -/
def extendAddr (a : ℕ) : ℕ :=
  let extOff := m.loadw place a
  let extSeg := m.loadw place (a + 2)
  if extSeg = 0xf000 ∧ extOff = 0 then 0 else extSeg.toNat * 16 + extOff.toNat

end Memory

/-! ## Dots -/

/-- The line of a dot, as `vd_write_dot` and `vd_read_dot` find it from DL. -/
def dotLine (dl : ℕ) : ℕ := if dl % 2 = 1 then oddOff - 40 + 40 * dl else dl * 40

variable (m : Memory) (al : BitVec 8) (cx dx : BitVec 16)

def vdWriteDot : Memory :=
  let line := dotLine (dx.setWidth 8).toNat
  if m.mode place < 6 then
    let dotpos := line + cx.toNat / 4
    let rightJust := cx.toNat % 4 * 2
    let dotval := (al &&& 3) <<< (6 - rightJust)
    let bitmask := (0xc0 : BitVec 8) >>> rightJust
    let dotpos := shifted dotpos + dotpos % 2
    let data := m.planes dotpos
    let data := if al.msb then data ^^^ dotval else data &&& ~~~bitmask ||| dotval
    { m with planes := Function.update m.planes dotpos data }
  else
    let dotpos := line + cx.toNat / 8
    let rightJust := cx.toNat % 8
    let dotval := (al &&& 1) <<< (7 - rightJust)
    let bitmask := (0x80 : BitVec 8) >>> rightJust
    let data := m.planes (dotpos * 4)
    let data := if al.msb then data ^^^ dotval else data &&& ~~~bitmask ||| dotval
    { m with planes := Function.update m.planes (dotpos * 4) data }

/-- `vd_read_dot`, and AL. -/
def vdReadDot : BitVec 8 :=
  let line := dotLine (dx.setWidth 8).toNat
  if m.mode place < 6 then
    m.load place (lowRegen + (line + cx.toNat / 4)) >>> ((3 - cx.toNat % 4) * 2) &&& 3
  else m.load place (lowRegen + (line + cx.toNat / 8)) >>> (7 - cx.toNat % 8) &&& 1

/-! ## Characters -/

/-- `fgcolmask`: 8 times through the loop, a bit for each pixel that is set. -/
def fgcolmask (rawchar : BitVec 16) : BitVec 8 :=
  ((List.range 8).foldl (fun (onoff : BitVec 16) i =>
    if rawchar &&& (0xc000 : BitVec 16) >>> (2 * i) = 0 then onoff <<< 1 else onoff <<< 1 ||| 1) 0).setWidth 8

/-- `expand_byte`: each bit, and again next to itself. -/
def expandByte (lobyte : BitVec 8) : BitVec 16 :=
  ((List.range 8).foldl (fun (s : BitVec 16 × BitVec 16) i =>
    let res := s.2 ||| s.1 &&& (1 : BitVec 16) <<< (2 * i)
    let lobyte := s.1 <<< 1
    (lobyte, res ||| lobyte &&& (2 : BitVec 16) <<< (2 * i))) (lobyte.setWidth 16, 0)).2

/-- The colour in all pixels of a word. -/
def colmask (attr : BitVec 8) : BitVec 16 :=
  let attr := (attr &&& 3).setWidth 16
  let colmask := (List.range 3).foldl (fun (colmask : BitVec 16) _ => colmask <<< 2 ||| attr) attr
  colmask <<< 8 ||| colmask

/-- A row of a character: a scan line on after each odd one. -/
def scan (i : ℕ) : ℕ := i / 2 * scanLineLength + i % 2 * oddOff

/-- The glyph of a character: the table of vector 43h, or the user's; none if there is no such table. -/
def charAddr (wchar : BitVec 8) : Option ℕ :=
  if 128 ≤ wchar.toNat then
    if m.extendAddr place (4 * biosExtendChar) = 0 then none
    else some (m.extendAddr place (4 * biosExtendChar) + (wchar.toNat - 128) * charMapSize)
  else some (m.extendAddr place (egaFontInt * 4) + charMapSize * wchar.toNat)

/-- A byte stored, or flipped into what is there. -/
def put (xor : Bool) (m : Memory) (a : ℕ) (v : BitVec 8) : Memory :=
  m.store place a (if xor then m.load place a ^^^ v else v)

/-- The rows of a character in mode 6… -/
def writeHigh (xor : Bool) (addr cpos : ℕ) (m : Memory) : Memory :=
  (List.range 8).foldl (fun m i => put place xor m (cpos + scan i) (m.load place (addr + i))) m

/-- …and in modes 4 and 5, in a colour. -/
def writeMedium (xor : Bool) (attr : BitVec 8) (addr cpos : ℕ) (m : Memory) : Memory :=
  (List.range 8).foldl (fun m i =>
    let colword := expandByte (m.load place (addr + i)) &&& colmask attr
    put place xor (put place xor m (cpos + scan i) ((colword >>> 8).setWidth 8)) (cpos + scan i + 1)
      (colword.setWidth 8)) m

def graphicsWriteChar (x y wchar attr : BitVec 8) (howMany : ℕ) : Memory :=
  match charAddr place m wchar with
  | none => m
  | some addr =>
    if m.mode place = 6 then
      (List.range howMany).foldl (fun m j =>
        writeHigh place attr.msb addr (lowRegen + (y.toNat * oneLineOff + x.toNat) + j) m) m
    else
      (List.range howMany).foldl (fun m j =>
        writeMedium place attr.msb attr addr (lowRegen + (y.toNat * oneLineOff + x.toNat * 2) + 2 * j) m) m

/-- The eight rows of a character at `cpos`, without their colours. -/
def matched (cpos : ℕ) : List (BitVec 8) :=
  (List.range 8).map fun i =>
    if m.mode place = 6 then m.load place (cpos + scan i)
    else
      let chattr := m.loadw place (cpos + scan i)
      fgcolmask (chattr >>> 8 ||| chattr <<< 8)

/-- The first character of a table whose rows these are. -/
def findChar (cgen : ℕ) (rows : List (BitVec 8)) : Option ℕ :=
  if cgen = 0 then none
  else (List.range charsInGen).find? fun i => m.loads place (cgen + i * charMapSize) charMapSize = rows

/-- `vd_read_attrib_char`, and AL. -/
def vdReadAttribChar (bh : BitVec 8) : BitVec 8 :=
  let cols := (m.loadw place vidCols).toNat
  let col := (m.load place (vidCurpos + bh.toNat * 2)).toNat
  let row := (m.load place (vidCurpos + bh.toNat * 2 + 1)).toNat
  let cpos := if m.mode place = 6 then lowRegen + (row * oneLineOff + col) else lowRegen + 2 * (row * cols * 4 + col)
  let rows := matched place m cpos
  match findChar place m (m.extendAddr place (egaFontInt * 4)) rows with
  | some i => .ofNat 8 i
  | none =>
    match findChar place m (m.extendAddr place (biosExtendChar * 4)) rows with
    | some i => .ofNat 8 (i + charsInGen)
    | none => 0

/-! ## Memory through the handlers -/

/-- The handlers have the bytes of the window where the chained planes have them: two and two in modes 4 and 5,
in the first plane in mode 6. -/
def Chained : Prop :=
  ∀ a < windowSize, place a = if m.mode place < 6 then shifted a + a % 2 else a * 4

variable {place m} {a b : ℕ} {v : BitVec 8}

theorem Chained.injective (h : Chained place m) (ha : a < windowSize) (hb : b < windowSize)
    (heq : place a = place b) : a = b := by
  rw [h a ha, h b hb, shifted, shifted] at heq
  clear ha hb h
  split at heq
  · omega
  · omega

namespace Memory

theorem load_store_self : (m.store place a v).load place a = v := by
  rw [store, load]
  split <;> exact Function.update_self _ _ _

theorem load_of_window (h : InWindow a) : m.load place a = m.planes (place (a - lowRegen)) := if_pos h

theorem load_of_not_window (h : ¬InWindow a) : m.load place a = m.ram a := if_neg h

theorem load_store_of_ne (h : Chained place m) (hne : b ≠ a) : (m.store place a v).load place b = m.load place b := by
  by_cases ha : InWindow a
  · rw [store, if_pos ha]
    by_cases hb : InWindow b
    · rw [load_of_window hb, load_of_window hb]
      have hplace : place (b - lowRegen) ≠ place (a - lowRegen) := fun heq => hne <| by
        have hsub := h.injective (Nat.sub_lt_left_of_lt_add hb.1 hb.2) (Nat.sub_lt_left_of_lt_add ha.1 ha.2) heq
        rw [← Nat.sub_add_cancel hb.1, hsub, Nat.sub_add_cancel ha.1]
      dsimp only
      rw [Function.update_of_ne hplace]
    · rw [load_of_not_window hb, load_of_not_window hb]
  · rw [store, if_neg ha]
    by_cases hb : InWindow b
    · rw [load_of_window hb, load_of_window hb]
    · rw [load_of_not_window hb, load_of_not_window hb]
      exact Function.update_of_ne hne _ _

theorem window_ne (h : InWindow a) (hb : b < lowRegen) : b ≠ a := fun heq => Nat.not_le_of_lt hb (heq ▸ h.1)

/-- Nothing that is written to the window changes what is below it. -/
theorem load_store_below (h : Chained place m) (ha : InWindow a) (hb : b < lowRegen) :
    (m.store place a v).load place b = m.load place b :=
  load_store_of_ne h (window_ne ha hb)

theorem mode_store (h : Chained place m) (ha : InWindow a) : (m.store place a v).mode place = m.mode place :=
  load_store_below h ha (by decide)

end Memory

theorem Chained.store (h : Chained place m) (ha : InWindow a) : Chained place (m.store place a v) := by
  rwa [Chained, Memory.mode_store h ha]

/-! ## Dots -/

section Dots

variable {al : BitVec 8} {cx dx cx' dx' : BitVec 16}

/-- The bits of a dot, the address of its byte, and its shift there. -/
def depth (mode : BitVec 8) : ℕ := if mode < 6 then 2 else 1

def dotAddr (mode : BitVec 8) (cx dx : BitVec 16) : ℕ :=
  lowRegen + (dotLine (dx.setWidth 8).toNat + if mode < 6 then cx.toNat / 4 else cx.toNat / 8)

def dotShift (mode : BitVec 8) (cx : BitVec 16) : ℕ :=
  if mode < 6 then (3 - cx.toNat % 4) * 2 else 7 - cx.toNat % 8

theorem vdReadDot_eq : vdReadDot place m cx dx =
    takeField (m.load place (dotAddr (m.mode place) cx dx)) (depth (m.mode place)) (dotShift (m.mode place) cx) := by
  rw [vdReadDot, dotAddr, depth, dotShift]
  split <;> rfl

/-- A dot of the screen. -/
def OnScreen (mode : BitVec 8) (cx dx : BitVec 16) : Prop :=
  dx.toNat < 200 ∧ cx.toNat < if mode < 6 then 320 else 640

theorem dotLine_eq (h : dx.toNat < 200) :
    dotLine (dx.setWidth 8).toNat = dx.toNat % 2 * oddOff + dx.toNat / 2 * scanLineLength := by
  have hdl : (dx.setWidth 8).toNat = dx.toNat := by
    rw [BitVec.toNat_setWidth]
    omega
  rw [hdl, dotLine, oddOff, scanLineLength]
  split <;> omega

/-- The byte of a dot is in the window. -/
theorem dotAddr_spec (hplace : Chained place m) (h : OnScreen (m.mode place) cx dx) :
    InWindow (dotAddr (m.mode place) cx dx) ∧
      place (dotAddr (m.mode place) cx dx - lowRegen) =
        if m.mode place < 6 then
          shifted (dotLine (dx.setWidth 8).toNat + cx.toNat / 4) + (dotLine (dx.setWidth 8).toNat + cx.toNat / 4) % 2
        else (dotLine (dx.setWidth 8).toNat + cx.toNat / 8) * 4 := by
  obtain ⟨hdx, hcx⟩ := h
  have hin : (dotLine (dx.setWidth 8).toNat + if m.mode place < 6 then cx.toNat / 4 else cx.toNat / 8) < windowSize := by
    rw [dotLine_eq hdx, oddOff, scanLineLength, windowSize]
    split at hcx <;> split <;> omega
  refine ⟨⟨Nat.le_add_right _ _, Nat.add_lt_add_left hin _⟩, ?_⟩
  rw [dotAddr, Nat.add_sub_cancel_left, hplace _ hin]
  split <;> rfl

theorem medium_mask : ∀ r < 4, (0xc0 : BitVec 8) >>> (r * 2) = lowBits 8 2 <<< ((3 - r) * 2) := by decide

theorem high_mask : ∀ r < 8, (0x80 : BitVec 8) >>> r = lowBits 8 1 <<< (7 - r) := by decide

theorem vdWriteDot_eq (hplace : Chained place m) (h : OnScreen (m.mode place) cx dx) :
    vdWriteDot place m al cx dx = m.store place (dotAddr (m.mode place) cx dx)
      (if al.msb then flipField (m.load place (dotAddr (m.mode place) cx dx)) al (depth (m.mode place))
          (dotShift (m.mode place) cx)
        else putField (m.load place (dotAddr (m.mode place) cx dx)) al (depth (m.mode place))
          (dotShift (m.mode place) cx)) := by
  obtain ⟨hwindow, hat⟩ := dotAddr_spec hplace h
  rw [Memory.store, if_pos hwindow, Memory.load_of_window hwindow, hat, vdWriteDot, depth, dotShift, flipField, putField]
  split
  · have hshift : 6 - cx.toNat % 4 * 2 = (3 - cx.toNat % 4) * 2 := by omega
    dsimp only
    rw [medium_mask _ (Nat.mod_lt _ (by decide)), hshift]
    rfl
  · dsimp only
    rw [high_mask _ (Nat.mod_lt _ (by decide))]
    rfl

/-- Dots of one byte are apart in it. -/
theorem dotShift_apart (h : OnScreen (m.mode place) cx dx) (h' : OnScreen (m.mode place) cx' dx')
    (haddr : dotAddr (m.mode place) cx' dx' = dotAddr (m.mode place) cx dx) (hne : (cx', dx') ≠ (cx, dx)) :
    dotShift (m.mode place) cx' + depth (m.mode place) ≤ dotShift (m.mode place) cx ∨
      dotShift (m.mode place) cx + depth (m.mode place) ≤ dotShift (m.mode place) cx' := by
  obtain ⟨hdx, hcx⟩ := h
  obtain ⟨hdx', hcx'⟩ := h'
  have hne' : ¬(cx'.toNat = cx.toNat ∧ dx'.toNat = dx.toNat) := fun ⟨hc, hd⟩ =>
    hne (by rw [BitVec.eq_of_toNat_eq hc, BitVec.eq_of_toNat_eq hd])
  rw [dotAddr, dotAddr, dotLine_eq hdx, dotLine_eq hdx', oddOff, scanLineLength, Nat.add_left_cancel_iff] at haddr
  rw [dotShift, dotShift, depth]
  split at hcx
  · rename_i hmode
    rw [if_pos hmode] at hcx'
    simp only [if_pos hmode] at haddr ⊢
    have hbank : dx'.toNat % 2 = dx.toNat % 2 := by omega
    have hline : dx'.toNat / 2 = dx.toNat / 2 := by omega
    omega
  · rename_i hmode
    rw [if_neg hmode] at hcx'
    simp only [if_neg hmode] at haddr ⊢
    have hbank : dx'.toNat % 2 = dx.toNat % 2 := by omega
    have hline : dx'.toNat / 2 = dx.toNat / 2 := by omega
    omega

/-- What a dot is written as. -/
def written (mode : BitVec 8) (old al : BitVec 8) : BitVec 8 :=
  let value := al &&& if mode < 6 then 3 else 1
  if al.msb then old ^^^ value else value

/-- A dot is read as it is written… -/
theorem vdReadDot_vdWriteDot (hplace : Chained place m) (h : OnScreen (m.mode place) cx dx) :
    vdReadDot place (vdWriteDot place m al cx dx) cx dx = written (m.mode place) (vdReadDot place m cx dx) al := by
  obtain ⟨hwindow, -⟩ := dotAddr_spec hplace h
  have hroom : dotShift (m.mode place) cx + depth (m.mode place) ≤ 8 := by
    rw [dotShift, depth]
    split <;> omega
  have hlow : (al &&& if m.mode place < 6 then 3 else 1) = al &&& lowBits 8 (depth (m.mode place)) := by
    rw [depth]
    split <;> rfl
  rw [vdReadDot_eq, vdReadDot_eq, vdWriteDot_eq hplace h, Memory.mode_store hplace hwindow, Memory.load_store_self,
    written, hlow]
  split
  · exact takeField_flipField _ _ hroom
  · exact takeField_putField _ _ hroom

/-- …and another dot as it was. -/
theorem vdReadDot_vdWriteDot_of_ne (hplace : Chained place m) (h : OnScreen (m.mode place) cx dx)
    (h' : OnScreen (m.mode place) cx' dx') (hne : (cx', dx') ≠ (cx, dx)) :
    vdReadDot place (vdWriteDot place m al cx dx) cx' dx' = vdReadDot place m cx' dx' := by
  obtain ⟨hwindow, -⟩ := dotAddr_spec hplace h
  rw [vdReadDot_eq, vdReadDot_eq, vdWriteDot_eq hplace h, Memory.mode_store hplace hwindow]
  by_cases haddr : dotAddr (m.mode place) cx' dx' = dotAddr (m.mode place) cx dx
  · have hapart := dotShift_apart h h' haddr hne
    rw [haddr, Memory.load_store_self]
    split
    · exact takeField_flipField_of_ne _ _ hapart
    · exact takeField_putField_of_ne _ _ hapart
  · rw [Memory.load_store_of_ne hplace haddr]

end Dots

/-! ## Bytes put in memory -/

section Puts

variable {xor : Bool} {l l' : List (ℕ × BitVec 8)} {p : ℕ × BitVec 8}

/-- Bytes put one after the other. -/
def puts (place : ℕ → ℕ) (xor : Bool) (l : List (ℕ × BitVec 8)) (m : Memory) : Memory :=
  l.foldl (fun m p => put place xor m p.1 p.2) m

theorem puts_append : puts place xor (l ++ l') m = puts place xor l' (puts place xor l m) := List.foldl_append

/-- **Bytes that are put** at addresses of the window, none of them twice. -/
theorem puts_spec (hplace : Chained place m) (hin : ∀ p ∈ l, InWindow p.1) (hl : (l.map Prod.fst).Nodup) :
    Chained place (puts place xor l m) ∧
      (∀ p ∈ l, (puts place xor l m).load place p.1 = if xor then m.load place p.1 ^^^ p.2 else p.2) ∧
      ∀ a ∉ l.map Prod.fst, (puts place xor l m).load place a = m.load place a := by
  induction l using List.reverseRecOn with
  | nil => exact ⟨hplace, fun _ hp => absurd hp List.not_mem_nil, fun _ _ => rfl⟩
  | append_singleton l p ih =>
    have hwindow : InWindow p.1 := hin p (List.mem_append_right _ (List.mem_singleton_self p))
    rw [List.map_append, List.nodup_append] at hl
    obtain ⟨hnodup, -, hlast⟩ := hl
    have hnot : p.1 ∉ l.map Prod.fst := fun hmem => hlast _ hmem _ (List.mem_singleton_self _) rfl
    obtain ⟨hchained, hputs, hothers⟩ := ih (fun q hq => hin q (List.mem_append_left _ hq)) hnodup
    rw [puts_append]
    change Chained place (put place xor _ p.1 p.2) ∧ (∀ q ∈ l ++ [p], (put place xor _ p.1 p.2).load place q.1 = _) ∧
      ∀ a ∉ (l ++ [p]).map Prod.fst, (put place xor _ p.1 p.2).load place a = _
    rw [put, hothers p.1 hnot]
    refine ⟨hchained.store hwindow, fun q hq => ?_, fun a ha => ?_⟩
    · obtain hq | hq := List.mem_append.mp hq
      · have hne : q.1 ≠ p.1 := fun heq => hnot (heq ▸ List.mem_map_of_mem hq)
        rw [Memory.load_store_of_ne hchained hne, hputs q hq]
      · rw [List.mem_singleton.mp hq, Memory.load_store_self]
    · rw [List.map_append, List.mem_append, not_or] at ha
      rw [Memory.load_store_of_ne hchained fun heq => ha.2 (List.mem_singleton.mpr heq), hothers a ha.1]

/-- Rows of bytes that come from other memory: the rows are as they were at first. -/
theorem foldl_puts {ι : Type} {rows : List ι} {row : ι → Memory → List (ℕ × BitVec 8)} {inside : ℕ → Prop}
    (hplace : Chained place m) (hinside : ∀ a, inside a → InWindow a)
    (hrow : ∀ i ∈ rows, ∀ m' : Memory, (∀ a, ¬inside a → m'.load place a = m.load place a) → row i m' = row i m)
    (haddr : ∀ i ∈ rows, (∀ p ∈ row i m, inside p.1) ∧ ((row i m).map Prod.fst).Nodup) :
    rows.foldl (fun m i => puts place xor (row i m) m) m = puts place xor (rows.flatMap (row · m)) m := by
  suffices h : ∀ c : Memory, Chained place c → (∀ a, ¬inside a → c.load place a = m.load place a) →
      rows.foldl (fun m i => puts place xor (row i m) m) c = puts place xor (rows.flatMap (row · m)) c from
    h m hplace fun _ _ => rfl
  induction rows with
  | nil => exact fun _ _ _ => rfl
  | cons i rows ih =>
    intro c hc hsame
    obtain ⟨hin, hnodup⟩ := haddr i List.mem_cons_self
    rw [List.foldl_cons, List.flatMap_cons, puts_append, hrow i List.mem_cons_self c hsame]
    obtain ⟨hchained, -, hothers⟩ := @puts_spec _ _ xor _ hc (fun p hp => hinside _ (hin p hp)) hnodup
    refine ih (fun j hj => hrow j (List.mem_cons_of_mem _ hj)) (fun j hj => haddr j (List.mem_cons_of_mem _ hj)) _
      hchained fun a ha => ?_
    rw [hothers a fun hmem => ?_, hsame a ha]
    obtain ⟨p, hp, rfl⟩ := List.mem_map.mp hmem
    exact ha (hin p hp)

end Puts

/-! ## Characters -/

section Characters

variable {x y wchar attr bh : BitVec 8} {xor : Bool} {addr cpos : ℕ}

/-- The columns of the screen, the bytes of a row of a character, and where its first row begins. -/
def columns (mode : BitVec 8) : ℕ := if mode = 6 then 80 else 40

def rowBytes (mode : BitVec 8) : ℕ := if mode = 6 then 1 else 2

def cellBase (mode x y : BitVec 8) : ℕ := lowRegen + (y.toNat * oneLineOff + x.toNat * rowBytes mode)

/-- The bytes of a cell, from its base. -/
def cellOffsets (mode : BitVec 8) : List ℕ :=
  (List.range 8).flatMap fun i => (List.range (rowBytes mode)).map fun h => scan i + h

/-- A byte of the cell. -/
def InCell (mode x y : BitVec 8) (a : ℕ) : Prop := ∃ o ∈ cellOffsets mode, a = cellBase mode x y + o

/-- The row of a character as it is put. -/
def rowOf (place : ℕ → ℕ) (mode attr : BitVec 8) (addr cpos i : ℕ) (m : Memory) : List (ℕ × BitVec 8) :=
  if mode = 6 then [(cpos + scan i, m.load place (addr + i))]
  else
    let colword := expandByte (m.load place (addr + i)) &&& colmask attr
    [(cpos + scan i, (colword >>> 8).setWidth 8), (cpos + scan i + 1, colword.setWidth 8)]

theorem cellOffsets_spec (mode : BitVec 8) : (cellOffsets mode).Nodup ∧ ∀ o ∈ cellOffsets mode, o < 0x20f2 := by
  rw [cellOffsets, rowBytes]
  split <;> decide

theorem rowOf_fst (mode : BitVec 8) (i : ℕ) :
    (rowOf place mode attr addr cpos i m).map Prod.fst = (List.range (rowBytes mode)).map fun h => cpos + (scan i + h) := by
  rw [rowOf, rowBytes]
  split <;> rfl

/-- A character of the font: its eight rows. -/
def glyph (place : ℕ → ℕ) (m : Memory) (c : BitVec 8) : Option (List (BitVec 8)) :=
  (charAddr place m c).map fun a => m.loads place a charMapSize

/-- **The cursor is on a cell of the screen**, in one of the modes, and the fonts are not in the cell. -/
structure OnCell (place : ℕ → ℕ) (m : Memory) (bh x y : BitVec 8) : Prop where
  mode : m.mode place = 4 ∨ m.mode place = 5 ∨ m.mode place = 6
  cols : (m.loadw place vidCols).toNat = columns (m.mode place)
  column : x.toNat < columns (m.mode place)
  row : y.toNat < 25
  cursorColumn : m.load place (vidCurpos + bh.toNat * 2) = x
  cursorRow : m.load place (vidCurpos + bh.toNat * 2 + 1) = y
  fontThere : m.extendAddr place (egaFontInt * 4) ≠ 0
  fontsElsewhere : ∀ c a, charAddr place m c = some a → ∀ i < 8, ¬InCell (m.mode place) x y (a + i)

theorem OnCell.window (h : OnCell place m bh x y) (ha : InCell (m.mode place) x y a) : InWindow a := by
  obtain ⟨o, ho, rfl⟩ := ha
  have hoff := (cellOffsets_spec (m.mode place)).2 o ho
  have hcolumn := h.column
  have hrow := h.row
  refine ⟨by rw [cellBase, Nat.add_assoc]; exact Nat.le_add_right _ _, ?_⟩
  rw [cellBase, Nat.add_assoc, rowBytes, oneLineOff, windowSize, Nat.add_lt_add_iff_left]
  rw [columns] at hcolumn
  split at hcolumn
  · rw [if_pos ‹_›]
    omega
  · rw [if_neg ‹_›]
    omega

/-- Bytes that the cell has not: memory may change there. -/
theorem cell_fst (mode : BitVec 8) :
    ((List.range 8).flatMap fun i => rowOf place mode attr addr cpos i m).map Prod.fst =
      (cellOffsets mode).map (cpos + ·) := by
  rw [List.map_flatMap, cellOffsets, List.map_flatMap]
  refine List.flatMap_congr fun i _ => ?_
  rw [rowOf_fst, List.map_map]
  rfl

theorem writeHigh_eq {mode : BitVec 8} (hmode : mode = 6) (xor : Bool) (addr cpos : ℕ) (m : Memory) :
    writeHigh place xor addr cpos m = (List.range 8).foldl (fun m' i => puts place xor
      (rowOf place mode attr addr cpos i m') m') m := by
  unfold writeHigh
  congr 1
  funext m' i
  rw [rowOf, if_pos hmode]
  rfl

theorem writeMedium_eq {mode : BitVec 8} (hmode : mode ≠ 6) (xor : Bool) (addr cpos : ℕ) (m : Memory) :
    writeMedium place xor attr addr cpos m = (List.range 8).foldl (fun m' i => puts place xor
      (rowOf place mode attr addr cpos i m') m') m := by
  unfold writeMedium
  congr 1
  funext m' i
  rw [rowOf, if_neg hmode]
  rfl

/-- A character is put row by row. -/
theorem graphicsWriteChar_rows (haddr : charAddr place m wchar = some addr) :
    graphicsWriteChar place m x y wchar attr 1 = (List.range 8).foldl (fun m' i => puts place attr.msb
      (rowOf place (m.mode place) attr addr (cellBase (m.mode place) x y) i m') m') m := by
  have hfold (f : Memory → ℕ → Memory) : (List.range 1).foldl f m = f m 0 := rfl
  rw [graphicsWriteChar, haddr]
  dsimp only
  rw [hfold, hfold, cellBase, rowBytes]
  split
  · rename_i hmode
    rw [writeHigh_eq hmode, Nat.add_zero, Nat.mul_one]
  · rename_i hmode
    rw [writeMedium_eq hmode, Nat.mul_zero, Nat.add_zero]

/-- A character is put row by row, as the font has it. -/
theorem OnCell.write_eq (h : OnCell place m bh x y) (hplace : Chained place m)
    (haddr : charAddr place m wchar = some addr) :
    graphicsWriteChar place m x y wchar attr 1 = puts place attr.msb
      ((List.range 8).flatMap fun i => rowOf place (m.mode place) attr addr (cellBase (m.mode place) x y) i m) m := by
  have hinside : ∀ i < 8, ∀ p ∈ rowOf place (m.mode place) attr addr (cellBase (m.mode place) x y) i m,
      InCell (m.mode place) x y p.1 := fun i hi p hp => by
    have hfst := List.mem_map_of_mem (f := Prod.fst) hp
    rw [rowOf_fst] at hfst
    obtain ⟨o, ho, heq⟩ := List.mem_map.mp hfst
    exact ⟨scan i + o, List.mem_flatMap.mpr ⟨i, List.mem_range.mpr hi, List.mem_map.mpr ⟨o, ho, rfl⟩⟩, heq.symm⟩
  rw [graphicsWriteChar_rows haddr]
  refine @foldl_puts _ _ _ _ _ _ (InCell (m.mode place) x y) hplace (fun a => h.window) (fun i hi m' hsame => ?_)
    fun i hi => ⟨hinside i (List.mem_range.mp hi), ?_⟩
  · have hload := hsame (addr + i) (h.fontsElsewhere wchar addr haddr i (List.mem_range.mp hi))
    rw [rowOf, rowOf, hload]
  · rw [rowOf_fst]
    refine (List.nodup_range).map fun o o' heq => ?_
    exact Nat.add_left_cancel (Nat.add_left_cancel heq)

/-- **A character written.** -/
theorem OnCell.write_spec (h : OnCell place m bh x y) (hplace : Chained place m)
    (haddr : charAddr place m wchar = some addr) :
    Chained place (graphicsWriteChar place m x y wchar attr 1) ∧
      (∀ i < 8, ∀ p ∈ rowOf place (m.mode place) attr addr (cellBase (m.mode place) x y) i m,
        (graphicsWriteChar place m x y wchar attr 1).load place p.1 =
          if attr.msb then m.load place p.1 ^^^ p.2 else p.2) ∧
      ∀ a, ¬InCell (m.mode place) x y a → (graphicsWriteChar place m x y wchar attr 1).load place a = m.load place a := by
  have hfst := @cell_fst place m attr addr (cellBase (m.mode place) x y) (m.mode place)
  have hnodup : ((cellOffsets (m.mode place)).map (cellBase (m.mode place) x y + ·)).Nodup :=
    (cellOffsets_spec (m.mode place)).1.map fun o o' heq => Nat.add_left_cancel heq
  rw [← hfst] at hnodup
  have hmem : ∀ a, a ∈ (((List.range 8).flatMap fun i =>
      rowOf place (m.mode place) attr addr (cellBase (m.mode place) x y) i m).map Prod.fst) ↔
      InCell (m.mode place) x y a := fun a => by
    rw [hfst, List.mem_map]
    exact exists_congr fun o => and_congr_right fun _ => eq_comm
  obtain ⟨hchained, hputs, hothers⟩ := @puts_spec _ _ attr.msb _ hplace
    (fun p hp => h.window ((hmem p.1).mp (List.mem_map_of_mem hp))) hnodup
  rw [h.write_eq hplace haddr]
  exact ⟨hchained, fun i hi p hp => hputs p (List.mem_flatMap.mpr ⟨i, List.mem_range.mpr hi, hp⟩),
    fun a ha => hothers a fun hin => ha ((hmem a).mp hin)⟩

theorem OnCell.below (h : OnCell place m bh x y) (ha : a < lowRegen) : ¬InCell (m.mode place) x y a := fun hin =>
  Nat.not_le_of_lt ha (h.window hin).1

/-! ### What a character leaves as it was -/

/-- Memory that differs in the cell only. -/
structure Beside (place : ℕ → ℕ) (m m' : Memory) (x y : BitVec 8) : Prop where
  load : ∀ a, ¬InCell (m.mode place) x y a → m'.load place a = m.load place a

namespace Beside

variable {m' : Memory}

theorem below (h : Beside place m m' x y) (hcell : OnCell place m bh x y) (ha : a < lowRegen) :
    m'.load place a = m.load place a :=
  h.load a (hcell.below ha)

theorem mode (h : Beside place m m' x y) (hcell : OnCell place m bh x y) : m'.mode place = m.mode place :=
  h.below hcell (by decide)

theorem loadw (h : Beside place m m' x y) (hcell : OnCell place m bh x y) (ha : a + 1 < lowRegen) :
    m'.loadw place a = m.loadw place a := by
  rw [Memory.loadw, Memory.loadw, h.below hcell ha, h.below hcell (Nat.lt_of_succ_lt ha)]

theorem extendAddr (h : Beside place m m' x y) (hcell : OnCell place m bh x y) (ha : a + 3 < lowRegen) :
    m'.extendAddr place a = m.extendAddr place a := by
  rw [Memory.extendAddr, Memory.extendAddr, h.loadw hcell ha,
    h.loadw hcell (Nat.lt_of_le_of_lt (Nat.add_le_add_left (by decide) a) ha)]

theorem charAddr (h : Beside place m m' x y) (hcell : OnCell place m bh x y) (c : BitVec 8) :
    charAddr place m' c = CgaBios.charAddr place m c := by
  rw [CgaBios.charAddr, CgaBios.charAddr, h.extendAddr hcell (by decide), h.extendAddr hcell (by decide)]

/-- The fonts are as they were. -/
theorem loads (h : Beside place m m' x y) (hcell : OnCell place m bh x y) {c : BitVec 8}
    (haddr : CgaBios.charAddr place m c = some addr) :
    m'.loads place addr charMapSize = m.loads place addr charMapSize :=
  List.map_congr_left fun i hi => h.load _ (hcell.fontsElsewhere c addr haddr i (List.mem_range.mp hi))

end Beside

/-! ### The rows of a character -/

/-- The bytes of a word, swapped twice. -/
theorem swap_swap (w : BitVec 16) :
    let chattr : BitVec 16 := w.setWidth 8 ++ (w >>> 8).setWidth 8
    chattr >>> 8 ||| chattr <<< 8 = w := by
  refine BitVec.eq_of_getLsbD_eq fun i hi => ?_
  simp only [BitVec.getLsbD_or, BitVec.getLsbD_ushiftRight, BitVec.getLsbD_shiftLeft, BitVec.getLsbD_append,
    BitVec.getLsbD_setWidth]
  by_cases hlow : i < 8
  · have h8 : ¬8 + i < 8 := by omega
    have hsub : 8 + i - 8 = i := by omega
    simp [hlow, h8, hsub]
  · have h8 : i - 8 < 8 := by omega
    have hadd : 8 + (i - 8) = i := by omega
    simp [hlow, h8, hadd, hi]

/-- A row in each of the colours. -/
theorem fgcolmask_one : ∀ g : BitVec 8, fgcolmask (expandByte g &&& 0x5555#16) = g := by decide

theorem fgcolmask_two : ∀ g : BitVec 8, fgcolmask (expandByte g &&& 0xaaaa#16) = g := by decide

theorem fgcolmask_three : ∀ g : BitVec 8, fgcolmask (expandByte g &&& 0xffff#16) = g := by decide

/-- A row in a colour, folded again. -/
theorem fgcolmask_expandByte : ∀ g : BitVec 8, ∀ colour ∈ [1, 2, (3 : BitVec 8)],
    let colword := expandByte g &&& colmask colour
    let chattr : BitVec 16 := colword.setWidth 8 ++ (colword >>> 8).setWidth 8
    fgcolmask (chattr >>> 8 ||| chattr <<< 8) = g := by
  intro g colour hcolour
  dsimp only
  rw [swap_swap]
  obtain rfl | rfl | rfl : colour = 1 ∨ colour = 2 ∨ colour = 3 := by simpa using hcolour
  · exact fgcolmask_one g
  · exact fgcolmask_two g
  · exact fgcolmask_three g

theorem colour_cases : ∀ attr : BitVec 8, attr &&& 3 ≠ 0 → attr &&& 3 ∈ [1, 2, (3 : BitVec 8)] := by
  decide

theorem colmask_low (attr : BitVec 8) : colmask (attr &&& 3) = colmask attr := by
  rw [colmask, colmask, BitVec.and_assoc, BitVec.and_self]

/-- The rows that are matched are those of the glyph. -/
theorem OnCell.matched_eq (h : OnCell place m bh x y) (hplace : Chained place m)
    (haddr : charAddr place m wchar = some addr) (hxor : attr.msb = false)
    (hcolour : m.mode place ≠ 6 → attr &&& 3 ≠ 0) :
    matched place (graphicsWriteChar place m x y wchar attr 1) (cellBase (m.mode place) x y) =
      m.loads place addr charMapSize := by
  obtain ⟨-, hputs, hothers⟩ := @OnCell.write_spec _ _ _ _ _ attr _ _ h hplace haddr
  have hmode := Beside.mode ⟨hothers⟩ h
  refine List.map_congr_left fun i hi => ?_
  have hput := hputs i (List.mem_range.mp hi)
  rw [hxor] at hput
  rw [hmode]
  split
  · rename_i hhigh
    refine hput (_, _) ?_
    rw [rowOf, if_pos hhigh]
    exact List.mem_singleton_self _
  · rename_i hmedium
    rw [rowOf, if_neg hmedium] at hput
    have hleft := hput _ List.mem_cons_self
    have hright := hput _ (List.mem_cons_of_mem _ (List.mem_singleton_self _))
    have hfold := fgcolmask_expandByte (m.load place (addr + i)) _ (colour_cases attr (hcolour hmedium))
    rw [colmask_low] at hfold
    rw [Memory.loadw, hleft, hright]
    exact hfold

/-! ### Which character is found -/

/-- A first character of a table. -/
theorem findChar_some {cgen i : ℕ} {rows : List (BitVec 8)} (h : findChar place m cgen rows = some i) :
    i < charsInGen ∧ m.loads place (cgen + i * charMapSize) charMapSize = rows ∧
      ∀ j < i, m.loads place (cgen + j * charMapSize) charMapSize ≠ rows := by
  rw [findChar] at h
  split at h
  · cases h
  · obtain ⟨hrows, hi, hfirst⟩ := List.find?_range_eq_some.mp h
    exact ⟨List.mem_range.mp hi, of_decide_eq_true hrows, fun j hj => by simpa using hfirst j hj⟩

theorem findChar_none {cgen : ℕ} {rows : List (BitVec 8)} (hcgen : cgen ≠ 0) (h : findChar place m cgen rows = none) :
    ∀ i < charsInGen, m.loads place (cgen + i * charMapSize) charMapSize ≠ rows := by
  rw [findChar, if_neg hcgen, List.find?_range_eq_none] at h
  exact fun i hi => by simpa using h i hi

theorem glyph_std {c : BitVec 8} (h : c.toNat < 128) : glyph place m c =
    some (m.loads place (m.extendAddr place (egaFontInt * 4) + c.toNat * charMapSize) charMapSize) := by
  rw [glyph, charAddr, if_neg (Nat.not_le_of_lt h), Nat.mul_comm charMapSize]
  rfl

theorem glyph_ext {c : BitVec 8} (h : 128 ≤ c.toNat) : glyph place m c =
    if m.extendAddr place (biosExtendChar * 4) = 0 then none
    else some (m.loads place (m.extendAddr place (biosExtendChar * 4) + (c.toNat - 128) * charMapSize) charMapSize) := by
  rw [glyph, charAddr, if_pos h, Nat.mul_comm 4]
  split <;> rfl

/-- The fonts are searched as before. -/
theorem findChar_beside {m' : Memory} (h : Beside place m m' x y) (hcell : OnCell place m bh x y) {v : ℕ}
    (hv : v * 4 + 3 < lowRegen) (rows : List (BitVec 8))
    (hchars : m.extendAddr place (v * 4) ≠ 0 → ∀ i < charsInGen, ∃ c,
      charAddr place m c = some (m.extendAddr place (v * 4) + i * charMapSize)) :
    findChar place m' (m'.extendAddr place (v * 4)) rows = findChar place m (m.extendAddr place (v * 4)) rows := by
  rw [h.extendAddr hcell hv, findChar, findChar]
  split
  · rfl
  · rename_i hcgen
    refine List.find?_congr fun i hi => ?_
    obtain ⟨c, hc⟩ := hchars hcgen i (List.mem_range.mp hi)
    rw [h.loads hcell hc]

theorem charAddr_std {i : ℕ} (hi : i < charsInGen) :
    charAddr place m (.ofNat 8 i) = some (m.extendAddr place (egaFontInt * 4) + i * charMapSize) := by
  have hnat : (BitVec.ofNat 8 i).toNat = i := by
    rw [BitVec.toNat_ofNat]
    exact Nat.mod_eq_of_lt (Nat.lt_trans hi (by decide))
  have hlow : ¬128 ≤ i := Nat.not_le_of_lt hi
  rw [charAddr, hnat, if_neg hlow, Nat.mul_comm charMapSize]

theorem charAddr_ext {i : ℕ} (hi : i < charsInGen) (hext : m.extendAddr place (biosExtendChar * 4) ≠ 0) :
    charAddr place m (.ofNat 8 (i + charsInGen)) =
      some (m.extendAddr place (biosExtendChar * 4) + i * charMapSize) := by
  have hsize : charsInGen = 128 := rfl
  have hnat : (BitVec.ofNat 8 (i + charsInGen)).toNat = i + 128 := by
    rw [BitVec.toNat_ofNat, hsize]
    omega
  rw [charAddr, hnat, if_pos (Nat.le_add_left _ _), Nat.mul_comm 4, if_neg hext, Nat.add_sub_cancel]

/-- The character that is read: the first that has this glyph. -/
def ReadsBack (place : ℕ → ℕ) (m : Memory) (x y wchar attr bh : BitVec 8) : Prop :=
  let code := vdReadAttribChar place (graphicsWriteChar place m x y wchar attr 1) bh
  glyph place m code = glyph place m wchar ∧ ∀ c, glyph place m c = glyph place m wchar → code.toNat ≤ c.toNat

/-- A character is read as the first with its rows. -/
theorem first_of_rows {rows : List (BitVec 8)} (hfont : m.extendAddr place (egaFontInt * 4) ≠ 0)
    (hrows : glyph place m wchar = some rows) {code : BitVec 8}
    (hcode : code = match findChar place m (m.extendAddr place (egaFontInt * 4)) rows with
      | some i => .ofNat 8 i
      | none =>
        match findChar place m (m.extendAddr place (biosExtendChar * 4)) rows with
        | some i => .ofNat 8 (i + charsInGen)
        | none => 0) :
    glyph place m code = glyph place m wchar ∧ ∀ c, glyph place m c = glyph place m wchar → code.toNat ≤ c.toNat := by
  have hsize : charsInGen = 128 := rfl
  rw [hrows]
  split at hcode
  · rename_i i hfind
    obtain ⟨hi, heq, hfirst⟩ := findChar_some hfind
    have hnat : code.toNat = i := by
      rw [hcode, BitVec.toNat_ofNat]
      omega
    refine ⟨by rw [glyph_std (by omega), hnat, heq], fun c hc => ?_⟩
    by_contra hlt
    rw [glyph_std (by omega)] at hc
    exact hfirst c.toNat (by omega) (Option.some.inj hc)
  · rename_i hfind
    have hstd : ∀ c : BitVec 8, glyph place m c = some rows → 128 ≤ c.toNat := fun c hc => by
      by_contra hlt
      rw [glyph_std (by omega)] at hc
      exact findChar_none hfont hfind c.toNat (by omega) (Option.some.inj hc)
    have hwchar := hstd wchar hrows
    have hext : m.extendAddr place (biosExtendChar * 4) ≠ 0 := fun hzero => by
      rw [glyph_ext hwchar, if_pos hzero] at hrows
      cases hrows
    split at hcode
    · rename_i i hfind'
      obtain ⟨hi, heq, hfirst⟩ := findChar_some hfind'
      have hnat : code.toNat = i + 128 := by
        rw [hcode, BitVec.toNat_ofNat]
        omega
      refine ⟨by rw [glyph_ext (by omega), if_neg hext, hnat, Nat.add_sub_cancel, heq], fun c hc => ?_⟩
      have hc128 := hstd c hc
      by_contra hlt
      rw [glyph_ext hc128, if_neg hext] at hc
      exact hfirst (c.toNat - 128) (by omega) (Option.some.inj hc)
    · rename_i hfind'
      rw [glyph_ext hwchar, if_neg hext] at hrows
      exact absurd (Option.some.inj hrows) (findChar_none hext hfind' _ (by omega))

/-- **A character is read back.** -/
theorem OnCell.readsBack (h : OnCell place m bh x y) (hplace : Chained place m)
    (hglyph : (glyph place m wchar).isSome) (hxor : attr.msb = false)
    (hcolour : m.mode place ≠ 6 → attr &&& 3 ≠ 0) : ReadsBack place m x y wchar attr bh := by
  obtain ⟨addr, haddr⟩ := Option.isSome_iff_exists.mp (Option.isSome_map ▸ hglyph)
  have hbeside : Beside place m (graphicsWriteChar place m x y wchar attr 1) x y := ⟨(h.write_spec hplace haddr).2.2⟩
  have hmatched := h.matched_eq hplace haddr hxor hcolour
  generalize hm' : graphicsWriteChar place m x y wchar attr 1 = m' at hbeside hmatched
  have hrows : glyph place m wchar = some (m.loads place addr charMapSize) := by
    rw [glyph, haddr]
    rfl
  have hstd := findChar_beside hbeside h (v := egaFontInt) (by decide) (m.loads place addr charMapSize)
    fun _ i hi => ⟨_, charAddr_std hi⟩
  have hext := findChar_beside hbeside h (v := biosExtendChar) (by decide) (m.loads place addr charMapSize)
    fun hne i hi => ⟨_, charAddr_ext hi hne⟩
  -- The cursor and the columns are below the screen.
  have hbh := bh.isLt
  have hlow : lowRegen = 0xb8000 := rfl
  have hcursor : vidCurpos = 0x450 := rfl
  have hmode := hbeside.mode h
  have hcols := hbeside.loadw h (a := vidCols) (by decide)
  have hcol := hbeside.below h (a := vidCurpos + bh.toNat * 2) (by omega)
  have hrow := hbeside.below h (a := vidCurpos + bh.toNat * 2 + 1) (by omega)
  refine first_of_rows h.fontThere hrows ?_
  rw [vdReadAttribChar, hm', hmode, hcols, hcol, hrow, h.cursorColumn, h.cursorRow, h.cols]
  have hcpos : (if m.mode place = 6 then lowRegen + (y.toNat * oneLineOff + x.toNat)
      else lowRegen + 2 * (y.toNat * columns (m.mode place) * 4 + x.toNat)) = cellBase (m.mode place) x y := by
    rw [cellBase, rowBytes, columns, oneLineOff]
    split
    · rw [Nat.mul_one]
    · omega
  rw [hcpos, hmatched, hstd, hext]

/-! ### Outside the cell, and twice -/

theorem InCell.row (h : InCell (m.mode place) x y a) : ∃ i < 8, ∃ o < rowBytes (m.mode place),
    a = cellBase (m.mode place) x y + (scan i + o) := by
  obtain ⟨_, hmem, rfl⟩ := h
  obtain ⟨i, hi, hmem⟩ := List.mem_flatMap.mp hmem
  obtain ⟨o, ho, rfl⟩ := List.mem_map.mp hmem
  exact ⟨i, List.mem_range.mp hi, o, List.mem_range.mp ho, rfl⟩

/-- The dot is one of the cell's. -/
def DotIn (x y : BitVec 8) (cx dx : BitVec 16) : Prop := cx.toNat / 8 = x.toNat ∧ dx.toNat / 8 = y.toNat

theorem OnCell.dot_outside (h : OnCell place m bh x y) {cx dx : BitVec 16} (hscreen : OnScreen (m.mode place) cx dx)
    (hout : ¬DotIn x y cx dx) : ¬InCell (m.mode place) x y (dotAddr (m.mode place) cx dx) := by
  obtain ⟨hdx, hcx⟩ := hscreen
  intro hin
  obtain ⟨i, hi, o, ho, heq⟩ := InCell.row (m := m) hin
  rw [dotAddr, cellBase, Nat.add_assoc, Nat.add_left_cancel_iff, dotLine_eq hdx, scan, oneLineOff, oddOff,
    scanLineLength, rowBytes] at heq
  rw [rowBytes] at ho
  have hcolumn := h.column
  rw [columns] at hcolumn
  have hrow := h.row
  have hmode : (m.mode place < 6 ∧ m.mode place ≠ 6) ∨ (¬m.mode place < 6 ∧ m.mode place = 6) := by
    obtain hmode | hmode | hmode := h.mode <;> rw [hmode] <;> decide
  obtain ⟨hlow, hnot⟩ | ⟨hlow, hhigh⟩ := hmode
  · rw [if_pos hlow] at hcx
    simp only [if_pos hlow, if_neg hnot] at heq ho hcolumn
    have hbank : dx.toNat % 2 = i % 2 := by omega
    have hline : dx.toNat / 2 = y.toNat * 4 + i / 2 := by omega
    exact hout ⟨by omega, by omega⟩
  · rw [if_neg hlow] at hcx
    simp only [if_neg hlow, if_pos hhigh] at heq ho hcolumn
    have hbank : dx.toNat % 2 = i % 2 := by omega
    have hline : dx.toNat / 2 = y.toNat * 4 + i / 2 := by omega
    exact hout ⟨by omega, by omega⟩

/-- Whatever is written, dots outside the cell are as they were. -/
theorem OnCell.dot_beside (h : OnCell place m bh x y) (hplace : Chained place m) (wchar attr : BitVec 8)
    {cx dx : BitVec 16} (hscreen : OnScreen (m.mode place) cx dx) (hout : ¬DotIn x y cx dx) :
    vdReadDot place (graphicsWriteChar place m x y wchar attr 1) cx dx = vdReadDot place m cx dx := by
  cases haddr : charAddr place m wchar with
  | none => rw [graphicsWriteChar, haddr]
  | some addr =>
    have hothers := (@OnCell.write_spec _ _ _ _ _ attr _ _ h hplace haddr).2.2
    have hmode := Beside.mode ⟨hothers⟩ h
    rw [vdReadDot_eq, vdReadDot_eq, hmode, hothers _ (h.dot_outside hscreen hout)]

theorem OnCell.of_beside (h : OnCell place m bh x y) {m' : Memory} (hbeside : Beside place m m' x y) :
    OnCell place m' bh x y := by
  have hbh := bh.isLt
  have hlow : lowRegen = 0xb8000 := rfl
  have hcursor : vidCurpos = 0x450 := rfl
  have hmode := hbeside.mode h
  refine ⟨hmode ▸ h.mode, ?_, hmode ▸ h.column, h.row, ?_, ?_, ?_, fun c a hc => ?_⟩
  · rw [hbeside.loadw h (by decide), hmode, h.cols]
  · rw [hbeside.below h (by omega), h.cursorColumn]
  · rw [hbeside.below h (by omega), h.cursorRow]
  · rw [hbeside.extendAddr h (by decide)]
    exact h.fontThere
  · rw [hmode]
    exact h.fontsElsewhere c a (hbeside.charAddr h c ▸ hc)

/-- **Flipped twice, a cell is as it was.** -/
theorem OnCell.twice (h : OnCell place m bh x y) (hplace : Chained place m) (wchar : BitVec 8) (hxor : attr.msb = true)
    (a : ℕ) : (graphicsWriteChar place (graphicsWriteChar place m x y wchar attr 1) x y wchar attr 1).load place a =
      m.load place a := by
  cases haddr : charAddr place m wchar with
  | none =>
    have hnone : graphicsWriteChar place m x y wchar attr 1 = m := by rw [graphicsWriteChar, haddr]
    rw [hnone, hnone]
  | some addr =>
    obtain ⟨hchained, hputs, hothers⟩ := @OnCell.write_spec _ _ _ _ _ attr _ _ h hplace haddr
    generalize graphicsWriteChar place m x y wchar attr 1 = m' at hchained hputs hothers ⊢
    have hbeside : Beside place m m' x y := ⟨hothers⟩
    have hmode := hbeside.mode h
    obtain ⟨-, hputs', hothers'⟩ := @OnCell.write_spec _ _ _ _ _ attr _ _ (h.of_beside hbeside) hchained
      ((hbeside.charAddr h wchar).trans haddr)
    rw [hmode] at hputs' hothers'
    by_cases hin : InCell (m.mode place) x y a
    · obtain ⟨i, hi, o, ho, rfl⟩ := InCell.row (m := m) hin
      have hrow : rowOf place (m.mode place) attr addr (cellBase (m.mode place) x y) i m' =
          rowOf place (m.mode place) attr addr (cellBase (m.mode place) x y) i m := by
        rw [rowOf, rowOf, hothers _ (h.fontsElsewhere wchar addr haddr i hi)]
      have hmem : cellBase (m.mode place) x y + (scan i + o) ∈
          (rowOf place (m.mode place) attr addr (cellBase (m.mode place) x y) i m).map Prod.fst := by
        rw [rowOf_fst]
        exact List.mem_map.mpr ⟨o, List.mem_range.mpr ho, rfl⟩
      obtain ⟨p, hp, hfst⟩ := List.mem_map.mp hmem
      rw [← hrow] at hp
      have hput' := hputs' i hi p hp
      rw [hrow] at hp
      rw [← hfst, hput', hputs i hi p hp, hxor, if_pos rfl, if_pos rfl, BitVec.xor_assoc,
        BitVec.xor_self, BitVec.xor_zero]
    · rw [hothers' a hin, hothers a hin]

end Characters

/-- **Dots and characters of the CGA modes read back as written**: a dot in the bits of the mode, a character as the
first that has its rows, if its colour has one of the two bits that modes 4 and 5 take; other dots are as they were,
and what is flipped twice is as it was. -/
theorem cga_reads_back (hplace : Chained place m) :
    (∀ al cx dx, OnScreen (m.mode place) cx dx →
      vdReadDot place (vdWriteDot place m al cx dx) cx dx = written (m.mode place) (vdReadDot place m cx dx) al ∧
      ∀ cx' dx', OnScreen (m.mode place) cx' dx' → (cx', dx') ≠ (cx, dx) →
        vdReadDot place (vdWriteDot place m al cx dx) cx' dx' = vdReadDot place m cx' dx') ∧
    ∀ bh x y, OnCell place m bh x y →
      (∀ wchar attr, (glyph place m wchar).isSome → attr.msb = false → (m.mode place ≠ 6 → attr &&& 3 ≠ 0) →
        ReadsBack place m x y wchar attr bh) ∧
      (∀ wchar attr cx dx, OnScreen (m.mode place) cx dx → ¬DotIn x y cx dx →
        vdReadDot place (graphicsWriteChar place m x y wchar attr 1) cx dx = vdReadDot place m cx dx) ∧
      ∀ wchar attr, attr.msb = true → ∀ a,
        (graphicsWriteChar place (graphicsWriteChar place m x y wchar attr 1) x y wchar attr 1).load place a =
          m.load place a :=
  ⟨fun _ _ _ h => ⟨vdReadDot_vdWriteDot hplace h, fun _ _ => vdReadDot_vdWriteDot_of_ne hplace h⟩,
    fun _ _ _ hcell => ⟨fun _ _ hglyph hxor hcolour => hcell.readsBack hplace hglyph hxor hcolour,
      fun wchar attr _ _ hscreen hout => hcell.dot_beside hplace wchar attr hscreen hout,
      fun wchar _ hxor a => hcell.twice hplace wchar hxor a⟩⟩

end

/-- The places of modes 4 and 5, and a memory in mode 4 with the cursor home; each character of its font has its own
code in every row. -/
def placeFour (a : ℕ) : ℕ := shifted a + a % 2

def modeFour : Memory where
  planes _ := 0
  ram a :=
    if a = vdVideoMode then 4
    else if a = vidCols then 40
    else if a = egaFontInt * 4 + 3 then 0x10
    else if a = biosExtendChar * 4 + 3 then 0xf0
    else if 0x10000 ≤ a then .ofNat 8 ((a - 0x10000) / 8)
    else 0

theorem modeFour_chained : Chained placeFour modeFour := fun _ _ => by
  rw [if_pos (by decide)]
  rfl

theorem modeFour_charAddr {c : BitVec 8} {a : ℕ} (h : charAddr placeFour modeFour c = some a) :
    a = 0x10000 + c.toNat * 8 := by
  have hstd : modeFour.extendAddr placeFour (egaFontInt * 4) = 0x10000 := by decide
  have hext : modeFour.extendAddr placeFour (4 * biosExtendChar) = 0 := by decide
  rw [charAddr, hext, hstd] at h
  split at h
  · cases h
  · rw [← Option.some.inj h, Nat.mul_comm]
    rfl

theorem modeFour_onCell : OnCell placeFour modeFour 0 0 0 := by
  refine ⟨.inl (by decide), by decide, by decide, by decide, by decide, by decide, by decide, fun c a hc i hi hin => ?_⟩
  have ha := modeFour_charAddr hc
  have hcode := c.isLt
  obtain ⟨o, -, heq⟩ := hin
  have hbase : lowRegen ≤ cellBase (modeFour.mode placeFour) 0 0 := Nat.le_add_right _ _
  rw [lowRegen] at hbase
  omega

theorem cga_reads_back_home : ReadsBack placeFour modeFour 0 0 65 1 0 :=
  ((cga_reads_back modeFour_chained).2 0 0 0 modeFour_onCell).1 65 1 (by decide) (by decide) fun _ => by decide

/-- A colour without the two bits leaves nothing of the character. -/
theorem colour_without_bits : ∃ place m bh x y wchar attr, Chained place m ∧ OnCell place m bh x y ∧
    (glyph place m wchar).isSome ∧ attr ≠ 0 ∧ attr.msb = false ∧ ¬ReadsBack place m x y wchar attr bh := by
  refine ⟨placeFour, modeFour, 0, 0, 0, 65, 4, modeFour_chained, modeFour_onCell, by decide, by decide, by decide, ?_⟩
  intro h
  have hread : vdReadAttribChar placeFour (graphicsWriteChar placeFour modeFour 0 0 65 4 1) 0 = 0 := by decide
  rw [ReadsBack, hread] at h
  exact absurd h.1 (by decide)

end SoftPC.Video.CgaBios
