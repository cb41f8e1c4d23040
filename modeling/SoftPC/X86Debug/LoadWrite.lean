import SoftPC.X86Debug.MemoryExact

/-!
# X86Debug/LoadWrite — a file is loaded, and written again

    L  seg:off    byte k  →  (seg + k / 64K):(off + k)      BX:CX ← length
    W  seg:off    byte k  ←         seg:(off + k)           length ← BX:CX

`l` and `w` of `product/command.c`.  Both of them let the offset wrap; only `l` advances the segment, and by a
paragraph.  So a file is where it should be, and is written as it was, only if it ends in the segment that it
starts in (`reproduces_iff`).  The file that `n` names can be read, and written.
-/

namespace SoftPC.X86Debug

/-- What the two commands share. -/
structure Session where
  ram : Ram
  ecx : BitVec 32
  ebx : BitVec 32

/-- `debug_set_word`. -/
def setWord (reg : BitVec 32) (value : BitVec 16) : BitVec 32 := reg &&& 0xffff0000 ||| value.setWidth 32

/-- The address of a file. -/
def fileAddress (regs : SegmentRegs) (args : List Arg) : Scan PUnit :=
  match args.length with
  | 1 => modify fun r => { r with seg := regs.cs, ptr := 0x100 }
  | 2 => addrparse regs args regs.cs (argText args 1)
  | narg => seterr args (narg - 1)

/-! ## Loading -/

/-- A file as far as it is loaded. -/
structure Load where
  ram : Ram
  len : ℕ := 0
  i : BitVec 16 := 0

variable (seg ptr : BitVec 16) (file : List (BitVec 8))

/-- A byte of a packet is stored. -/
def loadByte (s : Load) (byte : BitVec 8) : Load where
  ram := Function.update s.ram (real (seg + s.i) (ptr + .ofNat 16 s.len)) byte
  len := s.len + 1
  i := .ofNat 16 ((s.len + 1) / 0x10000)

theorem len_foldl_loadByte (bytes : List (BitVec 8)) (s : Load) :
    (bytes.foldl (loadByte seg ptr) s).len = s.len + bytes.length := by
  induction bytes generalizing s with
  | nil => rfl
  | cons byte bytes ih =>
    rw [List.foldl_cons, ih, List.length_cons]
    exact Nat.add_right_comm s.len 1 bytes.length

/-- The packets of a file. -/
def load (s : Load) : Load :=
  if s.len < file.length then load (((file.drop s.len).take packet).foldl (loadByte seg ptr) s) else s
termination_by file.length - s.len
decreasing_by
  rw [len_foldl_loadByte, List.length_take, List.length_drop]
  have : packet = 32 := rfl
  omega

def l (regs : SegmentRegs) (args : List Arg) (s : Session) : Scan Session := do
  fileAddress regs args
  let r ← get
  if r.nErrPos ≠ 0 then return s
  else
    let loaded := load r.seg r.ptr file { ram := s.ram }
    return { ram := loaded.ram
             ecx := setWord s.ecx (.ofNat 16 (loaded.len % 0x10000))
             ebx := setWord s.ebx (.ofNat 16 (loaded.len / 0x10000)) }

/-! ## Writing -/

/-- The packets of a range, after what is written. -/
def write (ram : Ram) (len i : ℕ) (written : List (BitVec 8)) : List (BitVec 8) :=
  if i < len then
    let count := min packet (len - i)
    write ram len (i + count)
      (written ++ (List.range count).map fun index => ram (inSegment seg ptr (i + index)))
  else written
termination_by len - i
decreasing_by
  have : packet = 32 := rfl
  omega

/-- `w`: the file, if there is no error. -/
def w (regs : SegmentRegs) (args : List Arg) (s : Session) : Scan (Option (List (BitVec 8))) := do
  fileAddress regs args
  let r ← get
  if r.nErrPos ≠ 0 then return none
  else
    let bx := s.ebx.setWidth 16
    let cx := s.ecx.setWidth 16
    return some (write r.seg r.ptr s.ram (bx.setWidth 32 <<< 16 + cx.setWidth 32).toNat 0 [])

/-! ## What is loaded -/

/-- Packets are of no account. -/
theorem load_eq_foldl (s : Load) : load seg ptr file s = (file.drop s.len).foldl (loadByte seg ptr) s := by
  fun_induction load seg ptr file s with
  | case1 s hmore ih =>
    have hrest : (file.drop s.len).drop ((file.drop s.len).take packet).length = (file.drop s.len).drop packet := by
      rw [List.length_take, List.drop_eq_drop_iff]
      omega
    rw [ih, len_foldl_loadByte, ← List.drop_drop, ← List.foldl_append, hrest, List.take_append_drop]
  | case2 s hend => rw [List.drop_eq_nil_of_le (Nat.not_lt.mp hend), List.foldl_nil]

/-- Where a byte of a file is loaded. -/
def loadPlace (k : ℕ) : BitVec 32 := real (seg + .ofNat 16 (k / 0x10000)) (ptr + .ofNat 16 k)

/-- So many bytes are loaded. -/
theorem foldl_loadByte_take (ram : Ram) {n : ℕ} (hn : n ≤ file.length) :
    (file.take n).foldl (loadByte seg ptr) { ram } =
      { ram := filled (loadPlace seg ptr) n file ram, len := n, i := .ofNat 16 (n / 0x10000) } := by
  induction n with
  | zero => rfl
  | succ n ih =>
    have hlt : n < file.length := hn
    rw [List.take_succ_eq_append_getElem hlt, List.foldl_append, ih (Nat.le_of_succ_le hn), filled_succ,
      Nat.mod_eq_of_lt hlt, List.getD_eq_getElem?_getD, List.getElem?_eq_getElem hlt]
    rfl

theorem load_eq_filled (ram : Ram) :
    load seg ptr file { ram } =
      { ram := filled (loadPlace seg ptr) file.length file ram, len := file.length,
        i := .ofNat 16 (file.length / 0x10000) } := by
  rw [load_eq_foldl, ← foldl_loadByte_take seg ptr file ram (Nat.le_refl _), List.take_length]
  rfl

/-! ## What is written -/

theorem write_eq_map (ram : Ram) {len i : ℕ} (hi : i ≤ len) (written : List (BitVec 8)) :
    write seg ptr ram len i written =
      written ++ (List.range (len - i)).map fun k => ram (inSegment seg ptr (i + k)) := by
  fun_induction write seg ptr ram len i written with
  | case1 i written hmore count ih =>
    have hcount : i + count ≤ len := by omega
    have hsplit : len - i = count + (len - (i + count)) := by omega
    rw [ih hcount, hsplit, List.range_add, List.map_append, List.map_map, List.append_assoc]
    simp only [Function.comp_def, Nat.add_assoc]
  | case2 i written hend =>
    rw [Nat.sub_eq_zero_of_le (Nat.not_lt.mp hend)]
    exact (List.append_nil written).symm

/-- A length is what the registers say. -/
theorem setWord_low (reg : BitVec 32) (value : BitVec 16) : (setWord reg value).setWidth 16 = value := by
  have hmask : (0xffff0000 : BitVec 32).setWidth 16 = 0#16 := by decide
  rw [setWord, BitVec.setWidth_or, BitVec.setWidth_and, hmask, BitVec.and_zero, BitVec.zero_or,
    BitVec.setWidth_setWidth_of_le _ (by decide), BitVec.setWidth_eq]

theorem words_toNat {n : ℕ} (hn : n < 2 ^ 32) :
    ((BitVec.ofNat 16 (n / 0x10000)).setWidth 32 <<< 16 + (BitVec.ofNat 16 (n % 0x10000)).setWidth 32).toNat = n := by
  simp only [BitVec.toNat_add, BitVec.toNat_shiftLeft, BitVec.toNat_setWidth, BitVec.toNat_ofNat, Nat.shiftLeft_eq]
  omega

/-! ## A file loaded and written -/

variable {seg ptr} {file}

/-- Arguments that give an address. -/
def Addresses (regs : SegmentRegs) (args : List Arg) (seg ptr : BitVec 16) : Prop :=
  ∀ r : Reading, r.nErrPos = 0 → (fileAddress regs args r).2 = ⟨0, seg, ptr⟩

theorem addresses_default (regs : SegmentRegs) (arg0 : Arg) : Addresses regs [arg0] regs.cs 0x100 := by
  rintro ⟨_, _, _⟩ rfl
  rfl

/-- A file that is loaded is where it should be, and if it is written it is the same. -/
def Reproduces (regs : SegmentRegs) (args args' : List Arg) (seg ptr : BitVec 16) (file : List (BitVec 8)) : Prop :=
  ∀ (s : Session) (r r' : Reading), r.nErrPos = 0 → r'.nErrPos = 0 →
    let loaded := (l file regs args s r).1
    (w regs args' loaded r').1 = some file ∧
      ∀ k (hk : k < file.length), loaded.ram (real seg ptr + .ofNat 32 k) = file[k]

/-- The address is known. -/
theorem Addresses.run {α : Type} {regs : SegmentRegs} {args : List Arg} (h : Addresses regs args seg ptr)
    (g : Reading → Scan α) {r : Reading} (hr : r.nErrPos = 0) :
    ((do fileAddress regs args; g (← get)) r).1 = (g ⟨0, seg, ptr⟩ ⟨0, seg, ptr⟩).1 := by
  change (g (fileAddress regs args r).2 (fileAddress regs args r).2).1 = _
  rw [h r hr]

theorem l_eq {regs : SegmentRegs} {args : List Arg} (h : Addresses regs args seg ptr) (s : Session) {r : Reading}
    (hr : r.nErrPos = 0) :
    (l file regs args s r).1 =
      { ram := filled (loadPlace seg ptr) file.length file s.ram
        ecx := setWord s.ecx (.ofNat 16 (file.length % 0x10000))
        ebx := setWord s.ebx (.ofNat 16 (file.length / 0x10000)) } := by
  refine (h.run _ hr).trans ?_
  simp only [ne_eq, not_true, if_false, load_eq_filled]
  rfl

theorem w_eq {regs : SegmentRegs} {args : List Arg} (h : Addresses regs args seg ptr) {s : Session} {n : ℕ}
    (hn : n < 2 ^ 32) (hcx : s.ecx.setWidth 16 = .ofNat 16 (n % 0x10000))
    (hbx : s.ebx.setWidth 16 = .ofNat 16 (n / 0x10000)) {r : Reading} (hr : r.nErrPos = 0) :
    (w regs args s r).1 = some ((List.range n).map fun k => s.ram (inSegment seg ptr k)) := by
  refine (h.run _ hr).trans ?_
  simp only [ne_eq, not_true, if_false, hcx, hbx, words_toNat hn]
  refine congrArg some ((write_eq_map seg ptr s.ram (Nat.zero_le n) []).trans ?_)
  simp only [List.nil_append, Nat.sub_zero, Nat.zero_add]

/-! ## Where it is loaded -/

theorem loadPlace_toNat (seg ptr : BitVec 16) (k : ℕ) :
    (loadPlace seg ptr k).toNat = (seg.toNat + k / 0x10000) % 0x10000 * 16 + (ptr.toNat + k) % 0x10000 := by
  rw [loadPlace, real_toNat, offset_toNat, offset_toNat]

theorem place_toNat {seg ptr : BitVec 16} {k : ℕ} (hk : (real seg ptr).toNat + k < 2 ^ 32) :
    (real seg ptr + .ofNat 32 k).toNat = (real seg ptr).toNat + k := by
  simp only [BitVec.toNat_add, BitVec.toNat_ofNat]
  omega

/-- A file that ends in its segment is loaded where it should be. -/
theorem loadPlace_of_le {k : ℕ} (hk : ptr.toNat + k < 0x10000) :
    loadPlace seg ptr k = real seg ptr + .ofNat 32 k ∧ inSegment seg ptr k = real seg ptr + .ofNat 32 k := by
  have hseg := seg.isLt
  have hreal := real_toNat seg ptr
  have hplace := @place_toNat seg ptr k (by omega)
  constructor <;> apply BitVec.eq_of_toNat_eq
  · rw [loadPlace_toNat, hplace]
    omega
  · rw [inSegment_toNat, hplace]
    omega

/-- One that does not leaves a place out: its last, if it is above all of them, or the first after the segment. -/
theorem exists_unloaded {n : ℕ} (hfits : (real seg ptr).toNat + n ≤ 0x10fff0) (hlong : 0x10000 < ptr.toNat + n) :
    ∃ k < n, ∀ i < n, loadPlace seg ptr i ≠ real seg ptr + .ofNat 32 k := by
  have hseg := seg.isLt
  have hptr := ptr.isLt
  have hreal := real_toNat seg ptr
  by_cases hlast : 0x10000 + (n - 1) / 0x10000 * 16 < ptr.toNat + n
  · refine ⟨n - 1, by omega, fun i hi => toNat_ne ?_⟩
    have hi' : i / 0x10000 ≤ (n - 1) / 0x10000 := Nat.div_le_div_right (by omega)
    have hsegment : (seg.toNat + i / 0x10000) % 0x10000 ≤ seg.toNat + i / 0x10000 := Nat.mod_le _ _
    have hoffset : (ptr.toNat + i) % 0x10000 < 0x10000 := Nat.mod_lt _ (by decide)
    rw [loadPlace_toNat, place_toNat (by omega)]
    generalize (n - 1) / 0x10000 = q at hlast hi'
    generalize (seg.toNat + i / 0x10000) % 0x10000 = s at hsegment ⊢
    generalize (ptr.toNat + i) % 0x10000 = o at hoffset ⊢
    omega
  · -- Not many bytes are in a second segment.
    have hn : 0x10000 < n ∧ ptr.toNat + n ≤ 0x10010 := by omega
    refine ⟨0x10000 - ptr.toNat, by omega, fun i hi => toNat_ne ?_⟩
    rw [loadPlace_toNat, place_toNat (by omega)]
    by_cases hfirst : i < 0x10000
    · omega
    · have hi' : i / 0x10000 = 1 := by omega
      rw [hi']
      omega

/-! ## When it is the same -/

/-- No byte is its complement. -/
theorem not_ne_self (b : BitVec 8) : ~~~b ≠ b := by
  intro h
  have := congrArg BitVec.toNat h
  rw [BitVec.toNat_not] at this
  have := b.isLt
  omega

/-- **A file is reproduced** exactly if it ends in the segment that it starts in. -/
theorem reproduces_iff {regs : SegmentRegs} {args args' : List Arg} (hl : Addresses regs args seg ptr)
    (hw : Addresses regs args' seg ptr) (hfits : (real seg ptr).toNat + file.length ≤ 0x10fff0) :
    Reproduces regs args args' seg ptr file ↔ ptr.toNat + file.length ≤ 0x10000 := by
  constructor
  · intro h
    by_contra hlong
    obtain ⟨k, hk, hunloaded⟩ := exists_unloaded hfits (Nat.not_le.mp hlong)
    have hbyte := (h ⟨fun _ => ~~~file[k], 0, 0⟩ {} {} rfl rfl).2 k hk
    rw [l_eq hl _ rfl] at hbyte
    exact not_ne_self file[k] ((filled_of_ne hunloaded file _).symm.trans hbyte)
  · intro hends s r r' hr hr'
    have hplace {k : ℕ} (hk : k < file.length) := @loadPlace_of_le seg ptr k (by omega)
    have hreal := real_toNat seg ptr
    have hapart : Apart (loadPlace seg ptr) file.length := by
      intro i hi j hj heq
      have := congrArg BitVec.toNat heq
      rw [(hplace hi).1, (hplace hj).1, place_toNat (by omega), place_toNat (by omega)] at this
      omega
    have hbyte {k : ℕ} (hk : k < file.length) :
        filled (loadPlace seg ptr) file.length file s.ram (real seg ptr + .ofNat 32 k) = file[k] := by
      rw [← (hplace hk).1, (filled_exact hapart file s.ram).1 k hk, Nat.mod_eq_of_lt hk,
        List.getD_eq_getElem?_getD, List.getElem?_eq_getElem hk, Option.getD_some]
    rw [l_eq hl s hr]
    refine ⟨?_, fun k hk => hbyte hk⟩
    rw [w_eq hw (by omega) (setWord_low _ _) (setWord_low _ _) hr']
    refine congrArg some (List.ext_getElem (by simp) fun k hk hk' => ?_)
    rw [List.getElem_map, List.getElem_range, (hplace hk').2]
    exact hbyte hk'

theorem reproduces_plain :
    Reproduces ⟨0, 0, 0, 0⟩ [⟨0, [ch 'l']⟩] [⟨0, [ch 'w']⟩] 0 0x100 [1, 2, 3] ↔ 0x100 + 3 ≤ 0x10000 :=
  reproduces_iff (addresses_default _ _) (addresses_default _ _) (by decide)

/-- The second byte of a file is stored at the start of the segment. -/
theorem load_wrapped :
    Addresses ⟨0, 0, 0, 0⟩ [⟨0, [ch 'l']⟩, ⟨2, "ffff".toList.map ch⟩] 0 0xffff ∧
      (real 0 0xffff).toNat + [1, 2].length ≤ 0x10fff0 ∧
      ¬Reproduces ⟨0, 0, 0, 0⟩ [⟨0, [ch 'l']⟩, ⟨2, "ffff".toList.map ch⟩] [⟨0, [ch 'w']⟩, ⟨2, "ffff".toList.map ch⟩]
        0 0xffff [1, 2] := by
  have hl : Addresses ⟨0, 0, 0, 0⟩ [⟨0, [ch 'l']⟩, ⟨2, "ffff".toList.map ch⟩] 0 0xffff := by
    rintro ⟨_, _, _⟩ rfl
    rfl
  refine ⟨hl, by decide, fun h => ?_⟩
  have hbyte := (h ⟨fun _ => 0, 0, 0⟩ {} {} rfl rfl).2 1 (by decide)
  rw [l_eq hl _ rfl] at hbyte
  exact absurd hbyte (by decide)

end SoftPC.X86Debug
