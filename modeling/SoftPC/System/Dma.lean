import Mathlib.Data.BitVec
import Mathlib.Data.List.GetD
import SoftPC.Machinery.Placed

/-!
# System/Dma — requests of a DMA channel

    device ──dma_request(buffer, length)──▸ channel: page, offset, count ──do_transfer──▸ memory

`dma_request` and `dma_enquire` of `base/system/at_dma.c`, for a channel of bytes (0–3).  Memory is plain.  The
offset wraps within the page, where a request is split: the units that a request moves follow each other from
the offset on (`units_eq`), and no two are at one place for as long as the count lasts (`unit_inj`).
-/

namespace SoftPC.Dma

abbrev Byte := BitVec 8

abbrev SysAddr := BitVec 32

abbrev Memory := SysAddr → Byte

/-- `DMA_VERIFY_TRANSFER`, `DMA_WRITE_TRANSFER` and `DMA_READ_TRANSFER`; 3 is illegal. -/
inductive TransferType where
  | verify | write | read | illegal
  deriving DecidableEq

/-- A channel, with what its controller has of it. -/
structure Channel where
  controllerDisable : Bool := false
  /-- Its bit in `mask`. -/
  masked : Bool := false
  transferType : TransferType
  addressDec : Bool := false
  autoInit : Bool := false
  page : BitVec 8 := 0
  currentAddress : BitVec 16
  currentCount : BitVec 16
  baseAddress : BitVec 16 := 0
  baseCount : BitVec 16 := 0
  /-- Its bits in `status`. -/
  terminalCount : Bool := false
  request : Bool := false
  deriving DecidableEq

/-- What a device moves to or from: its first bytes are at 0. -/
abbrev Buffer := ℕ → Byte

namespace Channel

variable (dma : Channel)

/-- `dma_system_address`. -/
def systemAddress (offset : BitVec 16) : SysAddr := dma.page.setWidth 32 <<< 16 ||| offset.setWidth 32

/-- The addresses that `do_transfer` goes through. -/
def run (address : SysAddr) (length : ℕ) : List SysAddr :=
  (List.range length).map fun i => if dma.addressDec then address - .ofNat 32 i else address + .ofNat 32 i

/-- The addresses of the units of a request, which is split where the offset wraps. -/
def units (munch : ℕ) : List SysAddr :=
  let offset := dma.currentAddress
  let address := dma.systemAddress offset
  if dma.addressDec = false then
    if offset.toNat + munch > 0x10000 then
      let first := 0x10000 - offset.toNat
      dma.run address first ++ dma.run (dma.systemAddress 0) (munch - first)
    else dma.run address munch
  else if offset.toNat + 1 < munch then
    let first := offset.toNat + 1
    dma.run address first ++ dma.run (dma.systemAddress 0xffff) (munch - first)
  else dma.run address munch

/-- `dma_enquire`: the count. -/
def enquire : BitVec 16 := dma.currentCount

/-- Requests are taken. -/
def enabled : Bool := !dma.controllerDisable && !dma.masked

/-- The units that a request for so many moves. -/
def munch (length : ℕ) : ℕ := min (dma.currentCount.toNat + 1) length

/-- The registers after a request. -/
def advanced (munch : ℕ) : Channel :=
  let offset := if dma.addressDec then dma.currentAddress - .ofNat 16 munch else dma.currentAddress + .ofNat 16 munch
  let count := dma.currentCount - .ofNat 16 munch
  let dma := { dma with currentAddress := offset, currentCount := count }
  if count = 0xffff then
    let dma := { dma with terminalCount := true, request := false }
    if dma.autoInit then { dma with currentCount := dma.baseCount, currentAddress := dma.baseAddress }
    else { dma with masked := true }
  else dma

/-- `dma_request`, of as many units: the channel, memory and the buffer after it. -/
def dmaRequest (memory : Memory) (buffer : Buffer) (length : ℕ) : Channel × Memory × Buffer :=
  if dma.enabled then
    let munch := dma.munch length
    let units := dma.units munch
    match dma.transferType with
    | .write => (dma.advanced munch, scatter (units.zip ((List.range munch).map buffer)).reverse memory, buffer)
    | .read => (dma.advanced munch, memory, fun i => if i < munch then memory (units.getD i 0) else buffer i)
    | .verify | .illegal => (dma.advanced munch, memory, buffer)
  else (dma, memory, buffer)

/-! ## The units of a request -/

/-- The offset of a unit. -/
def offsetOf (i : ℕ) : BitVec 16 :=
  if dma.addressDec then dma.currentAddress - .ofNat 16 i else dma.currentAddress + .ofNat 16 i

/-- Its address. -/
def unit (i : ℕ) : SysAddr := dma.systemAddress (dma.offsetOf i)

variable {dma}

theorem toNat_systemAddress (offset : BitVec 16) :
    (dma.systemAddress offset).toNat = dma.page.toNat * 65536 + offset.toNat := by
  have hpage := dma.page.isLt
  have hoffset := offset.isLt
  have hshift : (dma.page.setWidth 32 <<< 16 : BitVec 32).toNat = dma.page.toNat <<< 16 := by
    rw [BitVec.toNat_shiftLeft, BitVec.toNat_setWidth, Nat.shiftLeft_eq]
    omega
  unfold systemAddress
  rw [BitVec.toNat_or, hshift, BitVec.toNat_setWidth, Nat.mod_eq_of_lt (by omega),
    ← Nat.shiftLeft_add_eq_or_of_lt hoffset, Nat.shiftLeft_eq]

/-- Within a page the addresses follow the offsets. -/
theorem run_eq {offset : BitVec 16} {length : ℕ}
    (h : if dma.addressDec then length ≤ offset.toNat + 1 else offset.toNat + length ≤ 0x10000) :
    dma.run (dma.systemAddress offset) length = (List.range length).map fun i =>
      dma.systemAddress (if dma.addressDec then offset - .ofNat 16 i else offset + .ofNat 16 i) := by
  refine List.map_congr_left fun i hi => ?_
  have hi := List.mem_range.mp hi
  have hpage := dma.page.isLt
  have hoffset := offset.isLt
  apply BitVec.eq_of_toNat_eq
  by_cases hdec : dma.addressDec
  · rw [if_pos hdec] at h
    rw [if_pos hdec, if_pos hdec, toNat_systemAddress, BitVec.toNat_sub, toNat_systemAddress, BitVec.toNat_sub,
      BitVec.toNat_ofNat, BitVec.toNat_ofNat]
    omega
  · rw [if_neg hdec] at h
    rw [if_neg hdec, if_neg hdec, toNat_systemAddress, BitVec.toNat_add, toNat_systemAddress, BitVec.toNat_add,
      BitVec.toNat_ofNat, BitVec.toNat_ofNat]
    omega

/-- A run that starts `first` units on. -/
theorem run_unit {offset : BitVec 16} {first length : ℕ} (hoffset : dma.offsetOf first = offset)
    (h : if dma.addressDec then length ≤ offset.toNat + 1 else offset.toNat + length ≤ 0x10000) :
    dma.run (dma.systemAddress offset) length = (List.range length).map fun i => dma.unit (first + i) := by
  rw [run_eq h]
  refine List.map_congr_left fun i _ => ?_
  unfold unit offsetOf at *
  rw [← hoffset, BitVec.ofNat_add]
  by_cases hdec : dma.addressDec
  · rw [if_pos hdec, if_pos hdec, if_pos hdec, BitVec.sub_sub]
  · rw [if_neg hdec, if_neg hdec, if_neg hdec, BitVec.add_assoc]

theorem offsetOf_zero : dma.offsetOf 0 = dma.currentAddress := by
  unfold offsetOf
  split
  · exact BitVec.sub_zero _
  · exact BitVec.add_zero _

/-- **The units of a request follow each other**, wrapping within the page. -/
theorem units_eq {munch : ℕ} (hmunch : munch ≤ 0x10000) : dma.units munch = (List.range munch).map dma.unit := by
  have hoffset := dma.currentAddress.isLt
  have hwhole (h : if dma.addressDec then munch ≤ dma.currentAddress.toNat + 1
      else dma.currentAddress.toNat + munch ≤ 0x10000) :
      dma.run (dma.systemAddress dma.currentAddress) munch = (List.range munch).map dma.unit := by
    rw [run_unit offsetOf_zero h]
    simp only [Nat.zero_add]
  have hsplit {first : ℕ} {next : BitVec 16} (hfirst : first ≤ munch) (hnext : dma.offsetOf first = next)
      (h : if dma.addressDec then first ≤ dma.currentAddress.toNat + 1
        else dma.currentAddress.toNat + first ≤ 0x10000)
      (h' : if dma.addressDec then munch - first ≤ next.toNat + 1 else next.toNat + (munch - first) ≤ 0x10000) :
      dma.run (dma.systemAddress dma.currentAddress) first ++ dma.run (dma.systemAddress next) (munch - first) =
        (List.range munch).map dma.unit := by
    rw [run_unit offsetOf_zero h, run_unit hnext h']
    obtain ⟨rest, rfl⟩ := Nat.exists_eq_add_of_le hfirst
    rw [Nat.add_sub_cancel_left, List.range_add, List.map_append, List.map_map]
    simp only [Nat.zero_add]
    rfl
  unfold units
  by_cases hdec : dma.addressDec
  · rw [if_neg (by simp [hdec])]
    simp only [hdec, if_true] at hwhole hsplit
    split
    · refine hsplit (by omega) ?_ le_rfl ?_
      · unfold offsetOf
        rw [if_pos hdec]
        apply BitVec.eq_of_toNat_eq
        rw [BitVec.toNat_sub, BitVec.toNat_ofNat]
        change _ = 0xffff
        omega
      · change munch - _ ≤ 0xffff + 1
        omega
    · exact hwhole (by omega)
  · rw [if_pos (by simpa using hdec)]
    simp only [hdec, Bool.false_eq_true, if_false] at hwhole hsplit
    split
    · refine hsplit (by omega) ?_ (by omega) ?_
      · unfold offsetOf
        rw [if_neg hdec]
        apply BitVec.eq_of_toNat_eq
        rw [BitVec.toNat_add, BitVec.toNat_ofNat]
        change _ = 0
        omega
      · change 0 + (munch - _) ≤ 0x10000
        omega
    · exact hwhole (by omega)

/-- No two units are at one place. -/
theorem unit_inj {i j : ℕ} (hi : i < 0x10000) (hj : j < 0x10000) (h : dma.unit i = dma.unit j) : i = j := by
  have hoffset := dma.currentAddress.isLt
  have haddress := congrArg BitVec.toNat h
  unfold unit offsetOf at haddress
  rw [toNat_systemAddress, toNat_systemAddress] at haddress
  by_cases hdec : dma.addressDec
  · rw [if_pos hdec, if_pos hdec, BitVec.toNat_sub, BitVec.toNat_sub, BitVec.toNat_ofNat, BitVec.toNat_ofNat] at haddress
    omega
  · rw [if_neg hdec, if_neg hdec, BitVec.toNat_add, BitVec.toNat_add, BitVec.toNat_ofNat, BitVec.toNat_ofNat] at haddress
    omega

/-! ## Requests -/

theorem munch_le (length : ℕ) : dma.munch length ≤ 0x10000 := by
  have := dma.currentCount.isLt
  unfold munch
  omega

/-- A request that the count outlasts. -/
theorem advanced_of_lt {munch : ℕ} (hpos : 0 < munch) (h : munch ≤ dma.currentCount.toNat) : dma.advanced munch =
    { dma with currentAddress := dma.offsetOf munch, currentCount := dma.currentCount - .ofNat 16 munch } := by
  have hcount := dma.currentCount.isLt
  have hlast : dma.currentCount - .ofNat 16 munch ≠ 0xffff := by
    intro heq
    have heq := congrArg BitVec.toNat heq
    rw [BitVec.toNat_sub, BitVec.toNat_ofNat] at heq
    change _ = 0xffff at heq
    omega
  unfold advanced
  exact if_neg hlast

theorem toNat_count_sub {munch : ℕ} (h : munch ≤ dma.currentCount.toNat) :
    (dma.currentCount - .ofNat 16 munch).toNat = dma.currentCount.toNat - munch := by
  have hcount := dma.currentCount.isLt
  rw [BitVec.toNat_sub, BitVec.toNat_ofNat]
  omega

/-- …goes on from its end. -/
theorem unit_advanced {munch : ℕ} (hpos : 0 < munch) (h : munch ≤ dma.currentCount.toNat) (k : ℕ) :
    (dma.advanced munch).unit k = dma.unit (munch + k) := by
  rw [advanced_of_lt hpos h]
  unfold unit offsetOf systemAddress
  dsimp only
  rw [BitVec.ofNat_add]
  by_cases hdec : dma.addressDec
  · rw [if_pos hdec, if_pos hdec, if_pos hdec, BitVec.sub_sub]
  · rw [if_neg hdec, if_neg hdec, if_neg hdec, BitVec.add_assoc]

section

variable {memory : Memory} {buffer : Buffer} {length : ℕ}

variable (memory buffer length) in
/-- A request of a device that is read. -/
theorem dmaRequest_write (henabled : dma.enabled) (htype : dma.transferType = .write) :
    ∃ memory', dma.dmaRequest memory buffer length = (dma.advanced (dma.munch length), memory', buffer) ∧
      Placed (dma.munch length) dma.unit buffer memory memory' := by
  have hinj : ∀ i < dma.munch length, ∀ j < dma.munch length, dma.unit i = dma.unit j → i = j := fun i hi j hj =>
    unit_inj (hi.trans_le (munch_le length)) (hj.trans_le (munch_le length))
  refine ⟨_, ?_, Placed.of_scatter hinj memory⟩
  unfold dmaRequest
  rw [if_pos henabled, htype]
  dsimp only
  rw [units_eq (munch_le length), scatter_reverse]
  rw [List.map_fst_zip (by rw [List.length_map, List.length_map])]
  exact List.nodup_range.map_on fun i hi j hj => hinj i (List.mem_range.mp hi) j (List.mem_range.mp hj)

/-- …and of one that is written. -/
theorem dmaRequest_read (henabled : dma.enabled) (htype : dma.transferType = .read) :
    dma.dmaRequest memory buffer length = (dma.advanced (dma.munch length), memory,
      fun i => if i < dma.munch length then memory (dma.unit i) else buffer i) := by
  unfold dmaRequest
  rw [if_pos henabled, htype]
  dsimp only
  rw [units_eq (munch_le length)]
  congr 2
  funext i
  by_cases hi : i < dma.munch length
  · rw [if_pos hi, if_pos hi, List.getD_eq_getElem _ _ (by rwa [List.length_map, List.length_range]), List.getElem_map,
      List.getElem_range]
  · rw [if_neg hi, if_neg hi]

end

end Channel

end SoftPC.Dma
