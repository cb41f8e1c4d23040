import SoftPC.Ccpu.Page
import SoftPC.Machinery.Scatter

/-!
# Ccpu/PageRun — runs of bytes and their pages

    usr_chk ──phy──▸ vir_read_bytes, vir_write_bytes: phy + i,  or (phy = 0) the page of la + i

Plain memory is read and written byte by byte at the places that a checked address leads to (`Leads`).  These
are the places of the bytes themselves if there is paging at most within one page, or the check has seen the
next page, or the next page has the next frame (`usrPlaces_eq_iff`).
-/

namespace SoftPC

variable {α β ε : Type*}

theorem mapM_error {f : α → Except ε β} {l l' : List α} {x : α} {e : ε} {g : α → β} (hl : ∀ y ∈ l, f y = .ok (g y))
    (hx : f x = .error e) : (l ++ x :: l').mapM f = .error e := by
  induction l with
  | nil =>
    rw [List.nil_append, List.mapM_cons, hx]
    rfl
  | cons y l ih =>
    rw [List.cons_append, List.mapM_cons, hl y List.mem_cons_self, ih fun z hz => hl z (List.mem_cons_of_mem y hz)]
    rfl

theorem mapM_ok {f : α → Except ε β} {l : List α} {g : α → β} (hl : ∀ y ∈ l, f y = .ok (g y)) :
    l.mapM f = .ok (l.map g) := by
  induction l with
  | nil => rfl
  | cons y l ih =>
    rw [List.mapM_cons, hl y List.mem_cons_self, ih fun z hz => hl z (List.mem_cons_of_mem y hz)]
    rfl

theorem of_mapM_ok {f : α → Except ε β} {l : List α} {r : List β} (h : l.mapM f = .ok r) : ∀ x ∈ l, ∃ b, f x = .ok b := by
  induction l generalizing r with
  | nil => simp
  | cons y l ih =>
    rw [List.mapM_cons] at h
    cases hy : f y with
    | error e =>
      rw [hy] at h
      cases h
    | ok b =>
      rw [hy] at h
      cases hl : l.mapM f with
      | error e =>
        rw [hl] at h
        cases h
      | ok r' => exact List.forall_mem_cons.mpr ⟨⟨b, hy⟩, ih hl⟩

theorem of_mapM_error {f : α → Except ε β} {l : List α} {e : ε} (h : l.mapM f = .error e) : ∃ x ∈ l, f x = .error e := by
  by_contra hall
  push Not at hall
  induction l with
  | nil => cases h
  | cons y l ih =>
    rw [List.mapM_cons] at h
    cases hy : f y with
    | error e' =>
      rw [hy] at h
      have heq : e' = e := Except.error.inj h
      exact hall y List.mem_cons_self (heq ▸ hy)
    | ok b =>
      rw [hy] at h
      cases hl : l.mapM f with
      | error e' =>
        rw [hl] at h
        have heq : e' = e := Except.error.inj h
        exact ih (heq ▸ hl) fun x hx => hall x (List.mem_cons_of_mem y hx)
      | ok r' =>
        rw [hl] at h
        cases h

namespace Ccpu

/-! ## Runs of bytes -/

/-- What is stored goes to the addresses that follow. -/
theorem Ram.store_eq (ram : Ram) (a : Word) (l : List (BitVec 8)) :
    ram.store a l = scatter (((List.range l.length).map fun i => a + .ofNat 32 i).zip l).reverse ram := by
  induction l generalizing a ram with
  | nil => rfl
  | cons b l ih =>
    have hshift : (fun i => a + 1 + BitVec.ofNat 32 i) = (fun i => a + BitVec.ofNat 32 i) ∘ Nat.succ := by
      funext i
      rw [Function.comp_apply, Nat.succ_eq_add_one, Nat.add_comm, BitVec.ofNat_add, BitVec.add_assoc]
      rfl
    have ha : a = a + BitVec.ofNat 32 0 := (BitVec.add_zero a).symm
    rw [Ram.store, ih, hshift, List.length_cons, List.range_succ_eq_map, List.map_cons, List.map_map, List.zip_cons_cons,
      List.reverse_cons, scatter_append, scatter_cons, scatter_nil, ← ha]

namespace Paging

variable {p : Paging} {ram : Ram} {isWrite : Bool}

/-- Where the bytes from an address on are moved: after the physical address, if there is one. -/
def Leads (p : Paging) (la phy : Word) (isWrite : Bool) (n : ℕ) (q : ℕ → Word) : Prop :=
  ∀ i < n, if phy ≠ 0 then q i = phy + .ofNat 32 i else p.place (la + .ofNat 32 i) isWrite false = .ok (q i)

variable {la phy : Word} {n : ℕ} {q : ℕ → Word}

namespace Leads

theorem mono {m : ℕ} (h : Leads p la phy isWrite n q) (hm : m ≤ n) : Leads p la phy isWrite m q :=
  fun i hi => h i (by omega)

theorem readAt (h : Leads p la phy false n q) {i : ℕ} (hi : i < n) :
    p.virReadAt ramPhys la phy i ram = .ok (ram (q i)) ram := by
  have hq := h i hi
  unfold virReadAt
  by_cases hphy : phy ≠ 0
  · rw [if_pos hphy] at hq ⊢
    rw [hq]
    rfl
  · rw [if_neg hphy] at hq ⊢
    exact sprReadByte_at hq

theorem writeAt (h : Leads p la phy true n q) {i : ℕ} (hi : i < n) (v : BitVec 8) :
    p.virWriteAt ramPhys la phy i v ram = .ok ⟨⟩ (Function.update ram (q i) v) := by
  have hq := h i hi
  unfold virWriteAt
  by_cases hphy : phy ≠ 0
  · rw [if_pos hphy] at hq ⊢
    rw [hq]
    rfl
  · rw [if_neg hphy] at hq ⊢
    exact sprWriteByte_at hq v

/-- **A run is read**, the last byte first. -/
theorem read (h : Leads p la phy false n q) :
    p.virReadBytes ramPhys la phy n ram = .ok ((List.range n).map fun i => ram (q i)).reverse ram := by
  induction n with
  | zero => rfl
  | succ n ih =>
    have hrest := ih (h.mono n.le_succ)
    change EStateM.bind (p.virReadAt ramPhys la phy n) _ ram = _
    unfold EStateM.bind
    rw [h.readAt n.lt_succ_self]
    change EStateM.bind (p.virReadBytes ramPhys la phy n) _ ram = _
    unfold EStateM.bind
    rw [hrest, List.range_succ, List.map_append, List.reverse_append]
    rfl

/-- **A run is written**, the last byte first. -/
theorem write {data : List (BitVec 8)} (h : Leads p la phy true data.length q) :
    p.virWriteBytes ramPhys la phy data.reverse ram =
      .ok ⟨⟩ (scatter (((List.range data.length).map q).zip data) ram) := by
  induction data using List.reverseRecOn generalizing ram with
  | nil => rfl
  | append_singleton data b ih =>
    have hlength : (data ++ [b]).length = data.length + 1 := List.length_append
    rw [hlength] at h
    have hrest : p.virWriteBytes ramPhys la phy data.reverse (Function.update ram (q data.length) b) = _ :=
      ih (h.mono data.length.le_succ)
    rw [List.reverse_append, List.reverse_singleton, List.singleton_append, hlength, List.range_succ, List.map_append,
      List.zip_append (by rw [List.length_map, List.length_range]), scatter_append]
    change EStateM.bind (p.virWriteAt ramPhys la phy data.reverse.length b) _ ram = _
    unfold EStateM.bind
    rw [List.length_reverse, h.writeAt data.length.lt_succ_self]
    exact hrest

/-- Within a page the places follow each other. -/
theorem contiguous (h : Leads p la 0 isWrite n q) (hn : n ≤ 4096) (hpage : ¬(p.pg ∧ offsetIn la > 4096 - n)) {i : ℕ} (hi : i < n) :
    q i = q 0 + .ofNat 32 i := by
  have h0 : p.place la isWrite false = .ok (q 0) := by
    have := h 0 (by omega)
    rwa [if_neg (not_not.mpr rfl), BitVec.add_zero] at this
  have hq := h i hi
  rw [if_neg (not_not.mpr rfl)] at hq
  have hroom (hp : p.pg) : offsetIn la + i < 4096 := by
    have hlast : ¬offsetIn la > 4096 - n := fun h => hpage ⟨hp, h⟩
    omega
  exact Except.ok.inj (hq.symm.trans (place_add h0 hroom))

theorem follows (h : Leads p la 0 isWrite n q) (hn : n ≤ 4096) (hpage : ¬(p.pg ∧ offsetIn la > 4096 - n)) :
    (List.range n).map q = (List.range n).map fun i => q 0 + .ofNat 32 i :=
  List.map_congr_left fun _ hi => h.contiguous hn hpage (List.mem_range.mp hi)

theorem at_place (h : Leads p la 0 isWrite n q) {i : ℕ} (hi : i < n) :
    p.place (la + .ofNat 32 i) isWrite false = .ok (q i) := by
  have hq := h i hi
  rwa [if_neg (not_not.mpr rfl)] at hq

theorem at_start (h : Leads p la 0 isWrite n q) (hn : 0 < n) : p.place la isWrite false = .ok (q 0) := by
  have hq := h.at_place hn
  rwa [BitVec.add_zero] at hq

/-- A part of the run. -/
theorem drop {m k : ℕ} (h : Leads p la 0 isWrite n q) (hm : k + m ≤ n) :
    Leads p (la + .ofNat 32 k) 0 isWrite m fun i => q (k + i) := by
  intro i hi
  rw [if_neg (not_not.mpr rfl), BitVec.add_assoc, ← BitVec.ofNat_add]
  exact h.at_place (by omega)

theorem sprReadWord (h : Leads p la 0 false 2 q) : p.sprReadWord ramPhys la ram = .ok (ram (q 1) ++ ram (q 0)) ram :=
  sprReadWord_at (h.at_start (by omega)) (h.at_place (i := 1) (by omega))

theorem sprReadDword (h : Leads p la 0 false 4 q) :
    p.sprReadDword ramPhys la ram = .ok ((ram (q 3) ++ ram (q 2)) ++ (ram (q 1) ++ ram (q 0))) ram := by
  unfold Paging.sprReadDword
  by_cases hpage : p.pg ∧ offsetIn la > 0xffc
  · rw [if_pos hpage]
    have hlow : p.sprReadWord ramPhys la ram = _ := (h.mono (m := 2) (by omega)).sprReadWord
    have hhigh : p.sprReadWord ramPhys (la + .ofNat 32 2) ram = _ := (h.drop (m := 2) (k := 2) (by omega)).sprReadWord
    change EStateM.bind (p.sprReadWord ramPhys la) _ ram = _
    unfold EStateM.bind
    rw [hlow]
    change EStateM.bind (p.sprReadWord ramPhys (la + .ofNat 32 2)) _ ram = _
    unfold EStateM.bind
    rw [hhigh]
    rfl
  · rw [if_neg hpage]
    change EStateM.bind (p.mapped la (access false false)) _ ram = _
    unfold EStateM.bind
    rw [mapped_looks la false false, h.at_start (by omega), h.contiguous (by omega) hpage (i := 1) (by omega),
      h.contiguous (by omega) hpage (i := 2) (by omega), h.contiguous (by omega) hpage (i := 3) (by omega)]
    rfl

theorem sprWriteWord (h : Leads p la 0 true 2 q) (v : BitVec 16) :
    p.sprWriteWord ramPhys la v ram = .ok ⟨⟩ (scatter (((List.range 2).map q).zip (wordBytes v)).reverse ram) := by
  have hlow : p.sprWriteByte ramPhys la (v.setWidth 8) ram = _ := sprWriteByte_at (h.at_start (by omega)) _
  have hhigh : p.sprWriteByte ramPhys (la + 1) ((v >>> 8).setWidth 8) (Function.update ram (q 0) (v.setWidth 8)) = _ :=
    sprWriteByte_at (h.at_place (i := 1) (by omega)) _
  unfold Paging.sprWriteWord
  by_cases hpage : p.pg ∧ offsetIn la > 0xffe
  · rw [if_pos hpage]
    change EStateM.bind (p.sprWriteByte ramPhys la _) _ ram = _
    unfold EStateM.bind
    rw [hlow]
    exact hhigh
  · rw [if_neg hpage]
    change EStateM.bind (p.mapped la (access true false)) _ ram = _
    unfold EStateM.bind
    rw [mapped_looks la true false, h.at_start (by omega)]
    exact congrArg (EStateM.Result.ok _) ((Ram.store_eq ..).trans (h.follows (by omega) hpage ▸ rfl))

theorem sprWriteDword (h : Leads p la 0 true 4 q) (v : BitVec 32) :
    p.sprWriteDword ramPhys la v ram = .ok ⟨⟩ (scatter (((List.range 4).map q).zip (dwordBytes v)).reverse ram) := by
  unfold Paging.sprWriteDword
  by_cases hpage : p.pg ∧ offsetIn la > 0xffc
  · rw [if_pos hpage]
    have hlow : p.sprWriteWord ramPhys la (v.setWidth 16) ram = _ := (h.mono (m := 2) (by omega)).sprWriteWord _
    change EStateM.bind (p.sprWriteWord ramPhys la _) _ ram = _
    unfold EStateM.bind
    rw [hlow]
    exact (h.drop (m := 2) (k := 2) (by omega)).sprWriteWord ((v >>> 16).setWidth 16)
  · rw [if_neg hpage]
    change EStateM.bind (p.mapped la (access true false)) _ ram = _
    unfold EStateM.bind
    rw [mapped_looks la true false, h.at_start (by omega)]
    exact congrArg (EStateM.Result.ok _) ((Ram.store_eq ..).trans (h.follows (by omega) hpage ▸ rfl))

/-- The bytes follow the physical address, if there is one. -/
theorem after (h : Leads p la phy isWrite n q) (hphy : phy ≠ 0) {i : ℕ} (hi : i < n) : q i = phy + .ofNat 32 i := by
  have hq := h i hi
  rwa [if_pos hphy] at hq

theorem after_start (h : Leads p la phy isWrite n q) (hphy : phy ≠ 0) (hn : 0 < n) : q 0 = phy :=
  (h.after hphy hn).trans (BitVec.add_zero phy)

theorem map_after (h : Leads p la phy isWrite n q) (hphy : phy ≠ 0) :
    (List.range n).map q = (List.range n).map fun i => phy + .ofNat 32 i :=
  List.map_congr_left fun _ hi => h.after hphy (List.mem_range.mp hi)

/-- **A word is read** byte by byte. -/
theorem readWord (h : Leads p la phy false 2 q) :
    p.virRead ramPhys .word la phy ram = .ok (ram (q 1) ++ ram (q 0)) ram := by
  unfold virRead
  by_cases hphy : phy ≠ 0
  · rw [if_pos hphy, h.after_start hphy (by omega), h.after hphy (i := 1) (by omega)]
    rfl
  · rw [if_neg hphy]
    rw [not_not.mp hphy] at h
    exact h.sprReadWord

theorem readDword (h : Leads p la phy false 4 q) :
    p.virRead ramPhys .dword la phy ram = .ok ((ram (q 3) ++ ram (q 2)) ++ (ram (q 1) ++ ram (q 0))) ram := by
  unfold virRead
  by_cases hphy : phy ≠ 0
  · rw [if_pos hphy, h.after_start hphy (by omega), h.after hphy (i := 1) (by omega),
      h.after hphy (i := 2) (by omega), h.after hphy (i := 3) (by omega)]
    rfl
  · rw [if_neg hphy]
    rw [not_not.mp hphy] at h
    exact h.sprReadDword

/-- **A word is written** byte by byte. -/
theorem writeWord (h : Leads p la phy true 2 q) (v : BitVec 16) :
    p.virWrite ramPhys .word la phy v ram = .ok ⟨⟩ (scatter (((List.range 2).map q).zip (wordBytes v)).reverse ram) := by
  unfold virWrite
  by_cases hphy : phy ≠ 0
  · rw [if_pos hphy, h.map_after hphy]
    exact congrArg (EStateM.Result.ok _) (Ram.store_eq ..)
  · rw [if_neg hphy]
    rw [not_not.mp hphy] at h
    exact h.sprWriteWord v

theorem writeDword (h : Leads p la phy true 4 q) (v : BitVec 32) :
    p.virWrite ramPhys .dword la phy v ram =
      .ok ⟨⟩ (scatter (((List.range 4).map q).zip (dwordBytes v)).reverse ram) := by
  unfold virWrite
  by_cases hphy : phy ≠ 0
  · rw [if_pos hphy, h.map_after hphy]
    exact congrArg (EStateM.Result.ok _) (Ram.store_eq ..)
  · rw [if_neg hphy]
    rw [not_not.mp hphy] at h
    exact h.sprWriteDword v

end Leads

/-! ## Runs that are checked -/

/-- What `usrChk` comes to. -/
def usrPlace (p : Paging) (w : Width) (lin : Word) (isWrite : Bool) : Except Fault Word := do
  let phy ← p.place lin isWrite (p.cpl = 3)
  if p.pg ∧ offsetIn lin > lastOnPage w then
    let _ ← p.place (lin + .ofNat 32 (bytes w - 1)) isWrite (p.cpl = 3)
    return noPhysicalMapping
  else return phy

theorem usrChk_looks {M : Type} {m : M} (w : Width) (lin : Word) (isWrite : Bool) :
    Looks (p.usrChk w lin isWrite) m (p.usrPlace w lin isWrite) := by
  have hplace (hp : p.pg) (lin : Word) :
      Looks (p.lin2phy lin (access isWrite (p.cpl = 3))) m (p.place lin isWrite (p.cpl = 3)) := by
    have := mapped_looks (p := p) (m := m) lin isWrite (p.cpl = 3)
    rwa [mapped, if_pos hp] at this
  unfold usrChk usrPlace
  by_cases hp : p.pg
  · rw [if_pos hp]
    refine (hplace hp lin).bind fun phy _ => ?_
    by_cases hlast : offsetIn lin > lastOnPage w
    · rw [if_pos hlast, if_pos ⟨hp, hlast⟩]
      exact (hplace hp _).bind fun _ _ => .pure
    · rw [if_neg hlast, if_neg fun h => hlast h.2]
      exact .pure
  · rw [if_neg hp]
    unfold place
    rw [if_neg hp]
    change Looks _ _ (if p.pg ∧ _ then _ else _)
    rw [if_neg fun h => hp h.1]
    exact .pure

/-- Where each byte of a run is, the first that cannot be accessed faulting. -/
def places (p : Paging) (la : Word) (n : ℕ) (isWrite : Bool) : Except Fault (List Word) :=
  (List.range n).mapM fun i => p.place (la + .ofNat 32 i) isWrite (p.cpl = 3)

/-- Where the bytes of a run are moved once its address is checked. -/
def usrPlaces (p : Paging) (w : Width) (la : Word) (n : ℕ) (isWrite : Bool) : Except Fault (List Word) := do
  let phy ← p.usrPlace w la isWrite
  if phy ≠ 0 then return (List.range n).map fun i => phy + .ofNat 32 i else p.places la n isWrite

/-- The bytes before the next page. -/
def room (la : Word) : ℕ := 4096 - offsetIn la

variable {isUser : Bool} {w : Width} {a b : Word} {e : Fault}

theorem place_map (la : Word) (isWrite isUser : Bool) {i : ℕ} (hi : p.pg → offsetIn la + i < 4096) :
    p.place (la + .ofNat 32 i) isWrite isUser = (p.place la isWrite isUser).map (· + .ofNat 32 i) := by
  unfold place
  by_cases hp : p.pg
  · rw [if_pos hp, if_pos hp, p.translate_add _ (hi hp)]
  · rw [if_neg hp, if_neg hp]
    rfl

theorem offsetIn_lt (la : Word) : offsetIn la < 4096 := Nat.mod_lt _ (by decide)

/-- The next page begins there. -/
theorem offsetIn_room (la : Word) : offsetIn (la + .ofNat 32 (room la)) = 0 := by
  unfold room offsetIn
  rw [BitVec.toNat_add, BitVec.toNat_ofNat]
  omega

theorem place_beyond (la : Word) (isWrite isUser : Bool) {i : ℕ} (hi : room la ≤ i) (hi' : i < 4096) :
    p.place (la + .ofNat 32 i) isWrite isUser =
      (p.place (la + .ofNat 32 (room la)) isWrite isUser).map (· + .ofNat 32 (i - room la)) := by
  rw [← p.place_map _ isWrite isUser fun _ => by rw [offsetIn_room]; omega, BitVec.add_assoc, ← BitVec.ofNat_add,
    Nat.add_sub_cancel' hi]

/-! ### Own places -/

/-- A byte of a run, whose pages begin at two places. -/
def own (la a b : Word) (i : ℕ) : Word :=
  if i < room la then a + .ofNat 32 i else b + .ofNat 32 (i - room la)

theorem place_own_low (ha : p.place la isWrite isUser = .ok a) {i : ℕ} (hi : i < room la) (b : Word) :
    p.place (la + .ofNat 32 i) isWrite isUser = .ok (own la a b i) := by
  have := offsetIn_lt la
  rw [p.place_map _ isWrite isUser fun _ => by unfold room at hi; omega, ha, own, if_pos hi]
  rfl

theorem place_own (ha : p.place la isWrite isUser = .ok a)
    (hb : p.place (la + .ofNat 32 (room la)) isWrite isUser = .ok b) {i : ℕ} (hi : i < 4096) :
    p.place (la + .ofNat 32 i) isWrite isUser = .ok (own la a b i) := by
  by_cases hroom : i < room la
  · exact place_own_low ha hroom b
  · rw [place_beyond la isWrite isUser (by omega) hi, hb, own, if_neg hroom]
    rfl

theorem places_first (he : p.place la isWrite (p.cpl = 3) = .error e) (hn : 0 < n) : p.places la n isWrite = .error e := by
  obtain ⟨n, rfl⟩ := Nat.exists_eq_succ_of_ne_zero hn.ne'
  unfold places
  rw [List.range_succ_eq_map, List.mapM_cons, BitVec.add_zero, he]
  rfl

theorem places_within (ha : p.place la isWrite (p.cpl = 3) = .ok a) (hn : p.pg → n ≤ room la) :
    p.places la n isWrite = .ok ((List.range n).map fun i => a + .ofNat 32 i) :=
  mapM_ok fun i hi => by
    have hi := List.mem_range.mp hi
    rw [p.place_map _ isWrite _ fun hp => by have := hn hp; unfold room at this; omega, ha]
    rfl

theorem places_second (ha : p.place la isWrite (p.cpl = 3) = .ok a)
    (he : p.place (la + .ofNat 32 (room la)) isWrite (p.cpl = 3) = .error e) (hn : room la < n) :
    p.places la n isWrite = .error e := by
  obtain ⟨m, rfl⟩ : ∃ m, n = room la + (m + 1) := ⟨n - room la - 1, by omega⟩
  unfold places
  rw [List.range_add, List.range_succ_eq_map, List.map_cons]
  exact mapM_error (g := own la a a) (fun i hi => place_own_low ha (List.mem_range.mp hi) a) he

theorem places_both (ha : p.place la isWrite (p.cpl = 3) = .ok a)
    (hb : p.place (la + .ofNat 32 (room la)) isWrite (p.cpl = 3) = .ok b) (hn : n ≤ 4096) :
    p.places la n isWrite = .ok ((List.range n).map (own la a b)) :=
  mapM_ok fun i hi => by
    have hi := List.mem_range.mp hi
    exact place_own ha hb (by omega)

/-! ### The check -/

theorem lastOnPage_lt (w : Width) (la : Word) : offsetIn la > lastOnPage w ↔ room la < bytes w := by
  unfold room
  cases w <;> dsimp only [lastOnPage, bytes] <;> omega

theorem usrPlace_within (h : ¬(p.pg ∧ room la < bytes w)) : p.usrPlace w la isWrite = p.place la isWrite (p.cpl = 3) := by
  have hcheck : ¬(p.pg ∧ offsetIn la > lastOnPage w) := fun hc => h ⟨hc.1, (lastOnPage_lt w la).mp hc.2⟩
  unfold usrPlace
  cases p.place la isWrite (p.cpl = 3) with
  | error e => rfl
  | ok a => exact if_neg hcheck

theorem usrPlace_beyond (hp : p.pg) (h : room la < bytes w) (ha : p.place la isWrite (p.cpl = 3) = .ok a) :
    p.usrPlace w la isWrite = (p.place (la + .ofNat 32 (room la)) isWrite (p.cpl = 3)).map fun _ => 0 := by
  have hbytes : bytes w - 1 < 4096 := by cases w <;> decide
  unfold usrPlace
  rw [ha]
  refine (if_pos ⟨hp, (lastOnPage_lt w la).mpr h⟩).trans ?_
  rw [place_beyond la isWrite _ (by omega) hbytes]
  cases p.place (la + .ofNat 32 (room la)) isWrite (p.cpl = 3) <;> rfl

/-- A run is moved from its own places: there is no paging, it is in one page, the check reaches the next, the
first page faults, or the next page has the next frame. -/
def Followed (p : Paging) (w : Width) (la : Word) (n : ℕ) (isWrite : Bool) : Prop :=
  p.pg = false ∨ n ≤ room la ∨ room la < bytes w ∨
    match p.place la isWrite (p.cpl = 3) with
    | .error _ => True
    | .ok a => p.place (la + .ofNat 32 (room la)) isWrite (p.cpl = 3) = .ok (a + .ofNat 32 (room la))

theorem usrPlaces_error (h : p.usrPlace w la isWrite = .error e) : p.usrPlaces w la n isWrite = .error e := by
  unfold usrPlaces
  rw [h]
  rfl

theorem usrPlaces_after (h : p.usrPlace w la isWrite = .ok phy) (hphy : phy ≠ 0) :
    p.usrPlaces w la n isWrite = .ok ((List.range n).map fun i => phy + .ofNat 32 i) := by
  unfold usrPlaces
  rw [h]
  exact if_pos hphy

theorem usrPlaces_own (h : p.usrPlace w la isWrite = .ok 0) : p.usrPlaces w la n isWrite = p.places la n isWrite := by
  unfold usrPlaces
  rw [h]
  rfl

/-- A checked address is not zero where its run goes on in another page. -/
theorem place_ne_zero (ha : p.place la isWrite isUser = .ok a) (h : room la < 4096) : a ≠ 0 := by
  rintro rfl
  have hoffset := offsetIn_place ha
  unfold room at h
  rw [← hoffset] at h
  exact absurd h (by decide)

/-- In one page. -/
theorem usrPlaces_within (hn : p.pg → n ≤ room la) (h : ¬(p.pg ∧ room la < bytes w)) (hn' : 0 < n) :
    p.usrPlaces w la n isWrite = p.places la n isWrite := by
  have hcheck : p.usrPlace w la isWrite = _ := usrPlace_within h
  cases ha : p.place la isWrite (p.cpl = 3) with
  | error e => rw [usrPlaces_error (hcheck.trans ha), places_first ha hn']
  | ok a =>
    by_cases hzero : a = 0
    · exact usrPlaces_own (hcheck.trans (hzero ▸ ha))
    · rw [usrPlaces_after (hcheck.trans ha) hzero, places_within ha hn]

/-- The check reaches the next page. -/
theorem usrPlaces_beyond (hp : p.pg) (h : room la < bytes w) (hn : bytes w ≤ n) :
    p.usrPlaces w la n isWrite = p.places la n isWrite := by
  cases ha : p.place la isWrite (p.cpl = 3) with
  | error e =>
    have hcheck : p.usrPlace w la isWrite = .error e := by
      unfold usrPlace
      rw [ha]
      rfl
    rw [usrPlaces_error hcheck, places_first ha (by omega)]
  | ok a =>
    have hcheck := usrPlace_beyond hp h ha
    cases hb : p.place (la + .ofNat 32 (room la)) isWrite (p.cpl = 3) with
    | error e =>
      rw [hb] at hcheck
      rw [usrPlaces_error hcheck, places_second ha hb (by omega)]
    | ok b =>
      rw [hb] at hcheck
      exact usrPlaces_own hcheck

theorem map_own_iff (hroom : room la < n) :
    ((List.range n).map fun i => a + .ofNat 32 i) = (List.range n).map (own la a b) ↔ b = a + .ofNat 32 (room la) := by
  rw [List.map_inj_left]
  constructor
  · intro h
    have := h _ (List.mem_range.mpr hroom)
    rw [own, if_neg (lt_irrefl _), Nat.sub_self, BitVec.add_zero] at this
    exact this.symm
  · rintro rfl i -
    unfold own
    by_cases hi : i < room la
    · rw [if_pos hi]
    · rw [if_neg hi, BitVec.add_assoc, ← BitVec.ofNat_add, Nat.add_sub_cancel' (by omega)]

/-- **When a run is moved from its own places**. -/
theorem usrPlaces_eq_iff (hn : bytes w ≤ n) (hn' : n ≤ 4096) :
    p.usrPlaces w la n isWrite = p.places la n isWrite ↔ p.Followed w la n isWrite := by
  have hpos : 0 < n := by cases w <;> exact hn.trans_lt' (by decide)
  unfold Followed
  by_cases hp : p.pg
  swap
  · exact iff_of_true (usrPlaces_within (fun h => absurd h hp) (fun h => hp h.1) hpos) (.inl (Bool.not_eq_true _ ▸ hp))
  by_cases hcheck : room la < bytes w
  · exact iff_of_true (usrPlaces_beyond hp hcheck hn) (.inr (.inr (.inl hcheck)))
  by_cases hroom : n ≤ room la
  · exact iff_of_true (usrPlaces_within (fun _ => hroom) (fun h => hcheck h.2) hpos) (.inr (.inl hroom))
  have hcases {P : Prop} : p.pg = false ∨ n ≤ room la ∨ room la < bytes w ∨ P ↔ P := by
    rw [hp]
    simp [hroom, hcheck]
  have husr : p.usrPlace w la isWrite = _ := usrPlace_within fun h => hcheck h.2
  rw [hcases]
  cases ha : p.place la isWrite (p.cpl = 3) with
  | error e => exact iff_of_true (by rw [usrPlaces_error (husr.trans ha), places_first ha hpos]) trivial
  | ok a =>
    have hne := place_ne_zero ha (by omega)
    rw [usrPlaces_after (husr.trans ha) hne]
    cases hb : p.place (la + .ofNat 32 (room la)) isWrite (p.cpl = 3) with
    | error e =>
      rw [places_second ha hb (by omega)]
      exact iff_of_false nofun nofun
    | ok b =>
      rw [places_both ha hb hn']
      simp only [Except.ok.injEq]
      exact map_own_iff (by omega)

/-! ### Where they are moved -/

theorem offsetIn_inj {i j : ℕ} (hi : i < 4096) (hj : j < 4096)
    (h : offsetIn (a + .ofNat 32 i) = offsetIn (a + .ofNat 32 j)) : i = j := by
  unfold offsetIn at h
  rw [BitVec.toNat_add, BitVec.toNat_add, BitVec.toNat_ofNat, BitVec.toNat_ofNat] at h
  omega

/-- No two bytes go to one place. -/
theorem Leads.nodup {q : ℕ → Word} (h : Leads p la phy isWrite n q) (hn : n ≤ 4096) : ((List.range n).map q).Nodup := by
  refine List.nodup_range.map_on fun i hi j hj heq => ?_
  have hi := List.mem_range.mp hi
  have hj := List.mem_range.mp hj
  by_cases hphy : phy = 0
  · subst hphy
    have hoffset := congrArg offsetIn heq
    rw [offsetIn_place (h.at_place hi), offsetIn_place (h.at_place hj)] at hoffset
    exact offsetIn_inj (by omega) (by omega) hoffset
  · rw [h.after hphy hi, h.after hphy hj] at heq
    exact offsetIn_inj (by omega) (by omega) (congrArg offsetIn heq)

/-- Where the check gives no address, it has seen all pages of the run. -/
theorem own_of_usrPlace (h : p.usrPlace w la isWrite = .ok 0) (hn : n ≤ 4096) :
    ∃ q : ℕ → Word, ∀ i < n, p.place (la + .ofNat 32 i) isWrite (p.cpl = 3) = .ok (q i) := by
  by_cases hcheck : p.pg ∧ room la < bytes w
  · cases ha : p.place la isWrite (p.cpl = 3) with
    | error e =>
      unfold usrPlace at h
      rw [ha] at h
      cases h
    | ok a =>
      rw [usrPlace_beyond hcheck.1 hcheck.2 ha] at h
      cases hb : p.place (la + .ofNat 32 (room la)) isWrite (p.cpl = 3) with
      | error e =>
        rw [hb] at h
        cases h
      | ok b => exact ⟨own la a b, fun i hi => place_own ha hb (by omega)⟩
  · rw [usrPlace_within hcheck] at h
    -- The address 0 is at the beginning of a page.
    have hoffset : offsetIn la = 0 := (offsetIn_place h).symm
    refine ⟨fun i => 0 + .ofNat 32 i, fun i hi => ?_⟩
    rw [p.place_map _ isWrite _ fun _ => by omega, h]
    rfl

/-- The bytes of a run that can be accessed have their places. -/
theorem of_places {l : List Word} (h : p.places la n isWrite = .ok l) :
    ∃ q : ℕ → Word, (∀ i < n, p.place (la + .ofNat 32 i) isWrite (p.cpl = 3) = .ok (q i)) ∧
      l = (List.range n).map q := by
  choose! q hq using of_mapM_ok h
  exact ⟨q, fun i hi => hq i (List.mem_range.mpr hi), Except.ok.inj (h.symm.trans (mapM_ok hq))⟩

/-- …and these differ. -/
theorem nodup_places {l : List Word} (h : p.places la n isWrite = .ok l) (hn : n ≤ 4096) : l.Nodup := by
  obtain ⟨q, hq, rfl⟩ := of_places h
  refine List.nodup_range.map_on fun i hi j hj heq => ?_
  have hi := List.mem_range.mp hi
  have hj := List.mem_range.mp hj
  have hoffset := congrArg offsetIn heq
  rw [offsetIn_place (hq i hi), offsetIn_place (hq j hj)] at hoffset
  exact offsetIn_inj (by omega) (by omega) hoffset

/-- The pages fault with page faults. -/
theorem place_pf (h : p.place la isWrite isUser = .error e) : ∃ code, e = .pf code := by
  unfold place translate at h
  split at h
  · split at h
    · exact ⟨_, (Except.error.inj h).symm⟩
    · split at h
      · exact ⟨_, (Except.error.inj h).symm⟩
      · cases h
  · cases h

theorem places_pf (h : p.places la n isWrite = .error e) : ∃ code, e = .pf code := by
  obtain ⟨i, -, hi⟩ := of_mapM_error h
  exact place_pf hi

theorem usrPlace_pf (h : p.usrPlace w la isWrite = .error e) : ∃ code, e = .pf code := by
  by_cases hcheck : p.pg ∧ room la < bytes w
  · cases ha : p.place la isWrite (p.cpl = 3) with
    | error e' =>
      unfold usrPlace at h
      rw [ha] at h
      have heq : e' = e := Except.error.inj h
      exact place_pf (heq ▸ ha)
    | ok a =>
      rw [usrPlace_beyond hcheck.1 hcheck.2 ha] at h
      cases hb : p.place (la + .ofNat 32 (room la)) isWrite (p.cpl = 3) with
      | error e' =>
        rw [hb] at h
        have heq : e' = e := Except.error.inj h
        exact place_pf (heq ▸ hb)
      | ok b =>
        rw [hb] at h
        cases h
  · rw [usrPlace_within hcheck] at h
    exact place_pf h

/-- **Once the address is checked the bytes have places**. -/
theorem leads_of_usrPlace (h : p.usrPlace w la isWrite = .ok phy) (hn : n ≤ 4096) :
    ∃ q, Leads p la phy isWrite n q ∧ p.usrPlaces w la n isWrite = .ok ((List.range n).map q) := by
  by_cases hphy : phy = 0
  · subst hphy
    obtain ⟨q, hq⟩ := own_of_usrPlace h hn
    refine ⟨q, fun i hi => ?_, (usrPlaces_own h).trans (mapM_ok fun i hi => hq i (List.mem_range.mp hi))⟩
    rw [if_neg (not_not.mpr rfl)]
    exact place_supervisor (hq i hi) isWrite
  · refine ⟨fun i => phy + .ofNat 32 i, fun i _ => ?_, usrPlaces_after h hphy⟩
    rw [if_pos hphy]

end Paging

end Ccpu

end SoftPC
