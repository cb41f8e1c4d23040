import Mathlib.Tactic.Push
import SoftPC.Machinery.Outcome
import SoftPC.System.Ica

/-!
# System/IcaAccounts — every request of a PIC line is accounted for

IRR and `ica_count` are adjusted apart, by raise, accept, clear, cancel and ICW1; `Balanced` ties them
together and to the tally of a line's requests.  Each function of the module keeps it (`Exact`), and the
only calls that can leave the arrays or the 32 bits are those that reach the master through the slave's
ICW3 byte.
-/

namespace SoftPC.Ica

/-- A line requests while its count is positive, and what was raised is acknowledged, withdrawn or
still counted. -/
def Balanced (s : Adapter) (t : Fin 8 → Tally) : Prop :=
  ∀ l, (on s.irr l = true ↔ 0 < s.count l) ∧ 0 ≤ s.count l ∧
    ((t l).acknowledged + (t l).withdrawn : ℤ) + s.count l = (t l).raised

/-- The books of both adapters, and the slave's line on the master. -/
structure Exact (p : Pic) : Prop where
  balanced : ∀ a, Balanced (p.adapter a) (p.tally a)
  cascade : (p.adapter .slave).ssr.toNat < 8

/-- The master's count can take one more request from the slave. -/
def Room (p : Pic) : Prop :=
  ∀ line : Fin 8, (line : ℕ) = (p.adapter .slave).ssr.toNat →
    (p.adapter .master).count line + 1 < 2 ^ 31

/-- `q` has at most the master requests of `p`, and the slave on the same line. -/
def Under (p q : Pic) : Prop :=
  (q.adapter .slave).ssr = (p.adapter .slave).ssr ∧
    ∀ line, (q.adapter .master).count line ≤ (p.adapter .master).count line

theorem Room.under {p q : Pic} (h : Room p) (hq : Under p q) : Room q := by
  intro line hline
  rw [hq.1] at hline
  have := h line hline
  have := hq.2 line
  omega

theorem Under.refl (p : Pic) : Under p p := ⟨rfl, fun _ => le_rfl⟩

theorem Under.trans {p q r : Pic} (h : Under p q) (h' : Under q r) : Under p r :=
  ⟨h'.1.trans h.1, fun line => (h'.2 line).trans (h.2 line)⟩

/-! ## Bits and updates -/

@[simp] theorem on_bit (l m : Fin 8) : on (bit l) m = decide (l = m) := by
  rw [on, bit, BitVec.getLsbD_twoPow]
  simp [Fin.ext_iff]

@[simp] theorem on_not (x : BitVec 8) (l : Fin 8) : on (~~~x) l = !on x l := by
  rw [on, BitVec.getLsbD_not]
  simp [on, l.isLt]

@[simp] theorem on_or (x y : BitVec 8) (l : Fin 8) : on (x ||| y) l = (on x l || on y l) :=
  BitVec.getLsbD_or

@[simp] theorem on_and (x y : BitVec 8) (l : Fin 8) : on (x &&& y) l = (on x l && on y l) :=
  BitVec.getLsbD_and

@[simp] theorem on_zero (l : Fin 8) : on 0#8 l = false := BitVec.getLsbD_zero

namespace Pic

variable (p : Pic) (a : Chip) (s : Adapter)

@[simp] theorem setAdapter_self : (p.setAdapter a s).adapter a = s := Function.update_self ..

theorem setAdapter_of_ne {a b : Chip} (h : b ≠ a) : (p.setAdapter a s).adapter b = p.adapter b :=
  Function.update_of_ne h ..

@[simp] theorem setAdapter_tally : (p.setAdapter a s).tally = p.tally := rfl

@[simp] theorem setAdapter_master_slave : (p.setAdapter .master s).adapter .slave = p.adapter .slave :=
  rfl

@[simp] theorem setAdapter_slave_master : (p.setAdapter .slave s).adapter .master = p.adapter .master :=
  rfl

@[simp] theorem setTally_adapter (line : Fin 8) (t : Tally) : (p.setTally a line t).adapter = p.adapter :=
  rfl

@[simp] theorem setTally_tally_self (line : Fin 8) (t : Tally) :
    (p.setTally a line t).tally a = Function.update (p.tally a) line t := Function.update_self ..

theorem setTally_tally_of_ne {a b : Chip} (line : Fin 8) (t : Tally) (h : b ≠ a) :
    (p.setTally a line t).tally b = p.tally b := Function.update_of_ne h ..

end Pic

variable {p q : Pic} {a : Chip}

/-- A change of one adapter keeps the books when it keeps that adapter's. -/
theorem Exact.setAdapter (h : Exact p) {s : Adapter} (hs : Balanced s (p.tally a))
    (hssr : a = .slave → s.ssr.toNat < 8) : Exact (p.setAdapter a s) where
  balanced b := by
    by_cases hb : b = a
    · subst hb; rwa [Pic.setAdapter_self]
    · rw [Pic.setAdapter_of_ne _ _ hb]; exact h.balanced b
  cascade := by
    cases a with
    | master => exact h.cascade
    | slave => exact hssr rfl

/-- …and so does a change that does not touch them. -/
theorem Exact.edit (h : Exact p) {s : Adapter} (hirr : s.irr = (p.adapter a).irr)
    (hcount : s.count = (p.adapter a).count) (hssr : s.ssr = (p.adapter a).ssr) :
    Exact (p.setAdapter a s) := by
  refine h.setAdapter (fun l => ?_) ?_
  · rw [hirr, hcount]; exact h.balanced a l
  · rintro rfl
    rw [hssr]; exact h.cascade

/-- One line of one adapter re-entered, with its tally. -/
theorem Exact.enter (h : Exact p) (line : Fin 8) {s : Adapter} {t : Tally}
    (hother : ∀ l, l ≠ line → on s.irr l = on (p.adapter a).irr l ∧
      s.count l = (p.adapter a).count l)
    (hline : (on s.irr line = true ↔ 0 < s.count line) ∧ 0 ≤ s.count line ∧
      (t.acknowledged + t.withdrawn : ℤ) + s.count line = t.raised)
    (hssr : s.ssr = (p.adapter a).ssr) : Exact ((p.setTally a line t).setAdapter a s) where
  balanced b := by
    by_cases hb : b = a
    · subst hb
      intro l
      simp only [Pic.setAdapter_self, Pic.setAdapter_tally, Pic.setTally_tally_self]
      by_cases hl : l = line
      · subst hl; rwa [Function.update_self]
      · rw [Function.update_of_ne hl, (hother l hl).1, (hother l hl).2]
        exact h.balanced b l
    · rw [Pic.setAdapter_of_ne _ _ hb, Pic.setAdapter_tally, Pic.setTally_tally_of_ne _ _ _ hb]
      exact h.balanced b
  cascade := by
    cases a with
    | master => exact h.cascade
    | slave => exact hssr ▸ h.cascade

/-- A line is emptied… -/
theorem Exact.emptied (h : Exact p) (line : Fin 8) {s : Adapter} {t : Tally}
    (hirr : s.irr = (p.adapter a).irr &&& ~~~bit line)
    (hcount : s.count = Function.update (p.adapter a).count line 0)
    (ht : (t.acknowledged + t.withdrawn : ℤ) = t.raised) (hssr : s.ssr = (p.adapter a).ssr) :
    Exact ((p.setTally a line t).setAdapter a s) := by
  refine h.enter line (fun l hl => ?_) ?_ hssr
  · simp [hirr, hcount, Function.update_of_ne hl, hl.symm]
  · rw [hirr, hcount]
    simp [ht]

/-- …or counts down. -/
theorem Exact.counted (h : Exact p) (line : Fin 8) {s : Adapter} {t : Tally}
    (hmore : ¬(p.adapter a).count line - 1 ≤ 0) (hirr : s.irr = (p.adapter a).irr)
    (hcount : s.count = Function.update (p.adapter a).count line ((p.adapter a).count line - 1))
    (ht : (t.acknowledged + t.withdrawn : ℤ) + ((p.adapter a).count line - 1) = t.raised)
    (hssr : s.ssr = (p.adapter a).ssr) : Exact ((p.setTally a line t).setAdapter a s) := by
  refine h.enter line (fun l hl => ?_) ?_ hssr
  · simp [hirr, hcount, Function.update_of_ne hl]
  · rw [hirr, hcount, Function.update_self, (h.balanced a line).1]
    exact ⟨by omega, by omega, ht⟩

/-- A count that falls leaves room. -/
theorem under_fall {line : Fin 8} {s : Adapter} {t : Tally} {n : ℤ} (hn : n ≤ (p.adapter a).count line)
    (hcount : s.count = Function.update (p.adapter a).count line n) (hssr : s.ssr = (p.adapter a).ssr) :
    Under p ((p.setTally a line t).setAdapter a s) := by
  cases a with
  | slave => exact ⟨hssr, fun _ => le_rfl⟩
  | master =>
    refine ⟨rfl, fun l => ?_⟩
    rw [Pic.setAdapter_self, hcount]
    by_cases hl : l = line
    · subst hl; rwa [Function.update_self]
    · rw [Function.update_of_ne hl]

/-! ## What a scan finds -/

theorem on_of_firstOf {pending active : BitVec 8} {lines : List (Fin 8)} {line : Fin 8}
    (h : Pic.firstOf pending active lines = some line) : on pending line = true := by
  induction lines with
  | nil => cases h
  | cons l lines ih =>
    rw [Pic.firstOf] at h
    split_ifs at h with _ hl
    · injection h with h
      exact h ▸ hl
    · exact ih h

theorem on_pending_of_scanIrr {line : Fin 8} (h : p.scanIrr a = some line) :
    on (p.pending a) line = true := by
  rw [Pic.scanIrr] at h
  split_ifs at h
  exact on_of_firstOf h

/-- The line a scan finds is a request of IRR. -/
theorem on_irr_of_scanIrr {line : Fin 8} (h : p.scanIrr a = some line) :
    on (p.adapter a).irr line = true := by
  have hpending := on_pending_of_scanIrr h
  rw [Pic.pending, on_and, Bool.and_eq_true] at hpending
  exact hpending.1

/-! ## Raising -/

theorem ends_index {number : ℕ} (h : number < 8) :
    Ends (Pic.index a number) fun line => (line : ℕ) = number := by
  rw [Pic.index, dif_pos h]
  exact .ok rfl

theorem Exact.request (h : Exact p) {line : Fin 8} {calls : ℕ} (hcalls : 0 < calls)
    (hfits : (p.adapter a).count line + calls < 2 ^ 31) :
    Ends (p.request a line calls) fun q => Exact q ∧ (a = .slave → Under p q) := by
  obtain ⟨-, hpos, hsum⟩ := h.balanced a line
  rw [Pic.request, if_pos hfits]
  refine .ok ⟨h.enter line ?_ ?_ rfl, ?_⟩
  · intro l hl
    simp [Function.update_of_ne hl, hl.symm]
  · refine ⟨?_, ?_, ?_⟩
    · simp only [on_or, on_bit, decide_true, Bool.or_true, Function.update_self, true_iff]
      omega
    · simp only [Function.update_self]; omega
    · simp only [Function.update_self]; push_cast; omega
  · rintro rfl
    exact .refl p

theorem Exact.interruptMaster (h : Exact p) (line : Fin 8) : Exact (p.interruptMaster line) := by
  rw [Pic.interruptMaster]
  split
  · exact h.edit rfl rfl rfl
  · obtain ⟨hb, hc⟩ := h.edit (a := .master) (s := { p.adapter .master with
      intLine := line, cpuInt := true }) rfl rfl rfl
    exact ⟨hb, hc⟩

theorem Exact.scanBy (h : Exact p) {interrupt : Pic → Fin 8 → Except Fault Pic}
    (hint : ∀ line, Ends (interrupt p line) Exact) : Ends (p.scanBy interrupt a) Exact := by
  rw [Pic.scanBy]
  split
  · exact .ok h
  · exact hint _

/-- `SWPIC_hw_interrupt` keeps the books if the interrupt it may cause does. -/
theorem Exact.hwInterruptBy (h : Exact p) {interrupt : Pic → Fin 8 → Except Fault Pic} {number calls : ℕ}
    (hcalls : 0 < calls) (hnumber : number < 8)
    (hfits : ∀ line : Fin 8, (line : ℕ) = number → (p.adapter a).count line + calls < 2 ^ 31)
    (hint : ∀ q line, Exact q → (a = .slave → Under p q) → Ends (interrupt q line) Exact) :
    Ends (p.hwInterruptBy interrupt a number calls) Exact := by
  refine (ends_index hnumber).bind fun line hline => ?_
  refine (h.request hcalls (hfits line hline)).bind fun q ⟨hq, hunder⟩ => .ite (fun _ => .ok hq) fun _ => ?_
  refine Ends.bind (Q := Exact) ?_ fun r hr => .ok ⟨hr.balanced, hr.cascade⟩
  have hlocked : Exact { q with lock := q.lock + 1 } := ⟨hq.balanced, hq.cascade⟩
  exact hlocked.scanBy fun line => hint _ line hlocked hunder

theorem Exact.interruptSlave (h : Exact p) (hroom : Room p) (line : Fin 8) :
    Ends (p.interruptSlave line) Exact := by
  rw [Pic.interruptSlave]
  refine .ite (fun _ => .ok (h.edit rfl rfl rfl)) fun _ => ?_
  have hq := h.edit (a := .slave) (s := { p.adapter .slave with intLine := line, cpuInt := true })
    rfl rfl rfl
  refine Ends.bind (Q := Exact) ?_ fun r hr => .ok ⟨hr.balanced, hr.cascade⟩
  exact Exact.hwInterruptBy (p := { p.setAdapter .slave { p.adapter .slave with
      intLine := line, cpuInt := true } with lock := p.lock - 1 })
    ⟨hq.balanced, hq.cascade⟩ one_pos h.cascade (fun l hl => hroom l hl)
    fun r line hr _ => .ok (hr.interruptMaster line)

theorem Exact.interruptCpu (h : Exact p) (hroom : a = .slave → Room p) (line : Fin 8) :
    Ends (p.interruptCpu a line) Exact := by
  cases a with
  | master => exact .ok (h.interruptMaster line)
  | slave => exact h.interruptSlave (hroom rfl) line

theorem Exact.rescan (h : Exact p) (hroom : a = .slave → Room p) : Ends (p.rescan a) Exact :=
  h.scanBy fun line => h.interruptCpu hroom line

theorem Exact.hwInterrupt (h : Exact p) {line : Fin 8} {calls : ℕ} (hcalls : 0 < calls)
    (hfits : (p.adapter a).count line + calls < 2 ^ 31) (hroom : a = .slave → Room p) :
    Ends (p.hwInterrupt a line calls) Exact := by
  refine h.hwInterruptBy hcalls line.isLt (fun l hl => Fin.ext hl ▸ hfits) fun q l hq hunder => ?_
  exact hq.interruptCpu (fun ha => (hroom ha).under (hunder ha)) l

/-! ## Lowering -/

theorem Exact.withdraw (h : Exact p) (line : Fin 8) : Exact (p.withdraw a line) := by
  obtain ⟨-, hpos, hsum⟩ := h.balanced a line
  rw [Pic.withdraw]
  dsimp only
  split
  · refine h.emptied line rfl rfl ?_ rfl
    split <;> push_cast <;> omega
  · rename_i hmore
    refine h.counted line hmore rfl rfl ?_ rfl
    rw [if_pos (by omega)]
    push_cast
    omega

theorem under_withdraw (h : Exact p) (line : Fin 8) : Under p (p.withdraw a line) := by
  rw [Pic.withdraw]
  dsimp only
  split
  · exact under_fall (h.balanced a line).2.1 rfl rfl
  · exact under_fall (by omega) rfl rfl

theorem Exact.lower (h : Exact p) : Exact p.lower := by
  have hq := h.edit (a := .master) (s := { p.adapter .master with cpuInt := false }) rfl rfl rfl
  exact ⟨hq.balanced, hq.cascade⟩

theorem Exact.hookIf (h : Exact p) (pending : Bool) (line : Fin 8) : Exact (p.hookIf pending a line) := by
  rw [Pic.hookIf]
  split
  · exact ⟨h.balanced, h.cascade⟩
  · exact h

theorem under_hookIf (pending : Bool) (line : Fin 8) : Under p (p.hookIf pending a line) := by
  rw [Pic.hookIf]
  split <;> exact ⟨rfl, fun _ => le_rfl⟩

/-- Once the request is off the line, the rest of `SWPIC_clear_int` keeps the books. -/
theorem ends_clearMaster {number : ℕ} (hnumber : number < 8)
    (h : ∀ line : Fin 8, (line : ℕ) = number → Exact (p.withdraw .master line)) :
    Ends (p.clearMaster number) Exact := by
  refine (ends_index hnumber).bind fun line hline => ?_
  refine .ite (fun _ => .ok ?_) fun _ => .ok (h line hline)
  split
  · exact (h line hline).lower.hookIf _ _
  · exact (h line hline).hookIf _ _

theorem under_clearMaster (h : Exact p) {number : ℕ} {q : Pic} (hq : p.clearMaster number = .ok q) :
    Under p q := by
  by_cases hnumber : number < 8
  · simp only [Pic.clearMaster, Pic.index, dif_pos hnumber] at hq
    have hunder := under_withdraw (a := .master) h ⟨number, hnumber⟩
    change (if _ then _ else _) = _ at hq
    split at hq
    · injection hq with hq
      subst hq
      split
      · exact hunder.trans (under_hookIf (p := Pic.lower _) _ _)
      · exact hunder.trans (under_hookIf _ _)
    · injection hq with hq
      exact hq ▸ hunder
  · simp only [Pic.clearMaster, Pic.index, dif_neg hnumber] at hq
    cases hq

theorem Exact.lowerSlave (h : Exact p) : Ends p.lowerSlave fun q => Exact q ∧ Under p q := by
  have hs := h.edit (a := .slave) (s := { p.adapter .slave with cpuInt := false }) rfl rfl rfl
  obtain ⟨q, hq, hexact⟩ := ends_clearMaster h.cascade fun line _ => hs.withdraw line
  exact ⟨q, hq, hexact, under_clearMaster hs hq⟩

theorem ends_clearInt {line : Fin 8} (h : Exact (p.withdraw a line)) :
    Ends (p.clearInt a line) Exact := by
  cases a with
  | master => exact ends_clearMaster line.isLt fun l hl => Fin.ext hl ▸ h
  | slave =>
    refine (ends_index line.isLt).bind fun l hl => ?_
    obtain rfl := Fin.ext hl
    refine .ite (fun _ => ?_) fun _ => .ok h
    refine Ends.bind (Q := Exact) ?_ fun r hr => .ok (hr.hookIf _ _)
    exact .ite (fun _ => h.lowerSlave.mono fun _ hr => hr.1) fun _ => .ok h

theorem Exact.clearInt (h : Exact p) (line : Fin 8) : Ends (p.clearInt a line) Exact :=
  ends_clearInt (h.withdraw line)

/-- A cancelled line has its bit cleared by the withdrawal that follows. -/
theorem Exact.hwInterruptCancel (h : Exact p) (line : Fin 8) :
    Ends (p.hwInterruptCancel a line) Exact := by
  refine (ends_index line.isLt).bind fun l hl => ?_
  obtain rfl := Fin.ext hl
  refine ends_clearInt ?_
  obtain ⟨hirr, hpos, hsum⟩ := h.balanced a l
  have hentered := h.emptied (a := a) l
    (s := { p.adapter a with
      irr := (p.adapter a).irr &&& ~~~bit l, count := Function.update (p.adapter a).count l 0 })
    (t := { p.tally a l with
      withdrawn := (p.tally a l).withdrawn + ((p.adapter a).count l).toNat })
    rfl rfl (by push_cast; omega) rfl
  convert hentered using 1
  simp [Pic.withdraw, Pic.setAdapter, Pic.setTally]

/-! ## Acknowledging -/

theorem Exact.retire (h : Exact p) (line : Fin 8) (rotate : Bool) : Exact (p.retire a line rotate) := by
  have hq := h.edit (a := a) (s := { p.adapter a with
    isr := (p.adapter a).isr &&& ~~~bit line
    hipri := if rotate then (line + 1) % 8 else (p.adapter a).hipri }) rfl rfl rfl
  rw [Pic.retire]
  split
  · exact ⟨hq.balanced, hq.cascade⟩
  · exact hq

theorem under_retire (line : Fin 8) (rotate : Bool) : Under p (p.retire a line rotate) := by
  rw [Pic.retire]
  cases a <;> split <;> exact ⟨rfl, fun _ => le_rfl⟩

theorem Exact.eoi (h : Exact p) (hroom : a = .slave → Room p) (line : Option (Fin 8)) (rotate : Bool) :
    Ends (p.eoi a line rotate) Exact := by
  rw [Pic.eoi]
  split
  · exact h.rescan hroom
  · exact (h.retire _ _).rescan fun ha => (hroom ha).under (under_retire _ _)

theorem Exact.take (h : Exact p) {line : Fin 8} (hline : on (p.adapter a).irr line = true) :
    Exact (p.take a line) := by
  obtain ⟨hirr, -, hsum⟩ := h.balanced a line
  rw [hirr] at hline
  rw [Pic.take]
  dsimp only
  split
  · refine h.emptied line rfl rfl ?_ rfl
    push_cast
    omega
  · rename_i hmore
    refine h.counted line hmore rfl rfl ?_ rfl
    push_cast
    omega

theorem under_take (h : Exact p) (line : Fin 8) : Under p (p.take a line) := by
  rw [Pic.take]
  dsimp only
  split
  · exact under_fall (h.balanced a line).2.1 rfl rfl
  · exact under_fall (by omega) rfl rfl

/-- What the master does on its own raises nothing on it. -/
theorem under_interruptMaster (line : Fin 8) : Under p (p.interruptMaster line) := by
  rw [Pic.interruptMaster]
  split <;> exact ⟨rfl, fun _ => le_rfl⟩

theorem under_rescan {q : Pic} (hq : p.rescan .master = .ok q) : Under p q := by
  rw [Pic.rescan, Pic.scanBy] at hq
  split at hq <;> injection hq with hq <;> subst hq
  · exact .refl p
  · exact under_interruptMaster _

theorem under_eoi {line : Option (Fin 8)} {rotate : Bool} {q : Pic}
    (hq : p.eoi .master line rotate = .ok q) : Under p q := by
  rw [Pic.eoi] at hq
  split at hq
  · exact under_rescan hq
  · exact (under_retire _ _).trans (under_rescan hq)

theorem Exact.autoEoi (h : Exact p) (hroom : a = .slave → Room p) :
    Ends (p.autoEoi a) fun q => Exact q ∧ (a = .master → Under p q) := by
  rw [Pic.autoEoi]
  refine .ite (fun _ => ?_) fun _ => .ok ⟨h, fun _ => .refl p⟩
  obtain ⟨q, hq, hexact⟩ := h.eoi hroom none ((p.adapter a).mode &&& raeoi = raeoi)
  refine ⟨q, hq, hexact, ?_⟩
  rintro rfl
  exact under_eoi hq

theorem Exact.accept (h : Exact p) (hroom : a = .slave → Room p) :
    Ends (p.accept a) fun r => Exact r.2 ∧ (a = .master → Under p r.2) := by
  have hlow := h.edit (a := a) (s := { p.adapter a with cpuInt := false }) rfl rfl rfl
  have hunder : Under p (p.setAdapter a { p.adapter a with cpuInt := false }) := by
    cases a <;> exact ⟨rfl, fun _ => le_rfl⟩
  rw [Pic.accept]
  split
  · exact .ok ⟨hlow, fun _ => hunder⟩
  · rename_i line hline
    have htake := under_take (a := a) hlow line
    refine ((hlow.take (on_irr_of_scanIrr hline)).autoEoi
      fun ha => ((hroom ha).under hunder).under htake).bind fun q hq => .ok ⟨hq.1, fun ha => ?_⟩
    exact (hunder.trans htake).trans (hq.2 ha)

theorem Exact.endService (h : Exact p) (line : Fin 8) : Exact (p.endService line) := h.edit rfl rfl rfl

theorem Exact.intackSlave (h : Exact p) (hroom : Room p) (line : Fin 8) :
    Ends (p.intackSlave line) fun r => Exact r.2 := by
  refine (h.accept fun _ => hroom).bind fun r hr => ?_
  split
  · exact .ok (hr.1.endService line)
  · exact .ok hr.1

theorem Exact.intack (h : Exact p) (hroom : Room p) : Ends p.intack fun r => Exact r.2 := by
  refine (h.accept (a := .master) nofun).bind fun r ⟨hr, hunder⟩ => ?_
  split
  · exact .ok hr
  · exact .ite (fun _ => hr.intackSlave (hroom.under (hunder rfl)) _) fun _ => .ok hr

/-! ## The ports -/

theorem Exact.polled (h : Exact p) (hroom : a = .slave → Room p) : Ends (p.polled a) Exact := by
  rw [Pic.polled]
  refine .ite (fun _ => ?_) fun _ => .ok h
  exact (h.accept hroom).bind fun r hr => .ok ⟨hr.1.balanced, hr.1.cascade⟩

theorem Exact.inb (h : Exact p) {port : BitVec 16}
    (hroom : Pic.adapterForPort port = .slave → Room p) : Ends (p.inb port) fun r => Exact r.2 := by
  rw [Pic.inb]
  refine .ite (fun _ => ?_) fun _ => .ok h
  have hlocked : Exact { p with lock := 1 } := ⟨h.balanced, h.cascade⟩
  have hpoll := hlocked.edit (a := Pic.adapterForPort port)
    (s := { p.adapter (Pic.adapterForPort port) with
      mode := (p.adapter (Pic.adapterForPort port)).mode &&& ~~~poll }) rfl rfl rfl
  refine (hpoll.polled fun ha => ?_).bind fun q hq => .ok ⟨hq.balanced, hq.cascade⟩
  rw [ha]
  exact hroom ha

theorem Exact.icw1 (h : Exact p) (value : BitVec 8) : Exact (p.icw1 a value) where
  balanced b := by
    by_cases hb : b = a
    · subst hb
      intro l
      simp [Pic.icw1]
    · simp only [Pic.icw1, Pic.setAdapter_of_ne _ _ hb, Function.update_of_ne hb]
      exact h.balanced b
  cascade := by
    cases a with
    | master => exact h.cascade
    | slave => simp [Pic.icw1]

theorem Exact.maskOut (h : Exact p) :
    Ends (p.maskOut a) fun q => Exact q ∧ (a = .slave → Under p q) := by
  refine .ite (fun _ => ?_) fun _ => .ok ⟨h, fun _ => .refl p⟩
  cases a with
  | master => exact .ok ⟨h.lower, nofun⟩
  | slave => exact h.lowerSlave.mono fun q hq => ⟨hq.1, fun _ => hq.2⟩

theorem Exact.ocw1 (h : Exact p) (hroom : a = .slave → Room p) (value : BitVec 8) :
    Ends (p.ocw1 a value) Exact := by
  have hmask := h.edit (a := a) (s := { p.adapter a with imr := value }) rfl rfl rfl
  refine hmask.maskOut.bind fun q ⟨hq, hunder⟩ => .ite (fun _ => .ok hq) fun _ => hq.rescan fun ha => ?_
  subst ha
  exact (hroom rfl).under (hunder rfl)

theorem Exact.ocw2 (h : Exact p) (hroom : a = .slave → Room p) (value : BitVec 8) :
    Ends (p.ocw2 a value) Exact := by
  rw [Pic.ocw2]
  split
  · exact .ok (h.edit rfl rfl rfl)
  · exact h.eoi hroom _ _
  · exact h.eoi hroom _ _
  · exact .ok (h.edit rfl rfl rfl)
  · exact h.eoi hroom _ _
  · exact .ok (h.edit rfl rfl rfl)
  · exact h.eoi hroom _ _
  · exact .ok h

theorem Exact.setSequence (h : Exact p) (s : Sequence) : Exact (p.setSequence a s) :=
  ⟨h.balanced, h.cascade⟩

/-- Only the slave's ICW3 changes the line it takes on the master. -/
theorem Exact.word (h : Exact p) (hroom : a = .slave → Room p) {odd : Bool} {value : BitVec 8}
    (hicw3 : a = .slave → p.sequence a = .icw3 → odd = true → value.toNat < 8) :
    Ends (p.word a odd value) Exact := by
  rw [Pic.word]
  dsimp only
  split
  · exact .ok h
  · refine .ite (fun _ => h.ocw1 hroom value) fun _ => .ite (fun _ => h.ocw2 hroom value) fun _ => .ok ?_
    exact h.edit rfl rfl rfl
  · split
    · refine .ok (Exact.setSequence ?_ _)
      exact h.edit rfl rfl rfl
    · exact .ok h
  · rename_i hseq
    split
    · rename_i hodd
      refine .ok (Exact.setSequence ?_ _)
      exact h.setAdapter (h.balanced a) fun ha => hicw3 ha hseq hodd
    · exact .ok h
  · refine .ok (Exact.setSequence ?_ _)
    split
    · exact h.edit rfl rfl rfl
    · exact h

theorem Exact.outb (h : Exact p) {port : BitVec 16} {value : BitVec 8}
    (hroom : Pic.adapterForPort port = .slave → Room p)
    (hicw3 : Pic.adapterForPort port = .slave → p.sequence .slave = .icw3 → Pic.odd port = true →
      value.toNat < 8) : Ends (p.outb port value) Exact := by
  rw [Pic.outb]
  refine .ite (fun _ => .ok h) fun _ => .ite (fun _ => .ok (h.icw1 value)) fun _ => ?_
  have hlocked : Exact { p with lock := 1 } := ⟨h.balanced, h.cascade⟩
  refine (hlocked.word (fun ha => hroom ha) fun ha hs ho => ?_).bind fun q hq =>
    .ok ⟨hq.balanced, hq.cascade⟩
  rw [ha] at hs
  exact hicw3 ha hs ho

/-! ## Runs -/

/-- Operations of the slave's side, which may send a request up the cascade. -/
def Op.reachesSlave : Op → Bool
  | .outb port _ | .inb port => Pic.adapterForPort port = .slave
  | .hwInterrupt a _ _ | .delay a _ _ | .release a _ => a = .slave
  | .clearInt _ _ | .cancel _ _ | .undelay _ _ => false
  | .acknowledge | .intack => true

/-- The requests an operation adds to a line of its own. -/
def Op.fits (p : Pic) : Op → Prop
  | .hwInterrupt a line calls => (p.adapter a).count line + calls < 2 ^ 31
  | .delay a line calls => (p.adapter a).count line + calls < 2 ^ 31
  | _ => True

/-- The byte is taken as the slave's ICW3. -/
def Op.slaveIcw3 (p : Pic) : Op → Option (BitVec 8)
  | .outb port value =>
    if Pic.adapterForPort port = .slave ∧ p.sequence .slave = .icw3 ∧ Pic.odd port = true then some value
    else none
  | _ => none

/-- What keeps an operation within the arrays and the 32 bits: the slave's ICW3 names one of the eight
lines of the master, and no count passes the largest of its type. -/
structure Op.InRange (p : Pic) (op : Op) : Prop where
  icw3 : ∀ value ∈ op.slaveIcw3 p, value.toNat < 8
  room : op.reachesSlave = true → Room p
  fits : op.fits p

theorem step_exact (p : Pic) (op : Op) (h : Exact p) (hop : op.InRange p) : Ends (step p op) Exact := by
  obtain ⟨hicw3, hroom, hfits⟩ := hop
  cases op with
  | outb port value =>
    refine h.outb (fun ha => hroom (by simpa [Op.reachesSlave] using ha)) fun ha hs ho => hicw3 value ?_
    simp [Op.slaveIcw3, ha, hs, ho]
  | inb port =>
    exact (h.inb fun ha => hroom (by simpa [Op.reachesSlave] using ha)).bind fun r hr => .ok hr
  | hwInterrupt a line calls =>
    exact h.hwInterrupt calls.pos hfits fun ha => hroom (by simpa [Op.reachesSlave] using ha)
  | clearInt a line => exact h.clearInt line
  | cancel a line => exact h.hwInterruptCancel line
  | delay a line calls =>
    have hq : Exact (p.hold a line) := ⟨h.balanced, h.cascade⟩
    refine .ite (fun _ => .ok hq) fun hcalls => ?_
    exact hq.hwInterrupt (Nat.pos_of_ne_zero hcalls) hfits fun ha =>
      hroom (by simpa [Op.reachesSlave] using ha)
  | release a line =>
    have hq : Exact (p.undelay a line) := ⟨h.balanced, h.cascade⟩
    exact hq.rescan fun ha => hroom (by simpa [Op.reachesSlave] using ha)
  | undelay a line => exact .ok ⟨h.balanced, h.cascade⟩
  | acknowledge =>
    refine .ite (fun _ => ?_) fun _ => .ok h
    exact (h.intack (hroom rfl)).bind fun r hr => .ok ⟨hr.balanced, hr.cascade⟩
  | intack => exact (h.intack (hroom rfl)).bind fun r hr => .ok hr

theorem exact_init : Exact .init := ⟨fun _ _ => by simp [Pic.init], by decide⟩

/-- **A run whose operations stay in range leaves no array and loses no request**: it returns, and on
each line the IRR bit is the sign of the count, and acknowledges, withdrawals and the count add up to
the raises since its adapter's last ICW1. -/
theorem requests_accounted (ops : List Op) (h : Meets step (fun p op => op.InRange p) .init ops) :
    ∃ q, run .init ops = .ok q ∧ ∀ a l,
      (on (q.adapter a).irr l = true ↔ 0 < (q.adapter a).count l) ∧
      ((q.tally a l).acknowledged + (q.tally a l).withdrawn : ℤ) + (q.adapter a).count l =
        (q.tally a l).raised := by
  obtain ⟨q, hq, hexact⟩ := ends_foldlM step_exact exact_init h
  exact ⟨q, hq, fun a l => ⟨(hexact.balanced a l).1, (hexact.balanced a l).2.2⟩⟩

/-- Initialised with 8 as its ICW3, the slave sends its first request to a line the master lacks. -/
theorem cascade_line_unchecked :
    run .init [.outb 0xa0 0x11, .outb 0xa1 0x70, .outb 0xa1 8, .outb 0xa1 1, .hwInterrupt .slave 0 1] =
      .error (.line .master 8) := rfl

/-- Two requests of a slave line, one of them acknowledged. -/
theorem slave_line_accounted :
    ∃ q, run .init [.hwInterrupt .slave 1 2, .acknowledge] = .ok q ∧ ∀ a l,
      (on (q.adapter a).irr l = true ↔ 0 < (q.adapter a).count l) ∧
      ((q.tally a l).acknowledged + (q.tally a l).withdrawn : ℤ) + (q.adapter a).count l =
        (q.tally a l).raised := by
  refine requests_accounted _ ⟨⟨nofun, fun _ line hline => ?_, ?_⟩, fun q hq => ⟨⟨nofun, ?_, trivial⟩, ?_⟩⟩
  · revert line
    decide
  · rw [Op.fits]
    decide
  · intro _ line hline
    obtain rfl := Except.ok.inj hq
    revert line
    decide
  · exact fun _ _ => trivial

end SoftPC.Ica
