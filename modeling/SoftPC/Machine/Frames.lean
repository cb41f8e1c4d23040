import SoftPC.Machine.Delivery
import SoftPC.Session.ControlState

/-!
# Machine/Frames — published frames belong to the current run

A reader asks for the frame of a run generation, and gets what the last publication left: the
sequence and the route (`Store.readPresentation`), or a copy of the frame in the exchange
(`Store.copyPublishedFrame`).  What it should get is read off what the outside sees (`onShow`).
`Publishing` relates the two over every run; zero stands both for no frame and for the generation
before the first run, and only a reader of generation zero can tell.

The sequences of the publications are positions on a ring of `2^32 - 1` (`serial`), which
`emulator_session_frame_is_newer` orders (`newer_serial`), all but one distance across the wrap.
-/

namespace SoftPC.Machine

open SoftPC.Threads

/-! ## The readers -/

namespace Store

/-- `emulator_machine_read_presentation`: the sequence and the route. -/
def readPresentation (m : Store) (runGeneration : UInt32) : Option (UInt32 × Bool) :=
  if m.publishedFrameRunGeneration = runGeneration then
    some (m.publishedFrameSequence, m.publishedFrameGraphics)
  else none

/-- `emulator_machine_copy_published_frame`; `storage` says that the copy finds memory. -/
def copyPublishedFrame (m : Store) (runGeneration : UInt32) (storage : Bool) : Option WindowFrame :=
  if m.publishedFrameRunGeneration = runGeneration then
    if storage then m.frames.observeLatest else none
  else none

end Store

/-! ## The ledger -/

/-- The frame on show: the last publication of the current run, unless it was invalidated. -/
def onShow : List Obs → Option WindowFrame
  | [] => none
  | .published frame :: _ => some frame
  | .hidden :: _ => none
  | .coldRun :: _ => none
  | _ :: trace => onShow trace

/-- The publications of all runs, oldest first. -/
def publications : List Obs → List WindowFrame
  | [] => []
  | .published frame :: trace => publications trace ++ [frame]
  | _ :: trace => publications trace

/-- An observation that the ledger reads. -/
def Obs.isFrame : Obs → Bool
  | .published _ | .hidden | .coldRun => true
  | _ => false

theorem ledger_quiet {obs : List Obs} (trace : List Obs) (h : ∀ x ∈ obs, x.isFrame = false) :
    onShow (obs ++ trace) = onShow trace ∧ publications (obs ++ trace) = publications trace := by
  induction obs with
  | nil => exact ⟨rfl, rfl⟩
  | cons x obs ih =>
    obtain ⟨hs, hp⟩ := ih fun y hy => h y (List.mem_cons_of_mem x hy)
    have hx := h x List.mem_cons_self
    rw [List.cons_append, ← hs, ← hp]
    cases x <;> first | exact ⟨rfl, rfl⟩ | cases hx

/-- The frame on show was published, and no cold run has begun since. -/
theorem onShow_eq_some {trace : List Obs} {frame : WindowFrame} (h : onShow trace = some frame) :
    ∃ since before, trace = since ++ .published frame :: before ∧ Obs.coldRun ∉ since := by
  induction trace with
  | nil => cases h
  | cons x trace ih =>
    cases x with
    | published f =>
      cases h
      exact ⟨[], trace, rfl, by simp⟩
    | hidden | coldRun => cases h
    | _ =>
      obtain ⟨since, before, rfl, hcold⟩ := ih h
      exact ⟨_ :: since, before, rfl, by simpa using hcold⟩

/-! ## Serials -/

/-- The sequence of a publication, counted from zero. -/
def serial (k : ℕ) : UInt32 := .ofNat (k % (2 ^ 32 - 1) + 1)

theorem serial_toNat (k : ℕ) : (serial k).toNat = k % (2 ^ 32 - 1) + 1 := by
  have hlt : k % (2 ^ 32 - 1) < 2 ^ 32 - 1 := Nat.mod_lt _ (by decide)
  rw [serial, UInt32.toNat_ofNat_of_lt' (by simp only [UInt32.size]; omega)]

theorem serial_ne_zero (k : ℕ) : serial k ≠ 0 := by
  intro h
  have hzero := congrArg UInt32.toNat h
  rw [serial_toNat] at hzero
  exact absurd hzero (Nat.succ_ne_zero _)

/-- The sequence a machine remembers after so many publications. -/
def lastSerial : ℕ → UInt32
  | 0 => 0
  | k + 1 => serial k

/-- **The next sequence is the next serial**: the counter wraps past zero. -/
theorem nextSequence_eq {m : Store} {n : ℕ} (h : m.publishedFrameSequence = lastSerial n) :
    m.nextSequence = serial n := by
  have hmod : ∀ k, (k + 1) % (2 ^ 32 - 1) =
      if k % (2 ^ 32 - 1) + 1 = 2 ^ 32 - 1 then 0 else k % (2 ^ 32 - 1) + 1 := by
    intro k
    split <;> omega
  unfold Store.nextSequence
  rw [h]
  cases n with
  | zero => rfl
  | succ k =>
    have hsucc : (serial k + 1).toNat = (k % (2 ^ 32 - 1) + 2) % 2 ^ 32 := by
      rw [UInt32.toNat_add, serial_toNat]
      rfl
    have hlt : k % (2 ^ 32 - 1) < 2 ^ 32 - 1 := Nat.mod_lt _ (by decide)
    simp only [lastSerial, ← UInt32.toNat_inj, apply_ite UInt32.toNat, hsucc, serial_toNat, hmod]
    by_cases hwrap : k % (2 ^ 32 - 1) + 1 = 2 ^ 32 - 1
    · have hk : k % (2 ^ 32 - 1) = 2 ^ 32 - 2 := by omega
      rw [hk]
      rfl
    · rw [if_neg hwrap, Nat.mod_eq_of_lt (by omega), if_neg (by simp)]

/-- Two serials, less than half a ring apart and with the wrap between them. -/
def Wraps (i j : ℕ) : Prop := i / (2 ^ 32 - 1) < j / (2 ^ 32 - 1)

instance (i j : ℕ) : Decidable (Wraps i j) := inferInstanceAs (Decidable (_ < _))

/-- **The order of publications.**  Of two publications less than `2^31` apart the later is newer
and the earlier is not, unless they are `2^31 - 1` apart with the wrap between them: skipping zero
makes their distance `2^31`, and neither is newer. -/
theorem newer_serial {i j : ℕ} (hij : i < j) (hfar : j - i < 2 ^ 31) :
    (frameIsNewer (serial j) (serial i) = true ∧ frameIsNewer (serial i) (serial j) = false) ↔
      ¬(j - i = 2 ^ 31 - 1 ∧ Wraps i j) := by
  have hnewer : ∀ a b, frameIsNewer (serial a) (serial b) = true ↔
      (serial a - serial b).toNat ≠ 0 ∧ (serial a - serial b).toNat < 2 ^ 31 := by
    intro a b
    have hzero : ∀ d : UInt32, d = 0 ↔ d.toNat = 0 := fun d => UInt32.toNat_inj.symm
    simp [frameIsNewer, serial_ne_zero, UInt32.lt_iff_toNat_lt, hzero (_ - _)]
  have hdistance : ∀ a b, (serial a - serial b).toNat =
      (2 ^ 32 - (b % (2 ^ 32 - 1) + 1) + (a % (2 ^ 32 - 1) + 1)) % 2 ^ 32 := by
    intro a b
    rw [UInt32.toNat_sub, serial_toNat, serial_toNat]
  rw [← Bool.not_eq_true, hnewer, hnewer, hdistance, hdistance]
  unfold Wraps
  -- The two are in the same turn of the ring or in adjacent ones.
  have hi := Nat.div_add_mod i (2 ^ 32 - 1)
  have hj := Nat.div_add_mod j (2 ^ 32 - 1)
  have hri : i % (2 ^ 32 - 1) < 2 ^ 32 - 1 := Nat.mod_lt _ (by decide)
  have hrj : j % (2 ^ 32 - 1) < 2 ^ 32 - 1 := Nat.mod_lt _ (by decide)
  generalize i / (2 ^ 32 - 1) = qi, j / (2 ^ 32 - 1) = qj, i % (2 ^ 32 - 1) = ri,
    j % (2 ^ 32 - 1) = rj at *
  have hturn : qj = qi ∨ qj = qi + 1 := by omega
  rcases hturn with rfl | rfl
  · omega
  · omega

/-! ## The invariant -/

/-- **What the readers can get is what is on show.**  `veiled` says that a cold run is being started
and the last publication has been invalidated. -/
structure Publishing (veiled : Prop) (m : Store) : Prop where
  owned : m.frames.Owned
  hidden : veiled → onShow m.trace = none
  empty : onShow m.trace = none →
    m.publishedFrameRunGeneration = 0 ∧ m.frames.observeLatest = none
  shown : ∀ frame, onShow m.trace = some frame →
    m.publishedFrameRunGeneration = m.runGeneration ∧ m.frames.observeLatest = some frame ∧
      m.publishedFrameSequence = frame.sequence ∧ m.publishedFrameGraphics = frame.graphics
  counted : m.publishedFrameSequence = lastSerial (publications m.trace).length
  numbered : ∀ i frame, (publications m.trace)[i]? = some frame → frame.sequence = serial i

namespace Publishing

variable {veiled veiled' : Prop} {m m' : Store} {obs : List Obs}

/-- The store moves on, and frames are not concerned. -/
theorem move (h : Publishing veiled m) (hh : veiled' → veiled)
    (hframes : m'.publishedFrameSequence = m.publishedFrameSequence ∧
      m'.publishedFrameRunGeneration = m.publishedFrameRunGeneration ∧
      m'.publishedFrameGraphics = m.publishedFrameGraphics ∧ m'.frames = m.frames)
    (hruns : m'.runGeneration = m.runGeneration) (htrace : m'.trace = m.trace)
    (hobs : ∀ x ∈ obs, x.isFrame = false) :
    Publishing veiled' { m' with trace := obs ++ m'.trace } := by
  obtain ⟨hsequence, hgeneration, hgraphics, hf⟩ := hframes
  obtain ⟨hs, hp⟩ := ledger_quiet m.trace hobs
  constructor <;> simp only [htrace, hs, hp, hsequence, hgeneration, hgraphics, hf, hruns]
  · exact h.owned
  · exact fun hveiled => h.hidden (hh hveiled)
  · exact h.empty
  · exact h.shown
  · exact h.counted
  · exact h.numbered

/-- The roles of the exchange move on, and the newest publication stays in sight. -/
theorem exchange {frames : FrameExchange WindowFrame} (h : Publishing veiled m)
    (howned : frames.Owned) (hlatest : frames.observeLatest = m.frames.observeLatest) :
    Publishing veiled { m with frames := frames } where
  owned := howned
  hidden := h.hidden
  empty := by
    rw [hlatest]
    exact h.empty
  shown := by
    rw [hlatest]
    exact h.shown
  counted := h.counted
  numbered := h.numbered

theorem view (h : Publishing veiled m) (v : Viewing) :
    Publishing veiled { m with frames := v.on m.frames } := by
  cases v with
  | take => exact h.exchange (FrameExchange.owned_take h.owned) (by simp [Viewing.on])
  | finish success =>
    exact h.exchange (FrameExchange.owned_finish h.owned success)
      (FrameExchange.observeLatest_finish h.owned success)
  | redraw => exact h.exchange (FrameExchange.owned_redraw h.owned) (by simp [Viewing.on])
  | detach =>
    exact h.exchange (FrameExchange.owned_detach h.owned) (FrameExchange.observeLatest_detach h.owned)

/-- The producer draws in its own slot. -/
theorem draw (h : Publishing veiled m) (frame : WindowFrame) :
    Publishing veiled { m with frames := m.frames.write frame } :=
  h.exchange (FrameExchange.owned_write h.owned frame) (FrameExchange.observeLatest_write h.owned frame)

theorem publish (h : Publishing veiled m) (frame : FrameInfo) :
    Publishing False { m with
      publishedFrameSequence := m.nextSequence
      publishedFrameRunGeneration := m.runGeneration
      publishedFrameGraphics := frame.graphics
      frames := (m.frames.write (m.stamp frame)).publish
      trace := .published (m.stamp frame) :: m.trace } := by
  have hnext := nextSequence_eq h.counted
  refine ⟨FrameExchange.owned_publish (FrameExchange.owned_write h.owned _), False.elim, ?_, ?_, ?_, ?_⟩
  · intro hnone
    cases hnone
  · intro f hf
    cases hf
    exact ⟨rfl, FrameExchange.observeLatest_write_publish h.owned _, rfl, rfl⟩
  · simpa [publications, lastSerial] using hnext
  · intro i f hf
    rcases Nat.lt_or_ge i (publications m.trace).length with hi | hi
    · rw [publications, List.getElem?_append_left hi] at hf
      exact h.numbered i f hf
    · rw [publications, List.getElem?_append_right hi] at hf
      rw [List.getElem?_singleton] at hf
      split at hf <;> cases hf
      obtain rfl : i = (publications m.trace).length := by omega
      exact hnext

theorem hide (h : Publishing veiled m) :
    Publishing True { m with
      publishedFrameRunGeneration := 0
      publishedFrameGraphics := false
      frames := m.frames.invalidate
      trace := .hidden :: m.trace } where
  owned := FrameExchange.owned_invalidate h.owned
  hidden _ := rfl
  empty _ := ⟨rfl, FrameExchange.observeLatest_invalidate _⟩
  shown _ hf := by cases hf
  counted := h.counted
  numbered := h.numbered

/-- A cold run is counted with nothing on show. -/
theorem count (h : Publishing veiled m) (hh : veiled) :
    Publishing veiled { m with
      runGeneration := m.runGeneration + 1
      trace := .coldRun :: m.trace } where
  owned := h.owned
  hidden _ := rfl
  empty _ := h.empty (h.hidden hh)
  shown _ hf := by cases hf
  counted := h.counted
  numbered := h.numbered

theorem mono (h : Publishing veiled m) (hh : veiled' → veiled) : Publishing veiled' m :=
  { h with hidden := fun hveiled => h.hidden (hh hveiled) }

end Publishing

/-! ## The operations -/

/-- The operations on which the published frame depends. -/
def Op.onFrames : ∀ {β : Type}, Op β → Bool
  | _, .publishFrame _ | _, .invalidatePublishedFrame | _, .view _ | _, .copyFrame
  | _, .addRunGeneration => true
  | _, _ => false

/-- The last publication is invalidated: the worker has published nothing since, or the control
thread starts a cold run. -/
def Veiled (w : WorkerPhase) (c : ControlPhase) : Prop :=
  w.hid = true ∨ c.hid = true ∧ ∃ r, c.stand = .cold r

section Operations

variable {β : Type} {t : Tid} {o : Op β} {a : Answer} {b : β} {w w' : WorkerPhase}
  {c c' : ControlPhase} {m m' : Store}

/-- The others leave the frames alone. -/
theorem Publishing.other {veiled veiled' : Prop} (h : Publishing veiled m) (hh : veiled' → veiled)
    (ho : o.onFrames = false) (hexec : m.effect t a β o = some (b, m')) :
    Publishing veiled' { m' with trace := m.observe t β o b ++ m'.trace } := by
  have hquiet : ∀ x ∈ m.observe t β o b, x.isFrame = false := fun x hx => by
    cases Store.mem_observe hx with
    | published frame shown | hidden | coldRun => cases ho
    | _ => rfl
  have hleaves := Store.effect_leaves hexec
  exact h.move hh (hleaves.frames fun hw => by cases hw <;> cases ho)
    (hleaves.runs fun hw => by cases hw; cases ho) hleaves.trace hquiet

section Worker

open WorkerPhase WorkerPhase.Stepping

/-- The worker remembers what it has hidden until it publishes. -/
theorem next_onFrames (ho : o.onFrames = false) :
    (WorkerPhase.next β w o b).Lands fun w' => w'.hid = w.hid := by
  cases o with
  | exchange f v =>
    cases f <;> cases v <;> simp
    all_goals split <;> simp
  | load f => cases f <;> simp
  | write f v => cases f <;> simp <;> split <;> simp
  | setExecutorCallback installed =>
    cases installed <;> simp
    split <;> simp
  | publishFrame frame | invalidatePublishedFrame | view v | copyFrame | addRunGeneration => cases ho
  | _ => simp <;> split <;> simp

theorem frames_worker (hO : Orderly w c m) (h : Publishing (Veiled w c) m)
    (hexec : m.effect .worker a β o = some (b, m')) (hnext : WorkerPhase.next β w o b = .go w') :
    Publishing (Veiled w' c) { m' with trace := m.observe .worker β o b ++ m'.trace } := by
  by_cases ho : o.onFrames = false
  · refine h.other (fun hv => ?_) ho hexec
    rwa [Veiled, (next_onFrames ho).go hnext] at hv
  cases o with
  | publishFrame frame =>
    cases hexec
    simp at hnext
    obtain ⟨hp, rfl⟩ := hnext
    refine (h.publish frame).mono fun hv => ?_
    obtain ⟨r, hr⟩ := (hv.resolve_left (by simp)).2
    exact live_not_cold hO hp r hr
  | invalidatePublishedFrame =>
    cases hexec
    exact h.hide.mono fun _ => trivial
  | copyFrame =>
    cases hexec
    cases hnext
    exact h.draw _
  | addRunGeneration =>
    cases hexec
    simp at hnext
    split at hnext <;> simp at hnext
    all_goals
      obtain ⟨hhid, rfl⟩ := hnext
      exact h.count (.inl hhid)
  | view v => cases hnext
  | _ => exact absurd rfl ho

end Worker

/-- Where the control thread is not starting a cold run… -/
theorem Veiled.of_warm (h : ∀ r, c'.stand ≠ .cold r) (hv : Veiled w c') : Veiled w c :=
  .inl (hv.resolve_right fun ⟨_, r, hr⟩ => h r hr)

/-- …and where it goes on starting one. -/
theorem Veiled.of_cold {r : Renewal} (hstand : c.stand = .cold r) (hhid : c'.hid = c.hid)
    (hv : Veiled w c') : Veiled w c :=
  hv.imp_right fun ⟨hh, _⟩ => ⟨hhid ▸ hh, r, hstand⟩

/-- The control thread remembers what it has hidden while it starts a cold run. -/
theorem control_onFrames (ho : o.onFrames = false) :
    (ControlPhase.next β c o b).Lands fun c' => Veiled w c' → Veiled w c := by
  cases o with
  | exchange f v =>
    simp only [ControlPhase.next, ControlPhase.onExchange]
    split
    all_goals first
      | exact trivial
      | exact id
      | exact Veiled.of_warm (by simp)
      | exact (lands_allowIf ..).mpr fun _ => Veiled.of_warm (by simp)
  | load f =>
    cases f with
    | terminateRequested =>
      refine (lands_allowIf ..).mpr fun _ => ?_
      split
      · exact id
      · exact Veiled.of_warm (by simp)
    | _ => exact trivial
  | loadState =>
    simp only [ControlPhase.next, ControlPhase.onLoadState]
    split
    · refine Veiled.of_warm fun r => ?_
      dsimp only
      split <;> simp
    · refine Veiled.of_warm fun r => ?_
      dsimp only
      split <;> simp
    · exact id
    · exact trivial
  | storeState s =>
    simp only [ControlPhase.next]
    split
    · exact (lands_allowIf ..).mpr fun _ => Veiled.of_cold ‹_› rfl
    · exact trivial
  | debugInvalidate =>
    simp only [ControlPhase.next, ControlPhase.onInvalidate]
    split
    · exact id
    · exact fun hv => .inl (hv.resolve_right fun hh => Bool.false_ne_true hh.1)
    · exact trivial
  | read f =>
    simp only [ControlPhase.next, ControlPhase.onRead]
    split <;> exact id
  | write f v =>
    simp only [ControlPhase.next, ControlPhase.onWrite]
    split <;> first | exact trivial | exact id
  | signal e =>
    simp only [ControlPhase.next, ControlPhase.onSignal, lands_unlessFailed]
    split <;> first | exact fun _ => trivial | exact fun _ => id
  | reset e =>
    simp only [ControlPhase.next, ControlPhase.onReset, lands_unlessFailed]
    split <;> first | exact fun _ => trivial | exact fun _ => Veiled.of_warm (by simp)
  | waitAny es =>
    simp only [ControlPhase.next, ControlPhase.onWait]
    split
    · exact (lands_allowIf ..).mpr fun _ => Veiled.of_warm (by simp)
    all_goals exact trivial
  | requestCancel => exact (lands_unlessFailed ..).mpr fun _ => (lands_allowIf ..).mpr fun _ => id
  | join =>
    exact (lands_unlessFailed ..).mpr fun _ => (lands_allowIf ..).mpr fun _ => Veiled.of_warm (by simp)
  | inputAdmit accepting =>
    simp only [ControlPhase.next]
    split
    · exact (lands_allowIf ..).mpr fun _ => id
    · exact trivial
  | inputClear =>
    simp only [ControlPhase.next]
    split
    · exact Veiled.of_cold ‹_› rfl
    · exact trivial
  | nextCall | returned => exact (lands_allowIf ..).mpr fun _ => Veiled.of_warm (by simp)
  | publishFrame frame | invalidatePublishedFrame | view v | copyFrame | addRunGeneration => cases ho
  | loadDebugGeneration | lock | unlock | requestStop | requestWake => exact id
  | _ => exact trivial

theorem frames_control (h : Publishing (Veiled w c) m)
    (hexec : m.effect .control a β o = some (b, m')) (hnext : ControlPhase.next β c o b = .go c') :
    Publishing (Veiled w c') { m' with trace := m.observe .control β o b ++ m'.trace } := by
  by_cases ho : o.onFrames = false
  · exact h.other ((control_onFrames ho).go hnext) ho hexec
  cases o with
  | invalidatePublishedFrame =>
    cases hexec
    exact h.hide.mono fun _ => trivial
  | addRunGeneration =>
    cases hexec
    simp only [ControlPhase.next, allowIf_eq_go, decide_eq_true_eq] at hnext
    obtain ⟨⟨hs, hhid⟩, hnext⟩ := hnext
    cases hnext
    have hveiled : Veiled w c := .inr ⟨hhid, _, hs⟩
    exact (h.count hveiled).mono fun _ => hveiled
  | publishFrame frame | view v | copyFrame => cases hnext
  | _ => exact absurd rfl ho

theorem frames_kept : Kept fun w c m => Publishing (Veiled w c) m where
  worker := frames_worker
  control _ := frames_control
  producer _ h hexec hnext :=
    h.other id (by cases producerNext_produces hnext nofun <;> rfl) hexec
  canceller _ h hexec hnext :=
    h.other id (by cases cancellerNext_cancels hnext nofun <;> rfl) hexec
  viewer {n β o a b w c m m'} _ h hexec hnext := by
    cases viewerNext_views hnext nofun with
    | view v =>
      cases hexec
      exact h.view v
    | nextView => exact h.other id rfl hexec

end Operations

/-! ## Runs -/

variable {hooks : Hooks} {schedule : List (Tid × Answer)} {c : Config Tid Op Store}

theorem runs_frames (hrun : runs hooks schedule = some c) (hfault : c.store.nativeFault = false) :
    ∃ veiled, Publishing veiled c.store := by
  have hboot : Publishing (Veiled {} {}) .created :=
    ⟨FrameExchange.owned_create _ _, by simp [Veiled], fun _ => ⟨rfl, rfl⟩, fun _ hf => (by cases hf), rfl,
      fun _ _ hf => (by cases hf)⟩
  obtain ⟨w, p, -, hP, -⟩ := runs_keep frames_kept hboot hrun hfault
  exact ⟨_, hP⟩

/-- **Published frames belong to the current run.**  After every run: the presentation read of a
generation returns the frame on show in it, or nothing, exactly unless generation zero is asked for
with nothing on show; the copy always does; the frame on show was published since the last cold run;
no publication has sequence zero; and `emulator_session_frame_is_newer` orders publications less than
`2^31` apart, exactly unless they are `2^31 - 1` apart across the wrap. -/
theorem frames_of_current_run (hrun : runs hooks schedule = some c)
    (hfault : c.store.nativeFault = false) :
    (∀ g, (c.store.readPresentation g =
        if g = c.store.runGeneration then
          (onShow c.store.trace).map fun frame => (frame.sequence, frame.graphics)
        else none) ↔ ¬(g = 0 ∧ onShow c.store.trace = none)) ∧
    (∀ g storage, c.store.copyPublishedFrame g storage =
      if g = c.store.runGeneration ∧ storage = true then onShow c.store.trace else none) ∧
    (∀ frame, onShow c.store.trace = some frame → ∃ since before,
      c.store.trace = since ++ .published frame :: before ∧ Obs.coldRun ∉ since) ∧
    (∀ frame ∈ publications c.store.trace, frame.sequence ≠ 0) ∧
    ∀ i j earlier later, i < j → j - i < 2 ^ 31 →
      (publications c.store.trace)[i]? = some earlier →
      (publications c.store.trace)[j]? = some later →
      ((frameIsNewer later.sequence earlier.sequence = true ∧
        frameIsNewer earlier.sequence later.sequence = false) ↔
          ¬(j - i = 2 ^ 31 - 1 ∧ Wraps i j)) := by
  obtain ⟨veiled, hP⟩ := runs_frames hrun hfault
  refine ⟨fun g => ?_, fun g storage => ?_, fun _ => onShow_eq_some, fun frame hf => ?_, ?_⟩
  · unfold Store.readPresentation
    cases hshow : onShow c.store.trace with
    | none =>
      rw [(hP.empty hshow).1]
      by_cases hg : g = 0 <;> simp [hg, eq_comm]
    | some frame =>
      obtain ⟨hgeneration, -, hsequence, hgraphics⟩ := hP.shown _ hshow
      rw [hgeneration, hsequence, hgraphics]
      by_cases hg : g = c.store.runGeneration <;> simp [hg, eq_comm]
  · unfold Store.copyPublishedFrame
    cases hshow : onShow c.store.trace with
    | none => simp [(hP.empty hshow).2]
    | some frame =>
      obtain ⟨hgeneration, hlatest, -, -⟩ := hP.shown _ hshow
      rw [hgeneration, hlatest]
      by_cases hg : g = c.store.runGeneration <;> simp [hg, eq_comm]
  · obtain ⟨i, hi⟩ := List.mem_iff_getElem?.mp hf
    rw [hP.numbered i frame hi]
    exact serial_ne_zero i
  · intro i j earlier later hij hfar hi hj
    rw [hP.numbered i _ hi, hP.numbered j _ hj]
    exact newer_serial hij hfar

/-- An image of one pixel. -/
def anImage : FrameInfo where
  graphics := true
  spec := some (1, 1, 1)
  windowStatus := .ok
  consoleStatus := .ok

/-- A machine is started and runs, and publishes an image. -/
def publishedOnce : List (Tid × Answer) :=
  moves .control 1 {} ++ moves .control 1 { call := .start } ++ moves .control 13 {} ++
    moves .worker 38 { yes := true, callback := true, frame := some anImage }

theorem frames_of_current_run_published :
    ∃ c, runs Hooks.bare publishedOnce = some c ∧ c.store.runGeneration = 1 ∧
      c.store.readPresentation 1 = some (1, true) ∧
      c.store.copyPublishedFrame 1 true = onShow c.store.trace := by
  have hany : (runs Hooks.bare publishedOnce).any (fun c => c.store.runGeneration = 1 ∧
      c.store.readPresentation 1 = some (1, true) ∧ c.store.nativeFault = false) = true := by
    decide
  obtain ⟨c, hrun, hc⟩ := (Option.any_eq_true _ _).mp hany
  simp only [decide_eq_true_eq] at hc
  obtain ⟨hgeneration, hread, hfault⟩ := hc
  refine ⟨c, hrun, hgeneration, hread, ?_⟩
  rw [(frames_of_current_run hrun hfault).2.1]
  simp [hgeneration]

/-- Before its first run a machine reads a presentation of its own generation although nothing was
published; and a publication just before the wrap and one `2^31 - 1` later are not ordered. -/
theorem presentation_before_first_run :
    (boot Hooks.bare).store.readPresentation (boot Hooks.bare).store.runGeneration = some (0, false) ∧
    publications (boot Hooks.bare).store.trace = [] ∧
    frameIsNewer (serial (2 ^ 32 - 2 + (2 ^ 31 - 1))) (serial (2 ^ 32 - 2)) = false := by
  decide

end SoftPC.Machine
