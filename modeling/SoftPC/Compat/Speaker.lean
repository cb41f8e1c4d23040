import SoftPC.Lib.Types
import Mathlib.Data.List.Iterate
import Mathlib.Tactic.Common

/-!
# Compat/Speaker — the speaker's tones, and the worker that plays them

`compat/audio.c`.  The machine writes one **request** — a frequency, a duration, a generation — under
a lock and signals the worker; the first tone after silence is kept as the **onset** as well, so that a
gate-off that follows at once does not erase it.  The worker takes the onset or the request and submits
its square wave to the PCM stream, which accepts what it has room for.

Every section under the lock is one step, and so is every call into the stream; what the stream and
the synchronization library answer is part of the schedule (`Answer`).  A generation counts without
end here, and the code compares it modulo 2^32.

Two lists are kept beside the state of the source: the tones written, and what the stream has accepted
of which tone.
-/

namespace SoftPC.Speaker

/-- `SOFTPC_SPEAKER_SAMPLE_RATE`. -/
abbrev sampleRate : ℕ := 48000

/-- `SOFTPC_SPEAKER_BLOCK_FRAMES`. -/
abbrev blockFrames : ℕ := 512

/-- `SOFTPC_SPEAKER_MIN_HZ` and `SOFTPC_SPEAKER_MAX_HZ`. -/
abbrev minHz : UInt32 := 10
abbrev maxHz : UInt32 := 20000

abbrev infinite : UInt32 := 0xffffffff

/-- `softpc_speaker_tone`. -/
structure Tone where
  frequency : UInt32
  duration : UInt32
  generation : ℕ
  deriving DecidableEq

/-- The two generations are one `lib_u32`. -/
def Tone.sameGeneration (t u : Tone) : Bool := t.generation % 2 ^ 32 = u.generation % 2 ^ 32

/-- A tone with a duration. -/
def Tone.finite (t : Tone) : Bool := t.frequency ≠ 0 && t.duration ≠ infinite

/-- The frames of a finite tone. -/
def Tone.frames (t : Tone) : ℕ := t.duration.toNat * sampleRate / 1000

/-! ## The wave -/

/-- One sample. -/
def sample (frequency : UInt32) (phase : ℕ) : ℤ :=
  if frequency = 0 then 0 else if phase < sampleRate / 2 then 12000 else -12000

/-- The phase of the next frame, a `lib_u32`. -/
def nextPhase (frequency : UInt32) (phase : ℕ) : ℕ :=
  let next := (phase + frequency.toNat) % 2 ^ 32
  if next ≥ sampleRate then next - sampleRate else next

/-- So many samples, from a phase on. -/
def samples (frequency : UInt32) (phase count : ℕ) : List ℤ :=
  (List.iterate (nextPhase frequency) phase count).map (sample frequency)

/-- What has been accepted: frames of a tone; and where the worker started the phase anew. -/
inductive Played where
  | tone (t : Tone) (frames : ℕ)
  | restart
  deriving DecidableEq

/-! ## The worker -/

/-- Where `softpc_speaker_worker` is. -/
inductive Place where
  /-- It waits for the stop event or a wake. -/
  | waiting
  /-- The wake is to be reset. -/
  | woken
  /-- At the head of its inner loop. -/
  | taking
  /-- A request without a frequency: the stream is to be flushed. -/
  | silent
  /-- At the head of the loop of `softpc_speaker_submit_finite`. -/
  | finite (t : Tone) (requireCurrent : Bool) (framesRemaining : ℕ)
  | submitting (t : Tone) (requireCurrent : Bool) (framesRemaining : ℕ)
  /-- It waits until the stream is writable. -/
  | room (t : Tone) (requireCurrent : Bool) (framesRemaining : ℕ)
  | flushing (t : Tone)
  | completing (t : Tone)
  /-- A tone without end: its next block is to be submitted. -/
  | endless (t : Tone)
  | endlessRoom (t : Tone)
  /-- The request is to be read again. -/
  | checking (t : Tone)
  /-- It has returned. -/
  | stopped
  deriving DecidableEq

/-- How `base_sync_wait_any` ends. -/
inductive Wait where
  | wake | stop | error
  deriving DecidableEq

/-- What the world answers during one step of the worker. -/
structure Answer where
  wait : Wait := .wake
  /-- The status of the call that the step makes. -/
  status : Status := .ok
  /-- How many frames the stream accepts, if it is offered as many. -/
  accepted : ℕ := blockFrames
  deriving DecidableEq

/-- The speaker. -/
structure State where
  request : Tone
  onset : Tone
  onsetPending : Bool
  /-- `softpc_speaker_wake` is signalled. -/
  wake : Bool
  /-- Writes whose signal is yet to come. -/
  signals : ℕ
  place : Place
  phase : ℕ
  /-- The accepted samples. -/
  out : List ℤ
  /-- The tones written, the last one first. -/
  commands : List Tone
  log : List Played
  deriving DecidableEq

namespace State

variable (s : State) (a : Answer)

/-- `softpc_speaker_write_request`. -/
def writeRequest (frequency duration : UInt32) : State :=
  let tone : Tone := ⟨frequency, duration, s.request.generation + 1⟩
  let starts := frequency ≠ 0 ∧ s.request.frequency = 0
  { s with
    onset := if starts then tone else s.onset
    onsetPending := if starts then true else s.onsetPending
    request := tone
    commands := tone :: s.commands }

/-- `softpc_standalone_audio_set_tone` up to its signal. -/
def setTone (frequency duration : UInt32) : State :=
  let tone := if frequency < minHz ∨ frequency > maxHz then (0, 0) else (frequency, duration)
  { s.writeRequest tone.1 tone.2 with signals := s.signals + 1 }

/-- `softpc_speaker_stop_request`, after a failure. -/
def fail : State :=
  { s with
    request := ⟨0, 0, s.request.generation + 1⟩
    onsetPending := false
    place := .stopped }

/-- A call of the worker's has answered: it goes on to the next place, or fails. -/
def goOn (place : Place) : State := if a.status = .ok then { s with place } else s.fail

/-- `softpc_speaker_submit` of so many frames: all of them are generated, and the phase is rolled
forward for the accepted ones. -/
def submit (t : Tone) (frameCount : ℕ) : ℕ × Status × State :=
  let accepted := min a.accepted frameCount
  let block := samples t.frequency s.phase frameCount
  let s' := { s with
    out := s.out ++ block.take accepted
    log := s.log ++ [Played.tone t accepted] }
  if accepted ≠ frameCount then
    (accepted, if a.status = .ok then .limitExceeded else a.status,
      { s' with phase := (nextPhase t.frequency)^[accepted] s.phase })
  else (accepted, a.status, { s' with phase := (nextPhase t.frequency)^[frameCount] s.phase })

/-- The tone that `softpc_speaker_take_request` hands out. -/
def taken : Tone := if s.onsetPending then s.onset else s.request

/-- `softpc_speaker_take_request`, and which way the inner loop goes with it. -/
def take : State :=
  let t := s.taken
  { s with
    onsetPending := false
    place :=
      if t.frequency = 0 then .silent
      else if t.duration ≠ infinite then .finite t (!s.onsetPending) t.frames
      else .endless t }

/-- `softpc_speaker_complete_finite`. -/
def completeFinite (t : Tone) : State :=
  if s.request.sameGeneration t then
    { s with request := ⟨0, 0, s.request.generation + 1⟩ }
  else s

/-- A block has been submitted: the next place when it was accepted, when the stream is full, or the
worker fails. -/
def submitted (status : Status) (next full : Place) : State :=
  if status = .ok then { s with place := next }
  else if status = .limitExceeded then { s with place := full }
  else s.fail

/-- The request is read again behind a block of a tone without end. -/
def check (t : Tone) : State :=
  if s.request.sameGeneration t then { s with place := .taking }
  else if s.request.frequency = 0 then { s with place := .silent }
  else { s with place := .taking, phase := 0, log := s.log ++ [Played.restart] }

/-- One step of the worker. -/
def work : State :=
  match s.place with
  | .waiting =>
    match a.wait with
    | .wake => if s.wake then { s with place := .woken } else s
    | .stop => { s with place := .stopped }
    | .error => s.fail
  | .woken => if a.status = .ok then { s with wake := false, place := .taking } else s.fail
  | .taking => s.take
  | .silent => s.goOn a .waiting
  | .finite t requireCurrent n =>
    { s with place :=
        if n = 0 then .flushing t
        else if requireCurrent && !s.request.sameGeneration t then .completing t
        else .submitting t requireCurrent n }
  | .submitting t requireCurrent n =>
    let (accepted, status, s) := s.submit a t (min n blockFrames)
    s.submitted status (.finite t requireCurrent (n - accepted)) (.room t requireCurrent (n - accepted))
  | .room t requireCurrent n => s.goOn a (.finite t requireCurrent n)
  | .flushing t => s.goOn a (.completing t)
  | .completing t => { s.completeFinite t with place := .waiting }
  | .endless t =>
    let (_, status, s) := s.submit a t blockFrames
    s.submitted status (.checking t) (.endlessRoom t)
  | .endlessRoom t => s.goOn a (.checking t)
  | .checking t => s.check t
  | .stopped => s

end State

/-! ## Runs -/

/-- What happens next. -/
inductive Event where
  | setTone (frequency duration : UInt32)
  /-- A write's signal arrives. -/
  | signal
  /-- `softpc_speaker_cancel_onset`. -/
  | cancelOnset
  | worker (a : Answer)
  deriving DecidableEq

namespace State

/-- One step. -/
def step (s : State) : Event → State
  | .setTone frequency duration => s.setTone frequency duration
  | .signal => if s.signals = 0 then s else { s with wake := true, signals := s.signals - 1 }
  | .cancelOnset => { s with onsetPending := false }
  | .worker a => s.work a

def run (s : State) (events : List Event) : State := events.foldl step s

end State

/-- After `softpc_platform_audio_start`, with its own silent request. -/
def started : State where
  request := ⟨0, 0, 1⟩
  onset := ⟨0, 0, 0⟩
  onsetPending := false
  wake := false
  signals := 0
  place := .waiting
  phase := 0
  out := []
  commands := [⟨0, 0, 1⟩]
  log := []

/-! ## What is promised -/

/-- The frames accepted of the tone of a generation. -/
def delivered : List Played → ℕ → ℕ
  | [], _ => 0
  | .tone t n :: log, g => (if t.generation = g then n else 0) + delivered log g
  | .restart :: log, g => delivered log g

/-- Frames of one tone that follow each other are one stretch of it. -/
def merge : List Played → List Played
  | [] => []
  | .restart :: log => .restart :: merge log
  | [.tone t n] => [.tone t n]
  | .tone t m :: .tone u n :: log =>
    if t = u then merge (.tone t (m + n) :: log) else .tone t m :: merge (.tone u n :: log)
  | .tone t m :: .restart :: log => .tone t m :: .restart :: merge log
termination_by log => log.length

/-- One stretch of a tone, played in one go behind the samples and the phase so far. -/
def play (wave : List ℤ × ℕ) : Played → List ℤ × ℕ
  | .tone t n =>
    (wave.1 ++ samples t.frequency wave.2 n, (nextPhase t.frequency)^[n] wave.2)
  | .restart => (wave.1, 0)

/-- The samples of stretches, and the phase behind them. -/
def waveform (log : List Played) : List ℤ × ℕ := log.foldl play ([], 0)

namespace State

variable (s : State)

/-- Nothing is left to do: the worker waits, and no wake is there or yet to come. -/
def Quiescent : Prop := s.place = .waiting ∧ s.wake = false ∧ s.signals = 0

/-- The phase is below the sample rate; the accepted samples are those of stretches of the tones
written, each played in one go; and a finite tone is never played for longer than its duration, nor for less
unless a later tone was written. -/
structure Faithful : Prop where
  phase_lt : s.phase < sampleRate
  commanded : ∀ t n, .tone t n ∈ s.log → t ∈ s.commands
  waveform : (s.out, s.phase) = waveform (merge s.log)
  delivers : ∀ t ∈ s.commands, t.finite →
    delivered s.log t.generation ≤ t.frames ∧
      (s.Quiescent → delivered s.log t.generation = t.frames ∨
        ∃ later ∈ s.commands, t.generation < later.generation)

/-- A finite onset is about to be taken, which a later finite tone has superseded whose wake is
already gone. -/
def strands : Bool :=
  s.place = .taking && s.onsetPending && s.onset.finite && s.request.finite &&
    s.onset.generation ≠ s.request.generation && !s.wake && s.signals = 0

/-- A finite tone is about to be completed, and the request is a later one 2^32 writes on. -/
def aliases : Bool :=
  match s.place with
  | .completing t =>
    s.request.sameGeneration t && s.request.finite && s.request.generation ≠ t.generation
  | _ => false

/-- The next step is none of these two. -/
def meets (s : State) : Event → Bool
  | .worker _ => !s.strands && !s.aliases
  | _ => true

/-- No step of a run is one of these two. -/
def sound : State → List Event → Bool
  | _, [] => true
  | s, event :: events => s.meets event && sound (s.step event) events

end State

/-! ## The wave -/

theorem nextPhase_lt {frequency : UInt32} (hf : frequency ≤ maxHz) {phase : ℕ}
    (h : phase < sampleRate) : nextPhase frequency phase < sampleRate := by
  have hhertz : frequency.toNat ≤ 20000 := UInt32.le_iff_toNat_le.mp hf
  have hmod : (phase + frequency.toNat) % 2 ^ 32 = phase + frequency.toNat :=
    Nat.mod_eq_of_lt (by unfold sampleRate at h; omega)
  unfold nextPhase
  dsimp only
  rw [hmod]
  unfold sampleRate at h ⊢
  split <;> omega

/-- **The phase stays below the sample rate.** -/
theorem iterate_nextPhase_lt {frequency : UInt32} (hf : frequency ≤ maxHz) {phase : ℕ}
    (h : phase < sampleRate) (n : ℕ) : (nextPhase frequency)^[n] phase < sampleRate := by
  induction n with
  | zero => exact h
  | succ n ih =>
    rw [Function.iterate_succ_apply']
    exact nextPhase_lt hf ih

/-- A wave interrupted after `m` frames goes on where it stopped. -/
theorem samples_add (frequency : UInt32) (phase m n : ℕ) :
    samples frequency phase (m + n) =
      samples frequency phase m ++ samples frequency ((nextPhase frequency)^[m] phase) n := by
  rw [samples, List.iterate_add, List.map_append]
  rfl

/-- The accepted part of a block is what a shorter block would have been. -/
theorem take_samples (frequency : UInt32) (phase : ℕ) {m n : ℕ} (h : m ≤ n) :
    (samples frequency phase n).take m = samples frequency phase m := by
  obtain ⟨k, rfl⟩ := Nat.exists_eq_add_of_le h
  rw [samples_add, List.take_left']
  rw [samples, List.length_map, List.length_iterate]

theorem waveform_append (log : List Played) (played : Played) :
    waveform (log ++ [played]) = play (waveform log) played := by
  rw [waveform, List.foldl_append]
  rfl

theorem delivered_append (g : ℕ) :
    ∀ log log' : List Played, delivered (log ++ log') g = delivered log g + delivered log' g
  | [], _ => (Nat.zero_add _).symm
  | .tone t n :: log, log' => by
    rw [List.cons_append, delivered, delivered, delivered_append g log log', Nat.add_assoc]
  | .restart :: log, log' => delivered_append g log log'

theorem delivered_tone {t : Tone} {g : ℕ} (h : t.generation = g) (log : List Played) (n : ℕ) :
    delivered (log ++ [.tone t n]) g = delivered log g + n := by
  rw [delivered_append, delivered, if_pos h, delivered, Nat.add_zero]

theorem delivered_tone_ne {t : Tone} {g : ℕ} (h : t.generation ≠ g) (log : List Played) (n : ℕ) :
    delivered (log ++ [.tone t n]) g = delivered log g := by
  rw [delivered_append, delivered, if_neg h, delivered]
  rfl

theorem delivered_restart (log : List Played) (g : ℕ) :
    delivered (log ++ [.restart]) g = delivered log g := by
  rw [delivered_append]
  rfl

/-! ## The invariant -/

/-- The tone that the worker plays. -/
def Place.tone : Place → Option Tone
  | .finite t _ _ | .submitting t _ _ | .room t _ _ | .flushing t | .completing t | .endless t |
    .endlessRoom t | .checking t => some t
  | _ => none

/-- From here the worker takes the request before it waits again. -/
def Place.awake : Place → Bool
  | .woken | .taking | .endless _ | .endlessRoom _ | .checking _ => true
  | _ => false

/-- What is left to play of a finite tone is what has not been delivered of it. -/
def Place.Serves (log : List Played) (request : Tone) : Place → Prop
  | .finite t _ n | .submitting t _ n | .room t _ n =>
    t.finite ∧ delivered log t.generation + n = t.frames
  | .flushing t => t.finite ∧ delivered log t.generation = t.frames
  | .completing t =>
    t.finite ∧ (delivered log t.generation = t.frames ∨ t.generation < request.generation)
  | .endless t | .endlessRoom t | .checking t => t.finite = false
  | _ => True

namespace State

/-- The last tone written, if it is finite, has been played, or is being played, or waits for a
worker that will look. -/
def Settled (s : State) (t : Tone) : Prop :=
  (t.generation < s.request.generation ∧ delivered s.log t.generation = t.frames) ∨
  (s.request = t ∧ ∃ u, s.place.tone = some u ∧ u.generation = t.generation) ∨
  (s.request = t ∧ delivered s.log t.generation = 0 ∧
    (s.place.awake ∨ s.wake ∨ 0 < s.signals))

/-- No later tone has been written. -/
def Latest (s : State) (t : Tone) : Prop :=
  t ∈ s.commands ∧ ∀ u ∈ s.commands, u.generation ≤ t.generation

/-- The invariant of sound runs. -/
structure Inv (s : State) : Prop where
  phase_lt : s.phase < sampleRate
  log_mem : ∀ t n, .tone t n ∈ s.log → t ∈ s.commands
  wave : (s.out, s.phase) = waveform s.log
  hertz : ∀ t ∈ s.commands, t.frequency ≤ maxHz
  /-- A generation is one tone's. -/
  unique : ∀ t ∈ s.commands, ∀ u ∈ s.commands, t.generation = u.generation → t = u
  bounded : ∀ t ∈ s.commands, t.generation ≤ s.request.generation
  /-- The request is a tone written, or the silence behind the last one. -/
  request_mem : s.request ∈ s.commands ∨
    (s.request.frequency = 0 ∧ ∀ t ∈ s.commands, t.generation < s.request.generation)
  fresh : ∀ g, s.request.generation < g → delivered s.log g = 0
  /-- A pending onset has not been played. -/
  onset : s.onsetPending → s.onset ∈ s.commands ∧ s.onset.frequency ≠ 0 ∧
    delivered s.log s.onset.generation = 0 ∧
    ∀ t, s.place.tone = some t → t.generation ≠ s.onset.generation
  tone_mem : ∀ t, s.place.tone = some t → t ∈ s.commands
  serves : s.place.Serves s.log s.request
  delivered_le : ∀ t ∈ s.commands, t.finite → delivered s.log t.generation ≤ t.frames
  settled : s.place ≠ .stopped → ∀ t, s.Latest t → t.finite → s.Settled t

variable {s : State}

theorem frequency_ne_zero {t : Tone} (h : t.finite) : t.frequency ≠ 0 := by
  unfold Tone.finite at h
  exact of_decide_eq_true (Bool.and_eq_true_iff.mp h).1

/-- The tone played is the only one of its generation. -/
theorem Inv.playing (h : s.Inv) {t u : Tone} (htone : s.place.tone = some t) (hu : u ∈ s.commands)
    (hplays : ∃ v, s.place.tone = some v ∧ v.generation = u.generation) : u = t := by
  obtain ⟨v, hv, hgen⟩ := hplays
  obtain rfl := Option.some.inj (htone.symm.trans hv)
  exact h.unique u hu t (h.tone_mem t htone) hgen.symm

/-- A write is the latest tone, and its signal is yet to come. -/
theorem Inv.setTone (h : s.Inv) (frequency duration : UInt32) :
    (s.setTone frequency duration).Inv := by
  unfold State.setTone
  dsimp only
  generalize htone : (if frequency < minHz ∨ frequency > maxHz then ((0, 0) : UInt32 × UInt32)
    else (frequency, duration)) = tone
  have hhertz : tone.1 ≤ maxHz := by
    rw [← htone]
    split
    · decide
    · rename_i hout
      exact UInt32.not_lt.mp fun hlt => hout (.inr hlt)
  have hfresh := h.fresh _ (Nat.lt_succ_self s.request.generation)
  have hlt : ∀ t ∈ s.commands, t.generation < s.request.generation + 1 := fun t ht =>
    Nat.lt_succ_of_le (h.bounded t ht)
  exact
  { phase_lt := h.phase_lt
    log_mem := fun t n hplayed => List.mem_cons_of_mem _ (h.log_mem t n hplayed)
    wave := h.wave
    hertz := List.forall_mem_cons.mpr ⟨hhertz, h.hertz⟩
    unique := by
      intro t ht u hu heq
      rcases List.mem_cons.mp ht with rfl | ht <;> rcases List.mem_cons.mp hu with rfl | hu
      · rfl
      · exact absurd heq (hlt u hu).ne'
      · exact absurd heq (hlt t ht).ne
      · exact h.unique t ht u hu heq
    bounded := List.forall_mem_cons.mpr ⟨le_rfl, fun t ht => (hlt t ht).le⟩
    request_mem := .inl List.mem_cons_self
    fresh := fun g hg => h.fresh g (Nat.lt_of_succ_lt hg)
    onset := by
      intro hpending
      by_cases hstarts : tone.1 ≠ 0 ∧ s.request.frequency = 0
      · simp only [writeRequest, if_pos hstarts]
        exact ⟨List.mem_cons_self, hstarts.1, hfresh, fun t ht => (hlt t (h.tone_mem t ht)).ne⟩
      · simp only [writeRequest, if_neg hstarts] at hpending ⊢
        obtain ⟨hmem, hrest⟩ := h.onset hpending
        exact ⟨List.mem_cons_of_mem _ hmem, hrest⟩
    tone_mem := fun t ht => List.mem_cons_of_mem _ (h.tone_mem t ht)
    serves := by
      have := h.serves
      simp only [writeRequest]
      cases hplace : s.place with
      | completing t =>
        rw [hplace] at this
        exact ⟨this.1, this.2.imp_right fun hlt => Nat.lt_succ_of_lt hlt⟩
      | _ => rw [hplace] at this; exact this
    delivered_le := by
      refine List.forall_mem_cons.mpr ⟨fun _ => ?_, h.delivered_le⟩
      exact hfresh.trans_le (Nat.zero_le _)
    settled := by
      intro _ t ht _
      rcases List.mem_cons.mp ht.1 with rfl | hmem
      · exact .inr (.inr ⟨rfl, hfresh, .inr (.inr (Nat.succ_pos _))⟩)
      · exact absurd (ht.2 _ List.mem_cons_self) (Nat.not_le.mpr (hlt t hmem)) }

theorem Inv.signal (h : s.Inv) :
    ({ s with wake := true, signals := s.signals - 1 } : State).Inv :=
  { h with
    settled := fun hplace t ht hfinite => by
      rcases h.settled hplace t ht hfinite with hdone | hplays | ⟨heq, hzero, _⟩
      · exact .inl hdone
      · exact .inr (.inl hplays)
      · exact .inr (.inr ⟨heq, hzero, .inr (.inl rfl)⟩) }

theorem Inv.cancelOnset (h : s.Inv) : ({ s with onsetPending := false } : State).Inv :=
  { h with onset := fun hpending => by cases hpending }

theorem Inv.fail (h : s.Inv) : s.fail.Inv where
  phase_lt := h.phase_lt
  log_mem := h.log_mem
  wave := h.wave
  hertz := h.hertz
  unique := h.unique
  bounded t ht := (h.bounded t ht).trans (Nat.le_succ _)
  request_mem := .inr ⟨rfl, fun t ht => Nat.lt_succ_of_le (h.bounded t ht)⟩
  fresh g hg := h.fresh g (Nat.lt_of_succ_lt hg)
  onset hpending := by cases hpending
  tone_mem _ ht := by cases ht
  serves := trivial
  delivered_le := h.delivered_le
  settled hplace := absurd rfl hplace

/-- The worker goes from one place to another, and nothing is played. -/
theorem Inv.move (h : s.Inv) (hrunning : s.place ≠ .stopped) {place : Place} {wake : Bool}
    (hserves : place.Serves s.log s.request)
    (htone : ∀ t, place.tone = some t → s.place.tone = some t)
    (hsettled : place ≠ .stopped → ∀ t, s.Latest t → t.finite → s.Settled t →
      ({ s with place, wake } : State).Settled t) : ({ s with place, wake } : State).Inv :=
  { h with
    onset := fun hpending => by
      obtain ⟨hmem, hne, hzero, hother⟩ := h.onset hpending
      exact ⟨hmem, hne, hzero, fun t ht => hother t (htone t ht)⟩
    tone_mem := fun t ht => h.tone_mem t (htone t ht)
    serves := hserves
    settled := fun hplace t ht hfinite =>
      hsettled hplace t ht hfinite (h.settled hrunning t ht hfinite) }

/-- Frames of the tone that the worker plays have been accepted. -/
def accept (s : State) (t : Tone) (frames : ℕ) (place : Place) : State :=
  { s with
    out := s.out ++ samples t.frequency s.phase frames
    log := s.log ++ [.tone t frames]
    phase := (nextPhase t.frequency)^[frames] s.phase
    place }

/-- **What is submitted does not depend on how much is accepted at once.** -/
theorem submit_eq (s : State) (a : Answer) (t : Tone) (frameCount : ℕ) :
    let accepted := min a.accepted frameCount
    s.submit a t frameCount =
      (accepted, if accepted ≠ frameCount ∧ a.status = .ok then .limitExceeded else a.status,
        s.accept t accepted s.place) := by
  dsimp only
  unfold State.submit
  dsimp only
  by_cases hall : min a.accepted frameCount = frameCount
  · rw [if_neg (not_not.mpr hall), if_neg fun h => h.1 hall, hall,
      take_samples _ _ (le_refl frameCount)]
    rfl
  · rw [if_pos hall, take_samples _ _ (Nat.min_le_right _ _)]
    simp only [hall, ne_eq, not_false_eq_true, true_and]
    rfl

theorem Inv.accept (h : s.Inv) {t : Tone} {frames : ℕ} {place : Place}
    (htone : s.place.tone = some t) (htone' : place.tone = some t)
    (hserves : place.Serves (s.log ++ [.tone t frames]) s.request)
    (hle : t.finite → delivered s.log t.generation + frames ≤ t.frames)
    (hawake : s.place.awake → place.awake) : (s.accept t frames place).Inv := by
  have ht := h.tone_mem t htone
  have hother : ∀ u ∈ s.commands, u ≠ t →
      delivered (s.log ++ [.tone t frames]) u.generation = delivered s.log u.generation :=
    fun u hu hne => delivered_tone_ne (fun heq => hne (h.unique u hu t ht heq.symm)) _ _
  exact
  { phase_lt := iterate_nextPhase_lt (h.hertz t ht) h.phase_lt _
    log_mem := fun u n hplayed => by
      rcases List.mem_append.mp hplayed with hold | hnew
      · exact h.log_mem u n hold
      · rw [List.mem_singleton, Played.tone.injEq] at hnew
        exact hnew.1 ▸ ht
    wave := by
      simp only [State.accept]
      rw [waveform_append, ← h.wave]
      rfl
    hertz := h.hertz
    unique := h.unique
    bounded := h.bounded
    request_mem := h.request_mem
    fresh := fun g hg => by
      simp only [State.accept]
      rw [delivered_tone_ne ((h.bounded t ht).trans_lt hg).ne]
      exact h.fresh g hg
    onset := fun hpending => by
      obtain ⟨hmem, hne, hzero, hapart⟩ := h.onset hpending
      refine ⟨hmem, hne, ?_, fun u hu => hapart u ?_⟩
      · exact (delivered_tone_ne (hapart t htone) _ _).trans hzero
      · exact htone.trans (htone'.symm.trans hu)
    tone_mem := fun u hu => by
      rw [show place.tone = some u from hu] at htone'
      rwa [Option.some.inj htone']
    serves := hserves
    delivered_le := fun u hu hfinite => by
      by_cases hut : u = t
      · rw [hut] at hfinite ⊢
        exact (delivered_tone rfl _ _).trans_le (hle hfinite)
      · exact (hother u hu hut).trans_le (h.delivered_le u hu hfinite)
    settled := fun hplace u hu hfinite => by
      have hrunning : s.place ≠ .stopped := fun hstopped => by
        rw [hstopped] at htone
        cases htone
      by_cases hut : u = t
      · -- the tone played is the last one written
        subst hut
        rcases h.settled hrunning u hu hfinite with ⟨hlt, hdone⟩ | ⟨heq, _⟩ | ⟨heq, _⟩
        · have hzero : frames = 0 := by
            have := hle hfinite
            omega
          refine .inl ⟨hlt, ?_⟩
          exact (delivered_tone rfl _ _).trans (by rw [hdone, hzero, Nat.add_zero])
        · exact .inr (.inl ⟨heq, u, htone', rfl⟩)
        · exact .inr (.inl ⟨heq, u, htone', rfl⟩)
      · have hsame := hother u hu.1 hut
        rcases h.settled hrunning u hu hfinite with ⟨hlt, hdone⟩ | ⟨_, hplays⟩ |
            ⟨heq, hzero, hlook⟩
        · exact .inl ⟨hlt, hsame.trans hdone⟩
        · exact absurd (h.playing htone hu.1 hplays) hut
        · exact .inr (.inr ⟨heq, hsame.trans hzero, hlook.imp_left hawake⟩) }

theorem Inv.restart (h : s.Inv) {t : Tone} (hplace : s.place = .checking t) :
    ({ s with place := .taking, phase := 0, log := s.log ++ [.restart] } : State).Inv where
  phase_lt := show 0 < sampleRate by decide
  log_mem u n hplayed := by
    rcases List.mem_append.mp hplayed with hold | hnew
    · exact h.log_mem u n hold
    · cases List.mem_singleton.mp hnew
  wave := by
    rw [waveform_append, ← h.wave]
    rfl
  hertz := h.hertz
  unique := h.unique
  bounded := h.bounded
  request_mem := h.request_mem
  fresh g hg := (delivered_restart _ _).trans (h.fresh g hg)
  onset hpending := by
    obtain ⟨hmem, hne, hzero, _⟩ := h.onset hpending
    exact ⟨hmem, hne, (delivered_restart _ _).trans hzero, fun u hu => by cases hu⟩
  tone_mem u hu := by cases hu
  serves := trivial
  delivered_le u hu hfinite := (delivered_restart _ _).trans_le (h.delivered_le u hu hfinite)
  settled _ u hu hfinite := by
    have hinfinite := h.serves
    rw [hplace] at hinfinite
    have htone : s.place.tone = some t := by rw [hplace]; rfl
    have hrunning : s.place ≠ .stopped := by rw [hplace]; exact Place.noConfusion
    rcases h.settled hrunning u hu hfinite with ⟨hlt, hdone⟩ | ⟨_, hplays⟩ | ⟨heq, hzero, _⟩
    · exact .inl ⟨hlt, (delivered_restart _ _).trans hdone⟩
    · rw [h.playing htone hu.1 hplays] at hfinite
      exact absurd (hfinite.symm.trans hinfinite) (by decide)
    · exact .inr (.inr ⟨heq, (delivered_restart _ _).trans hzero, .inl rfl⟩)

/-- A finite tone is complete: when it is still the request, silence follows it. -/
theorem Inv.complete (h : s.Inv) {t : Tone} (hplace : s.place = .completing t)
    (hgood : ¬s.aliases) : ({ s.completeFinite t with place := .waiting } : State).Inv := by
  have htone : s.place.tone = some t := by rw [hplace]; rfl
  have ht := h.tone_mem t htone
  have hserves := h.serves
  rw [hplace] at hserves
  obtain ⟨hfinite, hserved⟩ := hserves
  have hrunning : s.place ≠ .stopped := by rw [hplace]; exact Place.noConfusion
  unfold completeFinite
  by_cases hsame : s.request.sameGeneration t
  · rw [if_pos hsame]
    exact
    { h with
      bounded := fun u hu => (h.bounded u hu).trans (Nat.le_succ _)
      request_mem := .inr ⟨rfl, fun u hu => Nat.lt_succ_of_le (h.bounded u hu)⟩
      fresh := fun g hg => h.fresh g (Nat.lt_of_succ_lt hg)
      onset := fun hpending => by
        obtain ⟨hmem, hne, hzero, _⟩ := h.onset hpending
        exact ⟨hmem, hne, hzero, fun u hu => by cases hu⟩
      tone_mem := fun u hu => by cases hu
      serves := trivial
      settled := fun _ u hu hufinite => by
        have hnext : u.generation < s.request.generation + 1 := Nat.lt_succ_of_le (h.bounded u hu.1)
        by_cases hut : u = t
        · subst hut
          rcases h.settled hrunning u hu hufinite with ⟨_, hdone⟩ | ⟨heq, _⟩ | ⟨heq, _⟩
          · exact .inl ⟨hnext, hdone⟩
          all_goals
            rw [heq] at hserved
            exact .inl ⟨hnext, hserved.resolve_right (Nat.lt_irrefl _)⟩
        · rcases h.settled hrunning u hu hufinite with ⟨_, hdone⟩ | ⟨_, hplays⟩ | ⟨heq, _⟩
          · exact .inl ⟨hnext, hdone⟩
          · exact absurd (h.playing htone hu.1 hplays) hut
          · refine absurd ?_ hgood
            have hgen : s.request.generation ≠ t.generation := fun hgen =>
              hut (h.unique u hu.1 t ht (heq ▸ hgen))
            simp [aliases, hplace, hsame, hgen, heq ▸ hufinite] }
  · rw [if_neg hsame]
    refine h.move hrunning trivial (fun u hu => by cases hu) fun _ u hu hufinite hsettled => ?_
    rcases hsettled with hdone | ⟨heq, hplays⟩ | ⟨heq, hzero, hlook⟩
    · exact .inl hdone
    · rw [heq, h.playing htone hu.1 hplays] at hsame
      exact absurd (decide_eq_true rfl) hsame
    · rw [hplace] at hlook
      exact .inr (.inr ⟨heq, hzero, hlook⟩)

/-- Which way the inner loop goes with a tone. -/
theorem take_cases (s : State) :
    (s.taken.frequency = 0 ∧ s.take = { s with onsetPending := false, place := .silent }) ∨
    (s.taken.frequency ≠ 0 ∧ s.taken.finite ∧ s.take = { s with
      onsetPending := false
      place := .finite s.taken (!s.onsetPending) s.taken.frames }) ∨
    (s.taken.frequency ≠ 0 ∧ s.taken.finite = false ∧
      s.take = { s with onsetPending := false, place := .endless s.taken }) := by
  unfold State.take Tone.finite
  dsimp only
  by_cases hsilent : s.taken.frequency = 0
  · exact .inl ⟨hsilent, by rw [if_pos hsilent]⟩
  · by_cases hfinite : s.taken.duration ≠ infinite
    · refine .inr (.inl ⟨hsilent, by simp [hsilent, hfinite], ?_⟩)
      rw [if_neg hsilent, if_pos hfinite]
    · refine .inr (.inr ⟨hsilent, by simp [not_not.mp hfinite], ?_⟩)
      rw [if_neg hsilent, if_neg hfinite]

/-- What is taken is a tone written, of which nothing has been played if it is finite. -/
theorem Inv.taken (h : s.Inv) (hplace : s.place = .taking) (hfrequency : s.taken.frequency ≠ 0) :
    s.taken ∈ s.commands ∧ (s.taken.finite → delivered s.log s.taken.generation = 0) := by
  unfold State.taken at *
  split at hfrequency
  · rename_i hpending
    obtain ⟨hmem, _, hzero, _⟩ := h.onset hpending
    rw [if_pos hpending]
    exact ⟨hmem, fun _ => hzero⟩
  · rename_i hpending
    rw [if_neg hpending]
    have hmem := h.request_mem.resolve_right fun hsilent => hfrequency hsilent.1
    refine ⟨hmem, fun hfinite => ?_⟩
    have hrunning : s.place ≠ .stopped := by rw [hplace]; exact Place.noConfusion
    rcases h.settled hrunning _ ⟨hmem, h.bounded⟩ hfinite with ⟨hlt, _⟩ | ⟨_, _, hv, _⟩ |
        ⟨_, hzero, _⟩
    · exact absurd hlt (Nat.lt_irrefl _)
    · rw [hplace] at hv
      cases hv
    · exact hzero

/-- Where a finite tone is taken that is not the finite request, a wake is there or yet to come. -/
theorem looks (s : State) (hplace : s.place = .taking) (hrequest : s.request.finite)
    (hfinite : s.taken.finite) (hother : s.taken.generation ≠ s.request.generation)
    (hgood : ¬s.strands) : s.wake ∨ 0 < s.signals := by
  unfold State.taken at hfinite hother
  split at hfinite
  · rename_i hpending
    rw [if_pos hpending] at hother
    by_contra hlost
    obtain ⟨hwake, hsignals⟩ := not_or.mp hlost
    refine hgood ?_
    simp [strands, hplace, hpending, hfinite, hrequest, hother, hwake, Nat.eq_zero_of_not_pos hsignals]
  · rename_i hpending
    rw [if_neg hpending] at hother
    exact absurd rfl hother

/-- A tone is taken: the onset, or the request. -/
theorem Inv.take (h : s.Inv) (hplace : s.place = .taking) (hgood : ¬s.strands) : s.take.Inv := by
  have hrunning : s.place ≠ .stopped := by rw [hplace]; exact Place.noConfusion
  have hidle : s.place.tone = none := by rw [hplace]; rfl
  -- the last tone written is settled already, or it is the request and nothing of it is played
  have hrequest : ∀ u, s.Latest u → u.finite →
      (u.generation < s.request.generation ∧ delivered s.log u.generation = u.frames) ∨
        (s.request = u ∧ delivered s.log u.generation = 0) := fun u hu hfinite => by
    rcases h.settled hrunning u hu hfinite with hdone | ⟨_, v, hv, _⟩ | ⟨heq, hzero, _⟩
    · exact .inl hdone
    · rw [hidle] at hv
      cases hv
    · exact .inr ⟨heq, hzero⟩
  rcases s.take_cases with ⟨hsilent, heq⟩ | ⟨hfrequency, hfinite, heq⟩ | ⟨hfrequency, hinfinite, heq⟩
  · rw [heq]
    exact
    { h.cancelOnset with
      onset := fun hpending => by cases hpending
      tone_mem := fun u hu => by cases hu
      serves := trivial
      settled := fun _ u hu hufinite => by
        rcases hrequest u hu hufinite with hdone | ⟨heq, hzero⟩
        · exact .inl hdone
        · refine absurd hsilent ?_
          unfold State.taken
          split
          · exact (h.onset ‹_›).2.1
          · rw [heq]
            exact frequency_ne_zero hufinite }
  · obtain ⟨hmem, hzero⟩ := h.taken hplace hfrequency
    rw [heq]
    exact
    { h.cancelOnset with
      onset := fun hpending => by cases hpending
      tone_mem := fun u hu => by obtain rfl := Option.some.inj hu; exact hmem
      serves := ⟨hfinite, by rw [hzero hfinite, Nat.zero_add]⟩
      settled := fun _ u hu hufinite => by
        rcases hrequest u hu hufinite with hdone | ⟨heq, hzero⟩
        · exact .inl hdone
        · by_cases hsame : s.taken.generation = u.generation
          · exact .inr (.inl ⟨heq, s.taken, rfl, hsame⟩)
          · refine .inr (.inr ⟨heq, hzero, .inr (s.looks hplace ?_ hfinite ?_ hgood)⟩)
            · rwa [heq]
            · rwa [heq] }
  · obtain ⟨hmem, _⟩ := h.taken hplace hfrequency
    rw [heq]
    exact
    { h.cancelOnset with
      onset := fun hpending => by cases hpending
      tone_mem := fun u hu => by obtain rfl := Option.some.inj hu; exact hmem
      serves := hinfinite
      settled := fun _ u hu hufinite => by
        rcases hrequest u hu hufinite with hdone | ⟨heq, hzero⟩
        · exact .inl hdone
        · exact .inr (.inr ⟨heq, hzero, .inl rfl⟩) }

/-- The worker goes on with the tone it plays, or with none. -/
theorem Inv.goes (h : s.Inv) {place place' : Place} (hplace : s.place = place)
    (hrunning : place ≠ .stopped) (hserves : place'.Serves s.log s.request)
    (htone : place'.tone = place.tone) (hawake : place.awake → place'.awake) :
    ({ s with place := place' } : State).Inv := by
  subst hplace
  refine h.move hrunning hserves (fun t ht => htone ▸ ht) fun _ t _ _ hsettled => ?_
  rcases hsettled with hdone | ⟨heq, u, hu, hgen⟩ | ⟨heq, hzero, hlook⟩
  · exact .inl hdone
  · exact .inr (.inl ⟨heq, u, htone.trans hu, hgen⟩)
  · exact .inr (.inr ⟨heq, hzero, hlook.imp_left hawake⟩)

theorem Inv.goOn (h : s.Inv) (a : Answer) {place : Place}
    (hplace : ({ s with place } : State).Inv) : (s.goOn a place).Inv := by
  unfold State.goOn
  split
  · exact hplace
  · exact h.fail

theorem Inv.submitted {s : State} {status : Status} {next full : Place}
    (hnext : ({ s with place := next } : State).Inv)
    (hfull : ({ s with place := full } : State).Inv) : (s.submitted status next full).Inv := by
  unfold State.submitted
  split
  · exact hnext
  · split
    · exact hfull
    · exact hnext.fail

/-- A tone without end is not the finite tone that is the request. -/
theorem Inv.check (h : s.Inv) {t : Tone} (hplace : s.place = .checking t) : (s.check t).Inv := by
  have hinfinite := h.serves
  rw [hplace] at hinfinite
  have htone : s.place.tone = some t := by rw [hplace]; rfl
  have hother : ∀ u, s.Latest u → u.finite →
      ¬∃ v, s.place.tone = some v ∧ v.generation = u.generation := fun u hu hfinite hplays => by
    rw [h.playing htone hu.1 hplays] at hfinite
    exact absurd (hfinite.symm.trans hinfinite) (by decide)
  have hrunning : s.place ≠ .stopped := by rw [hplace]; exact Place.noConfusion
  unfold State.check
  split
  · refine h.move hrunning trivial (fun u hu => by cases hu) fun _ u hu hfinite hsettled => ?_
    rcases hsettled with hdone | ⟨_, hplays⟩ | ⟨heq, hzero, _⟩
    · exact .inl hdone
    · exact absurd hplays (hother u hu hfinite)
    · exact .inr (.inr ⟨heq, hzero, .inl rfl⟩)
  · split
    · rename_i hsilent
      refine h.move hrunning trivial (fun u hu => by cases hu) fun _ u hu hfinite hsettled => ?_
      rcases hsettled with hdone | ⟨_, hplays⟩ | ⟨heq, _⟩
      · exact .inl hdone
      · exact absurd hplays (hother u hu hfinite)
      · exact absurd (heq ▸ hsilent) (frequency_ne_zero hfinite)
    · exact h.restart hplace

/-- **A step of the worker keeps the invariant**, but for the two steps that lose a tone. -/
theorem Inv.work (h : s.Inv) (a : Answer) (hstrands : ¬s.strands) (haliases : ¬s.aliases) :
    (s.work a).Inv := by
  have hserves := h.serves
  unfold State.work
  split
  case h_1 hplace =>
    split
    · split
      · exact h.goes hplace Place.noConfusion trivial rfl fun _ => rfl
      · exact h
    · exact h.move (by rw [hplace]; exact Place.noConfusion) trivial (fun u hu => by cases hu)
        fun hne => absurd rfl hne
    · exact h.fail
  case h_2 hplace =>
    split
    · refine h.move (by rw [hplace]; exact Place.noConfusion) trivial (fun u hu => by cases hu)
        fun _ u _ _ hsettled => ?_
      rcases hsettled with hdone | ⟨_, v, hv, _⟩ | ⟨heq, hzero, _⟩
      · exact .inl hdone
      · rw [hplace] at hv
        cases hv
      · exact .inr (.inr ⟨heq, hzero, .inl rfl⟩)
    · exact h.fail
  case h_3 hplace => exact h.take hplace hstrands
  case h_4 hplace => exact h.goOn a (h.goes hplace Place.noConfusion trivial rfl id)
  case h_5 t requireCurrent n hplace =>
    rw [hplace] at hserves
    split
    · rename_i hzero
      rw [hzero] at hserves
      exact h.goes hplace Place.noConfusion hserves rfl id
    · split
      · rename_i hold
        refine h.goes hplace Place.noConfusion ⟨hserves.1, .inr ?_⟩ rfl id
        have hle := h.bounded t (h.tone_mem t (by rw [hplace]; rfl))
        refine lt_of_le_of_ne hle fun heq => ?_
        simp [Tone.sameGeneration, heq] at hold
      · exact h.goes hplace Place.noConfusion hserves rfl id
  case h_6 t requireCurrent n hplace =>
    rw [hplace] at hserves
    have htone : s.place.tone = some t := by rw [hplace]; rfl
    rw [s.submit_eq a t (min n blockFrames)]
    dsimp only
    have hle : min a.accepted (min n blockFrames) ≤ n :=
      (Nat.min_le_right _ _).trans (Nat.min_le_left _ _)
    have hrest : delivered (s.log ++ [.tone t (min a.accepted (min n blockFrames))]) t.generation +
        (n - min a.accepted (min n blockFrames)) = t.frames := by
      rw [delivered_tone rfl, Nat.add_assoc, Nat.add_sub_cancel' hle]
      exact hserves.2
    have haccept : ∀ place, place.tone = some t →
        place.Serves (s.log ++ [.tone t (min a.accepted (min n blockFrames))]) s.request →
        (s.accept t (min a.accepted (min n blockFrames)) place).Inv := fun place hp hs =>
      h.accept htone hp hs (fun _ => by rw [← hserves.2]; exact Nat.add_le_add_left hle _)
        (by rw [hplace]; exact fun hawake => by cases hawake)
    exact Inv.submitted (haccept _ rfl ⟨hserves.1, hrest⟩) (haccept _ rfl ⟨hserves.1, hrest⟩)
  case h_7 t requireCurrent n hplace =>
    rw [hplace] at hserves
    exact h.goOn a (h.goes hplace Place.noConfusion hserves rfl id)
  case h_8 t hplace =>
    rw [hplace] at hserves
    exact h.goOn a (h.goes hplace Place.noConfusion ⟨hserves.1, .inl hserves.2⟩ rfl id)
  case h_9 t hplace => exact h.complete hplace haliases
  case h_10 t hplace =>
    rw [hplace] at hserves
    have htone : s.place.tone = some t := by rw [hplace]; rfl
    rw [s.submit_eq a t blockFrames]
    dsimp only
    have haccept : ∀ place, place.tone = some t → place.awake →
        place.Serves (s.log ++ [.tone t (min a.accepted blockFrames)]) s.request →
        (s.accept t (min a.accepted blockFrames) place).Inv := fun place hp hawake hs =>
      h.accept htone hp hs (fun hfinite => absurd (hfinite.symm.trans hserves) (by decide))
        fun _ => hawake
    exact Inv.submitted (haccept _ rfl rfl hserves) (haccept _ rfl rfl hserves)
  case h_11 t hplace =>
    rw [hplace] at hserves
    exact h.goOn a (h.goes hplace Place.noConfusion hserves rfl id)
  case h_12 t hplace => exact h.check hplace
  case h_13 => exact h

theorem Inv.step (h : s.Inv) {event : Event} (hmeets : s.meets event) : (s.step event).Inv := by
  cases event with
  | setTone frequency duration => exact h.setTone frequency duration
  | signal =>
    simp only [State.step]
    split
    · exact h
    · exact h.signal
  | cancelOnset => exact h.cancelOnset
  | worker a =>
    simp only [State.meets, Bool.and_eq_true, Bool.not_eq_true', ← Bool.not_eq_true] at hmeets
    exact h.work a hmeets.1 hmeets.2

theorem Inv.run : ∀ (events : List Event) {s : State}, s.Inv → s.sound events →
    (s.run events).Inv
  | [], _, h, _ => h
  | _ :: events, _, h, hsound =>
    have ⟨hmeets, hrest⟩ := Bool.and_eq_true_iff.mp hsound
    Inv.run events (h.step hmeets) hrest

end State

end SoftPC.Speaker
