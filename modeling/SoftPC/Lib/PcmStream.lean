import SoftPC.Lib.Types
import SoftPC.Machinery.Ring
import Mathlib.Data.List.TakeDrop
import Mathlib.Tactic.Common

/-!
# Lib/PcmStream — the producer queue of a PCM stream, and the worker that empties it

`lib/audio/pcm/stream.c`.  The producer appends frames to a ring under the stream's lock; the worker
copies a batch out, offers it to the platform outside the lock, and advances the ring by what the
platform accepted — unless the queue has been cleared meanwhile, which starts a new **epoch**.

Every section under the lock is one step, and so is every call into the platform; what the platform,
the notification and the synchronization library answer is part of the schedule (`Answer`).  The
producer's steps are not held back while it waits for the worker, so that the runs below include all
those of the source.
-/

namespace SoftPC.PcmStream

variable {α : Type}

/-- `AUDIO_PCM_STREAM_QUEUE_CAPACITY`, in frames. -/
abbrev capacity : ℕ := 4096

/-- `AUDIO_PCM_STREAM_PLAY_BATCH`. -/
def playBatch : ℕ := 1024

/-- `LIB_AUDIO_PCM_STREAM_MAX_FRAMES_PER_SUBMISSION`. -/
def maxFramesPerSubmission : ℕ := 512

/-- `LIB_UINT64_MAX`. -/
def uint64Max : ℕ := 2 ^ 64 - 1

/-- `audio_pcm_stream_control`. -/
inductive Control where
  | none | clear | gain | flush
  deriving DecidableEq

/-- `struct lib_audio_pcm_stream`.  A cell of the ring holds one frame, all its channels. -/
structure Stream (α : Type) where
  samples : ℕ → α
  head : ℕ := 0
  count : ℕ := 0
  /-- `progress.epoch`. -/
  epoch : ℕ := 0
  acceptedFrames : ℕ := 0
  submittedFrames : ℕ := 0
  consumedFrames : ℕ := 0
  /-- `notify != LIB_NULL`. -/
  notify : Bool := false
  gains : List UInt16 := []
  control : Control := .none
  active : Bool := true
  failure : Status := .ok
  /-- Cancellation of the worker is requested. -/
  cancelled : Bool := false

/-- What the world answers during one step. -/
structure Answer where
  /-- A signal of the synchronization library. -/
  signal : Status := .ok
  /-- … and the one that follows it at the end of the worker's loop, on `space`. -/
  space : Status := .ok
  /-- Other calls of it: an event reset, and the interruption of a platform wait. -/
  reset : Status := .ok
  interrupt : Status := .ok
  notified : Status := .ok
  /-- The platform's status. -/
  status : Status := .ok
  /-- … and how many frames of a batch it accepted. -/
  accepted : ℕ := 0
  submitted : ℕ := 0
  consumed : ℕ := 0
  /-- The wait for a wake ends with a signal, a cancellation, or neither. -/
  wait : Option Bool := some true

namespace Stream

variable (s : Stream α) (a : Answer)

/-- The queued frames, oldest first. -/
def contents : List α := Ring.window s.samples capacity s.head s.count

/-- `audio_pcm_stream_notify_locked`. -/
def notifyLocked : Stream α :=
  let failure := if s.notify && s.failure = .ok then a.notified else s.failure
  { s with failure, cancelled := s.cancelled || failure ≠ .ok }

/-- `audio_pcm_stream_fail_locked`. -/
def failLocked (status : Status) : Stream α :=
  if s.failure = .ok then { s with failure := status }.notifyLocked a else s

/-- `audio_pcm_stream_signal_locked`. -/
def signalLocked : Status × Stream α :=
  (a.signal, if a.signal ≠ .ok then s.failLocked a a.signal else s)

/-- What the platform reports is no progress of this epoch. -/
def regresses : Bool :=
  a.submitted < a.consumed || s.acceptedFrames < a.submitted || a.submitted < s.submittedFrames ||
    a.consumed < s.consumedFrames

/-- `audio_pcm_stream_observe_progress`. -/
def observeProgress (epoch : ℕ) : Stream α :=
  if s.epoch = epoch ∧ s.failure = .ok then
    let status := if a.status = .ok && s.regresses a then .ioError else a.status
    if status ≠ .ok then s.failLocked a status
    else if a.submitted ≠ s.submittedFrames ∨ a.consumed ≠ s.consumedFrames then
      { s with submittedFrames := a.submitted, consumedFrames := a.consumed }.notifyLocked a
    else s
  else s

/-- `audio_pcm_stream_copy_head`. -/
def copyHead (frameCount : ℕ) : List α :=
  (List.range frameCount).map fun index => s.samples ((s.head + index) % capacity)

/-- The copy loop of `lib_audio_pcm_stream_enqueue`. -/
def copyIn (frames : List α) : ℕ → α := Ring.write s.samples capacity (s.head + s.count) frames

/-- `lib_audio_pcm_stream_enqueue` under the lock, with the number of accepted frames.  A signal that
fails afterwards is a step of its own. -/
def enqueue (frames : List α) : Status × ℕ × Stream α :=
  if maxFramesPerSubmission < frames.length then (.invalidArgument, 0, s)
  else if frames.length = 0 then (.ok, 0, s)
  else if s.failure ≠ .ok then (s.failure, 0, s)
  else if !s.active then (.invalidState, 0, s)
  else
    let accepted := min (capacity - s.count) frames.length
    if uint64Max - s.acceptedFrames < accepted then (.limitExceeded, 0, s)
    else
      (if accepted = 0 then .limitExceeded else .ok, accepted, { s with
        samples := s.copyIn (frames.take accepted)
        count := s.count + accepted
        acceptedFrames := s.acceptedFrames + accepted })

/-- `audio_pcm_stream_control_request` up to its wait. -/
def controlRequest (control : Control) (gains : List UInt16) : Status × Stream α :=
  if s.failure ≠ .ok then (s.failure, s)
  else if control = .clear ∧ s.epoch = uint64Max then (.limitExceeded, s)
  else if a.reset ≠ .ok then (.ioError, s)
  else if a.interrupt ≠ .ok then (.ioError, s)
  else
    let s := if control = .clear then { s with
        head := 0
        count := 0
        epoch := s.epoch + 1
        acceptedFrames := 0
        submittedFrames := 0
        consumedFrames := 0 }
      else { s with gains }
    { s with control }.signalLocked a

/-- `lib_audio_pcm_stream_flush` up to its wait. -/
def flush : Status × Stream α :=
  if s.failure ≠ .ok ∨ !s.active ∨ s.count = 0 then
    (if s.failure = .ok ∧ !s.active then .invalidState else s.failure, s)
  else if a.reset ≠ .ok then (.ioError, s)
  else { s with control := .flush }.signalLocked a

end Stream

/-! ## The worker -/

/-- Where `audio_pcm_stream_worker` is. -/
inductive Phase (α : Type) where
  /-- At the head of its loop. -/
  | top
  | controlling (control : Control)
  /-- No batch: it waits for progress, or for a wake. -/
  | idle (generation : ℕ) (pendingOutput : Bool)
  | observing (generation : ℕ)
  /-- It holds a batch, and waits until the platform is writable. -/
  | writing (generation : ℕ) (batch : List α)
  /-- The platform is writable: the batch is offered. -/
  | offering (generation : ℕ) (batch : List α)
  /-- The platform has answered, and its progress is to be observed. -/
  | submitted (generation accepted : ℕ) (status : Status)
  | settling (generation accepted : ℕ) (status : Status)
  | stopped

/-- The two statuses that do not end a stream. -/
def Status.continues (status : Status) : Bool := status = .ok || status = .limitExceeded

namespace Stream

variable (s : Stream α) (a : Answer)

/-- The section at the head of the loop. -/
def take : Stream α × Phase α :=
  if s.cancelled then (s, .stopped)
  else if s.control = .clear ∨ s.control = .gain then
    ({ s with control := .none }, .controlling s.control)
  else if s.failure = .ok ∧ s.active ∧ s.count ≠ 0 then
    (s, .writing s.epoch (s.copyHead (min s.count playBatch)))
  else (s, .idle s.epoch (s.failure = .ok && s.consumedFrames < s.submittedFrames))

/-- The section after `audio_pcm_stream_platform_clear` or `audio_pcm_stream_platform_set_gain`. -/
def controlled (control : Control) : Stream α :=
  let s := if a.status ≠ .ok then s.failLocked a a.status
    else if control = .clear then s.notifyLocked a else s
  (s.signalLocked a).2

/-- The wait without a batch. -/
def wait (generation : ℕ) (pendingOutput : Bool) : Stream α × Phase α :=
  if pendingOutput then
    if s.cancelled then (s, .stopped)
    else if a.status = .ok then (s, .observing generation)
    else if a.status ≠ .limitExceeded then (s.failLocked a a.status, .top)
    else (s, .top)
  else
    match a.wait with
    | some true => (s, .top)
    | some false => (s, .stopped)
    | none => (s.failLocked a .ioError, .stopped)

/-- `audio_pcm_stream_platform_wait_writable` has answered. -/
def writable (generation : ℕ) (batch : List α) : Phase α :=
  if s.cancelled then .stopped
  else if a.status = .limitExceeded then .top
  else if a.status = .ok then .offering generation batch
  else .settling generation 0 a.status

/-- `audio_pcm_stream_platform_enqueue` has answered. -/
def offered (generation : ℕ) (batch : List α) : Phase α :=
  let accepted := if batch.length < a.accepted then 0 else a.accepted
  let status := if batch.length < a.accepted then .ioError
    else if a.status = .ok ∧ a.accepted ≠ batch.length then .ioError else a.status
  if Status.continues status then .submitted generation accepted status
  else .settling generation accepted status

/-- The queue moves on by what the platform accepted, if it is still the same queue. -/
def advance (generation accepted : ℕ) : Stream α :=
  if s.epoch = generation ∧ accepted ≤ s.count then
    { s with head := (s.head + accepted) % capacity, count := s.count - accepted }
  else s

/-- The section at the end of the loop. -/
def settle (generation accepted : ℕ) (status : Status) : Stream α :=
  let s := s.advance generation accepted
  let s := if !Status.continues status then s.failLocked a status else s
  let s := if s.control = .flush ∧ (s.failure ≠ .ok ∨ s.count = 0) then
    ({ s with control := .none }.signalLocked a).2 else s
  if accepted ≠ 0 ∨ s.failure ≠ .ok then (s.signalLocked { a with signal := a.space }).2 else s

end Stream

/-! ## Runs -/

/-- The stream, its worker, and by epoch the frames that `enqueue` and the platform have accepted,
oldest first. -/
structure System (α : Type) where
  stream : Stream α
  phase : Phase α
  enqueued : ℕ → List α
  played : ℕ → List α

/-- What happens next. -/
inductive Event (α : Type) where
  | enqueue (frames : List α)
  | clear (a : Answer)
  | setGain (gains : List UInt16) (a : Answer)
  | flush (a : Answer)
  /-- The last section of `lib_audio_pcm_stream_set_active`. -/
  | setActive (active : Bool)
  | setNotify (notify : Bool) (a : Answer)
  /-- A call outside the lock has failed. -/
  | fail (status : Status) (a : Answer)
  /-- `lib_audio_pcm_stream_destroy` cancels the worker. -/
  | cancel
  | worker (a : Answer)

namespace System

variable (x : System α)

/-- The platform has accepted frames of an epoch. -/
def accept (generation : ℕ) (frames : List α) : System α :=
  { x with played := Function.update x.played generation (x.played generation ++ frames) }

/-- One step of the worker. -/
def work (a : Answer) : System α :=
  match x.phase with
  | .top => { x with stream := x.stream.take.1, phase := x.stream.take.2 }
  | .controlling control => { x with stream := x.stream.controlled a control, phase := .top }
  | .idle generation pendingOutput =>
    { x with
      stream := (x.stream.wait a generation pendingOutput).1
      phase := (x.stream.wait a generation pendingOutput).2 }
  | .observing generation => { x with stream := x.stream.observeProgress a generation, phase := .top }
  | .writing generation batch => { x with phase := x.stream.writable a generation batch }
  | .offering generation batch =>
    { x.accept generation (batch.take a.accepted) with
      phase := Stream.offered a generation batch }
  | .submitted generation accepted status =>
    { x with
      stream := x.stream.observeProgress a generation
      phase := .settling generation accepted status }
  | .settling generation accepted status =>
    { x with stream := x.stream.settle a generation accepted status, phase := .top }
  | .stopped => x

/-- One step. -/
def step : Event α → System α
  | .enqueue frames =>
    { x with
      stream := (x.stream.enqueue frames).2.2
      enqueued := Function.update x.enqueued x.stream.epoch
        (x.enqueued x.stream.epoch ++ frames.take (x.stream.enqueue frames).2.1) }
  | .clear a => { x with stream := (x.stream.controlRequest a .clear []).2 }
  | .setGain gains a => { x with stream := (x.stream.controlRequest a .gain gains).2 }
  | .flush a => { x with stream := (x.stream.flush a).2 }
  | .setActive active => { x with stream := { x.stream with active } }
  | .setNotify notify a => { x with stream :=
      if notify then { x.stream with notify }.notifyLocked a else { x.stream with notify } }
  | .fail status a => { x with stream := x.stream.failLocked a status }
  | .cancel => { x with stream := { x.stream with cancelled := true } }
  | .worker a => x.work a

def run (events : List (Event α)) : System α := events.foldl step x

end System

/-- A created stream, its worker attached. -/
def created (samples : ℕ → α) : System α := ⟨{ samples }, .top, fun _ => [], fun _ => []⟩

/-! ## What the sections do -/

namespace Stream

variable {s s' s'' : Stream α} {a : Answer}

/-- Only the failure and the cancellation change, and a failure stays. -/
def Quiet (s s' : Stream α) : Prop :=
  ∃ failure cancelled, s' = { s with failure, cancelled } ∧ (s.failure ≠ .ok → failure ≠ .ok)

theorem Quiet.refl (s : Stream α) : Quiet s s := ⟨s.failure, s.cancelled, rfl, id⟩

theorem Quiet.trans (h : Quiet s s') (h' : Quiet s' s'') : Quiet s s'' := by
  obtain ⟨f, c, rfl, hf⟩ := h
  obtain ⟨f', c', rfl, hf'⟩ := h'
  exact ⟨f', c', rfl, fun hne => hf' (hf hne)⟩

theorem notifyLocked_quiet (s : Stream α) (a : Answer) : Quiet s (s.notifyLocked a) := by
  refine ⟨_, _, rfl, fun hne => ?_⟩
  simp [hne]

theorem failLocked_quiet (s : Stream α) (a : Answer) (status : Status) :
    Quiet s (s.failLocked a status) := by
  unfold failLocked
  split
  · obtain ⟨f, c, heq, -⟩ := notifyLocked_quiet { s with failure := status } a
    exact ⟨f, c, heq, fun hne => absurd ‹_› hne⟩
  · exact .refl s

theorem signalLocked_quiet (s : Stream α) (a : Answer) : Quiet s (s.signalLocked a).2 := by
  unfold signalLocked
  dsimp only
  split
  · exact failLocked_quiet s a a.signal
  · exact .refl s

/-- A failure that is reported is there. -/
theorem failLocked_failed {status : Status} (h : status ≠ .ok) :
    (s.failLocked a status).failure ≠ .ok := by
  unfold failLocked
  split
  · simp [notifyLocked, h]
  · assumption

/-- The counters of an epoch are in order. -/
def Ordered (s : Stream α) : Prop :=
  s.consumedFrames ≤ s.submittedFrames ∧ s.submittedFrames ≤ s.acceptedFrames

/-- The counters go on within an epoch, or start anew in the next. -/
def Progresses (s s' : Stream α) : Prop :=
  (s'.epoch = s.epoch ∧ s.acceptedFrames ≤ s'.acceptedFrames ∧
    s.submittedFrames ≤ s'.submittedFrames ∧ s.consumedFrames ≤ s'.consumedFrames) ∨
  (s'.epoch = s.epoch + 1 ∧ s'.acceptedFrames = 0 ∧ s'.submittedFrames = 0 ∧ s'.consumedFrames = 0)

/-- The queue and its epoch stay as they are; the platform's counters may go on. -/
structure Keeps (s s' : Stream α) : Prop where
  samples : s'.samples = s.samples
  head : s'.head = s.head
  count : s'.count = s.count
  epoch : s'.epoch = s.epoch
  accepted : s'.acceptedFrames = s.acceptedFrames
  submitted : s.submittedFrames ≤ s'.submittedFrames
  consumed : s.consumedFrames ≤ s'.consumedFrames
  ordered : s.Ordered → s'.Ordered
  failure : s.failure ≠ .ok → s'.failure ≠ .ok

theorem Quiet.keeps (h : Quiet s s') : Keeps s s' := by
  obtain ⟨f, c, rfl, hf⟩ := h
  exact ⟨rfl, rfl, rfl, rfl, rfl, le_rfl, le_rfl, id, hf⟩

theorem Keeps.refl (s : Stream α) : Keeps s s := (Quiet.refl s).keeps

theorem Keeps.trans (h : Keeps s s') (h' : Keeps s' s'') : Keeps s s'' where
  samples := h'.samples.trans h.samples
  head := h'.head.trans h.head
  count := h'.count.trans h.count
  epoch := h'.epoch.trans h.epoch
  accepted := h'.accepted.trans h.accepted
  submitted := h.submitted.trans h'.submitted
  consumed := h.consumed.trans h'.consumed
  ordered ho := h'.ordered (h.ordered ho)
  failure hf := h'.failure (h.failure hf)

theorem Keeps.contents (h : Keeps s s') : s'.contents = s.contents := by
  rw [Stream.contents, h.samples, h.head, h.count, Stream.contents]

theorem Keeps.failure_ok (h : Keeps s s') (hok : s'.failure = .ok) : s.failure = .ok := by
  by_contra hne
  exact h.failure hne hok

theorem Keeps.progresses (h : Keeps s s') : Progresses s s' :=
  .inl ⟨h.epoch, h.accepted.ge, h.submitted, h.consumed⟩

/-- The platform's progress is taken over only where it is progress. -/
theorem observeProgress_cases (s : Stream α) (a : Answer) (generation : ℕ) :
    Quiet s (s.observeProgress a generation) ∨
      (s.regresses a = false ∧
        Quiet { s with submittedFrames := a.submitted, consumedFrames := a.consumed }
          (s.observeProgress a generation)) := by
  unfold observeProgress
  split
  · by_cases hr : s.regresses a = true
    · refine .inl ?_
      by_cases hok : a.status = .ok
      · simpa [hr, hok] using failLocked_quiet s a .ioError
      · simp only [hok, decide_false, Bool.false_and, Bool.false_eq_true, if_false, ne_eq,
          not_false_eq_true, if_true]
        exact failLocked_quiet s a a.status
    · simp only [hr, Bool.and_false, Bool.false_eq_true, if_false]
      split_ifs
      · exact .inl (failLocked_quiet s a a.status)
      · exact .inr ⟨by simp, notifyLocked_quiet _ a⟩
      · exact .inl (.refl s)
  · exact .inl (.refl s)

/-- … so it keeps the queue, and the order of the counters. -/
theorem observeProgress_keeps (s : Stream α) (a : Answer) (generation : ℕ) :
    Keeps s (s.observeProgress a generation) := by
  rcases observeProgress_cases s a generation with h | ⟨hr, h⟩
  · exact h.keeps
  · simp only [regresses, Bool.or_eq_false_iff, decide_eq_false_iff_not, Nat.not_lt] at hr
    obtain ⟨⟨⟨hconsumed, haccepted⟩, hsubmitted⟩, hmore⟩ := hr
    refine Keeps.trans ?_ h.keeps
    exact ⟨rfl, rfl, rfl, rfl, rfl, hsubmitted, hmore, fun _ => ⟨hconsumed, haccepted⟩, id⟩

theorem take_keeps (s : Stream α) : Keeps s s.take.1 := by
  unfold take
  split_ifs
  · exact .refl s
  · exact ⟨rfl, rfl, rfl, rfl, rfl, le_rfl, le_rfl, id, id⟩
  · exact .refl s
  · exact .refl s

theorem controlled_keeps (s : Stream α) (a : Answer) (control : Control) :
    Keeps s (s.controlled a control) := by
  unfold controlled
  split_ifs
  · exact ((failLocked_quiet s a _).trans (signalLocked_quiet _ a)).keeps
  · exact ((notifyLocked_quiet s a).trans (signalLocked_quiet _ a)).keeps
  · exact (signalLocked_quiet s a).keeps

theorem wait_keeps (s : Stream α) (a : Answer) (generation : ℕ) (pendingOutput : Bool) :
    Keeps s (s.wait a generation pendingOutput).1 := by
  unfold wait
  split_ifs
  · exact .refl s
  · exact .refl s
  · exact (failLocked_quiet s a _).keeps
  · exact .refl s
  · rcases a.wait with _ | _ | _
    · exact (failLocked_quiet s a _).keeps
    · exact .refl s
    · exact .refl s

theorem flush_keeps (s : Stream α) (a : Answer) : Keeps s (s.flush a).2 := by
  unfold flush
  split_ifs
  · exact .refl s
  · exact .refl s
  · exact .refl s
  · refine .trans ?_ (signalLocked_quiet _ a).keeps
    exact ⟨rfl, rfl, rfl, rfl, rfl, le_rfl, le_rfl, id, id⟩

theorem setGain_keeps (s : Stream α) (a : Answer) (gains : List UInt16) :
    Keeps s (s.controlRequest a .gain gains).2 := by
  unfold controlRequest
  split_ifs with _ hclear
  · exact .refl s
  · exact absurd hclear.1 (by decide)
  · exact .refl s
  · exact .refl s
  · contradiction
  · refine .trans ?_ (signalLocked_quiet _ a).keeps
    exact ⟨rfl, rfl, rfl, rfl, rfl, le_rfl, le_rfl, id, id⟩

theorem setActive_keeps (s : Stream α) (active : Bool) : Keeps s { s with active } :=
  ⟨rfl, rfl, rfl, rfl, rfl, le_rfl, le_rfl, id, id⟩

theorem cancel_keeps (s : Stream α) : Keeps s { s with cancelled := true } :=
  ⟨rfl, rfl, rfl, rfl, rfl, le_rfl, le_rfl, id, id⟩

theorem setNotify_keeps (s : Stream α) (a : Answer) (notify : Bool) :
    Keeps s (if notify then { s with notify }.notifyLocked a else { s with notify }) := by
  have hset : Keeps s { s with notify } := ⟨rfl, rfl, rfl, rfl, rfl, le_rfl, le_rfl, id, id⟩
  cases notify
  · exact hset
  · exact hset.trans (notifyLocked_quiet _ a).keeps

/-- The queue of the next epoch. -/
def cleared (s : Stream α) : Stream α :=
  { s with
    head := 0
    count := 0
    epoch := s.epoch + 1
    acceptedFrames := 0
    submittedFrames := 0
    consumedFrames := 0 }

/-- A clear is refused, or starts the next epoch. -/
theorem clear_cases (s : Stream α) (a : Answer) :
    (s.controlRequest a .clear []).2 = s ∨
      Quiet { s.cleared with control := .clear } (s.controlRequest a .clear []).2 := by
  unfold controlRequest
  split_ifs
  · exact .inl rfl
  · exact .inl rfl
  · exact .inl rfl
  · exact .inl rfl
  · exact .inr (signalLocked_quiet _ a)
  · contradiction

/-- Frames are refused, or appended as far as they fit. -/
theorem enqueue_cases (s : Stream α) (frames : List α) :
    (s.enqueue frames).2 = (0, s) ∨
      ∃ n, n ≤ frames.length ∧ s.count + n ≤ max s.count capacity ∧
        s.failure = .ok ∧ (s.enqueue frames).2 = (n, { s with
          samples := s.copyIn (frames.take n)
          count := s.count + n
          acceptedFrames := s.acceptedFrames + n }) := by
  unfold enqueue
  dsimp only
  split_ifs with _ _ hfailure
  · exact .inl rfl
  · exact .inl rfl
  · exact .inl rfl
  · exact .inl rfl
  · exact .inl rfl
  all_goals exact .inr ⟨_, Nat.min_le_right _ _, by omega, by simpa using hfailure, rfl⟩

/-- The end of the loop moves the queue on, and reports what the platform failed with. -/
theorem settle_keeps (s : Stream α) (a : Answer) (generation accepted : ℕ) (status : Status) :
    Keeps (s.advance generation accepted) (s.settle a generation accepted status) ∧
      (Status.continues status = false → (s.settle a generation accepted status).failure ≠ .ok) := by
  unfold settle
  dsimp only
  generalize s.advance generation accepted = s₁
  have hfail : Keeps s₁ (if !Status.continues status then s₁.failLocked a status else s₁) ∧
      (Status.continues status = false →
        (if !Status.continues status then s₁.failLocked a status else s₁).failure ≠ .ok) := by
    cases hc : Status.continues status
    · refine ⟨(failLocked_quiet s₁ a status).keeps, fun _ => failLocked_failed ?_⟩
      rintro rfl
      simp [Status.continues] at hc
    · exact ⟨.refl s₁, nofun⟩
  generalize (if !Status.continues status then s₁.failLocked a status else s₁) = s₂ at hfail ⊢
  have hflush : Keeps s₂ (if s₂.control = .flush ∧ (s₂.failure ≠ .ok ∨ s₂.count = 0) then
      ({ s₂ with control := .none }.signalLocked a).2 else s₂) := by
    split
    · refine .trans ?_ (signalLocked_quiet _ a).keeps
      exact ⟨rfl, rfl, rfl, rfl, rfl, le_rfl, le_rfl, id, id⟩
    · exact .refl s₂
  generalize (if s₂.control = .flush ∧ (s₂.failure ≠ .ok ∨ s₂.count = 0) then
      ({ s₂ with control := .none }.signalLocked a).2 else s₂) = s₃ at hflush ⊢
  have hsignal : Keeps s₃ (if accepted ≠ 0 ∨ s₃.failure ≠ .ok then
      (s₃.signalLocked { a with signal := a.space }).2 else s₃) := by
    split
    · exact (signalLocked_quiet s₃ _).keeps
    · exact .refl s₃
  exact ⟨(hfail.1.trans hflush).trans hsignal,
    fun hc => hsignal.failure (hflush.failure (hfail.2 hc))⟩

/-- Appending to the ring appends to the queue. -/
theorem contents_copyIn (s : Stream α) {frames : List α} (h : s.count + frames.length ≤ capacity)
    (accepted : ℕ) :
    contents { s with
      samples := s.copyIn frames
      count := s.count + frames.length
      acceptedFrames := accepted } = s.contents ++ frames :=
  Ring.window_write s.samples h

/-- A batch is the start of the queue. -/
theorem copyHead_prefix (s : Stream α) {n : ℕ} (h : n ≤ s.count) : s.copyHead n <+: s.contents := by
  have hcopy : s.copyHead n = s.contents.take n := by
    rw [contents, Ring.window_take, Nat.min_eq_left h]
    rfl
  rw [hcopy]
  exact List.take_prefix n _

theorem contents_length (s : Stream α) : s.contents.length = s.count := Ring.window_length _ _ _ _

end Stream

/-! ## The invariant -/

namespace System

variable {x : System α}

/-- Unless the stream has failed, its queue is what the platform has yet to accept — past the `n`
frames that it has accepted and the queue still holds. -/
def Owes (x : System α) (n : ℕ) : Prop :=
  x.stream.failure = .ok → n ≤ x.stream.count ∧
    x.enqueued x.stream.epoch = x.played x.stream.epoch ++ x.stream.contents.drop n

/-- What the worker holds fits the queue. -/
def Fits (x : System α) : Phase α → Prop
  | .writing generation batch | .offering generation batch =>
    generation ≤ x.stream.epoch ∧ x.played generation ++ batch <+: x.enqueued generation ∧ x.Owes 0
  | .submitted generation accepted status | .settling generation accepted status =>
    generation ≤ x.stream.epoch ∧
      (generation ≠ x.stream.epoch → x.Owes 0) ∧
      (generation = x.stream.epoch → Status.continues status → x.Owes accepted)
  | _ => x.Owes 0

structure Inv (x : System α) : Prop where
  count_le : x.stream.count ≤ capacity
  /-- No epoch has begun before its time. -/
  later : ∀ e, x.stream.epoch < e → x.enqueued e = []
  played_prefix : ∀ e, x.played e <+: x.enqueued e
  total : x.stream.acceptedFrames = (x.enqueued x.stream.epoch).length
  ordered : x.stream.Ordered
  fits : x.Fits x.phase

/-- What the worker holds still fits when its epoch goes on. -/
theorem Fits.mono {y : System α} {phase : Phase α} (h : x.Fits phase)
    (hepoch : y.stream.epoch = x.stream.epoch) (hplayed : y.played = x.played)
    (henqueued : ∀ e, x.enqueued e <+: y.enqueued e) (howes : ∀ n, x.Owes n → y.Owes n) :
    y.Fits phase := by
  cases phase with
  | writing g b | offering g b =>
    obtain ⟨hg, hb, ho⟩ := h
    refine ⟨hg.trans hepoch.ge, ?_, howes 0 ho⟩
    rw [hplayed]
    exact hb.trans (henqueued g)
  | submitted g n st | settling g n st =>
    obtain ⟨hg, hold, hnew⟩ := h
    refine ⟨hg.trans hepoch.ge, fun hne => howes 0 (hold ?_), fun heq hc => howes n (hnew ?_ hc)⟩
    · rwa [← hepoch]
    · rwa [← hepoch]
  | top | controlling _ | idle _ _ | observing _ | stopped => exact howes 0 h

theorem Owes.keep {n : ℕ} (h : x.Owes n) {s' : Stream α} (hk : x.stream.Keeps s')
    {phase' : Phase α} : Owes { x with stream := s', phase := phase' } n := by
  intro hok
  obtain ⟨hn, heq⟩ := h (hk.failure_ok hok)
  dsimp only
  rw [hk.count, hk.epoch, hk.contents]
  exact ⟨hn, heq⟩

/-- A step that leaves the queue alone. -/
theorem Inv.of_keeps (h : Inv x) {s' : Stream α} {phase' : Phase α} (hk : x.stream.Keeps s')
    (hfits : Fits { x with stream := s', phase := phase' } phase') :
    Inv { x with stream := s', phase := phase' } where
  count_le := hk.count.le.trans h.count_le
  later e he := h.later e (hk.epoch.symm.trans_lt he)
  played_prefix := h.played_prefix
  total := by
    dsimp only
    rw [hk.accepted, hk.epoch]
    exact h.total
  ordered := hk.ordered h.ordered
  fits := hfits

theorem Inv.keep (h : Inv x) {s' : Stream α} {phase' : Phase α} (hk : x.stream.Keeps s')
    (hfits : x.Fits phase') : Inv { x with stream := s', phase := phase' } :=
  h.of_keeps hk (hfits.mono hk.epoch rfl (fun _ => List.prefix_rfl) fun _ ho => ho.keep hk)

/-- Frames are appended to the queue of their epoch. -/
theorem Inv.enqueue (h : Inv x) (frames : List α) : Inv (x.step (.enqueue frames)) := by
  unfold step
  dsimp only
  rcases Stream.enqueue_cases x.stream frames with heq | ⟨n, hn, hcount, hok, heq⟩
  · rw [heq]
    simpa using h
  · rw [heq]
    have hlength : (frames.take n).length = n := List.length_take_of_le hn
    have hroom : x.stream.count + (frames.take n).length ≤ capacity := by
      rw [hlength]
      exact hcount.trans (max_le h.count_le le_rfl)
    have henqueued : ∀ e, x.enqueued e <+: Function.update x.enqueued x.stream.epoch
        (x.enqueued x.stream.epoch ++ frames.take n) e := by
      intro e
      by_cases he : e = x.stream.epoch
      · rw [he, Function.update_self]
        exact List.prefix_append _ _
      · have hsame := Function.update_of_ne he (x.enqueued x.stream.epoch ++ frames.take n) x.enqueued
        exact hsame ▸ List.prefix_rfl
    refine ⟨hcount.trans (max_le h.count_le le_rfl), fun e he => ?_, fun e => ?_, ?_, ?_, ?_⟩
    · exact (Function.update_of_ne he.ne' _ _).trans (h.later e he)
    · exact (h.played_prefix e).trans (henqueued e)
    · simp [h.total, hlength]
    · exact ⟨h.ordered.1, h.ordered.2.trans (Nat.le_add_right _ _)⟩
    · refine h.fits.mono rfl rfl henqueued fun m ho _ => ?_
      obtain ⟨hm, hexact⟩ := ho hok
      have hcontents := x.stream.contents_copyIn hroom (x.stream.acceptedFrames + n)
      rw [hlength] at hcontents
      refine ⟨hm.trans (Nat.le_add_right _ _), ?_⟩
      dsimp only
      rw [hcontents, Function.update_self, hexact, List.append_assoc,
        List.drop_append_of_le_length (by rwa [Stream.contents_length])]

/-- The next epoch starts with an empty queue, and nothing accepted. -/
theorem Inv.cleared (h : Inv x) : Inv { x with stream := x.stream.cleared } := by
  have hnone : x.enqueued (x.stream.epoch + 1) = [] := h.later _ (Nat.lt_succ_self _)
  have hplayed : x.played (x.stream.epoch + 1) = [] := by
    simpa [hnone] using h.played_prefix (x.stream.epoch + 1)
  have howes : Owes { x with stream := x.stream.cleared } 0 := by
    intro _
    simp [Stream.cleared, hnone, hplayed, Stream.contents]
  refine ⟨Nat.zero_le _, fun e he => h.later e (Nat.lt_of_succ_lt he), h.played_prefix, ?_, ?_, ?_⟩
  · simp [Stream.cleared, hnone]
  · exact ⟨le_rfl, le_rfl⟩
  · have hfits := h.fits
    cases hphase : x.phase with
    | writing g b | offering g b =>
      rw [hphase] at hfits
      exact ⟨Nat.le_succ_of_le hfits.1, hfits.2.1, howes⟩
    | submitted g n st | settling g n st =>
      rw [hphase] at hfits
      exact ⟨Nat.le_succ_of_le hfits.1, fun _ => howes, fun heq => absurd hfits.1 (by simp [heq, Stream.cleared])⟩
    | top | controlling _ | idle _ _ | observing _ | stopped => exact howes

theorem Inv.clear (h : Inv x) (a : Answer) : Inv (x.step (.clear a)) := by
  unfold step
  dsimp only
  rcases Stream.clear_cases x.stream a with heq | hq
  · rw [heq]
    exact h
  · refine h.cleared.keep (.trans ?_ hq.keeps) h.cleared.fits
    exact ⟨rfl, rfl, rfl, rfl, rfl, le_rfl, le_rfl, id, id⟩

/-- The worker takes a batch, or goes elsewhere, with the queue as it is. -/
theorem fits_take (howes : x.Owes 0) : x.Fits x.stream.take.2 := by
  unfold Stream.take
  split_ifs with _ _ hready
  · exact howes
  · exact howes
  · refine ⟨le_rfl, ?_, howes⟩
    obtain ⟨-, heq⟩ := howes hready.1
    rw [heq, List.prefix_append_right_inj]
    exact x.stream.copyHead_prefix (Nat.min_le_left _ _)
  · exact howes

theorem fits_wait {a : Answer} {generation : ℕ} {pendingOutput : Bool} (howes : x.Owes 0) :
    x.Fits (x.stream.wait a generation pendingOutput).2 := by
  unfold Stream.wait
  split_ifs
  · exact howes
  · exact howes
  · exact howes
  · exact howes
  · rcases a.wait with _ | _ | _ <;> exact howes

theorem fits_writable {a : Answer} {generation : ℕ} {batch : List α}
    (h : x.Fits (.writing generation batch)) :
    x.Fits (x.stream.writable a generation batch) := by
  obtain ⟨hg, hb, howes⟩ := h
  unfold Stream.writable
  split_ifs
  · exact howes
  · exact howes
  · exact ⟨hg, hb, howes⟩
  · exact ⟨hg, fun _ => howes, fun _ _ => howes⟩

/-- What the platform has accepted of a batch is what the queue still holds of it. -/
theorem owes_accept {generation n : ℕ} {batch : List α} (h : x.Fits (.offering generation batch))
    (hcurrent : generation = x.stream.epoch) (hn : n ≤ batch.length) :
    (x.accept generation (batch.take n)).Owes n := by
  obtain ⟨-, hb, howes⟩ := h
  subst hcurrent
  intro hok
  obtain ⟨-, hexact⟩ := howes hok
  rw [hexact, List.prefix_append_right_inj, List.drop_zero] at hb
  have htake : batch.take n = x.stream.contents.take n := by
    rw [List.prefix_iff_eq_take.mp hb, List.take_take, Nat.min_eq_left hn]
  refine ⟨hn.trans (hb.length_le.trans_eq x.stream.contents_length), ?_⟩
  simp only [accept, Function.update_self]
  rw [htake, List.append_assoc, List.take_append_drop, hexact, List.drop_zero]

/-- An acceptance for an older epoch does not touch the present one. -/
theorem owes_accept_of_ne {generation : ℕ} {frames : List α} (h : x.Owes 0)
    (hold : generation ≠ x.stream.epoch) : (x.accept generation frames).Owes 0 := by
  intro hok
  simp only [accept, Function.update_of_ne hold.symm]
  exact h hok

theorem fits_offered {a : Answer} {generation : ℕ} {batch : List α}
    (h : x.Fits (.offering generation batch)) :
    (x.accept generation (batch.take a.accepted)).Fits (Stream.offered a generation batch) := by
  have hold : generation ≠ x.stream.epoch →
      (x.accept generation (batch.take a.accepted)).Owes 0 := owes_accept_of_ne h.2.2
  unfold Stream.offered
  by_cases hmany : batch.length < a.accepted
  · -- More than was offered: the stream fails.
    simp only [hmany, if_true]
    exact ⟨h.1, hold, fun _ hc => by simp [Status.continues] at hc⟩
  · have hnew (hcurrent : generation = x.stream.epoch) :=
      owes_accept h hcurrent (Nat.le_of_not_lt hmany)
    simp only [hmany, if_false]
    generalize (if a.status = .ok ∧ a.accepted ≠ batch.length then Status.ioError
      else a.status) = status
    split
    · exact ⟨h.1, hold, fun hcurrent _ => hnew hcurrent⟩
    · exact ⟨h.1, hold, fun hcurrent _ => hnew hcurrent⟩

/-- What the platform accepts of a batch goes on where it stopped. -/
theorem Inv.offer (h : Inv x) (a : Answer) {generation : ℕ} {batch : List α}
    (hfits : x.Fits (.offering generation batch)) :
    Inv { x.accept generation (batch.take a.accepted) with
      phase := Stream.offered a generation batch } where
  count_le := h.count_le
  later := h.later
  played_prefix e := by
    dsimp only [accept]
    by_cases he : e = generation
    · rw [he, Function.update_self]
      refine List.IsPrefix.trans ?_ hfits.2.1
      exact (List.prefix_append_right_inj _).mpr (List.take_prefix _ _)
    · rw [Function.update_of_ne he]
      exact h.played_prefix e
  total := h.total
  ordered := h.ordered
  fits := (fits_offered hfits).mono rfl rfl (fun _ => List.prefix_rfl) fun _ => id

/-- The end of the loop takes what was accepted off the queue. -/
theorem Inv.settle (h : Inv x) (a : Answer) {generation accepted : ℕ} {status : Status}
    (hfits : x.Fits (.settling generation accepted status)) :
    Inv { x with stream := x.stream.settle a generation accepted status, phase := .top } := by
  obtain ⟨-, hold, hnew⟩ := hfits
  obtain ⟨hk, hfailed⟩ := x.stream.settle_keeps a generation accepted status
  have hcontinues (hok : (x.stream.settle a generation accepted status).failure = .ok) :
      Status.continues status = true := by
    by_contra hc
    exact hfailed (by simpa using hc) hok
  generalize x.stream.settle a generation accepted status = s' at hk hcontinues
  unfold Stream.advance at hk
  split at hk
  · rename_i hmoves
    obtain ⟨hcurrent, haccepted⟩ := hmoves
    refine ⟨?_, fun e he => h.later e (hk.epoch.symm.trans_lt he), h.played_prefix, ?_,
      hk.ordered h.ordered, fun hok => ⟨Nat.zero_le _, ?_⟩⟩
    · exact hk.count.le.trans ((Nat.sub_le _ _).trans h.count_le)
    · exact hk.accepted.trans (h.total.trans (by rw [hk.epoch]))
    · have hcontents : s'.contents = x.stream.contents.drop accepted :=
        hk.contents.trans (Ring.window_drop _ _ _ haccepted)
      obtain ⟨-, hexact⟩ := hnew hcurrent.symm (hcontinues hok) (hk.failure_ok hok)
      dsimp only
      rw [hk.epoch, List.drop_zero, hcontents]
      exact hexact
  · rename_i hstays
    refine h.of_keeps hk fun hok => ?_
    have hne : generation ≠ x.stream.epoch := by
      intro hcurrent
      have := hnew hcurrent (hcontinues hok) (hk.failure_ok hok)
      exact hstays ⟨hcurrent.symm, this.1⟩
    exact (hold hne).keep hk hok

/-- **Step**: whatever happens next, the invariant stays. -/
theorem Inv.step (h : Inv x) (event : Event α) : Inv (x.step event) := by
  cases event with
  | enqueue frames => exact h.enqueue frames
  | clear a => exact h.clear a
  | setGain gains a => exact h.keep (Stream.setGain_keeps _ a gains) h.fits
  | flush a => exact h.keep (Stream.flush_keeps _ a) h.fits
  | setActive active => exact h.keep (Stream.setActive_keeps _ active) h.fits
  | setNotify notify a => exact h.keep (Stream.setNotify_keeps _ a notify) h.fits
  | fail status a => exact h.keep (Stream.failLocked_quiet _ a status).keeps h.fits
  | cancel => exact h.keep (Stream.cancel_keeps _) h.fits
  | worker a =>
    have hfits := h.fits
    unfold System.step System.work
    dsimp only
    split <;> rename_i hphase <;> rw [hphase] at hfits
    · exact h.keep (Stream.take_keeps _) (fits_take hfits)
    · exact h.keep (Stream.controlled_keeps _ a _) hfits
    · exact h.keep (Stream.wait_keeps _ a _ _) (fits_wait hfits)
    · exact h.keep (Stream.observeProgress_keeps _ a _) hfits
    · exact h.keep (.refl _) (fits_writable hfits)
    · exact h.offer a hfits
    · exact h.keep (Stream.observeProgress_keeps _ a _) hfits
    · exact h.settle a hfits
    · exact h

/-- **Run**: in every run of a created stream. -/
theorem run_inv (samples : ℕ → α) (events : List (Event α)) : Inv ((created samples).run events) := by
  induction events using List.reverseRecOn with
  | nil =>
    exact ⟨Nat.zero_le _, fun _ _ => rfl, fun _ => List.prefix_rfl, rfl, ⟨le_rfl, le_rfl⟩,
      fun _ => ⟨le_rfl, rfl⟩⟩
  | append_singleton events event ih =>
    rw [run, List.foldl_append]
    exact ih.step event

/-- A late acceptance: the epoch it belongs to is over. -/
theorem settle_stale (s : Stream α) (a : Answer) {generation accepted : ℕ} {status : Status}
    (h : generation ≠ s.epoch) : s.Keeps (s.settle a generation accepted status) := by
  have hk := (s.settle_keeps a generation accepted status).1
  rwa [Stream.advance, if_neg fun hmoves => h hmoves.1.symm] at hk

theorem settle_progresses (s : Stream α) (a : Answer) (generation accepted : ℕ) (status : Status) :
    s.Progresses (s.settle a generation accepted status) := by
  have hk := (s.settle_keeps a generation accepted status).1
  unfold Stream.advance at hk
  split at hk
  · exact .inl ⟨hk.epoch, hk.accepted.ge, hk.submitted, hk.consumed⟩
  · exact hk.progresses

/-- No step takes a counter back, but the one that starts an epoch. -/
theorem step_progresses (x : System α) (event : Event α) :
    x.stream.Progresses (x.step event).stream := by
  cases event with
  | enqueue frames =>
    unfold System.step
    dsimp only
    rcases Stream.enqueue_cases x.stream frames with heq | ⟨n, -, -, -, heq⟩
    · rw [heq]
      exact (Stream.Keeps.refl _).progresses
    · rw [heq]
      exact .inl ⟨rfl, Nat.le_add_right _ _, le_rfl, le_rfl⟩
  | clear a =>
    unfold System.step
    dsimp only
    rcases Stream.clear_cases x.stream a with heq | ⟨f, c, heq, -⟩
    · rw [heq]
      exact (Stream.Keeps.refl _).progresses
    · rw [heq]
      exact .inr ⟨rfl, rfl, rfl, rfl⟩
  | setGain gains a => exact (Stream.setGain_keeps _ a gains).progresses
  | flush a => exact (Stream.flush_keeps _ a).progresses
  | setActive active => exact (Stream.setActive_keeps _ active).progresses
  | setNotify notify a => exact (Stream.setNotify_keeps _ a notify).progresses
  | fail status a => exact (Stream.failLocked_quiet _ a status).keeps.progresses
  | cancel => exact (Stream.cancel_keeps _).progresses
  | worker a =>
    unfold System.step System.work
    dsimp only
    split
    · exact (Stream.take_keeps _).progresses
    · exact (Stream.controlled_keeps _ a _).progresses
    · exact (Stream.wait_keeps _ a _ _).progresses
    · exact (Stream.observeProgress_keeps _ a _).progresses
    · exact (Stream.Keeps.refl _).progresses
    · exact (Stream.Keeps.refl _).progresses
    · exact (Stream.observeProgress_keeps _ a _).progresses
    · exact settle_progresses _ a _ _ _
    · exact (Stream.Keeps.refl _).progresses

/-- In every run, and with every answer of the platform: within an epoch the platform has accepted
the first of the frames that `enqueue` has, in order; the queue is within its capacity; an acceptance
of an older epoch leaves the queue as it is; and the counters are in order, count the frames of
their epoch, and go back only where an epoch begins. -/
theorem plays_in_order (samples : ℕ → α) (events : List (Event α)) :
    let x := (created samples).run events
    (∀ epoch, x.played epoch <+: x.enqueued epoch) ∧
    x.stream.count ≤ capacity ∧
    (∀ generation accepted status a, x.phase = .settling generation accepted status →
      generation ≠ x.stream.epoch → x.stream.Keeps (x.step (.worker a)).stream) ∧
    x.stream.acceptedFrames = (x.enqueued x.stream.epoch).length ∧
    x.stream.Ordered ∧
    ∀ event, x.stream.Progresses (x.step event).stream := by
  intro x
  have h : Inv x := run_inv samples events
  refine ⟨h.played_prefix, h.count_le, fun generation accepted status a hphase hne => ?_, h.total,
    h.ordered, x.step_progresses⟩
  simp only [step, work, hphase]
  exact settle_stale _ a hne

end System

end SoftPC.PcmStream
