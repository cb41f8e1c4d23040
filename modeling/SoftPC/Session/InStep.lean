import Mathlib.Data.List.Perm.Basic
import SoftPC.Machinery.Outstanding
import SoftPC.Session.Session

/-!
# Session/InStep — the prompt, the line and the machine request of a session

    Kept hand w: what is pending is what the log has outstanding, texts in hand aside
    Rested s:    the monitor, if it is current, has its texts, and its prompt if that is due

Each call keeps the first; `arm_if_ready` comes to the second, and every event but a frame completion ends with it.  What a
frame completion leaves undone waits for an action of the UI (`session_in_step`).
-/

namespace SoftPC

namespace Entry

/-- The line: asked for, delivered, or given back. -/
def line : Entry → Option Bool
  | .requestLine => some true
  | .took (.monitorLine _) | .took (.brokerCompleted _) | .cancelled false => some false
  | _ => none

/-- The machine request. -/
def request : Entry → Option Bool
  | .dispatched _ => some true
  | .took (.runtimeCompleted completed) => if completed ≠ .init then some false else none
  | _ => none

/-- The last event is a frame completion. -/
def frame : Entry → Option Bool
  | .took .frameCompleted => some true
  | .took _ => some false
  | _ => none

/-- The texts that the provider returns, and the answers to requests that are refused. -/
def said : Entry → List Text
  | .result r => Session.pieces r.text ++ (Session.pieces r.detail ++ Session.pieces (Session.resultGap r))
  | .refused _ => [Session.inProgress]
  | _ => []

/-- The texts that are written, or given up. -/
def settled : Entry → List Text
  | .wrote texts _ | .dropped texts => texts
  | _ => []

/-- An entry that nothing is told by. -/
def Plain : Entry → Prop
  | .newline | .prompt _ | .failure _ | .input _ | .releaseWindowMouse | .applyAction _ _ | .setState _
  | .publishFrame _ _ _ _ _ => True
  | _ => False

end Entry

namespace Session

/-! ## What is written -/

/-- A text with CR before each LF. -/
def crlf (previous : UInt8) : Text → Text
  | [] => []
  | byte :: text => put [] previous byte ++ crlf byte text

theorem put_eq (used : Text) (previous byte : UInt8) : put used previous byte = used ++ put [] previous byte := by
  unfold put
  split <;> rfl

/-- **The chunks are the text**. -/
theorem chunks_flatten {used : Text} {previous : UInt8} {text : Text} (h : (chunks used previous text).2 = true) :
    (chunks used previous text).1.flatten = used ++ crlf previous text := by
  induction text generalizing used previous with
  | nil =>
    unfold chunks crlf
    by_cases hused : used = []
    · rw [if_pos hused, hused]
      rfl
    · rw [if_neg hused]
      simp
  | cons byte text ih =>
    have hrest {current : Text} (h : (if current.length ≥ chunkCapacity - 1 then ([], false)
        else chunks (put current previous byte) byte text).2 = true) :
        (if current.length ≥ chunkCapacity - 1 then ([], false)
          else chunks (put current previous byte) byte text).1.flatten = current ++ crlf previous (byte :: text) := by
      by_cases hfull : current.length ≥ chunkCapacity - 1
      · rw [if_pos hfull] at h
        cases h
      · rw [if_neg hfull] at h ⊢
        rw [ih h, put_eq, List.append_assoc]
        rfl
    rw [chunks] at h ⊢
    by_cases hflush : used.length + 5 ≥ chunkCapacity ∧ byte &&& 0xc0 ≠ 0x80
    · rw [if_pos hflush, if_pos hflush] at h ⊢
      rw [List.flatten_cons, hrest h, List.nil_append]
    · rw [if_neg hflush, if_neg hflush] at h ⊢
      exact hrest h

/-- …and each fits, with its NUL. -/
theorem chunks_fit {used : Text} {previous : UInt8} {text : Text} (hused : used.length < chunkCapacity) :
    ∀ chunk ∈ (chunks used previous text).1, chunk.length < chunkCapacity := by
  induction text generalizing used previous with
  | nil =>
    intro chunk hmem
    unfold chunks at hmem
    split at hmem
    · cases hmem
    · rwa [List.mem_singleton.mp hmem]
  | cons byte text ih =>
    have hrest {current : Text} (hcurrent : current.length + 5 < chunkCapacity ∨
        current.length < chunkCapacity ∧ byte &&& 0xc0 = 0x80) : ∀ chunk ∈
        (if current.length ≥ chunkCapacity - 1 then ([], false) else chunks (put current previous byte) byte text).1,
          chunk.length < chunkCapacity := by
      intro chunk hmem
      split at hmem
      · cases hmem
      · refine ih ?_ chunk hmem
        unfold put
        -- LF is not within a scalar.
        by_cases hline : byte = 10 ∧ previous ≠ 13
        · have hscalar : ¬byte &&& 0xc0 = 0x80 := by
            rw [hline.1]
            decide
          rw [if_pos hline, List.length_append]
          have := hcurrent.resolve_right fun h => hscalar h.2
          simp only [List.length_cons, List.length_nil]
          omega
        · rw [if_neg hline, List.length_append]
          simp only [List.length_cons, List.length_nil]
          omega
    rw [chunks]
    by_cases hflush : used.length + 5 ≥ chunkCapacity ∧ byte &&& 0xc0 ≠ 0x80
    · rw [if_pos hflush, if_pos hflush]
      intro chunk hmem
      obtain rfl | hmem := List.mem_cons.mp hmem
      · exact hused
      · exact hrest (.inl (by decide)) chunk hmem
    · rw [if_neg hflush, if_neg hflush]
      refine hrest ?_
      by_cases hshort : used.length + 5 < chunkCapacity
      · exact .inl hshort
      · exact .inr ⟨hused, by_contra fun hne => hflush ⟨by omega, hne⟩⟩

/-! ## What a log has to show -/

/-- Lines and requests alternate with what ends them, and a line is asked for right after a prompt. -/
structure Orderly (log : List Entry) : Prop where
  lines : Alternates Entry.line log
  requests : Alternates Entry.request log
  prompts : ∀ before, before ++ [.requestLine] <+: log → ∃ earlier text, before = earlier ++ [.prompt text]

/-- What is pending is what the log has outstanding, with texts in hand that are neither written nor saved yet. -/
structure Kept (hand : List Text) (w : World) : Prop where
  orderly : Orderly w.log
  line : w.session.pendingLine = outstanding Entry.line w.log
  request : decide (w.session.pendingRequest ≠ .none) = outstanding Entry.request w.log
  texts : (w.log.flatMap Entry.settled ++ (w.session.pendingMonitorText ++ hand)).Perm (w.log.flatMap Entry.said)
  written : ∀ texts parts, .wrote texts parts ∈ w.log →
    parts.flatten = crlf 0 texts.flatten ∧ ∀ part ∈ parts, part.length < chunkCapacity

/-- The monitor, if it is current, has what it is to have. -/
def Rested (s : Session) : Prop :=
  s.state.monitorIsCurrent → s.pendingMonitorText = [] ∧
    (s.pendingRequest = .none → s.promptDue → s.pendingLine)

/-- An ended session: the STOP of an exit is sent whatever is outstanding. -/
def Ending (e : Ended) : Prop :=
  if e.exited then ∃ log, Orderly log ∧ e.world.log = log ++ [.dispatched .stop] else Orderly e.world.log

section

variable {w w' : World} {hand hand' : List Text} {log : List Entry} {entry : Entry} {result : CommandResult}
variable {completes : List Entry → Bool}

theorem Orderly.nil : Orderly [] where
  lines := .nil
  requests := .nil
  prompts before h := by
    have := h.length_le
    simp at this

theorem Orderly.concat (h : Orderly log) (hline : entry = .requestLine → outstanding Entry.line log = false ∧
      ∃ earlier text, log = earlier ++ [.prompt text])
    (hrequest : entry.request = some true → outstanding Entry.request log = false) : Orderly (log ++ [entry]) where
  lines := h.lines.concat fun hentry => by
    have heq : entry = .requestLine := by
      unfold Entry.line at hentry
      split at hentry <;> first | rfl | cases hentry
    exact (hline heq).1
  requests := h.requests.concat hrequest
  prompts before hprefix := by
    obtain heq | hprefix := List.prefix_concat_iff.mp hprefix
    · obtain ⟨rfl, hsame⟩ := List.append_inj' heq rfl
      cases hsame
      exact (hline rfl).2
    · exact h.prompts before hprefix

/-- **One entry more**, with what it changes. -/
theorem Kept.next (h : Kept hand w) (hlog : w'.log = w.log ++ [entry])
    (hasks : entry = .requestLine → w.session.pendingLine = false ∧ ∃ earlier text, w.log = earlier ++ [.prompt text])
    (hrequests : entry.request = some true → w.session.pendingRequest = .none)
    (hline : w'.session.pendingLine = entry.line.getD w.session.pendingLine)
    (hrequest : decide (w'.session.pendingRequest ≠ .none) =
      entry.request.getD (decide (w.session.pendingRequest ≠ .none)))
    (htexts : (entry.settled ++ (w'.session.pendingMonitorText ++ hand')).Perm
      (w.session.pendingMonitorText ++ hand ++ entry.said))
    (hwritten : ∀ texts parts, .wrote texts parts = entry →
      parts.flatten = crlf 0 texts.flatten ∧ ∀ part ∈ parts, part.length < chunkCapacity) : Kept hand' w' where
  orderly := by
    rw [hlog]
    refine h.orderly.concat (fun heq => ?_) fun heq => ?_
    · rw [← h.line]
      exact hasks heq
    · rw [← h.request, hrequests heq]
      rfl
  line := by rw [hlog, outstanding_concat, hline, h.line]
  request := by rw [hlog, outstanding_concat, hrequest, h.request]
  texts := by
    rw [hlog, List.flatMap_append, List.flatMap_append, List.flatMap_singleton, List.flatMap_singleton, List.append_assoc]
    refine (htexts.append_left _).trans ?_
    rw [← List.append_assoc]
    exact h.texts.append_right _
  written texts parts hmem := by
    rw [hlog, List.mem_append, List.mem_singleton] at hmem
    exact hmem.elim (h.written texts parts) (hwritten texts parts)

theorem Kept.plain (h : Kept hand w) (hplain : entry.Plain) : Kept hand (w.add entry) := by
  cases entry <;> cases hplain
  all_goals
    refine h.next rfl nofun nofun rfl rfl ?_ nofun
    exact .of_eq (List.append_nil _).symm

/-- Of the session only what is pending matters. -/
theorem Kept.of_pending (h : Kept hand w) (hlog : w'.log = w.log) (hline : w'.session.pendingLine = w.session.pendingLine)
    (hrequest : w'.session.pendingRequest = w.session.pendingRequest)
    (htexts : w'.session.pendingMonitorText = w.session.pendingMonitorText) : Kept hand w' where
  orderly := hlog ▸ h.orderly
  line := by rw [hlog, hline, h.line]
  request := by rw [hlog, hrequest, h.request]
  texts := by rw [hlog, htexts]; exact h.texts
  written := hlog ▸ h.written

theorem fail_ending (h : Orderly w.log) {Q : World → Prop} : EndsUnless Ending (fail w) Q := h

/-! ## What each call keeps -/

/-- A text is written, or the session fails. -/
theorem writeText_cases (texts : List Text) (w : World) : ∃ parts,
    writeText texts w = .ok (w.add (.wrote texts parts)) ∧
      (parts.flatten = crlf 0 texts.flatten ∧ ∀ part ∈ parts, part.length < chunkCapacity) ∨
    writeText texts w = fail (w.add (.wrote texts parts)) := by
  refine ⟨(chunks [] 0 texts.flatten).1, ?_⟩
  unfold writeText
  by_cases hwritten : (chunks [] 0 texts.flatten).2
  · rw [if_pos hwritten]
    exact .inl ⟨rfl, chunks_flatten hwritten, chunks_fit (by decide)⟩
  · rw [if_neg hwritten]
    exact .inr rfl

theorem Kept.wrote_ending (h : Kept hand w) {texts parts : List Text} {Q : World → Prop} :
    EndsUnless Ending (Session.fail (w.add (.wrote texts parts))) Q := by
  have horderly : Orderly (w.log ++ [.wrote texts parts]) := h.orderly.concat nofun nofun
  exact fail_ending horderly

theorem writeText_kept {texts : List Text} (h : Kept (texts ++ hand) w) :
    EndsUnless Ending (writeText texts w) (Kept hand) := by
  obtain ⟨parts, ⟨heq, hright⟩ | heq⟩ := writeText_cases texts w
  · rw [heq]
    refine h.next rfl nofun nofun rfl rfl ?_ fun texts' parts' hwrote => ?_
    · change (texts ++ (w.session.pendingMonitorText ++ hand)).Perm (w.session.pendingMonitorText ++ (texts ++ hand) ++ [])
      rw [List.append_nil]
      exact List.perm_append_comm_assoc _ _ _
    · cases hwrote
      exact hright
  · rw [heq]
    exact h.wrote_ending

theorem appendPendingText_kept {text : Text} (h : Kept (pieces text ++ hand) w) :
    EndsUnless Ending (appendPendingText text w) (Kept hand) := by
  unfold appendPendingText
  unfold pieces at h
  by_cases htext : text = []
  · rw [if_pos htext] at h ⊢
    exact h
  · rw [if_neg htext] at h ⊢
    dsimp only
    split
    · exact fail_ending h.orderly
    · exact { h with texts := by rw [List.append_assoc]; exact h.texts }

theorem cancelLine_kept (h : Kept hand w) : Kept hand (cancelLine completes w) ∧
    { (cancelLine completes w).session with pendingLine := w.session.pendingLine } = w.session := by
  unfold cancelLine
  by_cases hline : w.session.pendingLine
  · have hcancelled : Kept hand ({ w with session.pendingLine := completes w.log }.add (.cancelled (completes w.log))) := by
      refine h.next rfl nofun nofun ?_ rfl (.of_eq (List.append_nil _).symm) nofun
      change completes w.log = _
      rw [hline]
      cases completes w.log <;> rfl
    rw [if_pos hline]
    dsimp only
    split
    · exact ⟨hcancelled, rfl⟩
    · exact ⟨hcancelled.plain trivial, rfl⟩
  · rw [if_neg hline]
    exact ⟨h, rfl⟩

/-- The saved texts are written. -/
theorem writePending_kept (h : Kept [] w) : EndsUnless Ending (writePending completes w) fun w' => Kept [] w' ∧
    w'.session.pendingMonitorText = [] ∧ w'.session.state = w.session.state := by
  unfold writePending
  by_cases hnone : w.session.pendingMonitorText = []
  · rw [if_pos hnone]
    exact ⟨h, hnone, rfl⟩
  · rw [if_neg hnone]
    obtain ⟨hkept, hsame⟩ : Kept [] (cancelLine completes w) ∧ _ := cancelLine_kept h
    obtain ⟨parts, ⟨heq, hright⟩ | heq⟩ :=
      writeText_cases (cancelLine completes w).session.pendingMonitorText (cancelLine completes w)
    · have hstate : (cancelLine completes w).session.state = w.session.state := congrArg (·.state) hsame
      change EndsUnless Ending (writeText _ _ >>= _) _
      rw [heq]
      refine ⟨hkept.next rfl nofun nofun rfl rfl (.of_eq ?_) fun texts' parts' hwrote => ?_, rfl, hstate⟩
      · simp [Entry.settled, Entry.said]
      · cases hwrote
        exact hright
    · change EndsUnless Ending (writeText _ _ >>= _) _
      rw [heq]
      exact hkept.wrote_ending

theorem arm_kept (h : Kept [] w) : Kept [] (arm w) := by
  unfold arm
  split
  · exact h
  · next hready =>
    push Not at hready
    obtain ⟨hrequest, hdue, hline⟩ := hready
    have hprompt : Kept [] (w.add (.prompt (if w.session.pendingPrompt ≠ [] then w.session.pendingPrompt
        else monitorPrompt))) := h.plain trivial
    refine hprompt.next rfl (fun _ => ⟨(by simpa using hline : w.session.pendingLine = false), _, _, rfl⟩) nofun rfl rfl (.of_eq ?_) nofun
    exact (List.append_nil _).symm

/-- `arm_if_ready` comes to rest. -/
theorem armIfReady_rests (h : Kept [] w) : EndsUnless Ending (armIfReady completes w) fun w' =>
    Kept [] w' ∧ Rested w'.session ∧ w'.session.state = w.session.state := by
  unfold armIfReady
  by_cases hcurrent : w.session.state.monitorIsCurrent
  · rw [if_pos hcurrent]
    refine (writePending_kept h).bind fun w' ⟨hkept, hnone, hstate⟩ => ?_
    refine ⟨arm_kept hkept, fun _ => ?_, ?_⟩
    · unfold arm
      split
      · next hready =>
        refine ⟨hnone, fun hrequest hdue => ?_⟩
        obtain h | h | h := hready
        · exact absurd hrequest h
        · simp [hdue] at h
        · exact h
      · exact ⟨hnone, fun _ _ => rfl⟩
    · rw [← hstate]
      unfold arm
      split <;> rfl
  · rw [if_neg hcurrent]
    exact ⟨h, fun hnow => absurd hnow hcurrent, rfl⟩

/-! ## Results -/

theorem applyTexts_kept (h : Kept (Entry.result result).said w) :
    EndsUnless Ending (applyTexts completes result w) (Kept []) := by
  have h' : Kept (pieces result.text ++ (pieces result.detail ++ (pieces (resultGap result) ++ []))) w := by
    rw [List.append_nil]
    exact h
  unfold applyTexts
  split
  · refine (writeText_kept (cancelLine_kept h').1).bind fun w₁ h₁ => ?_
    exact (writeText_kept h₁).bind fun w₂ h₂ => writeText_kept h₂
  · refine (appendPendingText_kept h').bind fun w₁ h₁ => ?_
    exact (appendPendingText_kept h₁).bind fun w₂ h₂ => appendPendingText_kept h₂

theorem applyRequest_kept (h : Kept [] w) : EndsUnless Ending (applyRequest result w) (Kept []) := by
  unfold applyRequest
  by_cases hrequest : result.request = .none
  · rw [if_neg (not_not.mpr hrequest)]
    unfold notePrompt
    split
    · exact h.of_pending rfl rfl rfl rfl
    · exact h
  · rw [if_pos hrequest]
    by_cases hfree : w.session.pendingRequest = .none
    · rw [if_neg (not_not.mpr hfree)]
      refine h.next rfl nofun (fun _ => hfree) rfl ?_ (.of_eq (List.append_nil _).symm) nofun
      exact decide_eq_true hrequest
    · rw [if_pos hfree]
      refine appendPendingText_kept ?_
      refine h.next rfl nofun nofun rfl rfl (.of_eq ?_) nofun
      have hpieces : pieces inProgress = [inProgress] := if_neg (by decide)
      simp [World.add, Entry.settled, Entry.said, hpieces]

theorem applyResult_kept (h : Kept (Entry.result result).said w) :
    EndsUnless Ending (applyResult completes result w) (Kept []) := by
  unfold applyResult
  have hmouse : Kept (Entry.result result).said (if result.releaseWindowMouse then w.add .releaseWindowMouse else w) := by
    split
    · exact h.plain trivial
    · exact h
  exact (applyTexts_kept hmouse).bind fun w' h' => applyRequest_kept h'

/-- A result of the provider. -/
theorem result_kept (h : Kept [] w) : Kept (Entry.result result).said (w.add (.result result)) :=
  h.next rfl nofun nofun rfl rfl (.of_eq (by rw [List.append_nil]; rfl)) nofun

/-! ## Events -/

/-- Once it has driven the UI, an action is in flight or there is none to take. -/
def Driven (state : SessionState) : Prop := state.inFlight = .none → state.nextAction = .none

theorem driven_takeAction (state : SessionState) : Driven state.takeAction := by
  intro hfree
  unfold SessionState.takeAction at hfree ⊢
  by_cases hnext : state.nextAction = .none
  · rw [if_neg (not_not.mpr hnext)]
    exact hnext
  · rw [if_pos hnext] at hfree
    exact absurd hfree hnext

/-- What `drive` makes of a state. -/
def drivenState (presentation : Option (UInt32 × Bool)) (state : SessionState) : SessionState :=
  (presentation.elim state fun frame => state.noteFrame frame.1 frame.2).takeAction

/-- Some plain entries more. -/
def Adds (w w' : World) : Prop := ∃ entries : List Entry, (∀ entry ∈ entries, entry.Plain) ∧
  w' = { w with log := w.log ++ entries }

theorem Adds.refl (w : World) : Adds w w := ⟨[], nofun, by rw [List.append_nil]⟩

theorem Adds.add (h : Adds w w') (hplain : entry.Plain) : Adds w (w'.add entry) := by
  obtain ⟨entries, hentries, rfl⟩ := h
  refine ⟨entries ++ [entry], fun other hmem => ?_, ?_⟩
  · obtain hmem | hmem := List.mem_append.mp hmem
    · exact hentries other hmem
    · exact List.mem_singleton.mp hmem ▸ hplain
  · rw [← List.append_assoc]
    rfl

theorem Adds.ite {c : Prop} [Decidable c] {w₁ w₂ : World} (h₁ : Adds w w₁) (h₂ : Adds w w₂) :
    Adds w (if c then w₁ else w₂) := by
  split
  · exact h₁
  · exact h₂

theorem drive_adds (presentation : Option (UInt32 × Bool)) (w : World) :
    Adds { w with session.state := drivenState presentation w.session.state } (drive presentation w) := by
  unfold drive drivenState
  cases presentation with
  | none => exact .ite ((Adds.refl _).add trivial) (.refl _)
  | some frame =>
    refine .ite (.add (.ite (.add (.refl _) ?_) (.refl _)) ?_) (.ite (.add (.refl _) ?_) (.refl _))
    all_goals trivial

theorem Kept.append_plain (h : Kept hand w) {entries : List Entry} (hplain : ∀ entry ∈ entries, entry.Plain) :
    Kept hand { w with log := w.log ++ entries } := by
  induction entries using List.reverseRecOn with
  | nil =>
    rw [List.append_nil]
    exact h
  | append_singleton entries entry ih =>
    rw [← List.append_assoc]
    have hbefore := ih fun other hmem => hplain other (List.mem_append_left _ hmem)
    exact hbefore.plain (hplain entry (List.mem_append_right _ (List.mem_singleton_self entry)))

theorem drive_kept (h : Kept [] w) (presentation : Option (UInt32 × Bool)) : Kept [] (drive presentation w) := by
  obtain ⟨entries, hplain, heq⟩ := drive_adds presentation w
  rw [heq]
  exact (h.append_plain hplain).of_pending rfl rfl rfl rfl

theorem showState_kept (h : Kept [] w) : Kept [] (showState w) := by
  unfold showState
  split
  · exact h.plain trivial
  · exact h

theorem showState_session (w : World) : (showState w).session = w.session := by
  unfold showState
  split <;> rfl

/-- **What holds of a session** whenever it waits for an event. -/
structure InStep (w : World) : Prop where
  kept : Kept [] w
  driven : Driven w.session.state
  /-- Every event but a frame completion leaves the monitor with its texts and its prompt. -/
  rested : outstanding Entry.frame w.log = false → Rested w.session
  /-- …and what that leaves undone waits for an action. -/
  waits : Rested w.session ∨ w.session.state.inFlight ≠ .none

/-- The end of an event. -/
theorem armIfReady_inStep (h : Kept [] w) (hdriven : Driven w.session.state) :
    EndsUnless Ending (armIfReady completes w) InStep :=
  (armIfReady_rests h).mono fun _ ⟨hkept, hrested, hstate⟩ =>
    { kept := hkept, driven := hstate ▸ hdriven, rested := fun _ => hrested, waits := .inl hrested }

theorem drive_driven (presentation : Option (UInt32 × Bool)) (w : World) :
    Driven (drive presentation w).session.state := by
  obtain ⟨entries, -, heq⟩ := drive_adds presentation w
  rw [heq]
  exact driven_takeAction _

/-- A request of the session's own has no texts. -/
theorem applyResult_pause (h : Kept [] w) : EndsUnless Ending (applyResult completes { request := .pause } w) (Kept []) :=
  applyResult_kept h

theorem handleKvmInput_kept (h : Kept [] w) (input : Input) (event : InputEvent) :
    EndsUnless Ending (handleKvmInput completes input event w) (Kept []) := by
  have hdeliver : EndsUnless Ending
      (let dispatched := w.session.pressed.dispatchInput event w.session.state.monitorActual recording []
       let w := { w with session.pressed := dispatched.2.1 }.add (.input dispatched.2.2)
       if dispatched.1 then .ok w else fail w) (Kept []) := by
    dsimp only
    have hkept : Kept [] ({ w with session.pressed := (w.session.pressed.dispatchInput event
        w.session.state.monitorActual recording []).2.1 }.add (.input (w.session.pressed.dispatchInput event
        w.session.state.monitorActual recording []).2.2)) := by
      refine Kept.plain ?_ trivial
      exact h.of_pending rfl rfl rfl rfl
    split
    · exact hkept
    · exact fail_ending hkept.orderly
  unfold handleKvmInput
  dsimp only
  split
  · have hclosed : Kept [] { w with session.state := w.session.state.noteWindowClose } := h.of_pending rfl rfl rfl rfl
    split
    · exact hclosed
    · exact applyResult_pause hclosed
  · split
    · exact applyResult_kept (result_kept h)
    · exact fail_ending h.orderly
  · exact hdeliver

theorem took_kept (h : Kept [] w) {event : SessionEventValue} (hline : (Entry.took event).line = none)
    (hrequest : (Entry.took event).request = none) : Kept [] (w.add (.took event)) := by
  refine h.next rfl nofun ?_ ?_ ?_ (.of_eq (List.append_nil _).symm) nofun
  · intro hask
    rw [hrequest] at hask
    cases hask
  · rw [hline]
    rfl
  · rw [hrequest]
    rfl

theorem handleMonitorLine_inStep (h : Kept [] w) {input : Input} {text : Text}
    (hevent : input.event.value = .monitorLine text) :
    EndsUnless Ending (handleMonitorLine completes input text w) InStep := by
  have htook : Kept [] ({ w with session.pendingLine := false }.add (.took input.event.value)) := by
    rw [hevent]
    exact h.next rfl nofun nofun rfl rfl (.of_eq (List.append_nil _).symm) nofun
  unfold handleMonitorLine
  dsimp only
  split
  · exact fail_ending htook.orderly
  split
  · exact fail_ending htook.orderly
  have hresult : Kept (Entry.result input.result).said _ := result_kept htook
  split
  · exact ⟨_, hresult.orderly, rfl⟩
  · exact (applyResult_kept hresult).bind fun w' h' => armIfReady_inStep (drive_kept h' _) (drive_driven _ _)

theorem runtimeCompleted_inStep (h : Kept [] w) {input : Input} {completed : SessionMachineState}
    (hevent : input.event.value = .runtimeCompleted completed) :
    EndsUnless Ending (runtimeCompleted completes input completed w) InStep := by
  have htook {hand : List Text} {w : World} (h : Kept hand w) : Kept hand ({ w with
      session.state := w.session.state.noteRuntime completed
      session.pendingRequest := if completed ≠ SessionMachineState.init then .none else w.session.pendingRequest }.add
        (.took input.event.value)) := by
    have heffect : (Entry.took (.runtimeCompleted completed)).request =
      if completed ≠ SessionMachineState.init then some false else none := rfl
    rw [hevent]
    refine h.next rfl nofun ?_ rfl ?_ (.of_eq (List.append_nil _).symm) nofun
    · intro hask
      rw [heffect] at hask
      split at hask <;> cases hask
    · rw [heffect]
      by_cases hinit : completed = SessionMachineState.init
      · simp [World.add, hinit]
      · simp [World.add, hinit]
  have hend {w : World} (h : Kept [] w) :
      EndsUnless Ending (armIfReady completes (showState (drive input.presentation w))) InStep := by
    refine armIfReady_inStep (showState_kept (drive_kept h _)) ?_
    rw [showState_session]
    exact drive_driven _ _
  unfold runtimeCompleted
  dsimp only
  by_cases hinitial : initialStopped w completed
  · rw [if_pos hinitial, if_pos hinitial]
    exact hend (htook h)
  · rw [if_neg hinitial, if_neg hinitial]
    exact (applyResult_kept (htook (result_kept h))).bind fun w' h' => hend h'

theorem componentCompleted_inStep (h : Kept [] w) {input : Input} {component : ComponentKind} {present : Bool}
    (hevent : input.event.value = .componentCompleted component present) :
    EndsUnless Ending (componentCompleted completes input component present w) InStep := by
  have hnoted (state : SessionState) : Kept [] ({ w with session.state := state }.add (.took input.event.value)) := by
    rw [hevent]
    refine took_kept ?_ rfl rfl
    exact h.of_pending rfl rfl rfl rfl
  exact armIfReady_inStep (drive_kept (hnoted _) _) (drive_driven _ _)

theorem duePrompt_kept (h : Kept [] w) (vmConsoleCurrent : Bool) : Kept [] (duePrompt vmConsoleCurrent w) ∧
    (duePrompt vmConsoleCurrent w).session.state = w.session.state := by
  unfold duePrompt
  dsimp only
  split
  · exact ⟨h.of_pending rfl rfl rfl rfl, rfl⟩
  · exact ⟨h, rfl⟩

theorem giveUpText_kept (h : Kept [] w) (vmConsoleCurrent : Bool) : Kept [] (giveUpText vmConsoleCurrent w) ∧
    (giveUpText vmConsoleCurrent w).session.state = w.session.state := by
  unfold giveUpText
  split
  · refine ⟨h.next rfl nofun nofun rfl rfl (.of_eq ?_) nofun, rfl⟩
    simp [World.add, Entry.settled, Entry.said]
  · exact ⟨h, rfl⟩

theorem brokerCompleted_inStep (h : Kept [] w) {input : Input} {vmConsoleCurrent : Bool}
    (hevent : input.event.value = .brokerCompleted vmConsoleCurrent) :
    EndsUnless Ending (brokerCompleted completes input vmConsoleCurrent w) InStep := by
  have htook : Kept [] ({ w with
      session.pendingLine := false
      session.state := w.session.state.noteCurrentConsole vmConsoleCurrent }.add (.took input.event.value)) := by
    rw [hevent]
    exact h.next rfl nofun nofun rfl rfl (.of_eq (List.append_nil _).symm) nofun
  obtain ⟨hdue, hdueState⟩ := duePrompt_kept (showState_kept (drive_kept htook input.presentation)) vmConsoleCurrent
  obtain ⟨hkept, hstate⟩ := giveUpText_kept hdue vmConsoleCurrent
  refine armIfReady_inStep hkept ?_
  rw [hstate, hdueState, showState_session]
  exact drive_driven _ _

/-! ## Frame completions -/

/-- A monitor is current, with no action in flight or to take, as the broker has it. -/
theorem monitorIsCurrent_of_driven {state : SessionState} (hfree : state.inFlight = .none) (hdriven : Driven state) :
    state.monitorIsCurrent = decide (state.currentConsoleActual = .monitor) := by
  have hcurrent := (SessionState.presented_of_none hfree (hdriven hfree)).current
  unfold SessionState.monitorIsCurrent
  rw [hfree, hcurrent]
  cases state.desired.monitorConsoleEnabled <;> rfl

theorem inFlight_drivenState {presentation : Option (UInt32 × Bool)} {state : SessionState}
    (h : (drivenState presentation state).inFlight = .none) : state.inFlight = .none ∧
      (drivenState presentation state).currentConsoleActual = state.currentConsoleActual := by
  have hnoted : (presentation.elim state fun frame => state.noteFrame frame.1 frame.2).inFlight = state.inFlight ∧
      (presentation.elim state fun frame => state.noteFrame frame.1 frame.2).currentConsoleActual =
        state.currentConsoleActual := by
    cases presentation with
    | none => exact ⟨rfl, rfl⟩
    | some frame =>
      dsimp only [Option.elim]
      unfold SessionState.noteFrame
      split <;> exact ⟨rfl, rfl⟩
  unfold drivenState SessionState.takeAction at h ⊢
  by_cases hnext : (presentation.elim state fun frame => state.noteFrame frame.1 frame.2).nextAction = .none
  · rw [if_neg (not_not.mpr hnext)] at h ⊢
    exact ⟨hnoted.1 ▸ h, hnoted.2⟩
  · rw [if_pos hnext] at h
    exact absurd h hnext

theorem frameCompleted_inStep (h : InStep w) {input : Input} (hevent : input.event.value = .frameCompleted) :
    InStep (frameCompleted input w) := by
  have htook : Kept [] (w.add (.took input.event.value)) := by
    rw [hevent]
    exact took_kept h.kept rfl rfl
  obtain ⟨entries, hplain, heq⟩ := drive_adds input.presentation (w.add (.took input.event.value))
  refine { kept := drive_kept htook _, driven := drive_driven _ _, rested := fun hframe => ?_, waits := ?_ }
  · have hsettles : ∀ entry ∈ entries, entry.frame ≠ some false := by
      intro entry hmem
      have hentry := hplain entry hmem
      cases entry <;> cases hentry
      all_goals exact nofun
    have hout : outstanding Entry.frame (w.log ++ [.took .frameCompleted]) = true := by
      rw [outstanding_concat]
      rfl
    have hstill := outstanding_append hout hsettles
    unfold frameCompleted at hframe
    rw [heq] at hframe
    change outstanding Entry.frame (w.log ++ [.took input.event.value] ++ entries) = false at hframe
    rw [hevent, hstill] at hframe
    cases hframe
  · unfold frameCompleted
    rw [heq]
    by_cases hfree : (drivenState input.presentation w.session.state).inFlight = .none
    · obtain ⟨hbefore, hconsole⟩ := inFlight_drivenState hfree
      have hrested := h.waits.resolve_right (not_not.mpr hbefore)
      refine .inl fun hcurrent => ?_
      have hnow := monitorIsCurrent_of_driven hfree (driven_takeAction _)
      have hthen := monitorIsCurrent_of_driven hbefore h.driven
      rw [hconsole, ← hthen] at hnow
      exact hrested (hnow ▸ hcurrent)
    · exact .inr hfree

/-! ## Runs -/

theorem handle_inStep (h : InStep w) (input : Input) : EndsUnless Ending (handle completes w input) InStep := by
  unfold handle
  have hfailure (text : String) : EndsUnless Ending (fail (w.add (.failure text))) InStep := by
    have hkept : Kept [] (w.add (.failure text)) := h.kept.plain trivial
    exact fail_ending hkept.orderly
  split
  · next event hevent =>
    split
    · have htook : Kept [] (w.add (.took input.event.value)) := by
        rw [hevent]
        exact took_kept h.kept rfl rfl
      exact (handleKvmInput_kept htook input event).bind fun w' h' => armIfReady_inStep (drive_kept h' _) (drive_driven _ _)
    · exact h
  · next hevent => exact handleMonitorLine_inStep h.kept hevent
  · exact hfailure _
  · exact hfailure _
  · exact hfailure _
  · next hevent => exact .ite (fun _ => h) fun _ => runtimeCompleted_inStep h.kept hevent
  · next hevent => exact .ite (fun _ => h) fun _ => frameCompleted_inStep h hevent
  · next hevent => exact .ite (fun _ => h) fun _ => componentCompleted_inStep h.kept hevent
  · next hevent => exact .ite (fun _ => h) fun _ => brokerCompleted_inStep h.kept hevent

/-! A result leaves the presentation as it is. -/

theorem writeText_state {texts : List Text} :
    Yields (writeText texts w) fun w' => w'.session.state = w.session.state := by
  obtain ⟨parts, ⟨heq, -⟩ | heq⟩ := writeText_cases texts w
  · rw [heq]
    exact .ok rfl
  · rw [heq]
    exact .error

theorem appendPendingText_state {text : Text} :
    Yields (appendPendingText text w) fun w' => w'.session.state = w.session.state := by
  unfold appendPendingText
  exact .ite (fun _ => .ok rfl) fun _ => .ite (fun _ => .error) fun _ => .ok rfl

theorem applyTexts_state : Yields (applyTexts completes result w) fun w' => w'.session.state = w.session.state := by
  have hcancel : (cancelLine completes w).session.state = w.session.state := by
    unfold cancelLine
    split
    · dsimp only
      split <;> rfl
    · rfl
  unfold applyTexts
  refine .ite (fun _ => ?_) fun _ => ?_
  · refine writeText_state.bind fun w₁ h₁ => writeText_state.bind fun w₂ h₂ => writeText_state.mono fun w₃ h₃ => ?_
    rw [h₃, h₂, h₁, hcancel]
  · refine appendPendingText_state.bind fun w₁ h₁ => appendPendingText_state.bind fun w₂ h₂ =>
      appendPendingText_state.mono fun w₃ h₃ => ?_
    rw [h₃, h₂, h₁]

theorem applyRequest_state : Yields (applyRequest result w) fun w' => w'.session.state = w.session.state := by
  unfold applyRequest notePrompt
  refine .ite (fun _ => .ite (fun _ => appendPendingText_state) fun _ => .ok rfl) fun _ => .ok ?_
  split <;> rfl

theorem applyResult_state : Yields (applyResult completes result w) fun w' => w'.session.state = w.session.state := by
  unfold applyResult
  refine applyTexts_state.bind fun w₁ h₁ => applyRequest_state.mono fun w₂ h₂ => ?_
  rw [h₂, h₁]
  split <;> rfl

theorem opened_inStep (display : Display) (consoleControl : Bool) (opening : CommandResult) :
    EndsUnless Ending (opened completes display consoleControl opening) InStep := by
  have hstart : Kept [] { session := { state := .initialized display consoleControl }, log := [] } :=
    { orderly := .nil, line := rfl, request := rfl, texts := .refl _, written := nofun }
  have hdriven : Driven (.initialized display consoleControl) := fun _ => rfl
  refine ((applyResult_kept (result_kept hstart)).and_yields applyResult_state).bind fun w' ⟨hkept, hstate⟩ => ?_
  exact armIfReady_inStep hkept (hstate ▸ hdriven)

end

/-- **A session keeps its prompt, its line and its request in step**, whatever happens to it: what InStep says holds whenever
it waits for an event, between two lines that are asked for one is delivered or given back, and a request that comes
while one is outstanding is answered, which is all. -/
theorem session_in_step (completes : List Entry → Bool) (display : Display) (consoleControl : Bool)
    (opening : CommandResult) (inputs : List Input) :
    (EndsUnless Ending (run completes display consoleControl opening inputs) fun w => InStep w ∧
      ∀ before mid after, w.log = before ++ .requestLine :: (mid ++ .requestLine :: after) →
        ∃ entry ∈ mid, entry.line = some false) ∧
      ∀ (result : CommandResult) (w : World), result.request ≠ .none → w.session.pendingRequest ≠ .none →
        applyRequest result w = appendPendingText inProgress (w.add (.refused result.request)) := by
  constructor
  · have hrun : EndsUnless Ending (run completes display consoleControl opening inputs) InStep :=
      (opened_inStep display consoleControl opening).bind fun _ hw =>
        endsUnless_foldlM (C := fun _ => True) (fun _ input h _ => handle_inStep h input) (fun _ _ => trivial) hw
    exact hrun.mono fun w h => ⟨h, fun _ _ _ hlog => h.kept.orderly.lines.between hlog rfl rfl⟩
  · intro result w hrequest hpending
    unfold applyRequest
    rw [if_pos hrequest, if_pos hpending]

/-- An event that nothing stands against. -/
def heard (value : SessionEventValue) (result : CommandResult) (presentation : Option (UInt32 × Bool)) : Input where
  event := { runGeneration := 0, monitorLineRejected := false, value }
  generation := 1
  presentation
  result

def hotkey : SessionEventValue := .kvmInput ⟨0, 1, .hotkey []⟩

/-- **What is not in step**: a graphics frame brings the monitor back while its prompt is due, and the frame's completion leaves
it so; an exit sends STOP while a request is outstanding; a text that is saved is given up when the VM's console takes
over. -/
theorem session_not_in_step :
    (∃ w, run (fun _ => false) .console true {} [heard (.runtimeCompleted .running) { armPrompt := true } (some (1, false)),
        heard .frameCompleted {} (some (2, true))] = .ok w ∧
      w.session.state.monitorIsCurrent ∧ w.session.pendingRequest = .none ∧ w.session.promptDue ∧ w.session.pendingLine = false) ∧
    (∃ w, run (fun _ => false) .console true {} [heard (.runtimeCompleted .paused) { armPrompt := true } none,
        heard hotkey { request := .resume } none,
        heard (.monitorLine []) { exitRequested := true } none] = .error ⟨true, w⟩ ∧
      outstanding Entry.request w.log.dropLast ∧ w.log.getLast? = some (.dispatched .stop)) ∧
    ∃ w, run (fun _ => false) .console true {} [heard (.runtimeCompleted .running) {} (some (1, false)),
        heard hotkey { text := ascii "Paused.\r\n" } none, heard (.componentCompleted .vmConsole true) {} none,
        heard (.brokerCompleted true) {} none] = .ok w ∧
      Entry.dropped [ascii "Paused.\r\n"] ∈ w.log :=
  ⟨⟨_, rfl, rfl, rfl, rfl, rfl⟩, ⟨_, rfl, rfl, rfl⟩, ⟨_, rfl, by decide⟩⟩

end Session

end SoftPC
