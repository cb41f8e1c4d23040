import SoftPC.Lib.Text
import SoftPC.Machinery.Outcome

/-!
# Session/WriteText — text in chunks of a kilobyte

    text ──LF to CR LF──▸ chunk ──full, and a scalar begins──▸ the console

`emulator_session_write_text` of `session.c`.  A chunk is given to the console when fewer than five bytes and the NUL are
left of its buffer and the next byte is no continuation byte; so a chunk ends between two characters, and four
continuation bytes in a row are what may not find room.
-/

namespace SoftPC.WriteText

open Text

/-- How the call ends before the end of the text: with a store past the buffer, or with `LIB_FALSE`, after the chunks
that were given to the console. -/
inductive Stop
  | past
  | refused (written : List (List UInt8))

/-- The chunks given to the console, the bytes in `chunk`, and `previous`. -/
structure State where
  written : List (List UInt8) := []
  chunk : List UInt8 := []
  previous : UInt8 := 0

/-- `chunk[used++] = byte`. -/
def State.put (s : State) (byte : UInt8) : Except Stop State :=
  if s.chunk.length < 1024 then .ok { s with chunk := s.chunk ++ [byte] } else .error .past

variable (console : List (List UInt8) → List UInt8 → Bool)

/-- The chunk is terminated, and given to the console, which takes it or not. -/
def State.flush (s : State) : Except Stop State :=
  if s.chunk.length < 1024 then
    if console s.written s.chunk then .ok { s with written := s.written ++ [s.chunk], chunk := [] }
    else .error (.refused (s.written ++ [s.chunk]))
  else .error .past

/-- The loop of `emulator_session_write_text`. -/
def step (s : State) (byte : UInt8) : Except Stop State :=
  (if s.chunk.length + 5 ≥ 1024 ∧ byte.toNat &&& 0xc0 ≠ 0x80 then s.flush console else .ok s) >>= fun s =>
    if s.chunk.length ≥ 1024 - 1 then .error (.refused s.written)
    else
      (if byte = 10 ∧ s.previous ≠ 13 then s.put 13 else .ok s) >>= fun s =>
        s.put byte >>= fun s => .ok { s with previous := byte }

/-- `emulator_session_write_text`, of the bytes before the NUL; no text is `NULL`. -/
def writeText (text : Option (List UInt8)) : Except Stop (List (List UInt8)) :=
  match text with
  | none => .ok []
  | some text =>
    text.foldlM (step console) {} >>= fun s =>
      if s.chunk.length = 0 then .ok s.written else s.flush console >>= fun s => .ok s.written

/-! ## The text that is written -/

/-- A byte, after another. -/
def item (previous byte : UInt8) : List UInt8 := if byte = 10 ∧ previous ≠ 13 then [13, byte] else [byte]

/-- The text with CR LF for every LF not preceded by CR. -/
def expand : UInt8 → List UInt8 → List UInt8
  | _, [] => []
  | previous, byte :: text => item previous byte ++ expand byte text

/-- No four continuation bytes in a row, after so many. -/
def ShortRuns : ℕ → List UInt8 → Prop
  | _, [] => True
  | k, byte :: text => if isContinuation byte then k < 3 ∧ ShortRuns (k + 1) text else ShortRuns 0 text

/-! ## A byte -/

/-- What a byte is added to: the chunk, or an empty one after it. -/
inductive Opened (s : State) (byte : UInt8) : List (List UInt8) → List UInt8 → Prop
  | stays (h : isContinuation byte ∨ s.chunk.length < 1019) : Opened s byte s.written s.chunk
  | flushed (h : ¬isContinuation byte) : Opened s byte (s.written ++ [s.chunk]) []

/-- The loop goes on. -/
structure GoesOn (s : State) (byte : UInt8) (t : State) : Prop where
  opened : ∃ base, Opened s byte t.written base ∧ base.length < 1023 ∧ t.chunk = base ++ item s.previous byte
  previous : t.previous = byte

/-- The call ends: the console does not take a chunk, or there is no room for a continuation byte. -/
inductive Ended (s : State) (byte : UInt8) : Stop → Prop
  | console (hbyte : ¬isContinuation byte) (h : console s.written s.chunk = false) :
    Ended s byte (.refused (s.written ++ [s.chunk]))
  | full (h : isContinuation byte) (hfull : 1023 ≤ s.chunk.length) : Ended s byte (.refused s.written)

variable {console} {s t : State} {byte : UInt8} {text : List UInt8}

theorem put_ok (h : s.chunk.length < 1024) : s.put byte = .ok { s with chunk := s.chunk ++ [byte] } := if_pos h

theorem flush_spec (console : List (List UInt8) → List UInt8 → Bool) (h : s.chunk.length ≤ 1023) :
    EndsUnless (fun e => e = .refused (s.written ++ [s.chunk]) ∧ console s.written s.chunk = false) (s.flush console)
      fun t => t = { s with written := s.written ++ [s.chunk], chunk := [] } := by
  unfold State.flush
  rw [if_pos (by omega)]
  cases hconsole : console s.written s.chunk with
  | false => exact ⟨rfl, rfl⟩
  | true => exact rfl

/-- Where the byte goes. -/
theorem open_spec (h : s.chunk.length ≤ 1023) :
    EndsUnless (Ended console s byte)
      (if s.chunk.length + 5 ≥ 1024 ∧ byte.toNat &&& 0xc0 ≠ 0x80 then s.flush console else .ok s)
      fun u => Opened s byte u.written u.chunk ∧ u.previous = s.previous ∧
        (u.chunk.length < 1019 ∨ isContinuation byte ∧ u = s) := by
  have hbyte := and_eq_iff_isContinuation byte
  refine .ite (fun hflush => ?_) fun hstays => ?_
  · have hspec := flush_spec console h
    cases hresult : s.flush console with
    | ok u =>
      rw [hresult] at hspec
      obtain rfl := hspec
      exact ⟨.flushed fun h => hflush.2 (hbyte.mpr h), rfl, .inl (Nat.zero_lt_succ _)⟩
    | error e =>
      rw [hresult] at hspec
      obtain ⟨rfl, hconsole⟩ := hspec
      exact .console (fun h => hflush.2 (hbyte.mpr h)) hconsole
  · by_cases hcontinues : isContinuation byte
    · exact ⟨.stays (.inl hcontinues), rfl, .inr ⟨hcontinues, rfl⟩⟩
    · have hroom : s.chunk.length < 1019 := by
        by_contra hroom
        exact hstays ⟨by omega, fun h => hcontinues (hbyte.mp h)⟩
      exact ⟨.stays (.inr hroom), rfl, .inl hroom⟩

theorem not_isContinuation_lf : ¬isContinuation 10 := by decide

/-- **What a byte comes to.** -/
theorem step_spec (console : List (List UInt8) → List UInt8 → Bool) (byte : UInt8) (h : s.chunk.length ≤ 1023) :
    EndsUnless (Ended console s byte) (step console s byte) (GoesOn s byte) := by
  refine (open_spec h).bind fun u hu => ?_
  obtain ⟨hopened, hprevious, hroom⟩ := hu
  refine .ite (fun hfull => ?_) fun hfree => ?_
  · obtain hroom | ⟨hbyte, rfl⟩ := hroom
    · omega
    · exact .full hbyte (by omega)
  · rw [hprevious]
    by_cases hlf : byte = 10 ∧ s.previous ≠ 13
    · have hroom : u.chunk.length < 1019 := by
        obtain hroom | ⟨hbyte, -⟩ := hroom
        · exact hroom
        · rw [hlf.1] at hbyte
          exact (not_isContinuation_lf hbyte).elim
      rw [if_pos hlf, put_ok (by omega)]
      change EndsUnless _ (State.put _ byte >>= _) _
      rw [put_ok (by rw [List.length_append, List.length_singleton]; omega)]
      refine ⟨⟨u.chunk, hopened, by omega, ?_⟩, rfl⟩
      rw [item, if_pos hlf]
      exact List.append_assoc _ _ _
    · rw [if_neg hlf]
      change EndsUnless _ (State.put _ byte >>= _) _
      rw [put_ok (by omega)]
      exact ⟨⟨u.chunk, hopened, by omega, by rw [item, if_neg hlf]⟩, rfl⟩

/-! ## A text -/

/-- All that has been read of the text, as it is written. -/
def State.bytes (s : State) : List UInt8 := s.written.flatten ++ s.chunk

/-- Chunks that leave room for the NUL. -/
def Fit (chunks : List (List UInt8)) : Prop := ∀ chunk ∈ chunks, chunk.length ≤ 1023

/-- The console has not taken the last of them. -/
def Refused (console : List (List UInt8) → List UInt8 → Bool) (chunks : List (List UInt8)) : Prop :=
  ∃ before chunk, chunks = before ++ [chunk] ∧ console before chunk = false

theorem fit_snoc {chunks : List (List UInt8)} {chunk : List UInt8} (h : Fit chunks) (hchunk : chunk.length ≤ 1023) :
    Fit (chunks ++ [chunk]) := by
  intro c hc
  rcases List.mem_append.mp hc with hc | hc
  · exact h c hc
  · rw [List.mem_singleton.mp hc]
    exact hchunk

theorem flatten_snoc (chunks : List (List UInt8)) (chunk : List UInt8) :
    (chunks ++ [chunk]).flatten = chunks.flatten ++ chunk := by
  rw [List.flatten_append, List.flatten_singleton]

theorem item_length_le (previous byte : UInt8) :
    (item previous byte).length ≤ if isContinuation byte then 1 else 2 := by
  unfold item
  by_cases hlf : byte = 10 ∧ previous ≠ 13
  · rw [if_pos hlf, hlf.1, if_neg not_isContinuation_lf]
    exact Nat.le_refl 2
  · rw [if_neg hlf, List.length_singleton]
    split <;> omega

theorem GoesOn.length_le (h : GoesOn s byte t) (hchunk : s.chunk.length ≤ 1023) : t.chunk.length ≤ 1023 ∧
    t.chunk.length ≤ if isContinuation byte then s.chunk.length + 1 else 1020 := by
  obtain ⟨base, hopened, hbase, hchunk'⟩ := h.opened
  have hitem := item_length_le s.previous byte
  have hlength : t.chunk.length = base.length + (item s.previous byte).length := by rw [hchunk', List.length_append]
  generalize t.written = written at hopened
  by_cases hbyte : isContinuation byte
  · rw [if_pos hbyte] at hitem ⊢
    cases hopened with
    | stays => omega
    | flushed hbyte' => exact (hbyte' hbyte).elim
  · rw [if_neg hbyte] at hitem ⊢
    cases hopened with
    | stays hroom =>
      have := hroom.resolve_left hbyte
      omega
    | flushed =>
      rw [List.length_nil] at hlength
      omega

/-- A byte keeps what has been read. -/
theorem GoesOn.keeps (h : GoesOn s byte t) (hs : Fit s.written) (hchunk : s.chunk.length ≤ 1023) :
    t.bytes = s.bytes ++ item s.previous byte ∧ Fit t.written := by
  obtain ⟨base, hopened, hbase, hchunk'⟩ := h.opened
  unfold State.bytes
  rw [hchunk', ← List.append_assoc]
  generalize t.written = written at hopened
  cases hopened with
  | stays => exact ⟨rfl, hs⟩
  | flushed => exact ⟨by rw [flatten_snoc, List.append_nil], fit_snoc hs hchunk⟩

/-- **The rest of a text.**  What is written is its expansion; the call ends early at a chunk that the console does not
take, or at a fourth continuation byte in a row. -/
theorem run_spec {k : ℕ} (hs : Fit s.written) (hchunk : s.chunk.length ≤ 1023) (hk : s.chunk.length ≤ 1020 + k) :
    EndsUnless
      (fun e => ∃ w, e = .refused w ∧ w.flatten <+: s.bytes ++ expand s.previous text ∧ Fit w ∧
        (ShortRuns k text → Refused console w))
      (text.foldlM (step console) s)
      fun t => t.bytes = s.bytes ++ expand s.previous text ∧ Fit t.written ∧ t.chunk.length ≤ 1023 := by
  induction text generalizing s k with
  | nil => exact ⟨(List.append_nil _).symm, hs, hchunk⟩
  | cons byte text ih =>
    have hspec := step_spec console byte hchunk
    rw [List.foldlM_cons]
    cases hstep : step console s byte with
    | error e =>
      rw [hstep] at hspec
      cases hspec with
      | console _ hconsole =>
        refine ⟨_, rfl, ?_, fit_snoc hs hchunk, fun _ => ⟨_, _, rfl, hconsole⟩⟩
        rw [flatten_snoc]
        exact List.prefix_append _ _
      | full hbyte hfull =>
        refine ⟨_, rfl, ?_, hs, fun hshort => ?_⟩
        · exact (List.prefix_append _ _).trans (List.prefix_append _ _)
        · rw [ShortRuns, if_pos hbyte] at hshort
          omega
    | ok t =>
      rw [hstep] at hspec
      have hspec : GoesOn s byte t := hspec
      obtain ⟨hbytes, hfit⟩ := hspec.keeps hs hchunk
      obtain ⟨hlength, hroom⟩ := hspec.length_le hchunk
      obtain rfl : t.previous = byte := hspec.previous
      rw [expand, ← List.append_assoc, ← hbytes]
      by_cases hbyte : isContinuation t.previous
      · rw [if_pos hbyte] at hroom
        rw [ShortRuns, if_pos hbyte]
        have hrest := ih (k := k + 1) hfit hlength (by omega)
        change EndsUnless _ (text.foldlM (step console) t) _
        cases hrun : text.foldlM (step console) t with
        | ok u =>
          rw [hrun] at hrest
          exact hrest
        | error e =>
          rw [hrun] at hrest
          obtain ⟨w, rfl, hprefix, hw, hrefused⟩ := hrest
          exact ⟨w, rfl, hprefix, hw, fun hshort => hrefused hshort.2⟩
      · rw [if_neg hbyte] at hroom
        rw [ShortRuns, if_neg hbyte]
        exact ih (k := 0) hfit hlength (by omega)

/-! ## Characters -/

/-- Chunks of whole characters. -/
def Whole (chunks : List (List UInt8)) : Prop := ∀ chunk ∈ chunks, WellFormed chunk

theorem whole_snoc {chunks : List (List UInt8)} {chunk : List UInt8} (h : Whole chunks) (hchunk : WellFormed chunk) :
    Whole (chunks ++ [chunk]) := by
  intro c hc
  rcases List.mem_append.mp hc with hc | hc
  · exact h c hc
  · rw [List.mem_singleton.mp hc]
    exact hchunk

theorem Opened.whole {written : List (List UInt8)} {base : List UInt8} (h : Opened s byte written base)
    (hs : Whole s.written) (hchunk : WellFormed s.chunk) : Whole written ∧ WellFormed base := by
  cases h with
  | stays => exact ⟨hs, hchunk⟩
  | flushed => exact ⟨whole_snoc hs hchunk, wellFormed_nil⟩

/-- Continuation bytes go to the chunk. -/
theorem run_continuation (console : List (List UInt8) → List UInt8 → Bool) {ks : List UInt8}
    (hks : ∀ k ∈ ks, isContinuation k) (hchunk : s.chunk.length ≤ 1023) :
    EndsUnless (fun e => e = .refused s.written) (ks.foldlM (step console) s)
      fun t => t.written = s.written ∧ t.chunk = s.chunk ++ ks ∧ t.chunk.length ≤ 1023 := by
  induction ks generalizing s with
  | nil => exact ⟨rfl, (List.append_nil _).symm, hchunk⟩
  | cons k ks ih =>
    obtain ⟨hk, hks⟩ := List.forall_mem_cons.mp hks
    have hspec := step_spec console k hchunk
    rw [List.foldlM_cons]
    cases hstep : step console s k with
    | error e =>
      rw [hstep] at hspec
      cases hspec with
      | console hbyte => exact (hbyte hk).elim
      | full => exact rfl
    | ok t =>
      rw [hstep] at hspec
      have hspec : GoesOn s k t := hspec
      have hlength := (hspec.length_le hchunk).1
      obtain ⟨base, hopened, hbase, hchunk'⟩ := hspec.opened
      have hitem : item s.previous k = [k] := if_neg fun hlf => by
        rw [hlf.1] at hk
        exact not_isContinuation_lf hk
      rw [hitem] at hchunk'
      generalize hw : t.written = written at hopened
      cases hopened with
      | flushed hbyte => exact (hbyte hk).elim
      | stays =>
        have hrest := ih hks hlength
        rw [hw, hchunk', List.append_assoc] at hrest
        exact hrest

/-- A character goes to one chunk, as a whole. -/
theorem run_char (c : Char) (hs : Whole s.written) (hwell : WellFormed s.chunk) (hchunk : s.chunk.length ≤ 1023) :
    EndsUnless (fun e => ∀ w, e = .refused w → Whole w) ((String.utf8EncodeChar c).foldlM (step console) s)
      fun t => Whole t.written ∧ WellFormed t.chunk ∧ t.chunk.length ≤ 1023 := by
  obtain ⟨byte, ks, hencode, -, hks, -⟩ := encode_shape c
  have hspec := step_spec console byte hchunk
  rw [hencode, List.foldlM_cons]
  cases hstep : step console s byte with
  | error e =>
    rw [hstep] at hspec
    intro w hw
    cases hspec with
    | console =>
      cases hw
      exact whole_snoc hs hwell
    | full =>
      cases hw
      exact hs
  | ok t =>
    rw [hstep] at hspec
    have hspec : GoesOn s byte t := hspec
    obtain ⟨base, hopened, hbase, hchunk'⟩ := hspec.opened
    obtain ⟨hwritten, hbase'⟩ := hopened.whole hs hwell
    have hitem : WellFormed (item s.previous byte ++ ks) := by
      have hchar := wellFormed_encode c
      rw [hencode] at hchar
      unfold item
      split
      · exact (wellFormed_cons_ascii (by decide)).mpr hchar
      · exact hchar
    have hrest := run_continuation console hks (hspec.length_le hchunk).1
    change EndsUnless _ (ks.foldlM (step console) t) _
    cases hrun : ks.foldlM (step console) t with
    | error e =>
      rw [hrun] at hrest
      intro w hw
      obtain rfl : e = .refused t.written := hrest
      cases hw
      exact hwritten
    | ok u =>
      rw [hrun] at hrest
      obtain ⟨hw, hu, hlength⟩ := hrest
      refine ⟨hw ▸ hwritten, ?_, hlength⟩
      rw [hu, hchunk', List.append_assoc]
      exact wellFormed_append hbase' hitem

theorem run_chars {cs : List Char} (hs : Whole s.written) (hwell : WellFormed s.chunk)
    (hchunk : s.chunk.length ≤ 1023) :
    EndsUnless (fun e => ∀ w, e = .refused w → Whole w) ((cs.flatMap String.utf8EncodeChar).foldlM (step console) s)
      fun t => Whole t.written ∧ WellFormed t.chunk ∧ t.chunk.length ≤ 1023 := by
  induction cs generalizing s with
  | nil => exact ⟨hs, hwell, hchunk⟩
  | cons c cs ih =>
    rw [List.flatMap_cons, List.foldlM_append]
    exact (run_char c hs hwell hchunk).bind fun t ht => ih ht.1 ht.2.1 ht.2.2

theorem shortRuns_append {k : ℕ} {ks : List UInt8} (hks : ∀ k ∈ ks, isContinuation k) (hk : k + ks.length ≤ 3)
    (h : ShortRuns (k + ks.length) text) : ShortRuns k (ks ++ text) := by
  induction ks generalizing k with
  | nil => exact h
  | cons byte ks ih =>
    obtain ⟨hbyte, hks⟩ := List.forall_mem_cons.mp hks
    rw [List.length_cons] at hk h
    rw [List.cons_append, ShortRuns, if_pos hbyte]
    refine ⟨by omega, ih hks (by omega) ?_⟩
    rwa [Nat.add_right_comm, Nat.add_assoc]

/-- A well-formed text is such a one. -/
theorem shortRuns_chars (k : ℕ) (cs : List Char) : ShortRuns k (cs.flatMap String.utf8EncodeChar) := by
  induction cs generalizing k with
  | nil => exact trivial
  | cons c cs ih =>
    obtain ⟨byte, ks, hencode, hbyte, hks, hlength⟩ := encode_shape c
    rw [List.flatMap_cons, hencode, List.cons_append, ShortRuns, if_neg hbyte]
    exact shortRuns_append hks (by omega) (ih _)

/-! ## The call -/

/-- Chunks that are given to the console, of a text. -/
structure Chunks (text : List UInt8) (chunks : List (List UInt8)) : Prop where
  fit : ∀ chunk ∈ chunks, chunk.length ≤ 1023
  whole : WellFormed text → ∀ chunk ∈ chunks, WellFormed chunk

/-- The whole loop. -/
theorem loop_spec (console : List (List UInt8) → List UInt8 → Bool) (text : List UInt8) :
    EndsUnless
      (fun e => ∃ w, e = .refused w ∧ w.flatten <+: expand 0 text ∧ Fit w ∧ (ShortRuns 0 text → Refused console w))
      (text.foldlM (step console) {})
      fun t => t.bytes = expand 0 text ∧ Fit t.written ∧ t.chunk.length ≤ 1023 :=
  run_spec (s := {}) (k := 0) nofun (Nat.zero_le _) (Nat.zero_le _)

theorem loop_whole (console : List (List UInt8) → List UInt8 → Bool) {text : List UInt8} (h : WellFormed text) :
    EndsUnless (fun e => ∀ w, e = .refused w → Whole w) (text.foldlM (step console) {})
      fun t => Whole t.written ∧ WellFormed t.chunk ∧ t.chunk.length ≤ 1023 := by
  obtain ⟨cs, rfl⟩ := h
  exact run_chars nofun wellFormed_nil (Nat.zero_le _)

theorem writeText_cases (console : List (List UInt8) → List UInt8 → Bool) (text : List UInt8) :
    (∃ chunks, writeText console (some text) = .ok chunks ∧ chunks.flatten = expand 0 text ∧ Chunks text chunks) ∨
      ∃ chunks, writeText console (some text) = .error (.refused chunks) ∧ chunks.flatten <+: expand 0 text ∧
        Chunks text chunks ∧
        (ShortRuns 0 text → ∃ before chunk, chunks = before ++ [chunk] ∧ console before chunk = false) := by
  have hloop := loop_spec console text
  have hwhole := fun h : WellFormed text => loop_whole console h
  dsimp only [writeText]
  cases hrun : text.foldlM (step console) {} with
  | error e =>
    rw [hrun] at hloop hwhole
    obtain ⟨w, rfl, hprefix, hfit, hrefused⟩ := hloop
    exact .inr ⟨w, rfl, hprefix, ⟨hfit, fun hwell => hwhole hwell w rfl⟩, hrefused⟩
  | ok s =>
    rw [hrun] at hloop hwhole
    obtain ⟨hbytes, hfit, hchunk⟩ := hloop
    change (∃ _, (if s.chunk.length = 0 then _ else _) = _ ∧ _) ∨ ∃ _, (if s.chunk.length = 0 then _ else _) = _ ∧ _
    by_cases hempty : s.chunk.length = 0
    · rw [if_pos hempty]
      rw [State.bytes, List.eq_nil_of_length_eq_zero hempty, List.append_nil] at hbytes
      exact .inl ⟨s.written, rfl, hbytes, hfit, fun hwell => (hwhole hwell).1⟩
    · rw [if_neg hempty]
      have hlast : Chunks text (s.written ++ [s.chunk]) :=
        ⟨fit_snoc hfit hchunk, fun hwell => whole_snoc (hwhole hwell).1 (hwhole hwell).2.1⟩
      rw [State.bytes, ← flatten_snoc] at hbytes
      have hflush := flush_spec console hchunk
      cases hresult : s.flush console with
      | ok u =>
        rw [hresult] at hflush
        obtain rfl := hflush
        exact .inl ⟨_, rfl, hbytes, hlast⟩
      | error e =>
        rw [hresult] at hflush
        obtain ⟨rfl, hconsole⟩ := hflush
        exact .inr ⟨_, rfl, hbytes ▸ List.prefix_rfl, hlast, fun _ => ⟨_, _, rfl, hconsole⟩⟩

/-- **`emulator_session_write_text`** never stores past its buffer, and gives the console chunks that leave room for
the NUL, of whole characters if the text is well formed.  It succeeds with the whole text, with CR LF for every LF not
preceded by CR, or fails with a beginning of it; unless four continuation bytes follow each other, because the console
did not take the last chunk. -/
theorem writeText_spec (console : List (List UInt8) → List UInt8 → Bool) (text : List UInt8) :
    ((∃ chunks, writeText console (some text) = .ok chunks ∧ chunks.flatten = expand 0 text ∧ Chunks text chunks) ∨
      ∃ chunks, writeText console (some text) = .error (.refused chunks) ∧ chunks.flatten <+: expand 0 text ∧
        Chunks text chunks ∧
        (ShortRuns 0 text → ∃ before chunk, chunks = before ++ [chunk] ∧ console before chunk = false)) ∧
      (WellFormed text → (∀ before chunk, WellFormed chunk → console before chunk) →
        ∃ chunks, writeText console (some text) = .ok chunks) := by
  refine ⟨writeText_cases console text, fun hwell hconsole => ?_⟩
  obtain ⟨chunks, hok, -⟩ | ⟨chunks, -, -, hchunks, hrefused⟩ := writeText_cases console text
  · exact ⟨chunks, hok⟩
  · obtain ⟨cs, rfl⟩ := hwell
    obtain ⟨before, chunk, rfl, hconsole'⟩ := hrefused (shortRuns_chars 0 cs)
    have hlast := hchunks.whole ⟨cs, rfl⟩ chunk (List.mem_append_right _ (List.mem_singleton_self _))
    rw [hconsole before chunk hlast] at hconsole'
    cases hconsole'

/-- A thousand continuation bytes and more are not a chunk, and are not split. -/
theorem writeText_continuation {ks : List UInt8} (hks : ∀ k ∈ ks, isContinuation k) (h : 1023 < ks.length) :
    writeText console (some ks) = .error (.refused []) := by
  have hrun := run_continuation console (s := {}) hks (Nat.zero_le _)
  dsimp only [writeText]
  cases hresult : ks.foldlM (step console) {} with
  | ok t =>
    rw [hresult] at hrun
    obtain ⟨-, hchunk, hlength⟩ := hrun
    have hchunk : t.chunk = ks := hchunk
    rw [hchunk] at hlength
    omega
  | error e =>
    rw [hresult] at hrun
    obtain rfl : e = .refused [] := hrun
    rfl

theorem length_le_expand (previous : UInt8) (text : List UInt8) : text.length ≤ (expand previous text).length := by
  induction text generalizing previous with
  | nil => exact Nat.le_refl 0
  | cons byte text ih =>
    have hitem : 1 ≤ (item previous byte).length := by
      unfold item
      split
      · exact Nat.le_succ 1
      · exact Nat.le_refl 1
    have hrest := ih byte
    rw [expand, List.length_append, List.length_cons]
    omega

/-- **A text that is not written**, of continuation bytes, though the console takes every chunk. -/
theorem writeText_not_lossless : ¬∀ (text : List UInt8) (chunks : List (List UInt8)),
    writeText (fun _ _ => true) (some text) = .ok chunks ∨
      writeText (fun _ _ => true) (some text) = .error (.refused chunks) → chunks.flatten = expand 0 text := by
  intro h
  have hbytes : ∀ k ∈ List.replicate 1024 (0x80 : UInt8), isContinuation k := fun k hk => by
    rw [List.eq_of_mem_replicate hk]
    decide
  have hlong : (List.replicate 1024 (0x80 : UInt8)).length = 1024 := List.length_replicate
  have hlost := h _ [] (.inr (writeText_continuation hbytes (by omega)))
  have hlength := length_le_expand 0 (List.replicate 1024 (0x80 : UInt8))
  rw [← hlost, hlong] at hlength
  exact absurd hlength (by decide)

end SoftPC.WriteText
