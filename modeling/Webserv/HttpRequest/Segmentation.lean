/-
Webserv/HttpRequest/Segmentation.lean

`HttpRequest::Parse` does not depend on how its input is cut into pieces.

`HttpRequest.step` is one move of the parser: the whole header phase, a
Content-Length body, or one move of the chunk decoder.  `HttpRequest::Parse` runs
these moves until one waits, finishes or throws, so the result follows from the
general one about incremental consumers.
-/
import Webserv.HttpRequest.ChunkRun
import Webserv.HttpRequest.HeadPhase

namespace Webserv

open Incremental

/-! ### The moves of the parser -/

/-- The header phase, as one move. -/
def headerStep (r : HttpRequest) : Move HttpRequest Exception :=
  match findEndOfHeader true r.buffer with
  | none => .wait
  | some endOfHeader =>
      match (consumeRequestHead r.buffer).run r with
      | .ok _ s => .next { s with buffer := s.buffer.drop endOfHeader, state := .kBody }
      | .error e s => .fail e.rethrowAsStatus s

/-- A Content-Length body, as one move. -/
def contentLengthStep (r : HttpRequest) : Move HttpRequest Exception :=
  let need := toSize r.contentLength
  if need > r.maxBodySizeLimit then .fail (.responseStatus .kPayloadTooLarge) r
  else if need = 0 then .done { r with state := .kDone }
  else if r.buffer.length < need then .wait
  else .done { r with body := r.buffer.take need, buffer := r.buffer.drop need, state := .kDone }

/-- There is no body to read. -/
def HttpRequest.NoBody (r : HttpRequest) : Prop :=
  r.contentLength = 0 ∧ r.headers.contains (bytes "transfer-encoding") = false

instance (r : HttpRequest) : Decidable r.NoBody := inferInstanceAs (Decidable (_ ∧ _))

/-- One move of the parser. -/
def HttpRequest.step (r : HttpRequest) : Move HttpRequest Exception :=
  match r.state with
  | .kHeader => headerStep r
  | .kBody =>
      if r.NoBody then .done { r with state := .kDone }
      else if r.contentLength ≥ 0 then contentLengthStep r
      else chunkStep r
  | .kDone => .fail (.responseStatus .kBadRequest) r

/-- The states in which the parser runs.  A size the decoder has accepted still
fits when the parser comes back to it. -/
structure RequestSound (r : HttpRequest) : Prop extends ChunkSound r where
  header_pos : r.state = .kHeader → r.bufferReadPos = 0
  header_next : r.state = .kHeader → r.nextChunkSize = -1
  data_fits : r.nextChunkSize ≠ -1 → r.nextChunkSize ≠ 0 → ¬ r.tooLarge (toSize r.nextChunkSize)

theorem headerStep_next {r t : HttpRequest} (h : headerStep r = .next t) :
    ∃ i q s, findEndOfHeader true r.buffer = some i ∧
      (consumeRequestHead r.buffer).run r = .ok q s ∧
      t = { s with buffer := s.buffer.drop i, state := .kBody } := by
  unfold headerStep at h
  rcases hi : findEndOfHeader true r.buffer with - | i
  · simp [hi] at h
  · rcases hrun : (consumeRequestHead r.buffer).run r with ⟨q, s⟩ | ⟨e, s⟩
    · simp only [hi, hrun] at h
      cases h
      exact ⟨i, q, s, rfl, rfl, rfl⟩
    · simp [hi, hrun] at h

theorem headerStep_done {r t : HttpRequest} : headerStep r ≠ .done t := by
  unfold headerStep
  rcases findEndOfHeader true r.buffer with - | i
  · exact nofun
  · rcases (consumeRequestHead r.buffer).run r with ⟨q, s⟩ | ⟨e, s⟩ <;> exact nofun

theorem contentLengthStep_next {r t : HttpRequest} : contentLengthStep r ≠ .next t := by
  simp only [contentLengthStep]
  split_ifs <;> exact nofun

theorem RequestSound.headerStep {r t : HttpRequest} (hs : RequestSound r)
    (hheader : r.state = .kHeader) (h : headerStep r = .next t) : RequestSound t := by
  obtain ⟨i, q, s, hi, hrun, rfl⟩ := headerStep_next h
  have hprogress := (consumeRequestHead_progress hi).1
  rw [hrun] at hprogress
  simp only [EStateM.Result.state, HttpRequest.progress, Prod.mk.injEq] at hprogress
  obtain ⟨hbuffer, hpos, -, hbody, hnext, hlimit⟩ := hprogress
  have hpos0 : s.bufferReadPos = 0 := hpos.trans (hs.header_pos hheader)
  have hnext0 : s.nextChunkSize = -1 := hnext.trans (hs.header_next hheader)
  have hlen : (s.buffer.drop i).length ≤ r.buffer.length := by
    rw [hbuffer, List.length_drop]
    omega
  have hmod := hs.lt_sizeMod
  have hmax := hs.length_le
  have hbodyLe := hs.body_le
  refine ⟨⟨⟨?_, ?_⟩, ?_, ?_⟩, fun h => ?_, fun h => ?_, fun h => absurd hnext0 h⟩
  · show s.bufferReadPos ≤ (s.buffer.drop i).length
    omega
  · show (s.buffer.drop i).length + s.maxBodySizeLimit + 2 < sizeMod
    omega
  · show (s.buffer.drop i).length ≤ stringMaxSize
    omega
  · show s.body.length ≤ s.bufferReadPos
    rw [hbody, hpos]
    exact hbodyLe
  · cases h
  · cases h

/-- The moves that go on: behind the head, or a move of the chunk decoder. -/
theorem step_next {r t : HttpRequest} (h : r.step = .next t) :
    (r.state = .kHeader ∧ headerStep r = .next t) ∨
      (r.state = .kBody ∧ ¬ r.NoBody ∧ ¬ r.contentLength ≥ 0 ∧ chunkStep r = .next t) := by
  unfold HttpRequest.step at h
  rcases hstate : r.state with - | - | -
  · rw [hstate] at h
    exact .inl ⟨rfl, h⟩
  · simp only [hstate] at h
    split_ifs at h with hbody hlength
    · exact absurd h contentLengthStep_next
    · exact .inr ⟨rfl, hbody, hlength, h⟩
  · simp [hstate] at h

theorem RequestSound.chunk {r t : HttpRequest} (hs : RequestSound r) (hstate : r.state = .kBody)
    (h : chunkStep r = .next t) : RequestSound t := by
  have hsound := hs.toChunkSound.next h
  obtain ⟨len, size, -, hline, hlimit, rfl⟩ | ⟨rest, -, -, -, -, rfl⟩ := chunkStep_next h
  · have hlt := (sizeLine_read_bounds hline).2.2
    refine ⟨hsound, fun h => ?_, fun h => ?_, fun _ h0 hbig => ?_⟩
    · exact nomatch hstate.symm.trans h
    · exact nomatch hstate.symm.trans h
    · have hsize : toSize (r.afterSizeLine len size).nextChunkSize = size := toSize_toPtrdiff hlt
      rw [hsize] at hbig
      exact hlimit ⟨fun h => h0 ((toPtrdiff_eq_zero hlt).mpr h), hbig⟩
  · refine ⟨hsound, fun h => ?_, fun _ => rfl, fun h => absurd rfl h⟩
    exact nomatch hstate.symm.trans h

theorem RequestSound.next {r t : HttpRequest} (hs : RequestSound r) (h : r.step = .next t) :
    RequestSound t := by
  obtain ⟨hstate, h⟩ | ⟨hstate, -, -, h⟩ := step_next h
  · exact hs.headerStep hstate h
  · exact hs.chunk hstate h

/-! ### Stability -/

theorem RequestSound.of_append {r : HttpRequest} {xs ys : Bytes} (h : RequestSound r)
    (hx : RequestSound (r.receive (xs ++ ys))) : RequestSound (r.receive xs) :=
  ⟨h.toChunkSound.of_append hx.toChunkSound, h.header_pos, h.header_next, h.data_fits⟩

theorem consumeRequestHead_receive {r : HttpRequest} {i : Nat}
    (hi : findEndOfHeader true r.buffer = some i) (xs : Bytes) :
    (consumeRequestHead (r.receive xs).buffer).run (r.receive xs) =
      ((consumeRequestHead r.buffer).run r).bimap (· ++ xs) (·.receive xs) := by
  have hbuffer := congrArg Prod.fst (consumeRequestHead_progress hi).1
  have hrun := consumeRequestHead_withBuffer hi xs
  rw [show (r.receive xs).buffer = r.buffer ++ xs from rfl]
  rw [show r.receive xs = r.withBuffer (r.buffer ++ xs) from rfl, hrun]
  rcases hres : (consumeRequestHead r.buffer).run r with ⟨q, s⟩ | ⟨e, s⟩
  all_goals
    rw [hres] at hbuffer
    have hbuffer : s.buffer = r.buffer := hbuffer
    simp only [EStateM.Result.bimap, HttpRequest.withBuffer, HttpRequest.receive, hbuffer]

theorem headerStep_receive_next {r t : HttpRequest} (xs : Bytes) (h : headerStep r = .next t) :
    headerStep (r.receive xs) = .next (t.receive xs) := by
  obtain ⟨i, q, s, hi, hrun, rfl⟩ := headerStep_next h
  have hbuffer := congrArg Prod.fst (consumeRequestHead_progress hi).1
  rw [hrun] at hbuffer
  have hle : i ≤ s.buffer.length := by
    rw [show s.buffer = r.buffer from hbuffer]
    exact (findEndOfHeader_eq_some hi).1
  have hi' : findEndOfHeader true (r.receive xs).buffer = some i := findEndOfHeader_append hi xs
  simp only [headerStep, hi', consumeRequestHead_receive hi, hrun, EStateM.Result.bimap]
  simp only [HttpRequest.receive, List.drop_append_of_le_length hle]

theorem headerStep_receive_fail {r t : HttpRequest} {e : Exception} (xs : Bytes)
    (h : headerStep r = .fail e t) : headerStep (r.receive xs) = .fail e (t.receive xs) := by
  unfold headerStep at h
  rcases hi : findEndOfHeader true r.buffer with - | i
  · simp [hi] at h
  · have hi' : findEndOfHeader true (r.receive xs).buffer = some i :=
      findEndOfHeader_append hi xs
    rcases hrun : (consumeRequestHead r.buffer).run r with ⟨q, s⟩ | ⟨e', s⟩
    · simp [hi, hrun] at h
    · simp only [hi, hrun] at h
      cases h
      simp only [headerStep, hi', consumeRequestHead_receive hi, hrun, EStateM.Result.bimap]

theorem step_receive_next {r t : HttpRequest} {xs : Bytes} (hs : RequestSound r)
    (h : r.step = .next t) : (r.receive xs).step = .next (t.receive xs) := by
  have hfield : (r.receive xs).state = r.state := rfl
  unfold HttpRequest.step
  rw [hfield]
  obtain ⟨hstate, h⟩ | ⟨hstate, hbody, hlength, h⟩ := step_next h
  · rw [hstate]
    exact headerStep_receive_next xs h
  · rw [hstate]
    simp only [if_neg (show ¬ (r.receive xs).NoBody from hbody),
      if_neg (show ¬ (r.receive xs).contentLength ≥ 0 from hlength)]
    exact chunkStep_receive_next hs.toChunkSound h

theorem contentLengthStep_fail {r t : HttpRequest} {e : Exception} (xs : Bytes)
    (h : contentLengthStep r = .fail e t) :
    contentLengthStep (r.receive xs) = .fail e (t.receive xs) := by
  simp only [contentLengthStep] at h ⊢
  split_ifs at h with hlimit
  cases h
  exact if_pos hlimit

theorem step_receive_fail {r t : HttpRequest} {e : Exception} {xs : Bytes} (hs : RequestSound r)
    (h : r.step = .fail e t) : (r.receive xs).step = .fail e (t.receive xs) := by
  have hfield : (r.receive xs).state = r.state := rfl
  unfold HttpRequest.step at h ⊢
  rw [hfield]
  rcases hstate : r.state with - | - | -
  · rw [hstate] at h
    exact headerStep_receive_fail xs h
  · simp only [hstate] at h ⊢
    split_ifs at h with hbody hlength
    · rw [if_neg (show ¬ (r.receive xs).NoBody from hbody),
        if_pos (show (r.receive xs).contentLength ≥ 0 from hlength)]
      exact contentLengthStep_fail xs h
    · rw [if_neg (show ¬ (r.receive xs).NoBody from hbody),
        if_neg (show ¬ (r.receive xs).contentLength ≥ 0 from hlength)]
      exact chunkStep_receive_fail hs.toChunkSound h
  · simp only [hstate] at h ⊢
    cases h
    rfl

/-- **The request parser** as an incremental consumer of bytes. -/
def requestConsumer : Consumer HttpRequest Byte Exception where
  step := HttpRequest.step
  extend := HttpRequest.receive
  Sound := RequestSound
  extend_nil := receive_nil
  extend_append := receive_append
  sound_of_append := RequestSound.of_append
  sound_next := RequestSound.next
  step_next hs _ h := step_receive_next hs h
  step_fail hs _ h := step_receive_fail hs h

/-! ### `Parse` is a run of the parser -/

theorem advanceHeader_run (r : HttpRequest) :
    advanceHeader.run r =
      match headerStep r with
      | .next t => .ok true t
      | .wait => .ok false r
      | .done t => .ok true t
      | .fail e t => .error e t := by
  simp only [advanceHeader, headerStep, EStateM.run_bind, EStateM.run_get]
  rcases findEndOfHeader true r.buffer with - | i
  · rfl
  · simp only [EStateM.run_bind, EStateM.run_tryCatch_any]
    rcases (consumeRequestHead r.buffer).run r with ⟨q, s⟩ | ⟨e, s⟩ <;> rfl

theorem advanceContentLengthBody_run (r : HttpRequest) :
    advanceContentLengthBody.run r =
      match contentLengthStep r with
      | .next t => .ok true t
      | .wait => .ok false r
      | .done t => .ok true t
      | .fail e t => .error e t := by
  simp only [advanceContentLengthBody, contentLengthStep, EStateM.run_bind, EStateM.run_get,
    EStateM.run_ite]
  split_ifs <;> rfl

/-- The only move that finishes is the one behind the final CRLF. -/
theorem chunkStep_eq_done {r t : HttpRequest} (h : chunkStep r = .done t) : t = r.afterBody := by
  unfold chunkStep dataStep at h
  split_ifs at h with hnext h0 hbig
  · rcases hline : sizeLine r.unread with - | - | ⟨len, size⟩
    · simp [hline] at h
    · simp [hline] at h
    · simp only [hline] at h
      split_ifs at h
  · rcases hu : r.unread with - | ⟨c, - | ⟨c', rest⟩⟩
    · simp [hu] at h
    · simp [hu] at h
    · simp only [hu] at h
      split_ifs at h
      cases h
      rfl
  · rcases hu : r.unread.drop (toSize r.nextChunkSize) with - | ⟨c, - | ⟨c', rest⟩⟩
    · simp [hu] at h
    · simp [hu] at h
    · simp only [hu] at h
      split_ifs at h

theorem chunkStep_done {r t : HttpRequest} (h : chunkStep r = .done t) : t.state = .kDone := by
  rw [chunkStep_eq_done h]
  rfl

/-- How a call of `Parse` ends: in `kDone` if it finishes, with a status if it fails. -/
def ProperEnd : Outcome HttpRequest Exception → Prop
  | .waiting _ => True
  | .finished t => t.state = .kDone
  | .failed e _ => ∃ status, e = .responseStatus status

theorem chunk_runs_end {r : HttpRequest} {o : Outcome HttpRequest Exception}
    (h : Runs chunkConsumer r o) : ProperEnd o := by
  induction h with
  | wait => trivial
  | done h => exact chunkStep_done h
  | fail h =>
      obtain ⟨status, _, _, _, rfl, -⟩ := chunkStep_fail h
      exact ⟨status, rfl⟩
  | next _ _ ih => exact ih

theorem chunk_runs_request {r : HttpRequest} {o : Outcome HttpRequest Exception}
    (h : Runs chunkConsumer r o) (hstate : r.state = .kBody) (hbody : ¬ r.NoBody)
    (hlength : ¬ r.contentLength ≥ 0) : Runs requestConsumer r o := by
  refine h.congr (P := fun s => s.state = .kBody ∧ ¬ s.NoBody ∧ ¬ s.contentLength ≥ 0)
    ⟨hstate, hbody, hlength⟩ ?_ ?_
  · rintro s ⟨hstate, hbody, hlength⟩
    show s.step = chunkStep s
    simp only [HttpRequest.step, hstate, if_neg hbody, if_neg hlength]
  · intro s t hP hst
    obtain ⟨_, _, -, -, -, rfl⟩ | ⟨_, -, -, -, -, rfl⟩ := chunkStep_next hst
    · exact hP
    · exact hP

theorem advanceBody_runs {r : HttpRequest} (hs : RequestSound r) (hstate : r.state = .kBody) :
    ∃ o, Runs requestConsumer r o ∧ advanceBody.run r = loopResult o ∧ ProperEnd o := by
  have hstep : r.step =
      if r.NoBody then .done { r with state := .kDone }
      else if r.contentLength ≥ 0 then contentLengthStep r
      else chunkStep r := by
    rw [HttpRequest.step, hstate]
  simp only [advanceBody, EStateM.run_tryCatch_any, selectBodyFraming, EStateM.run_bind,
    EStateM.run_get, EStateM.run_ite]
  by_cases hbody : r.NoBody
  · have hcond : r.contentLength = 0 ∧ (!r.headers.contains (bytes "transfer-encoding")) = true :=
      ⟨hbody.1, by rw [hbody.2]; rfl⟩
    rw [if_pos hbody] at hstep
    refine ⟨.finished { r with state := .kDone }, .done hstep, ?_, rfl⟩
    rw [if_pos hcond]
    rfl
  · have hcond : ¬ (r.contentLength = 0 ∧
        (!r.headers.contains (bytes "transfer-encoding")) = true) := fun h =>
      hbody ⟨h.1, by simpa using h.2⟩
    rw [if_neg hbody] at hstep
    rw [if_neg hcond]
    by_cases hlength : r.contentLength ≥ 0
    · rw [if_pos hlength] at hstep ⊢
      rw [advanceContentLengthBody_run]
      simp only [contentLengthStep] at hstep ⊢
      split_ifs at hstep ⊢
      · exact ⟨.failed _ _, .fail hstep, rfl, _, rfl⟩
      · exact ⟨.finished _, .done hstep, rfl, rfl⟩
      · exact ⟨.waiting _, .wait hstep, rfl, trivial⟩
      · exact ⟨.finished _, .done hstep, rfl, rfl⟩
    · obtain ⟨o, ho, hrun⟩ := advanceChunkedBody_runs hs.toChunkSound hs.data_fits
      have hend := chunk_runs_end ho
      refine ⟨o, chunk_runs_request ho hstate hbody hlength, ?_, hend⟩
      rw [if_neg hlength, hrun]
      rcases o with s | s | ⟨e, s⟩
      · rfl
      · rfl
      · obtain ⟨status, rfl⟩ := hend
        rfl

/-- The loop of `Parse` from the body phase on. -/
theorem parseLoop_body {r : HttpRequest} (hs : RequestSound r) (hstate : r.state = .kBody)
    (fuel : Nat) :
    ∃ o, Runs requestConsumer r o ∧
      (parseLoop HttpRequest.virtuals (fuel + 1)).run r = o.result := by
  obtain ⟨o, ho, hrun, hdone⟩ := advanceBody_runs hs hstate
  refine ⟨o, ho, ?_⟩
  have hloop : (parseLoop HttpRequest.virtuals (fuel + 1)).run r =
      (do
        if !(← advanceBody) then return
        if (← get).state ≠ .kDone then throwStatus .kInternalServerError
        return : RequestM Unit).run r := by
    simp only [parseLoop, EStateM.run_bind, EStateM.run_get]
    rw [show HttpRequest.virtuals.state r = .kBody from hstate]
    rfl
  rw [hloop]
  simp only [EStateM.run_bind, hrun]
  rcases o with s | s | ⟨e, s⟩
  · rfl
  · simp only [loopResult, Bool.not_true, Bool.false_eq_true, if_false, EStateM.run_bind,
      EStateM.run_get, show s.state = .kDone from hdone]
    rfl
  · rfl

/-- The first thing the loop does in the header phase. -/
theorem parseLoop_header {r : HttpRequest} (hstate : r.state = .kHeader) (fuel : Nat) :
    (parseLoop HttpRequest.virtuals (fuel + 1)).run r =
      (do
        if !(← advanceHeader) then return
        if (← get).state ≠ .kBody then throwStatus .kInternalServerError
        parseLoop HttpRequest.virtuals fuel : RequestM Unit).run r := by
  rw [parseLoop]
  simp only [EStateM.run_bind, EStateM.run_get]
  rw [show HttpRequest.virtuals.state r = .kHeader from hstate]
  rfl

/-- **The loop of `Parse` is a run of the parser.** -/
theorem parseLoop_runs {r : HttpRequest} (hs : RequestSound r) :
    ∃ o, Runs requestConsumer r o ∧
      (parseLoop HttpRequest.virtuals parseFuel).run r = o.result := by
  rw [show parseFuel = 2 + 1 from rfl]
  rcases hstate : r.state with - | - | -
  · have hstep : r.step = headerStep r := by rw [HttpRequest.step, hstate]
    rw [parseLoop_header hstate]
    simp only [EStateM.run_bind, advanceHeader_run]
    rcases hmove : headerStep r with t | - | t | ⟨e, t⟩
    · -- the head has been read: the body phase follows
      have ht : t.state = .kBody := by
        obtain ⟨i, q, s, -, -, rfl⟩ := headerStep_next hmove
        rfl
      obtain ⟨o, ho, hrun⟩ := parseLoop_body (hs.headerStep hstate hmove) ht 1
      refine ⟨o, .next (hstep.trans hmove) ho, ?_⟩
      simp only [Bool.not_true, Bool.false_eq_true, if_false, EStateM.run_bind, EStateM.run_get, ht]
      exact hrun
    · exact ⟨.waiting r, .wait (hstep.trans hmove), rfl⟩
    · exact absurd hmove headerStep_done
    · exact ⟨.failed e t, .fail (hstep.trans hmove), rfl⟩
  · exact parseLoop_body hs hstate 2
  · have hstep : r.step = .fail (.responseStatus .kBadRequest) r := by
      rw [HttpRequest.step, hstate]
    refine ⟨.failed _ r, .fail hstep, ?_⟩
    rw [parseLoop]
    simp only [EStateM.run_bind, EStateM.run_get]
    rw [show HttpRequest.virtuals.state r = .kDone from hstate]
    rfl

/-- `Parse` appends the piece and enters the loop. -/
theorem parse_run {r : HttpRequest} {p : Bytes}
    (hfits : r.buffer.length + p.length ≤ stringMaxSize) :
    (HttpRequest.parse p).run r = (parseLoop HttpRequest.virtuals parseFuel).run (r.receive p) := by
  have happ : (appendToBuffer p).run r = .ok () (r.receive p) := by
    simp only [appendToBuffer, EStateM.run_bind, EStateM.run_get, stringAppend, if_pos hfits]
    rfl
  rw [HttpRequest.parse, parse, EStateM.run_bind,
    show HttpRequest.virtuals.append p = appendToBuffer p from rfl, happ]

theorem parse_wait {r : HttpRequest} {p : Bytes} (hstate : r.state = .kHeader)
    (hfits : r.buffer.length + p.length ≤ stringMaxSize) (h : headerStep (r.receive p) = .wait) :
    (HttpRequest.parse p).run r = .ok () (r.receive p) := by
  have hstate' : (r.receive p).state = .kHeader := hstate
  rw [parse_run hfits, show parseFuel = 2 + 1 from rfl, parseLoop_header hstate', EStateM.run_bind,
    advanceHeader_run, h]
  rfl

theorem parse_fail {r t : HttpRequest} {p : Bytes} {e : Exception} (hstate : r.state = .kHeader)
    (hfits : r.buffer.length + p.length ≤ stringMaxSize)
    (h : headerStep (r.receive p) = .fail e t) :
    (HttpRequest.parse p).run r = .error e t := by
  have hstate' : (r.receive p).state = .kHeader := hstate
  rw [parse_run hfits, show parseFuel = 2 + 1 from rfl, parseLoop_header hstate', EStateM.run_bind,
    advanceHeader_run, h]

/-- **`HttpRequest::Parse` runs the parser** on the buffer with the piece appended. -/
theorem parse_implements : Implements requestConsumer HttpRequest.parse := by
  intro r xs hs hx
  obtain ⟨o, ho, hrun⟩ := parseLoop_runs hx
  refine ⟨o, ho, ?_⟩
  have hlen : r.buffer.length + xs.length ≤ stringMaxSize := by
    rw [← List.length_append]
    exact hx.length_le
  rw [← hrun, parse_run hlen]
  rfl

/-! ### Segmentation independence -/

theorem headerStep_fail {r t : HttpRequest} {e : Exception} (h : headerStep r = .fail e t) :
    ∃ status, e = .responseStatus status := by
  unfold headerStep at h
  rcases hi : findEndOfHeader true r.buffer with - | i
  · simp [hi] at h
  · have hends := (consumeRequestHead_progress hi).2
    rcases hrun : (consumeRequestHead r.buffer).run r with ⟨q, s⟩ | ⟨e', s⟩
    · simp [hi, hrun] at h
    · simp only [hi, hrun] at h
      cases h
      rw [hrun] at hends
      exact rethrowAsStatus_eq hends

theorem step_end {r : HttpRequest} :
    match r.step with
    | .done t => t.state = .kDone
    | .fail e _ => ∃ status, e = .responseStatus status
    | _ => True := by
  unfold HttpRequest.step
  rcases r.state with - | - | -
  · dsimp only
    rcases h : headerStep r with t | - | t | ⟨e, t⟩
    · trivial
    · trivial
    · exact absurd h headerStep_done
    · exact headerStep_fail h
  · dsimp only
    split_ifs with hbody hlength
    · rfl
    · simp only [contentLengthStep]
      split_ifs
      · exact ⟨_, rfl⟩
      · rfl
      · trivial
      · rfl
    · rcases h : chunkStep r with t | - | t | ⟨e, t⟩
      · trivial
      · trivial
      · exact chunkStep_done h
      · obtain ⟨status, _, _, _, rfl, -⟩ := chunkStep_fail h
        exact ⟨status, rfl⟩
  · exact ⟨_, rfl⟩

theorem request_runs_end {r : HttpRequest} {o : Outcome HttpRequest Exception}
    (h : Runs requestConsumer r o) : ProperEnd o := by
  induction h with
  | wait => trivial
  | @done s t h =>
      have hend := step_end (r := s)
      rwa [show s.step = .done t from h] at hend
  | @fail s e t h =>
      have hend := step_end (r := s)
      rwa [show s.step = .fail e t from h] at hend
  | next _ _ ih => exact ih

theorem fresh_sound {limit : Nat} {s : Bytes} (hlen : s.length ≤ stringMaxSize)
    (hlimit : s.length + limit + 2 < sizeMod) :
    RequestSound ((HttpRequest.fresh limit).receive s) :=
  ⟨⟨⟨Nat.zero_le _, hlimit⟩, hlen, le_rfl⟩, fun _ => rfl, fun _ => rfl, fun h => absurd rfl h⟩

/-- No strict prefix of `s` drives a fresh parser to `kDone`. -/
def NotDoneBefore (limit : Nat) (s : Bytes) : Prop :=
  ∀ p, p <+: s → p ≠ s → ((HttpRequest.parse p).run (.fresh limit)).state.state ≠ .kDone

/-- Feeding the pieces, up to the first exception, and feeding all of them at
once give the same exception or the same request. -/
def FeedsAlike (limit : Nat) (pieces : List Bytes) : Prop :=
  ((pieces.forM HttpRequest.parse).run (.fresh limit)).toExcept =
    ((HttpRequest.parse pieces.flatten).run (.fresh limit)).toExcept

/-- **Segmentation independence of the request parser**, for pieces of which no
empty one follows the end of the request. -/
theorem parse_segmentation (limit : Nat) (s : Bytes) (hlen : s.length ≤ stringMaxSize)
    (hlimit : s.length + limit + 2 < sizeMod) (hearly : NotDoneBefore limit s)
    (pieces : List Bytes) (hpieces : pieces.flatten = s)
    (hlast : ((HttpRequest.parse s).run (.fresh limit)).state.state = .kDone →
      pieces.getLast? ≠ some []) :
    FeedsAlike limit pieces ∧
      ∀ e, ((HttpRequest.parse s).run (.fresh limit)).toExcept = .error e →
        ∃ status, e = .responseStatus status := by
  have hs : RequestSound (.fresh limit) :=
    fresh_sound (s := []) (Nat.zero_le _) (by simp only [List.length_nil]; omega)
  have hx : RequestSound ((HttpRequest.fresh limit).receive s) := fresh_sound hlen hlimit
  constructor
  · subst hpieces
    refine forM_push_eq parse_implements hs rfl pieces hx fun ps q qs heq t hruns => ?_
    -- a part of the pieces has driven the parser to `kDone`
    have hpre : ps.flatten <+: pieces.flatten := ⟨(q :: qs).flatten, by rw [heq]; simp⟩
    have hle := hpre.length_le
    have hp : RequestSound ((HttpRequest.fresh limit).receive ps.flatten) :=
      fresh_sound (by omega) (by omega)
    have hdone : ((HttpRequest.parse ps.flatten).run (.fresh limit)).state.state = .kDone := by
      rw [parse_implements.run_eq hs hp hruns]
      exact request_runs_end hruns
    by_cases hall : ps.flatten = pieces.flatten
    · rw [hall] at hdone
      have hrest : (q :: qs).flatten = [] := by
        have hflat : ps.flatten ++ (q :: qs).flatten = ps.flatten := by
          rw [← List.flatten_append, ← heq, hall]
        simpa using hflat
      have hmem : pieces.getLast? = some ((q :: qs).getLast (by simp)) := by
        rw [heq, List.getLast?_append_of_ne_nil _ (by simp), List.getLast?_eq_some_getLast]
      refine hlast hdone ?_
      rw [hmem, List.flatten_eq_nil_iff.mp hrest _ (List.getLast_mem _)]
    · exact hearly _ hpre hall hdone
  · intro e he
    obtain ⟨o, ho, hrun⟩ := parse_implements _ s hs hx
    rw [hrun] at he
    have hend := request_runs_end ho
    rcases o with t | t | ⟨e', t⟩
    · cases he
    · cases he
    · cases he
      exact hend

theorem notDoneBefore_of_inits {limit : Nat} {s : Bytes}
    (h : ∀ p ∈ s.inits, p ≠ s → ((HttpRequest.parse p).run (.fresh limit)).state.state ≠ .kDone) :
    NotDoneBefore limit s :=
  fun p hp => h p ((List.mem_inits p s).mpr hp)

/-- A request that arrives in three pieces, one of them empty. -/
theorem parse_segmentation_three_pieces :
    FeedsAlike 1024 [bytes "GET / HTTP/1.1\r\nHost", [], bytes ": a\r\n\r\n"] :=
  (parse_segmentation 1024 (bytes "GET / HTTP/1.1\r\nHost: a\r\n\r\n") (by decide) (by decide)
    (notDoneBefore_of_inits (by decide +kernel)) _ (by decide) (fun _ => by decide)).1

/-- What the pieces must not be: an empty piece behind a complete request is
refused, and under a limit near 2^64 a size line may be taken for the request
to read another one. -/
theorem parse_segmentation_fails :
    (¬ ∀ pieces : List Bytes, pieces.flatten.length ≤ stringMaxSize →
      NotDoneBefore kMaxPayloadSize pieces.flatten → FeedsAlike kMaxPayloadSize pieces) ∧
    ¬ ∀ pieces : List Bytes, pieces.flatten.length ≤ stringMaxSize → [] ∉ pieces →
      NotDoneBefore (sizeMod - 1) pieces.flatten → FeedsAlike (sizeMod - 1) pieces := by
  constructor
  · intro h
    have heq := h [bytes "GET / HTTP/1.1\r\nHost: a\r\n\r\n", []] (by decide)
      (notDoneBefore_of_inits (by decide +kernel))
    exact absurd (congrArg Except.isOk heq) (by decide +kernel)
  · intro h
    have heq := h
      [bytes "GET / HTTP/1.1\r\nHost: a\r\nTransfer-Encoding: chunked\r\n\r\nFFFFFFFFFFFFFFFF\r\n",
        bytes "0\r\n\r\n"] (by decide) (by decide) (notDoneBefore_of_inits (by decide +kernel))
    exact absurd (congrArg Except.isOk heq) (by decide +kernel)

end Webserv
