/-
Webserv/HttpRequest/LimitInvariant.lean

The body limit as an invariant of the parser.

The invariant holds of every state a sequence of `Parse` calls reaches, also behind
an exception, whose state the next call goes on from.  It rests on one fact about
the header phase, that an accepted head gives a length within `kMaxPayloadSize` or
the sentinel of a chunked body, and on the bounds of the body phase.
-/
import Webserv.HttpRequest.BodyPhase

namespace Webserv

open EStateM (Triple)

/-! ### The header phase -/

theorem triple_true {α : Type} (P : HttpRequest → Prop) (x : RequestM α) :
    Triple P x (fun _ _ => True) fun _ _ => True := fun s _ => by
  rcases x.run s with ⟨a, t⟩ | ⟨e, t⟩ <;> trivial

/-- A `content_length_` that a head can give. -/
def AcceptedLength (length : Int) : Prop := length = -1 ∨ 0 ≤ length ∧ length ≤ kMaxPayloadSize

theorem Framed.accepted {cl te : Option Bytes} {limit : Nat} {length : Int}
    (h : Framed cl te limit length) : AcceptedLength length := by
  unfold Framed at h
  rcases cl with - | s <;> rcases te with - | v <;> simp only at h
  · rw [h]
    exact .inr ⟨le_rfl, by decide⟩
  · exact .inl h.2
  · exact .inr ⟨h.2.1, h.2.2.1⟩

theorem consumeRequestHead_length (p : Bytes) :
    Triple (fun _ => True) (consumeRequestHead p) (fun _ s => AcceptedLength s.contentLength)
      fun _ _ => True := by
  refine (triple_true _ _).bind fun _ => (triple_true _ _).bind fun _ => (triple_true _ _).bind
    fun _ => (triple_true _ _).bind fun q => .ite (fun _ => .throw fun _ _ => trivial) fun _ => ?_
  refine EStateM.Triple.bind (Q := fun _ s => AcceptedLength s.contentLength) ?_
    fun _ => .pure fun _ h => h
  refine (triple_true _ _).bind fun _ => (triple_true _ _).bind fun _ => ?_
  refine EStateM.Triple.bind (Q := fun _ s => AcceptedLength s.contentLength) ?_ fun _ => ?_
  · intro r _
    refine (validateBodyHeaders_read r).imp (fun _ h => h) ?_ (fun _ _ _ => trivial) r rfl
    rintro - s ⟨length, hframed, rfl⟩
    exact hframed.accepted
  · intro r hr
    refine (parseConnectionDirective_read r).imp (fun _ h => h) ?_ (fun _ _ _ => trivial) r rfl
    rintro - s ⟨keep, rfl⟩
    exact hr

/-! ### The invariant -/

/-- The body is within the limit, in every phase. -/
structure WithinLimit (limit : Nat) (r : HttpRequest) : Prop where
  limit_eq : r.maxBodySizeLimit = limit
  body_le : r.body.length ≤ limit
  buffer_le : r.buffer.length ≤ stringMaxSize
  header : r.state = .kHeader → r.body = [] ∧ r.bufferReadPos = 0
  framed : r.state = .kBody →
    r.contentLength < 0 ∧ r.bufferReadPos ≤ r.buffer.length ∨
      0 ≤ r.contentLength ∧ r.contentLength ≤ kMaxPayloadSize ∧ r.body = []
  done : r.state = .kDone → 0 ≤ r.contentLength → (r.body.length : Int) = r.contentLength

theorem fresh_withinLimit (limit : Nat) : WithinLimit limit (.fresh limit) where
  limit_eq := rfl
  body_le := Nat.zero_le _
  buffer_le := Nat.zero_le _
  header _ := ⟨rfl, rfl⟩
  framed h := by cases h
  done h := by cases h

theorem Measured.withinLimit {limit : Nat} {r : HttpRequest}
    (h : Measured limit stringMaxSize r) : WithinLimit limit r where
  limit_eq := h.limit_eq
  body_le := h.body_le
  buffer_le := h.buffer_le
  header hstate := by rw [h.state_eq] at hstate; cases hstate
  framed _ := .inl ⟨h.length_neg, h.pos_le⟩
  done hstate := by rw [h.state_eq] at hstate; cases hstate

theorem Decoded.withinLimit {limit : Nat} {r : HttpRequest}
    (h : Decoded limit stringMaxSize r) : WithinLimit limit r where
  limit_eq := h.limit_eq
  body_le := h.body_le
  buffer_le := h.buffer_le
  header hstate := by rw [h.state_eq] at hstate; cases hstate
  framed hstate := by rw [h.state_eq] at hstate; cases hstate
  done _ hlength := absurd h.length_neg (by omega)

/-- A request that has been read to its end. -/
theorem WithinLimit.of_done {limit : Nat} {r : HttpRequest} (hstate : r.state = .kDone)
    (hlimit : r.maxBodySizeLimit = limit) (hbody : r.body.length ≤ limit)
    (hbuffer : r.buffer.length ≤ stringMaxSize)
    (hlength : (r.body.length : Int) = r.contentLength) : WithinLimit limit r where
  limit_eq := hlimit
  body_le := hbody
  buffer_le := hbuffer
  header h := by rw [hstate] at h; cases h
  framed h := by rw [hstate] at h; cases h
  done _ _ := hlength

theorem appendToBuffer_withinLimit (limit : Nat) (data : Bytes) :
    Triple (WithinLimit limit) (appendToBuffer data) (fun _ => WithinLimit limit)
      fun _ => WithinLimit limit := by
  refine .get_bind fun r hr => ?_
  unfold stringAppend
  split_ifs with hfits
  · refine .pure_bind (.update ?_)
    rintro s rfl
    refine ⟨hr.limit_eq, hr.body_le, ?_, hr.header, fun hstate => ?_, hr.done⟩
    · show (s.buffer ++ data).length ≤ stringMaxSize
      rwa [List.length_append]
    · refine (hr.framed hstate).imp (fun h => ⟨h.1, h.2.trans ?_⟩) fun h => h
      show s.buffer.length ≤ (s.buffer ++ data).length
      simp
  · refine .throw_bind ?_
    rintro s rfl
    exact hr

theorem advanceHeader_withinLimit (limit : Nat) :
    Triple (fun r => WithinLimit limit r ∧ r.state = .kHeader) advanceHeader
      (fun found s => WithinLimit limit s ∧ (found = true → s.state = .kBody))
      fun _ => WithinLimit limit := by
  refine .get_bind fun r ⟨hr, hstate⟩ => ?_
  obtain ⟨hbody, hpos⟩ := hr.header hstate
  rcases hend : findEndOfHeader true r.buffer with - | i
  · refine .pure ?_
    rintro s rfl
    exact ⟨hr, fun h => by cases h⟩
  · -- the header phase leaves everything the invariant speaks of, but the length
    have hprogress := (consumeRequestHead_progress hend).1
    have hlength := consumeRequestHead_length r.buffer r trivial
    rintro s rfl
    simp only [EStateM.run_bind, EStateM.run_tryCatch_any]
    rcases hrun : (consumeRequestHead s.buffer).run s with ⟨q, t⟩ | ⟨e, t⟩
    · rw [hrun] at hprogress hlength
      simp only [EStateM.Result.state, HttpRequest.progress, Prod.mk.injEq] at hprogress
      obtain ⟨hbuffer, hpos', -, hbody', -, hlimit⟩ := hprogress
      refine ⟨⟨hlimit.trans hr.limit_eq, ?_, ?_, fun h => ?_, fun _ => ?_, fun h => ?_⟩, fun _ => rfl⟩
      · show t.body.length ≤ limit
        rw [hbody']
        exact hr.body_le
      · show (t.buffer.drop i).length ≤ stringMaxSize
        rw [hbuffer, List.length_drop]
        exact (Nat.sub_le _ _).trans hr.buffer_le
      · cases h
      · have hlength : AcceptedLength t.contentLength := hlength
        refine hlength.imp (fun h => ⟨?_, ?_⟩) fun h => ⟨h.1, h.2, hbody'.trans hbody⟩
        · show t.contentLength < 0
          omega
        · show t.bufferReadPos ≤ _
          rw [hpos', hpos]
          exact Nat.zero_le _
      · cases h
    · rw [hrun] at hprogress
      simp only [EStateM.Result.state, HttpRequest.progress, Prod.mk.injEq] at hprogress
      obtain ⟨hbuffer, hpos', hstate', hbody', -, hlimit⟩ := hprogress
      refine ⟨hlimit.trans hr.limit_eq, ?_, ?_, fun _ => ⟨hbody'.trans hbody, hpos'.trans hpos⟩,
        fun h => ?_, fun h => ?_⟩
      · show t.body.length ≤ limit
        rw [hbody']
        exact hr.body_le
      · show t.buffer.length ≤ stringMaxSize
        rw [hbuffer]
        exact hr.buffer_le
      · rw [hstate', hstate] at h
        cases h
      · rw [hstate', hstate] at h
        cases h

theorem toSize_of_accepted {length : Int} (hneg : 0 ≤ length) (hle : length ≤ kMaxPayloadSize) :
    (toSize length : Int) = length := by
  refine toSize_eq hneg ?_
  unfold kMaxPayloadSize at hle
  unfold sizeMod
  omega

theorem advanceContentLengthBody_withinLimit {limit : Nat} {r : HttpRequest}
    (hr : WithinLimit limit r) (hneg : 0 ≤ r.contentLength)
    (hle : r.contentLength ≤ kMaxPayloadSize) (hbody : r.body = []) :
    Triple (· = r) advanceContentLengthBody
      (fun finished s => WithinLimit limit s ∧ (finished = true → s.state = .kDone))
      fun _ => WithinLimit limit := by
  have hsize := toSize_of_accepted hneg hle
  refine .get_bind ?_
  rintro s rfl
  refine .ite (fun _ => .throw ?_) fun hlimit => .ite (fun hzero => .update_bind
    (M := (· = { s with state := .kDone })) (.pure ?_) (by rintro r rfl; rfl)) fun _ =>
    .ite (fun _ => .pure ?_) fun henough => ?_
  · rintro r rfl
    exact hr
  · rintro r rfl
    refine ⟨.of_done rfl hr.limit_eq hr.body_le hr.buffer_le ?_, fun _ => rfl⟩
    show (s.body.length : Int) = s.contentLength
    rw [hbody, ← hsize, hzero]
    rfl
  · rintro r rfl
    exact ⟨hr, fun h => by cases h⟩
  · have htake : (s.buffer.take (toSize s.contentLength)).length = toSize s.contentLength := by
      rw [List.length_take]
      omega
    rintro r rfl
    refine ⟨.of_done rfl hr.limit_eq ?_ ?_ ?_, fun _ => rfl⟩
    · show (r.buffer.take (toSize r.contentLength)).length ≤ limit
      rw [htake, ← hr.limit_eq]
      omega
    · show (r.buffer.drop (toSize r.contentLength)).length ≤ stringMaxSize
      rw [List.length_drop]
      exact (Nat.sub_le _ _).trans hr.buffer_le
    · show ((r.buffer.take (toSize r.contentLength)).length : Int) = r.contentLength
      rw [htake, hsize]

theorem advanceBody_withinLimit {limit : Nat} (hlimit : limit < sizeMod) :
    Triple (fun r => WithinLimit limit r ∧ r.state = .kBody) advanceBody
      (fun finished s => WithinLimit limit s ∧ (finished = true → s.state = .kDone))
      fun _ => WithinLimit limit := by
  refine EStateM.Triple.tryCatch (E := fun _ => WithinLimit limit) ?_ fun e =>
    .throw fun _ h => h
  refine .get_bind fun r ⟨hr, hstate⟩ => .ite (fun hnone => ?_) fun _ => .ite (fun hneg => ?_)
    fun hneg => ?_
  · refine .update_bind (M := (· = { r with state := .kDone })) (.pure ?_) (by rintro s rfl; rfl)
    rintro s rfl
    refine ⟨.of_done rfl hr.limit_eq hr.body_le hr.buffer_le ?_, fun _ => rfl⟩
    show (r.body.length : Int) = r.contentLength
    obtain h | h := hr.framed hstate
    · omega
    · rw [h.2.2, hnone.1]
      rfl
  · obtain h | h := hr.framed hstate
    · omega
    · exact advanceContentLengthBody_withinLimit hr h.1 h.2.1 h.2.2
  · obtain h | h := hr.framed hstate
    · have hdecoding : Decoding limit stringMaxSize (2 * stringMaxSize + 1 + limit) r :=
        ⟨⟨hr.limit_eq, h.1, hstate, hr.body_le, h.2, hr.buffer_le⟩,
          hr.body_le.trans (by omega)⟩
      refine (@advanceChunkedBody_spec limit stringMaxSize (2 * stringMaxSize + 1 + limit) hlimit
        le_rfl (.inl (by omega))).imp ?_ ?_ ?_
      · rintro s rfl
        exact hdecoding
      · rintro finished s hs
        rcases finished with - | -
        · exact ⟨hs.toMeasured.withinLimit, fun h => by cases h⟩
        · exact ⟨hs.withinLimit, fun _ => hs.state_eq⟩
      · exact fun e s hs => hs.toMeasured.withinLimit
    · omega

/-- **Every call of `Parse` keeps the limit**, whether it returns or throws. -/
theorem parse_withinLimit {limit : Nat} (hlimit : limit < sizeMod) (data : Bytes) :
    Triple (WithinLimit limit) (HttpRequest.parse data) (fun _ => WithinLimit limit)
      fun _ => WithinLimit limit := by
  refine (appendToBuffer_withinLimit limit data).bind fun _ => @parseLoop_triple _
    HttpRequest.virtuals (WithinLimit limit) (fun _ => WithinLimit limit) ?_ ?_ ?_
    (fun _ h => h) parseFuel
  · exact advanceHeader_withinLimit limit
  · exact advanceBody_withinLimit hlimit
  · exact .throw fun _ h => h.1

/-! ### Sequences of calls -/

/-- The request behind a sequence of `Parse` calls, each of which goes on from where
the call before it has stopped, by returning or by throwing. -/
def HttpRequest.feed (r : HttpRequest) (pieces : List Bytes) : HttpRequest :=
  pieces.foldl (fun r p => ((HttpRequest.parse p).run r).state) r

theorem feed_withinLimit {limit : Nat} (hlimit : limit < sizeMod) (pieces : List Bytes)
    {r : HttpRequest} (hr : WithinLimit limit r) : WithinLimit limit (r.feed pieces) := by
  induction pieces generalizing r with
  | nil => exact hr
  | cons p ps ih =>
      refine ih ?_
      have hparse := parse_withinLimit hlimit p r hr
      rcases hrun : (HttpRequest.parse p).run r with ⟨u, s⟩ | ⟨e, s⟩
      all_goals
        show WithinLimit limit ((HttpRequest.parse p).run r).state
        rw [hrun] at hparse ⊢
        exact hparse

/-- **The body limit invariant**: in every state that `Parse` calls reach, the body is
within the limit, and behind a `Content-Length` it is as long as promised. -/
theorem feed_body_length_le (limit : Nat) (hlimit : limit < sizeMod) (pieces : List Bytes) :
    ((HttpRequest.fresh limit).feed pieces).body.length ≤ limit ∧
      (((HttpRequest.fresh limit).feed pieces).state = .kDone →
        ((HttpRequest.fresh limit).feed pieces).contentLength ≥ 0 →
        (((HttpRequest.fresh limit).feed pieces).body.length : Int) =
          ((HttpRequest.fresh limit).feed pieces).contentLength) :=
  have h := feed_withinLimit hlimit pieces (fresh_withinLimit limit)
  ⟨h.body_le, h.done⟩

/-- Two chunks of three bytes under a limit of five: the second call throws. -/
theorem feed_body_length_le_two_chunks :
    ((HttpRequest.fresh 5).feed [bytes "POST / HTTP/1.1\r\nHost: a\r\nTransfer-Encoding: chunked\r\n\r\n",
      bytes "3\r\nabc\r\n3\r\nabc\r\n"]).body.length ≤ 5 :=
  (feed_body_length_le 5 (by decide) _).1

end Webserv
