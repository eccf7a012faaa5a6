/-
Webserv/HttpRequest/Whole.lean

A request that is done has been received: all of its head and all of its body.

The invariant is about the bytes received so far.  In the header phase they are the
buffer; behind it they are a head and the buffer, of which the chunk decoder has read the
part that its members stand for.
-/
import Webserv.HttpRequest.ChunkInvariant
import Webserv.HttpRequest.Framing

namespace Webserv

open Incremental

/-! ### Whole requests -/

/-- The members that the header phase has filled from a head. -/
def HttpRequest.HasHead (r : HttpRequest) (h : RequestHead) : Prop :=
  r.method = h.requestLine.method ∧ r.uri = h.requestLine.path ∧
    r.queryString = h.requestLine.query.getD [] ∧ r.version = h.requestLine.version ∧
    r.headers = storeFields ∅ h.fields

/-- `t` begins with a body of the kind that `content_length_` stands for, which is `body_`. -/
def HttpRequest.HasBody (r : HttpRequest) (t : Bytes) : Prop :=
  if r.contentLength = -1 then ∃ c : ChunkedBody, t = c.encode ∧ r.body = c.data
  else ∃ n : Nat, r.contentLength = n ∧ n ≤ t.length ∧ r.body = t.take n

theorem HttpRequest.HasBody.chunked {r : HttpRequest} {t : Bytes} (hlength : r.contentLength = -1)
    (h : ∃ c : ChunkedBody, t = c.encode ∧ r.body = c.data) : r.HasBody t := by
  rw [HttpRequest.HasBody, if_pos hlength]
  exact h

theorem HttpRequest.HasBody.counted {r : HttpRequest} {t : Bytes} {n : Nat}
    (hlength : r.contentLength = n) (hle : n ≤ t.length) (hbody : r.body = t.take n) :
    r.HasBody t := by
  rw [HttpRequest.HasBody, if_neg (by omega)]
  exact ⟨n, hlength, hle, hbody⟩

/-- **A whole request**: what has been received is a head and a body, framed as the head
says, and they are what the members hold. -/
structure WholeRequest (received : Bytes) (r : HttpRequest) : Prop where
  done : r.state = .kDone
  whole : ∃ (h : RequestHead) (t : Bytes), h.Readable ∧ received = h.encode ++ t ∧ r.HasHead h ∧
    DecidesFraming toLowerAscii h.fields r.contentLength ∧ r.HasBody t

/-- The request behind a head, with the rest of what has been received in its buffer. -/
structure Behind (received : Bytes) (r : HttpRequest) : Prop where
  head : ∃ h : RequestHead, h.Readable ∧ received = h.encode ++ r.buffer ∧ r.HasHead h ∧
    DecidesFraming toLowerAscii h.fields r.contentLength
  length : r.contentLength = -1 ∨
    0 ≤ r.contentLength ∧ r.contentLength ≤ kMaxPayloadSize ∧ r.body = []

/-- **A request between two calls of `Parse`**, and what it has received. -/
structure Partway (limit : Nat) (received : Bytes) (r : HttpRequest) : Prop
    extends Reading limit r where
  header : r.state = .kHeader → r.headers = ∅ ∧ r.queryString = [] ∧ r.buffer = received
  behind : r.state = .kBody → Behind received r
  not_done : r.state ≠ .kDone

/-! ### The moves of the parser -/

theorem Behind.receive {received : Bytes} {r : HttpRequest} (h : Behind received r) (p : Bytes) :
    Behind (received ++ p) (r.receive p) := by
  obtain ⟨head, hreadable, rfl, hhead, hdecides⟩ := h.head
  exact ⟨⟨head, hreadable, List.append_assoc _ _ _, hhead, hdecides⟩, h.length⟩

theorem Partway.receive {limit : Nat} (hlimit : NoWrap limit) {received : Bytes} {r : HttpRequest}
    (h : Partway limit received r) {p : Bytes} (hfits : r.buffer.length + p.length ≤ stringMaxSize) :
    Partway limit (received ++ p) (r.receive p) where
  toReading := h.toReading.receive hlimit hfits
  header hstate := by
    obtain ⟨hnew, hquery, hbuffer⟩ := h.header hstate
    exact ⟨hnew, hquery, congrArg (· ++ p) hbuffer⟩
  behind hstate := (h.behind hstate).receive p
  not_done := h.not_done

/-- The length that the framing fields give. -/
theorem framed_length {cl te : Option Bytes} {limit : Nat} {length : Int}
    (h : Framed cl te limit length) : length = -1 ∨ 0 ≤ length ∧ length ≤ kMaxPayloadSize := by
  unfold Framed at h
  rcases cl with - | v <;> rcases te with - | v'
  · exact .inr (by rw [h]; decide)
  · exact .inl h.2
  · exact .inr ⟨h.2.1, h.2.2.1⟩
  · exact h.elim

theorem Partway.next {limit : Nat} (hlimit : NoWrap limit) {received : Bytes} {r t : HttpRequest}
    (h : Partway limit received r) (hst : r.step = .next t) : Partway limit received t := by
  have hreading := h.toReading.next hlimit hst
  obtain ⟨hstate, hmove⟩ | ⟨hstate, -, hneg, hmove⟩ := step_next hst
  · obtain ⟨hnew, hquery, hbuffer⟩ := h.header hstate
    obtain ⟨head, t, hreadable, htext, name, port, length, keep, -, hframed, rfl⟩ :=
      headerStep_new hnew hmove
    rw [hbuffer] at htext
    refine ⟨hreading, fun hheader => ?_, fun _ => ⟨⟨head, hreadable, htext, ?_, ?_⟩, ?_⟩, ?_⟩
    · cases hheader
    · refine ⟨rfl, rfl, ?_, rfl, ?_⟩
      · show head.requestLine.query.elim r.queryString id = _
        rw [hquery]
        rcases head.requestLine.query with - | q
        · rfl
        · rfl
      · show storeFields r.headers head.fields = _
        rw [hnew]
    · exact framed_decides hreadable.distinct hframed
    · exact (framed_length hframed).imp_right fun ⟨hneg, hmax⟩ =>
        ⟨hneg, hmax, h.header_body hstate⟩
    · exact ParserState.noConfusion
  · -- the chunk decoder leaves the head and the buffer alone
    obtain ⟨hhead, hlength⟩ := h.behind hstate
    have hlength : r.contentLength = -1 := hlength.resolve_right fun hlength => hneg hlength.1
    have hheader : r.state ≠ .kHeader := by
      rw [hstate]
      exact ParserState.noConfusion
    obtain ⟨_, _, -, -, -, rfl⟩ | ⟨_, -, -, -, -, rfl⟩ := chunkStep_next hmove
    · refine ⟨hreading, fun hh => absurd hh hheader, fun _ => ⟨?_, .inl hlength⟩, h.not_done⟩
      exact hhead
    · refine ⟨hreading, fun hh => absurd hh hheader, fun _ => ⟨?_, .inl hlength⟩, h.not_done⟩
      exact hhead

/-- The move that finishes a chunked body. -/
theorem chunkStep_done_unread {r t : HttpRequest} (h : chunkStep r = .done t) :
    r.nextChunkSize = 0 ∧ r.unread = CRLF := by
  unfold chunkStep at h
  split_ifs at h with hnext
  · rcases hline : sizeLine r.unread with - | - | ⟨len, size⟩
    · simp [hline] at h
    · simp [hline] at h
    · simp only [hline] at h
      split_ifs at h
  · exact dataStep_eq_done h

/-- The last size line of the representation is a run of zeros. -/
theorem ChunksRead.encoded {r : HttpRequest} (h : ChunksRead r) (h0 : r.nextChunkSize = 0)
    (hunread : r.unread = CRLF) : ∃ c : ChunkedBody, r.buffer = c.encode ∧ r.body = c.data := by
  obtain ⟨-, chunks, line, hread, hbody, ⟨hneg, -⟩ | ⟨-, -, ds, hne, hhex, hval, rfl⟩⟩ := h
  · rw [h0] at hneg
    cases hneg
  · have hzero : hexVal ds = 0 := by
      rw [h0] at hval
      exact_mod_cast hval
    refine ⟨⟨chunks, ds, hne, (hexVal_eq_zero_iff hhex).mp hzero⟩, ?_, hbody⟩
    have hbuffer : r.buffer = r.buffer.take r.bufferReadPos ++ r.unread :=
      (List.take_append_drop _ _).symm
    rw [hbuffer, hread, hunread, ChunkedBody.encode]
    simp only [List.append_assoc]

/-- The move that finishes has a whole request. -/
theorem Partway.done {limit : Nat} {received : Bytes} {r t : HttpRequest}
    (h : Partway limit received r) (hst : r.step = .done t) : WholeRequest received t := by
  unfold HttpRequest.step at hst
  rcases hstate : r.state with - | - | -
  · rw [hstate] at hst
    exact absurd hst headerStep_done
  · simp only [hstate] at hst
    obtain ⟨⟨head, hreadable, htext, hhas, hdecides⟩, hlength⟩ := h.behind hstate
    split_ifs at hst with hbody hneg
    · cases hst
      refine ⟨rfl, head, r.buffer, hreadable, htext, hhas, hdecides, ?_⟩
      obtain hchunked | ⟨-, -, hnil⟩ := hlength
      · rw [hbody.1] at hchunked
        cases hchunked
      · exact .counted hbody.1 (Nat.zero_le _) hnil
    · obtain hchunked | ⟨-, hmax, hnil⟩ := hlength
      · rw [hchunked] at hneg
        exact absurd hneg (by decide)
      · have hsize : (toSize r.contentLength : Int) = r.contentLength :=
          toSize_eq hneg (by unfold kMaxPayloadSize at hmax; unfold sizeMod; omega)
        simp only [contentLengthStep] at hst
        split_ifs at hst with hlimit h0 hwait
        · cases hst
          refine ⟨rfl, head, r.buffer, hreadable, htext,
            hhas, hdecides, ?_⟩
          rw [h0] at hsize
          exact .counted hsize.symm (Nat.zero_le _) hnil
        · cases hst
          refine ⟨rfl, head, r.buffer, hreadable, htext,
            hhas, hdecides, ?_⟩
          exact .counted hsize.symm (not_lt.mp hwait) rfl
    · have hchunked : r.contentLength = -1 := hlength.resolve_right fun hlength => hneg hlength.1
      have hdone := chunkStep_eq_done hst
      obtain ⟨h0, hunread⟩ := chunkStep_done_unread hst
      obtain ⟨c, hbuffer, hdata⟩ := (h.chunks hstate hchunked).encoded h0 hunread
      rw [hdone]
      refine ⟨rfl, head, r.buffer, hreadable, htext, hhas, hdecides, ?_⟩
      exact .chunked hchunked ⟨c, hbuffer, hdata⟩
  · exact absurd hstate h.not_done

/-! ### Calls of `Parse` -/

/-- A request that has received nothing, of a client with this address. -/
theorem Partway.fresh {limit : Nat} (hlimit : NoWrap limit) (clientIp : Bytes) :
    Partway limit [] { HttpRequest.fresh limit with clientIp := clientIp } := by
  obtain ⟨hsound, hlim, hbody, hchunks⟩ := Reading.fresh hlimit
  obtain ⟨⟨⟨hpos, hmod⟩, hlength, hbodyLe⟩, hheaderPos, hheaderNext, hdata⟩ := hsound
  refine ⟨⟨⟨⟨⟨hpos, hmod⟩, hlength, hbodyLe⟩, hheaderPos, hheaderNext, hdata⟩, hlim, hbody, ?_⟩,
    fun _ => ⟨rfl, rfl, rfl⟩, ?_, ?_⟩
  · intro hstate
    cases hstate
  · intro hstate
    cases hstate
  · exact ParserState.noConfusion

/-- How a run that waits or finishes has gone on. -/
theorem Partway.runs {limit : Nat} (hlimit : NoWrap limit) {received : Bytes} {r : HttpRequest}
    {o : Outcome HttpRequest Exception} (h : Partway limit received r)
    (hruns : Runs requestConsumer r o) :
    (∀ t, o = .waiting t → Partway limit received t) ∧
      ∀ t, o = .finished t → WholeRequest received t := by
  induction hruns with
  | wait =>
      refine ⟨fun t ho => ?_, fun t ho => ?_⟩
      · cases ho
        exact h
      · cases ho
  | done hst =>
      refine ⟨fun t ho => ?_, fun t ho => ?_⟩
      · cases ho
      · cases ho
        exact h.done hst
  | fail =>
      refine ⟨fun t ho => ?_, fun t ho => ?_⟩
      · cases ho
      · cases ho
  | next hst _ ih => exact ih (h.next hlimit hst)

/-- **A call of `Parse` that returns** has received the whole request, or a part of it. -/
theorem Partway.parse {limit : Nat} (hlimit : NoWrap limit) {received : Bytes} {r t : HttpRequest}
    (h : Partway limit received r) {p : Bytes} (hrun : (HttpRequest.parse p).run r = .ok () t) :
    WholeRequest (received ++ p) t ∨ Partway limit (received ++ p) t := by
  by_cases hfits : r.buffer.length + p.length ≤ stringMaxSize
  · have hr := h.receive hlimit hfits
    obtain ⟨o, ho, hresult⟩ := parse_implements r p h.toRequestSound hr.toRequestSound
    obtain ⟨hwaiting, hfinished⟩ := hr.runs hlimit ho
    rw [hrun] at hresult
    rcases o with s | s | ⟨e, s⟩
    · cases hresult
      exact .inr (hwaiting t rfl)
    · cases hresult
      exact .inl (hfinished t rfl)
    · cases hresult
  · rw [parse_tooLong hfits] at hrun
    cases hrun

/-- **Calls of `Parse` that return** have received the whole request, or a part of it. -/
theorem Partway.forM_parse {limit : Nat} (hlimit : NoWrap limit) (pieces : List Bytes)
    {received : Bytes} {r t : HttpRequest} (h : Partway limit received r)
    (hrun : (pieces.forM HttpRequest.parse).run r = .ok () t) :
    WholeRequest (received ++ pieces.flatten) t ∨ Partway limit (received ++ pieces.flatten) t := by
  induction pieces generalizing received r with
  | nil =>
      cases hrun
      rw [List.flatten_nil, List.append_nil]
      exact .inr h
  | cons p ps ih =>
      change (HttpRequest.parse p >>= fun _ => ps.forM HttpRequest.parse).run r = _ at hrun
      rw [EStateM.run_bind] at hrun
      rcases hparse : (HttpRequest.parse p).run r with ⟨u, s⟩ | ⟨e, s⟩
      · rw [hparse] at hrun
        rw [List.flatten_cons, ← List.append_assoc]
        obtain hwhole | hpart := h.parse hlimit hparse
        · rcases ps with - | ⟨q, qs⟩
          · cases hrun
            rw [List.flatten_nil, List.append_nil]
            exact .inl hwhole
          · -- behind the end every further call throws
            change (HttpRequest.parse q >>= fun _ => qs.forM HttpRequest.parse).run s = _ at hrun
            obtain ⟨e, u, hq, -⟩ := parse_behind_done hwhole.done q
            rw [EStateM.run_bind, hq] at hrun
            cases hrun
        · exact ih hpart hrun
      · rw [hparse] at hrun
        cases hrun

end Webserv
