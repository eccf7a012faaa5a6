/-
Webserv/HttpRequest/ChunkInvariant.lean

What the members of a chunk decoder that waits for more input stand for.

Four members are updated at different places of a loop that may return at three of them.
Between two calls of `Parse` they say what has been read of the buffer: complete chunks,
whose data is the body, and the size line of the next one if it has come.
-/
import Webserv.HttpRequest.Trailing
import Webserv.HttpRequest.ChunkedFormat

namespace Webserv

open Incremental

/-! ### The invariant -/

/-- The size line that has been read ahead of its data; -1 is for none. -/
def SizeLineRead (next : Int) (line : Bytes) : Prop :=
  next = -1 ∧ line = [] ∨
    0 ≤ next ∧ next < 2 ^ 63 ∧ ∃ ds : Bytes, ds ≠ [] ∧ (∀ c ∈ ds, isHexDigit c = true) ∧
      (hexVal ds : Int) = next ∧ line = ds ++ CRLF

/-- **The representation of a chunked body** in the members of the decoder. -/
structure ChunksRead (r : HttpRequest) : Prop where
  pos_le : r.bufferReadPos ≤ r.buffer.length
  read : ∃ (chunks : List Chunk) (line : Bytes),
    r.buffer.take r.bufferReadPos = (chunks.map Chunk.encode).flatten ++ line ∧
      r.body = (chunks.map Chunk.data).flatten ∧ SizeLineRead r.nextChunkSize line

theorem ChunksRead.start {r : HttpRequest} (hpos : r.bufferReadPos = 0) (hbody : r.body = [])
    (hnext : r.nextChunkSize = -1) : ChunksRead r := by
  refine ⟨by rw [hpos]; exact Nat.zero_le _, [], [], ?_, hbody, .inl ⟨hnext, rfl⟩⟩
  rw [hpos]
  rfl

theorem ChunksRead.receive {r : HttpRequest} (h : ChunksRead r) (p : Bytes) :
    ChunksRead (r.receive p) := by
  obtain ⟨hpos, chunks, line, hread, hbody, hline⟩ := h
  refine ⟨?_, chunks, line, ?_, hbody, hline⟩
  · show r.bufferReadPos ≤ (r.buffer ++ p).length
    rw [List.length_append]
    omega
  · show (r.buffer ++ p).take r.bufferReadPos = _
    rw [List.take_append_of_le_length hpos]
    exact hread

/-- What has been read grows by what a move reads of the unread text. -/
theorem take_add_unread {r : HttpRequest} {a rest : Bytes} (h : r.unread = a ++ rest) :
    r.buffer.take (r.bufferReadPos + a.length) = r.buffer.take r.bufferReadPos ++ a := by
  have hdrop : r.buffer.drop r.bufferReadPos = a ++ rest := h
  rw [List.take_add, hdrop, List.take_left]

/-- Behind a size line. -/
theorem ChunksRead.afterSizeLine {r : HttpRequest} (h : ChunksRead r) (hnext : r.nextChunkSize = -1)
    {len size : Nat} (hline : sizeLine r.unread = .read len size) (hsize : size < 2 ^ 63) :
    ChunksRead (r.afterSizeLine len size) := by
  obtain ⟨hpos, chunks, line, hread, hbody, ⟨-, rfl⟩ | ⟨hge, -⟩⟩ := h
  · obtain ⟨ds, rest, hunread, hne, hhex, hval, -, rfl⟩ := sizeLine_eq_read.mp hline
    have hlen : (ds ++ CRLF).length = ds.length + 2 := List.length_append
    have htake := take_add_unread hunread
    rw [hlen, hread, List.append_nil] at htake
    refine ⟨?_, chunks, ds ++ CRLF, htake, hbody, .inr ⟨?_, ?_, ds, hne, hhex, ?_, rfl⟩⟩
    · show r.bufferReadPos + (ds.length + 2) ≤ r.buffer.length
      have hunread' : r.unread.length = r.buffer.length - r.bufferReadPos := List.length_drop
      rw [hunread, List.length_append, hlen] at hunread'
      omega
    · show 0 ≤ toPtrdiff size
      rw [toPtrdiff_of_lt hsize]
      exact Int.natCast_nonneg _
    · show toPtrdiff size < 2 ^ 63
      rw [toPtrdiff_of_lt hsize]
      exact_mod_cast hsize
    · show (hexVal ds : Int) = toPtrdiff size
      rw [toPtrdiff_of_lt hsize, hval]
  · rw [hnext] at hge
    exact absurd hge (by decide)

/-- Behind the data of a chunk. -/
theorem ChunksRead.afterChunk {r : HttpRequest} (h : ChunksRead r) (hnext : r.nextChunkSize ≠ -1)
    (h0 : r.nextChunkSize ≠ 0) {rest : Bytes}
    (hdrop : r.unread.drop (toSize r.nextChunkSize) = CR :: LF :: rest) :
    ChunksRead (r.afterChunk (toSize r.nextChunkSize)) := by
  obtain ⟨hlen, hunread⟩ := split_of_drop hdrop
  generalize hdata : r.unread.take (toSize r.nextChunkSize) = data at hlen hunread
  obtain ⟨hpos, chunks, line, hread, hbody, ⟨hneg, -⟩ | ⟨hge, hlt, ds, hne, hhex, hval, rfl⟩⟩ := h
  · exact absurd hneg hnext
  · have hvalue : hexVal ds = data.length := by
      have hsize := toSize_eq hge (hlt.trans (by decide))
      omega
    have htake : r.buffer.take (r.bufferReadPos + toSize r.nextChunkSize + 2) =
        r.buffer.take r.bufferReadPos ++ (data ++ CRLF) := by
      have htake := take_add_unread hunread
      rwa [List.length_append, hlen, ← Nat.add_assoc] at htake
    refine ⟨?_, chunks ++ [⟨ds, data, hne, hhex, by omega, hvalue⟩], [], ?_, ?_, .inl ⟨rfl, rfl⟩⟩
    · show r.bufferReadPos + toSize r.nextChunkSize + 2 ≤ r.buffer.length
      have hunread' : r.unread.length = r.buffer.length - r.bufferReadPos := List.length_drop
      rw [hunread, List.length_append, List.length_append, hlen] at hunread'
      simp only [List.length_cons, List.length_nil] at hunread'
      omega
    · show r.buffer.take (r.bufferReadPos + toSize r.nextChunkSize + 2) = _
      rw [htake, hread]
      simp [Chunk.encode]
    · show r.body ++ r.unread.take (toSize r.nextChunkSize) = _
      rw [hdata, hbody]
      simp

/-! ### Whole runs -/

/-- A request between two calls of `Parse`, before its end. -/
structure Reading (limit : Nat) (r : HttpRequest) : Prop extends RequestSound r where
  limit_eq : r.maxBodySizeLimit = limit
  header_body : r.state = .kHeader → r.body = []
  chunks : r.state = .kBody → r.contentLength = -1 → ChunksRead r

theorem Reading.fresh {limit : Nat} (hlimit : NoWrap limit) : Reading limit (.fresh limit) where
  toRequestSound := by
    have hsound := @fresh_sound limit [] (Nat.zero_le _) (hlimit.lt_sizeMod (Nat.zero_le _))
    rwa [receive_nil] at hsound
  limit_eq := rfl
  header_body _ := rfl
  chunks h := by cases h

theorem Reading.receive {limit : Nat} (hlimit : NoWrap limit) {r : HttpRequest}
    (h : Reading limit r) {p : Bytes} (hfits : r.buffer.length + p.length ≤ stringMaxSize) :
    Reading limit (r.receive p) where
  toChunkSound := h.toChunkSound.of_receive hfits (by
    rw [h.limit_eq]
    exact hlimit.lt_sizeMod hfits)
  header_pos := h.header_pos
  header_next := h.header_next
  data_fits := h.data_fits
  limit_eq := h.limit_eq
  header_body := h.header_body
  chunks hstate hlength := (h.chunks hstate hlength).receive p

theorem Reading.next {limit : Nat} (hlimit : NoWrap limit) {r t : HttpRequest}
    (h : Reading limit r) (hst : r.step = .next t) : Reading limit t := by
  have hsound := h.toRequestSound.next hst
  obtain ⟨hstate, hmove⟩ | ⟨hstate, -, -, hmove⟩ := step_next hst
  · -- behind the head nothing of the body has been read
    obtain ⟨i, q, s, hi, hrun, rfl⟩ := headerStep_next hmove
    have hprogress := (consumeRequestHead_progress hi).1
    rw [hrun] at hprogress
    simp only [EStateM.Result.state, HttpRequest.progress, Prod.mk.injEq] at hprogress
    obtain ⟨-, hpos, -, hbody, hnext, hlim⟩ := hprogress
    refine ⟨hsound, hlim.trans h.limit_eq, fun hheader => ?_, fun _ _ => ?_⟩
    · cases hheader
    · exact .start (hpos.trans (h.header_pos hstate)) (hbody.trans (h.header_body hstate))
        (hnext.trans (h.header_next hstate))
  · obtain ⟨len, size, hnext, hline, hfit, rfl⟩ | ⟨rest, hnext, h0, -, hdrop, rfl⟩ :=
      chunkStep_next hmove
    · refine ⟨hsound, h.limit_eq, fun hheader => ?_, fun _ hlength => ?_⟩
      · cases hstate.symm.trans hheader
      · -- a size within the limit is far from the sign bit
        have hsize : size < 2 ^ 63 := by
          have hle : size ≤ limit := by
            rw [← h.limit_eq]
            by_contra hbig
            exact hfit ⟨by omega, .inl (by omega)⟩
          unfold NoWrap stringMaxSize at hlimit
          omega
        exact (h.chunks hstate hlength).afterSizeLine hnext hline hsize
    · refine ⟨hsound, h.limit_eq, fun hheader => ?_, fun _ hlength => ?_⟩
      · cases hstate.symm.trans hheader
      · exact (h.chunks hstate hlength).afterChunk hnext h0 hdrop

theorem Reading.waiting {limit : Nat} (hlimit : NoWrap limit) {r t : HttpRequest}
    (h : Reading limit r) (hruns : Runs requestConsumer r (.waiting t)) : Reading limit t := by
  generalize ho : Outcome.waiting (ε := Exception) t = o at hruns
  induction hruns with
  | wait =>
      cases ho
      exact h
  | done => cases ho
  | fail => cases ho
  | next hst _ ih => exact ih (h.next hlimit hst) ho

/-- A call of `Parse` that returns has come to the end of the request, or keeps the invariant. -/
theorem Reading.parse {limit : Nat} (hlimit : NoWrap limit) {r t : HttpRequest}
    (h : Reading limit r) {p : Bytes} (hrun : (HttpRequest.parse p).run r = .ok () t) :
    t.state = .kDone ∨ Reading limit t := by
  by_cases hfits : r.buffer.length + p.length ≤ stringMaxSize
  · have hr := h.receive hlimit hfits
    obtain ⟨o, ho, hresult⟩ := parse_implements r p h.toRequestSound hr.toRequestSound
    rw [hrun] at hresult
    rcases o with s | s | ⟨e, s⟩
    · cases hresult
      exact .inr (hr.waiting hlimit ho)
    · cases hresult
      exact .inl (request_runs_end ho)
    · cases hresult
  · rw [parse_tooLong hfits] at hrun
    cases hrun

/-- **Calls of `Parse` that return keep the invariant**, up to the end of the request. -/
theorem Reading.forM_parse {limit : Nat} (hlimit : NoWrap limit) (pieces : List Bytes)
    {r t : HttpRequest} (h : r.state = .kDone ∨ Reading limit r)
    (hrun : (pieces.forM HttpRequest.parse).run r = .ok () t) :
    t.state = .kDone ∨ Reading limit t := by
  induction pieces generalizing r with
  | nil =>
      cases hrun
      exact h
  | cons p ps ih =>
      change (HttpRequest.parse p >>= fun _ => ps.forM HttpRequest.parse).run r = _ at hrun
      rw [EStateM.run_bind] at hrun
      rcases hparse : (HttpRequest.parse p).run r with ⟨u, s⟩ | ⟨e, s⟩
      · rw [hparse] at hrun
        have hread := h.resolve_left (not_done_of_parse hparse)
        exact ih (hread.parse hlimit hparse) hrun
      · rw [hparse] at hrun
        cases hrun

/-- A move of the decoder throws one of two statuses. -/
theorem InChunkedBody.failed {r t : HttpRequest} {e : Exception} (hbody : InChunkedBody r)
    (h : Runs requestConsumer r (.failed e t)) :
    e = .responseStatus .kBadRequest ∨ e = .responseStatus .kPayloadTooLarge := by
  generalize ho : Outcome.failed e t = o at h
  induction h with
  | wait => cases ho
  | done => cases ho
  | @fail s e' u h =>
      cases ho
      have hstep : s.step = .fail e t := h
      rw [hbody.step] at hstep
      obtain ⟨status, -, -, -, rfl, rfl | rfl, -⟩ := chunkStep_fail hstep
      · exact .inl rfl
      · exact .inr rfl
  | next h _ ih => exact ih (hbody.next h) ho

/-- **The representation invariant of the chunk decoder.**  In every state of a chunked body
that calls of `Parse` reach, what has been read of the buffer is a sequence of complete chunks,
whose data is the body, and the size line that `next_chunk_size_` has come from.  So the next
call blames the client or nobody: the branch for a read position behind the buffer, and every
`substr` and `append` out of range, would be a `kInternalServerError`. -/
theorem parse_chunksRead {limit : Nat} (hlimit : NoWrap limit) (pieces : List Bytes)
    {r : HttpRequest} (hrun : (pieces.forM HttpRequest.parse).run (.fresh limit) = .ok () r)
    (hstate : r.state = .kBody) (hlength : r.contentLength = -1) :
    ChunksRead r ∧ ∀ p e t, r.buffer.length + p.length ≤ stringMaxSize →
      (HttpRequest.parse p).run r = .error e t →
        e = .responseStatus .kBadRequest ∨ e = .responseStatus .kPayloadTooLarge := by
  have hread : Reading limit r := by
    refine (Reading.forM_parse hlimit pieces (.inr (.fresh hlimit)) hrun).resolve_left fun hdone => ?_
    cases hstate.symm.trans hdone
  refine ⟨hread.chunks hstate hlength, fun p e t hfits hparse => ?_⟩
  have hr := hread.receive hlimit hfits
  obtain ⟨o, ho, hresult⟩ := parse_implements r p hread.toRequestSound hr.toRequestSound
  have hbody : InChunkedBody (r.receive p) :=
    .of_length hstate (by
      show ¬ r.contentLength ≥ 0
      rw [hlength]
      decide)
  rw [hparse] at hresult
  rcases o with s | s | ⟨e', s⟩
  · cases hresult
  · cases hresult
  · cases hresult
    exact hbody.failed ho

/-- A chunk, the size line of the next one, and half of its data. -/
theorem parse_chunksRead_half :
    ∃ r, ([bytes "POST / HTTP/1.1\r\nHost: a\r\nTransfer-Encoding: chunked\r\n\r\n3\r\nab",
        bytes "c\r\n4\r\nde"].forM HttpRequest.parse).run (.fresh kMaxPayloadSize) = .ok () r ∧
      r.body = bytes "abc" ∧ r.nextChunkSize = 4 ∧ ChunksRead r := by
  have hrun : (([bytes "POST / HTTP/1.1\r\nHost: a\r\nTransfer-Encoding: chunked\r\n\r\n3\r\nab",
      bytes "c\r\n4\r\nde"].forM HttpRequest.parse).run
        (.fresh kMaxPayloadSize)).Returned fun r => r.body = bytes "abc" ∧ r.nextChunkSize = 4 ∧
          r.state = .kBody ∧ r.contentLength = -1 := by decide +kernel
  obtain ⟨u, r, hrun, hbody, hnext, hstate, hlength⟩ := hrun
  exact ⟨r, hrun, hbody, hnext, (parse_chunksRead (by unfold NoWrap; decide) _ hrun hstate hlength).1⟩

end Webserv
