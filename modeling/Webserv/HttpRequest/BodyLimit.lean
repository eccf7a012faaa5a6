/-
Webserv/HttpRequest/BodyLimit.lean

The body limit under the two framings.

One request is written down twice: with a `Content-Length`, and as a chunked body.
Everything else is the same, and acceptable.  A chunked body is measured against
the configured limit only; a `Content-Length` is measured against
`kMaxPayloadSize` first, and refused as malformed above it.
-/
import Webserv.HttpRequest.ChunkedFormat
import Webserv.HttpRequest.Validation
import Webserv.HttpRequest.Segmentation

namespace Webserv

open Incremental

/-! ### Heads without a framing field -/

/-- A request line and header fields that are acceptable once a framing field is
put between `before` and `after`. -/
structure OpenHead where
  requestLine : RequestLine
  before : List HeaderField
  after : List HeaderField
  distinct : DistinctNames (before ++ after)
  unframed : ∀ f ∈ before ++ after, toLowerAscii f.name ≠ bytes "content-length" ∧
    toLowerAscii f.name ≠ bytes "transfer-encoding"
  host : ∃ v, fieldValue (before ++ after) (bytes "host") = some v ∧ ValidHost v
  connection : ∀ v, fieldValue (before ++ after) (bytes "connection") = some v →
    v = bytes "close" ∨ v = bytes "keep-alive"

/-- `h` with the framing field `f`. -/
def OpenHead.frame (h : OpenHead) (f : HeaderField) : RequestHead :=
  ⟨h.requestLine, h.before ++ f :: h.after⟩

/-- `Content-Length: n`. -/
def contentLengthField (n : Nat) : HeaderField where
  name := bytes "Content-Length"
  value := natToString n
  name_char := by decide +kernel
  value_char c hc := by
    obtain ⟨hlo, hhi⟩ := isDigit_iff.mp (isDigit_natToString hc)
    exact isValidHeaderChar_iff.mpr ⟨by omega, by omega⟩

/-- `Transfer-Encoding: chunked`. -/
def chunkedField : HeaderField where
  name := bytes "Transfer-Encoding"
  value := bytes "chunked"
  name_char := by decide +kernel
  value_char := by decide +kernel

/-- The header section fits with either framing of a body of `n` bytes. -/
def OpenHead.Short (h : OpenHead) (n : Nat) : Prop :=
  ∀ f ∈ [contentLengthField n, chunkedField],
    (encodeFields (h.frame f).fields).length + 2 ≤ kMaxHeaderSize

/-- The request with a `Content-Length`. -/
def OpenHead.withContentLength (h : OpenHead) (b : Bytes) : Bytes :=
  (h.frame (contentLengthField b.length)).encode ++ b

/-- The request with a chunked body. -/
def OpenHead.withChunks (h : OpenHead) (c : ChunkedBody) : Bytes :=
  (h.frame chunkedField).encode ++ c.encode

/-! ### The head of the two requests -/

theorem OpenHead.lookup (h : OpenHead) {f : HeaderField}
    (hdistinct : DistinctNames (h.frame f).fields) (key : Bytes) (r : HttpRequest)
    (hr : r.headers = ∅) :
    (r.afterLines (h.frame f)).headers[key]? = fieldValue (h.before ++ f :: h.after) key := by
  show (storeFields r.headers (h.frame f).fields)[key]? = _
  rw [storeFields_getElem? hdistinct, hr]
  simp [OpenHead.frame]

theorem OpenHead.frame_distinct (h : OpenHead) {f : HeaderField}
    (hf : ∀ g ∈ h.before ++ h.after, toLowerAscii g.name ≠ toLowerAscii f.name) :
    DistinctNames (h.frame f).fields := by
  have hperm : (h.before ++ f :: h.after).Perm (f :: (h.before ++ h.after)) :=
    List.perm_middle
  unfold DistinctNames
  rw [show (h.frame f).fields = h.before ++ f :: h.after from rfl,
    (hperm.map _).nodup_iff, List.map_cons, List.nodup_cons]
  refine ⟨fun hmem => ?_, h.distinct⟩
  obtain ⟨g, hg, heq⟩ := List.mem_map.mp hmem
  exact hf g hg heq

/-- The head of a framed request: everything but the framing is accepted. -/
theorem OpenHead.headerStep (h : OpenHead) {f : HeaderField} {limit : Nat} (t : Bytes)
    (hf : ∀ g ∈ h.before ++ h.after, toLowerAscii g.name ≠ toLowerAscii f.name)
    (hhost : toLowerAscii f.name ≠ bytes "host")
    (hshort : (encodeFields (h.frame f).fields).length + 2 ≤ kMaxHeaderSize) :
    ∃ s : HttpRequest,
      (∀ key, s.headers[key]? = fieldValue (h.before ++ f :: h.after) key) ∧
      s.progress = ((HttpRequest.fresh limit).receive ((h.frame f).encode ++ t)).progress ∧
      Webserv.headerStep ((HttpRequest.fresh limit).receive ((h.frame f).encode ++ t)) =
        match (validateBodyHeaders >>= fun _ => parseConnectionDirective).run s with
        | .ok _ s => .next { s with buffer := s.buffer.drop (h.frame f).encode.length, state := .kBody }
        | .error e s => .fail e.rethrowAsStatus s := by
  have hdistinct := h.frame_distinct hf
  obtain ⟨v, hv, hvalid⟩ := h.host
  obtain ⟨r, hr⟩ : ∃ r, r = (HttpRequest.fresh limit).receive ((h.frame f).encode ++ t) := ⟨_, rfl⟩
  have hlookup := fun key => h.lookup hdistinct key r (by rw [hr]; rfl)
  obtain ⟨name, port, hrun⟩ := validateHeaders_run (r := r.afterLines (h.frame f)) hshort
    (v := v) (by rw [hlookup, fieldValue_insert hhost, hv]) hvalid
  refine ⟨{ r.afterLines (h.frame f) with hostName := name, hostPort := port }, hlookup,
    by rw [← hr]; rfl, ?_⟩
  have hhead := consumeRequestHead_encode (h.frame f) t (r := r) (by omega) hdistinct (by rw [hr]; rfl)
  have hbuffer : r.buffer = (h.frame f).encode ++ t := by rw [hr]; rfl
  rw [← hr, Webserv.headerStep, hbuffer, findEndOfHeader_encode, hhead, hrun]
  generalize (validateBodyHeaders >>= fun _ => parseConnectionDirective).run _ = result
  rcases result with ⟨u, s⟩ | ⟨e, s⟩ <;> rfl

/-! ### The two requests -/

/-- Parsing ends in `kDone` with the body `b`. -/
def Completes (limit : Nat) (s b : Bytes) : Prop :=
  ∃ t, (HttpRequest.parse s).run (.fresh limit) = .ok () t ∧ t.state = .kDone ∧ t.body = b

/-- Parsing fails with the status. -/
def FailsWith (limit : Nat) (s : Bytes) (status : Status) : Prop :=
  ((HttpRequest.parse s).run (.fresh limit)).toExcept = .error (.responseStatus status)

theorem fits_of_limit {limit : Nat} {s : Bytes} (hlen : s.length ≤ stringMaxSize)
    (hlimit : limit ≤ 100000000) : s.length + limit + 2 < sizeMod := by
  unfold stringMaxSize at hlen
  unfold sizeMod
  omega

/-- A request is parsed by running the moves from its head on. -/
theorem parse_of_runs {limit : Nat} {s : Bytes} (hlen : s.length ≤ stringMaxSize)
    (hlimit : s.length + limit + 2 < sizeMod) {o : Outcome HttpRequest Exception}
    (h : Runs requestConsumer ((HttpRequest.fresh limit).receive s) o) :
    (HttpRequest.parse s).run (.fresh limit) = o.result :=
  parse_implements.run_eq (fresh_sound (s := []) (Nat.zero_le _) (by
    simp only [List.length_nil]; omega)) (fresh_sound hlen hlimit) h

theorem lower_contentLength (n : Nat) :
    toLowerAscii (contentLengthField n).name = bytes "content-length" := by
  show toLowerAscii (bytes "Content-Length") = bytes "content-length"
  decide +kernel

theorem lower_chunked : toLowerAscii chunkedField.name = bytes "transfer-encoding" := by
  decide +kernel

theorem OpenHead.connection_ok (h : OpenHead) {f : HeaderField} {s : HttpRequest}
    (hlookup : ∀ key, s.headers[key]? = fieldValue (h.before ++ f :: h.after) key)
    (hf : toLowerAscii f.name ≠ bytes "connection") (n : Int) :
    ∃ keep, parseConnectionDirective.run { s with contentLength := n } =
      .ok () { s with contentLength := n, keepAlive := keep } := by
  refine parseConnectionDirective_ok (r := { s with contentLength := n }) fun v hv => ?_
  rw [show ({ s with contentLength := n } : HttpRequest).headers = s.headers from rfl, hlookup,
    fieldValue_insert hf] at hv
  exact h.connection v hv

theorem withContentLength_headerStep (h : OpenHead) {limit : Nat} (b : Bytes)
    (hshort : h.Short b.length) (hb : b.length ≤ stringMaxSize) :
    if b.length > kMaxPayloadSize then
      ∃ s, headerStep ((HttpRequest.fresh limit).receive (h.withContentLength b)) =
        .fail (.responseStatus .kBadRequest) s
    else if b.length > limit then
      ∃ s, headerStep ((HttpRequest.fresh limit).receive (h.withContentLength b)) =
        .fail (.responseStatus .kPayloadTooLarge) s
    else
      ∃ s, headerStep ((HttpRequest.fresh limit).receive (h.withContentLength b)) = .next s ∧
        s.state = .kBody ∧ s.buffer = b ∧ s.contentLength = b.length ∧
        s.maxBodySizeLimit = limit := by
  have hlower := lower_contentLength b.length
  obtain ⟨s, hlookup, hprogress, hstep⟩ := @OpenHead.headerStep h (contentLengthField b.length)
    limit b (fun g hg => by rw [hlower]; exact (h.unframed g hg).1)
    (by rw [hlower]; decide +kernel) (hshort _ (by simp))
  simp only [HttpRequest.progress, Prod.mk.injEq] at hprogress
  obtain ⟨hbuffer, -, -, -, -, hlimit⟩ := hprogress
  have hlimit : s.maxBodySizeLimit = limit := hlimit
  have hcl : s.headers[bytes "content-length"]? = some (natToString b.length) := by
    rw [hlookup]
    exact fieldValue_self hlower fun g hg => (h.unframed g (List.mem_append_left _ hg)).1
  have hte : s.headers[bytes "transfer-encoding"]? = none := by
    rw [hlookup, fieldValue_insert (by rw [hlower]; decide +kernel)]
    exact fieldValue_eq_none fun g hg => (h.unframed g hg).2
  have hbody := validateBodyHeaders_contentLength hb hcl hte
  rw [OpenHead.withContentLength, hstep, EStateM.run_bind, hbody]
  -- the fixed maximum is compared first, and gives 400 where the limit gives 413
  by_cases hbig : b.length > kMaxPayloadSize
  · rw [if_pos hbig, if_pos hbig]
    exact ⟨_, rfl⟩
  · rw [if_neg hbig, if_neg hbig]
    by_cases hover : b.length > limit
    · rw [if_pos (show b.length > s.maxBodySizeLimit by omega), if_pos hover]
      exact ⟨_, rfl⟩
    · obtain ⟨keep, hconn⟩ := h.connection_ok hlookup (by rw [hlower]; decide +kernel) b.length
      rw [if_neg (show ¬ b.length > s.maxBodySizeLimit by omega), if_neg hover]
      simp only [hconn]
      refine ⟨_, rfl, rfl, ?_, rfl, hlimit⟩
      show s.buffer.drop _ = b
      rw [hbuffer]
      exact List.drop_left

theorem withChunks_headerStep (h : OpenHead) {limit : Nat} (c : ChunkedBody)
    (hshort : h.Short c.data.length) :
    ∃ s, headerStep ((HttpRequest.fresh limit).receive (h.withChunks c)) = .next s ∧
      s.state = .kBody ∧ s.buffer = c.encode ∧ s.contentLength = -1 ∧ s.body = [] ∧
      s.bufferReadPos = 0 ∧ s.nextChunkSize = -1 ∧ s.maxBodySizeLimit = limit := by
  obtain ⟨s, hlookup, hprogress, hstep⟩ := @OpenHead.headerStep h chunkedField limit
    c.encode (fun g hg => by rw [lower_chunked]; exact (h.unframed g hg).2)
    (by rw [lower_chunked]; decide +kernel) (hshort _ (by simp))
  simp only [HttpRequest.progress, Prod.mk.injEq] at hprogress
  obtain ⟨hbuffer, hpos, -, hbody, hnext, hlimit⟩ := hprogress
  have hte : s.headers[bytes "transfer-encoding"]? = some (bytes "chunked") := by
    rw [hlookup]
    exact fieldValue_self lower_chunked fun g hg => (h.unframed g (List.mem_append_left _ hg)).2
  have hcl : s.headers[bytes "content-length"]? = none := by
    rw [hlookup, fieldValue_insert (by rw [lower_chunked]; decide +kernel)]
    exact fieldValue_eq_none fun g hg => (h.unframed g hg).1
  obtain ⟨keep, hconn⟩ := h.connection_ok hlookup (by rw [lower_chunked]; decide +kernel) (-1)
  rw [OpenHead.withChunks, hstep, EStateM.run_bind, validateBodyHeaders_chunked hcl hte]
  simp only [hconn]
  refine ⟨_, rfl, rfl, ?_, rfl, hbody, hpos, hnext, hlimit⟩
  show s.buffer.drop _ = c.encode
  rw [hbuffer]
  exact List.drop_left

theorem step_fresh {limit : Nat} (s : Bytes) :
    ((HttpRequest.fresh limit).receive s).step =
      headerStep ((HttpRequest.fresh limit).receive s) := rfl

theorem failsWith_of_headerStep {limit : Nat} {s : Bytes} {status : Status}
    (hlen : s.length ≤ stringMaxSize) (hlimit : limit ≤ 100000000)
    (h : ∃ t, headerStep ((HttpRequest.fresh limit).receive s) = .fail (.responseStatus status) t) :
    FailsWith limit s status := by
  obtain ⟨t, ht⟩ := h
  rw [FailsWith, parse_of_runs hlen (fits_of_limit hlen hlimit) (.fail ((step_fresh s).trans ht))]
  rfl

/-- With a `Content-Length`, `kMaxPayloadSize` is checked before the limit. -/
theorem withContentLength_parse (h : OpenHead) {limit : Nat} {b : Bytes} (hb : b ≠ [])
    (hshort : h.Short b.length) (hlen : (h.withContentLength b).length ≤ stringMaxSize)
    (hlimit : limit ≤ 100000000) :
    if b.length > kMaxPayloadSize then FailsWith limit (h.withContentLength b) .kBadRequest
    else if b.length > limit then FailsWith limit (h.withContentLength b) .kPayloadTooLarge
    else Completes limit (h.withContentLength b) b := by
  have hblen : b.length ≤ stringMaxSize := by
    rw [OpenHead.withContentLength, List.length_append] at hlen
    omega
  have hhead := @withContentLength_headerStep h limit b hshort hblen
  by_cases hbig : b.length > kMaxPayloadSize
  · rw [if_pos hbig] at hhead ⊢
    exact failsWith_of_headerStep hlen hlimit hhead
  · rw [if_neg hbig] at hhead ⊢
    by_cases hover : b.length > limit
    · rw [if_pos hover] at hhead ⊢
      exact failsWith_of_headerStep hlen hlimit hhead
    · rw [if_neg hover] at hhead ⊢
      obtain ⟨s, hstep, hstate, hbuffer, hlength, hmax⟩ := hhead
      have hpos := List.length_pos_iff.mpr hb
      have hsize : toSize s.contentLength = b.length := by
        rw [hlength, toSize_natCast (by unfold stringMaxSize at hblen; unfold sizeMod; omega)]
      have hdone : s.step = .done { s with body := b, buffer := [], state := .kDone } := by
        have hbody : ¬ s.NoBody := fun hno => by
          have := hno.1
          omega
        rw [HttpRequest.step, hstate]
        simp only [if_neg hbody, if_pos (show s.contentLength ≥ 0 by omega), contentLengthStep,
          hsize]
        rw [if_neg (by omega), if_neg (by omega), if_neg (by rw [hbuffer]; omega), hbuffer,
          List.take_length, List.drop_length]
      refine ⟨{ s with body := b, buffer := [], state := .kDone }, ?_, rfl, rfl⟩
      exact parse_of_runs hlen (fits_of_limit hlen hlimit)
        (.next ((step_fresh _).trans hstep) (.done hdone))

/-- A chunked body is checked against the limit only. -/
theorem withChunks_parse (h : OpenHead) {limit : Nat} {c : ChunkedBody}
    (hshort : h.Short c.data.length) (hlen : (h.withChunks c).length ≤ stringMaxSize)
    (hlimit : (h.withChunks c).length + limit + 2 < sizeMod) :
    if c.data.length > limit then FailsWith limit (h.withChunks c) .kPayloadTooLarge
    else Completes limit (h.withChunks c) c.data := by
  obtain ⟨s, hstep, hstate, hbuffer, hlength, hbody, hpos, hnext, hmax⟩ :=
    @withChunks_headerStep h limit c hshort
  have hsound := (fresh_sound hlen hlimit).headerStep rfl hstep
  have hunread : s.unread = c.encode := by
    rw [HttpRequest.unread, hbuffer, hpos]
    rfl
  have hframed : ∀ {o}, Runs chunkConsumer s o → Runs requestConsumer s o := fun ho =>
    chunk_runs_request ho hstate (fun hno => by have := hno.1; omega) (by omega)
  have hempty : s.body.length = 0 := by rw [hbody]; rfl
  by_cases hover : c.data.length > limit
  · rw [if_pos hover]
    obtain ⟨t, ht⟩ := encode_fails c hsound.toChunkSound hnext hunread (by omega) (by omega)
    rw [FailsWith, parse_of_runs hlen hlimit
      (.next ((step_fresh _).trans hstep) (hframed ht))]
    rfl
  · rw [if_neg hover]
    have hruns := encode_runs c hsound.toChunkSound hnext hunread (by omega)
    refine ⟨_, parse_of_runs hlen hlimit
      (.next ((step_fresh _).trans hstep) (hframed hruns)), rfl, ?_⟩
    show s.body ++ c.data = c.data
    rw [hbody, List.nil_append]

/-! ### The two framings -/

/-- Both requests are complete with the body `b` if it is within the limit, and
both are refused with `kPayloadTooLarge` if it is not. -/
def TreatedAlike (limit : Nat) (cl chunked b : Bytes) : Prop :=
  (b.length ≤ limit → Completes limit cl b ∧ Completes limit chunked b) ∧
    (b.length > limit → FailsWith limit cl .kPayloadTooLarge ∧
      FailsWith limit chunked .kPayloadTooLarge)

theorem FailsWith.unique {limit : Nat} {s : Bytes} {a b : Status} (ha : FailsWith limit s a)
    (hb : FailsWith limit s b) : a = b := by
  have heq := ha.symm.trans hb
  cases heq
  rfl

theorem FailsWith.not_completes {limit : Nat} {s b : Bytes} {status : Status}
    (h : FailsWith limit s status) : ¬ Completes limit s b := by
  rintro ⟨t, ht, -⟩
  rw [FailsWith, ht] at h
  cases h

/-- **The framings enforce one limit exactly up to `kMaxPayloadSize`.** -/
theorem framings_alike_iff (h : OpenHead) (limit : Nat) (hlimit : limit ≤ 100000000)
    (c : ChunkedBody) (hbody : c.data ≠ []) (hshort : h.Short c.data.length)
    (hcl : (h.withContentLength c.data).length ≤ stringMaxSize)
    (hte : (h.withChunks c).length ≤ stringMaxSize) :
    TreatedAlike limit (h.withContentLength c.data) (h.withChunks c) c.data ↔
      c.data.length ≤ kMaxPayloadSize := by
  have hlength := withContentLength_parse h hbody hshort hcl hlimit
  have hchunks := withChunks_parse h hshort hte (fits_of_limit hte hlimit)
  constructor
  · intro halike
    by_contra hbig
    rw [if_pos (by omega)] at hlength
    rcases Nat.lt_or_ge limit c.data.length with hover | hfit
    · exact nomatch hlength.unique (halike.2 hover).1
    · exact hlength.not_completes (halike.1 hfit).1
  · intro hsmall
    rw [if_neg (by omega)] at hlength
    constructor
    · intro hfit
      rw [if_neg (by omega)] at hlength hchunks
      exact ⟨hlength, hchunks⟩
    · intro hover
      rw [if_pos hover] at hlength hchunks
      exact ⟨hlength, hchunks⟩

/-! ### Uploads to the root -/

/-- `POST / HTTP/1.1`, with a `Host` field. -/
def uploadHead : OpenHead where
  requestLine :=
    { method := .kPost, path := bytes "/", query := none, version := bytes "HTTP/1.1",
      method_known := by decide, path_absolute := by decide, path_char := by decide +kernel,
      query_char := by simp, version_known := .inl rfl, target_length := by decide +kernel }
  before := [⟨bytes "Host", bytes "a", by decide +kernel, by decide +kernel⟩]
  after := []
  distinct := by unfold DistinctNames; decide +kernel
  unframed := by decide +kernel
  host := ⟨bytes "a", by decide +kernel, by decide +kernel, by decide +kernel⟩
  connection v hv := absurd hv (by
    rw [show fieldValue _ _ = none by decide +kernel]
    simp)

theorem zero_ne_nil : bytes "0" ≠ [] := by decide

theorem eq_zero_of_mem_zero : ∀ c ∈ bytes "0", c = 48 := by decide +kernel

/-- A body in one chunk. -/
def oneChunk (digits data : Bytes) (hdigits : digits ≠ []) (hhex : ∀ c ∈ digits, isHexDigit c)
    (hdata : 1 ≤ data.length) (hval : hexVal digits = data.length) : ChunkedBody where
  chunks := [⟨digits, data, hdigits, hhex, hdata, hval⟩]
  zeros := bytes "0"
  zeros_ne_nil := zero_ne_nil
  eq_zero_of_mem := eq_zero_of_mem_zero

@[simp] theorem oneChunk_data {digits data : Bytes} {hdigits : digits ≠ []}
    {hhex : ∀ c ∈ digits, isHexDigit c} {hdata : 1 ≤ data.length}
    {hval : hexVal digits = data.length} :
    (oneChunk digits data hdigits hhex hdata hval).data = data := by
  simp [oneChunk, ChunkedBody.data]

theorem oneChunk_encode_length {digits data : Bytes} {hdigits : digits ≠ []}
    {hhex : ∀ c ∈ digits, isHexDigit c} {hdata : 1 ≤ data.length}
    {hval : hexVal digits = data.length} :
    (oneChunk digits data hdigits hhex hdata hval).encode.length =
      digits.length + data.length + 9 := by
  have hzero : (bytes "0").length = 1 := rfl
  simp only [oneChunk, ChunkedBody.encode, Chunk.encode, List.map_cons, List.map_nil,
    List.flatten_cons, List.flatten_nil, List.length_append, List.length_cons, List.length_nil,
    hzero]
  omega

/-- Three bytes under a limit of two: both framings are refused. -/
theorem framings_alike_iff_three :
    TreatedAlike 2 (uploadHead.withContentLength (bytes "abc"))
      (uploadHead.withChunks
        (oneChunk (bytes "3") (bytes "abc") (by decide) (by decide +kernel) (by decide) rfl))
      (bytes "abc") :=
  (framings_alike_iff uploadHead 2 (by decide)
    (oneChunk (bytes "3") (bytes "abc") (by decide) (by decide +kernel) (by decide) rfl)
    (by decide) (by unfold OpenHead.Short; decide +kernel) (by decide +kernel)
    (by decide +kernel)).mpr (by decide)

/-- One byte more than `kMaxPayloadSize`, under a limit that allows it. -/
theorem framings_alike_fails :
    ¬ ∀ (h : OpenHead) (limit : Nat) (c : ChunkedBody), limit ≤ 100000000 → c.data ≠ [] →
      h.Short c.data.length → (h.withContentLength c.data).length ≤ stringMaxSize →
      (h.withChunks c).length ≤ stringMaxSize →
      TreatedAlike limit (h.withContentLength c.data) (h.withChunks c) c.data := by
  intro halike
  obtain ⟨c, hdata, hencode⟩ : ∃ c : ChunkedBody, c.data.length = 1048577 ∧
      c.encode.length = 1048592 := by
    have hlength : (List.replicate 1048577 (0 : Byte)).length = 1048577 := List.length_replicate
    refine ⟨oneChunk (bytes "100001") (List.replicate 1048577 0) (by decide) (by decide +kernel)
      (by omega) (by rw [hlength]; decide +kernel), ?_, ?_⟩
    · rw [oneChunk_data, hlength]
    · rw [oneChunk_encode_length, hlength]
      rfl
  have hne : c.data ≠ [] := fun hnil => by simp [hnil] at hdata
  have hshort : uploadHead.Short c.data.length := by
    rw [hdata]
    unfold OpenHead.Short
    decide +kernel
  have hcl : (uploadHead.withContentLength c.data).length ≤ stringMaxSize := by
    rw [OpenHead.withContentLength, List.length_append, hdata]
    decide +kernel
  have hte : (uploadHead.withChunks c).length ≤ stringMaxSize := by
    rw [OpenHead.withChunks, List.length_append, hencode]
    decide +kernel
  have hparse := @withContentLength_parse uploadHead 2000000 _ hne hshort hcl (by decide)
  rw [if_pos (by rw [hdata]; decide +kernel)] at hparse
  exact hparse.not_completes
    ((halike uploadHead 2000000 c (by decide) hne hshort hcl hte).1 (by rw [hdata]; decide +kernel)).1

end Webserv
