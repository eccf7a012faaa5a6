/-
Webserv/HttpRequest/Format.lean

The language of the request parser.

A message is a valid head that fits, and a body framed as the head says.  However its text
comes in, the parser takes it and ends with the members that the message gives; and it ends
behind nothing else.  Behind a body that is not chunked it leaves the rest of the last piece.
-/
import Webserv.HttpRequest.ChunkedFormat
import Webserv.HttpRequest.RoundTrip
import Webserv.HttpRequest.Trailing

namespace Webserv

open Incremental

/-! ### The members that a head gives -/

/-- `keep_alive_`, from the version and the value of `Connection`; `none` if it is refused. -/
def connectionOf (version : Bytes) : Option Bytes → Option Bool
  | none => some (version == bytes "HTTP/1.1")
  | some v =>
      if v = bytes "close" then some false
      else if v = bytes "keep-alive" then some true
      else none

theorem connectionOf_isSome {version : Bytes} {connection : Option Bytes} :
    (connectionOf version connection).isSome = true ↔
      ∀ v, connection = some v → v = bytes "close" ∨ v = bytes "keep-alive" := by
  rcases connection with - | v
  · exact iff_of_true rfl fun v hv => by cases hv
  · rw [connectionOf]
    split_ifs with hclose hkeep
    · exact iff_of_true rfl fun v' hv => by
        cases hv
        exact .inl hclose
    · exact iff_of_true rfl fun v' hv => by
        cases hv
        exact .inr hkeep
    · refine iff_of_false (by simp) fun h => ?_
      exact (h v rfl).elim hclose hkeep

/-- The value of `Host`. -/
def RequestHead.host (h : RequestHead) : Bytes := (fieldValue h.fields (bytes "host")).getD []

/-- The value of `Connection`. -/
def RequestHead.keepAlive (h : RequestHead) : Option Bool :=
  connectionOf h.requestLine.version (fieldValue h.fields (bytes "connection"))

/-- `content_length_`, from the values of the framing fields. -/
def framedLength : Option Bytes → Option Bytes → Int
  | some v, none => (strToLong v).getD 0
  | _, some _ => -1
  | none, none => 0

/-- The length that the framing fields give. -/
def RequestHead.length (h : RequestHead) : Int :=
  framedLength (fieldValue h.fields (bytes "content-length"))
    (fieldValue h.fields (bytes "transfer-encoding"))

theorem Framed.eq_framedLength {cl te : Option Bytes} {limit : Nat} {length : Int}
    (h : Framed cl te limit length) : length = framedLength cl te := by
  unfold Framed at h
  rcases cl with - | v <;> rcases te with - | v'
  · exact h
  · exact h.2
  · rw [framedLength, h.1]
    rfl
  · exact h.elim

/-- The request after the validation of an accepted head. -/
def HttpRequest.afterValidation (r : HttpRequest) (h : RequestHead) : HttpRequest :=
  { r.afterLines h with
    hostName := h.host.takeWhile (· ≠ COLON)
    hostPort := (hostPortOf h.host).getD kDefaultPort
    contentLength := h.length
    keepAlive := h.keepAlive.getD false }

/-- The request behind a head, with this text in its buffer. -/
def HttpRequest.afterHead (r : HttpRequest) (h : RequestHead) (t : Bytes) : HttpRequest :=
  { r.afterValidation h with buffer := t, state := .kBody }

/-! ### The validation -/

theorem validateAndExtractHost_eq {r : HttpRequest} {v : Bytes} {port : Nat}
    (hv : r.headers[bytes "host"]? = some v) (hvalid : ValidHost v)
    (hport : hostPortOf v = some port) :
    validateAndExtractHost.run r =
      .ok () { r with hostName := v.takeWhile (· ≠ COLON), hostPort := port } := by
  have hne : v ≠ [] := by
    rintro rfl
    exact hvalid.1 rfl
  simp only [validateAndExtractHost, EStateM.run_bind, EStateM.run_get, hv, EStateM.run_ite,
    if_neg hne, if_neg hvalid.1, EStateM.run_modify]
  unfold hostPortOf at hport
  by_cases hlen : (v.takeWhile (· ≠ COLON)).length = v.length
  · rw [if_pos hlen] at hport ⊢
    cases hport
    rfl
  · rw [if_neg hlen] at hport ⊢
    rw [hport]
    rfl

theorem parseConnectionDirective_eq (r : HttpRequest) :
    parseConnectionDirective.run r =
      match connectionOf r.version r.headers[bytes "connection"]? with
      | some keep => .ok () { r with keepAlive := keep }
      | none => .error (.responseStatus .kBadRequest) r := by
  simp only [parseConnectionDirective, EStateM.run_bind, EStateM.run_get]
  rcases r.headers[bytes "connection"]? with - | v
  · rfl
  · simp only [connectionOf, EStateM.run_ite]
    split_ifs
    · rfl
    · rfl
    · rfl

/-- **The validation**, of headers with a host and a framing. -/
theorem validateHeaders_eq {r : HttpRequest} {n : Nat} (hn : n + 2 ≤ kMaxHeaderSize) {v : Bytes}
    {port : Nat} {length : Int} (hv : r.headers[bytes "host"]? = some v) (hvalid : ValidHost v)
    (hport : hostPortOf v = some port) (hframed : r.FramedBy length) :
    (validateHeaders n).run r =
      match connectionOf r.version r.headers[bytes "connection"]? with
      | some keep => .ok () { r with
          hostName := v.takeWhile (· ≠ COLON), hostPort := port, contentLength := length,
          keepAlive := keep }
      | none => .error (.responseStatus .kBadRequest) { r with
          hostName := v.takeWhile (· ≠ COLON), hostPort := port, contentLength := length } := by
  have hbody : validateBodyHeaders.run
      { r with hostName := v.takeWhile (· ≠ COLON), hostPort := port } =
        .ok () { r with
          hostName := v.takeWhile (· ≠ COLON), hostPort := port, contentLength := length } :=
    validateBodyHeaders_framed hframed
  rw [validateHeaders, bumpLenOrThrow_ok hn kMaxHeaderSize_lt]
  simp only [EStateM.run_bind, run_call_ok, validateAndExtractHost_eq hv hvalid hport, hbody,
    parseConnectionDirective_eq]

/-! ### The header phase -/

/-- The head of a message: it is valid under the limit, and fits. -/
structure RequestHead.Accepted (h : RequestHead) (limit : Nat) : Prop extends h.Valid limit where
  short : (encodeFields h.fields).length + 2 ≤ kMaxHeaderSize

theorem RequestHead.Valid.framed {h : RequestHead} {limit : Nat} (hvalid : h.Valid limit) :
    Framed (fieldValue h.fields (bytes "content-length"))
      (fieldValue h.fields (bytes "transfer-encoding")) limit h.length := by
  obtain ⟨length, hframed⟩ := hvalid.framing
  have hlength : length = h.length := hframed.eq_framedLength
  rwa [hlength] at hframed

theorem hostPortOf_valid {v : Bytes} (h : ValidHost v) : ∃ port, hostPortOf v = some port := by
  unfold hostPortOf
  split_ifs with hlen
  · exact ⟨_, rfl⟩
  · exact Option.isSome_iff_exists.mp (h.2 hlen)

/-- What the validation makes of the headers of an accepted head. -/
theorem validateHeaders_accepted {h : RequestHead} {r : HttpRequest}
    (haccepted : h.Accepted r.maxBodySizeLimit) (hnew : r.headers = ∅) :
    (validateHeaders (encodeFields h.fields).length).run (r.afterLines h) =
      .ok () (r.afterValidation h) := by
  have hlookup := afterLines_getElem? haccepted.distinct hnew
  obtain ⟨v, hv, hvalid⟩ := haccepted.host
  obtain ⟨port, hport⟩ := hostPortOf_valid hvalid
  have hhost : h.host = v := by
    rw [RequestHead.host, hv]
    rfl
  have hframed : (r.afterLines h).FramedBy h.length := by
    unfold HttpRequest.FramedBy
    rw [hlookup, hlookup]
    exact haccepted.framed
  obtain ⟨keep, hkeep⟩ : ∃ keep, h.keepAlive = some keep :=
    Option.isSome_iff_exists.mp (connectionOf_isSome.mpr haccepted.connection)
  have hconnection : connectionOf (r.afterLines h).version
      (r.afterLines h).headers[bytes "connection"]? = some keep := by
    rw [hlookup]
    exact hkeep
  rw [validateHeaders_eq haccepted.short ((hlookup _).trans hv) hvalid hport hframed, hconnection,
    HttpRequest.afterValidation, hhost, hport, hkeep]
  rfl

/-- **The header phase**, on a request without headers: it goes on behind an accepted head. -/
theorem headerStep_eq_next_iff {r s : HttpRequest} (hnew : r.headers = ∅) :
    headerStep r = .next s ↔ ∃ (h : RequestHead) (t : Bytes),
      h.Accepted r.maxBodySizeLimit ∧ r.buffer = h.encode ++ t ∧ s = r.afterHead h t := by
  constructor
  · intro hstep
    obtain ⟨i, q, s', hi, hrun, rfl⟩ := headerStep_next hstep
    -- the lines are those of a head, or one of them is refused
    obtain ⟨e, s, herror, -⟩ | ⟨h, t, hreadable, htext, hvalidate⟩ :=
      consumeRequestHead_cases r.buffer hnew
    · rw [hrun] at herror
      cases herror
    · have hlookup := afterLines_getElem? hreadable.distinct hnew
      have hread := validateHeaders_read hreadable.short (r.afterLines h) _ rfl
      rw [hrun] at hvalidate
      rcases hres : (validateHeaders (encodeFields h.fields).length).run (r.afterLines h)
        with ⟨u, s⟩ | ⟨e, s⟩
      · rw [hres] at hvalidate hread
        cases hvalidate
        obtain ⟨v, -, port, length, -, hhost, hvalid, hport, hframed, -⟩ := hread
        have hconnection : ∃ keep, connectionOf (r.afterLines h).version
            (r.afterLines h).headers[bytes "connection"]? = some keep := by
          rcases hc : connectionOf (r.afterLines h).version
              (r.afterLines h).headers[bytes "connection"]? with - | keep
          · rw [validateHeaders_eq hreadable.short hhost hvalid hport hframed, hc] at hres
            cases hres
          · exact ⟨keep, rfl⟩
        have haccepted : h.Accepted r.maxBodySizeLimit := by
          refine ⟨⟨hreadable.distinct, ⟨v, (hlookup _).symm.trans hhost, hvalid⟩, ?_, ⟨length, ?_⟩⟩,
            hreadable.short⟩
          · rw [hlookup] at hconnection
            exact connectionOf_isSome.mp (Option.isSome_iff_exists.mpr hconnection)
          · unfold HttpRequest.FramedBy at hframed
            rwa [hlookup, hlookup] at hframed
        refine ⟨h, q, haccepted, htext, ?_⟩
        rw [validateHeaders_accepted haccepted hnew] at hres
        cases hres
        -- the end that was looked for first is the end of this head
        have hend : i = h.encode.length := by
          rw [htext, findEndOfHeader_encode] at hi
          exact (Option.some.inj hi).symm
        have hdrop : (r.afterValidation h).buffer.drop i = q := by
          show r.buffer.drop i = q
          rw [htext, hend, List.drop_left]
        rw [hdrop]
        rfl
      · rw [hres] at hvalidate
        cases hvalidate
  · rintro ⟨h, t, haccepted, htext, rfl⟩
    have hshort : (encodeFields h.fields).length ≤ kMaxHeaderSize :=
      Nat.le_of_add_right_le haccepted.short
    have hdrop : (r.afterValidation h).buffer.drop h.encode.length = t := by
      show r.buffer.drop h.encode.length = t
      rw [htext, List.drop_left]
    rw [headerStep, htext, findEndOfHeader_encode]
    dsimp only
    rw [consumeRequestHead_encode h t hshort haccepted.distinct hnew,
      validateHeaders_accepted haccepted hnew]
    dsimp only
    rw [hdrop]
    rfl

/-! ### Messages -/

/-- A body, as it is transmitted. -/
inductive MessageBody
  | plain (data : Bytes)
  | chunked (body : ChunkedBody)

/-- The text of a body. -/
def MessageBody.encode : MessageBody → Bytes
  | .plain data => data
  | .chunked body => body.encode

/-- What a body carries. -/
def MessageBody.data : MessageBody → Bytes
  | .plain data => data
  | .chunked body => body.data

/-- The head frames the body. -/
def RequestHead.Frames (h : RequestHead) (limit : Nat) : MessageBody → Prop
  | .plain data => h.length = data.length
  | .chunked body => h.length = -1 ∧ body.data.length ≤ limit

/-- **A message** under a limit. -/
structure RequestMessage (limit : Nat) where
  head : RequestHead
  body : MessageBody
  accepted : head.Accepted limit
  framed : head.Frames limit body

/-- The text of a message. -/
def RequestMessage.encode {limit : Nat} (m : RequestMessage limit) : Bytes := m.head.encode ++ m.body.encode

/-- The message can have this behind it in its last piece. -/
def RequestMessage.Leaves {limit : Nat} (m : RequestMessage limit) (rest : Bytes) : Prop :=
  match m.body with
  | .plain _ => True
  | .chunked _ => rest = []

/-- The request that a message gives, with the rest of the last piece. -/
def RequestMessage.request {limit : Nat} (m : RequestMessage limit) (rest : Bytes) : HttpRequest :=
  { (HttpRequest.fresh limit).afterHead m.head rest with body := m.body.data, state := .kDone }

/-! ### A run reads a message -/

/-- The first move on a fresh request. -/
theorem fresh_step_next_iff {limit : Nat} {b : Bytes} {s : HttpRequest} :
    ((HttpRequest.fresh limit).receive b).step = .next s ↔ ∃ (h : RequestHead) (t : Bytes),
      h.Accepted limit ∧ b = h.encode ++ t ∧ s = (HttpRequest.fresh limit).afterHead h t :=
  headerStep_eq_next_iff (r := (HttpRequest.fresh limit).receive b) rfl

/-- The length of an accepted head is that of a body within the limit. -/
theorem RequestHead.Accepted.length_cases {h : RequestHead} {limit : Nat} (hh : h.Accepted limit) :
    (h.length = -1 ∧ (fieldValue h.fields (bytes "transfer-encoding")).isSome = true) ∨
      (fieldValue h.fields (bytes "transfer-encoding")) = none ∧
        ∃ n : Nat, h.length = n ∧ n ≤ limit ∧ n ≤ kMaxPayloadSize := by
  have hframed := hh.framed
  unfold Framed at hframed
  rcases hcl : fieldValue h.fields (bytes "content-length") with - | v
    <;> rcases hte : fieldValue h.fields (bytes "transfer-encoding") with - | v'
    <;> simp only [hcl, hte] at hframed
  · exact .inr ⟨rfl, 0, hframed, Nat.zero_le _, Nat.zero_le _⟩
  · exact .inl ⟨hframed.2, rfl⟩
  · obtain ⟨-, hneg, hmax, hlimit⟩ := hframed
    obtain ⟨n, hn⟩ := Int.eq_ofNat_of_zero_le hneg
    refine .inr ⟨rfl, n, hn, ?_, ?_⟩
    · omega
    · omega

section Body

variable {limit : Nat} {h : RequestHead} {t : Bytes}

theorem afterHead_te (hh : h.Accepted limit) :
    ((HttpRequest.fresh limit).afterHead h t).headers.contains (bytes "transfer-encoding") =
      (fieldValue h.fields (bytes "transfer-encoding")).isSome := by
  rw [Std.ExtTreeMap.contains_eq_isSome_getElem?]
  exact congrArg Option.isSome (afterLines_getElem? hh.distinct rfl _)

/-- A plain body is read in one move, or waited for. -/
theorem afterHead_step_plain (hh : h.Accepted limit) {n : Nat} (hlength : h.length = n) :
    ((HttpRequest.fresh limit).afterHead h t).step =
      if t.length < n then .wait
      else .done { (HttpRequest.fresh limit).afterHead h (t.drop n) with
        body := t.take n, state := .kDone } := by
  obtain ⟨hneg, -⟩ | ⟨hte, m, hm, hlimit, hmax⟩ := hh.length_cases
  · rw [hlength] at hneg
    omega
  · have hnm : n = m := by
      rw [hlength] at hm
      exact_mod_cast hm
    subst hnm
    have hcontains := afterHead_te (t := t) hh
    rw [hte] at hcontains
    have hlen : ((HttpRequest.fresh limit).afterHead h t).contentLength = n := hlength
    rw [HttpRequest.step]
    show (if ((HttpRequest.fresh limit).afterHead h t).NoBody then _ else _) = _
    by_cases h0 : n = 0
    · have hnone : ((HttpRequest.fresh limit).afterHead h t).NoBody :=
        ⟨by rw [hlen, h0]; rfl, hcontains⟩
      rw [if_pos hnone, if_neg (by omega), h0]
      rfl
    · have hnone : ¬ ((HttpRequest.fresh limit).afterHead h t).NoBody := by
        rintro ⟨hzero, -⟩
        rw [hlen] at hzero
        exact h0 (by exact_mod_cast hzero)
      have hsize : toSize ((HttpRequest.fresh limit).afterHead h t).contentLength = n := by
        rw [hlen]
        refine toSize_natCast ?_
        unfold kMaxPayloadSize at hmax
        unfold sizeMod
        omega
      rw [if_neg hnone, if_pos (by rw [hlen]; omega), contentLengthStep, hsize]
      have hbuffer : ((HttpRequest.fresh limit).afterHead h t).buffer = t := rfl
      have hmaxBody : ((HttpRequest.fresh limit).afterHead h t).maxBodySizeLimit = limit := rfl
      rw [hbuffer, hmaxBody, if_neg (by omega), if_neg h0]
      rfl

/-- A chunked body is read by the chunk decoder. -/
theorem afterHead_chunked (hlength : h.length = -1) :
    InChunkedBody ((HttpRequest.fresh limit).afterHead h t) := by
  refine .of_length rfl ?_
  show ¬ h.length ≥ 0
  rw [hlength]
  decide

theorem receive_sound (hlimit : NoWrap limit) (hlen : t.length ≤ stringMaxSize) :
    RequestSound ((HttpRequest.fresh limit).receive t) :=
  fresh_sound hlen (hlimit.lt_sizeMod hlen)

theorem afterHead_sound (hlimit : NoWrap limit) (hh : h.Accepted limit)
    (hlen : (h.encode ++ t).length ≤ stringMaxSize) :
    RequestSound ((HttpRequest.fresh limit).afterHead h t) :=
  (receive_sound hlimit hlen).next (fresh_step_next_iff.mpr ⟨h, t, hh, rfl, rfl⟩)

/-- As long as the body is chunked, the parser is the chunk decoder. -/
theorem InChunkedBody.runs {r : HttpRequest} {o : Outcome HttpRequest Exception}
    (hbody : InChunkedBody r) : Runs chunkConsumer r o ↔ Runs requestConsumer r o :=
  ⟨fun h => chunk_runs_request h hbody.1 hbody.2.1 hbody.2.2,
    fun h => h.congr hbody (fun _ hs => (InChunkedBody.step hs).symm) fun _ _ hs => hs.next⟩

end Body

section Runs

variable {limit : Nat}

theorem RequestMessage.Leaves.of_prefix {m : RequestMessage limit} {rest rest' : Bytes} (h : m.Leaves rest)
    (hbegins : rest' <+: rest) : m.Leaves rest' := by
  unfold RequestMessage.Leaves at h ⊢
  rcases hbody : m.body with data | body
  · trivial
  · simp only [hbody] at h
    rw [h] at hbegins
    exact List.prefix_nil.mp hbegins

/-- **Behind its head, every message is read to its end.** -/
theorem RequestMessage.runs_body (hlimit : NoWrap limit) (m : RequestMessage limit) {rest : Bytes}
    (hrest : m.Leaves rest) (hlen : (m.encode ++ rest).length ≤ stringMaxSize) :
    Runs requestConsumer ((HttpRequest.fresh limit).afterHead m.head (m.body.encode ++ rest))
      (.finished (m.request rest)) := by
  obtain ⟨h, body, haccepted, hframed⟩ := m
  rcases body with data | c
  · have hstep := afterHead_step_plain (t := data ++ rest) haccepted hframed
    rw [if_neg (by rw [List.length_append]; omega), List.take_left, List.drop_left] at hstep
    exact .done hstep
  · obtain ⟨hlength, hfit⟩ := hframed
    have hrest : rest = [] := hrest
    subst hrest
    rw [List.append_nil] at hlen
    have hsound := afterHead_sound hlimit haccepted hlen
    show Runs requestConsumer ((HttpRequest.fresh limit).afterHead h (c.encode ++ [])) _
    rw [List.append_nil]
    exact (afterHead_chunked hlength).runs.mp
      (encode_runs c hsound.toChunkSound rfl rfl (show 0 + c.data.length ≤ limit by omega))

/-- **Every message is read**, and what is behind it is left. -/
theorem RequestMessage.runs (hlimit : NoWrap limit) (m : RequestMessage limit) {rest : Bytes}
    (hrest : m.Leaves rest) (hlen : (m.encode ++ rest).length ≤ stringMaxSize) :
    Runs requestConsumer ((HttpRequest.fresh limit).receive (m.encode ++ rest))
      (.finished (m.request rest)) :=
  .next (fresh_step_next_iff.mpr ⟨m.head, m.body.encode ++ rest, m.accepted,
    List.append_assoc _ _ _, rfl⟩) (m.runs_body hlimit hrest hlen)

/-- **Only messages are read to an end.** -/
theorem message_of_runs (hlimit : NoWrap limit) {b : Bytes} (hlen : b.length ≤ stringMaxSize)
    {u : HttpRequest}
    (h : Runs requestConsumer ((HttpRequest.fresh limit).receive b) (.finished u)) :
    ∃ (m : RequestMessage limit) (rest : Bytes), b = m.encode ++ rest ∧ m.Leaves rest ∧
      u = m.request rest := by
  have hread : ∃ (m : RequestMessage limit) (rest : Bytes), b = m.encode ++ rest ∧ m.Leaves rest := by
    cases h with
    | done hstep => exact absurd hstep headerStep_done
    | next hstep hbody =>
        obtain ⟨h, t, haccepted, rfl, rfl⟩ := fresh_step_next_iff.mp hstep
        obtain ⟨hlength, -⟩ | ⟨-, n, hlength, -⟩ := haccepted.length_cases
        · have hsound := afterHead_sound hlimit haccepted hlen
          have hchunk := (afterHead_chunked hlength).runs.mpr hbody
          have hexpects := expects_of_runs hsound.toChunkSound (Nat.zero_le _) hchunk
          obtain ⟨c, hc, hfit⟩ := (if_pos rfl).mp hexpects
          have hfit : 0 + c.data.length ≤ limit := hfit
          have hc : t = c.encode := hc
          rw [hc]
          exact ⟨⟨h, .chunked c, haccepted, hlength, by omega⟩, [], by
            rw [List.append_nil, RequestMessage.encode, MessageBody.encode], rfl⟩
        · have hstep := afterHead_step_plain (t := t) haccepted hlength
          split_ifs at hstep with hshort
          · cases hbody with
            | done hdone => cases hstep.symm.trans hdone
            | next hnext => cases hstep.symm.trans hnext
          · have hdata : h.length = (t.take n).length := by
              rw [hlength, List.length_take]
              omega
            exact ⟨⟨h, .plain (t.take n), haccepted, hdata⟩, t.drop n, by
              rw [RequestMessage.encode, MessageBody.encode, List.append_assoc, List.take_append_drop],
              trivial⟩
  obtain ⟨m, rest, rfl, hleaves⟩ := hread
  refine ⟨m, rest, rfl, hleaves, ?_⟩
  have hdet := h.det (m.runs hlimit hleaves hlen)
  cases hdet
  rfl

/-- **Behind a chunked message** nothing is taken. -/
theorem RequestMessage.runs_chunked (hlimit : NoWrap limit) {m : RequestMessage limit} {c : ChunkedBody}
    (hbody : m.body = .chunked c) {y : Bytes} (hy : y ≠ [])
    (hlen : (m.encode ++ y).length ≤ stringMaxSize) :
    ∃ u, Runs requestConsumer ((HttpRequest.fresh limit).receive (m.encode ++ y))
      (.failed (.responseStatus .kBadRequest) u) := by
  have hleaves : m.Leaves [] := by
    unfold RequestMessage.Leaves
    rw [hbody]
  have hframed := m.framed
  rw [hbody] at hframed
  have htext : m.encode ++ y = m.head.encode ++ (m.body.encode ++ y) := List.append_assoc _ _ _
  have hshort : (m.encode ++ []).length ≤ stringMaxSize := by
    rw [List.append_nil]
    rw [List.length_append] at hlen
    omega
  have hsound := afterHead_sound hlimit m.accepted (t := m.body.encode ++ []) (by
    rwa [← List.append_assoc])
  have hsoundx := afterHead_sound hlimit m.accepted (htext ▸ hlen)
  have hruns := m.runs_body hlimit hleaves hshort
  rw [List.append_nil] at hruns hsound
  obtain ⟨u, hfails⟩ := chunked_trailing hsound hy hsoundx (afterHead_chunked hframed.1) hruns
  exact ⟨u, .next (fresh_step_next_iff.mpr ⟨m.head, m.body.encode ++ y, m.accepted, htext, rfl⟩) hfails⟩

/-- **No message is the start of another one.** -/
theorem RequestMessage.length_le (hlimit : NoWrap limit) {m m' : RequestMessage limit} {rest rest' y : Bytes}
    (hleaves : m.Leaves rest) (hleaves' : m'.Leaves rest')
    (hlen : (m.encode ++ rest).length ≤ stringMaxSize)
    (heq : m'.encode ++ rest' ++ y = m.encode ++ rest) :
    m.encode.length ≤ (m'.encode ++ rest').length := by
  have hheads : m'.head.encode ++ (m'.body.encode ++ rest' ++ y) =
      m.head.encode ++ (m.body.encode ++ rest) := by simpa [RequestMessage.encode] using heq
  obtain ⟨hline, hfields, htail⟩ := encode_append_inj hheads
  have hhead : m'.head.encode = m.head.encode := by
    rw [RequestHead.encode, RequestHead.encode, hline, hfields]
  have hlength : m'.head.length = m.head.length := by
    rw [RequestHead.length, RequestHead.length, hfields]
  obtain ⟨h, body, haccepted, hframed⟩ := m
  obtain ⟨h', body', haccepted', hframed'⟩ := m'
  have hframed : h.Frames limit body := hframed
  have hframed' : h'.Frames limit body' := hframed'
  have hlength : h'.length = h.length := hlength
  have hhead : h'.encode = h.encode := hhead
  simp only [RequestMessage.encode, List.length_append, hhead]
  rcases body with data | c <;> rcases body' with data' | c'
  · have hdata : (data'.length : Int) = data.length := hframed'.symm.trans (hlength.trans hframed)
    have hdata : data'.length = data.length := by exact_mod_cast hdata
    simp only [MessageBody.encode]
    omega
  · have hdata : (-1 : Int) = data.length := hframed'.1.symm.trans (hlength.trans hframed)
    omega
  · have hdata : (data'.length : Int) = -1 := hframed'.symm.trans (hlength.trans hframed.1)
    omega
  · by_cases hy : y = []
    · rw [hy, List.append_nil] at htail
      have hlen := congrArg List.length htail
      simp only [List.length_append] at hlen ⊢
      omega
    · have hrest' : rest' = [] := hleaves'
      rw [hrest', List.append_nil] at heq
      obtain ⟨u, hfails⟩ := RequestMessage.runs_chunked (m := ⟨h', .chunked c', haccepted', hframed'⟩) hlimit
        rfl hy (heq ▸ hlen)
      have hall := RequestMessage.runs hlimit ⟨h, .chunked c, haccepted, hframed⟩ hleaves hlen
      rw [← heq] at hall
      cases hfails.det hall

/-- **A part of a message is waited with.** -/
theorem RequestMessage.waits (hlimit : NoWrap limit) (m : RequestMessage limit) {rest x y : Bytes}
    (hleaves : m.Leaves rest) (hlen : (m.encode ++ rest).length ≤ stringMaxSize)
    (heq : x ++ y = m.encode ++ rest) (hshort : x.length < m.encode.length) :
    ∃ u, Runs requestConsumer ((HttpRequest.fresh limit).receive x) (.waiting u) := by
  have hfresh : RequestSound (.fresh limit) := receive_sound (t := []) hlimit (Nat.zero_le _)
  have hx : x.length ≤ stringMaxSize := by
    rw [← heq, List.length_append] at hlen
    omega
  have hsound := receive_sound hlimit hx
  obtain ⟨o, ho, -⟩ := parse_implements _ x hfresh hsound
  rcases o with u | u | ⟨e, u⟩
  · exact ⟨u, ho⟩
  · obtain ⟨m', rest', rfl, hleaves', -⟩ := message_of_runs hlimit hx ho
    have hle := m.length_le hlimit hleaves hleaves' hlen heq
    omega
  · have hall := m.runs hlimit hleaves hlen
    rw [← heq, ← receive_append] at hall
    have hfails := ho.extend_failed hsound
      (show RequestSound (((HttpRequest.fresh limit).receive x).receive y) by
        rw [receive_append, heq]
        exact receive_sound hlimit hlen)
    cases hall.det hfails

end Runs

/-! ### The language of the parser -/

/-- **What `Parse` accepts.**  However the input is cut into pieces, the calls drive a fresh
request to `kDone` exactly if the input is the text of a message, whose end is in the last
piece; and the request is then the one that the message gives. -/
theorem parse_exact (limit : Nat) (hlimit : NoWrap limit) (pieces : List Bytes)
    (hlen : pieces.flatten.length ≤ stringMaxSize) (r : HttpRequest) :
    (pieces.forM HttpRequest.parse).run (.fresh limit) = .ok () r ∧ r.state = .kDone ↔
      ∃ (m : RequestMessage limit) (rest : Bytes), pieces.flatten = m.encode ++ rest ∧ m.Leaves rest ∧
        (∀ ps, ps <+: pieces → ps ≠ pieces → ps.flatten.length < m.encode.length) ∧
        r = m.request rest := by
  have hfresh : RequestSound (.fresh limit) := receive_sound (t := []) hlimit (Nat.zero_le _)
  have hfeed := forM_push_ok_iff parse_implements hfresh
    (show (HttpRequest.fresh limit).step = .wait from rfl)
    (fun {xs ys t} _ hfinished => by
      obtain ⟨e, u, herr, -⟩ := parse_behind_done (request_runs_end hfinished) ys
      exact ⟨e, u, herr⟩)
    pieces (receive_sound hlimit hlen) (t := r)
  rw [hfeed]
  constructor
  · rintro ⟨⟨⟨o, ho, hresult⟩, hearlier⟩, hdone⟩
    have hfinished := request_runs_done ho hresult hdone
    obtain ⟨m, rest, heq, hleaves, hr⟩ := message_of_runs hlimit hlen hfinished
    refine ⟨m, rest, heq, hleaves, fun ps hps hne => ?_, hr⟩
    obtain ⟨u, hwaits⟩ := hearlier ps hps hne
    by_contra hlong
    -- then the message has ended before the last piece
    obtain ⟨qs, rfl⟩ := hps
    rw [List.flatten_append] at heq hlen
    have hbegins : m.encode <+: ps.flatten :=
      List.prefix_of_prefix_length_le ⟨rest, rfl⟩ ⟨qs.flatten, heq⟩ (not_lt.mp hlong)
    obtain ⟨rest', hrest'⟩ := hbegins
    rw [← hrest', List.append_assoc] at heq
    have hleaves' : m.Leaves rest' :=
      hleaves.of_prefix ⟨qs.flatten, List.append_cancel_left heq⟩
    have hends := m.runs hlimit hleaves' (by
      rw [hrest']
      rw [List.length_append] at hlen
      omega)
    rw [hrest'] at hends
    cases hwaits.det hends
  · rintro ⟨m, rest, heq, hleaves, hlast, rfl⟩
    have hwhole : (m.encode ++ rest).length ≤ stringMaxSize := heq ▸ hlen
    have hruns := m.runs hlimit hleaves hwhole
    rw [← heq] at hruns
    refine ⟨⟨⟨_, hruns, rfl⟩, fun ps hps hne => ?_⟩, rfl⟩
    obtain ⟨qs, rfl⟩ := hps
    rw [List.flatten_append] at heq
    exact m.waits hlimit hleaves hwhole heq (hlast ps ⟨qs, rfl⟩ hne)

/-- `DELETE /x` with a chunked body of three bytes. -/
theorem exists_deleteMessage : ∃ m : RequestMessage 1024, m.encode = bytes
    "DELETE /x HTTP/1.1\r\nHost: h\r\nTransfer-Encoding: chunked\r\n\r\n3\r\nabc\r\n0\r\n\r\n" ∧
      m.body.data = bytes "abc" ∧ m.Leaves [] := by
  let head := framedHead (bytes "Transfer-Encoding") (bytes "chunked") (by decide +kernel) (by decide +kernel)
  let body : ChunkedBody := ⟨[⟨bytes "3", bytes "abc", by decide, by decide +kernel, by decide,
    by decide +kernel⟩], bytes "0", by decide, by decide +kernel⟩
  have hencode : head.encode ++ body.encode = bytes
      "DELETE /x HTTP/1.1\r\nHost: h\r\nTransfer-Encoding: chunked\r\n\r\n3\r\nabc\r\n0\r\n\r\n" := by
    decide +kernel
  have haccepted : head.Accepted 1024 := ⟨⟨by decide +kernel,
    ⟨bytes "h", by decide +kernel, by decide, by decide⟩, by decide +kernel, ⟨-1, by decide +kernel⟩⟩,
    by decide +kernel⟩
  have hframed : head.Frames 1024 (.chunked body) := ⟨by decide +kernel, by decide +kernel⟩
  have hdata : body.data = bytes "abc" := by decide +kernel
  exact ⟨⟨head, .chunked body, haccepted, hframed⟩, hencode, hdata, rfl⟩

/-- The message, cut behind the first two bytes of its data. -/
theorem parse_exact_deleteMessage :
    ∃ r, ([bytes "DELETE /x HTTP/1.1\r\nHost: h\r\nTransfer-Encoding: chunked\r\n\r\n3\r\nab",
        bytes "c\r\n0\r\n\r\n"].forM HttpRequest.parse).run (.fresh 1024) = .ok () r ∧
      r.state = .kDone ∧ r.body = bytes "abc" := by
  obtain ⟨m, hencode, hbody, hleaves⟩ := exists_deleteMessage
  have hexact := parse_exact 1024 (show 1024 + 2 ≤ stringMaxSize by decide)
    [bytes "DELETE /x HTTP/1.1\r\nHost: h\r\nTransfer-Encoding: chunked\r\n\r\n3\r\nab",
      bytes "c\r\n0\r\n\r\n"] (by decide +kernel) (m.request [])
  obtain ⟨hrun, hdone⟩ := hexact.mpr ⟨m, [], by rw [hencode]; decide +kernel, hleaves, fun ps hps hne => by
    rw [hencode]
    rcases List.prefix_cons_iff.mp hps with rfl | ⟨qs, rfl, hqs⟩
    · decide +kernel
    · rcases List.prefix_cons_iff.mp hqs with rfl | ⟨qs', rfl, hqs'⟩
      · decide +kernel
      · rw [List.prefix_nil.mp hqs'] at hne
        exact absurd rfl hne, rfl⟩
  exact ⟨_, hrun, hdone, hbody⟩

end Webserv
