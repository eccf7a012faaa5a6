/-
Webserv/HttpRequest/RoundTrip.lean

The round trip of a request head: `AdvanceHeader` on the text of a valid head
stores that head and leaves what follows it, or refuses it for its length.

The length is counted line by line, so a header section that is too long is
refused at the byte where the count passes `kMaxHeaderSize`, wherever in a line
that is.
-/
import Webserv.HttpRequest.HeadSound
import Webserv.HttpRequest.Segmentation

namespace Webserv

/-! ### Header sections that are too long -/

/-- A scanning loop that runs past the limit. -/
theorem scanUntil_tooLong {stop : Byte → Bool} {a t : Bytes} {n maxSize : Nat}
    (hpass : ∀ c ∈ a, isValidHeaderChar c = true ∧ stop c = false) (hn : n ≤ maxSize)
    (hmax : maxSize < sizeMod) (hlong : maxSize < n + a.length) :
    scanUntil stop (checkHeaderChar maxSize) (a ++ t) n =
      .error (.responseStatus .kRequestHeaderFieldsTooLarge) := by
  refine scanUntil_over maxSize a t ?_ ?_ ?_ hn hlong
  · intro c hc
    exact ⟨ne_of_headerChar (hpass c hc).1 (by decide), (hpass c hc).2⟩
  · intro c hc m hm
    exact checkHeaderChar_ok (hpass c hc).1 hmax hm
  · intro c hc
    rw [checkHeaderChar, if_neg (by simp [(hpass c hc).1]), bumpLenOrThrow,
      subSize_of_le le_rfl hmax, if_pos (by omega)]

theorem bumpLenOrThrow_tooLong {total inc maxSize : Nat} (h : total ≤ maxSize)
    (hmax : maxSize < sizeMod) (hlong : maxSize < total + inc) :
    bumpLenOrThrow total inc maxSize = .error (.responseStatus .kRequestHeaderFieldsTooLarge) := by
  rw [bumpLenOrThrow, subSize_of_le h hmax]
  exact if_pos (by omega)

/-- A line that passes the limit is refused for it, wherever the limit falls. -/
theorem readHeaderLine_tooLong (f : HeaderField) (t : Bytes) {n : Nat} (hn : n ≤ kMaxHeaderSize)
    (hlong : kMaxHeaderSize < n + f.line.length + 2) :
    readHeaderLine true (f.line ++ CRLF ++ t) n kMaxHeaderSize =
      .error (.responseStatus .kRequestHeaderFieldsTooLarge) := by
  have hline := f.length_line
  have htext : f.line ++ CRLF ++ t = f.name ++ COLON :: SP :: (f.value ++ CR :: LF :: t) := by
    simp [HeaderField.line]
  have hmax := kMaxHeaderSize_lt
  have hsp : SP ≠ 0 := by decide
  rw [htext, readHeaderLine]
  by_cases hname : n + f.name.length ≤ kMaxHeaderSize
  · rw [readUntil_pass hmax f.name_pass hname rfl]
    by_cases hsep : n + f.name.length + 2 ≤ kMaxHeaderSize
    · have hbump := bumpLenOrThrow_ok hsep hmax
      by_cases hvalue : n + f.name.length + 2 + f.value.length ≤ kMaxHeaderSize
      · -- the limit falls into the CRLF
        have hval := readUntil_pass (t := LF :: t) hmax f.value_pass hvalue
          (show (CR == CR || CR == LF) = true from rfl)
        have hcrlf : isCRLF (CR :: LF :: t) = true := rfl
        have hbump' := @bumpLenOrThrow_tooLong _ 2 _ hvalue hmax (by omega)
        simp [bind, Except.bind, hsp, hbump, hval, hcrlf, hbump']
      · have hval := scanUntil_tooLong (t := CR :: LF :: t) f.value_pass hsep hmax (by omega)
        simp [bind, Except.bind, hsp, hbump, readUntil, hval]
    · have hbump := @bumpLenOrThrow_tooLong _ 2 _ hname hmax (by omega)
      simp [bind, Except.bind, hsp, hbump]
  · rw [readUntil, scanUntil_tooLong f.name_pass hn hmax (by omega)]
    rfl

/-- The loop over the header lines refuses a section that is too long. -/
theorem consumeHeaderLines_tooLong (fields : List HeaderField) (t : Bytes) {fuel n : Nat}
    {r : HttpRequest} (hfuel : fields.length < fuel) (hn : n ≤ kMaxHeaderSize)
    (hlong : kMaxHeaderSize < n + (encodeFields fields).length) (hdistinct : DistinctNames fields)
    (hnew : ∀ f ∈ fields, r.headers.contains (toLowerAscii f.name) = false) :
    ∃ s, (consumeHeaderLines fuel (encodeFields fields ++ (CRLF ++ t)) n).run r =
      .error (.responseStatus .kRequestHeaderFieldsTooLarge) s := by
  induction fields generalizing fuel n r with
  | nil =>
      have hzero : (encodeFields []).length = 0 := rfl
      omega
  | cons f fs ih =>
      rcases fuel with - | fuel
      · omega
      · have htext : encodeFields (f :: fs) = f.line ++ CRLF ++ encodeFields fs := by
          simp [encodeFields]
        have hlength : (encodeFields (f :: fs)).length
            = f.line.length + 2 + (encodeFields fs).length := by
          rw [htext, List.length_append, List.length_append]
          rfl
        obtain ⟨hf, hfs⟩ := List.forall_mem_cons.mp hnew
        have hnodup := List.nodup_cons.mp hdistinct
        rw [htext, List.append_assoc, List.append_assoc, consumeHeaderLines,
          if_neg (not_stop_field f _), ← List.append_assoc f.line]
        by_cases hfits : n + f.line.length + 2 ≤ kMaxHeaderSize
        · rw [readHeaderLine_encode f _ hfits]
          simp only [EStateM.run_bind, run_call_ok, storeHeader_new hf]
          refine ih (by simpa using hfuel) hfits (by omega) hnodup.2 fun g hg => ?_
          rw [contains_insert, hfs g hg, Bool.or_false, decide_eq_false_iff_not]
          intro heq
          have hmem : toLowerAscii g.name ∈ fs.map fun f => toLowerAscii f.name :=
            List.mem_map_of_mem hg
          rw [← heq] at hmem
          exact hnodup.1 hmem
        · rw [readHeaderLine_tooLong f _ hn (by omega)]
          exact ⟨r, rfl⟩

/-! ### Valid heads -/

/-- A head that is valid under the limit: its names are distinct, its `Host` and
`Connection` are acceptable, and its fields frame a body within the limit. -/
structure RequestHead.Valid (h : RequestHead) (limit : Nat) : Prop where
  distinct : DistinctNames h.fields
  host : ∃ v, fieldValue h.fields (bytes "host") = some v ∧ ValidHost v
  connection : ∀ v, fieldValue h.fields (bytes "connection") = some v →
    v = bytes "close" ∨ v = bytes "keep-alive"
  framing : ∃ length, Framed (fieldValue h.fields (bytes "content-length"))
    (fieldValue h.fields (bytes "transfer-encoding")) limit length

theorem validateBodyHeaders_framed {r : HttpRequest} {length : Int}
    (h : r.FramedBy length) :
    validateBodyHeaders.run r = .ok () { r with contentLength := length } := by
  unfold HttpRequest.FramedBy Framed at h
  simp only [validateBodyHeaders, EStateM.run_bind, EStateM.run_get]
  rcases hcl : r.headers[bytes "content-length"]? with - | v
    <;> rcases hte : r.headers[bytes "transfer-encoding"]? with - | v'
    <;> simp only [hcl, hte] at h
  · rw [h]
    rfl
  · obtain ⟨rfl, rfl⟩ := h
    rfl
  · obtain ⟨hlong, hneg, hle, hlimit⟩ := h
    have hsize := toSize_of_strToLong hlong hneg
    have hsmall : ¬ (length < 0 ∨ toSize length > kMaxPayloadSize) := by omega
    have hfits : ¬ (length ≥ 0 ∧ toSize length > r.maxBodySizeLimit) := by omega
    simp only [parseContentLength, hlong, EStateM.run_bind, if_neg hsmall,
      EStateM.run_modify, EStateM.run_get, if_neg hfits]
    rfl

theorem validateHeaders_valid {h : RequestHead} {r : HttpRequest}
    (hvalid : h.Valid r.maxBodySizeLimit) (hr : r.headers = ∅)
    (hshort : (encodeFields h.fields).length + 2 ≤ kMaxHeaderSize) :
    ∃ name port length keep,
      (validateHeaders (encodeFields h.fields).length).run (r.afterLines h) =
        .ok () { r.afterLines h with
          hostName := name, hostPort := port, contentLength := length, keepAlive := keep } := by
  have hlookup : ∀ key, (r.afterLines h).headers[key]? = fieldValue h.fields key := fun key => by
    rw [show (r.afterLines h).headers = storeFields r.headers h.fields from rfl,
      storeFields_getElem? hvalid.distinct, hr]
    simp
  obtain ⟨v, hv, hhost⟩ := hvalid.host
  obtain ⟨length, hframed⟩ := hvalid.framing
  obtain ⟨name, port, hrun⟩ := validateHeaders_run hshort ((hlookup _).trans hv) hhost
  rw [← hlookup, ← hlookup] at hframed
  have hbody := @validateBodyHeaders_framed
    { r.afterLines h with hostName := name, hostPort := port } length hframed
  obtain ⟨keep, hkeep⟩ := parseConnectionDirective_ok
    (r := { r.afterLines h with hostName := name, hostPort := port, contentLength := length })
    fun v hv => hvalid.connection v ((hlookup _).symm.trans hv)
  refine ⟨name, port, length, keep, ?_⟩
  simp only [hrun, EStateM.run_bind, hbody, hkeep]

/-! ### The round trip -/

theorem consumeRequestHead_tooLong {h : RequestHead} {r : HttpRequest}
    (hdistinct : DistinctNames h.fields) (hr : r.headers = ∅)
    (hlong : kMaxHeaderSize < (encodeFields h.fields ++ CRLF).length) (t : Bytes) :
    ∃ s, (consumeRequestHead (h.encode ++ t)).run r =
      .error (.responseStatus .kRequestHeaderFieldsTooLarge) s := by
  have hlength : (encodeFields h.fields ++ CRLF).length = (encodeFields h.fields).length + 2 :=
    List.length_append
  by_cases hlines : (encodeFields h.fields).length ≤ kMaxHeaderSize
  · -- the limit falls into the blank line
    have hbump := @bumpLenOrThrow_tooLong _ 2 _ hlines kMaxHeaderSize_lt (by omega)
    rw [consumeRequestHead_encode h t hlines hdistinct hr, validateHeaders, hbump]
    exact ⟨_, rfl⟩
  · obtain ⟨s, hs⟩ := consumeHeaderLines_tooLong h.fields t (n := 0)
      (r := r.afterRequestLine h.requestLine) (fields_lt_fuel h.fields t) (Nat.zero_le _)
      (by omega) hdistinct fun f _ => by
        rw [show (r.afterRequestLine h.requestLine).headers = r.headers from rfl, hr]
        rfl
    refine ⟨s, ?_⟩
    rw [consumeRequestHead_requestLine, consumeHeader, EStateM.run_bind, hs]

/-- **The round trip of a request head.** -/
theorem advanceHeader_encode (limit : Nat) (h : RequestHead) (hvalid : h.Valid limit) (t : Bytes) :
    if (encodeFields h.fields ++ CRLF).length ≤ kMaxHeaderSize then
      ∃ s, advanceHeader.run ((HttpRequest.fresh limit).receive (h.encode ++ t)) = .ok true s ∧
        s.method = h.requestLine.method ∧ s.uri = h.requestLine.path ∧
        s.queryString = h.requestLine.query.getD [] ∧ s.version = h.requestLine.version ∧
        (∀ key, s.headers[key]? = fieldValue h.fields key) ∧ s.buffer = t ∧ s.state = .kBody
    else
      ∃ s, advanceHeader.run ((HttpRequest.fresh limit).receive (h.encode ++ t)) =
        .error (.responseStatus .kRequestHeaderFieldsTooLarge) s := by
  have hlength : (encodeFields h.fields ++ CRLF).length = (encodeFields h.fields).length + 2 :=
    List.length_append
  obtain ⟨r, hr⟩ : ∃ r, r = (HttpRequest.fresh limit).receive (h.encode ++ t) := ⟨_, rfl⟩
  have hbuffer : r.buffer = h.encode ++ t := by rw [hr]; rfl
  have hnew : r.headers = ∅ := by rw [hr]; rfl
  have hlimit : r.maxBodySizeLimit = limit := by rw [hr]; rfl
  have hquery : r.queryString = [] := by rw [hr]; rfl
  rw [← hr, advanceHeader_run, headerStep, hbuffer, findEndOfHeader_encode]
  split_ifs with hshort
  · obtain ⟨name, port, length, keep, hrun⟩ := validateHeaders_valid (hlimit ▸ hvalid) hnew (by omega)
    rw [consumeRequestHead_encode h t (by omega) hvalid.distinct hnew, hrun]
    refine ⟨_, rfl, rfl, rfl, ?_, rfl, fun key => ?_, ?_, rfl⟩
    · show h.requestLine.query.elim r.queryString id = _
      rw [hquery]
      rcases h.requestLine.query with - | q <;> rfl
    · show (storeFields r.headers h.fields)[key]? = _
      rw [storeFields_getElem? hvalid.distinct, hnew]
      simp
    · show r.buffer.drop h.encode.length = t
      rw [hbuffer, List.drop_left]
  · obtain ⟨s, hs⟩ := consumeRequestHead_tooLong hvalid.distinct hnew (by omega) t
    rw [hs]
    exact ⟨s, rfl⟩

/-- `HEAD` with a query, and a body that holds another blank line. -/
def queryHead : RequestHead where
  requestLine :=
    ⟨.kHead, bytes "/a", some (bytes "b?c"), bytes "HTTP/1.1", by decide, by decide,
      by decide +kernel, by
        rintro q ⟨⟩
        decide +kernel, http11_known, by decide +kernel⟩
  fields := [⟨bytes "Host", bytes "x", host_char, by decide +kernel⟩,
    ⟨bytes "CONTENT-LENGTH", bytes "4", by decide +kernel, by decide +kernel⟩]

theorem advanceHeader_encode_queryHead :
    ∃ s, advanceHeader.run ((HttpRequest.fresh 1024).receive (queryHead.encode ++ CRLF ++ CRLF)) =
      .ok true s ∧ s.method = .kHead ∧ s.uri = bytes "/a" ∧ s.queryString = bytes "b?c" ∧
      s.buffer = CRLF ++ CRLF := by
  have hvalid : queryHead.Valid 1024 :=
    ⟨by decide, ⟨bytes "x", by decide, by decide, by decide⟩,
      by decide, ⟨4, by decide⟩⟩
  have hround := advanceHeader_encode 1024 queryHead hvalid (CRLF ++ CRLF)
  rw [if_pos (by decide)] at hround
  obtain ⟨s, hrun, hmethod, huri, hquery, -, -, hbuffer, -⟩ := hround
  rw [← List.append_assoc] at hrun
  exact ⟨s, hrun, hmethod, huri, hquery, hbuffer⟩

end Webserv
