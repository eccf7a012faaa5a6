/-
Webserv/HttpRequest/ServerFault.lean

Which input is reported as a fault of the server.

Every exception of the parser but one is a status that blames the client: the two
`catch (...)`, `OnInternalStateError` and the check that should not happen are out
of reach.  The one is the access to the empty optional of a `Host` port that is no
`unsigned short`, which becomes a 500.
-/
import Webserv.HttpRequest.BodyPhase
import Webserv.HttpRequest.Framing

namespace Webserv

open EStateM (Triple)

/-! ### What was received -/

/-- A head at the start of `s` has a `Host` value with an unreadable port. -/
def HasUnreadablePort (s : Bytes) : Prop :=
  ∃ (h : RequestHead) (t v : Bytes), h.Readable ∧ s = h.encode ++ t ∧
    fieldValue h.fields (bytes "host") = some v ∧ UnreadablePort v

theorem HasUnreadablePort.append {s : Bytes} (h : HasUnreadablePort s) (t : Bytes) :
    HasUnreadablePort (s ++ t) := by
  obtain ⟨head, u, v, hreadable, rfl, hhost, hport⟩ := h
  exact ⟨head, u ++ t, v, hreadable, List.append_assoc _ _ _, hhost, hport⟩

/-- The parser between two calls, when it was fed `fed` and has not thrown. -/
inductive Received (limit room : Nat) (fed : Bytes) : HttpRequest → Prop
  | head : Received limit room fed ((HttpRequest.fresh limit).receive fed)
  | sized {r : HttpRequest} (hstate : r.state = .kBody) (hlength : r.contentLength ≥ 0)
      (hbuffer : r.buffer.length ≤ fed.length) : Received limit room fed r
  | chunked {r : HttpRequest} (h : Decoding limit fed.length room r) : Received limit room fed r
  | done {r : HttpRequest} (hstate : r.state = .kDone) (hbuffer : r.buffer.length ≤ fed.length) :
      Received limit room fed r

/-- An exception that is not the server's fault, or the loop that never ends. -/
def NoServerFault (e : Exception) : Prop := e ≠ .diverges → ClientFault e

theorem ClientFault.noServerFault {e : Exception} (h : ClientFault e) : NoServerFault e :=
  fun _ => h

theorem NoServerFault.rethrowAsStatus {e : Exception} (h : NoServerFault e) :
    NoServerFault e.rethrowAsStatus := by
  by_cases hdiv : e = .diverges
  · rw [hdiv]
    intro hne
    exact absurd rfl hne
  · obtain ⟨status, rfl, hstatus⟩ := h hdiv
    exact (ClientFault.of_status hstatus).noServerFault

theorem Received.buffer_le {limit room : Nat} {fed : Bytes} {r : HttpRequest}
    (h : Received limit room fed r) : r.buffer.length ≤ fed.length := by
  cases h with
  | head => exact le_of_eq (congrArg List.length (List.nil_append fed))
  | sized _ _ hbuffer => exact hbuffer
  | chunked h => exact h.buffer_le
  | done _ hbuffer => exact hbuffer

theorem Received.receive {limit room : Nat} {fed : Bytes} {r : HttpRequest}
    (h : Received limit room fed r) (p : Bytes) :
    Received limit room (fed ++ p) (r.receive p) := by
  have hbuffer : (r.receive p).buffer.length ≤ (fed ++ p).length := by
    show (r.buffer ++ p).length ≤ _
    rw [List.length_append, List.length_append]
    exact Nat.add_le_add_right h.buffer_le _
  cases h with
  | head =>
      rw [receive_append]
      exact .head
  | sized hstate hlength => exact .sized hstate hlength hbuffer
  | @chunked r h =>
      refine .chunked ⟨⟨h.limit_eq, h.length_neg, h.state_eq, h.body_le, ?_, hbuffer⟩, h.room_le⟩
      refine h.pos_le.trans ?_
      show r.buffer.length ≤ (r.buffer ++ p).length
      rw [List.length_append]
      exact Nat.le_add_right _ _
  | done hstate => exact .done hstate hbuffer

/-! ### The header phase -/

theorem headerStep_fail_fault {limit : Nat} {fed : Bytes} (hfine : ¬ HasUnreadablePort fed)
    {e : Exception} {t : HttpRequest}
    (h : headerStep ((HttpRequest.fresh limit).receive fed) = .fail e t) : NoServerFault e := by
  obtain ⟨r, hr⟩ : ∃ r, r = (HttpRequest.fresh limit).receive fed := ⟨_, rfl⟩
  have hbuffer : r.buffer = fed := by rw [hr]; rfl
  have hnew : r.headers = ∅ := by rw [hr]; rfl
  rw [← hr, headerStep, hbuffer] at h
  rcases hi : findEndOfHeader true fed with - | i
  · rw [hi] at h
    cases h
  · rw [hi] at h
    dsimp only at h
    obtain ⟨e', s, hrun, hfault⟩ | ⟨head, u, hreadable, hfed, hrun⟩ := consumeRequestHead_cases fed hnew
    · rw [hrun] at h
      cases h
      exact hfault.noServerFault.rethrowAsStatus
    · have hspec := validateHeaders_read hreadable.short (r.afterLines head) _ rfl
      rcases hres : (validateHeaders (encodeFields head.fields).length).run (r.afterLines head)
        with ⟨q, s⟩ | ⟨e', s⟩
      · rw [hrun, hres] at h
        cases h
      · rw [hrun, hres] at h
        rw [hres] at hspec
        cases h
        rcases hspec with hfault | ⟨v, hhost, hport, -⟩
        · exact hfault.noServerFault.rethrowAsStatus
        · rw [afterLines_getElem? hreadable.distinct hnew] at hhost
          exact absurd ⟨head, u, v, hreadable, hfed, hhost, hport⟩ hfine

theorem advanceHeader_received {limit room : Nat} {fed : Bytes}
    (hfine : ¬ HasUnreadablePort fed) :
    Triple (fun r => Received limit room fed r ∧ r.state = .kHeader) advanceHeader
      (fun found s => Received limit room fed s ∧ (found = true → s.state = .kBody))
      fun e _ => NoServerFault e := by
  rintro r ⟨hr, hstate⟩
  cases hr with
  | sized hbody => rw [hstate] at hbody; cases hbody
  | chunked h => cases hstate.symm.trans h.state_eq
  | done hdone => rw [hstate] at hdone; cases hdone
  | head =>
      rw [advanceHeader_run]
      rcases hmove : headerStep ((HttpRequest.fresh limit).receive fed) with t | - | t | ⟨e, t⟩
      · obtain ⟨h, u, hreadable, rfl, name, port, length, keep, -, hframed, rfl⟩ :=
          headerStep_fresh hmove
        refine ⟨?_, fun _ => rfl⟩
        have hbuffer : u.length ≤ (h.encode ++ u).length := by
          rw [List.length_append]
          exact Nat.le_add_left _ _
        rcases lt_or_ge length 0 with hneg | hlength
        · exact .chunked ⟨⟨rfl, hneg, rfl, Nat.zero_le _, Nat.zero_le _, hbuffer⟩, Nat.zero_le _⟩
        · exact .sized rfl hlength hbuffer
      · exact ⟨.head, fun h => by cases h⟩
      · exact absurd hmove headerStep_done
      · exact headerStep_fail_fault hfine hmove

/-! ### The body phase -/

theorem advanceContentLengthBody_received {limit room : Nat} {fed : Bytes} {r : HttpRequest}
    (hstate : r.state = .kBody) (hlength : r.contentLength ≥ 0)
    (hbuffer : r.buffer.length ≤ fed.length) :
    Triple (· = r) advanceContentLengthBody
      (fun finished s => Received limit room fed s ∧ (finished = true → s.state = .kDone))
      fun e _ => NoServerFault e := by
  refine .get_bind ?_
  rintro s rfl
  refine .ite (fun _ => .throw ?_) fun _ => .ite (fun _ => .update_bind
    (M := (· = { s with state := .kDone })) (.pure ?_) (by rintro r rfl; rfl)) fun _ =>
    .ite (fun _ => .pure ?_) fun _ => ?_
  · intro t _
    exact (ClientFault.of_status (by decide)).noServerFault
  · rintro r rfl
    exact ⟨.done rfl hbuffer, fun _ => rfl⟩
  · rintro r rfl
    exact ⟨.sized hstate hlength hbuffer, fun h => by cases h⟩
  · rintro r rfl
    refine ⟨.done rfl ?_, fun _ => rfl⟩
    show (r.buffer.drop (toSize r.contentLength)).length ≤ fed.length
    rw [List.length_drop]
    exact (Nat.sub_le _ _).trans hbuffer

theorem selectBodyFraming_received {limit room : Nat} (hlimit : limit < sizeMod) {fed : Bytes}
    (hmax : room + fed.length ≤ stringMaxSize)
    (hroom : 2 * fed.length + 1 ≤ room ∨ fed.length + limit + 2 < sizeMod) :
    Triple (fun r => Received limit room fed r ∧ r.state = .kBody) selectBodyFraming
      (fun finished s => Received limit room fed s ∧ (finished = true → s.state = .kDone))
      fun e _ => NoServerFault e := by
  refine .get_bind fun r ⟨hr, hstate⟩ => .ite (fun _ => ?_) fun _ => .ite (fun hlength => ?_)
    fun hlength => ?_
  · refine .update_bind (M := (· = { r with state := .kDone })) (.pure ?_) (by rintro s rfl; rfl)
    rintro s rfl
    exact ⟨.done rfl hr.buffer_le, fun _ => rfl⟩
  · exact advanceContentLengthBody_received hstate hlength hr.buffer_le
  · have hdecoding : Decoding limit fed.length room r := by
      cases hr with
      | head => cases hstate
      | sized _ hpos => exact absurd hpos hlength
      | chunked h => exact h
      | done hdone => rw [hstate] at hdone; cases hdone
    have hspec := @advanceChunkedBody_spec limit fed.length room hlimit (by omega) hroom
    refine hspec.imp ?_ ?_ ?_
    · rintro s rfl
      exact hdecoding
    · intro finished s hs
      rcases finished with - | -
      · exact ⟨.chunked hs, fun h => by cases h⟩
      · exact ⟨.done hs.state_eq hs.buffer_le, fun _ => hs.state_eq⟩
    · intro e s hs hdiv
      exact (hs.fault hmax).resolve_right hdiv

/-! ### Calls of `Parse` -/

/-- **A call of `Parse`** that does not complete a head with an unreadable port. -/
theorem parse_received {limit room : Nat} (hlimit : limit < sizeMod) {fed p : Bytes}
    (hmax : room + (fed ++ p).length ≤ stringMaxSize)
    (hroom : 2 * (fed ++ p).length + 1 ≤ room ∨ (fed ++ p).length + limit + 2 < sizeMod)
    (hfine : ¬ HasUnreadablePort (fed ++ p)) :
    Triple (Received limit room fed) (HttpRequest.parse p)
      (fun _ => Received limit room (fed ++ p)) fun e _ => NoServerFault e := by
  have happend : Triple (Received limit room fed) (appendToBuffer p)
      (fun _ => Received limit room (fed ++ p)) fun e _ => NoServerFault e := by
    refine .get_bind fun r hr => ?_
    have hfits : r.buffer.length + p.length ≤ stringMaxSize := by
      have hle := hr.buffer_le
      rw [List.length_append] at hmax
      omega
    unfold stringAppend
    rw [if_pos hfits]
    refine .pure_bind (.update ?_)
    rintro s rfl
    exact hr.receive p
  refine happend.bind fun _ => @parseLoop_triple _ HttpRequest.virtuals
    (Received limit room (fed ++ p)) (fun e _ => NoServerFault e) ?_ ?_ ?_ ?_ parseFuel
  · exact advanceHeader_received hfine
  · refine (selectBodyFraming_received hlimit hmax hroom).tryCatch fun e => .throw fun _ h => ?_
    exact h.rethrowAsStatus
  · exact .throw fun _ _ => (ClientFault.of_status (by decide)).noServerFault
  · intro s _ hne
    exact absurd rfl hne

theorem forM_parse_received {limit room : Nat} (hlimit : limit < sizeMod) (pieces : List Bytes)
    {fed : Bytes} (hmax : room + (fed ++ pieces.flatten).length ≤ stringMaxSize)
    (hroom : 2 * (fed ++ pieces.flatten).length + 1 ≤ room ∨
      (fed ++ pieces.flatten).length + limit + 2 < sizeMod)
    (hfine : ¬ HasUnreadablePort (fed ++ pieces.flatten)) :
    Triple (Received limit room fed) (pieces.forM HttpRequest.parse)
      (fun _ => Received limit room (fed ++ pieces.flatten)) fun e _ => NoServerFault e := by
  induction pieces generalizing fed with
  | nil =>
      rw [List.flatten_nil, List.append_nil]
      exact .pure fun _ h => h
  | cons p ps ih =>
      rw [List.flatten_cons, ← List.append_assoc] at hmax hroom hfine ⊢
      have hlen := @List.length_append _ (fed ++ p) ps.flatten
      refine Triple.bind (parse_received hlimit (by omega) (by omega) fun h => hfine (h.append _))
        fun _ => ih hmax hroom hfine

/-! ### The unreadable port -/

theorem validateAndExtractHost_unreadable {r : HttpRequest} {v : Bytes}
    (hv : r.headers[bytes "host"]? = some v) (hport : UnreadablePort v) :
    ∃ s, validateAndExtractHost.run r = .error .badOptionalAccess s := by
  obtain ⟨hname, hlen, hread⟩ := hport
  have hne : v ≠ [] := by
    rintro rfl
    exact hname rfl
  simp only [validateAndExtractHost, EStateM.run_bind, EStateM.run_get, hv, EStateM.run_ite,
    if_neg hne, if_neg hname, EStateM.run_modify]
  rw [if_neg hlen, hread]
  exact ⟨_, rfl⟩

theorem validateHeaders_unreadable {n : Nat} (hn : n + 2 ≤ kMaxHeaderSize) {r : HttpRequest}
    {v : Bytes} (hv : r.headers[bytes "host"]? = some v) (hport : UnreadablePort v) :
    ∃ s, (validateHeaders n).run r = .error .badOptionalAccess s := by
  obtain ⟨s, hs⟩ := validateAndExtractHost_unreadable hv hport
  refine ⟨s, ?_⟩
  rw [validateHeaders, bumpLenOrThrow_ok hn kMaxHeaderSize_lt]
  show (validateAndExtractHost >>= _).run r = _
  rw [EStateM.run_bind, hs]

theorem parse_unreadable {limit : Nat} {s : Bytes} (hlen : s.length ≤ stringMaxSize)
    (h : HasUnreadablePort s) :
    ∃ t, (HttpRequest.parse s).run (.fresh limit) =
      .error (.responseStatus .kInternalServerError) t := by
  obtain ⟨head, u, v, hreadable, rfl, hhost, hport⟩ := h
  obtain ⟨r, hr⟩ : ∃ r, r = (HttpRequest.fresh limit).receive (head.encode ++ u) := ⟨_, rfl⟩
  have hbuffer : r.buffer = head.encode ++ u := by rw [hr]; rfl
  have hnew : r.headers = ∅ := by rw [hr]; rfl
  have hkey : (r.afterLines head).headers[bytes "host"]? = some v := by
    rw [afterLines_getElem? hreadable.distinct hnew, hhost]
  obtain ⟨t, ht⟩ := validateHeaders_unreadable hreadable.short hkey hport
  have hfits : (HttpRequest.fresh limit).buffer.length + (head.encode ++ u).length ≤
      stringMaxSize := by
    show 0 + _ ≤ _
    omega
  refine ⟨t, parse_fail rfl hfits ?_⟩
  rw [← hr, headerStep, hbuffer, findEndOfHeader_encode]
  have hrun := consumeRequestHead_encode head u (Nat.le_of_add_right_le hreadable.short)
    hreadable.distinct hnew
  rw [ht] at hrun
  dsimp only
  rw [hrun]
  rfl

/-! ### The result -/

/-- Whatever `Parse` throws on the bytes of `s`, however they are delivered, is a status
that does not blame the server. -/
def NeverBlamesServer (limit : Nat) (s : Bytes) : Prop :=
  ∀ pieces : List Bytes, pieces.flatten = s → ∀ e t,
    (pieces.forM HttpRequest.parse).run (.fresh limit) = .error e t → NoServerFault e

/-- **The faults of the server.** -/
theorem neverBlamesServer_iff (limit : Nat) (hlimit : limit < sizeMod) (s : Bytes)
    (hlen : s.length ≤ stringMaxSize)
    (hroom : s.length + limit + 2 < sizeMod ∨ 3 * s.length + 1 ≤ stringMaxSize) :
    NeverBlamesServer limit s ↔ ¬ HasUnreadablePort s := by
  constructor
  · intro h hport
    obtain ⟨t, ht⟩ := @parse_unreadable limit s hlen hport
    have hrun : ([s].forM HttpRequest.parse).run (.fresh limit) =
        .error (.responseStatus .kInternalServerError) t := by
      show (HttpRequest.parse s >>= fun _ => pure ()).run _ = _
      rw [EStateM.run_bind, ht]
    obtain ⟨status, heq, hstatus⟩ := h [s] (by simp) _ _ hrun (by simp)
    cases heq
    exact hstatus rfl
  · rintro hfine pieces rfl e t hrun
    have hfed : Received limit 0 [] (.fresh limit) := .head
    rcases hroom with hlow | hshort
    · have hspec := @forM_parse_received limit 0 hlimit pieces [] (by simpa using hlen)
        (.inr hlow) hfine
      exact hspec.of_error hfed hrun
    · have hspec := @forM_parse_received limit (2 * pieces.flatten.length + 1) hlimit pieces []
        (by rw [List.nil_append]; omega) (.inl le_rfl) hfine
      exact hspec.of_error .head hrun

/-- A request without a port. -/
theorem neverBlamesServer_iff_noPort :
    NeverBlamesServer 1024 (bytes "GET / HTTP/1.1\r\nHost: a\r\n\r\n") ↔
      ¬ HasUnreadablePort (bytes "GET / HTTP/1.1\r\nHost: a\r\n\r\n") :=
  neverBlamesServer_iff 1024 (by decide) _ (by decide) (by decide)

/-- A port that is no `unsigned short`. -/
theorem neverBlamesServer_fails :
    ¬ ∀ s : Bytes, s.length ≤ stringMaxSize → NeverBlamesServer kMaxPayloadSize s := by
  intro h
  obtain ⟨e, t, hrun, rfl⟩ : (([bytes "GET / HTTP/1.1\r\nHost: a:x\r\n\r\n"].forM
      HttpRequest.parse).run (.fresh kMaxPayloadSize)).Threw
        (· = .responseStatus .kInternalServerError) := by decide +kernel
  obtain ⟨status, heq, hstatus⟩ := h (bytes "GET / HTTP/1.1\r\nHost: a:x\r\n\r\n") (by decide) _
    (List.flatten_singleton) _ _ hrun (by decide)
  cases heq
  exact hstatus rfl

end Webserv
