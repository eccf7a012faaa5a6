/-
Webserv/HttpRequest/Trailing.lean

Bytes behind a complete request.

A second call of `Parse` refuses them, whatever the framing of the request was.  In
the same call they are refused behind a chunked body only: the two other framings
finish as soon as the body is there and leave the rest in the buffer.  The theorem
says which requests are treated alike.
-/
import Webserv.HttpRequest.Framing

namespace Webserv

open Incremental

/-! ### The outcomes -/

/-- A request without the members that only the parser uses. -/
def HttpRequest.requestFields (r : HttpRequest) : HttpRequest :=
  { r with buffer := [], bufferReadPos := 0, nextChunkSize := -1 }

/-- The two runs both throw `kBadRequest`, or both end in `kDone` with the same request. -/
inductive SameOutcome : (o o' : EStateM.Result Exception HttpRequest Unit) → Prop
  | refused (s s' : HttpRequest) :
      SameOutcome (.error (.responseStatus .kBadRequest) s) (.error (.responseStatus .kBadRequest) s')
  | accepted (s s' : HttpRequest) (hdone : s.state = .kDone) (hdone' : s'.state = .kDone)
      (hfields : s.requestFields = s'.requestFields) : SameOutcome (.ok () s) (.ok () s')

/-- The bytes `r` and then `x`, in one call of `Parse` and in two. -/
def TreatsAlike (limit : Nat) (r x : Bytes) : Prop :=
  SameOutcome ((HttpRequest.parse (r ++ x)).run (.fresh limit))
    (([r, x].forM HttpRequest.parse).run (.fresh limit))

/-- `r` drives a fresh request to `kDone` and leaves nothing in the buffer. -/
def DrivesToDone (limit : Nat) (r : Bytes) : Prop :=
  ((HttpRequest.parse r).run (.fresh limit)).Returned fun s => s.state = .kDone ∧ s.buffer = []

instance (limit : Nat) (r : Bytes) : Decidable (DrivesToDone limit r) :=
  inferInstanceAs (Decidable (EStateM.Result.Returned _ _))

/-- The head of `r` has a `Transfer-Encoding` field. -/
def HasTransferEncoding (r : Bytes) : Prop :=
  ∃ (h : RequestHead) (t : Bytes), r = h.encode ++ t ∧
    (fieldValue h.fields (bytes "transfer-encoding")).isSome

theorem SameOutcome.isOk_eq {o o' : EStateM.Result Exception HttpRequest Unit}
    (h : SameOutcome o o') : o.toExcept.isOk = o'.toExcept.isOk := by
  cases h with
  | refused s s' => rfl
  | accepted s s' => rfl

theorem TreatsAlike.isOk_eq {limit : Nat} {r x : Bytes} (h : TreatsAlike limit r x) :
    ((HttpRequest.parse (r ++ x)).run (.fresh limit)).toExcept.isOk =
      (([r, x].forM HttpRequest.parse).run (.fresh limit)).toExcept.isOk :=
  SameOutcome.isOk_eq h

theorem Framed.nonneg {cl : Option Bytes} {limit : Nat} {length : Int}
    (h : Framed cl none limit length) : length ≥ 0 := by
  rcases cl with - | v
  · exact le_of_eq (Eq.symm h)
  · exact h.2.1

theorem Framed.of_some {cl : Option Bytes} {v : Bytes} {limit : Nat} {length : Int}
    (h : Framed cl (some v) limit length) : length = -1 := by
  rcases cl with - | v'
  · exact h.2
  · exact absurd h not_false

/-! ### The second call -/

/-- A run that ends in `kDone` has finished: nothing waits there. -/
theorem request_runs_done {r s : HttpRequest} {o : Outcome HttpRequest Exception}
    (h : Runs requestConsumer r o) (hresult : o.result = .ok () s) (hstate : s.state = .kDone) :
    Runs requestConsumer r (.finished s) := by
  induction h with
  | @wait r hstep =>
      have hstep : r.step = .wait := hstep
      cases hresult
      rw [HttpRequest.step, hstate] at hstep
      cases hstep
  | done hstep =>
      cases hresult
      exact .done hstep
  | fail hstep => cases hresult
  | next hstep _ ih => exact .next hstep (ih hresult)

/-- **A call of `Parse` behind the end of a request throws.** -/
theorem parse_of_done {r : HttpRequest} (hstate : r.state = .kDone) {x : Bytes}
    (hlen : r.buffer.length + x.length ≤ stringMaxSize) :
    (HttpRequest.parse x).run r = .error (.responseStatus .kBadRequest) (r.receive x) := by
  rw [parse_run hlen, show parseFuel = 2 + 1 from rfl, parseLoop]
  simp only [EStateM.run_bind, EStateM.run_get]
  rw [show HttpRequest.virtuals.state (r.receive x) = .kDone from hstate]
  rfl

/-- A piece that does not fit into the buffer. -/
theorem parse_tooLong {r : HttpRequest} {x : Bytes}
    (hlong : ¬ r.buffer.length + x.length ≤ stringMaxSize) :
    (HttpRequest.parse x).run r = .error .lengthError r := by
  have happ : (appendToBuffer x).run r = .error .lengthError r := by
    simp only [appendToBuffer, EStateM.run_bind, EStateM.run_get, stringAppend, if_neg hlong]
    rfl
  rw [HttpRequest.parse, parse, EStateM.run_bind,
    show HttpRequest.virtuals.append x = appendToBuffer x from rfl, happ]

/-- **Behind the end of a request** every call of `Parse` throws, and stays there. -/
theorem parse_behind_done {r : HttpRequest} (hstate : r.state = .kDone) (x : Bytes) :
    ∃ e t, (HttpRequest.parse x).run r = .error e t ∧ t.state = .kDone := by
  by_cases hfits : r.buffer.length + x.length ≤ stringMaxSize
  · exact ⟨_, _, parse_of_done hstate hfits, hstate⟩
  · exact ⟨_, _, parse_tooLong hfits, hstate⟩

theorem not_done_of_parse {r t : HttpRequest} {x : Bytes}
    (h : (HttpRequest.parse x).run r = .ok () t) : r.state ≠ .kDone := by
  intro hstate
  obtain ⟨e, u, hrun, -⟩ := parse_behind_done hstate x
  rw [hrun] at h
  cases h

/-! ### The same call -/

/-- The last move of the chunk decoder, with input behind it. -/
theorem chunkStep_done_receive {r t : HttpRequest} (hs : ChunkSound r) (h : chunkStep r = .done t)
    {x : Bytes} (hx : x ≠ []) :
    ∃ u, chunkStep (r.receive x) = .fail (.responseStatus .kBadRequest) u := by
  have hunread := receive_unread hs.pos_le x
  unfold chunkStep dataStep at h ⊢
  split_ifs at h with hnext h0 hbig
  · -- no size line finishes the body
    rcases hline : sizeLine r.unread with - | - | ⟨len, size⟩
    · simp [hline] at h
    · simp [hline] at h
    · simp only [hline] at h
      split_ifs at h
  · rw [if_neg (show ¬ (r.receive x).nextChunkSize = -1 from hnext),
      if_pos (show (r.receive x).nextChunkSize = 0 from h0), hunread]
    rcases hu : r.unread with - | ⟨c, - | ⟨c', rest⟩⟩
    · simp [hu] at h
    · simp [hu] at h
    · simp only [hu] at h
      split_ifs at h with hcr hrest
      simp only [List.cons_append, if_pos hcr, hrest, List.nil_append, if_neg hx]
      exact ⟨_, rfl⟩
  · rcases hu : r.unread.drop (toSize r.nextChunkSize) with - | ⟨c, - | ⟨c', rest⟩⟩
    · simp [hu] at h
    · simp [hu] at h
    · simp only [hu] at h
      split_ifs at h

/-- The states of the body phase with a chunked body. -/
def InChunkedBody (r : HttpRequest) : Prop :=
  r.state = .kBody ∧ ¬ r.NoBody ∧ ¬ r.contentLength ≥ 0

theorem InChunkedBody.of_length {r : HttpRequest} (hstate : r.state = .kBody)
    (hlength : ¬ r.contentLength ≥ 0) : InChunkedBody r :=
  ⟨hstate, fun h => hlength h.1.ge, hlength⟩

theorem InChunkedBody.step {r : HttpRequest} (h : InChunkedBody r) : r.step = chunkStep r := by
  simp only [HttpRequest.step, h.1, if_neg h.2.1, if_neg h.2.2]

theorem InChunkedBody.next {r t : HttpRequest} (h : InChunkedBody r) (hstep : r.step = .next t) :
    InChunkedBody t := by
  rw [h.step] at hstep
  obtain ⟨_, _, -, -, -, rfl⟩ | ⟨_, -, -, -, -, rfl⟩ := chunkStep_next hstep
  · exact h
  · exact h

/-- A chunked body that has been read leaves nothing in the buffer. -/
theorem InChunkedBody.finished {r t : HttpRequest} (hbody : InChunkedBody r)
    (h : Runs requestConsumer r (.finished t)) : t.buffer = [] := by
  generalize ho : Outcome.finished (ε := Exception) t = o at h
  induction h with
  | wait => cases ho
  | fail => cases ho
  | @done s u h =>
      cases ho
      have hstep : s.step = .done t := h
      rw [hbody.step] at hstep
      rw [chunkStep_eq_done hstep]
      rfl
  | next h _ ih => exact ih (hbody.next h) ho

/-- **Behind a chunked body** more input is refused. -/
theorem chunked_trailing {r t : HttpRequest} (hs : RequestSound r) {x : Bytes} (hx : x ≠ [])
    (hsx : RequestSound (r.receive x)) (hbody : InChunkedBody r)
    (h : Runs requestConsumer r (.finished t)) :
    ∃ u, Runs requestConsumer (r.receive x) (.failed (.responseStatus .kBadRequest) u) := by
  have hdone : ∀ s v, RequestSound s → InChunkedBody s → s.step = .done v →
      ∃ o, (∃ u, o = .failed (.responseStatus .kBadRequest) u) ∧
        Runs requestConsumer (s.receive x) o := by
    intro s v hsound hP hstep
    rw [hP.step] at hstep
    obtain ⟨u, hu⟩ := chunkStep_done_receive hsound.toChunkSound hstep hx
    have hP' : InChunkedBody (s.receive x) := hP
    exact ⟨_, ⟨u, rfl⟩, .fail (hP'.step.trans hu)⟩
  obtain ⟨o, ⟨u, rfl⟩, hruns⟩ := Runs.extend_finished hs hsx h hbody
    (fun _ _ hP hstep => hP.next hstep) hdone
  exact ⟨u, hruns⟩

theorem contentLengthStep_receive_done {r t : HttpRequest} (x : Bytes)
    (h : contentLengthStep r = .done t) :
    contentLengthStep (r.receive x) = .done (t.receive x) := by
  rw [contentLengthStep] at h ⊢
  split_ifs at h with hbig hzero hshort
  · cases h
    exact (if_neg hbig).trans (if_pos hzero)
  · cases h
    have hle : toSize r.contentLength ≤ r.buffer.length := not_lt.mp hshort
    have hlong : ¬ (r.buffer ++ x).length < toSize r.contentLength := by
      rw [List.length_append]
      omega
    refine (if_neg hbig).trans ((if_neg hzero).trans ((if_neg hlong).trans ?_))
    simp only [HttpRequest.receive, List.take_append_of_le_length hle,
      List.drop_append_of_le_length hle]

/-- **Behind any other body** more input is left in the buffer. -/
theorem unchunked_trailing {r t : HttpRequest} (hstate : r.state = .kBody)
    (hlength : r.contentLength ≥ 0) (h : Runs requestConsumer r (.finished t)) (x : Bytes) :
    Runs requestConsumer (r.receive x) (.finished (t.receive x)) := by
  cases h with
  | next hstep =>
      -- such a body is read in one move
      obtain ⟨hheader, -⟩ | ⟨-, -, hneg, -⟩ := step_next hstep
      · rw [hstate] at hheader
        cases hheader
      · exact absurd hlength hneg
  | done hstep =>
      have hstep : r.step = .done t := hstep
      refine .done ?_
      show (r.receive x).step = .done (t.receive x)
      rw [HttpRequest.step, hstate] at hstep
      rw [HttpRequest.step, show (r.receive x).state = .kBody from hstate]
      dsimp only at hstep
      by_cases hnone : r.NoBody
      · rw [if_pos hnone] at hstep
        cases hstep
        exact if_pos hnone
      · rw [if_neg hnone, if_pos hlength] at hstep
        refine (if_neg hnone).trans ((if_pos hlength).trans ?_)
        exact contentLengthStep_receive_done x hstep

/-! ### Both -/

theorem hasTransferEncoding_encode (h : RequestHead) (t : Bytes) :
    HasTransferEncoding (h.encode ++ t) ↔
      (fieldValue h.fields (bytes "transfer-encoding")).isSome := by
  constructor
  · rintro ⟨h', t', heq, hsome⟩
    rw [(encode_append_inj heq).2.1]
    exact hsome
  · intro hsome
    exact ⟨h, t, rfl, hsome⟩

/-- **Trailing bytes** are treated the same in one call and in two exactly if the body
is chunked. -/
theorem treatsAlike_iff (limit : Nat) (r x : Bytes) (hx : x ≠ [])
    (hlen : (r ++ x).length ≤ stringMaxSize) (hlimit : (r ++ x).length + limit + 2 < sizeMod)
    (hr : DrivesToDone limit r) : TreatsAlike limit r x ↔ HasTransferEncoding r := by
  obtain ⟨u, s, hrun, hdone, hbuffer⟩ := hr
  have hlen' := List.length_append ▸ hlen
  have hlimit' := List.length_append ▸ hlimit
  have hfresh : RequestSound (.fresh limit) :=
    fresh_sound (s := []) (Nat.zero_le _) (by simp only [List.length_nil]; omega)
  have hsr : RequestSound ((HttpRequest.fresh limit).receive r) :=
    fresh_sound (by omega) (by omega)
  have hsrx : RequestSound ((HttpRequest.fresh limit).receive (r ++ x)) := fresh_sound hlen hlimit
  -- two calls: the second one throws
  have htwo : ([r, x].forM HttpRequest.parse).run (.fresh limit) =
      .error (.responseStatus .kBadRequest) (s.receive x) := by
    show (HttpRequest.parse r >>= fun _ => HttpRequest.parse x >>= fun _ => pure ()).run _ = _
    rw [EStateM.run_bind, hrun]
    dsimp only
    rw [EStateM.run_bind, parse_of_done hdone (by rw [hbuffer, List.length_nil]; omega)]
  unfold TreatsAlike
  rw [htwo]
  -- one call: it goes on from where the head ends
  obtain ⟨o, hruns, hresult⟩ := parse_implements _ r hfresh hsr
  have hruns := request_runs_done hruns (hresult.symm.trans hrun) hdone
  cases hruns with
  | done hstep => exact absurd hstep headerStep_done
  | @next _ s1 _ hstep hrest =>
      have hsound := hsr.headerStep rfl hstep
      have hnext : requestConsumer.step ((HttpRequest.fresh limit).receive (r ++ x)) =
          .next (s1.receive x) := by
        rw [← receive_append]
        exact step_receive_next hsr hstep
      have hsoundx := requestConsumer.sound_next hsrx hnext
      obtain ⟨h, t, hreadable, rfl, name, port, length, keep, -, hframed, rfl⟩ := headerStep_fresh hstep
      rw [hasTransferEncoding_encode]
      rcases hte : fieldValue h.fields (bytes "transfer-encoding") with - | v
      · -- the rest stays in the buffer
        rw [hte] at hframed
        have hall := Runs.next hnext (unchunked_trailing rfl hframed.nonneg hrest x)
        rw [parse_implements.run_eq hfresh hsrx hall]
        refine iff_of_false (fun h => ?_) (by decide)
        cases h
      · rw [hte] at hframed
        have hlength : length = -1 := hframed.of_some
        subst hlength
        obtain ⟨u, hu⟩ := chunked_trailing hsound hx hsoundx
          (.of_length rfl (show ¬ (-1 : Int) ≥ 0 by decide)) hrest
        rw [parse_implements.run_eq hfresh hsrx (.next hnext hu)]
        exact iff_of_true (.refused _ _) rfl

/-- A chunked request. -/
theorem treatsAlike_iff_chunked :
    TreatsAlike 1024
        (bytes "POST / HTTP/1.1\r\nHost: a\r\nTransfer-Encoding: chunked\r\n\r\n0\r\n\r\n") (bytes "x") ↔
      HasTransferEncoding
        (bytes "POST / HTTP/1.1\r\nHost: a\r\nTransfer-Encoding: chunked\r\n\r\n0\r\n\r\n") :=
  treatsAlike_iff _ _ _ (by decide) (by decide) (by decide) (by decide +kernel)

/-- Behind a request without a body, the two ways differ. -/
theorem treatsAlike_fails :
    ¬ ∀ r x : Bytes, (r ++ x).length ≤ stringMaxSize → x ≠ [] → DrivesToDone kMaxPayloadSize r →
      TreatsAlike kMaxPayloadSize r x := by
  intro h
  have halike := h (bytes "GET / HTTP/1.1\r\nHost: a\r\n\r\n") (bytes "x") (by decide) (by decide)
    (by decide +kernel)
  exact absurd halike.isOk_eq (by decide +kernel)

end Webserv
