/-
Webserv/HttpRequest/Framing.lean

Which header fields decide the framing of an accepted request.

The header map is keyed by the lower-cased names, so that is how names are
compared: at most one field of an accepted head is named `content-length` or
`transfer-encoding`, and that one decides.  A space is a character of the name like
any other, and `Content-Length : 5` is no `Content-Length`.
-/
import Webserv.HttpRequest.HeadSound
import Webserv.HttpRequest.Segmentation

namespace Webserv

/-! ### Accepted heads -/

/-- The header map of a fresh request behind the lines of a head. -/
theorem afterLines_getElem? {h : RequestHead} (hdistinct : DistinctNames h.fields) {r : HttpRequest}
    (hr : r.headers = ∅) (key : Bytes) :
    (r.afterLines h).headers[key]? = fieldValue h.fields key := by
  rw [show (r.afterLines h).headers = storeFields r.headers h.fields from rfl,
    storeFields_getElem? hdistinct, hr]
  simp

/-- **What the header phase accepts**, on a request that has no header yet. -/
theorem headerStep_new {r s : HttpRequest} (hnew : r.headers = ∅) (hstep : headerStep r = .next s) :
    ∃ (h : RequestHead) (t : Bytes), h.Readable ∧ r.buffer = h.encode ++ t ∧
      ∃ name port length keep,
        (∃ v, fieldValue h.fields (bytes "host") = some v ∧ hostPortOf v = some port) ∧
        Framed (fieldValue h.fields (bytes "content-length"))
          (fieldValue h.fields (bytes "transfer-encoding")) r.maxBodySizeLimit length ∧
        s = { r.afterLines h with
          hostName := name, hostPort := port, contentLength := length, keepAlive := keep,
          buffer := t, state := .kBody } := by
  obtain ⟨i, q, s', hi, hrun, rfl⟩ := headerStep_next hstep
  obtain ⟨b, hbuffer⟩ : ∃ b, r.buffer = b := ⟨_, rfl⟩
  rw [hbuffer] at hrun hi ⊢
  obtain ⟨e, s, herror, -⟩ | ⟨h, t, hreadable, rfl, hvalidate⟩ := consumeRequestHead_cases b hnew
  · rw [hrun] at herror
    cases herror
  · refine ⟨h, t, hreadable, rfl, ?_⟩
    have hend : i = h.encode.length := by
      rw [findEndOfHeader_encode] at hi
      exact (Option.some.inj hi).symm
    have hspec := validateHeaders_read hreadable.short (r.afterLines h) _ rfl
    rw [hvalidate] at hrun
    rcases hres : (validateHeaders (encodeFields h.fields).length).run (r.afterLines h)
      with ⟨u, s⟩ | ⟨e, s⟩
    · rw [hres] at hrun hspec
      cases hrun
      obtain ⟨v, name, port, length, keep, hhost, -, hport, hframed, rfl⟩ := hspec
      rw [afterLines_getElem? hreadable.distinct hnew] at hhost
      unfold HttpRequest.FramedBy at hframed
      rw [afterLines_getElem? hreadable.distinct hnew, afterLines_getElem? hreadable.distinct hnew,
        show (r.afterLines h).maxBodySizeLimit = r.maxBodySizeLimit from rfl] at hframed
      refine ⟨name, port, length, keep, ⟨v, hhost, hport⟩, hframed, ?_⟩
      have hdrop : (r.afterLines h).buffer.drop i = q := by
        show r.buffer.drop i = q
        rw [hbuffer, hend, List.drop_left]
      rw [← hdrop]
    · rw [hres] at hrun
      cases hrun

/-- What it accepts on a fresh request. -/
theorem headerStep_fresh {limit : Nat} {b : Bytes} {s : HttpRequest}
    (hstep : headerStep ((HttpRequest.fresh limit).receive b) = .next s) :
    ∃ (h : RequestHead) (t : Bytes), h.Readable ∧ b = h.encode ++ t ∧
      ∃ name port length keep,
        (∃ v, fieldValue h.fields (bytes "host") = some v ∧ hostPortOf v = some port) ∧
        Framed (fieldValue h.fields (bytes "content-length"))
          (fieldValue h.fields (bytes "transfer-encoding")) limit length ∧
        s = { ((HttpRequest.fresh limit).receive b).afterLines h with
          hostName := name, hostPort := port, contentLength := length, keepAlive := keep,
          buffer := t, state := .kBody } := headerStep_new rfl hstep

/-- `AdvanceHeader` accepts the header section at the start of `b`. -/
def Accepts (limit : Nat) (b : Bytes) (s : HttpRequest) : Prop :=
  advanceHeader.run ((HttpRequest.fresh limit).receive b) = .ok true s

theorem Accepts.headerStep {limit : Nat} {b : Bytes} {s : HttpRequest} (h : Accepts limit b s) :
    Webserv.headerStep ((HttpRequest.fresh limit).receive b) = .next s := by
  rw [Accepts, advanceHeader_run] at h
  rcases hstep : Webserv.headerStep ((HttpRequest.fresh limit).receive b) with t | - | t | ⟨e, t⟩
  · rw [hstep] at h
    cases h
    rfl
  · rw [hstep] at h
    cases h
  · exact absurd hstep headerStep_done
  · rw [hstep] at h
    cases h

/-! ### Framing fields -/

/-- The two names that frame a body. -/
def isFramingName (name : Bytes) : Bool :=
  name == bytes "content-length" || name == bytes "transfer-encoding"

/-- What the framing fields say: the one there is gives `length`, and without one it
is 0. -/
def GiveLength (key : Bytes → Bytes) (length : Int) : List HeaderField → Prop
  | [] => length = 0
  | [f] =>
      if key f.name = bytes "content-length" then strToLong f.value = some length
      else f.value = bytes "chunked" ∧ length = -1
  | _ :: _ :: _ => False

instance (key : Bytes → Bytes) (length : Int) : ∀ fields, Decidable (GiveLength key length fields)
  | [] => inferInstanceAs (Decidable (_ = _))
  | [f] => inferInstanceAs (Decidable (if key f.name = _ then _ else _))
  | _ :: _ :: _ => inferInstanceAs (Decidable False)

/-- At most one field has a framing name, as `key` reads names, and `length` is the
`content_length_` it gives, or 0 if there is none. -/
def DecidesFraming (key : Bytes → Bytes) (fields : List HeaderField) (length : Int) : Prop :=
  GiveLength key length (fields.filter fun f => isFramingName (key f.name))

instance (key : Bytes → Bytes) (fields : List HeaderField) (length : Int) :
    Decidable (DecidesFraming key fields length) := inferInstanceAs (Decidable (GiveLength _ _ _))

/-- A name without its spaces, in lower case. -/
def squeeze (name : Bytes) : Bytes := toLowerAscii (name.filter (· ≠ SP))

theorem filter_eq_nil_of_fieldValue {fields : List HeaderField} {key : Bytes}
    (h : fieldValue fields key = none) : ∀ f ∈ fields, toLowerAscii f.name ≠ key := by
  intro f hf heq
  induction fields with
  | nil => exact nomatch hf
  | cons g gs ih =>
      rw [fieldValue_cons] at h
      split_ifs at h with hg
      rcases List.mem_cons.mp hf with rfl | hf
      · exact hg heq
      · exact ih h hf

/-- The one field that a name finds. -/
theorem eq_of_fieldValue {fields : List HeaderField} (hdistinct : DistinctNames fields)
    {key v : Bytes} (h : fieldValue fields key = some v) :
    ∃ f, toLowerAscii f.name = key ∧ f.value = v ∧
      fields.filter (fun f => toLowerAscii f.name == key) = [f] := by
  induction fields with
  | nil => cases h
  | cons g gs ih =>
      have hnodup := List.nodup_cons.mp hdistinct
      rw [fieldValue_cons] at h
      split_ifs at h with hg
      · cases h
        refine ⟨g, hg, rfl, ?_⟩
        rw [List.filter_cons_of_pos (by simpa using hg)]
        congr 1
        refine List.filter_eq_nil_iff.mpr fun f hf heq => hnodup.1 ?_
        show toLowerAscii g.name ∈ _
        rw [hg, ← eq_of_beq heq]
        exact List.mem_map_of_mem hf
      · obtain ⟨f, hf, hv, hfilter⟩ := ih hnodup.2 h
        exact ⟨f, hf, hv, by rw [List.filter_cons_of_neg (by simpa using hg), hfilter]⟩

/-- Fields that do not have one of the names are framing fields only by the other. -/
theorem filter_framing {fields : List HeaderField} {a b : Bytes}
    (hab : ∀ name, isFramingName name = (name == a || name == b))
    (h : fieldValue fields a = none) :
    fields.filter (fun f => isFramingName (toLowerAscii f.name)) =
      fields.filter fun f => toLowerAscii f.name == b := by
  refine List.filter_congr fun f hf => ?_
  have hne := filter_eq_nil_of_fieldValue h f hf
  rw [hab, beq_false_of_ne hne, Bool.false_or]

/-- **The framing of an accepted request is decided by its one framing field**, if it
has one. -/
theorem framed_decides {fields : List HeaderField} (hdistinct : DistinctNames fields) {limit : Nat}
    {length : Int} (h : Framed (fieldValue fields (bytes "content-length"))
      (fieldValue fields (bytes "transfer-encoding")) limit length) :
    DecidesFraming toLowerAscii fields length := by
  have hne : bytes "transfer-encoding" ≠ bytes "content-length" := by decide +kernel
  unfold Framed at h
  unfold DecidesFraming
  rcases hcl : fieldValue fields (bytes "content-length") with - | v
    <;> rcases hte : fieldValue fields (bytes "transfer-encoding") with - | v'
    <;> simp only [hcl, hte] at h
  · have hnil : fields.filter (fun f => isFramingName (toLowerAscii f.name)) = [] := by
      rw [filter_framing (fun _ => rfl) hcl]
      exact List.filter_eq_nil_iff.mpr fun f hf heq =>
        filter_eq_nil_of_fieldValue hte f hf (eq_of_beq heq)
    rw [hnil]
    exact h
  · obtain ⟨f, hf, rfl, hfilter⟩ := eq_of_fieldValue hdistinct hte
    rw [filter_framing (fun _ => rfl) hcl, hfilter]
    simpa [GiveLength, hf, hne] using h
  · obtain ⟨f, hf, rfl, hfilter⟩ := eq_of_fieldValue hdistinct hcl
    rw [filter_framing (fun name => Bool.or_comm _ _) hte, hfilter]
    simpa [GiveLength, hf] using h.1

/-- **Request framing**: at most one header line of an accepted header section is
named `content-length` or `transfer-encoding`, in any case, and it decides the
framing; without one there is no body. -/
theorem advanceHeader_decidesFraming {limit : Nat} {b : Bytes} {s : HttpRequest}
    (h : Accepts limit b s) :
    ∃ (head : RequestHead) (t : Bytes), b = head.encode ++ t ∧
      DecidesFraming toLowerAscii head.fields s.contentLength := by
  obtain ⟨head, t, hreadable, rfl, name, port, length, keep, -, hframed, rfl⟩ :=
    headerStep_fresh h.headerStep
  exact ⟨head, t, rfl, framed_decides hreadable.distinct hframed⟩

/-- A `DELETE` with one framing field. -/
def framedHead (name value : Bytes) (hname : ∀ c ∈ name, isValidHeaderChar c = true ∧ c ≠ COLON)
    (hvalue : ∀ c ∈ value, isValidHeaderChar c = true) : RequestHead where
  requestLine :=
    ⟨.kDelete, bytes "/x", none, bytes "HTTP/1.1", by decide, by decide, by decide +kernel,
      noQuery_char, http11_known, by decide +kernel⟩
  fields := [⟨bytes "Host", bytes "h", host_char, by decide +kernel⟩,
    ⟨name, value, hname, hvalue⟩]

theorem accepts_of_run {limit : Nat} {b : Bytes} {length : Int}
    (h : (match advanceHeader.run ((HttpRequest.fresh limit).receive b) with
      | .ok true s => decide (s.contentLength = length)
      | _ => false) = true) : ∃ s, Accepts limit b s ∧ s.contentLength = length := by
  rcases hrun : advanceHeader.run ((HttpRequest.fresh limit).receive b) with ⟨- | -, s⟩ | ⟨e, s⟩
  · simp [hrun] at h
  · exact ⟨s, hrun, by simpa [hrun] using h⟩
  · simp [hrun] at h

theorem advanceHeader_decidesFraming_post :
    ∃ (head : RequestHead) (t : Bytes),
      bytes "POST / HTTP/1.1\r\nHost: a\r\nContent-Length: 5\r\n\r\nhello" = head.encode ++ t ∧
      DecidesFraming toLowerAscii head.fields 5 := by
  obtain ⟨s, haccepts, hlength⟩ := @accepts_of_run 1024
    (bytes "POST / HTTP/1.1\r\nHost: a\r\nContent-Length: 5\r\n\r\nhello") 5 (by decide +kernel)
  rw [← hlength]
  exact advanceHeader_decidesFraming haccepts

/-- Without its spaces, a name may be that of a framing field which is not looked at. -/
theorem advanceHeader_decidesFraming_fails :
    ¬ ∀ (limit : Nat) (b : Bytes) (s : HttpRequest), Accepts limit b s →
      ∃ (head : RequestHead) (t : Bytes), b = head.encode ++ t ∧
        DecidesFraming squeeze head.fields s.contentLength := by
  intro h
  obtain ⟨head, hhead⟩ : ∃ head, head = framedHead (bytes "Content-Length ") (bytes "5")
    (by decide +kernel) (by decide +kernel) := ⟨_, rfl⟩
  obtain ⟨s, haccepts, hlength⟩ := @accepts_of_run 1024 head.encode 0 (by
    rw [hhead]
    decide +kernel)
  obtain ⟨head', t, heq, hdecides⟩ := h 1024 head.encode s haccepts
  obtain ⟨-, hfields, -⟩ := encode_append_inj (t := []) ((List.append_nil _).trans heq)
  rw [hlength, ← hfields, hhead] at hdecides
  exact absurd hdecides (by decide +kernel)

end Webserv
