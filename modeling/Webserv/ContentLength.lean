/-
Webserv/ContentLength.lean

The length a program is told, against the length of the body it is sent.

`CONTENT_LENGTH` is the text of the request's `Content-Length` field.  Behind a chunked
body there is no such field, and the text may be any that `StrToLong` reads: with a sign,
white space or zeros in front of the number.
-/
import Webserv.CgiExecutor
import Webserv.HttpRequest.Framing
import Webserv.HttpRequest.LimitInvariant
import Webserv.HttpRequest.NumericField

namespace Webserv

open EStateM (Triple)

/-! ### The body phase leaves the head as it is -/

/-- The header phase is over, and `s` has kept the head of `r`. -/
structure SameHead (r s : HttpRequest) : Prop where
  headers : s.headers = r.headers
  contentLength : s.contentLength = r.contentLength
  state : s.state ≠ .kHeader

/-- A function of the body phase that keeps the head, as long as it does not throw. -/
def KeepsHead {α : Type} (x : RequestM α) : Prop :=
  ∀ r, Triple (SameHead r) x (fun _ => SameHead r) fun _ _ => True

namespace KeepsHead

variable {α β : Type}

theorem pure (a : α) : KeepsHead (pure a) := fun _ => .pure fun _ h => h

theorem throw (e : Exception) : KeepsHead (throw e : RequestM α) :=
  fun _ => .throw fun _ _ => trivial

theorem get : KeepsHead get := fun _ _ hs => hs

theorem bind {x : RequestM α} {k : α → RequestM β} (hx : KeepsHead x) (hk : ∀ a, KeepsHead (k a)) :
    KeepsHead (x >>= k) := fun r => (hx r).bind fun a => hk a r

theorem ite {c : Prop} [Decidable c] {x y : RequestM α} (hx : KeepsHead x) (hy : KeepsHead y) :
    KeepsHead (if c then x else y) := fun r => .ite (fun _ => hx r) fun _ => hy r

theorem call (x : Except Exception α) : KeepsHead (call x) := by
  cases x with
  | ok a => exact .pure a
  | error e => exact .throw e

theorem modify {f : HttpRequest → HttpRequest}
    (hf : ∀ s, (f s).headers = s.headers ∧ (f s).contentLength = s.contentLength ∧
      ((f s).state = s.state ∨ (f s).state = .kDone)) : KeepsHead (modify f) := by
  intro r
  apply Triple.update
  intro s hs
  obtain ⟨hheaders, hlength, hstate⟩ := hf s
  refine ⟨hheaders.trans hs.headers, hlength.trans hs.contentLength, ?_⟩
  rcases hstate with h | h
  · rw [h]
    exact hs.state
  · rw [h]
    exact ParserState.noConfusion

end KeepsHead

theorem advanceContentLengthBody_keepsHead : KeepsHead advanceContentLengthBody := by
  intro r
  refine .get_bind fun s hs => .ite (fun _ => .throw fun _ _ => trivial) fun _ => .ite
    (fun _ => ?_) fun _ => .ite (fun _ => .pure ?_) fun _ => ?_
  · rintro t rfl
    exact ⟨hs.headers, hs.contentLength, ParserState.noConfusion⟩
  · rintro t rfl
    exact hs
  · rintro t rfl
    exact ⟨hs.headers, hs.contentLength, ParserState.noConfusion⟩

theorem validateAndSkipCRLF_keepsHead (pos : Nat) : KeepsHead (validateAndSkipCRLF pos) :=
  .bind .get fun _ => .ite (.pure _) (.ite (.throw _) (.pure _))

theorem parseChunkSize_keepsHead (pos : Nat) : KeepsHead (parseChunkSize pos) :=
  .bind .get fun _ => .bind (.call _) fun _ => .ite (.pure _)
    (.bind (validateAndSkipCRLF_keepsHead _) fun _ => .pure _)

theorem validateFinalCRLF_keepsHead : KeepsHead validateFinalCRLF := by
  refine .bind .get fun _ => .ite (.throw _) (.bind (validateAndSkipCRLF_keepsHead _) fun skipped => ?_)
  cases skipped with
  | none => exact .pure _
  | some pos =>
      exact .bind (.modify fun _ => ⟨rfl, rfl, .inl rfl⟩) fun _ => .ite (.throw _)
        (.bind (.modify fun _ => ⟨rfl, rfl, .inr rfl⟩) fun _ => .pure _)

theorem appendChunkData_keepsHead (pos size : Nat) : KeepsHead (appendChunkData pos size) :=
  .bind .get fun _ => .ite (.throw _) (.ite (.pure _) (.ite (.throw _) (.bind (.call _) fun _ =>
    .bind (.modify fun _ => ⟨rfl, rfl, .inl rfl⟩) fun _ => validateAndSkipCRLF_keepsHead _)))

theorem readSizeLine_keepsHead : KeepsHead readSizeLine := by
  refine .bind .get fun _ => .ite (.bind (parseChunkSize_keepsHead _) fun size => ?_) (.pure _)
  rcases size with - | ⟨pos, size⟩
  · exact .pure _
  · exact .bind (.modify fun _ => ⟨rfl, rfl, .inl rfl⟩) fun _ => .pure _

theorem consumeChunk_keepsHead : KeepsHead consumeChunk := by
  refine .bind .get fun _ => .ite (.bind validateFinalCRLF_keepsHead fun _ => .ite (.pure _)
    (.bind (.modify fun _ => ⟨rfl, rfl, .inr rfl⟩) fun _ => .pure _))
    (.bind (appendChunkData_keepsHead _ _) fun pos => ?_)
  cases pos with
  | none => exact .pure _
  | some pos => exact .bind (.modify fun _ => ⟨rfl, rfl, .inl rfl⟩) fun _ => .pure _

theorem chunkLoop_keepsHead (fuel : Nat) : KeepsHead (chunkLoop fuel) := by
  induction fuel with
  | zero => exact .throw _
  | succ fuel ih =>
      refine .bind readSizeLine_keepsHead fun _ => .ite (.pure _)
        (.bind consumeChunk_keepsHead fun finished => ?_)
      cases finished with
      | none => exact ih
      | some finished => exact .pure _

theorem advanceBody_keepsHead : KeepsHead advanceBody := by
  have hselect : KeepsHead selectBodyFraming :=
    .bind .get fun _ => .ite (.bind (.modify fun _ => ⟨rfl, rfl, .inr rfl⟩) fun _ => .pure _)
      (.ite advanceContentLengthBody_keepsHead (.bind .get fun _ => .ite (.throw _)
        (.ite (.pure _) (chunkLoop_keepsHead _))))
  exact fun r => EStateM.Triple.tryCatch (hselect r) fun _ => .throw fun _ _ => trivial

/-! ### The head of what has been received -/

/-- Of the received bytes: the header phase goes on with them, or they begin with the head
whose fields `r` has. -/
def Headed (limit : Nat) (b : Bytes) (r : HttpRequest) : Prop :=
  r = (HttpRequest.fresh limit).receive b ∨
    r.state ≠ .kHeader ∧ ∃ (head : RequestHead) (t : Bytes), b = head.encode ++ t ∧
      (∀ key, r.headers[key]? = fieldValue head.fields key) ∧
      Framed (fieldValue head.fields (bytes "content-length"))
        (fieldValue head.fields (bytes "transfer-encoding")) limit r.contentLength

theorem advanceHeader_headed (limit : Nat) (b : Bytes) :
    Triple (fun r => Headed limit b r ∧ r.state = .kHeader) advanceHeader
      (fun found r => Headed limit b r ∧ (found = true → r.state = .kBody)) fun _ _ => True := by
  rintro r ⟨rfl | ⟨hstate, -⟩, hheader⟩
  · rw [advanceHeader_run]
    rcases hstep : headerStep ((HttpRequest.fresh limit).receive b) with s | - | s | ⟨e, s⟩
    · obtain ⟨head, t, hreadable, hb, name, port, length, keep, -, hframed, rfl⟩ :=
        headerStep_fresh hstep
      refine ⟨.inr ⟨ParserState.noConfusion, head, t, hb, fun key => ?_, hframed⟩, fun _ => rfl⟩
      exact afterLines_getElem? hreadable.distinct rfl key
    · exact ⟨.inl rfl, fun h => absurd h Bool.false_ne_true⟩
    · exact absurd hstep headerStep_done
    · trivial
  · exact absurd hheader hstate

theorem Headed.keeps {limit : Nat} {b : Bytes} {r s : HttpRequest} (h : Headed limit b r)
    (hstate : r.state ≠ .kHeader) (hs : SameHead r s) : Headed limit b s := by
  rcases h with rfl | ⟨-, head, t, hb, hfields, hframed⟩
  · exact absurd rfl hstate
  · refine .inr ⟨hs.state, head, t, hb, ?_, ?_⟩
    · rwa [hs.headers]
    · rwa [hs.contentLength]

theorem Headed.receive {limit : Nat} {b p : Bytes} {r : HttpRequest} (h : Headed limit b r) :
    Headed limit (b ++ p) (r.receive p) := by
  rcases h with rfl | ⟨hstate, head, t, rfl, hfields, hframed⟩
  · exact .inl (receive_append _ _ _)
  · exact .inr ⟨hstate, head, t ++ p, List.append_assoc _ _ _, hfields, hframed⟩

theorem appendToBuffer_headed (limit : Nat) (b p : Bytes) :
    Triple (Headed limit b) (appendToBuffer p) (fun _ => Headed limit (b ++ p))
      fun _ _ => True := by
  refine .get_bind fun r hr => ?_
  unfold stringAppend
  split_ifs
  · refine .pure_bind (.update ?_)
    rintro s rfl
    exact hr.receive
  · exact .throw_bind fun _ _ => trivial

theorem advanceBody_headed (limit : Nat) (b : Bytes) :
    Triple (fun r => Headed limit b r ∧ r.state = .kBody) advanceBody
      (fun _ => Headed limit b) fun _ _ => True := by
  rintro r ⟨hr, hbody⟩
  have hstate : r.state ≠ .kHeader := by
    rw [hbody]
    exact ParserState.noConfusion
  have hkept := advanceBody_keepsHead r r ⟨rfl, rfl, hstate⟩
  rcases hrun : advanceBody.run r with ⟨finished, s⟩ | ⟨e, s⟩
  · rw [hrun] at hkept
    exact hr.keeps hstate hkept
  · trivial

/-- **A call of `Parse` that returns** leaves the head of what has been received. -/
theorem parse_headed {limit : Nat} (hlimit : limit < sizeMod) (b p : Bytes) :
    Triple (fun r => Headed limit b r ∧ WithinLimit limit r) (HttpRequest.parse p)
      (fun _ r => Headed limit (b ++ p) r ∧ WithinLimit limit r) fun _ _ => True := by
  have happend := (appendToBuffer_headed limit b p).both (appendToBuffer_withinLimit limit p)
  refine (happend.imp (fun _ h => h) (fun _ _ h => h) fun _ _ _ => trivial).bind fun _ =>
    @parseLoop_triple _ HttpRequest.virtuals
      (fun r => Headed limit (b ++ p) r ∧ WithinLimit limit r) (fun _ _ => True) ?_ ?_
      (.throw fun _ _ => trivial) (fun _ _ => trivial) parseFuel
  · refine ((advanceHeader_headed limit (b ++ p)).both (advanceHeader_withinLimit limit)).imp
      (fun r h => ⟨⟨h.1.1, h.2⟩, h.1.2, h.2⟩) (fun found r h => ⟨⟨h.1.1, h.2.1⟩, h.1.2⟩)
      fun _ _ _ => trivial
  · refine ((advanceBody_headed limit (b ++ p)).both (advanceBody_withinLimit hlimit)).imp
      (fun r h => ⟨⟨h.1.1, h.2⟩, h.1.2, h.2⟩) (fun finished r h => ⟨⟨h.1, h.2.1⟩, h.2.2⟩)
      fun _ _ _ => trivial

/-- The calls of `Parse` on the pieces have all returned, and the last one has read the
request to its end. -/
def Delivered (limit : Nat) (pieces : List Bytes) (r : HttpRequest) : Prop :=
  (pieces.forM HttpRequest.parse).run (.fresh limit) = .ok () r ∧ r.state = .kDone

theorem forM_headed {limit : Nat} (hlimit : limit < sizeMod) (pieces : List Bytes) (b : Bytes) :
    Triple (fun r => Headed limit b r ∧ WithinLimit limit r) (pieces.forM HttpRequest.parse)
      (fun _ r => Headed limit (b ++ pieces.flatten) r ∧ WithinLimit limit r)
      fun _ _ => True := by
  induction pieces generalizing b with
  | nil =>
      rw [List.flatten_nil, List.append_nil]
      exact .pure fun _ h => h
  | cons p ps ih =>
      have hrest := ih (b ++ p)
      rw [List.append_assoc] at hrest
      exact (parse_headed hlimit b p).bind fun _ => hrest

/-! ### The length in the environment -/

/-- A numeral that has been read is printed as it was written exactly if it is plain. -/
theorem eq_natToString_iff {v : Bytes} {n : Nat} (h : strToLong v = some (n : Int)) :
    v = natToString n ↔ IsPlainNumeral v := by
  constructor
  · rintro rfl
    exact isPlainNumeral_natToString n
  · intro hplain
    obtain ⟨k, hnumeral, hk⟩ := strToLong_plain (plain_of_digits hplain.digits) h
    have hk : n = k := Int.ofNat.inj hk
    rw [hk, ← hnumeral.2.2, natToString_decimalVal hplain]

/-- **The length a program is told** is the plain numeral of the body's length exactly if
the request has a `Content-Length` field that says so in plain digits. -/
theorem contentLength_iff {limit : Nat} (hlimit : limit < sizeMod) {pieces : List Bytes}
    {r : HttpRequest} (h : Delivered limit pieces r) (hbody : r.body ≠ []) :
    ∃ (head : RequestHead) (t : Bytes), pieces.flatten = head.encode ++ t ∧
      ∀ (loc : Location) (scriptPath : Bytes),
        (CgiExecutor.construct r loc scriptPath).metaVars[bytes "CONTENT_LENGTH"]? =
            some (some (natToString r.body.length)) ↔
          ∃ v, fieldValue head.fields (bytes "content-length") = some v ∧ IsPlainNumeral v := by
  obtain ⟨hrun, hdone⟩ := h
  have hfresh : Headed limit [] (.fresh limit) ∧ WithinLimit limit (.fresh limit) :=
    ⟨.inl (receive_nil _).symm, fresh_withinLimit limit⟩
  obtain ⟨hheaded, hwithin⟩ := (forM_headed hlimit pieces []).of_ok hfresh hrun
  rcases hheaded with rfl | ⟨-, head, t, htext, hfields, hframed⟩
  · cases hdone
  · refine ⟨head, t, htext, fun loc scriptPath => ?_⟩
    rw [CgiExecutor.construct, (initializeMetaVars_getElem? r loc _).1, hfields,
      Option.some.injEq]
    unfold Framed at hframed
    rcases hv : fieldValue head.fields (bytes "content-length") with - | v
    · refine iff_of_false (by simp) ?_
      rintro ⟨v, hv', -⟩
      cases hv'
    · rcases hte : fieldValue head.fields (bytes "transfer-encoding") with - | te
      · rw [hv, hte] at hframed
        obtain ⟨hread, hnonneg, -⟩ := hframed
        rw [← hwithin.done hdone hnonneg] at hread
        rw [Option.some.injEq, eq_natToString_iff hread]
        constructor
        · exact fun hplain => ⟨v, rfl, hplain⟩
        · rintro ⟨v', hv', hplain⟩
          rwa [Option.some.inj hv']
      · rw [hv, hte] at hframed
        exact hframed.elim

theorem delivered_of_returned {limit : Nat} {pieces : List Bytes} {P : HttpRequest → Prop}
    (h : ((pieces.forM HttpRequest.parse).run (.fresh limit)).Returned fun r =>
      r.state = .kDone ∧ P r) : ∃ r, Delivered limit pieces r ∧ P r := by
  obtain ⟨u, r, hrun, hdone, hr⟩ := h
  exact ⟨r, ⟨hrun, hdone⟩, hr⟩

/-- Three bytes behind a `Content-Length`, in two pieces. -/
theorem contentLength_iff_three :
    ∃ r : HttpRequest, r.body = bytes "abc" ∧
      ∃ (head : RequestHead) (t : Bytes),
        [bytes "POST / HTTP/1.1\r\nHost: a\r\nContent-Length: 3\r\n\r\na", bytes "bc"].flatten =
          head.encode ++ t ∧
        ∀ (loc : Location) (scriptPath : Bytes),
          (CgiExecutor.construct r loc scriptPath).metaVars[bytes "CONTENT_LENGTH"]? =
              some (some (natToString r.body.length)) ↔
            ∃ v, fieldValue head.fields (bytes "content-length") = some v ∧ IsPlainNumeral v := by
  obtain ⟨r, hdelivered, hbody⟩ := @delivered_of_returned 1024
    [bytes "POST / HTTP/1.1\r\nHost: a\r\nContent-Length: 3\r\n\r\na", bytes "bc"]
    (fun r => r.body = bytes "abc") (by decide +kernel)
  exact ⟨r, hbody, contentLength_iff (by decide) hdelivered (by rw [hbody]; decide)⟩

/-- Behind a chunked body there is no `CONTENT_LENGTH`. -/
theorem contentLength_fails :
    ¬ ∀ (limit : Nat) (pieces : List Bytes) (r : HttpRequest), limit < sizeMod →
      Delivered limit pieces r → r.body ≠ [] → ∀ (loc : Location) (scriptPath : Bytes),
        (CgiExecutor.construct r loc scriptPath).metaVars[bytes "CONTENT_LENGTH"]? =
          some (some (natToString r.body.length)) := by
  intro h
  obtain ⟨r, hdelivered, hbody, hnone⟩ := @delivered_of_returned 1024
    [bytes "POST / HTTP/1.1\r\nHost: a\r\nTransfer-Encoding: chunked\r\n\r\n3\r\nabc\r\n0\r\n\r\n"]
    (fun r => r.body = bytes "abc" ∧ r.headers[bytes "content-length"]? = none)
    (by decide +kernel)
  have htold := h 1024 _ r (by decide) hdelivered (by rw [hbody]; decide) {} []
  rw [CgiExecutor.construct, (initializeMetaVars_getElem? r _ _).1, hnone] at htold
  cases Option.some.inj htold

end Webserv
