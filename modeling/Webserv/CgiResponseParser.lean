/-
Webserv/CgiResponseParser.lean

`cgi::CgiResponseParser`: the output of a CGI program as a response.

It is a `StreamParser` that also accepts bare line feeds.  `ParseCgiResponse` gives
it the whole output in one call of `Parse`.
-/
import Webserv.HttpResponse
import Webserv.HttpRequest.HeadPhase

namespace Webserv

/-! ### The parser -/

/-- `cgi::CgiResponseParser`. -/
structure CgiResponseParser extends StreamParser where
  res : HttpResponse := .ofStatus .kOk

/-- A member function of `CgiResponseParser`. -/
abbrev CgiResponseM := EStateM Exception CgiResponseParser

/-- `CgiResponseParser::kMaxHeaderSize`. -/
def kMaxCgiHeaderSize : Nat := 8192

/-- `StoreHeader` for the key `Status`.  The number becomes an `int` by way of the
enumeration. -/
def storeStatus (res : HttpResponse) (value : Bytes) : Except Exception HttpResponse :=
  let statusStr := value.takeWhile (· ≠ SP)
  let reasonPhrase := (value.dropWhile (· ≠ SP)).drop 1
  match strToLong statusStr with
  | none => .error (.responseStatus .kBadGateway)
  | some code =>
      -- without a phrase the one of the table is taken
      if reasonPhrase = [] then .ok (res.setStatus (toInt code))
      else .ok (res.setStatusReason (toInt code) reasonPhrase)

/-- `StoreHeader`. -/
def storeCgiHeader (res : HttpResponse) (key value : Bytes) : Except Exception HttpResponse :=
  if key = bytes "Status" then storeStatus res value
  else if key = bytes "Location" then
    -- a redirect, unless another status than 200 has been set in front of it
    let res := if res.statusCode = Status.kOk.code then res.setStatus Status.kFound.code else res
    res.addHeader key value
  else res.addHeader key value

/-- The loop of `AdvanceHeader`, for at most `fuel` lines. -/
def storeCgiHeaderLines : Nat → Bytes → Nat → CgiResponseM Unit
  | 0, _, _ => throw .diverges
  | fuel + 1, req, totalLen => do
      if deref req = 0 ∨ isCRLF req ∨ isLF req then return
      else
        match readHeaderLine false req totalLen kMaxCgiHeaderSize with
        | .error e => throw e
        | .ok line =>
            match storeCgiHeader (← get).res line.key line.value with
            | .error e => throw e
            | .ok res =>
                modify fun p => { p with res := res }
                storeCgiHeaderLines fuel line.rest line.totalLen

/-- `CgiResponseParser::AdvanceHeader`. -/
def advanceCgiHeader : CgiResponseM Bool := do
  let p ← get
  match findEndOfHeader false p.buffer with
  | none => return false
  | some endOfHeader =>
      storeCgiHeaderLines (p.buffer.length + 1) p.buffer 0
      modify fun p => { p with buffer := p.buffer.drop endOfHeader, state := .kBody }
      return true

/-- `CgiResponseParser::AdvanceBody`. -/
def advanceCgiBody : CgiResponseM Bool := do
  modify fun p => { p with res := p.res.setBody p.buffer, buffer := [], state := .kDone }
  return true

/-- The virtual functions of `CgiResponseParser`. -/
def CgiResponseParser.virtuals : Virtuals CgiResponseParser where
  state p := p.state
  append data := do
    match stringAppend (← get).buffer data with
    | .ok buffer => modify fun p => { p with buffer := buffer }
    | .error e => throw e
  advanceHeader := advanceCgiHeader
  advanceBody := advanceCgiBody
  onInternalStateError := do
    modify fun p => { p with state := .kDone }
    throw (.responseStatus .kBadGateway)
  -- it does not throw, as that of a request does
  onExtraDataAfterDone := pure ()

/-- `cgi::ParseCgiResponse`. -/
def parseCgiResponse (cgiOutput : Bytes) : Except Exception HttpResponse :=
  match (parse CgiResponseParser.virtuals cgiOutput).run {} with
  | .error e _ => .error e
  | .ok _ p =>
      -- also behind a header that has not ended: what has been read so far counts
      if p.res.hasHeader (bytes "content-type") then .ok p.res
      else .error (.responseStatus .kBadGateway)

/-! ### What it throws -/

theorem breaksLine_of_valid {s : Bytes} (h : ∀ c ∈ s, isValidHeaderChar c = true) :
    breaksLine s = false := by
  simp [breaksLine, CR_notMem_of_valid h, LF_notMem_of_valid h]

theorem addHeader_throws (res : HttpResponse) {key value : Bytes}
    (hkey : ∀ c ∈ key, isValidHeaderChar c = true)
    (hvalue : ∀ c ∈ value, isValidHeaderChar c = true) : ThrowsStatus (res.addHeader key value) := by
  rw [HttpResponse.addHeader, breaksLine_of_valid hkey, breaksLine_of_valid hvalue]
  exact .ok _

theorem storeCgiHeader_throws (res : HttpResponse) {key value : Bytes}
    (hkey : ∀ c ∈ key, isValidHeaderChar c = true)
    (hvalue : ∀ c ∈ value, isValidHeaderChar c = true) :
    ThrowsStatus (storeCgiHeader res key value) := by
  refine .ite ?_ (.ite (addHeader_throws _ hkey hvalue) (addHeader_throws _ hkey hvalue))
  simp only [storeStatus]
  rcases strToLong _ with - | code
  · exact .error _
  · exact .ite (.ok _) (.ok _)

/-- The loop ends, since every line takes something of the text, and throws
nothing but statuses: a key or value that was read breaks no line. -/
theorem storeCgiHeaderLines_throws (fuel : Nat) {req : Bytes} (hfuel : req.length < fuel) (n : Nat)
    (p : CgiResponseParser) : ThrowsStatus ((storeCgiHeaderLines fuel req n).run p).toExcept := by
  induction fuel generalizing req n p with
  | zero => omega
  | succ fuel ih =>
      simp only [storeCgiHeaderLines, EStateM.run_ite]
      split
      · exact .ok _
      · rcases hline : readHeaderLine false req n kMaxCgiHeaderSize with e | line
        · obtain ⟨status, rfl⟩ := readHeaderLine_throws false req n kMaxCgiHeaderSize e hline
          exact .error status
        · obtain ⟨_, -, -, hkey, hvalue⟩ := readHeaderLine_ok hline
          have hstore := storeCgiHeader_throws p.res hkey hvalue
          have hlt := readHeaderLine_length_lt hline
          simp only [EStateM.run_bind, EStateM.run_get]
          rcases hres : storeCgiHeader p.res line.key line.value with e | res
          · obtain ⟨status, rfl⟩ := hstore e hres
            exact .error status
          · exact ih (by omega) _ _

theorem advanceCgiHeader_spec (p : CgiResponseParser) :
    ThrowsStatus (advanceCgiHeader.run p).toExcept ∧
      ∀ t, advanceCgiHeader.run p = .ok true t → t.state = .kBody := by
  simp only [advanceCgiHeader, EStateM.run_bind, EStateM.run_get]
  rcases findEndOfHeader false p.buffer with - | i
  · exact ⟨.ok _, fun t ht => by cases ht⟩
  · have hlines := storeCgiHeaderLines_throws _ (Nat.lt_succ_self p.buffer.length) 0 p
    simp only [EStateM.run_bind]
    rcases hrun : (storeCgiHeaderLines (p.buffer.length + 1) p.buffer 0).run p with ⟨u, t⟩ | ⟨e, t⟩
    · refine ⟨.ok _, fun s hs => ?_⟩
      cases hs
      rfl
    · rw [hrun] at hlines
      exact ⟨hlines, fun s hs => by cases hs⟩

/-- **`ParseCgiResponse` throws nothing but statuses.** -/
theorem parseCgiResponse_throws {cgiOutput : Bytes} (hlen : cgiOutput.length ≤ stringMaxSize) :
    ThrowsStatus (parseCgiResponse cgiOutput) := by
  have happend : stringAppend [] cgiOutput = .ok cgiOutput := if_pos (by simpa using hlen)
  have hparse : ThrowsStatus ((parse CgiResponseParser.virtuals cgiOutput).run {}).toExcept := by
    obtain ⟨hthrows, hbody⟩ := advanceCgiHeader_spec { buffer := cgiOutput }
    simp only [parse, parseFuel, parseLoop, CgiResponseParser.virtuals, EStateM.run_bind,
      EStateM.run_get, happend, EStateM.run_modify]
    rcases hrun : advanceCgiHeader.run { buffer := cgiOutput } with ⟨- | -, t⟩ | ⟨e, t⟩
    · exact .ok _
    · simp [hbody t hrun, advanceCgiBody]
      exact .ok _
    · rw [hrun] at hthrows
      exact hthrows
  unfold parseCgiResponse
  rcases hrun : (parse CgiResponseParser.virtuals cgiOutput).run {} with ⟨u, p⟩ | ⟨e, p⟩
  · exact .ite (.ok _) (.error _)
  · rw [hrun] at hparse
    intro e' he
    cases he
    exact hparse e rfl

end Webserv
