/-
Webserv/CgiFormat.lean

The output of a CGI program as a text, and what `ParseCgiResponse` makes of it.

The text is a list of header lines, each with its own end of line, followed by what
the loop of `AdvanceHeader` stops at.  A text has at most one such reading
(`cgiText_append_inj`), and the loop finds it.  Where the body begins is another
question: `FindEndOfHeader` answers it without looking at the lines.
-/
import Webserv.CgiResponseParser
import Webserv.HttpRequest.HeadSound

namespace Webserv

/-! ### The text -/

/-- The end of a line. -/
inductive LineEnd
  | crlf | lf
  deriving DecidableEq, Repr

def LineEnd.text : LineEnd → Bytes
  | .crlf => CRLF
  | .lf => [LF]

/-- A header line with its end. -/
structure CgiLine extends HeaderField where
  eol : LineEnd

def CgiLine.text (l : CgiLine) : Bytes := l.line ++ l.eol.text

/-- The text of header lines. -/
def cgiText (lines : List CgiLine) : Bytes := (lines.map CgiLine.text).flatten

/-- What the loop over the lines stops at. -/
def EndsLines (rest : Bytes) : Prop := deref rest = 0 ∨ isCRLF rest = true ∨ isLF rest = true

/-- What the lines do to a response. -/
def storeCgiLines (res : HttpResponse) : List CgiLine → Except Exception HttpResponse
  | [] => .ok res
  | l :: ls => do
      let res ← storeCgiHeader res l.name l.value
      storeCgiLines res ls

theorem addHeader_field (res : HttpResponse) (f : HeaderField) :
    res.addHeader f.name f.value =
      .ok { res with headers := res.headers.insert (toLowerAscii f.name) f.value } := by
  have hname := breaksLine_of_valid fun c hc => (f.name_char c hc).1
  rw [HttpResponse.addHeader, hname, breaksLine_of_valid f.value_char]
  rfl

theorem cgiText_cons_append (l : CgiLine) (ls : List CgiLine) (t : Bytes) :
    cgiText (l :: ls) ++ t = l.line ++ l.eol.text ++ (cgiText ls ++ t) := by
  simp [cgiText, CgiLine.text]

theorem length_cgiText_cons (l : CgiLine) (ls : List CgiLine) :
    (cgiText (l :: ls)).length = l.line.length + l.eol.text.length + (cgiText ls).length := by
  simp [cgiText, CgiLine.text]
  omega

/-- A line begins with a printable character. -/
theorem HeaderField.line_eq_cons (f : HeaderField) :
    ∃ c t, f.line = c :: t ∧ isValidHeaderChar c = true := by
  rcases hname : f.name with - | ⟨c, cs⟩
  · exact ⟨COLON, SP :: f.value, by rw [HeaderField.line, hname]; rfl, by decide⟩
  · refine ⟨c, cs ++ COLON :: SP :: f.value, by rw [HeaderField.line, hname]; rfl, ?_⟩
    exact (f.name_char c (by rw [hname]; exact List.mem_cons_self)).1

theorem not_endsLines_line (f : HeaderField) (t : Bytes) : ¬ EndsLines (f.line ++ t) := by
  obtain ⟨c, q, hline, hvalid⟩ := f.line_eq_cons
  have hzero : c ≠ 0 := ne_of_headerChar hvalid (by decide)
  have hcr : c ≠ CR := ne_of_headerChar hvalid (by decide)
  have hlf : c ≠ LF := ne_of_headerChar hvalid (by decide)
  rw [hline]
  rintro (h | h | h)
  · exact hzero h
  · obtain ⟨rest, hrest⟩ := eq_of_isCRLF h
    exact hcr (List.cons.inj hrest).1
  · obtain ⟨rest, hrest⟩ := eq_of_isLF h
    exact hlf (List.cons.inj hrest).1

/-! ### The loop over the lines -/

theorem LineEnd.accepted (eol : LineEnd) : eol.text = CRLF ∨ false = false ∧ eol.text = [LF] := by
  cases eol with
  | crlf => exact .inl rfl
  | lf => exact .inr ⟨rfl, rfl⟩

/-- **The loop on header lines**: it stores them, in their order. -/
theorem storeCgiHeaderLines_text {lines : List CgiLine} {rest : Bytes} (hrest : EndsLines rest)
    {fuel : Nat} (hfuel : (cgiText lines).length < fuel) {n : Nat}
    (hlen : n + (cgiText lines).length ≤ kMaxCgiHeaderSize) {p : CgiResponseParser}
    {res : HttpResponse} (hstore : storeCgiLines p.res lines = .ok res) :
    (storeCgiHeaderLines fuel (cgiText lines ++ rest) n).run p = .ok () { p with res := res } := by
  induction lines generalizing fuel n p with
  | nil =>
      obtain ⟨fuel, rfl⟩ : ∃ k, fuel = k + 1 := ⟨fuel - 1, by omega⟩
      show (storeCgiHeaderLines (fuel + 1) rest n).run p = _
      unfold EndsLines at hrest
      rw [storeCgiHeaderLines, if_pos hrest]
      cases hstore
      rfl
  | cons l ls ih =>
      rw [length_cgiText_cons] at hfuel hlen
      obtain ⟨fuel, rfl⟩ : ∃ k, fuel = k + 1 := ⟨fuel - 1, by omega⟩
      rcases hres : storeCgiHeader p.res l.name l.value with e | res'
      · rw [storeCgiLines, hres] at hstore
        cases hstore
      · rw [storeCgiLines, hres] at hstore
        have hread := readHeaderLine_line l.toHeaderField l.eol.accepted (cgiText ls ++ rest)
          (n := n) (show kMaxCgiHeaderSize < sizeMod by decide) (by omega)
        have hgo : ¬ EndsLines (l.line ++ l.eol.text ++ (cgiText ls ++ rest)) := by
          rw [List.append_assoc]
          exact not_endsLines_line _ _
        unfold EndsLines at hgo
        rw [cgiText_cons_append, storeCgiHeaderLines, if_neg hgo, hread]
        simp only [EStateM.run_bind, EStateM.run_get, hres, EStateM.run_modify]
        have hpos : 0 < l.line.length := by
          obtain ⟨c, t, hline, -⟩ := l.line_eq_cons
          rw [hline]
          exact Nat.succ_pos _
        exact ih (by omega) (by omega) hstore

/-- **What the loop accepts.** -/
theorem storeCgiHeaderLines_ok {fuel : Nat} {req : Bytes} {n : Nat} (hn : n ≤ kMaxCgiHeaderSize)
    {p t : CgiResponseParser} (h : (storeCgiHeaderLines fuel req n).run p = .ok () t) :
    ∃ lines rest res, req = cgiText lines ++ rest ∧ EndsLines rest ∧
      n + (cgiText lines).length ≤ kMaxCgiHeaderSize ∧ storeCgiLines p.res lines = .ok res ∧
      t = { p with res := res } := by
  induction fuel generalizing req n p with
  | zero => cases h
  | succ fuel ih =>
      simp only [storeCgiHeaderLines, EStateM.run_ite] at h
      split_ifs at h with hend
      · cases h
        exact ⟨[], req, _, rfl, hend, hn, rfl, rfl⟩
      · have hread := readHeaderLine_reads false req (show kMaxCgiHeaderSize < sizeMod by decide) hn
        rcases hline : readHeaderLine false req n kMaxCgiHeaderSize with e | l
        · simp only [hline] at h
          cases h
        · obtain ⟨f, eol, heol, rfl, hkey, hvalue, hcount, hle⟩ := hread.of_ok hline
          simp only [hline, EStateM.run_bind, EStateM.run_get, hkey, hvalue] at h
          rcases hres : storeCgiHeader p.res f.name f.value with e | res'
          · simp only [hres] at h
            cases h
          · simp only [hres, EStateM.run_modify, EStateM.run_bind] at h
            obtain ⟨lines, rest, res, hreq, hends, hlen, hstore, rfl⟩ := ih hle h
            obtain ⟨e, he⟩ : ∃ e : LineEnd, e.text = eol := by
              obtain rfl | ⟨-, rfl⟩ := heol
              · exact ⟨.crlf, rfl⟩
              · exact ⟨.lf, rfl⟩
            refine ⟨⟨f, e⟩ :: lines, rest, res, ?_, hends, ?_, ?_, rfl⟩
            · rw [cgiText_cons_append, ← hreq, he]
            · rw [length_cgiText_cons, he]
              show n + (f.line.length + eol.length + _) ≤ _
              omega
            · show (storeCgiHeader p.res f.name f.value >>= fun res => storeCgiLines res lines) = _
              rw [hres]
              exact hstore

/-! ### What is accepted -/

theorem advanceCgiHeader_run (p : CgiResponseParser) :
    advanceCgiHeader.run p =
      match findEndOfHeader false p.buffer with
      | none => .ok false p
      | some i =>
          match (storeCgiHeaderLines (p.buffer.length + 1) p.buffer 0).run p with
          | .ok _ t => .ok true { t with buffer := t.buffer.drop i, state := .kBody }
          | .error e t => .error e t := by
  simp only [advanceCgiHeader, EStateM.run_bind, EStateM.run_get]
  rcases findEndOfHeader false p.buffer with - | i
  · rfl
  · simp only [EStateM.run_bind, EStateM.run_modify]
    rcases (storeCgiHeaderLines (p.buffer.length + 1) p.buffer 0).run p with ⟨u, t⟩ | ⟨e, t⟩ <;> rfl

/-- The one call of `Parse`. -/
theorem parse_cgi_run {o : Bytes} (hlen : o.length ≤ stringMaxSize) :
    (parse CgiResponseParser.virtuals o).run {} =
      match findEndOfHeader false o with
      | none => .ok () { buffer := o }
      | some i =>
          match (storeCgiHeaderLines (o.length + 1) o 0).run { buffer := o } with
          | .ok _ t => .ok () { t with
              res := t.res.setBody (t.buffer.drop i), buffer := [], state := .kDone }
          | .error e t => .error e t := by
  have happend : stringAppend [] o = .ok o := if_pos (by simpa using hlen)
  have hrun := advanceCgiHeader_run { buffer := o }
  simp only [parse, parseFuel, parseLoop, CgiResponseParser.virtuals, EStateM.run_bind,
    EStateM.run_get, happend, EStateM.run_modify]
  rw [hrun]
  dsimp only
  rcases findEndOfHeader false o with - | i
  · rfl
  · dsimp only
    rcases (storeCgiHeaderLines (o.length + 1) o 0).run { buffer := o } with ⟨u, t⟩ | ⟨e, t⟩ <;> rfl

theorem parseCgiResponse_eq {o : Bytes} (hlen : o.length ≤ stringMaxSize) {i : Nat}
    (hi : findEndOfHeader false o = some i) {lines : List CgiLine} {rest : Bytes}
    (ho : o = cgiText lines ++ rest) (hrest : EndsLines rest)
    (hshort : (cgiText lines).length ≤ kMaxCgiHeaderSize) {res : HttpResponse}
    (hstore : storeCgiLines (.ofStatus .kOk) lines = .ok res) :
    parseCgiResponse o =
      if res.hasHeader (bytes "content-type") then .ok (res.setBody (o.drop i))
      else .error (.responseStatus .kBadGateway) := by
  have hlines : (storeCgiHeaderLines (o.length + 1) o 0).run { buffer := o } =
      .ok () { buffer := o, res := res } := by
    have hfuel : (cgiText lines).length < o.length + 1 := by
      rw [ho, List.length_append]
      omega
    conv_lhs => rw [show (storeCgiHeaderLines (o.length + 1) o 0) =
      storeCgiHeaderLines (o.length + 1) (cgiText lines ++ rest) 0 by rw [← ho]]
    exact storeCgiHeaderLines_text (p := { buffer := o }) hrest hfuel (by omega) hstore
  rw [parseCgiResponse, parse_cgi_run hlen, hi]
  simp only [hlines]
  rfl

/-- **What `ParseCgiResponse` accepts**: a text that begins with header lines and in which
`FindEndOfHeader` finds an end.  The body is what follows that end. -/
theorem parseCgiResponse_reads {o : Bytes} (hlen : o.length ≤ stringMaxSize) {res : HttpResponse}
    (h : parseCgiResponse o = .ok res) :
    ∃ i lines rest res', findEndOfHeader false o = some i ∧ o = cgiText lines ++ rest ∧
      EndsLines rest ∧ (cgiText lines).length ≤ kMaxCgiHeaderSize ∧
      storeCgiLines (.ofStatus .kOk) lines = .ok res' ∧
      res'.hasHeader (bytes "content-type") = true ∧ res = res'.setBody (o.drop i) := by
  rw [parseCgiResponse, parse_cgi_run hlen] at h
  rcases hi : findEndOfHeader false o with - | i
  · -- without an end no header was stored
    rw [hi] at h
    dsimp only at h
    rw [if_neg (by decide +kernel)] at h
    cases h
  · rw [hi] at h
    dsimp only at h
    rcases hrun : (storeCgiHeaderLines (o.length + 1) o 0).run { buffer := o } with ⟨u, t⟩ | ⟨e, t⟩
    · obtain ⟨lines, rest, res', ho, hrest, hshort, hstore, rfl⟩ :=
        storeCgiHeaderLines_ok (Nat.zero_le _) hrun
      rw [hrun] at h
      dsimp only at h
      split_ifs at h with htype
      cases h
      rw [Nat.zero_add] at hshort
      exact ⟨i, lines, rest, res', rfl, ho, hrest, hshort, hstore, htype, rfl⟩
    · rw [hrun] at h
      cases h

theorem parseCgiResponse_ok {o : Bytes} (hlen : o.length ≤ stringMaxSize) {res : HttpResponse}
    (h : parseCgiResponse o = .ok res) :
    ∃ i lines rest res', findEndOfHeader false o = some i ∧ o = cgiText lines ++ rest ∧
      EndsLines rest ∧ storeCgiLines (.ofStatus .kOk) lines = .ok res' ∧
      res = res'.setBody (o.drop i) := by
  obtain ⟨i, lines, rest, res', hi, ho, hrest, -, hstore, -, hres⟩ :=
    parseCgiResponse_reads hlen h
  exact ⟨i, lines, rest, res', hi, ho, hrest, hstore, hres⟩

end Webserv
