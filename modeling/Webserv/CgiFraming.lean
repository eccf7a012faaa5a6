/-
Webserv/CgiFraming.lean

Which CGI outputs are relayed as well-framed messages.

The `Status` number, the header fields and the length that a CGI program prints go
into the response as they are; `ToHttpString` only adds a length where there is none.
So the framing of the message is the program's own: the theorem says what it has to
print.
-/
import Webserv.CgiFormat
import Webserv.ResponseFormat

namespace Webserv

/-! ### A text has one reading -/

/-- The end of a line up to its LF. -/
def LineEnd.init : LineEnd → Bytes
  | .crlf => [CR]
  | .lf => []

theorem LineEnd.text_eq (e : LineEnd) : e.text = e.init ++ [LF] := by
  cases e <;> rfl

theorem CgiLine.text_append_inj {l l' : CgiLine} {t t' : Bytes} (h : l.text ++ t = l'.text ++ t') :
    l = l' ∧ t = t' := by
  have hsplit : ∀ (l : CgiLine) (t : Bytes), l.text ++ t = (l.line ++ l.eol.init) ++ LF :: t :=
    fun l t => by simp [CgiLine.text, LineEnd.text_eq]
  have hnot : ∀ l : CgiLine, LF ∉ l.line ++ l.eol.init := by
    intro l hmem
    obtain hmem | hmem := List.mem_append.mp hmem
    · exact LF_notMem_of_valid l.line_char hmem
    · cases heol : l.eol <;> rw [heol] at hmem <;> exact absurd hmem (by decide)
  rw [hsplit, hsplit] at h
  obtain ⟨hline, rfl⟩ := Substring.append_cons_inj (hnot l) (hnot l') h
  obtain ⟨f, e⟩ := l
  obtain ⟨f', e'⟩ := l'
  have hcr := field_notMem_CR f
  have hcr' := field_notMem_CR f'
  have hline : f.line ++ e.init = f'.line ++ e'.init := hline
  -- the CR, if there is one, belongs to the end of the line
  have heol : e = e' := by
    rcases e <;> rcases e'
    · rfl
    · rw [show LineEnd.lf.init = [] from rfl, List.append_nil] at hline
      exact absurd (by rw [← hline]; exact List.mem_append_right _ List.mem_cons_self) hcr'
    · rw [show LineEnd.lf.init = [] from rfl, List.append_nil] at hline
      exact absurd (by rw [hline]; exact List.mem_append_right _ List.mem_cons_self) hcr
    · rfl
  subst heol
  rw [HeaderField.line_inj (List.append_cancel_right hline)]
  exact ⟨rfl, rfl⟩

/-- **A text has at most one reading** as header lines and what follows them. -/
theorem cgiText_append_inj {lines lines' : List CgiLine} {rest rest' : Bytes}
    (hrest : EndsLines rest) (hrest' : EndsLines rest')
    (h : cgiText lines ++ rest = cgiText lines' ++ rest') : lines = lines' ∧ rest = rest' := by
  have hends : ∀ (l : CgiLine) (ls : List CgiLine) (t : Bytes),
      ¬ EndsLines (cgiText (l :: ls) ++ t) := by
    intro l ls t
    rw [cgiText_cons_append, List.append_assoc]
    exact not_endsLines_line _ _
  have hcons : ∀ (l : CgiLine) (ls : List CgiLine) (t : Bytes),
      cgiText (l :: ls) ++ t = l.text ++ (cgiText ls ++ t) := fun l ls t => by
    simp [cgiText]
  induction lines generalizing lines' with
  | nil =>
      rcases lines' with - | ⟨l', ls'⟩
      · exact ⟨rfl, h⟩
      · have h : rest = cgiText (l' :: ls') ++ rest' := h
        rw [h] at hrest
        exact absurd hrest (hends l' ls' rest')
  | cons l ls ih =>
      rcases lines' with - | ⟨l', ls'⟩
      · have h : cgiText (l :: ls) ++ rest = rest' := h
        rw [← h] at hrest'
        exact absurd hrest' (hends l ls rest)
      · rw [hcons, hcons] at h
        obtain ⟨rfl, htail⟩ := CgiLine.text_append_inj h
        obtain ⟨rfl, rfl⟩ := ih htail
        exact ⟨rfl, rfl⟩

/-! ### What the lines leave in the response -/

/-- The value the map keeps for `key`: that of the last line with this name. -/
def lastValue (key : Bytes) : List CgiLine → Option Bytes
  | [] => none
  | l :: ls => (lastValue key ls).or (if toLowerAscii l.name = key then some l.value else none)

/-- The number of the last `Status` line. -/
def lastStatus : List CgiLine → Option Int
  | [] => none
  | l :: ls => (lastStatus ls).or
      (if l.name = bytes "Status" then strToLong (l.value.takeWhile (· ≠ SP)) else none)

/-- A code that a status line can carry. -/
def IsStatusCode (n : Int) : Prop := 100 ≤ n ∧ n ≤ 599

theorem statusToString_notMem_CR (code : Int) : CR ∉ statusToString code := by
  unfold statusToString
  split
  · rename_i status _
    cases status <;> decide +kernel
  · decide +kernel

/-- The `Status` line: the number is taken over as it is. -/
theorem storeStatus_ok {res res' : HttpResponse} {value : Bytes} (hres : res.Printable)
    (hvalue : ∀ c ∈ value, isValidHeaderChar c = true) (h : storeStatus res value = .ok res') :
    res'.Printable ∧ res'.headers = res.headers ∧
      ∃ code, strToLong (value.takeWhile (· ≠ SP)) = some code ∧ res'.statusCode = toInt code := by
  rcases hcode : strToLong (value.takeWhile (· ≠ SP)) with - | code
  · simp only [storeStatus, hcode] at h
    cases h
  · simp only [storeStatus, hcode] at h
    split_ifs at h
    · cases h
      exact ⟨⟨hres.version_eq, statusToString_notMem_CR _, hres.headers⟩, rfl, code, rfl, rfl⟩
    · cases h
      have hreason : CR ∉ (value.dropWhile (· ≠ SP)).drop 1 := by
        intro hmem
        apply CR_notMem_of_valid hvalue
        exact (List.dropWhile_sublist _).subset (List.mem_of_mem_drop hmem)
      exact ⟨⟨hres.version_eq, hreason, hres.headers⟩, rfl, code, rfl, rfl⟩

/-- What one line does to a response. -/
theorem storeCgiHeader_ok {res res' : HttpResponse} {f : HeaderField} (hres : res.Printable)
    (h : storeCgiHeader res f.name f.value = .ok res') :
    res'.Printable ∧
      ((f.name = bytes "Status" ∧ res'.headers = res.headers ∧
          ∃ code, strToLong (f.value.takeWhile (· ≠ SP)) = some code ∧
            res'.statusCode = toInt code) ∨
        (f.name ≠ bytes "Status" ∧
          res'.headers = res.headers.insert (toLowerAscii f.name) f.value ∧
          (IsStatusCode res'.statusCode ↔ IsStatusCode res.statusCode))) := by
  rw [storeCgiHeader] at h
  by_cases hs : f.name = bytes "Status"
  · rw [if_pos hs] at h
    obtain ⟨hprint, hstored⟩ := storeStatus_ok hres f.value_char h
    exact ⟨hprint, .inl ⟨hs, hstored⟩⟩
  · rw [if_neg hs] at h
    split_ifs at h with hl hok
    · -- a `Location` line turns 200 into 302
      rw [addHeader_field] at h
      cases h
      have hfound : IsStatusCode Status.kFound.code := ⟨by decide, by decide⟩
      have hcode : IsStatusCode res.statusCode := by
        rw [hok]
        exact ⟨by decide, by decide⟩
      have hreason : CR ∉ (res.setStatus Status.kFound.code).reasonPhrase :=
        statusToString_notMem_CR Status.kFound.code
      exact ⟨⟨hres.version_eq, hreason, hres.headers.insert f⟩,
        .inr ⟨hs, rfl, iff_of_true hfound hcode⟩⟩
    · rw [addHeader_field] at h
      cases h
      exact ⟨⟨hres.version_eq, hres.reason, hres.headers.insert f⟩, .inr ⟨hs, rfl, Iff.rfl⟩⟩
    · rw [addHeader_field] at h
      cases h
      exact ⟨⟨hres.version_eq, hres.reason, hres.headers.insert f⟩, .inr ⟨hs, rfl, Iff.rfl⟩⟩

/-- **What the lines do to a response.**  A `Status` line is no header field. -/
theorem storeCgiLines_ok {lines : List CgiLine} {res res' : HttpResponse} (hres : res.Printable)
    (h : storeCgiLines res lines = .ok res') :
    res'.Printable ∧
      (∀ key, key ≠ bytes "status" →
        res'.headers[key]? = (lastValue key lines).or res.headers[key]?) ∧
      (IsStatusCode res'.statusCode ↔ (lastStatus lines).elim (IsStatusCode res.statusCode)
        fun code => IsStatusCode (toInt code)) := by
  induction lines generalizing res with
  | nil =>
      cases h
      exact ⟨hres, fun key _ => rfl, Iff.rfl⟩
  | cons l ls ih =>
      rcases hstore : storeCgiHeader res l.name l.value with e | res1
      · rw [storeCgiLines, hstore] at h
        cases h
      · rw [storeCgiLines, hstore] at h
        obtain ⟨hprint1, hline⟩ := storeCgiHeader_ok hres hstore
        obtain ⟨hprint, hheaders, hcode⟩ := ih hprint1 h
        refine ⟨hprint, fun key hkey => ?_, hcode.trans ?_⟩
        · rw [hheaders key hkey, lastValue, Option.or_assoc]
          congr 1
          obtain ⟨hs, hsame, -⟩ | ⟨-, hinsert, -⟩ := hline
          · have hlower : toLowerAscii l.name ≠ key := by
              rw [hs]
              exact Ne.symm hkey
            rw [hsame, if_neg hlower]
            rfl
          · rw [hinsert, getElem?_insert]
            split_ifs <;> rfl
        · rw [lastStatus]
          rcases lastStatus ls with - | code
          · obtain ⟨hs, -, code, hnum, hset⟩ | ⟨hs, -, hkeep⟩ := hline
            · rw [if_pos hs, hnum]
              exact iff_of_eq (congrArg IsStatusCode hset)
            · rw [if_neg hs]
              exact hkeep
          · exact Iff.rfl

/-! ### The framing is the program's own -/

/-- What a program has to print: a `Status` in range if any, no `Transfer-Encoding`, and a
`Content-Length`, if any, that is the number of bytes of the body. -/
def WellFramed (cgiOutput : Bytes) : Prop :=
  ∃ (lines : List CgiLine) (rest : Bytes) (i : Nat), cgiOutput = cgiText lines ++ rest ∧
    EndsLines rest ∧ findEndOfHeader false cgiOutput = some i ∧
    (∀ code, lastStatus lines = some code → IsStatusCode (toInt code)) ∧
    lastValue (bytes "transfer-encoding") lines = none ∧
    ∀ v, lastValue (bytes "content-length") lines = some v → IsNumeralOf v (cgiOutput.length - i)

theorem parseCgiResponse_members {cgiOutput : Bytes} (hlen : cgiOutput.length ≤ stringMaxSize)
    {res : HttpResponse} (h : parseCgiResponse cgiOutput = .ok res) :
    ∃ (lines : List CgiLine) (rest : Bytes) (i : Nat), cgiOutput = cgiText lines ++ rest ∧
      EndsLines rest ∧ findEndOfHeader false cgiOutput = some i ∧ res.Printable ∧
      (∀ key, key ≠ bytes "status" → res.headers[key]? = lastValue key lines) ∧
      (IsStatusCode res.statusCode ↔
        ∀ code, lastStatus lines = some code → IsStatusCode (toInt code)) ∧
      res.body.length = cgiOutput.length - i := by
  obtain ⟨i, lines, rest, res1, hi, ho, hrest, hstore, rfl⟩ := parseCgiResponse_ok hlen h
  have hinit : (HttpResponse.ofStatus .kOk).Printable := by
    refine ⟨rfl, statusToString_notMem_CR 200, fun k v hk => ?_⟩
    cases hk
  have hok : IsStatusCode (HttpResponse.ofStatus .kOk).statusCode := ⟨by decide, by decide⟩
  obtain ⟨hprint, hheaders, hcode⟩ := storeCgiLines_ok hinit hstore
  refine ⟨lines, rest, i, ho, hrest, hi, ⟨hprint.version_eq, hprint.reason, hprint.headers⟩,
    fun key hkey => ?_, hcode.trans ?_, List.length_drop⟩
  · exact (hheaders key hkey).trans Option.or_none
  · rcases lastStatus lines with - | code
    · exact iff_of_true hok fun code hcode => by cases hcode
    · simp

/-- **The framing of a relayed response**: the message is self-consistent exactly if what the
program printed is. -/
theorem parseCgiResponse_selfConsistent_iff {cgiOutput : Bytes}
    (hlen : cgiOutput.length ≤ stringMaxSize) {res : HttpResponse}
    (h : parseCgiResponse cgiOutput = .ok res) {date : Option Bytes}
    (hdate : ∀ d ∈ date, ∀ c ∈ d, isValidHeaderChar c = true) :
    SelfConsistent (res.toHttpString date) ↔ WellFramed cgiOutput := by
  obtain ⟨lines, rest, i, ho, hrest, hi, hprint, hheaders, hcode, hbody⟩ :=
    parseCgiResponse_members hlen h
  rw [selfConsistent_iff hprint hdate]
  have hstatus : (100 ≤ res.statusCode ∧ res.statusCode ≤ 599) ↔ _ := hcode
  rw [hheaders _ (by decide +kernel), hheaders _ (by decide +kernel), hstatus, hbody]
  constructor
  · rintro ⟨hstatus, hnone, hlength⟩
    exact ⟨lines, rest, i, ho, hrest, hi, hstatus, hnone, hlength⟩
  · rintro ⟨lines', rest', i', ho', hrest', hi', hstatus, hnone, hlength⟩
    -- the output has one reading only
    obtain ⟨rfl, -⟩ := cgiText_append_inj hrest hrest' (ho.symm.trans ho')
    obtain rfl : i' = i := Option.some.inj (hi'.symm.trans hi)
    exact ⟨hstatus, hnone, hlength⟩

/-- A response without a length of its own. -/
theorem parseCgiResponse_selfConsistent_iff_plain :
    ∃ res, parseCgiResponse (bytes "Content-Type: text/plain\r\n\r\nhi") = .ok res ∧
      (SelfConsistent (res.toHttpString (some (bytes "Thu, 01 Jan 1970 00:00:00 GMT"))) ↔
        WellFramed (bytes "Content-Type: text/plain\r\n\r\nhi")) := by
  have hok : (parseCgiResponse (bytes "Content-Type: text/plain\r\n\r\nhi")).isOk = true := by
    decide +kernel
  rcases h : parseCgiResponse (bytes "Content-Type: text/plain\r\n\r\nhi") with e | res
  · rw [h] at hok
    cases hok
  · refine ⟨res, rfl, parseCgiResponse_selfConsistent_iff (by decide +kernel) h ?_⟩
    decide +kernel

/-- A program that prints a number of four digits as its status. -/
theorem parseCgiResponse_selfConsistent_fails :
    ¬ ∀ (cgiOutput : Bytes) (res : HttpResponse) (date : Option Bytes),
      cgiOutput.length ≤ stringMaxSize → parseCgiResponse cgiOutput = .ok res →
      (∀ d ∈ date, ∀ c ∈ d, isValidHeaderChar c = true) →
      SelfConsistent (res.toHttpString date) := by
  intro h
  have hcode : (parseCgiResponse (bytes "Content-Type: a\r\nStatus: 1000\r\n\r\n")).toOption.map
      HttpResponse.statusCode = some 1000 := by
    decide +kernel
  rcases hparse : parseCgiResponse (bytes "Content-Type: a\r\nStatus: 1000\r\n\r\n") with e | res
  · rw [hparse] at hcode
    cases hcode
  · rw [hparse] at hcode
    have hcode : res.statusCode = 1000 := Option.some.inj hcode
    have hlen : (bytes "Content-Type: a\r\nStatus: 1000\r\n\r\n").length ≤ stringMaxSize := by
      decide +kernel
    have hdate : ∀ d ∈ (none : Option Bytes), ∀ c ∈ d, isValidHeaderChar c = true := by
      intro d hd
      cases hd
    obtain ⟨-, -, -, -, -, -, hprint, -⟩ := parseCgiResponse_members hlen hparse
    obtain ⟨⟨-, hle⟩, -⟩ := (selfConsistent_iff hprint hdate).mp (h _ _ _ hlen hparse hdate)
    omega

end Webserv
