/-
Webserv/CgiSplit.lean

Where the body of a CGI response begins.

The header lines end at the first blank line, of either kind.  `FindEndOfHeader`
searches the whole output instead, for CRLFCRLF and only then for LFLF.  The two
agree when the last line and the blank line both end with CRLF; when the blank line
is a bare LF they agree unless the body holds a CRLFCRLF of its own; and after a
line that ends with a bare LF a blank CRLF is never found.
-/
import Webserv.CgiFormat

namespace Webserv

open Substring (find Skips)

/-! ### Header lines hold no blank line -/

/-- What begins with a printable character. -/
def BeginsPrintable (s : Bytes) : Prop := ∃ c t, s = c :: t ∧ isValidHeaderChar c = true

theorem beginsPrintable_line (f : HeaderField) (t : Bytes) : BeginsPrintable (f.line ++ t) := by
  obtain ⟨c, q, hline, hvalid⟩ := f.line_eq_cons
  exact ⟨c, q ++ t, by rw [hline]; rfl, hvalid⟩

/-- The end of a line is no blank line when another line follows. -/
theorem skips_eol (e : LineEnd) {s : Bytes} (hs : BeginsPrintable s) :
    Skips (CRLF ++ CRLF) e.text s ∧ Skips [LF, LF] e.text s := by
  obtain ⟨c, t, rfl, hvalid⟩ := hs
  have hcr : CR ≠ c := (ne_of_headerChar hvalid (by decide)).symm
  have hlf : LF ≠ c := (ne_of_headerChar hvalid (by decide)).symm
  have hne : CR ≠ LF := by decide
  have hLF : Skips (CRLF ++ CRLF) [LF] (c :: t) ∧ Skips [LF, LF] [LF] (c :: t) := by
    constructor
    · apply Substring.skips_singleton
      simp [hne]
    · apply Substring.skips_singleton
      simp [hlf]
  cases e with
  | lf => exact hLF
  | crlf =>
      constructor
      · refine Substring.Skips.append (a := [CR]) (Substring.skips_singleton ?_) hLF.1
        simp [hcr]
      · refine Substring.Skips.append (a := [CR]) (Substring.skips_singleton ?_) hLF.2
        simp [hne.symm]

theorem skips_line (f : HeaderField) (s : Bytes) :
    Skips (CRLF ++ CRLF) f.line s ∧ Skips [LF, LF] f.line s :=
  ⟨Substring.skips_of_notMem (field_notMem_CR f) s,
    Substring.skips_of_notMem (LF_notMem_of_valid f.line_char) s⟩

/-- **Header lines hold no blank line** when another line follows them. -/
theorem skips_cgiText (lines : List CgiLine) {s : Bytes} (hs : BeginsPrintable s) :
    Skips (CRLF ++ CRLF) (cgiText lines) s ∧ Skips [LF, LF] (cgiText lines) s := by
  induction lines with
  | nil =>
      exact ⟨Substring.skips_of_notMem List.not_mem_nil s,
        Substring.skips_of_notMem List.not_mem_nil s⟩
  | cons l ls ih =>
      have hnext : BeginsPrintable (cgiText ls ++ s) := by
        rcases ls with - | ⟨l', ls⟩
        · exact hs
        · rw [cgiText_cons_append, List.append_assoc]
          exact beginsPrintable_line _ _
      have hline := skips_line l.toHeaderField (l.eol.text ++ (cgiText ls ++ s))
      have heol := skips_eol l.eol hnext
      have htext : cgiText (l :: ls) = l.line ++ (l.eol.text ++ cgiText ls) := by
        simp [cgiText, CgiLine.text]
      rw [htext]
      rw [← List.append_assoc] at hline
      exact ⟨hline.1.append (heol.1.append ih.1), hline.2.append (heol.2.append ih.2)⟩

theorem findEndOfHeader_skip {a s : Bytes}
    (h : Skips (CRLF ++ CRLF) a s ∧ Skips [LF, LF] a s) :
    findEndOfHeader false (a ++ s) = (findEndOfHeader false s).map (· + a.length) := by
  rw [findEndOfHeader, findEndOfHeader, h.1, h.2]
  rcases find (CRLF ++ CRLF) s with - | i
  · rcases find [LF, LF] s with - | i
    · rfl
    · show some (i + a.length + 2) = some (i + 2 + a.length)
      congr 1
      omega
  · show some (i + a.length + 4) = some (i + 4 + a.length)
    congr 1
    omega

/-! ### The two blank lines -/

/-- The end that is found is behind a CRLFCRLF or, if there is none, behind a LFLF. -/
theorem findEndOfHeader_lenient {s : Bytes} {i : Nat} (h : findEndOfHeader false s = some i) :
    (∃ k, find (CRLF ++ CRLF) s = some k ∧ i = k + 4) ∨
      find (CRLF ++ CRLF) s = none ∧ ∃ k, find [LF, LF] s = some k ∧ i = k + 2 := by
  rw [findEndOfHeader] at h
  rcases hcrlf : find (CRLF ++ CRLF) s with - | k
  · rw [hcrlf] at h
    obtain ⟨k, hk, rfl⟩ := Option.map_eq_some_iff.mp h
    exact .inr ⟨rfl, k, hk, rfl⟩
  · rw [hcrlf] at h
    cases h
    exact .inl ⟨k, rfl, rfl⟩

/-- Where the last line ends with `eol`, the end that is found is the end of the header. -/
def SplitsRight (eol blank : LineEnd) (body : Bytes) : Prop :=
  eol = .crlf ∧ blank = .crlf ∨ blank = .lf ∧ ¬ CRLF ++ CRLF <:+: body

/-- In front of a blank LF there is no CRLFCRLF. -/
theorem skips_blankLF (eol : LineEnd) (body : Bytes) :
    Skips (CRLF ++ CRLF) (eol.text ++ [LF]) body := by
  have hLF : ∀ t : Bytes, Skips (CRLF ++ CRLF) [LF] t := fun t =>
    Substring.skips_singleton fun h => absurd (List.cons_prefix_cons.mp h).1 (by decide)
  cases eol with
  | lf => exact (hLF _).append (hLF _)
  | crlf =>
      refine Skips.append (a := [CR]) (b := [LF, LF]) (Substring.skips_singleton fun h => ?_)
        ((hLF _).append (hLF _))
      have h2 := (List.cons_prefix_cons.mp (List.cons_prefix_cons.mp h).2).2
      exact absurd (List.cons_prefix_cons.mp h2).1 (by decide)

/-- **The end of the header** behind the last line. -/
theorem findEndOfHeader_blank (eol blank : LineEnd) (body : Bytes) :
    findEndOfHeader false (eol.text ++ (blank.text ++ body)) =
        some (eol.text.length + blank.text.length) ↔ SplitsRight eol blank body := by
  cases blank with
  | lf =>
      have hskip := skips_blankLF eol body
      rw [Skips, List.append_assoc] at hskip
      have hinside : find (CRLF ++ CRLF) body = none ↔ ¬ CRLF ++ CRLF <:+: body :=
        Substring.find_eq_none_iff_infix (by decide)
      have hsplits : SplitsRight eol .lf body ↔ find (CRLF ++ CRLF) body = none := by
        rw [hinside]
        simp [SplitsRight]
      have htext : LineEnd.lf.text = [LF] := rfl
      rw [hsplits, htext, findEndOfHeader, hskip]
      rcases find (CRLF ++ CRLF) body with - | j
      · cases eol <;> exact iff_of_true rfl rfl
      · -- the CRLFCRLF of the body comes first
        refine iff_of_false (fun h => ?_) (by simp)
        have heq : j + (eol.text ++ [LF]).length + 4 = eol.text.length + [LF].length :=
          Option.some.inj h
        rw [List.length_append] at heq
        omega
  | crlf =>
      cases eol with
      | crlf => exact iff_of_true rfl (.inl ⟨rfl, rfl⟩)
      | lf =>
          refine iff_of_false (fun h => ?_) ?_
          · obtain ⟨k, -, hk⟩ | ⟨-, k, hfind, hk⟩ := findEndOfHeader_lenient h
            · have hk : 3 = k + 4 := hk
              omega
            · have hk : 3 = k + 2 := hk
              obtain rfl : k = 1 := by omega
              have hocc := Substring.find_occursAt (by decide) hfind
              exact absurd (List.cons_prefix_cons.mp hocc).1 (by decide)
          · simp [SplitsRight]

/-! ### The whole output -/

/-- Well-formed header lines of a CGI program. -/
structure WellFormedLines (lines : List CgiLine) : Prop where
  short : (cgiText lines).length ≤ kMaxCgiHeaderSize
  content_type : ∃ l ∈ lines, toLowerAscii l.name = bytes "content-type"
  status : ∀ l ∈ lines, l.name = bytes "Status" → (strToLong (l.value.takeWhile (· ≠ SP))).isSome

/-- Storing a line loses no header, and its own is there behind it. -/
theorem storeCgiHeader_field (res : HttpResponse) (f : HeaderField)
    (hstatus : f.name = bytes "Status" → (strToLong (f.value.takeWhile (· ≠ SP))).isSome) :
    ∃ res', storeCgiHeader res f.name f.value = .ok res' ∧
      ∀ key, res.hasHeader key = true ∨ f.name ≠ bytes "Status" ∧ toLowerAscii f.name = key →
        res'.hasHeader key = true := by
  have hinsert : ∀ (res : HttpResponse) key,
      res.hasHeader key = true ∨ f.name ≠ bytes "Status" ∧ toLowerAscii f.name = key →
      (res.headers.insert (toLowerAscii f.name) f.value).contains key = true := by
    intro res key hkey
    rw [contains_insert, Bool.or_eq_true, decide_eq_true_eq]
    exact hkey.symm.imp_left And.right
  rw [storeCgiHeader]
  by_cases hs : f.name = bytes "Status"
  · obtain ⟨code, hcode⟩ := Option.isSome_iff_exists.mp (hstatus hs)
    rw [if_pos hs]
    simp only [storeStatus, hcode]
    split_ifs with hreason
    · exact ⟨_, rfl, fun key hkey => hkey.resolve_right fun h => h.1 hs⟩
    · exact ⟨_, rfl, fun key hkey => hkey.resolve_right fun h => h.1 hs⟩
  · rw [if_neg hs]
    split_ifs with hl hok
    · exact ⟨_, addHeader_field _ f, hinsert _⟩
    · exact ⟨_, addHeader_field _ f, hinsert _⟩
    · exact ⟨_, addHeader_field _ f, hinsert _⟩

theorem storeCgiLines_wellFormed {lines : List CgiLine}
    (hstatus : ∀ l ∈ lines, l.name = bytes "Status" →
      (strToLong (l.value.takeWhile (· ≠ SP))).isSome) (res : HttpResponse) :
    ∃ res', storeCgiLines res lines = .ok res' ∧
      ∀ key, res.hasHeader key = true ∨
          (∃ l ∈ lines, l.name ≠ bytes "Status" ∧ toLowerAscii l.name = key) →
        res'.hasHeader key = true := by
  induction lines generalizing res with
  | nil => exact ⟨res, rfl, fun key hkey => hkey.resolve_right (by simp)⟩
  | cons l ls ih =>
      obtain ⟨hl, hls⟩ := List.forall_mem_cons.mp hstatus
      obtain ⟨res1, hstore, hkeep⟩ := storeCgiHeader_field res l.toHeaderField hl
      obtain ⟨res2, hrest, hkeep'⟩ := ih hls res1
      refine ⟨res2, ?_, fun key hkey => hkeep' key ?_⟩
      · rw [storeCgiLines, hstore]
        exact hrest
      · obtain hkey | ⟨m, hm, hkey⟩ := hkey
        · exact .inl (hkeep key (.inl hkey))
        · obtain rfl | hm := List.mem_cons.mp hm
          · exact .inl (hkeep key (.inr hkey))
          · exact .inr ⟨m, hm, hkey⟩

/-- **Where the body begins.** -/
theorem findEndOfHeader_cgi (init : List CgiLine) (last : CgiLine) (blank : LineEnd)
    (body : Bytes) :
    findEndOfHeader false (cgiText (init ++ [last]) ++ (blank.text ++ body)) =
        some ((cgiText (init ++ [last])).length + blank.text.length) ↔
      SplitsRight last.eol blank body := by
  have hskip := skips_cgiText init (beginsPrintable_line last.toHeaderField
    (last.eol.text ++ (blank.text ++ body)))
  have hline := skips_line last.toHeaderField (last.eol.text ++ (blank.text ++ body))
  have htext : cgiText (init ++ [last]) ++ (blank.text ++ body) =
      cgiText init ++ last.line ++ (last.eol.text ++ (blank.text ++ body)) := by
    simp [cgiText, CgiLine.text]
  have hlen : (cgiText (init ++ [last])).length + blank.text.length =
      last.eol.text.length + blank.text.length + (cgiText init ++ last.line).length := by
    simp [cgiText, CgiLine.text]
    omega
  rw [htext, findEndOfHeader_skip ⟨hskip.1.append hline.1, hskip.2.append hline.2⟩, hlen,
    ← findEndOfHeader_blank]
  constructor
  · intro h
    obtain ⟨i, hi, heq⟩ := Option.map_eq_some_iff.mp h
    rw [hi, Nat.add_right_cancel heq]
  · intro h
    rw [h]
    rfl

/-- An end that is found lies in the text. -/
theorem findEndOfHeader_lenient_le {s : Bytes} {i : Nat} (h : findEndOfHeader false s = some i) :
    i ≤ s.length := by
  obtain ⟨k, hfind, rfl⟩ | ⟨-, k, hfind, rfl⟩ := findEndOfHeader_lenient h
  · exact Substring.find_le_length (by decide) hfind
  · exact Substring.find_le_length (by decide) hfind

/-- **The split of a CGI response**: on well-formed header lines, a blank line and a body,
`ParseCgiResponse` returns that body exactly if the end it searches for is that of the header. -/
theorem parseCgiResponse_body_iff (init : List CgiLine) (last : CgiLine)
    (hlines : WellFormedLines (init ++ [last])) (blank : LineEnd) (body : Bytes)
    (hlen : (cgiText (init ++ [last]) ++ (blank.text ++ body)).length ≤ stringMaxSize) :
    (∃ res, parseCgiResponse (cgiText (init ++ [last]) ++ (blank.text ++ body)) = .ok res ∧
        res.body = body) ↔ SplitsRight last.eol blank body := by
  rw [← findEndOfHeader_cgi init]
  have hdrop : (cgiText (init ++ [last]) ++ (blank.text ++ body)).drop
      ((cgiText (init ++ [last])).length + blank.text.length) = body := by
    rw [← List.append_assoc, ← List.length_append, List.drop_left]
  constructor
  · rintro ⟨res, hparse, hbody⟩
    obtain ⟨i, _, _, res', hi, -, -, -, rfl⟩ := parseCgiResponse_ok hlen hparse
    -- behind the end that was found lies the body, so it is that of the header
    have hle := findEndOfHeader_lenient_le hi
    have hrest := congrArg List.length
      (show (cgiText (init ++ [last]) ++ (blank.text ++ body)).drop i = body from hbody)
    rw [hi]
    simp only [List.length_drop, List.length_append] at hrest hle
    congr 1
    omega
  · intro hend
    obtain ⟨res, hstore, hkeep⟩ := storeCgiLines_wellFormed hlines.status (.ofStatus .kOk)
    have hrest : EndsLines (blank.text ++ body) := by
      cases blank with
      | crlf => exact .inr (.inl rfl)
      | lf => exact .inr (.inr rfl)
    have hheader : res.hasHeader (bytes "content-type") = true := by
      obtain ⟨l, hl, hname⟩ := hlines.content_type
      refine hkeep _ (.inr ⟨l, hl, ?_, hname⟩)
      intro hs
      rw [hs] at hname
      exact absurd hname (by decide +kernel)
    rw [parseCgiResponse_eq hlen hend rfl hrest hlines.short hstore, if_pos hheader, hdrop]
    exact ⟨_, rfl, rfl⟩

/-- A `Content-Type` line. -/
def contentTypeLine (eol : LineEnd) : CgiLine :=
  ⟨⟨bytes "Content-Type", bytes "text/plain", by decide +kernel, by decide +kernel⟩, eol⟩

theorem contentTypeLine_wellFormed (eol : LineEnd) :
    WellFormedLines ([] ++ [contentTypeLine eol]) where
  short := by cases eol <;> decide +kernel
  content_type := ⟨contentTypeLine eol, List.mem_singleton_self _,
    show toLowerAscii (bytes "Content-Type") = bytes "content-type" by decide +kernel⟩
  status l hl hs := by
    obtain rfl := List.mem_singleton.mp hl
    exact absurd hs (show bytes "Content-Type" ≠ bytes "Status" by decide +kernel)

/-- A body that holds a blank line of its own. -/
theorem parseCgiResponse_body_iff_crlf :
    (∃ res, parseCgiResponse (cgiText ([] ++ [contentTypeLine .crlf]) ++
        (LineEnd.crlf.text ++ (CRLF ++ CRLF))) = .ok res ∧ res.body = CRLF ++ CRLF) ↔
      SplitsRight .crlf .crlf (CRLF ++ CRLF) :=
  parseCgiResponse_body_iff [] (contentTypeLine .crlf) (contentTypeLine_wellFormed .crlf) .crlf _
    (by decide +kernel)

/-- A line that ends with LF and a blank line that is CRLF: no end is found. -/
theorem parseCgiResponse_body_fails :
    ¬ ∀ (init : List CgiLine) (last : CgiLine), WellFormedLines (init ++ [last]) →
      ∀ (blank : LineEnd) (body : Bytes),
        (cgiText (init ++ [last]) ++ (blank.text ++ body)).length ≤ stringMaxSize →
        ∃ res, parseCgiResponse (cgiText (init ++ [last]) ++ (blank.text ++ body)) = .ok res ∧
          res.body = body := by
  intro h
  obtain ⟨res, hparse, -⟩ := h [] (contentTypeLine .lf) (contentTypeLine_wellFormed .lf) .crlf
    (bytes "x") (by decide +kernel)
  have hfails : (parseCgiResponse (cgiText ([] ++ [contentTypeLine .lf]) ++
      (LineEnd.crlf.text ++ bytes "x"))).isOk = false := by decide +kernel
  rw [hparse] at hfails
  cases hfails

end Webserv
