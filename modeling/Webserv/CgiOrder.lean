/-
Webserv/CgiOrder.lean

What the order of the header lines of a CGI program and the case of their names decide.

The map of the header fields has names in lower case and does not know their order.  But
`Status` and `Location` are told apart by their exact spelling, and a `Location` line looks
at the status that the lines in front of it have left.
-/
import Webserv.CgiSplit
import Webserv.CgiFraming

namespace Webserv

/-! ### Outputs -/

/-- The output of a program: header lines, a blank line and a body. -/
structure CgiOutput where
  lines : List CgiLine
  blank : LineEnd
  body : Bytes

namespace CgiOutput

def text (o : CgiOutput) : Bytes := cgiText o.lines ++ (o.blank.text ++ o.body)

/-- What stands behind the end of the header that is found. -/
def cut (o : CgiOutput) : Bytes := o.text.drop ((findEndOfHeader false o.text).getD 0)

/-- The lines are short enough, an end is found, and a `Status` is a number. -/
structure Readable (o : CgiOutput) : Prop where
  short : (cgiText o.lines).length ≤ kMaxCgiHeaderSize
  found : (findEndOfHeader false o.text).isSome = true
  status : ∀ l ∈ o.lines, l.name = bytes "Status" →
    (strToLong (l.value.takeWhile (· ≠ SP))).isSome = true

theorem endsLines (o : CgiOutput) : EndsLines (o.blank.text ++ o.body) := by
  cases o.blank with
  | crlf => exact .inr (.inl rfl)
  | lf => exact .inr (.inr rfl)

end CgiOutput

/-- There is a `Content-Type`, in any spelling. -/
def HasContentType (lines : List CgiLine) : Prop :=
  ∃ l ∈ lines, toLowerAscii l.name = bytes "content-type"

/-- There is a `Status`, in this spelling. -/
def SpellsStatus (lines : List CgiLine) : Prop := ∃ l ∈ lines, l.name = bytes "Status"

/-- The `int` in a `Status` line. -/
def CgiLine.statusCode (l : CgiLine) : Option Int :=
  (strToLong (l.value.takeWhile (· ≠ SP))).map toInt

/-- There is a `Location`, in this spelling, and a `Status` stands in front of it and is 200. -/
def Redirects (lines : List CgiLine) : Prop :=
  ∃ a l b, lines = a ++ l :: b ∧ l.name = bytes "Location" ∧
    ∀ s ∈ lines, s.name = bytes "Status" → s ∈ a ∧ s.statusCode = some Status.kOk.code

/-! ### The header fields -/

/-- The line is stored in the map. -/
def CgiLine.Stores (l : CgiLine) (key value : Bytes) : Prop :=
  l.name ≠ bytes "Status" ∧ toLowerAscii l.name = key ∧ l.value = value

theorem storeStatus_headers {res res' : HttpResponse} {value : Bytes}
    (h : storeStatus res value = .ok res') : res'.headers = res.headers := by
  rcases hcode : strToLong (value.takeWhile (· ≠ SP)) with - | code
  · simp only [storeStatus, hcode] at h
    cases h
  · simp only [storeStatus, hcode] at h
    split_ifs at h
    · cases h
      rfl
    · cases h
      rfl

theorem storeCgiHeader_headers {res res' : HttpResponse} {l : CgiLine}
    (h : storeCgiHeader res l.name l.value = .ok res') :
    (l.name = bytes "Status" ∧ res'.headers = res.headers) ∨
      (l.name ≠ bytes "Status" ∧
        res'.headers = res.headers.insert (toLowerAscii l.name) l.value) := by
  rw [storeCgiHeader] at h
  by_cases hs : l.name = bytes "Status"
  · rw [if_pos hs] at h
    exact .inl ⟨hs, storeStatus_headers h⟩
  · rw [if_neg hs] at h
    split_ifs at h
    all_goals
      rw [addHeader_field] at h
      cases h
      exact .inr ⟨hs, rfl⟩

/-- **The header fields behind the lines.** -/
theorem storeCgiLines_headers {lines : List CgiLine} {res res' : HttpResponse}
    (hdistinct : (lines.map fun l => toLowerAscii l.name).Nodup)
    (h : storeCgiLines res lines = .ok res') (key value : Bytes) :
    res'.headers[key]? = some value ↔ (∃ l ∈ lines, l.Stores key value) ∨
      res.headers[key]? = some value ∧
        ∀ l ∈ lines, l.name = bytes "Status" ∨ toLowerAscii l.name ≠ key := by
  -- on the lines; a later one of the same name would win, but the names differ
  induction lines generalizing res with
  | nil =>
      cases h
      simp
  | cons l ls ih =>
      obtain ⟨hl, hls⟩ := List.nodup_cons.mp hdistinct
      rcases hstore : storeCgiHeader res l.name l.value with e | res1
      · rw [storeCgiLines, hstore] at h
        cases h
      · rw [storeCgiLines, hstore] at h
        rw [ih hls h, List.forall_mem_cons, List.exists_mem_cons_iff]
        obtain ⟨hs, hsame⟩ | ⟨hs, hinsert⟩ := storeCgiHeader_headers hstore
        · have hno : ¬ l.Stores key value := fun hstores => hstores.1 hs
          rw [hsame, or_iff_right hno, and_iff_right (Or.inl hs)]
        · rw [hinsert, getElem?_insert]
          by_cases hkey : toLowerAscii l.name = key
          · -- the other lines have other names
            have hother : ∀ m ∈ ls, toLowerAscii m.name ≠ key := by
              intro m hm hmkey
              apply hl
              exact List.mem_map.mpr ⟨m, hm, hmkey.trans hkey.symm⟩
            have hnone : ¬ ∃ m ∈ ls, m.Stores key value := by
              rintro ⟨m, hm, -, hmkey, -⟩
              exact hother m hm hmkey
            rw [if_pos hkey, Option.some.injEq, or_iff_right hnone, or_iff_left hnone,
              and_iff_left fun m hm => Or.inr (hother m hm), CgiLine.Stores]
            constructor
            · intro hvalue
              exact .inl ⟨hs, hkey, hvalue⟩
            · rintro (⟨-, -, hvalue⟩ | ⟨-, hstatus | hne, -⟩)
              · exact hvalue
              · exact absurd hstatus hs
              · exact absurd hkey hne
          · have hno : ¬ l.Stores key value := fun hstores => hkey hstores.2.1
            rw [if_neg hkey, or_iff_right hno, and_iff_right (Or.inr hkey)]

/-! ### The status -/

/-- The status code and the reason phrase. -/
def HttpResponse.status (res : HttpResponse) : Int × Bytes := (res.statusCode, res.reasonPhrase)

/-- The status that a `Status` line with this value sets. -/
def statusOf (value : Bytes) : Option (Int × Bytes) :=
  (strToLong (value.takeWhile (· ≠ SP))).map fun code =>
    let reasonPhrase := (value.dropWhile (· ≠ SP)).drop 1
    (toInt code, if reasonPhrase = [] then statusToString (toInt code) else reasonPhrase)

/-- The status behind a `Location` line that has changed it. -/
def foundStatus : Int × Bytes := (Status.kFound.code, statusToString Status.kFound.code)

theorem storeStatus_status {res res' : HttpResponse} {value : Bytes}
    (h : storeStatus res value = .ok res') : statusOf value = some res'.status := by
  rcases hcode : strToLong (value.takeWhile (· ≠ SP)) with - | code
  · simp only [storeStatus, hcode] at h
    cases h
  · simp only [storeStatus, hcode] at h
    simp only [statusOf, hcode, Option.map_some]
    split_ifs at h with hreason
    · cases h
      rw [if_pos hreason]
      rfl
    · cases h
      rw [if_neg hreason]
      rfl

theorem storeCgiLines_append (res : HttpResponse) (a b : List CgiLine) :
    storeCgiLines res (a ++ b) = storeCgiLines res a >>= fun res => storeCgiLines res b := by
  induction a generalizing res with
  | nil => rfl
  | cons l a ih =>
      rw [List.cons_append, storeCgiLines, storeCgiLines]
      rcases storeCgiHeader res l.name l.value with e | res1
      · rfl
      · exact ih res1

/-- One line that is no `Status`. -/
theorem storeCgiHeader_status {res res' : HttpResponse} {l : CgiLine}
    (hs : l.name ≠ bytes "Status") (h : storeCgiHeader res l.name l.value = .ok res') :
    res'.status = if res.statusCode = Status.kOk.code ∧ l.name = bytes "Location" then foundStatus
      else res.status := by
  rw [storeCgiHeader, if_neg hs] at h
  by_cases hl : l.name = bytes "Location"
  · rw [if_pos hl] at h
    by_cases hok : res.statusCode = Status.kOk.code
    · rw [if_pos hok, addHeader_field] at h
      cases h
      rw [if_pos ⟨hok, hl⟩]
      rfl
    · rw [if_neg hok, addHeader_field] at h
      cases h
      rw [if_neg fun hand => hok hand.1]
      rfl
  · rw [if_neg hl, addHeader_field] at h
    cases h
    rw [if_neg fun hand => hl hand.2]
    rfl

/-- **Lines without a `Status`.** -/
theorem storeCgiLines_noStatus {lines : List CgiLine} {res res' : HttpResponse}
    (hs : ∀ l ∈ lines, l.name ≠ bytes "Status") (h : storeCgiLines res lines = .ok res') :
    res'.status = if res.statusCode = Status.kOk.code ∧ ∃ l ∈ lines, l.name = bytes "Location"
      then foundStatus else res.status := by
  induction lines generalizing res with
  | nil =>
      cases h
      rw [if_neg (by simp)]
  | cons l ls ih =>
      obtain ⟨hl, hls⟩ := List.forall_mem_cons.mp hs
      rcases hstore : storeCgiHeader res l.name l.value with e | res1
      · rw [storeCgiLines, hstore] at h
        cases h
      · rw [storeCgiLines, hstore] at h
        have hfirst := storeCgiHeader_status hl hstore
        rw [ih hls h]
        by_cases hmove : res.statusCode = Status.kOk.code ∧ l.name = bytes "Location"
        · -- the status is not 200 any more
          rw [if_pos hmove] at hfirst
          have hcode : res1.statusCode = Status.kFound.code := congrArg Prod.fst hfirst
          have hnot : ¬ (res1.statusCode = Status.kOk.code ∧
              ∃ l ∈ ls, l.name = bytes "Location") := by
            rw [hcode]
            exact fun hand => absurd hand.1 (by decide)
          rw [if_neg hnot, if_pos ⟨hmove.1, l, List.mem_cons_self, hmove.2⟩, hfirst]
        · rw [if_neg hmove] at hfirst
          have hcode : res1.statusCode = res.statusCode := congrArg Prod.fst hfirst
          rw [hcode, hfirst]
          apply if_congr _ rfl rfl
          apply and_congr_right
          intro hok
          rw [List.exists_mem_cons_iff]
          exact (or_iff_right fun hname => hmove ⟨hok, hname⟩).symm

theorem CgiLine.statusCode_eq {l : CgiLine} {status : Int × Bytes}
    (h : statusOf l.value = some status) : l.statusCode = some status.1 := by
  have hmap : l.statusCode = (statusOf l.value).map Prod.fst := by
    rw [CgiLine.statusCode, statusOf, Option.map_map]
    rfl
  rw [hmap, h]
  rfl

/-- Only one line can have this name. -/
theorem name_ne_of_distinct {a b : List CgiLine} {s : CgiLine}
    (hdistinct : ((a ++ s :: b).map fun l => toLowerAscii l.name).Nodup) :
    ∀ l ∈ a ++ b, l.name ≠ s.name := by
  rw [List.map_append, List.map_cons, List.nodup_middle, ← List.map_append] at hdistinct
  intro l hl hname
  apply (List.nodup_cons.mp hdistinct).1
  exact List.mem_map.mpr ⟨l, hl, congrArg toLowerAscii hname⟩

theorem eq_of_distinct {lines : List CgiLine} {l s : CgiLine}
    (hdistinct : (lines.map fun l => toLowerAscii l.name).Nodup) (hl : l ∈ lines) (hs : s ∈ lines)
    (hname : toLowerAscii l.name = toLowerAscii s.name) : l = s :=
  List.inj_on_of_nodup_map hdistinct hl hs hname

/-- What it takes to redirect, where there is a `Status`. -/
theorem redirects_iff {a b : List CgiLine} {s : CgiLine} (hs : s.name = bytes "Status")
    (hdistinct : ((a ++ s :: b).map fun l => toLowerAscii l.name).Nodup) :
    Redirects (a ++ s :: b) ↔
      s.statusCode = some Status.kOk.code ∧ ∃ l ∈ b, l.name = bytes "Location" := by
  have hother := name_ne_of_distinct hdistinct
  constructor
  · rintro ⟨a', l, b', hlines, hl, hall⟩
    have hmem : s ∈ a ++ s :: b := List.mem_append_right _ List.mem_cons_self
    obtain ⟨hbefore, hcode⟩ := hall s hmem hs
    obtain ⟨x, y, rfl⟩ := List.append_of_mem hbefore
    rw [List.append_assoc, List.cons_append] at hlines
    -- the `Status` stands in one place only
    have hother' := hdistinct
    rw [hlines] at hother'
    have hx : s ∉ x := fun h => name_ne_of_distinct hother' s (List.mem_append_left _ h) rfl
    have ha : s ∉ a := fun h => hother s (List.mem_append_left _ h) rfl
    obtain ⟨-, rfl⟩ := Substring.append_cons_inj ha hx hlines
    exact ⟨hcode, l, List.mem_append_right _ List.mem_cons_self, hl⟩
  · rintro ⟨hcode, l, hmem, hl⟩
    obtain ⟨x, y, rfl⟩ := List.append_of_mem hmem
    refine ⟨a ++ s :: x, l, y, by rw [List.append_assoc, List.cons_append], hl, fun m hm hname => ?_⟩
    rw [eq_of_distinct hdistinct hm (List.mem_append_right _ List.mem_cons_self)
      (congrArg toLowerAscii (hname.trans hs.symm))]
    exact ⟨List.mem_append_right _ List.mem_cons_self, hcode⟩

/-- **The status behind the lines**: that of a `Location` line that changes it, or else that of
the `Status` line. -/
theorem storeCgiLines_status {lines : List CgiLine} {res : HttpResponse}
    (hdistinct : (lines.map fun l => toLowerAscii l.name).Nodup)
    (h : storeCgiLines (.ofStatus .kOk) lines = .ok res) :
    (Redirects lines → res.status = foundStatus) ∧
      (¬ Redirects lines →
        (∀ s ∈ lines, s.name = bytes "Status" → statusOf s.value = some res.status) ∧
        (¬ SpellsStatus lines → res.status = (HttpResponse.ofStatus .kOk).status)) := by
  by_cases hspells : SpellsStatus lines
  · obtain ⟨s, hmem, hs⟩ := hspells
    obtain ⟨a, b, rfl⟩ := List.append_of_mem hmem
    have hother := name_ne_of_distinct hdistinct
    rw [hs] at hother
    rw [redirects_iff hs hdistinct]
    -- the lines in front, the `Status`, and the lines behind it
    rw [storeCgiLines_append] at h
    rcases hfront : storeCgiLines (.ofStatus .kOk) a with e | res1
    · rw [hfront] at h
      cases h
    · rw [hfront] at h
      have h : storeCgiLines res1 (s :: b) = .ok res := h
      rcases hstore : storeCgiHeader res1 s.name s.value with e | res2
      · rw [storeCgiLines, hstore] at h
        cases h
      · rw [storeCgiLines, hstore] at h
        rw [storeCgiHeader, if_pos hs] at hstore
        have hset := storeStatus_status hstore
        have hstatus := storeCgiLines_noStatus
          (fun l hl => hother l (List.mem_append_right _ hl)) h
        have hcode : s.statusCode = some Status.kOk.code ↔ res2.statusCode = Status.kOk.code := by
          rw [CgiLine.statusCode_eq hset, Option.some.injEq]
          rfl
        rw [hcode]
        constructor
        · intro hmove
          rw [hstatus, if_pos hmove]
        · intro hmove
          rw [hstatus, if_neg hmove]
          refine ⟨fun m hm hname => ?_, fun hnot => absurd ⟨s, hmem, hs⟩ hnot⟩
          rw [eq_of_distinct hdistinct hm hmem (congrArg toLowerAscii (hname.trans hs.symm)), hset]
  · have hno : ∀ l ∈ lines, l.name ≠ bytes "Status" := fun l hl hname => hspells ⟨l, hl, hname⟩
    have hstatus := storeCgiLines_noStatus hno h
    have hredirects : Redirects lines ↔ ∃ l ∈ lines, l.name = bytes "Location" := by
      constructor
      · rintro ⟨a, l, b, rfl, hl, -⟩
        exact ⟨l, List.mem_append_right _ List.mem_cons_self, hl⟩
      · rintro ⟨l, hmem, hl⟩
        obtain ⟨a, b, rfl⟩ := List.append_of_mem hmem
        exact ⟨a, l, b, rfl, hl, fun s hs hname => absurd hname (hno s hs)⟩
    have hok : (HttpResponse.ofStatus .kOk).statusCode = Status.kOk.code := rfl
    rw [hredirects]
    constructor
    · intro hl
      rw [hstatus, if_pos ⟨hok, hl⟩]
    · intro hl
      rw [hstatus, if_neg fun hand => hl hand.2]
      exact ⟨fun s hs hname => absurd hname (hno s hs), fun _ => rfl⟩

/-! ### What is returned -/

theorem storeCgiLines_readable {lines : List CgiLine} {res res' : HttpResponse}
    (h : storeCgiLines res lines = .ok res') :
    ∀ l ∈ lines, l.name = bytes "Status" → (strToLong (l.value.takeWhile (· ≠ SP))).isSome = true := by
  induction lines generalizing res with
  | nil => exact fun l hl => absurd hl List.not_mem_nil
  | cons l ls ih =>
      rcases hstore : storeCgiHeader res l.name l.value with e | res1
      · rw [storeCgiLines, hstore] at h
        cases h
      · rw [storeCgiLines, hstore] at h
        refine List.forall_mem_cons.mpr ⟨fun hs => ?_, ih h⟩
        rw [storeCgiHeader, if_pos hs] at hstore
        have hset := storeStatus_status hstore
        rw [statusOf] at hset
        rcases hcode : strToLong (l.value.takeWhile (· ≠ SP)) with - | code
        · rw [hcode] at hset
          cases hset
        · rfl

/-- **`ParseCgiResponse`** on an output whose names are distinct. -/
theorem parseCgiResponse_text {o : CgiOutput} (hlen : o.text.length ≤ stringMaxSize)
    (hdistinct : (o.lines.map fun l => toLowerAscii l.name).Nodup) {res : HttpResponse} :
    parseCgiResponse o.text = .ok res ↔ o.Readable ∧ HasContentType o.lines ∧
      ∃ res1, storeCgiLines (.ofStatus .kOk) o.lines = .ok res1 ∧ res = res1.setBody o.cut := by
  constructor
  · intro h
    obtain ⟨i, lines, rest, res1, hi, ho, hrest, hshort, hstore, htype, rfl⟩ :=
      parseCgiResponse_reads hlen h
    obtain ⟨rfl, -⟩ := cgiText_append_inj o.endsLines hrest ho
    have hcut : o.cut = o.text.drop i := by
      rw [CgiOutput.cut, hi]
      rfl
    rw [hcut]
    have hfound : (findEndOfHeader false o.text).isSome = true := by
      rw [hi]
      rfl
    refine ⟨⟨hshort, hfound, storeCgiLines_readable hstore⟩, ?_, res1, hstore, rfl⟩
    rw [HttpResponse.hasHeader, Std.ExtTreeMap.contains_eq_isSome_getElem?] at htype
    obtain ⟨value, hvalue⟩ := Option.isSome_iff_exists.mp htype
    obtain ⟨l, hl, -, hname, -⟩ | ⟨hempty, -⟩ :=
      (storeCgiLines_headers hdistinct hstore _ value).mp hvalue
    · exact ⟨l, hl, hname⟩
    · cases hempty
  · rintro ⟨hread, ⟨l, hl, hname⟩, res1, hstore, rfl⟩
    obtain ⟨i, hi⟩ := Option.isSome_iff_exists.mp hread.found
    obtain ⟨res2, hstore2, hkeep⟩ := storeCgiLines_wellFormed hread.status (.ofStatus .kOk)
    rw [hstore] at hstore2
    obtain rfl := Except.ok.inj hstore2
    have htype : res1.hasHeader (bytes "content-type") = true := by
      refine hkeep _ (.inr ⟨l, hl, ?_, hname⟩)
      intro hs
      rw [hs] at hname
      exact absurd hname (by decide +kernel)
    rw [parseCgiResponse_eq hlen hi rfl o.endsLines hread.short hstore, if_pos htype,
      CgiOutput.cut, hi]
    rfl

/-! ### Two outputs -/

/-- The name of a line in lower case, and its value. -/
def CgiLine.entry (l : CgiLine) : Bytes × Bytes := (toLowerAscii l.name, l.value)

/-- The outputs have the same body, and the same header lines but for their order and the case
of the names, which are distinct. -/
structure SameHeader (o o' : CgiOutput) : Prop where
  distinct : (o.lines.map fun l => toLowerAscii l.name).Nodup
  perm : (o'.lines.map CgiLine.entry).Perm (o.lines.map CgiLine.entry)
  body : o'.body = o.body

/-- Both are rejected, or the responses are the same. -/
def AnsweredAlike (r r' : Except Exception HttpResponse) : Prop :=
  (∃ e e', r = .error e ∧ r' = .error e') ∨
    ∃ res res', r = .ok res ∧ r' = .ok res' ∧ res.statusCode = res'.statusCode ∧
      res.reasonPhrase = res'.reasonPhrase ∧ res.headers = res'.headers ∧ res.body = res'.body

namespace SameHeader

variable {o o' : CgiOutput}

theorem map_name (h : SameHeader o o') :
    (o'.lines.map fun l => toLowerAscii l.name).Perm (o.lines.map fun l => toLowerAscii l.name) := by
  have hperm := h.perm.map Prod.fst
  rw [List.map_map, List.map_map] at hperm
  exact hperm

theorem symm (h : SameHeader o o') : SameHeader o' o :=
  ⟨h.map_name.nodup_iff.mpr h.distinct, h.perm.symm, h.body.symm⟩

/-- Every line of one is a line of the other. -/
theorem exists_line (h : SameHeader o o') {l : CgiLine} (hl : l ∈ o.lines) :
    ∃ l' ∈ o'.lines, toLowerAscii l'.name = toLowerAscii l.name ∧ l'.value = l.value := by
  obtain ⟨l', hl', hentry⟩ := List.mem_map.mp (h.perm.symm.subset (List.mem_map_of_mem hl))
  exact ⟨l', hl', congrArg Prod.fst hentry, congrArg Prod.snd hentry⟩

theorem hasContentType (h : SameHeader o o') (htype : HasContentType o.lines) :
    HasContentType o'.lines := by
  obtain ⟨l, hl, hname⟩ := htype
  obtain ⟨l', hl', hname', -⟩ := h.exists_line hl
  exact ⟨l', hl', hname'.trans hname⟩

/-- A `Status` that is stored as a header field in one output is stored in the other. -/
theorem spellsStatus (h : SameHeader o o') {res res' : HttpResponse}
    (hstore : storeCgiLines (.ofStatus .kOk) o.lines = .ok res)
    (hstore' : storeCgiLines (.ofStatus .kOk) o'.lines = .ok res')
    (hheaders : res.headers = res'.headers) (hspells : SpellsStatus o.lines) :
    SpellsStatus o'.lines := by
  obtain ⟨s, hs, hname⟩ := hspells
  obtain ⟨s', hs', hlower, -⟩ := h.exists_line hs
  by_contra hnot
  have hspelled : s'.name ≠ bytes "Status" := fun hname' => hnot ⟨s', hs', hname'⟩
  have hstored := (storeCgiLines_headers h.symm.distinct hstore' (toLowerAscii s'.name) s'.value).mpr
    (.inl ⟨s', hs', hspelled, rfl, rfl⟩)
  rw [← hheaders] at hstored
  obtain ⟨l, hl, hstatus, hkey, -⟩ | ⟨hempty, -⟩ :=
    (storeCgiLines_headers h.distinct hstore _ _).mp hstored
  · -- the line in the other output would be `s`
    have hls := eq_of_distinct h.distinct hl hs (hkey.trans hlower)
    rw [hls] at hstatus
    exact hstatus hname
  · cases hempty

/-- A header field of one output is one of the other, where both spell a `Status` or none does. -/
theorem stores (h : SameHeader o o') (hspells : SpellsStatus o'.lines → SpellsStatus o.lines)
    {key value : Bytes} (hl : ∃ l ∈ o.lines, l.Stores key value) :
    ∃ l ∈ o'.lines, l.Stores key value := by
  obtain ⟨l, hl, hname, hkey, hvalue⟩ := hl
  obtain ⟨l', hl', hlower, hvalue'⟩ := h.exists_line hl
  refine ⟨l', hl', fun hname' => ?_, hlower.trans hkey, hvalue'.trans hvalue⟩
  obtain ⟨s, hs, hstatus⟩ := hspells ⟨l', hl', hname'⟩
  have hsl : s = l := by
    apply eq_of_distinct h.distinct hs hl
    rw [hstatus, ← hlower, hname']
  rw [hsl] at hstatus
  exact hname hstatus

theorem headers_eq (h : SameHeader o o') {res res' : HttpResponse}
    (hstore : storeCgiLines (.ofStatus .kOk) o.lines = .ok res)
    (hstore' : storeCgiLines (.ofStatus .kOk) o'.lines = .ok res')
    (hspells : SpellsStatus o.lines ↔ SpellsStatus o'.lines) : res.headers = res'.headers := by
  apply Std.ExtTreeMap.ext_getElem?
  intro key
  apply Option.ext
  intro value
  have hempty : ¬ (HttpResponse.ofStatus .kOk).headers[key]? = some value := by
    intro hsome
    cases hsome
  rw [storeCgiLines_headers h.distinct hstore, storeCgiLines_headers h.symm.distinct hstore',
    or_iff_left fun hand => hempty hand.1, or_iff_left fun hand => hempty hand.1]
  exact ⟨h.stores hspells.mpr, h.symm.stores hspells.mp⟩

/-- With the same status, a redirection in one output is one in the other. -/
theorem redirects (h : SameHeader o o') {res res' : HttpResponse}
    (hstore : storeCgiLines (.ofStatus .kOk) o.lines = .ok res)
    (hstore' : storeCgiLines (.ofStatus .kOk) o'.lines = .ok res')
    (hspells : SpellsStatus o'.lines → SpellsStatus o.lines) (hstatus : res.status = res'.status)
    (hmove : Redirects o.lines) : Redirects o'.lines := by
  by_contra hnot
  have hfound := (storeCgiLines_status h.distinct hstore).1 hmove
  obtain ⟨hset, hdefault⟩ := (storeCgiLines_status h.symm.distinct hstore').2 hnot
  rw [← hstatus, hfound] at hset hdefault
  by_cases hspells' : SpellsStatus o'.lines
  · obtain ⟨s', hs', hname'⟩ := hspells'
    obtain ⟨s, hs, hname⟩ := hspells ⟨s', hs', hname'⟩
    -- the `Status` in front of the `Location` is 200
    obtain ⟨a, l, b, -, -, hall⟩ := hmove
    have hcode := (hall s hs hname).2
    obtain ⟨s1, hs1, hlower, hvalue⟩ := h.exists_line hs
    have hsame : s1 = s' := by
      apply eq_of_distinct h.symm.distinct hs1 hs'
      rw [hlower, hname, hname']
    have hcode' := CgiLine.statusCode_eq (hset s' hs' hname')
    rw [← hsame, CgiLine.statusCode, hvalue] at hcode'
    rw [CgiLine.statusCode, hcode'] at hcode
    exact absurd (Option.some.inj hcode) (by decide)
  · exact absurd (congrArg Prod.fst (hdefault hspells')) (by decide)

theorem status_eq (h : SameHeader o o') {res res' : HttpResponse}
    (hstore : storeCgiLines (.ofStatus .kOk) o.lines = .ok res)
    (hstore' : storeCgiLines (.ofStatus .kOk) o'.lines = .ok res')
    (hspells : SpellsStatus o.lines ↔ SpellsStatus o'.lines)
    (hredirects : Redirects o.lines ↔ Redirects o'.lines) : res.status = res'.status := by
  obtain ⟨hfound, hset⟩ := storeCgiLines_status h.distinct hstore
  obtain ⟨hfound', hset'⟩ := storeCgiLines_status h.symm.distinct hstore'
  by_cases hmove : Redirects o.lines
  · rw [hfound hmove, hfound' (hredirects.mp hmove)]
  · obtain ⟨hvalue, hdefault⟩ := hset hmove
    obtain ⟨hvalue', hdefault'⟩ := hset' fun hmove' => hmove (hredirects.mpr hmove')
    by_cases hstatus : SpellsStatus o.lines
    · obtain ⟨s, hs, hname⟩ := hstatus
      obtain ⟨s', hs', hname'⟩ := hspells.mp ⟨s, hs, hname⟩
      obtain ⟨s1, hs1, hlower, hsame⟩ := h.exists_line hs
      have hs1s' : s1 = s' := by
        apply eq_of_distinct h.symm.distinct hs1 hs'
        rw [hlower, hname, hname']
      have hset1 := hvalue' s' hs' hname'
      rw [← hs1s', hsame, hvalue s hs hname] at hset1
      exact Option.some.inj hset1
    · rw [hdefault hstatus, hdefault' fun hstatus' => hstatus (hspells.mpr hstatus')]

end SameHeader

/-- What the code reads off two headers is the same: both are read or none is, they end at the
same place, both spell a `Status` or none does, and both redirect or none does. -/
structure ReadAlike (o o' : CgiOutput) : Prop where
  readable : o.Readable ↔ o'.Readable
  cut : o.Readable → o.cut = o'.cut
  spellsStatus : o.Readable → (SpellsStatus o.lines ↔ SpellsStatus o'.lines)
  redirects : o.Readable → (Redirects o.lines ↔ Redirects o'.lines)

theorem CgiOutput.Readable.stored {o : CgiOutput} (h : o.Readable) :
    ∃ res, storeCgiLines (.ofStatus .kOk) o.lines = .ok res := by
  obtain ⟨res, hstore, -⟩ := storeCgiLines_wellFormed h.status (.ofStatus .kOk)
  exact ⟨res, hstore⟩

/-- What is not accepted is an error. -/
theorem exists_error {o : CgiOutput} (hlen : o.text.length ≤ stringMaxSize)
    (hdistinct : (o.lines.map fun l => toLowerAscii l.name).Nodup)
    (h : ¬ (o.Readable ∧ HasContentType o.lines)) : ∃ e, parseCgiResponse o.text = .error e := by
  rcases hparse : parseCgiResponse o.text with e | res
  · exact ⟨e, rfl⟩
  · obtain ⟨hread, htype, -⟩ := (parseCgiResponse_text hlen hdistinct).mp hparse
    exact absurd ⟨hread, htype⟩ h

/-- **Order and case of the header lines** make no difference to `ParseCgiResponse` exactly if
there is no `Content-Type`, or the two headers are read alike. -/
theorem parseCgiResponse_answeredAlike_iff {o o' : CgiOutput} (h : SameHeader o o')
    (hlen : o.text.length ≤ stringMaxSize) (hlen' : o'.text.length ≤ stringMaxSize) :
    AnsweredAlike (parseCgiResponse o.text) (parseCgiResponse o'.text) ↔
      (HasContentType o.lines → ReadAlike o o') := by
  have hok := @parseCgiResponse_text o hlen h.distinct
  have hok' := @parseCgiResponse_text o' hlen' h.symm.distinct
  constructor
  · rintro (⟨e, e', herr, herr'⟩ | ⟨res, res', hres, hres', hcode, hreason, hheaders, hbody⟩) htype
    · -- an output that is rejected is not readable
      have hno : ¬ o.Readable := by
        intro hread
        obtain ⟨res, hstore⟩ := hread.stored
        rw [hok.mpr ⟨hread, htype, res, hstore, rfl⟩] at herr
        cases herr
      have hno' : ¬ o'.Readable := by
        intro hread
        obtain ⟨res, hstore⟩ := hread.stored
        rw [hok'.mpr ⟨hread, h.hasContentType htype, res, hstore, rfl⟩] at herr'
        cases herr'
      exact ⟨iff_of_false hno hno', fun hread => absurd hread hno, fun hread => absurd hread hno,
        fun hread => absurd hread hno⟩
    · obtain ⟨hread, -, res1, hstore, rfl⟩ := hok.mp hres
      obtain ⟨hread', -, res1', hstore', rfl⟩ := hok'.mp hres'
      have hstatus : res1.status = res1'.status := Prod.ext hcode hreason
      have hheaders : res1.headers = res1'.headers := hheaders
      have hspells : SpellsStatus o.lines ↔ SpellsStatus o'.lines :=
        ⟨h.spellsStatus hstore hstore' hheaders, h.symm.spellsStatus hstore' hstore hheaders.symm⟩
      exact ⟨iff_of_true hread hread', fun _ => hbody, fun _ => hspells, fun _ =>
        ⟨h.redirects hstore hstore' hspells.mpr hstatus,
          h.symm.redirects hstore' hstore hspells.mp hstatus.symm⟩⟩
  · intro halike
    -- either both are stored with the same status, fields and body, or both are refused
    by_cases haccept : o.Readable ∧ HasContentType o.lines
    · obtain ⟨hread, htype⟩ := haccept
      have hsame := halike htype
      obtain ⟨res, hstore⟩ := hread.stored
      obtain ⟨res', hstore'⟩ := (hsame.readable.mp hread).stored
      have hstatus := h.status_eq hstore hstore' (hsame.spellsStatus hread) (hsame.redirects hread)
      have hheaders := h.headers_eq hstore hstore' (hsame.spellsStatus hread)
      exact .inr ⟨_, _, hok.mpr ⟨hread, htype, res, hstore, rfl⟩,
        hok'.mpr ⟨hsame.readable.mp hread, h.hasContentType htype, res', hstore', rfl⟩,
        congrArg Prod.fst hstatus, congrArg Prod.snd hstatus, hheaders, hsame.cut hread⟩
    · obtain ⟨e, herr⟩ := exists_error hlen h.distinct haccept
      have haccept' : ¬ (o'.Readable ∧ HasContentType o'.lines) := by
        rintro ⟨hread', htype'⟩
        have htype := h.symm.hasContentType htype'
        exact haccept ⟨(halike htype).readable.mpr hread', htype⟩
      obtain ⟨e', herr'⟩ := exists_error hlen' h.symm.distinct haccept'
      exact .inl ⟨e, e', herr, herr'⟩

/-- An output with two header lines and a type. -/
def sampleOutput (first second : CgiLine) : CgiOutput :=
  ⟨[first, second, contentTypeLine .crlf], .crlf, bytes "hi"⟩

/-- A `Status` line that sets 200. -/
def statusOkLine : CgiLine :=
  ⟨⟨bytes "Status", bytes "200 OK", by decide +kernel, by decide +kernel⟩, .crlf⟩

/-- A `Location` line. -/
def locationLine : CgiLine :=
  ⟨⟨bytes "Location", bytes "/x", by decide +kernel, by decide +kernel⟩, .crlf⟩

/-- A header line that is neither. -/
def otherLine : CgiLine :=
  ⟨⟨bytes "X-Other", bytes "1", by decide +kernel, by decide +kernel⟩, .crlf⟩

theorem sameHeader_sample {first second : CgiLine}
    (h : ([first, second, contentTypeLine .crlf].map fun l => toLowerAscii l.name).Nodup) :
    SameHeader (sampleOutput first second) (sampleOutput second first) :=
  ⟨h, (List.Perm.swap first second _).map _, rfl⟩

/-- A `Status` and a line that is no `Location`. -/
theorem parseCgiResponse_answeredAlike_iff_other :
    AnsweredAlike (parseCgiResponse (sampleOutput statusOkLine otherLine).text)
        (parseCgiResponse (sampleOutput otherLine statusOkLine).text) ↔
      (HasContentType (sampleOutput statusOkLine otherLine).lines →
        ReadAlike (sampleOutput statusOkLine otherLine) (sampleOutput otherLine statusOkLine)) :=
  parseCgiResponse_answeredAlike_iff (sameHeader_sample (by decide +kernel)) (by decide +kernel)
    (by decide +kernel)

/-- A `Location` in front of the `Status` and behind it. -/
theorem parseCgiResponse_answeredAlike_fails :
    ¬ ∀ o o' : CgiOutput, SameHeader o o' → o'.lines.Perm o.lines → o'.blank = o.blank →
      o.text.length ≤ stringMaxSize → o'.text.length ≤ stringMaxSize →
      AnsweredAlike (parseCgiResponse o.text) (parseCgiResponse o'.text) := by
  intro h
  have hfirst : (parseCgiResponse (sampleOutput statusOkLine locationLine).text).toOption.map
      HttpResponse.statusCode = some 302 := by
    decide +kernel
  have hsecond : (parseCgiResponse (sampleOutput locationLine statusOkLine).text).toOption.map
      HttpResponse.statusCode = some 200 := by
    decide +kernel
  obtain ⟨e, e', herr, -⟩ | ⟨res, res', hres, hres', hcode, -⟩ :=
    h (sampleOutput statusOkLine locationLine) (sampleOutput locationLine statusOkLine)
      (sameHeader_sample (by decide +kernel)) (List.Perm.swap _ _ _) rfl (by decide +kernel)
      (by decide +kernel)
  · rw [herr] at hfirst
    cases hfirst
  · rw [hres] at hfirst
    rw [hres'] at hsecond
    have hfound : res.statusCode = 302 := Option.some.inj hfirst
    have hok : res'.statusCode = 200 := Option.some.inj hsecond
    rw [hfound, hok] at hcode
    exact absurd hcode (by decide)

end Webserv
