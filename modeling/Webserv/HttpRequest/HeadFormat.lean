/-
Webserv/HttpRequest/HeadFormat.lean

Request heads as data, and what the header phase makes of their text.

A `RequestHead` is a request line and a list of header fields, with the character
rules of the parser as fields of the structures.  On the text of a head the
scanning loops stop exactly at its delimiters, so the header phase is computed
here function by function: what it has stored when it reaches the blank line, and
where in the buffer the blank line is.
-/
import Webserv.HttpRequest.HeadPhase

namespace Webserv

/-! ### Heads -/

/-- A header line, `name: value`. -/
structure HeaderField where
  name : Bytes
  value : Bytes
  name_char : ∀ c ∈ name, isValidHeaderChar c = true ∧ c ≠ COLON
  value_char : ∀ c ∈ value, isValidHeaderChar c = true

/-- The line without its CRLF. -/
def HeaderField.line (f : HeaderField) : Bytes := f.name ++ COLON :: SP :: f.value

/-- A request line. -/
structure RequestLine where
  method : Method
  path : Bytes
  query : Option Bytes
  version : Bytes
  method_known : method ∈ [Method.kGet, .kHead, .kPost, .kDelete]
  path_absolute : path.head? = some SLASH
  path_char : ∀ c ∈ path, isVisibleAscii c = true ∧ c ≠ 35 ∧ c ≠ 63
  query_char : ∀ q ∈ query, ∀ c ∈ q, isVisibleAscii c = true ∧ c ≠ 35
  version_known : version = bytes "HTTP/1.1" ∨ version = bytes "HTTP/1.0"
  target_length : path.length + (query.elim 0 fun q => q.length + 1) < kMaxUriSize

/-- `?query`, if there is one. -/
def RequestLine.queryText (l : RequestLine) : Bytes := l.query.elim [] fun q => 63 :: q

/-- The line without its CRLF. -/
def RequestLine.line (l : RequestLine) : Bytes :=
  methodToString l.method ++ SP :: (l.path ++ l.queryText ++ SP :: l.version)

/-- A request line and header fields. -/
structure RequestHead where
  requestLine : RequestLine
  fields : List HeaderField

theorem http11_known : bytes "HTTP/1.1" = bytes "HTTP/1.1" ∨ bytes "HTTP/1.1" = bytes "HTTP/1.0" :=
  .inl rfl

theorem noQuery_char : ∀ q ∈ (none : Option Bytes), ∀ c ∈ q, isVisibleAscii c = true ∧ c ≠ 35 := by
  intro q hq
  cases hq

theorem host_char : ∀ c ∈ bytes "Host", isValidHeaderChar c = true ∧ c ≠ COLON := by decide +kernel

/-- The text of header fields. -/
def encodeFields (fields : List HeaderField) : Bytes :=
  (fields.map fun f => f.line ++ CRLF).flatten

/-- The text of a head, with its blank line. -/
def RequestHead.encode (h : RequestHead) : Bytes :=
  h.requestLine.line ++ CRLF ++ (encodeFields h.fields ++ CRLF)

/-! ### Characters -/

theorem isVisibleAscii_iff {c : Byte} : isVisibleAscii c = true ↔ 33 ≤ c.toNat ∧ c.toNat ≤ 126 := by
  simp [isVisibleAscii, UInt8.le_iff_toNat_le]

theorem isValidHeaderChar_iff {c : Byte} :
    isValidHeaderChar c = true ↔ 32 ≤ c.toNat ∧ c.toNat ≤ 126 := by
  simp [isValidHeaderChar, UInt8.le_iff_toNat_le]

theorem isValidHeaderChar_of_visible {c : Byte} (h : isVisibleAscii c = true) :
    isValidHeaderChar c = true := by
  obtain ⟨hlow, hhigh⟩ := isVisibleAscii_iff.mp h
  rw [isValidHeaderChar_iff]
  exact ⟨by omega, hhigh⟩

theorem ne_of_visible {c d : Byte} (h : isVisibleAscii c = true) (hd : d.toNat < 33) : c ≠ d := by
  rintro rfl
  have := (isVisibleAscii_iff.mp h).1
  omega

theorem ne_of_headerChar {c d : Byte} (h : isValidHeaderChar c = true) (hd : d.toNat < 32) :
    c ≠ d := by
  rintro rfl
  have := (isValidHeaderChar_iff.mp h).1
  omega

/-! ### The scanning loops -/

/-- A scanning loop passes the bytes in front of its stop character. -/
theorem scanUntil_pass (stop : Byte → Bool) (check : Byte → Nat → Except Exception Nat)
    (a t : Bytes) (d : Byte) (n : Nat) (hpass : ∀ c ∈ a, c ≠ 0 ∧ stop c = false)
    (hcheck : ∀ c ∈ a, ∀ m < n + a.length, check c m = .ok (m + 1))
    (hstop : d = 0 ∨ stop d = true) :
    scanUntil stop check (a ++ d :: t) n = .ok (a, n + a.length, d :: t) := by
  induction a generalizing n with
  | nil => simp [scanUntil, hstop]
  | cons c cs ih =>
      obtain ⟨⟨hzero, hnot⟩, hcs⟩ := List.forall_mem_cons.mp hpass
      have hc : check c n = .ok (n + 1) :=
        hcheck c List.mem_cons_self n (by simp only [List.length_cons]; omega)
      have ih := ih (n := n + 1) hcs fun c' hc' m hm =>
        hcheck c' (List.mem_cons_of_mem _ hc') m (by simp only [List.length_cons]; omega)
      simp only [List.cons_append, scanUntil]
      rw [if_neg (by simp [hzero, hnot]), hc]
      show (scanUntil stop check (cs ++ d :: t) (n + 1) >>= _) = _
      rw [ih]
      simp [bind, Except.bind, Nat.add_assoc, Nat.add_comm 1]

/-- A scanning loop that meets no stop character runs into the bound of its check. -/
theorem scanUntil_over {stop : Byte → Bool} {check : Byte → Nat → Except Exception Nat}
    {e : Exception} (bound : Nat) (a t : Bytes) {n : Nat}
    (hpass : ∀ c ∈ a, c ≠ 0 ∧ stop c = false)
    (hok : ∀ c ∈ a, ∀ m < bound, check c m = .ok (m + 1))
    (hover : ∀ c ∈ a, check c bound = .error e) (hn : n ≤ bound) (hlong : bound < n + a.length) :
    scanUntil stop check (a ++ t) n = .error e := by
  induction a generalizing n with
  | nil =>
      rw [List.length_nil] at hlong
      omega
  | cons c cs ih =>
      obtain ⟨⟨hzero, hnot⟩, hcs⟩ := List.forall_mem_cons.mp hpass
      obtain ⟨hc, hok⟩ := List.forall_mem_cons.mp hok
      obtain ⟨hc', hover⟩ := List.forall_mem_cons.mp hover
      rw [List.length_cons] at hlong
      rw [List.cons_append, scanUntil, if_neg (by simp [hzero, hnot])]
      rcases Nat.lt_or_eq_of_le hn with hlt | rfl
      · have hrest := ih hcs hok hover hlt (by omega)
        rw [hc n hlt]
        show (scanUntil stop check (cs ++ t) (n + 1) >>= _) = _
        rw [hrest]
        rfl
      · rw [hc']
        rfl

theorem bumpLenOrThrow_ok {total inc maxSize : Nat} (h : total + inc ≤ maxSize)
    (hmax : maxSize < sizeMod) : bumpLenOrThrow total inc maxSize = .ok (total + inc) := by
  rw [bumpLenOrThrow, subSize_of_le (by omega) hmax, addSize_of_lt (by omega), if_neg (by omega)]

theorem kMaxHeaderSize_lt : kMaxHeaderSize < sizeMod := by decide

/-! ### The request line -/

theorem consumeMethod_encode {m : Method} (hm : m ∈ [Method.kGet, .kHead, .kPost, .kDelete])
    (t : Bytes) (r : HttpRequest) :
    (consumeMethod (methodToString m ++ SP :: t)).run r = .ok t { r with method := m } := by
  simp only [List.mem_cons, List.not_mem_nil, or_false] at hm
  rcases hm with rfl | rfl | rfl | rfl <;> rfl

theorem checkUriChar_ok {c : Byte} (hvisible : isVisibleAscii c = true) (hhash : c ≠ 35) {n : Nat}
    (hn : n + 1 < kMaxUriSize) : checkUriChar c n = .ok (n + 1) := by
  rw [checkUriChar, if_neg hhash, if_neg (by omega), hvisible]
  rfl

theorem consumeUri_encode (l : RequestLine) (t : Bytes) (r : HttpRequest) :
    (consumeUri (l.path ++ l.queryText ++ SP :: t)).run r =
      .ok t { r with uri := l.path, queryString := l.query.elim r.queryString id } := by
  obtain ⟨c, cs, hpath⟩ := List.exists_cons_of_ne_nil (l := l.path) (by
    intro h
    have := l.path_absolute
    rw [h] at this
    exact nomatch this)
  have hslash : c = SLASH := by
    have := l.path_absolute
    rw [hpath] at this
    exact Option.some.inj this
  have hne : l.path ≠ [] := by simp [hpath]
  have hderef : ∀ t, deref (l.path ++ t) = SLASH := fun t => by rw [hpath, hslash]; rfl
  have hpass : ∀ c ∈ l.path, c ≠ 0 ∧ (c == SP || c == 63) = false := fun c hc => by
    obtain ⟨hvisible, -, hquery⟩ := l.path_char c hc
    have hsp := ne_of_visible hvisible (show SP.toNat < 33 by decide)
    exact ⟨ne_of_visible hvisible (by decide), by simp [hsp, hquery]⟩
  have hlen := l.target_length
  rw [List.append_assoc, consumeUri, if_neg (not_not.mpr (hderef _))]
  -- the path is ended by the space, or by `?` and a query up to the space
  rcases hq : l.query with - | q
  · have htext : l.queryText = [] := by rw [RequestLine.queryText, hq]; rfl
    have hscan := scanUntil_pass (fun c => c == SP || c == 63) checkUriChar l.path t SP 0 hpass
      (fun c hc m hm => checkUriChar_ok (l.path_char c hc).1 (l.path_char c hc).2.1 (by omega))
      (.inr rfl)
    rw [htext, List.nil_append, consumeUntilStopChar, hscan]
    simp only [EStateM.run_bind, run_call_ok, EStateM.run_modify, deref_cons, hne]
    rfl
  · have htext : l.queryText = 63 :: q := by rw [RequestLine.queryText, hq]; rfl
    rw [hq, Option.elim_some] at hlen
    have hquery := l.query_char q (by rw [hq]; rfl)
    have hscan := scanUntil_pass (fun c => c == SP || c == 63) checkUriChar l.path
      (q ++ SP :: t) 63 0 hpass
      (fun c hc m hm => checkUriChar_ok (l.path_char c hc).1 (l.path_char c hc).2.1 (by omega))
      (.inr rfl)
    have hscan' := scanUntil_pass (· == SP) checkUriChar q t SP (l.path.length + 1)
      (fun c hc => ⟨ne_of_visible (hquery c hc).1 (by decide), by
        simpa using ne_of_visible (hquery c hc).1 (show SP.toNat < 33 by decide)⟩)
      (fun c hc m hm => checkUriChar_ok (hquery c hc).1 (hquery c hc).2 (by omega)) (.inr rfl)
    rw [htext, List.cons_append, consumeUntilStopChar, hscan]
    have hbump : ¬ l.path.length + 1 ≥ kMaxUriSize := by omega
    simp only [EStateM.run_bind, run_call_ok, EStateM.run_modify, deref_cons, hne, Nat.zero_add,
      consumeOptionalQuery, List.drop_one, List.tail_cons, consumeQuery, consumeUntilStopChar,
      hscan', if_neg hbump]
    rfl

theorem consumeVersion_encode {version : Bytes}
    (hversion : version = bytes "HTTP/1.1" ∨ version = bytes "HTTP/1.0") (t : Bytes)
    (r : HttpRequest) :
    (consumeVersion (version ++ CRLF ++ t)).run r = .ok t { r with version := version } := by
  rcases hversion with rfl | rfl <;> rfl

/-! ### Header fields -/

theorem checkHeaderChar_ok {c : Byte} (hc : isValidHeaderChar c = true) {n maxSize : Nat}
    (hmax : maxSize < sizeMod) (hn : n + 1 ≤ maxSize) :
    checkHeaderChar maxSize c n = .ok (n + 1) := by
  rw [checkHeaderChar, hc, bumpLenOrThrow_ok hn hmax]
  rfl

theorem HeaderField.name_pass (f : HeaderField) :
    ∀ c ∈ f.name, isValidHeaderChar c = true ∧ (c == COLON) = false := fun c hc =>
  ⟨(f.name_char c hc).1, by simpa using (f.name_char c hc).2⟩

theorem HeaderField.value_pass (f : HeaderField) :
    ∀ c ∈ f.value, isValidHeaderChar c = true ∧ (c == CR || c == LF) = false := fun c hc => by
  have hcr := ne_of_headerChar (f.value_char c hc) (show CR.toNat < 32 by decide)
  have hlf := ne_of_headerChar (f.value_char c hc) (show LF.toNat < 32 by decide)
  exact ⟨f.value_char c hc, by simp [hcr, hlf]⟩

/-- A scanning loop over valid characters, up to its stop character. -/
theorem readUntil_pass {stop : Byte → Bool} {a t : Bytes} {d : Byte} {n maxSize : Nat}
    (hmax : maxSize < sizeMod) (hpass : ∀ c ∈ a, isValidHeaderChar c = true ∧ stop c = false)
    (hlen : n + a.length ≤ maxSize) (hstop : stop d = true) :
    readUntil stop maxSize (a ++ d :: t) n = .ok (a, n + a.length, d :: t) :=
  scanUntil_pass stop (checkHeaderChar maxSize) a t d n
    (fun c hc => ⟨ne_of_headerChar (hpass c hc).1 (by decide), (hpass c hc).2⟩)
    (fun c hc m hm => checkHeaderChar_ok (hpass c hc).1 hmax (by omega)) (.inr hstop)

theorem HeaderField.length_line (f : HeaderField) :
    f.line.length = f.name.length + f.value.length + 2 := by
  simp [HeaderField.line]
  omega

/-- **Reading the line of a field**, with an end of the line that is accepted. -/
theorem readHeaderLine_line (f : HeaderField) {strict : Bool} {eol : Bytes}
    (heol : eol = CRLF ∨ strict = false ∧ eol = [LF]) (t : Bytes) {n maxSize : Nat}
    (hmax : maxSize < sizeMod) (hlen : n + f.line.length + eol.length ≤ maxSize) :
    readHeaderLine strict (f.line ++ eol ++ t) n maxSize =
      .ok ⟨f.name, f.value, n + f.line.length + eol.length, t⟩ := by
  have hline := f.length_line
  have htext : f.line ++ eol ++ t = f.name ++ COLON :: SP :: (f.value ++ (eol ++ t)) := by
    simp [HeaderField.line]
  have hkey := readUntil_pass (t := SP :: (f.value ++ (eol ++ t))) (n := n) hmax f.name_pass
    (by omega) (show (COLON == COLON) = true from rfl)
  have hsep : ¬ (deref (COLON :: SP :: (f.value ++ (eol ++ t))) ≠ COLON ∨
      deref (COLON :: SP :: (f.value ++ (eol ++ t))).tail = 0 ∨
      deref (COLON :: SP :: (f.value ++ (eol ++ t))).tail ≠ SP) := by
    rw [List.tail_cons, deref_cons, deref_cons]
    decide
  have hbump := bumpLenOrThrow_ok (show n + f.name.length + 2 ≤ maxSize by omega) hmax
  have hbump' := bumpLenOrThrow_ok
    (show n + f.name.length + 2 + f.value.length + eol.length ≤ maxSize by omega) hmax
  have hcount : n + f.name.length + 2 + f.value.length + eol.length
      = n + f.line.length + eol.length := by omega
  rw [hcount] at hbump'
  obtain rfl | ⟨rfl, rfl⟩ := heol
  · have hval := readUntil_pass (t := LF :: t) (n := n + f.name.length + 2) hmax f.value_pass
      (by omega) (show (CR == CR || CR == LF) = true from rfl)
    have hcrlf : isCRLF (CR :: LF :: t) = true := rfl
    rw [show CRLF ++ t = CR :: LF :: t from rfl] at hkey hsep htext
    rw [show CRLF.length = 2 from rfl] at hbump' ⊢
    simp only [htext, readHeaderLine, hkey, bind, Except.bind, if_neg hsep, hbump,
      List.drop_succ_cons, List.drop_zero, hval, hcrlf, if_true, hbump']
  · have hval := readUntil_pass (t := t) (n := n + f.name.length + 2) hmax f.value_pass
      (by omega) (show (LF == CR || LF == LF) = true from rfl)
    have hcrlf : ¬ isCRLF (LF :: t) = true := by simp [isCRLF, show LF ≠ CR by decide]
    have hlf : (!false && isLF (LF :: t)) = true := rfl
    rw [show [LF] ++ t = LF :: t from rfl] at hkey hsep htext
    rw [show ([LF] : Bytes).length = 1 from rfl] at hbump' ⊢
    simp only [htext, readHeaderLine, hkey, bind, Except.bind, if_neg hsep, hbump,
      List.drop_succ_cons, List.drop_zero, hval, if_neg hcrlf, if_pos hlf, hbump']

theorem readHeaderLine_encode (f : HeaderField) (t : Bytes) {n : Nat}
    (hlen : n + f.line.length + 2 ≤ kMaxHeaderSize) :
    readHeaderLine true (f.line ++ CRLF ++ t) n kMaxHeaderSize =
      .ok ⟨f.name, f.value, n + f.line.length + 2, t⟩ :=
  readHeaderLine_line f (.inl rfl) t kMaxHeaderSize_lt hlen

/-- The header map behind the fields, as `StoreHeader` fills it. -/
def storeFields (headers : Dict) (fields : List HeaderField) : Dict :=
  fields.foldl (fun h f => h.insert (toLowerAscii f.name) f.value) headers

/-- The names are new and pairwise distinct, as `StoreHeader` compares them. -/
def DistinctNames (fields : List HeaderField) : Prop :=
  (fields.map fun f => toLowerAscii f.name).Nodup

instance (fields : List HeaderField) : Decidable (DistinctNames fields) :=
  inferInstanceAs (Decidable (List.Nodup _))

theorem storeHeader_new {key value : Bytes} {r : HttpRequest}
    (h : r.headers.contains (toLowerAscii key) = false) :
    (storeHeader key value).run r =
      .ok () { r with headers := r.headers.insert (toLowerAscii key) value } := by
  simp only [storeHeader, EStateM.run_bind, EStateM.run_get, h]
  rfl

theorem contains_insert (headers : Dict) (k a v : Bytes) :
    (headers.insert k v).contains a = (decide (k = a) || headers.contains a) := by
  rw [Std.ExtTreeMap.contains_insert]
  congr 1
  rw [Bool.eq_iff_iff, beq_iff_eq, decide_eq_true_iff]
  exact Std.compare_eq_iff_eq

theorem not_stop_field (f : HeaderField) (t : Bytes) :
    ¬ (deref (f.line ++ t) = 0 ∨ isCRLF (f.line ++ t) = true) := by
  obtain ⟨c, cs, hline, hzero, hcr⟩ : ∃ c cs, f.line = c :: cs ∧ c ≠ 0 ∧ c ≠ CR := by
    rcases hname : f.name with - | ⟨c, cs⟩
    · exact ⟨COLON, SP :: f.value, by simp [HeaderField.line, hname], by decide, by decide⟩
    · have hc := (f.name_char c (by simp [hname])).1
      exact ⟨c, cs ++ COLON :: SP :: f.value, by simp [HeaderField.line, hname],
        ne_of_headerChar hc (by decide), ne_of_headerChar hc (by decide)⟩
  rw [hline]
  simp [isCRLF, hzero, hcr]

theorem consumeHeaderLines_encode (fields : List HeaderField) (t : Bytes) {fuel n : Nat}
    {r : HttpRequest} (hfuel : fields.length < fuel)
    (hlen : n + (encodeFields fields).length ≤ kMaxHeaderSize) (hdistinct : DistinctNames fields)
    (hnew : ∀ f ∈ fields, r.headers.contains (toLowerAscii f.name) = false) :
    (consumeHeaderLines fuel (encodeFields fields ++ (CRLF ++ t)) n).run r =
      .ok (CRLF ++ t, n + (encodeFields fields).length)
        { r with headers := storeFields r.headers fields } := by
  induction fields generalizing fuel n r with
  | nil =>
      rcases fuel with - | fuel
      · omega
      · rfl
  | cons f fs ih =>
      rcases fuel with - | fuel
      · omega
      · have htext : encodeFields (f :: fs) = f.line ++ CRLF ++ encodeFields fs := by
          simp [encodeFields]
        have hlength : (encodeFields (f :: fs)).length
            = f.line.length + 2 + (encodeFields fs).length := by
          rw [htext, List.length_append, List.length_append]
          rfl
        obtain ⟨hf, hfs⟩ := List.forall_mem_cons.mp hnew
        have hnodup := List.nodup_cons.mp hdistinct
        rw [htext, List.append_assoc, List.append_assoc, consumeHeaderLines,
          if_neg (not_stop_field f _), ← List.append_assoc f.line,
          readHeaderLine_encode f _ (by omega)]
        simp only [EStateM.run_bind, run_call_ok, storeHeader_new hf]
        have hrest := @ih fuel (n + f.line.length + 2)
          { r with headers := r.headers.insert (toLowerAscii f.name) f.value }
          (by simpa using hfuel) (by omega) hnodup.2 fun g hg => by
            rw [contains_insert, hfs g hg, Bool.or_false, decide_eq_false_iff_not]
            intro heq
            have hmem : toLowerAscii g.name ∈ fs.map fun f => toLowerAscii f.name :=
              List.mem_map_of_mem hg
            rw [← heq] at hmem
            exact hnodup.1 hmem
        have hsum : n + f.line.length + 2 + (encodeFields fs).length
            = n + (f.line ++ CRLF ++ encodeFields fs).length := by
          rw [← htext, hlength]
          omega
        rw [hrest, hsum]
        rfl

theorem length_le_encodeFields (fields : List HeaderField) :
    fields.length ≤ (encodeFields fields).length := by
  induction fields with
  | nil => exact le_rfl
  | cons f fs ih =>
      have htext : encodeFields (f :: fs) = f.line ++ CRLF ++ encodeFields fs := by
        simp [encodeFields]
      rw [htext]
      simp only [List.length_append, List.length_cons, List.length_nil]
      omega

/-! ### The head -/

/-- The request behind its request line. -/
def HttpRequest.afterRequestLine (r : HttpRequest) (l : RequestLine) : HttpRequest :=
  { r with
    method := l.method
    uri := l.path
    queryString := l.query.elim r.queryString id
    version := l.version }

/-- The request after the header lines of `h`, before they are validated. -/
def HttpRequest.afterLines (r : HttpRequest) (h : RequestHead) : HttpRequest :=
  { r with
    method := h.requestLine.method
    uri := h.requestLine.path
    queryString := h.requestLine.query.elim r.queryString id
    version := h.requestLine.version
    headers := storeFields r.headers h.fields }

/-- Behind the request line the header phase goes on with the header lines. -/
theorem consumeRequestHead_requestLine (h : RequestHead) (t : Bytes) (r : HttpRequest) :
    (consumeRequestHead (h.encode ++ t)).run r =
      (consumeHeader (encodeFields h.fields ++ (CRLF ++ t))).run
        (r.afterRequestLine h.requestLine) := by
  have htext : h.encode ++ t = methodToString h.requestLine.method ++ SP ::
      (h.requestLine.path ++ h.requestLine.queryText ++ SP ::
        (h.requestLine.version ++ CRLF ++ (encodeFields h.fields ++ (CRLF ++ t)))) := by
    simp [RequestHead.encode, RequestLine.line]
  rw [htext, consumeRequestHead]
  simp only [EStateM.run_bind, consumeMethod_encode h.requestLine.method_known,
    consumeUri_encode, consumeVersion_encode h.requestLine.version_known]
  rfl

theorem fields_lt_fuel (fields : List HeaderField) (t : Bytes) :
    fields.length < (encodeFields fields ++ (CRLF ++ t)).length + 1 := by
  have hle := length_le_encodeFields fields
  rw [List.length_append]
  omega

/-- The header lines of a head whose fields fit, up to the check of the blank line. -/
theorem consumeHeader_encode {fields : List HeaderField} (t : Bytes) {r : HttpRequest}
    (hlen : (encodeFields fields).length ≤ kMaxHeaderSize) (hdistinct : DistinctNames fields)
    (hnew : r.headers = ∅) :
    (consumeHeader (encodeFields fields ++ (CRLF ++ t))).run r =
      match (validateHeaders (encodeFields fields).length).run
        { r with headers := storeFields r.headers fields } with
      | .ok _ s => .ok t s
      | .error e s => .error e s := by
  have hlines := consumeHeaderLines_encode fields t (n := 0) (r := r) (fields_lt_fuel fields t)
    (by omega) hdistinct fun f _ => by rw [hnew]; rfl
  have hcrlf : isCRLF (CRLF ++ t) = true := rfl
  simp only [consumeHeader, EStateM.run_bind, hlines, hcrlf, Bool.not_true, Bool.false_eq_true,
    if_false, Nat.zero_add]
  generalize (validateHeaders (encodeFields fields).length).run _ = result
  rcases result with ⟨u, s⟩ | ⟨e, s⟩ <;> rfl

/-- **The header phase on the text of a head**: it stores the head, and all that
is left is the validation. -/
theorem consumeRequestHead_encode (h : RequestHead) (t : Bytes) {r : HttpRequest}
    (hlen : (encodeFields h.fields).length ≤ kMaxHeaderSize) (hdistinct : DistinctNames h.fields)
    (hnew : r.headers = ∅) :
    (consumeRequestHead (h.encode ++ t)).run r =
      match (validateHeaders (encodeFields h.fields).length).run (r.afterLines h) with
      | .ok _ s => .ok t s
      | .error e s => .error e s :=
  (consumeRequestHead_requestLine h t r).trans
    (consumeHeader_encode t (r := r.afterRequestLine h.requestLine) hlen hdistinct hnew)

theorem HeaderField.line_char (f : HeaderField) : ∀ c ∈ f.line, isValidHeaderChar c = true := by
  intro c h
  simp only [HeaderField.line, List.mem_append, List.mem_cons] at h
  obtain h | rfl | rfl | h := h
  · exact (f.name_char c h).1
  · decide
  · decide
  · exact f.value_char c h

theorem field_notMem_CR (f : HeaderField) : CR ∉ f.line := CR_notMem_of_valid f.line_char

theorem requestLine_notMem_CR (l : RequestLine) : CR ∉ l.line := by
  have hmethod : CR ∉ methodToString l.method := by cases l.method <;> decide
  have hversion : CR ∉ l.version := by rcases l.version_known with h | h <;> rw [h] <;> decide
  have hpath : CR ∉ l.path := fun h =>
    absurd rfl (ne_of_visible (l.path_char _ h).1 (show CR.toNat < 33 by decide))
  have hquery : CR ∉ l.queryText := by
    rw [RequestLine.queryText]
    rcases hq : l.query with - | q
    · exact List.not_mem_nil
    · intro h
      rcases List.mem_cons.mp h with h | h
      · exact absurd h (by decide)
      · exact absurd rfl (ne_of_visible (l.query_char q (by rw [hq]; rfl) _ h).1
          (show CR.toNat < 33 by decide))
  have hsp : CR ≠ SP := by decide
  simp [RequestLine.line, hmethod, hversion, hpath, hquery, hsp]

theorem find_encodeFields (fields : List HeaderField) (t : Bytes) :
    Substring.find (CRLF ++ CRLF) (CRLF ++ (encodeFields fields ++ (CRLF ++ t))) =
      some (encodeFields fields).length := by
  have hpat : CRLF ++ CRLF = CR :: (LF :: CRLF) := rfl
  induction fields with
  | nil =>
      rw [hpat, show CRLF ++ (encodeFields [] ++ (CRLF ++ t)) = CR :: (LF :: (CRLF ++ t)) from rfl,
        Substring.find, if_pos ⟨t, rfl⟩]
      rfl
  | cons f fs ih =>
      have htext : CRLF ++ (encodeFields (f :: fs) ++ (CRLF ++ t))
          = CR :: LF :: (f.line ++ (CRLF ++ (encodeFields fs ++ (CRLF ++ t)))) := by
        simp [encodeFields]
      -- a line does not begin with CR, so the CRLF in front of it is no blank line
      have hstart : ¬ CR :: (LF :: CRLF) <+:
          CR :: LF :: (f.line ++ (CRLF ++ (encodeFields fs ++ (CRLF ++ t)))) := by
        intro h
        obtain ⟨rest, hrest⟩ := h
        have hcr : isCRLF (f.line ++ (CRLF ++ (encodeFields fs ++ (CRLF ++ t)))) = true := by
          have htail := (List.cons.inj (List.cons.inj hrest).2).2
          rw [← htail]
          rfl
        exact not_stop_field f _ (.inr hcr)
      rw [hpat] at ih ⊢
      rw [htext, Substring.find, if_neg hstart, Substring.find_cons_of_ne (by decide),
        Substring.find_append_of_notMem (field_notMem_CR f), ih]
      simp [encodeFields]
      omega

/-- **The blank line of a head is the first one** in the text. -/
theorem findEndOfHeader_encode (h : RequestHead) (t : Bytes) :
    findEndOfHeader true (h.encode ++ t) = some h.encode.length := by
  have htext : h.encode ++ t
      = h.requestLine.line ++ (CRLF ++ (encodeFields h.fields ++ (CRLF ++ t))) := by
    simp [RequestHead.encode]
  have hfind := find_encodeFields h.fields t
  rw [show CRLF ++ CRLF = CR :: (LF :: CRLF) from rfl] at hfind
  rw [findEndOfHeader_strict, htext, show CRLF ++ CRLF = CR :: (LF :: CRLF) from rfl,
    Substring.find_append_of_notMem (requestLine_notMem_CR _), hfind]
  simp [RequestHead.encode]
  omega

/-! ### A text has one reading -/

theorem HeaderField.line_inj {f g : HeaderField} (h : f.line = g.line) : f = g := by
  obtain ⟨name, value, hname, hvalue⟩ := f
  obtain ⟨name', value', hname', hvalue'⟩ := g
  have hcolon : COLON ∉ name := fun hm => (hname COLON hm).2 rfl
  have hcolon' : COLON ∉ name' := fun hm => (hname' COLON hm).2 rfl
  obtain ⟨rfl, hrest⟩ := Substring.append_cons_inj hcolon hcolon' h
  obtain rfl := (List.cons.inj hrest).2
  rfl

theorem encodeFields_inj {fields fields' : List HeaderField} {t t' : Bytes}
    (h : encodeFields fields ++ (CRLF ++ t) = encodeFields fields' ++ (CRLF ++ t')) :
    fields = fields' ∧ t = t' := by
  have hcons : ∀ (f : HeaderField) (fs : List HeaderField) (t : Bytes),
      encodeFields (f :: fs) ++ (CRLF ++ t) =
        f.line ++ CR :: (LF :: (encodeFields fs ++ (CRLF ++ t))) := fun f fs t => by
    simp [encodeFields]
  have hblank : ∀ (f : HeaderField) (fs : List HeaderField) (t t' : Bytes),
      encodeFields (f :: fs) ++ (CRLF ++ t) ≠ CRLF ++ t' := fun f fs t t' h => by
    rw [hcons] at h
    exact not_stop_field f _ (.inr (by rw [h]; rfl))
  induction fields generalizing fields' with
  | nil =>
      rcases fields' with - | ⟨g, gs⟩
      · exact ⟨rfl, by simpa [encodeFields] using h⟩
      · exact absurd h.symm (hblank g gs t' t)
  | cons f fs ih =>
      rcases fields' with - | ⟨g, gs⟩
      · exact absurd h (hblank f fs t t')
      · rw [hcons, hcons] at h
        obtain ⟨hline, hrest⟩ := Substring.append_cons_inj (field_notMem_CR f) (field_notMem_CR g) h
        obtain ⟨rfl, rfl⟩ := ih (List.cons.inj hrest).2
        exact ⟨by rw [HeaderField.line_inj hline], rfl⟩

/-- **A text has at most one reading** as a head and what follows it. -/
theorem encode_append_inj {h h' : RequestHead} {t t' : Bytes}
    (heq : h.encode ++ t = h'.encode ++ t') :
    h.requestLine.line = h'.requestLine.line ∧ h.fields = h'.fields ∧ t = t' := by
  have htext : ∀ (h : RequestHead) (t : Bytes), h.encode ++ t =
      h.requestLine.line ++ CR :: (LF :: (encodeFields h.fields ++ (CRLF ++ t))) := fun h t => by
    simp [RequestHead.encode]
  rw [htext, htext] at heq
  obtain ⟨hline, hrest⟩ :=
    Substring.append_cons_inj (requestLine_notMem_CR _) (requestLine_notMem_CR _) heq
  exact ⟨hline, encodeFields_inj (List.cons.inj hrest).2⟩

end Webserv
