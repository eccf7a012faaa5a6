/-
Webserv/ResponseReader.lean

Reading a response back from its text.

The reader knows nothing of the response: it cuts the text at the first empty line, the
head at every line end, and a header line at its first colon with a space behind it.
What it gets is what the calls of `SetStatus`, `AddHeader` and `SetBody` have said last:
no value and no body moves a boundary.
-/
import Webserv.ResponseFormat
import Webserv.Theory.Lines

namespace Webserv

open Lines

/-! ### Building a response -/

/-- A call on a response. -/
inductive ResponseCall
  | setStatus (code : Int)
  | setStatusReason (code : Int) (reasonPhrase : Bytes)
  | addHeader (key value : Bytes)
  | setBody (body : Bytes)

/-- The response behind a call.  An `AddHeader` that throws has changed nothing. -/
def ResponseCall.apply (res : HttpResponse) : ResponseCall → HttpResponse
  | .setStatus code => res.setStatus code
  | .setStatusReason code reasonPhrase => res.setStatusReason code reasonPhrase
  | .addHeader key value =>
      match res.addHeader key value with
      | .ok res => res
      | .error _ => res
  | .setBody body => res.setBody body

/-- The response behind all of them. -/
def built (calls : List ResponseCall) : HttpResponse := calls.foldl ResponseCall.apply {}

/-! ### What the calls say last -/

/-- What a call tells of the status line. -/
def ResponseCall.status : ResponseCall → Option (Int × Bytes)
  | .setStatus code => some (code, statusToString code)
  | .setStatusReason code reasonPhrase => some (code, reasonPhrase)
  | _ => none

/-- What a call tells of a header. -/
def ResponseCall.header (name : Bytes) : ResponseCall → Option Bytes
  | .addHeader key value =>
      if toLowerAscii key = name ∧ breaksLine key = false ∧ breaksLine value = false then some value
      else none
  | _ => none

/-- What a call tells of the body. -/
def ResponseCall.body : ResponseCall → Option Bytes
  | .setBody body => some body
  | _ => none

/-- What is said last. -/
def said {α : Type} (view : ResponseCall → Option α) (calls : List ResponseCall) : Option α :=
  calls.reverse.findSome? view

theorem said_append {α : Type} (view : ResponseCall → Option α) (calls : List ResponseCall)
    (call : ResponseCall) : said view (calls ++ [call]) = (view call).or (said view calls) := by
  rw [said, List.reverse_append, List.reverse_singleton, List.singleton_append,
    List.findSome?_cons]
  cases view call with
  | none => rfl
  | some a => rfl

theorem exists_of_said {α : Type} {view : ResponseCall → Option α} {calls : List ResponseCall}
    {a : α} (h : said view calls = some a) : ∃ call ∈ calls, view call = some a := by
  obtain ⟨call, hmem, hview⟩ := List.exists_of_findSome?_eq_some h
  exact ⟨call, List.mem_reverse.mp hmem, hview⟩

theorem built_append (calls : List ResponseCall) (call : ResponseCall) :
    built (calls ++ [call]) = call.apply (built calls) := by
  rw [built, List.foldl_append]
  rfl

/-- **The members of a response** are what its calls have said last. -/
theorem built_said (calls : List ResponseCall) :
    (built calls).version = bytes "HTTP/1.1" ∧
      ((built calls).statusCode, (built calls).reasonPhrase) =
        (said ResponseCall.status calls).getD (200, bytes "OK") ∧
      (∀ name, (built calls).headers[name]? = said (ResponseCall.header name) calls) ∧
      (built calls).body = (said ResponseCall.body calls).getD [] := by
  induction calls using List.reverseRecOn with
  | nil => exact ⟨rfl, rfl, fun name => by simp [built, said], rfl⟩
  | append_singleton calls call ih =>
      obtain ⟨hversion, hstatus, hheaders, hbody⟩ := ih
      rw [built_append]
      simp only [said_append]
      cases call with
      | setStatus code => exact ⟨hversion, rfl, hheaders, hbody⟩
      | setStatusReason code reasonPhrase => exact ⟨hversion, rfl, hheaders, hbody⟩
      | setBody body => exact ⟨hversion, hstatus, hheaders, rfl⟩
      | addHeader key value =>
          simp only [ResponseCall.status, ResponseCall.body, ResponseCall.header, Option.none_or,
            ResponseCall.apply, HttpResponse.addHeader]
          by_cases hbreaks : breaksLine key || breaksLine value
          · rw [if_pos hbreaks]
            refine ⟨hversion, hstatus, fun name => ?_, hbody⟩
            rw [if_neg, Option.none_or]
            · exact hheaders name
            · rintro ⟨-, hkey, hvalue⟩
              rw [hkey, hvalue] at hbreaks
              cases hbreaks
          · rw [if_neg hbreaks]
            rw [Bool.or_eq_true, not_or, Bool.not_eq_true, Bool.not_eq_true] at hbreaks
            refine ⟨hversion, hstatus, fun name => ?_, hbody⟩
            show ((built calls).headers.insert (toLowerAscii key) value)[name]? = _
            rw [getElem?_insert, hheaders]
            by_cases hname : toLowerAscii key = name
            · rw [if_pos hname, if_pos ⟨hname, hbreaks⟩]
              rfl
            · rw [if_neg hname, if_neg fun h => hname h.1]
              rfl

/-! ### Keys and values -/

theorem notMem_toLowerAscii {c : Byte} {s : Bytes} (hc : ∀ d, toLower d = c → d = c) (h : c ∉ s) :
    c ∉ toLowerAscii s := by
  intro hmem
  obtain ⟨d, hd, hdc⟩ := List.mem_map.mp hmem
  exact h (hc d hdc ▸ hd)

theorem CR_notMem_of_breaksLine {s : Bytes} (h : breaksLine s = false) : CR ∉ s := by
  intro hmem
  rw [breaksLine, List.contains_iff_mem.mpr hmem] at h
  cases h

/-- The keys of a response have no colon, and neither they nor the values break a line. -/
theorem built_headers {calls : List ResponseCall}
    (hkeys : ∀ key value, .addHeader key value ∈ calls → COLON ∉ key) {name value : Bytes}
    (h : (built calls).headers[name]? = some value) : COLON ∉ name ∧ CR ∉ name ∧ CR ∉ value := by
  rw [(built_said calls).2.2.1] at h
  obtain ⟨call, hmem, hview⟩ := exists_of_said h
  cases call with
  | addHeader key value' =>
      rw [ResponseCall.header] at hview
      split_ifs at hview with hcond
      obtain ⟨rfl, hkey, hvalue⟩ := hcond
      obtain rfl := Option.some.inj hview
      refine ⟨notMem_toLowerAscii ?_ (hkeys key _ hmem), notMem_toLowerAscii ?_
        (CR_notMem_of_breaksLine hkey), CR_notMem_of_breaksLine hvalue⟩
      · decide +kernel
      · decide +kernel
  | setStatus code => cases hview
  | setStatusReason code reasonPhrase => cases hview
  | setBody body => cases hview

theorem CR_notMem_statusToString (code : Int) : CR ∉ statusToString code := by
  have hreasons : ∀ status : Status, CR ∉ status.reason := by
    intro status
    cases status
    all_goals decide +kernel
  unfold statusToString
  split
  · exact hreasons _
  · decide +kernel

/-- A reason phrase breaks no line if none that was given does. -/
theorem built_reason {calls : List ResponseCall}
    (hreason : ∀ code reasonPhrase, .setStatusReason code reasonPhrase ∈ calls →
      CR ∉ reasonPhrase) : CR ∉ (built calls).reasonPhrase := by
  have hsaid := congrArg Prod.snd (built_said calls).2.1
  dsimp only at hsaid
  rw [hsaid]
  rcases hstatus : said ResponseCall.status calls with - | ⟨code, reasonPhrase⟩
  · decide
  · obtain ⟨call, hmem, hview⟩ := exists_of_said hstatus
    cases call with
    | setStatus code' =>
        obtain ⟨-, rfl⟩ := Prod.mk.inj (Option.some.inj hview)
        exact CR_notMem_statusToString _
    | setStatusReason code' reasonPhrase' =>
        obtain ⟨rfl, rfl⟩ := Prod.mk.inj (Option.some.inj hview)
        exact hreason _ _ hmem
    | addHeader key value => cases hview
    | setBody body => cases hview

/-! ### The headers that are sent -/

/-- The value sent for a header: what was said of it, or else a date, and a length where
no header frames the body. -/
def sentHeader (calls : List ResponseCall) (date : Option Bytes) (name : Bytes) : Option Bytes :=
  match said (ResponseCall.header name) calls with
  | some value => some value
  | none =>
      if name = bytes "date" then date
      else if name = bytes "content-length" ∧
          said (ResponseCall.header (bytes "transfer-encoding")) calls = none then
        some (natToString ((said ResponseCall.body calls).getD []).length)
      else none

theorem withDate_date (d : Dict) (date : Option Bytes) :
    (withDate d date)[bytes "date"]? = (d[bytes "date"]?).or date := by
  rcases date with - | date
  · exact (Option.or_none).symm
  · rw [withDate, Std.ExtTreeMap.contains_eq_isSome_getElem?]
    rcases h : d[bytes "date"]? with - | value
    · rw [if_neg (by simp), getElem?_insert, if_pos rfl]
      rfl
    · rw [if_pos (by simp), h]
      rfl

theorem finalHeaders_sent (calls : List ResponseCall) (date : Option Bytes) (name : Bytes) :
    ((built calls).finalHeaders date)[name]? = sentHeader calls date name := by
  obtain ⟨-, -, hheaders, hbody⟩ := built_said calls
  have hlength : bytes "content-length" ≠ bytes "date" := by decide +kernel
  have hcoding : bytes "transfer-encoding" ≠ bytes "date" := by decide +kernel
  rw [finalHeaders_eq, withLength_getElem?, hbody, withDate_getElem? _ _ hlength,
    withDate_getElem? _ _ hcoding, hheaders, hheaders]
  unfold sentHeader
  by_cases hdate : name = bytes "date"
  · rw [if_neg fun h => hlength (h.1.symm.trans hdate), hdate, withDate_date, hheaders]
    cases said (ResponseCall.header (bytes "date")) calls with
    | none => rfl
    | some value => rfl
  · rw [withDate_getElem? _ _ hdate, hheaders]
    by_cases hname : name = bytes "content-length"
    · rw [hname]
      cases said (ResponseCall.header (bytes "content-length")) calls with
      | none => simp [hlength]
      | some value => simp
    · rw [if_neg fun h => hname h.1]
      cases said (ResponseCall.header name) calls with
      | none => simp [hdate, hname]
      | some value => rfl

/-! ### The reader -/

/-- A response, as a client sees it. -/
structure Message where
  version : Bytes
  code : Int
  reasonPhrase : Bytes
  fields : List (Bytes × Bytes)
  body : Bytes

/-- The integer a numeral stands for. -/
def readInt : Bytes → Int
  | 45 :: digits => -decimalVal digits
  | digits => decimalVal digits

/-- The message with these lines in its head. -/
def readLines (body : Bytes) : List Bytes → Option Message
  | [] => none
  | statusLine :: fieldLines => do
      let (version, rest) ← cut [SP] statusLine
      let (code, reasonPhrase) ← cut [SP] rest
      let fields ← fieldLines.mapM (cut [COLON, SP])
      return ⟨version, readInt code, reasonPhrase, fields, body⟩

/-- The message that a text holds. -/
def readMessage (text : Bytes) : Option Message := do
  let (head, body) ← cut (CRLF ++ CRLF) text
  readLines body (lines CR LF head)

theorem readInt_intToString (n : Int) : readInt (intToString n) = n := by
  cases n with
  | ofNat n =>
      have hdigits : ∀ s : Bytes, (∀ c ∈ s, isDigit c = true) → readInt s = decimalVal s := by
        intro s hs
        rcases s with - | ⟨c, s⟩
        · rfl
        · have hc : c ≠ 45 := by
            rintro rfl
            exact absurd (hs 45 List.mem_cons_self) (by decide)
          unfold readInt
          split
          · rename_i h
            exact absurd (List.cons.inj h).1 hc
          · rfl
      show readInt (natToString n) = n
      rw [hdigits _ fun c hc => isDigit_natToString hc, decimalVal_natToString]
  | negSucc n =>
      show -((decimalVal (natToString (n + 1)) : Nat) : Int) = Int.negSucc n
      rw [decimalVal_natToString]
      rfl

theorem CR_notMem_intToString (n : Int) : CR ∉ intToString n := by
  cases n with
  | ofNat n => exact fun h => absurd (isDigit_natToString h) (by decide)
  | negSucc n =>
      intro h
      rcases List.mem_cons.mp h with h | h
      · exact absurd h (by decide)
      · exact absurd (isDigit_natToString h) (by decide)

/-- A header line. -/
def fieldLine (field : Bytes × Bytes) : Bytes := field.1 ++ [COLON, SP] ++ field.2

/-- The status line. -/
def HttpResponse.statusLine (res : HttpResponse) : Bytes :=
  res.version ++ [SP] ++ intToString res.statusCode ++ [SP] ++ res.reasonPhrase

theorem toHttpString_ended (res : HttpResponse) (date : Option Bytes) :
    res.toHttpString date =
      ended CR LF (res.statusLine :: (res.finalHeaders date).toList.map fieldLine) ++
        CR :: LF :: res.body := by
  rw [HttpResponse.toHttpString, ended_cons, ended, List.map_map]
  have hlines : ((· ++ [CR, LF]) ∘ fieldLine) = fun field : Bytes × Bytes =>
      field.1 ++ [COLON, SP] ++ field.2 ++ CRLF := rfl
  rw [hlines]
  simp [HttpResponse.statusLine]

theorem mapM_fieldLine {fields : List (Bytes × Bytes)} (h : ∀ f ∈ fields, COLON ∉ f.1) :
    (fields.map fieldLine).mapM (cut [COLON, SP]) = some fields := by
  induction fields with
  | nil => rfl
  | cons f fs ih =>
      obtain ⟨hf, hfs⟩ := List.forall_mem_cons.mp h
      rw [List.map_cons, List.mapM_cons, fieldLine, cut_append_of_notMem hf, ih hfs]
      rfl

/-- The headers that are sent move no boundary. -/
theorem sentHeader_clean {calls : List ResponseCall}
    (hkeys : ∀ key value, .addHeader key value ∈ calls → COLON ∉ key) {date : Option Bytes}
    (hdate : ∀ d ∈ date, CR ∉ d) {name value : Bytes} (h : sentHeader calls date name = some value) :
    COLON ∉ name ∧ CR ∉ name ∧ CR ∉ value := by
  unfold sentHeader at h
  split at h
  · rename_i hsaid
    rw [← (built_said calls).2.2.1, Option.some.inj h] at hsaid
    exact built_headers hkeys hsaid
  · split_ifs at h with hname hname
    · rw [hname]
      exact ⟨by decide +kernel, by decide +kernel, hdate value h⟩
    · rw [hname.1, ← Option.some.inj h]
      refine ⟨by decide +kernel, by decide +kernel, fun hmem => ?_⟩
      exact absurd (isDigit_natToString hmem) (by decide)

theorem cut_statusLine {res : HttpResponse} (hversion : SP ∉ res.version) :
    cut [SP] res.statusLine =
        some (res.version, intToString res.statusCode ++ [SP] ++ res.reasonPhrase) ∧
      cut [SP] (intToString res.statusCode ++ [SP] ++ res.reasonPhrase) =
        some (intToString res.statusCode, res.reasonPhrase) := by
  refine ⟨?_, cut_append_of_notMem (SP_notMem_intToString _) _⟩
  have hline : res.statusLine =
      res.version ++ [SP] ++ (intToString res.statusCode ++ [SP] ++ res.reasonPhrase) := by
    simp [HttpResponse.statusLine]
  rw [hline]
  exact cut_append_of_notMem hversion _

/-- **Serialisation is read back**: the reader gets the version, the status, the headers
and the body that the calls have said last, and besides only the date and the length. -/
theorem readMessage_toHttpString {calls : List ResponseCall}
    (hkeys : ∀ key value, .addHeader key value ∈ calls → COLON ∉ key)
    (hreason : ∀ code reasonPhrase, .setStatusReason code reasonPhrase ∈ calls →
      CR ∉ reasonPhrase ∧ LF ∉ reasonPhrase)
    {date : Option Bytes} (hdate : ∀ d ∈ date, CR ∉ d) :
    ∃ fields, readMessage ((built calls).toHttpString date) =
        some
          { version := bytes "HTTP/1.1"
            code := ((said ResponseCall.status calls).getD (200, bytes "OK")).1
            reasonPhrase := ((said ResponseCall.status calls).getD (200, bytes "OK")).2
            fields := fields
            body := (said ResponseCall.body calls).getD [] } ∧
      (fields.map Prod.fst).Nodup ∧
      ∀ name value, (name, value) ∈ fields ↔ sentHeader calls date name = some value := by
  obtain ⟨hversion, hstatus, hheaders, hbody⟩ := built_said calls
  have hsent := finalHeaders_sent calls date
  have hmem : ∀ name value, (name, value) ∈ ((built calls).finalHeaders date).toList ↔
      sentHeader calls date name = some value := by
    intro name value
    rw [Std.ExtTreeMap.mem_toList_iff_getElem?_eq_some, hsent]
  refine ⟨((built calls).finalHeaders date).toList, ?_, ?_, hmem⟩
  · -- the lines of the head
    have hclean : ∀ f ∈ ((built calls).finalHeaders date).toList,
        COLON ∉ f.1 ∧ CR ∉ f.1 ∧ CR ∉ f.2 :=
      fun f hf => sentHeader_clean hkeys hdate ((hmem f.1 f.2).mp hf)
    have hstatusLine : CR ∉ (built calls).statusLine := by
      have hphrase := built_reason fun code phrase h => (hreason code phrase h).1
      have hcode := CR_notMem_intToString (built calls).statusCode
      rw [HttpResponse.statusLine, hversion]
      simp only [List.mem_append, not_or]
      exact ⟨⟨⟨⟨by decide +kernel, by decide⟩, hcode⟩, by decide⟩, hphrase⟩
    have hlines : ∀ l ∈ (built calls).statusLine ::
        ((built calls).finalHeaders date).toList.map fieldLine, l ≠ [] ∧ CR ∉ l := by
      refine List.forall_mem_cons.mpr ⟨⟨?_, hstatusLine⟩, fun l hl => ?_⟩
      · simp [HttpResponse.statusLine]
      · obtain ⟨f, hf, rfl⟩ := List.mem_map.mp hl
        obtain ⟨-, hname, hvalue⟩ := hclean f hf
        refine ⟨by simp [fieldLine], ?_⟩
        simp only [fieldLine, List.mem_append, not_or]
        exact ⟨⟨hname, by decide⟩, hvalue⟩
    -- the empty line behind them is the first place where two line ends meet
    have hcut := @cut_statusLine (built calls) (by rw [hversion]; decide +kernel)
    have hhead := cut_ended (List.cons_ne_nil _ _) hlines (show CR ≠ LF by decide) (built calls).body
    have hread : readMessage ((built calls).toHttpString date) = readLines (built calls).body
        ((built calls).statusLine :: ((built calls).finalHeaders date).toList.map fieldLine) := by
      rw [readMessage, toHttpString_ended, show CRLF ++ CRLF = [CR, LF, CR, LF] from rfl, hhead]
      show readLines _ (lines CR LF _) = _
      rw [lines_intercalate (List.cons_ne_nil _ _) fun l hl => (hlines l hl).2]
    have hfields := mapM_fieldLine fun f hf => (hclean f hf).1
    rw [hread, readLines, hcut.1, ← hbody, ← hstatus, ← hversion]
    simp only [Option.bind_eq_bind, Option.bind_some, hcut.2, hfields, readInt_intToString]
    rfl
  · rw [Std.ExtTreeMap.map_fst_toList_eq_keys]
    exact Std.ExtTreeMap.nodup_keys

/-- A value with a colon in it, set twice, and a body that begins with a blank line. -/
def blankCalls : List ResponseCall :=
  [.setStatus 404, .addHeader (bytes "X-A") (bytes "1"), .addHeader (bytes "x-a") (bytes "b: c"),
    .setStatusReason (-5) (bytes "Not a code"), .setBody (CRLF ++ CRLF ++ bytes "end")]

theorem readMessage_toHttpString_blank :
    ∃ fields, readMessage ((built blankCalls).toHttpString none) =
        some
          { version := bytes "HTTP/1.1"
            code := -5
            reasonPhrase := bytes "Not a code"
            fields := fields
            body := CRLF ++ CRLF ++ bytes "end" } ∧
      (fields.map Prod.fst).Nodup ∧
      ∀ name value, (name, value) ∈ fields ↔ sentHeader blankCalls none name = some value := by
  refine readMessage_toHttpString ?_ ?_ ?_
  · intro key value h
    simp only [blankCalls, List.mem_cons, ResponseCall.addHeader.injEq, reduceCtorEq, false_or,
      List.not_mem_nil, or_false] at h
    rcases h with ⟨rfl, -⟩ | ⟨rfl, -⟩
    · decide +kernel
    · decide +kernel
  · intro code reasonPhrase h
    simp only [blankCalls, List.mem_cons, ResponseCall.setStatusReason.injEq, reduceCtorEq,
      false_or, List.not_mem_nil, or_false] at h
    obtain ⟨-, rfl⟩ := h
    decide +kernel
  · exact fun d hd => absurd hd (by simp)

end Webserv
