/-
Webserv/ResponseFormat.lean

The text of a response as an HTTP/1.1 message.

`SelfConsistent` reads a text back: a status line with a three-digit code, header
fields without a `transfer-encoding`, a blank line, and as many bytes behind it as
`content-length` says.  The text of a response has one reading only, so the property
is one of the response's own members (`selfConsistent_iff`).
-/
import Webserv.HttpResponse
import Webserv.HttpRequest.Validation

namespace Webserv

/-! ### Self-consistent messages -/

/-- `v` is a decimal numeral of `n`. -/
def IsNumeralOf (v : Bytes) (n : Nat) : Prop :=
  v ≠ [] ∧ (∀ c ∈ v, isDigit c = true) ∧ decimalVal v = n

instance (v : Bytes) (n : Nat) : Decidable (IsNumeralOf v n) :=
  inferInstanceAs (Decidable (_ ∧ _ ∧ _))

theorem isNumeralOf_natToString (n : Nat) : IsNumeralOf (natToString n) n :=
  ⟨natToString_ne_nil n, fun _ hc => isDigit_natToString hc, decimalVal_natToString n⟩

/-- The text of a message. -/
def messageText (code reason : Bytes) (fields : List HeaderField) (body : Bytes) : Bytes :=
  bytes "HTTP/1.1" ++ SP :: (code ++ SP :: (reason ++ CRLF ++ (encodeFields fields ++ (CRLF ++ body))))

/-- What a recipient can rely on to find the end of the message. -/
structure FramedMessage (code : Nat) (fields : List HeaderField) (body : Bytes) : Prop where
  three_digits : 100 ≤ code ∧ code ≤ 599
  no_transfer_encoding : ∀ f ∈ fields, toLowerAscii f.name ≠ bytes "transfer-encoding"
  has_length : ∃ f ∈ fields, toLowerAscii f.name = bytes "content-length"
  length : ∀ f ∈ fields, toLowerAscii f.name = bytes "content-length" →
    IsNumeralOf f.value body.length

/-- The text is that of a framed message. -/
def SelfConsistent (text : Bytes) : Prop :=
  ∃ (code : Nat) (reason : Bytes) (fields : List HeaderField) (body : Bytes),
    text = messageText (natToString code) reason fields body ∧ CR ∉ reason ∧
      FramedMessage code fields body

theorem messageText_inj {code code' reason reason' : Bytes} {fields fields' : List HeaderField}
    {body body' : Bytes} (hcode : SP ∉ code) (hcode' : SP ∉ code') (hreason : CR ∉ reason)
    (hreason' : CR ∉ reason')
    (h : messageText code reason fields body = messageText code' reason' fields' body') :
    code = code' ∧ reason = reason' ∧ fields = fields' ∧ body = body' := by
  have htail := (List.cons.inj (List.append_cancel_left h)).2
  obtain ⟨rfl, hrest⟩ := Substring.append_cons_inj hcode hcode' htail
  rw [List.append_assoc, List.append_assoc] at hrest
  obtain ⟨rfl, hblock⟩ := Substring.append_cons_inj hreason hreason' hrest
  obtain ⟨rfl, rfl⟩ := encodeFields_inj (List.cons.inj hblock).2
  exact ⟨rfl, rfl, rfl, rfl⟩

/-! ### Header maps -/

theorem toLower_toLower (c : Byte) : toLower (toLower c) = toLower c := by
  revert c
  decide +kernel

theorem toLowerAscii_idem (s : Bytes) : toLowerAscii (toLowerAscii s) = toLowerAscii s := by
  simp [toLowerAscii, toLower_toLower]

theorem toLower_valid {c : Byte} (h : isValidHeaderChar c = true ∧ c ≠ COLON) :
    isValidHeaderChar (toLower c) = true ∧ toLower c ≠ COLON := by
  revert c
  decide +kernel

/-- The keys of a header map are lower-case names, its values printable. -/
def PrintableDict (d : Dict) : Prop :=
  ∀ k v, d[k]? = some v →
    (∀ c ∈ k, isValidHeaderChar c = true ∧ c ≠ COLON) ∧
      (∀ c ∈ v, isValidHeaderChar c = true) ∧ toLowerAscii k = k

theorem PrintableDict.insert {d : Dict} (h : PrintableDict d) (f : HeaderField) :
    PrintableDict (d.insert (toLowerAscii f.name) f.value) := by
  intro k v hk
  rw [getElem?_insert] at hk
  split_ifs at hk with hkey
  · cases hk
    subst hkey
    refine ⟨fun c hc => ?_, f.value_char, toLowerAscii_idem _⟩
    obtain ⟨c', hc', rfl⟩ := List.mem_map.mp hc
    exact toLower_valid (f.name_char c' hc')
  · exact h k v hk

/-- The fields of a header map. -/
theorem exists_fields {d : Dict} (h : PrintableDict d) :
    ∃ fields : List HeaderField, fields.map (fun f => (f.name, f.value)) = d.toList := by
  have hpairs : ∀ kv ∈ d.toList, (∀ c ∈ kv.1, isValidHeaderChar c = true ∧ c ≠ COLON) ∧
      ∀ c ∈ kv.2, isValidHeaderChar c = true := by
    intro kv hkv
    obtain ⟨hk, hv, -⟩ := h kv.1 kv.2 (Std.ExtTreeMap.mem_toList_iff_getElem?_eq_some.mp hkv)
    exact ⟨hk, hv⟩
  revert hpairs
  generalize d.toList = pairs
  intro hpairs
  induction pairs with
  | nil => exact ⟨[], rfl⟩
  | cons kv kvs ih =>
      obtain ⟨⟨hk, hv⟩, hkvs⟩ := List.forall_mem_cons.mp hpairs
      obtain ⟨fields, hfields⟩ := ih hkvs
      exact ⟨⟨kv.1, kv.2, hk, hv⟩ :: fields, by rw [List.map_cons, hfields]⟩

/-- What the map says of its fields. -/
theorem mem_fields {d : Dict} {fields : List HeaderField}
    (hfields : fields.map (fun f => (f.name, f.value)) = d.toList) (key v : Bytes) :
    (∃ f ∈ fields, f.name = key ∧ f.value = v) ↔ d[key]? = some v := by
  rw [← Std.ExtTreeMap.mem_toList_iff_getElem?_eq_some, ← hfields, List.mem_map]
  simp only [Prod.mk.injEq]

/-! ### The text of a response -/

/-- A response whose text can be read back. -/
structure HttpResponse.Printable (res : HttpResponse) : Prop where
  version_eq : res.version = bytes "HTTP/1.1"
  reason : CR ∉ res.reasonPhrase
  headers : PrintableDict res.headers

theorem isValidHeaderChar_of_isDigit {c : Byte} (h : isDigit c = true) :
    isValidHeaderChar c = true := by
  revert c
  decide +kernel

/-- A length is added if the map frames no body. -/
def withLength (d : Dict) (length : Nat) : Dict :=
  if d.contains (bytes "content-length") || d.contains (bytes "transfer-encoding") then d
  else d.insert (bytes "content-length") (natToString length)

/-- A date is added if there is none. -/
def withDate (d : Dict) : Option Bytes → Dict
  | some date => if d.contains (bytes "date") then d else d.insert (bytes "date") date
  | none => d

theorem finalHeaders_eq (res : HttpResponse) (date : Option Bytes) :
    res.finalHeaders date = withLength (withDate res.headers date) res.body.length := by
  cases date with
  | none => rfl
  | some date => rfl

theorem withDate_getElem? (d : Dict) (date : Option Bytes) {key : Bytes}
    (hkey : key ≠ bytes "date") : (withDate d date)[key]? = d[key]? := by
  cases date with
  | none => rfl
  | some date =>
      rw [withDate]
      split_ifs
      · rfl
      · rw [getElem?_insert, if_neg hkey.symm]

theorem withLength_getElem? (d : Dict) (length : Nat) (key : Bytes) :
    (withLength d length)[key]? =
      if key = bytes "content-length" ∧ d[bytes "content-length"]? = none ∧
          d[bytes "transfer-encoding"]? = none then some (natToString length)
      else d[key]? := by
  rw [withLength, Std.ExtTreeMap.contains_eq_isSome_getElem?,
    Std.ExtTreeMap.contains_eq_isSome_getElem?]
  rcases hcl : d[bytes "content-length"]? with - | v
  · rcases hte : d[bytes "transfer-encoding"]? with - | v'
    · by_cases hkey : key = bytes "content-length"
      · rw [if_neg (by decide), getElem?_insert, if_pos hkey.symm, if_pos ⟨hkey, rfl, rfl⟩]
      · rw [if_neg (by decide), getElem?_insert, if_neg (Ne.symm hkey), if_neg fun h => hkey h.1]
    · rw [if_pos (by simp), if_neg (by simp)]
  · rw [if_pos (by simp), if_neg (by simp)]

theorem finalHeaders_printable {res : HttpResponse} (h : PrintableDict res.headers)
    {date : Option Bytes} (hdate : ∀ d ∈ date, ∀ c ∈ d, isValidHeaderChar c = true) :
    PrintableDict (res.finalHeaders date) := by
  have hdated : PrintableDict (withDate res.headers date) := by
    rcases date with - | date
    · exact h
    · rw [withDate]
      split_ifs
      · exact h
      · exact h.insert ⟨bytes "date", date, by decide +kernel, hdate date rfl⟩
  rw [finalHeaders_eq, withLength]
  split_ifs
  · exact hdated
  · exact hdated.insert ⟨bytes "content-length", natToString res.body.length, by decide +kernel,
      fun c hc => isValidHeaderChar_of_isDigit (isDigit_natToString hc)⟩

theorem intToString_eq_natToString {n : Int} {m : Nat} (h : intToString n = natToString m) :
    n = m := by
  cases n with
  | ofNat k =>
      have hval := congrArg decimalVal (show natToString k = natToString m from h)
      rw [decimalVal_natToString, decimalVal_natToString] at hval
      rw [hval]
      rfl
  | negSucc k =>
      -- a minus sign is no digit
      have hmem : (45 : Byte) ∈ natToString m := by
        rw [← h]
        exact List.mem_cons_self
      exact absurd (isDigit_natToString hmem) (by decide)

theorem SP_notMem_natToString (n : Nat) : SP ∉ natToString n := fun h =>
  absurd (isDigit_natToString h) (by decide)

theorem SP_notMem_intToString (n : Int) : SP ∉ intToString n := by
  cases n with
  | ofNat k => exact SP_notMem_natToString k
  | negSucc k =>
      intro h
      obtain h | h := List.mem_cons.mp h
      · exact absurd h (by decide)
      · exact SP_notMem_natToString _ h

theorem toHttpString_eq {res : HttpResponse} (hversion : res.version = bytes "HTTP/1.1")
    {date : Option Bytes} {fields : List HeaderField}
    (hfields : fields.map (fun f => (f.name, f.value)) = (res.finalHeaders date).toList) :
    res.toHttpString date =
      messageText (intToString res.statusCode) res.reasonPhrase fields res.body := by
  rw [HttpResponse.toHttpString, ← hfields, List.map_map, hversion, messageText, encodeFields]
  simp [Function.comp_def, HeaderField.line]

/-- **The framing of a response** is decided by its members. -/
theorem selfConsistent_iff {res : HttpResponse} (hres : res.Printable) {date : Option Bytes}
    (hdate : ∀ d ∈ date, ∀ c ∈ d, isValidHeaderChar c = true) :
    SelfConsistent (res.toHttpString date) ↔
      (100 ≤ res.statusCode ∧ res.statusCode ≤ 599) ∧
        res.headers[bytes "transfer-encoding"]? = none ∧
        ∀ v, res.headers[bytes "content-length"]? = some v → IsNumeralOf v res.body.length := by
  have hprintable := finalHeaders_printable hres.headers hdate
  obtain ⟨fields, hfields⟩ := exists_fields hprintable
  have hcl := withLength_getElem? (withDate res.headers date) res.body.length (bytes "content-length")
  have hte := withLength_getElem? (withDate res.headers date) res.body.length
    (bytes "transfer-encoding")
  rw [← finalHeaders_eq, withDate_getElem? _ _ (by decide),
    withDate_getElem? _ _ (by decide)] at hcl hte
  rw [if_neg fun h => absurd h.1 (by decide)] at hte
  rw [toHttpString_eq hres.version_eq hfields]
  -- the names of the fields are in lower case, so the map finds them
  have hlower : ∀ f ∈ fields, toLowerAscii f.name = f.name ∧
      (res.finalHeaders date)[f.name]? = some f.value := by
    intro f hf
    have hkey := (mem_fields hfields f.name f.value).mp ⟨f, hf, rfl, rfl⟩
    exact ⟨(hprintable _ _ hkey).2.2, hkey⟩
  constructor
  · rintro ⟨code, reason, fields', body, htext, hreason, hframed⟩
    obtain ⟨hcode, -, rfl, rfl⟩ := messageText_inj (SP_notMem_intToString _)
      (SP_notMem_natToString _) hres.reason hreason htext
    have hcode := intToString_eq_natToString hcode
    refine ⟨?_, ?_, ?_⟩
    · have hdigits := hframed.three_digits
      omega
    · rw [← hte]
      rcases hfinal : (res.finalHeaders date)[bytes "transfer-encoding"]? with - | v
      · rfl
      · obtain ⟨f, hf, hname, -⟩ := (mem_fields hfields _ v).mpr hfinal
        exact absurd ((hlower f hf).1.trans hname) (hframed.no_transfer_encoding f hf)
    · intro v hv
      rw [if_neg (fun h => by rw [h.2.1] at hv; cases hv), hv] at hcl
      obtain ⟨f, hf, hname, rfl⟩ := (mem_fields hfields _ v).mpr hcl
      exact hframed.length f hf ((hlower f hf).1.trans hname)
  · rintro ⟨hcode, hnone, hlength⟩
    obtain ⟨code, hcode'⟩ := Int.eq_ofNat_of_zero_le (show 0 ≤ res.statusCode by omega)
    refine ⟨code, res.reasonPhrase, fields, res.body, ?_, hres.reason, ?_⟩
    · rw [hcode']
      rfl
    · have hnumeral : ∃ v, (res.finalHeaders date)[bytes "content-length"]? = some v ∧
          IsNumeralOf v res.body.length := by
        rcases hv : res.headers[bytes "content-length"]? with - | v
        · rw [if_pos ⟨rfl, hv, hnone⟩] at hcl
          exact ⟨_, hcl, isNumeralOf_natToString _⟩
        · rw [if_neg (fun h => by rw [h.2.1] at hv; cases hv), hv] at hcl
          exact ⟨v, hcl, hlength v hv⟩
      obtain ⟨v, hv, hnumeral⟩ := hnumeral
      refine ⟨by omega, fun f hf hname => ?_, ?_, fun f hf hname => ?_⟩
      · obtain ⟨hlow, hget⟩ := hlower f hf
        rw [← hlow, hname, hte, hnone] at hget
        cases hget
      · obtain ⟨f, hf, hname, -⟩ := (mem_fields hfields _ v).mpr hv
        exact ⟨f, hf, (hlower f hf).1.trans hname⟩
      · obtain ⟨hlow, hget⟩ := hlower f hf
        rw [← hlow, hname, hv] at hget
        cases hget
        exact hnumeral

end Webserv
