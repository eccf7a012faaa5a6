/-
Webserv/HttpRequest/HeadSound.lean

What the header phase accepts.

The converse of the round trip: when the request line and the header lines of a
text have been read, the text is that of a `RequestHead`, followed by whatever is
left.  Until then every exception is a status that blames the client.  Behind the
lines only the validation can throw, so all that can be said about an accepted or
refused head is a matter of its fields.
-/
import Webserv.HttpRequest.Validation

namespace Webserv

/-! ### Exceptions that blame the client -/

/-- An exception that is reported to the client as its own fault. -/
def ClientFault (e : Exception) : Prop :=
  ∃ status, e = .responseStatus status ∧ status ≠ .kInternalServerError

/-- A computation that gives a value in `Q`, or blames the client. -/
def Reads {α : Type} (x : Except Exception α) (Q : α → Prop) : Prop :=
  match x with
  | .ok a => Q a
  | .error e => ClientFault e

/-- A program on a request that gives a value and a state in `Q`, or blames the client. -/
abbrev Consumes {α : Type} (P : HttpRequest → Prop) (x : RequestM α)
    (Q : α → HttpRequest → Prop) : Prop :=
  EStateM.Triple P x Q fun e _ => ClientFault e

theorem ClientFault.of_status {status : Status} (h : status ≠ .kInternalServerError) :
    ClientFault (.responseStatus status) := ⟨status, rfl, h⟩

theorem Reads.bind {α β : Type} {x : Except Exception α} {f : α → Except Exception β}
    {P : α → Prop} {Q : β → Prop} (hx : Reads x P) (hf : ∀ a, P a → Reads (f a) Q) :
    Reads (x >>= f) Q := by
  rcases x with e | a
  · exact hx
  · exact hf a hx

theorem Reads.imp {α : Type} {x : Except Exception α} {P Q : α → Prop} (h : Reads x P)
    (hPQ : ∀ a, P a → Q a) : Reads x Q := by
  rcases x with e | a
  · exact h
  · exact hPQ a h

theorem Reads.of_ok {α : Type} {x : Except Exception α} {Q : α → Prop} (h : Reads x Q) {a : α}
    (hx : x = .ok a) : Q a := by
  subst hx
  exact h

theorem Reads.of_error {α : Type} {x : Except Exception α} {Q : α → Prop} (h : Reads x Q)
    {e : Exception} (hx : x = .error e) : ClientFault e := by
  subst hx
  exact h

theorem consumes_throwStatus {α : Type} {P : HttpRequest → Prop} {Q : α → HttpRequest → Prop}
    {status : Status} (h : status ≠ .kInternalServerError) :
    Consumes P (throwStatus status : RequestM α) Q :=
  EStateM.Triple.throw fun _ _ => .of_status h

theorem consumes_call_bind {α β : Type} {P : HttpRequest → Prop} {x : Except Exception α}
    {k : α → RequestM β} {P' : α → Prop} {Q : β → HttpRequest → Prop} (hx : Reads x P')
    (hk : ∀ a, P' a → Consumes P (k a) Q) : Consumes P (call x >>= k) Q := by
  rcases x with e | a
  · exact fun s hs => hx
  · exact hk a hx

/-! ### The scanning loops -/

/-- A scanning loop counts the bytes it reads, and reads up to its end or a stop
character. -/
theorem scanUntil_read {stop : Byte → Bool} {check : Byte → Nat → Except Exception Nat}
    {B : Nat → Prop} {good : Byte → Prop}
    (hcheck : ∀ c n, B n → Reads (check c n) fun m => m = n + 1 ∧ B m ∧ good c)
    (p : Bytes) {n : Nat} (hn : B n) :
    Reads (scanUntil stop check p n) fun r =>
      p = r.1 ++ r.2.2 ∧ r.2.1 = n + r.1.length ∧ B r.2.1 ∧
        (∀ c ∈ r.1, good c ∧ stop c = false) ∧
        (deref r.2.2 = 0 ∨ stop (deref r.2.2) = true) := by
  induction p generalizing n with
  | nil => exact ⟨rfl, rfl, hn, fun c hc => absurd hc List.not_mem_nil, .inl rfl⟩
  | cons c cs ih =>
      rw [scanUntil]
      by_cases hstop : c = 0 ∨ stop c
      · rw [if_pos hstop]
        exact ⟨rfl, rfl, hn, fun c hc => absurd hc List.not_mem_nil, hstop⟩
      · rw [if_neg hstop]
        have hnot : stop c = false := Bool.eq_false_iff.mpr fun h => hstop (.inr h)
        refine (hcheck c n hn).bind fun m hm => ?_
        obtain ⟨rfl, hle, hgood⟩ := hm
        refine (ih hle).bind fun r hr => ?_
        obtain ⟨rfl, hlen, hle', hpass, hrest⟩ := hr
        refine ⟨rfl, ?_, hle', List.forall_mem_cons.mpr ⟨⟨hgood, hnot⟩, hpass⟩, hrest⟩
        rw [hlen, List.length_cons]
        omega

theorem bumpLenOrThrow_reads {total maxSize : Nat} (inc : Nat) (h : total ≤ maxSize)
    (hmax : maxSize < sizeMod) :
    Reads (bumpLenOrThrow total inc maxSize) fun n => n = total + inc ∧ n ≤ maxSize := by
  rw [bumpLenOrThrow, subSize_of_le h hmax]
  by_cases hbig : inc > maxSize - total
  · rw [if_pos hbig]
    exact .of_status (by decide)
  · rw [if_neg hbig, addSize_of_lt (by omega)]
    exact ⟨rfl, by omega⟩

theorem checkUriChar_reads (c : Byte) (n : Nat) (hn : n ≤ kMaxUriSize - 1) :
    Reads (checkUriChar c n) fun m =>
      m = n + 1 ∧ m ≤ kMaxUriSize - 1 ∧ (isVisibleAscii c = true ∧ c ≠ 35) := by
  unfold checkUriChar
  split_ifs with hhash hlen hvisible
  · exact .of_status (by decide)
  · exact .of_status (by decide)
  · exact .of_status (by decide)
  · exact ⟨rfl, by omega, by simpa using hvisible, hhash⟩

theorem checkVersionChar_reads (c : Byte) (n : Nat) :
    Reads (checkVersionChar c n) fun m => m = n + 1 ∧ True ∧ True := by
  unfold checkVersionChar
  split_ifs
  · exact .of_status (by decide)
  · exact ⟨rfl, trivial, trivial⟩

theorem checkHeaderChar_reads {maxSize : Nat} (hmax : maxSize < sizeMod) (c : Byte) (n : Nat)
    (hn : n ≤ maxSize) :
    Reads (checkHeaderChar maxSize c n) fun m =>
      m = n + 1 ∧ m ≤ maxSize ∧ isValidHeaderChar c = true := by
  unfold checkHeaderChar
  split_ifs with hvalid
  · exact .of_status (by decide)
  · exact (bumpLenOrThrow_reads 1 hn hmax).imp
      fun m hm => ⟨hm.1, hm.2, by simpa using hvalid⟩

/-! ### The request line -/

theorem consumeMethod_read (p : Bytes) (r : HttpRequest) :
    Consumes (· = r) (consumeMethod p) fun q s =>
      ∃ m ∈ [Method.kGet, .kHead, .kPost, .kDelete], p = methodToString m ++ SP :: q ∧
        s = { r with method := m } := by
  unfold consumeMethod
  refine .ite (fun h => ?_) fun _ => .ite (fun h => ?_) fun _ => .ite (fun h => ?_) fun _ =>
    .ite (fun h => ?_) fun _ => consumes_throwStatus (by decide)
  all_goals
    obtain ⟨rest, rfl⟩ := h
    rintro s rfl
  · exact ⟨.kGet, by simp, rfl, rfl⟩
  · exact ⟨.kHead, by simp, rfl, rfl⟩
  · exact ⟨.kPost, by simp, rfl, rfl⟩
  · exact ⟨.kDelete, by simp, rfl, rfl⟩

theorem eq_cons_of_deref {p : Bytes} {c : Byte} (h : deref p = c) (hc : c ≠ 0) :
    p = c :: p.drop 1 := by
  rcases p with - | ⟨d, p⟩
  · exact absurd h.symm hc
  · rw [show d = c from h]
    rfl

theorem consumeOptionalQuery_read {len : Nat} (hlen : len < kMaxUriSize) (p : Bytes)
    (r : HttpRequest) :
    Consumes (· = r) (consumeOptionalQuery len p) fun q s =>
      ∃ query : Option Bytes, (∀ k ∈ query, ∀ c ∈ k, isVisibleAscii c = true ∧ c ≠ 35) ∧
        len + (query.elim 0 fun k => k.length + 1) < kMaxUriSize ∧
        p = (query.elim [] fun k => 63 :: k) ++ q ∧
        s = { r with queryString := query.elim r.queryString id } := by
  unfold consumeOptionalQuery
  refine .ite (fun hquery => ?_) fun _ => .pure ?_
  · refine .ite (fun _ => consumes_throwStatus (by decide)) fun hlong => ?_
    refine consumes_call_bind
      (scanUntil_read checkUriChar_reads _ (show len + 1 ≤ kMaxUriSize - 1 by omega)) ?_
    rintro ⟨query, m, rest⟩ ⟨hsplit, hm, hle, hpass, -⟩
    dsimp only at hsplit hm hle hpass
    refine .update_bind (M := (· = { r with queryString := query })) (.pure ?_)
      (by rintro s rfl; rfl)
    rintro s rfl
    refine ⟨some query, ?_, ?_, ?_, rfl⟩
    · rintro k ⟨⟩ c hc
      exact (hpass c hc).1
    · have hsize : kMaxUriSize = 1024 := rfl
      simp only [Option.elim_some]
      omega
    · rw [eq_cons_of_deref hquery (by decide), hsplit]
      rfl
  · rintro s rfl
    exact ⟨none, nofun, by simpa using hlen, rfl, rfl⟩

/-- A text of a request line behind the method: a target, and what follows it. -/
theorem consumeUri_read (p : Bytes) (r : HttpRequest) :
    Consumes (· = r) (consumeUri p) fun q s =>
      ∃ (path : Bytes) (query : Option Bytes), path.head? = some SLASH ∧
        (∀ c ∈ path, isVisibleAscii c = true ∧ c ≠ 35 ∧ c ≠ 63) ∧
        (∀ k ∈ query, ∀ c ∈ k, isVisibleAscii c = true ∧ c ≠ 35) ∧
        path.length + (query.elim 0 fun k => k.length + 1) < kMaxUriSize ∧
        p = path ++ (query.elim [] fun k => 63 :: k) ++ SP :: q ∧
        s = { r with uri := path, queryString := query.elim r.queryString id } := by
  unfold consumeUri
  refine .ite (fun _ => consumes_throwStatus (by decide)) fun hslash => ?_
  have hslash := eq_cons_of_deref (not_not.mp hslash) (by decide)
  refine consumes_call_bind (scanUntil_read checkUriChar_reads p (Nat.zero_le _)) ?_
  rintro ⟨path, len, rest⟩ ⟨hsplit, hlen, hle, hpass, -⟩
  dsimp only at hsplit hlen hle hpass ⊢
  refine .update_bind (M := (· = { r with uri := path })) ?_ (by rintro s rfl; rfl)
  refine .ite (fun _ => consumes_throwStatus (by decide)) fun hgood => ?_
  simp only [not_or, not_and_or, not_not] at hgood
  obtain ⟨hne, hstop⟩ := hgood
  have hhead : path.head? = some SLASH := by
    obtain ⟨c, cs, rfl⟩ := List.exists_cons_of_ne_nil hne
    rw [hslash] at hsplit
    rw [(List.cons.inj hsplit).1]
    rfl
  have hpath : ∀ c ∈ path, isVisibleAscii c = true ∧ c ≠ 35 ∧ c ≠ 63 := fun c hc => by
    obtain ⟨⟨hvisible, hhash⟩, hnot⟩ := hpass c hc
    refine ⟨hvisible, hhash, fun h => ?_⟩
    simp [h] at hnot
  have hsize : kMaxUriSize = 1024 := rfl
  have hquery := consumeOptionalQuery_read (show len < kMaxUriSize by omega) rest
    { r with uri := path }
  refine hquery.bind fun q => .ite (fun _ => consumes_throwStatus (by decide)) fun hsp => .pure ?_
  rintro s ⟨query, hchar, hlong, hrest, rfl⟩
  refine ⟨path, query, hhead, hpath, hchar, by omega, ?_, rfl⟩
  rw [hsplit, hrest, List.append_assoc, ← eq_cons_of_deref (not_not.mp hsp) (by decide)]

theorem consumeVersion_read (p : Bytes) (r : HttpRequest) :
    Consumes (· = r) (consumeVersion p) fun q s =>
      ∃ version, (version = bytes "HTTP/1.1" ∨ version = bytes "HTTP/1.0") ∧
        p = version ++ CRLF ++ q ∧ s = { r with version := version } := by
  unfold consumeVersion
  refine consumes_call_bind (scanUntil_read (B := fun _ => True) (fun c n _ =>
    checkVersionChar_reads c n) p trivial) ?_
  rintro ⟨version, len, rest⟩ ⟨hsplit, -⟩
  dsimp only at hsplit ⊢
  refine .ite (fun _ => consumes_throwStatus (by decide)) fun hcrlf => ?_
  obtain ⟨q, rfl⟩ := eq_of_isCRLF (by simpa using hcrlf)
  refine .update_bind (M := (· = { r with version := version })) ?_ (by rintro s rfl; rfl)
  refine .ite (fun _ => consumes_throwStatus (by decide)) fun hknown => .pure ?_
  rintro s rfl
  rw [not_and_or, not_not, not_not] at hknown
  exact ⟨version, hknown, by rw [hsplit, List.append_assoc]; rfl, rfl⟩

/-! ### The header lines -/

/-- A header line is that of a field, and is counted with the end of the line. -/
theorem readHeaderLine_reads (strict : Bool) (p : Bytes) {n maxSize : Nat}
    (hmax : maxSize < sizeMod) (hn : n ≤ maxSize) :
    Reads (readHeaderLine strict p n maxSize) fun l =>
      ∃ (f : HeaderField) (eol : Bytes), (eol = CRLF ∨ strict = false ∧ eol = [LF]) ∧
        p = f.line ++ eol ++ l.rest ∧ l.key = f.name ∧ l.value = f.value ∧
        l.totalLen = n + f.line.length + eol.length ∧ l.totalLen ≤ maxSize := by
  refine (scanUntil_read (checkHeaderChar_reads hmax) p hn).bind ?_
  rintro ⟨name, n1, data⟩ ⟨hsplit, hn1, hle1, hname, -⟩
  dsimp only at hsplit hn1 hle1 hname ⊢
  split_ifs with hsep
  · exact .of_status (by decide)
  · refine (bumpLenOrThrow_reads 2 hle1 hmax).bind ?_
    rintro n2 ⟨hn2, hle2⟩
    refine (scanUntil_read (checkHeaderChar_reads hmax) _ hle2).bind ?_
    rintro ⟨value, n3, rest⟩ ⟨hsplit', hn3, hle3, hvalue, -⟩
    dsimp only at hsplit' hn3 hle3 hvalue ⊢
    obtain ⟨f, rfl, rfl⟩ : ∃ f : HeaderField, f.name = name ∧ f.value = value :=
      ⟨⟨name, value, fun c hc => ⟨(hname c hc).1, by simpa using (hname c hc).2⟩,
        fun c hc => (hvalue c hc).1⟩, rfl, rfl⟩
    have hline := f.length_line
    have htext : p = f.line ++ rest := by
      rw [hsplit, eq_of_separator hsep, hsplit']
      simp [HeaderField.line]
    split_ifs with hcrlf hlf
    · obtain ⟨q, rfl⟩ := eq_of_isCRLF hcrlf
      refine (bumpLenOrThrow_reads 2 hle3 hmax).bind ?_
      rintro n4 ⟨hn4, hle4⟩
      refine ⟨f, CRLF, .inl rfl, ?_, rfl, rfl, ?_, hle4⟩
      · rw [htext, List.append_assoc]
        rfl
      · show n4 = n + f.line.length + 2
        omega
    · rw [Bool.and_eq_true, Bool.not_eq_true'] at hlf
      obtain ⟨q, rfl⟩ := eq_of_isLF hlf.2
      refine (bumpLenOrThrow_reads 1 hle3 hmax).bind ?_
      rintro n4 ⟨hn4, hle4⟩
      refine ⟨f, [LF], .inr ⟨hlf.1, rfl⟩, ?_, rfl, rfl, ?_, hle4⟩
      · rw [htext, List.append_assoc]
        rfl
      · show n4 = n + f.line.length + 1
        omega
    · exact .of_status (by decide)

theorem readHeaderLine_read (p : Bytes) {n : Nat} (hn : n ≤ kMaxHeaderSize) :
    Reads (readHeaderLine true p n kMaxHeaderSize) fun l =>
      ∃ f : HeaderField, p = f.line ++ CRLF ++ l.rest ∧ l.key = f.name ∧ l.value = f.value ∧
        l.totalLen = n + f.line.length + 2 ∧ l.totalLen ≤ kMaxHeaderSize := by
  refine (readHeaderLine_reads true p (by decide) hn).imp ?_
  rintro l ⟨f, eol, heol, hsplit, hkey, hvalue, hlen, hle⟩
  obtain rfl | ⟨hstrict, -⟩ := heol
  · exact ⟨f, hsplit, hkey, hvalue, hlen, hle⟩
  · cases hstrict

theorem storeHeader_read (key value : Bytes) (r : HttpRequest) :
    Consumes (· = r) (storeHeader key value) fun _ s =>
      r.headers.contains (toLowerAscii key) = false ∧
        s = { r with headers := r.headers.insert (toLowerAscii key) value } := by
  refine .get_bind ?_
  rintro s rfl
  refine .ite (fun _ => consumes_throwStatus (by decide)) fun hnew => .update ?_
  rintro r rfl
  exact ⟨Bool.eq_false_iff.mpr hnew, rfl⟩

/-- **The loop over the header lines** reads fields with new and distinct names, up
to a blank line or the end of the text. -/
theorem consumeHeaderLines_read (fuel : Nat) {p : Bytes} (hfuel : p.length < fuel) {n : Nat}
    (hn : n ≤ kMaxHeaderSize) (r : HttpRequest) :
    Consumes (· = r) (consumeHeaderLines fuel p n) fun q s =>
      ∃ fields : List HeaderField, p = encodeFields fields ++ q.1 ∧
        q.2 = n + (encodeFields fields).length ∧ q.2 ≤ kMaxHeaderSize ∧ DistinctNames fields ∧
        (∀ f ∈ fields, r.headers.contains (toLowerAscii f.name) = false) ∧
        s = { r with headers := storeFields r.headers fields } := by
  induction fuel generalizing p n r with
  | zero => omega
  | succ fuel ih =>
      unfold consumeHeaderLines
      refine .ite (fun _ => .pure ?_) fun _ => ?_
      · rintro s rfl
        exact ⟨[], rfl, rfl, hn, List.nodup_nil, fun f hf => absurd hf List.not_mem_nil, rfl⟩
      · refine consumes_call_bind (readHeaderLine_read p hn) ?_
        rintro l ⟨f, hsplit, hkey, hvalue, hlen, hle⟩
        refine (storeHeader_read l.key l.value r).bind fun _ => ?_
        have hshort : l.rest.length < fuel := by
          rw [hsplit] at hfuel
          simp only [List.length_append, List.length_cons] at hfuel
          omega
        rw [hkey, hvalue]
        intro s hs
        obtain ⟨hnew, rfl⟩ := hs
        refine (ih hshort hle _).imp (fun _ h => h) (fun q s hs => ?_) (fun _ _ h => h) _ rfl
        obtain ⟨fields, hrest, hcount, hle', hdistinct, hnews, rfl⟩ := hs
        refine ⟨f :: fields, ?_, ?_, hle', ?_, ?_, rfl⟩
        · rw [hsplit, hrest]
          simp [encodeFields]
        · rw [hcount, hlen]
          simp only [encodeFields, List.map_cons, List.flatten_cons, List.length_append,
            List.length_cons, List.length_nil]
          omega
        · refine List.nodup_cons.mpr ⟨fun hmem => ?_, hdistinct⟩
          obtain ⟨g, hg, heq⟩ := List.mem_map.mp hmem
          have hfresh := hnews g hg
          rw [contains_insert, heq] at hfresh
          simp at hfresh
        · refine List.forall_mem_cons.mpr ⟨hnew, fun g hg => ?_⟩
          have hfresh := hnews g hg
          rw [contains_insert] at hfresh
          exact (Bool.or_eq_false_iff.mp hfresh).2

/-! ### The head -/

/-- A head whose lines are read to the end: it fits, and no name comes twice. -/
structure RequestHead.Readable (h : RequestHead) : Prop where
  short : (encodeFields h.fields).length + 2 ≤ kMaxHeaderSize
  distinct : DistinctNames h.fields

/-- The text begins with a readable head. -/
def BeginsWithHead (p : Bytes) : Prop := ∃ (h : RequestHead) (t : Bytes), h.Readable ∧ p = h.encode ++ t

/-- **The header phase reads heads only**: unless it blames the client, its text
begins with a readable head. -/
theorem consumeRequestHead_read (p : Bytes) (r : HttpRequest) :
    EStateM.Triple (· = r) (consumeRequestHead p) (fun _ _ => BeginsWithHead p)
      fun e _ => ClientFault e ∨ BeginsWithHead p := by
  have hfault : ∀ {α : Type} {P : HttpRequest → Prop} {x : RequestM α}
      {Q : α → HttpRequest → Prop}, Consumes P x Q →
      EStateM.Triple P x Q fun e _ => ClientFault e ∨ BeginsWithHead p :=
    fun h => h.imp (fun _ h => h) (fun _ _ h => h) fun _ _ h => .inl h
  have hhead : ∀ {α : Type} (x : RequestM α), BeginsWithHead p →
      EStateM.Triple (fun _ => True) x (fun _ _ => BeginsWithHead p)
        fun e _ => ClientFault e ∨ BeginsWithHead p := by
    intro α x h s _
    rcases x.run s with ⟨a, t⟩ | ⟨e, t⟩
    · exact h
    · exact .inr h
  refine (hfault (consumeMethod_read p r)).bind fun q => ?_
  rintro s ⟨m, hm, hp, rfl⟩
  refine (hfault (consumeUri_read q _)).bind (fun q1 => ?_) _ rfl
  rintro s ⟨path, query, habs, hpath, hquery, hlong, hq, rfl⟩
  refine (hfault (consumeVersion_read q1 _)).bind (fun q2 => ?_) _ rfl
  rintro s ⟨version, hversion, hq1, rfl⟩
  refine (hfault (consumeHeaderLines_read _ (Nat.lt_succ_self _) (Nat.zero_le _) _)).bind
    (fun q3 => ?_) _ rfl
  rintro s ⟨fields, hq2, hcount, hle, hdistinct, -, rfl⟩
  obtain ⟨q3, n⟩ := q3
  dsimp only at hq2 hcount hle ⊢
  refine EStateM.Triple.ite (P := fun _ => True) (fun _ => hfault (consumes_throwStatus (by decide)))
    (fun hcrlf => ?_) _ trivial
  obtain ⟨t, rfl⟩ := eq_of_isCRLF (by simpa using hcrlf)
  have hbump := bumpLenOrThrow_reads 2 hle kMaxHeaderSize_lt
  rcases hb : bumpLenOrThrow n 2 kMaxHeaderSize with e | k
  · rw [validateHeaders, hb]
    exact fun s _ => .inl (hbump.of_error hb)
  · obtain ⟨rfl, hshort⟩ := hbump.of_ok hb
    refine hhead _ ⟨⟨⟨m, path, query, version, hm, habs, hpath, hquery, hversion, hlong⟩, fields⟩,
      t, ⟨show (encodeFields fields).length + 2 ≤ _ by omega, hdistinct⟩, ?_⟩
    rw [hp, hq, hq1, hq2]
    simp [RequestHead.encode, RequestLine.line, RequestLine.queryText]

/-! ### The validation -/

/-- A `Host` value with a port that `StrToUnsignedShort` does not read. -/
def UnreadablePort (v : Bytes) : Prop :=
  v.takeWhile (· ≠ COLON) ≠ [] ∧ (v.takeWhile (· ≠ COLON)).length ≠ v.length ∧
    strToUnsignedShort (v.drop ((v.takeWhile (· ≠ COLON)).length + 1)) = none

instance (v : Bytes) : Decidable (UnreadablePort v) := inferInstanceAs (Decidable (_ ∧ _))

/-- The `content_length_` that the values of the framing fields of an accepted head give. -/
def Framed (contentLength transferEncoding : Option Bytes) (limit : Nat) (length : Int) : Prop :=
  match contentLength, transferEncoding with
  | some s, none => strToLong s = some length ∧ 0 ≤ length ∧ length ≤ kMaxPayloadSize ∧
      length ≤ limit
  | none, some v => v = bytes "chunked" ∧ length = -1
  | none, none => length = 0
  | some _, some _ => False

instance : ∀ cl te limit length, Decidable (Framed cl te limit length)
  | some _, none, _, _ => inferInstanceAs (Decidable (_ ∧ _ ∧ _ ∧ _))
  | none, some _, _, _ => inferInstanceAs (Decidable (_ ∧ _))
  | none, none, _, _ => inferInstanceAs (Decidable (_ = _))
  | some _, some _, _, _ => inferInstanceAs (Decidable False)

/-- The headers of `r` frame a body of this length. -/
def HttpRequest.FramedBy (r : HttpRequest) (length : Int) : Prop :=
  Framed r.headers[bytes "content-length"]? r.headers[bytes "transfer-encoding"]?
    r.maxBodySizeLimit length

/-- The `host_port_` that a `Host` value gives. -/
def hostPortOf (v : Bytes) : Option Nat :=
  if (v.takeWhile (· ≠ COLON)).length = v.length then some kDefaultPort
  else strToUnsignedShort (v.drop ((v.takeWhile (· ≠ COLON)).length + 1))

theorem validateAndExtractHost_read (r : HttpRequest) :
    EStateM.Triple (· = r) validateAndExtractHost
      (fun _ s => ∃ v name port, r.headers[bytes "host"]? = some v ∧ ValidHost v ∧
        hostPortOf v = some port ∧ s = { r with hostName := name, hostPort := port })
      fun e _ => ClientFault e ∨
        ∃ v, r.headers[bytes "host"]? = some v ∧ UnreadablePort v ∧ e = .badOptionalAccess := by
  have hbad : ∀ {P : HttpRequest → Prop} {Q : PUnit → HttpRequest → Prop},
      EStateM.Triple P (throwStatus .kBadRequest) Q fun e _ => ClientFault e ∨
        ∃ v, r.headers[bytes "host"]? = some v ∧ UnreadablePort v ∧ e = .badOptionalAccess :=
    .throw fun _ _ => .inl (.of_status (by decide))
  refine .get_bind ?_
  rintro s rfl
  rcases hv : s.headers[bytes "host"]? with - | v
  · rw [hv] at hbad
    exact hbad
  · rw [hv] at hbad
    dsimp only
    refine .ite (fun _ => hbad) fun _ => .ite (fun _ => hbad) fun hname => ?_
    refine .update_bind (M := (· = { s with hostName := v.takeWhile (· ≠ COLON) })) ?_
      (by rintro r rfl; rfl)
    refine .ite (fun hlen => .update ?_) fun hlen => ?_
    · rintro r rfl
      exact ⟨v, _, _, rfl, ⟨hname, fun h => absurd hlen h⟩, if_pos hlen, rfl⟩
    · rcases hport : strToUnsignedShort (v.drop ((v.takeWhile (· ≠ COLON)).length + 1))
        with - | port
      · exact .throw fun _ _ => .inr ⟨v, rfl, ⟨hname, hlen, hport⟩, rfl⟩
      · refine .update ?_
        rintro r rfl
        exact ⟨v, _, port, rfl, ⟨hname, fun _ => by rw [hport]; rfl⟩, (if_neg hlen).trans hport, rfl⟩

theorem toSize_of_strToLong {v : Bytes} {length : Int} (h : strToLong v = some length)
    (hneg : 0 ≤ length) : (toSize length : Int) = length := by
  have hle := strToLong_le h
  refine toSize_eq hneg ?_
  unfold sizeMod
  omega

theorem parseContentLength_read (v : Bytes) (r : HttpRequest) :
    Consumes (· = r) (parseContentLength v) fun _ s =>
      ∃ length : Int, strToLong v = some length ∧ 0 ≤ length ∧ length ≤ kMaxPayloadSize ∧
        s = { r with contentLength := length } := by
  unfold parseContentLength
  rcases hv : strToLong v with - | length
  · exact consumes_throwStatus (by decide)
  · refine .ite (fun _ => consumes_throwStatus (by decide)) fun hsmall => .update ?_
    rintro s rfl
    rw [not_or, not_lt, not_lt] at hsmall
    obtain ⟨hneg, hbig⟩ := hsmall
    refine ⟨length, rfl, hneg, ?_, rfl⟩
    have hsize := toSize_of_strToLong hv hneg
    omega

theorem validateBodyHeaders_read (r : HttpRequest) :
    Consumes (· = r) validateBodyHeaders fun _ s =>
      ∃ length, r.FramedBy length ∧
        s = { r with contentLength := length } := by
  refine .get_bind ?_
  rintro s rfl
  dsimp only
  unfold HttpRequest.FramedBy Framed
  rcases hcl : s.headers[bytes "content-length"]? with - | v
    <;> rcases hte : s.headers[bytes "transfer-encoding"]? with - | v'
  · refine .update ?_
    rintro r rfl
    exact ⟨0, rfl, rfl⟩
  · unfold parseTransferEncoding
    refine .ite (fun hchunked => .update ?_) fun _ => consumes_throwStatus (by decide)
    rintro r rfl
    exact ⟨-1, ⟨hchunked, rfl⟩, rfl⟩
  · refine (parseContentLength_read v s).bind fun _ => .get_bind ?_
    rintro r ⟨length, hv, hneg, hle, rfl⟩
    refine .ite (fun _ => consumes_throwStatus (by decide)) fun hlimit => .pure ?_
    rintro r rfl
    refine ⟨length, ⟨hv, hneg, hle, ?_⟩, rfl⟩
    have hsize := toSize_of_strToLong hv hneg
    have hlimit : ¬ (length ≥ 0 ∧ toSize length > s.maxBodySizeLimit) := hlimit
    omega
  · exact consumes_throwStatus (by decide)

theorem parseConnectionDirective_read (r : HttpRequest) :
    Consumes (· = r) parseConnectionDirective fun _ s => ∃ keep, s = { r with keepAlive := keep } := by
  refine .get_bind ?_
  rintro s rfl
  rcases s.headers[bytes "connection"]? with - | v
  · refine .update ?_
    rintro r rfl
    exact ⟨_, rfl⟩
  · refine .ite (fun _ => .update ?_) fun _ => .ite (fun _ => .update ?_) fun _ =>
      consumes_throwStatus (by decide)
    all_goals
      rintro r rfl
      exact ⟨_, rfl⟩

/-- **The validation**: an accepted request has a host and a framing, and only an
unreadable port is not reported as the client's fault. -/
theorem validateHeaders_read {n : Nat} (hn : n + 2 ≤ kMaxHeaderSize) (r : HttpRequest) :
    EStateM.Triple (· = r) (validateHeaders n)
      (fun _ s => ∃ v name port length keep, r.headers[bytes "host"]? = some v ∧ ValidHost v ∧
        hostPortOf v = some port ∧ r.FramedBy length ∧
        s = { r with
          hostName := name, hostPort := port, contentLength := length, keepAlive := keep })
      fun e _ => ClientFault e ∨
        ∃ v, r.headers[bytes "host"]? = some v ∧ UnreadablePort v ∧ e = .badOptionalAccess := by
  rw [validateHeaders, bumpLenOrThrow_ok hn kMaxHeaderSize_lt]
  have hfault : ∀ {α : Type} {P : HttpRequest → Prop} {x : RequestM α}
      {Q : α → HttpRequest → Prop}, Consumes P x Q →
      EStateM.Triple P x Q fun e _ => ClientFault e ∨
        ∃ v, r.headers[bytes "host"]? = some v ∧ UnreadablePort v ∧ e = .badOptionalAccess :=
    fun h => h.imp (fun _ h => h) (fun _ _ h => h) fun _ _ h => .inl h
  refine (validateAndExtractHost_read r).bind fun _ => ?_
  rintro s ⟨v, name, port, hv, hvalid, hport, rfl⟩
  refine (hfault (validateBodyHeaders_read _)).bind (fun _ => ?_) _ rfl
  rintro s ⟨length, hframed, rfl⟩
  refine (hfault (parseConnectionDirective_read _)).imp (fun _ h => h) ?_ (fun _ _ h => h) _ rfl
  rintro - s ⟨keep, rfl⟩
  exact ⟨v, name, port, length, keep, hv, hvalid, hport, hframed, rfl⟩

/-- **What the header phase makes of its text**, on a request without headers: it
blames the client, or it reads a head and validates it. -/
theorem consumeRequestHead_cases (p : Bytes) {r : HttpRequest} (hnew : r.headers = ∅) :
    (∃ e s, (consumeRequestHead p).run r = .error e s ∧ ClientFault e) ∨
      ∃ (h : RequestHead) (t : Bytes), h.Readable ∧ p = h.encode ++ t ∧
        (consumeRequestHead p).run r =
          match (validateHeaders (encodeFields h.fields).length).run (r.afterLines h) with
          | .ok _ s => .ok t s
          | .error e s => .error e s := by
  have hread := consumeRequestHead_read p r r rfl
  have hencode : BeginsWithHead p → ∃ (h : RequestHead) (t : Bytes), h.Readable ∧
      p = h.encode ++ t ∧ (consumeRequestHead p).run r =
        match (validateHeaders (encodeFields h.fields).length).run (r.afterLines h) with
        | .ok _ s => .ok t s
        | .error e s => .error e s := by
    rintro ⟨h, t, hreadable, rfl⟩
    exact ⟨h, t, hreadable, rfl,
      consumeRequestHead_encode h t (Nat.le_of_add_right_le hreadable.short) hreadable.distinct hnew⟩
  rcases hrun : (consumeRequestHead p).run r with ⟨q, s⟩ | ⟨e, s⟩
  · rw [hrun] at hread hencode
    exact .inr (hencode hread)
  · rw [hrun] at hread hencode
    rcases hread with hfault | hread
    · exact .inl ⟨e, s, rfl, hfault⟩
    · exact .inr (hencode hread)

end Webserv
