/-
Webserv/HeaderLength.lean

The count that `ReadHeaderLine` keeps of a header section.

The count is carried from line to line by reference, apart from the pointer that walks the
buffer.  `LineRun` is the loop over the lines, as both parsers have it; along such a run the
count is the distance the pointer has gone, so `max_size - total` never wraps.
-/
import Webserv.CgiResponseParser
import Webserv.HttpRequest.HeadSound

namespace Webserv

/-! ### The calls of `BumpLenOrThrow` -/

/-- `ReadHeaderLine`, with another function in the place of `BumpLenOrThrow`. -/
def readHeaderLineWith (bump : Nat → Nat → Nat → Except Exception Nat) (strict : Bool)
    (data : Bytes) (totalLen maxSize : Nat) : Except Exception HeaderLine := do
  let check := fun (c : Byte) (total : Nat) =>
    if !isValidHeaderChar c then .error (.responseStatus .kBadRequest) else bump total 1 maxSize
  let (key, totalLen, data) ← scanUntil (· == COLON) check data totalLen
  if deref data ≠ COLON ∨ deref data.tail = 0 ∨ deref data.tail ≠ SP then
    .error (.responseStatus .kBadRequest)
  else
    let totalLen ← bump totalLen 2 maxSize
    let (value, totalLen, data) ←
      scanUntil (fun c => c == CR || c == LF) check (data.drop 2) totalLen
    if isCRLF data then
      let totalLen ← bump totalLen 2 maxSize
      .ok ⟨key, value, totalLen, data.drop 2⟩
    else if !strict && isLF data then
      let totalLen ← bump totalLen 1 maxSize
      .ok ⟨key, value, totalLen, data.drop 1⟩
    else .error (.responseStatus .kBadRequest)

/-- It does what `BumpLenOrThrow` does wherever `max_size - total` does not wrap. -/
def BumpsWithin (maxSize : Nat) (bump : Nat → Nat → Nat → Except Exception Nat) : Prop :=
  ∀ total inc, total ≤ maxSize → bump total inc maxSize = bumpLenOrThrow total inc maxSize

theorem scanUntil_congr {stop : Byte → Bool} {check check' : Byte → Nat → Except Exception Nat}
    {B : Nat → Prop} (hcheck : ∀ c n, B n → check' c n = check c n)
    (hB : ∀ c n m, B n → check c n = .ok m → B m) (p : Bytes) {n : Nat} (hn : B n) :
    scanUntil stop check' p n = scanUntil stop check p n := by
  induction p generalizing n with
  | nil => rfl
  | cons c cs ih =>
      rw [scanUntil, scanUntil, hcheck c n hn]
      rcases hc : check c n with e | m
      · rfl
      · have hrest := ih (hB c n m hn hc)
        split_ifs
        · rfl
        · show (scanUntil stop check' cs m >>= _) = (scanUntil stop check cs m >>= _)
          rw [hrest]

section

variable {bump : Nat → Nat → Nat → Except Exception Nat} {maxSize : Nat}

theorem BumpsWithin.scanUntil (hbump : BumpsWithin maxSize bump) (hmax : maxSize < sizeMod)
    (stop : Byte → Bool) (p : Bytes) {n : Nat} (hn : n ≤ maxSize) :
    scanUntil stop (fun c total =>
        if !isValidHeaderChar c then .error (.responseStatus .kBadRequest)
        else bump total 1 maxSize) p n =
      scanUntil stop (checkHeaderChar maxSize) p n := by
  refine scanUntil_congr (B := (· ≤ maxSize)) (fun c n hn => ?_) (fun c n m hn hc => ?_) p hn
  · rw [checkHeaderChar, hbump n 1 hn]
  · exact ((checkHeaderChar_reads hmax c n hn).of_ok hc).2.1

/-- **`BumpLenOrThrow` is only called with a count within `max_size`**: what it does beyond
makes no difference to `ReadHeaderLine`. -/
theorem readHeaderLineWith_eq (hbump : BumpsWithin maxSize bump) (hmax : maxSize < sizeMod)
    (strict : Bool) (p : Bytes) {n : Nat} (hn : n ≤ maxSize) :
    readHeaderLineWith bump strict p n maxSize = readHeaderLine strict p n maxSize := by
  rw [readHeaderLineWith, readHeaderLine, readUntil, hbump.scanUntil hmax _ p hn]
  rcases hkey : scanUntil (· == COLON) (checkHeaderChar maxSize) p n with e | ⟨key, n1, data⟩
  · rfl
  · obtain ⟨-, -, hn1, -⟩ := (scanUntil_read (checkHeaderChar_reads hmax) p hn).of_ok hkey
    show (if _ then _ else _) = (if _ then _ else _)
    split_ifs with hsep
    · rfl
    · rw [hbump n1 2 hn1]
      rcases htwo : bumpLenOrThrow n1 2 maxSize with e | n2
      · rfl
      · have hn2 := ((bumpLenOrThrow_reads 2 hn1 hmax).of_ok htwo).2
        show (Webserv.scanUntil _ _ _ n2 >>= _) = (readUntil _ _ _ n2 >>= _)
        rw [readUntil, hbump.scanUntil hmax _ _ hn2]
        rcases hvalue : Webserv.scanUntil (fun c => c == CR || c == LF) (checkHeaderChar maxSize)
          (data.drop 2) n2 with e | ⟨value, n3, rest⟩
        · rfl
        · obtain ⟨-, -, hn3, -⟩ := (scanUntil_read (checkHeaderChar_reads hmax) _ hn2).of_ok hvalue
          show (if _ then _ else _) = (if _ then _ else _)
          rw [hbump n3 2 hn3, hbump n3 1 hn3]

end

/-! ### Runs over header lines -/

/-- The loop of a parser over the lines of the section `s`: the lines so far, what is left,
and the count. -/
inductive LineRun (strict : Bool) (maxSize : Nat) (s : Bytes) : List HeaderLine → Bytes → Nat → Prop
  | start : LineRun strict maxSize s [] s 0
  | line {lines : List HeaderLine} {p : Bytes} {n : Nat} {l : HeaderLine}
      (h : LineRun strict maxSize s lines p n) (hread : readHeaderLine strict p n maxSize = .ok l) :
      LineRun strict maxSize s (lines ++ [l]) l.rest l.totalLen

/-- The text that a line has passed holds no NUL. -/
theorem zero_notMem_line (f : HeaderField) {strict : Bool} {eol : Bytes}
    (heol : eol = CRLF ∨ strict = false ∧ eol = [LF]) : (0 : Byte) ∉ f.line ++ eol := by
  have hvalid : ∀ {t : Bytes}, (∀ c ∈ t, isValidHeaderChar c = true) → (0 : Byte) ∉ t :=
    fun h hmem => absurd (h 0 hmem) (by decide)
  have hname := hvalid fun c hc => (f.name_char c hc).1
  have hvalue := hvalid f.value_char
  have hline : (0 : Byte) ∉ f.line := by
    rw [HeaderField.line, List.mem_append, not_or]
    refine ⟨hname, ?_⟩
    simp only [List.mem_cons, not_or]
    exact ⟨by decide, by decide, hvalue⟩
  rw [List.mem_append, not_or]
  refine ⟨hline, ?_⟩
  obtain rfl | ⟨-, rfl⟩ := heol
  · decide
  · decide

section

variable {strict : Bool} {maxSize : Nat} {s p : Bytes} {lines : List HeaderLine} {n : Nat}

/-- **The count is the way the pointer has gone**, which stays in front of the NUL. -/
theorem LineRun.counts (hmax : maxSize < sizeMod) (h : LineRun strict maxSize s lines p n) :
    ∃ passed, s = passed ++ p ∧ n = passed.length ∧ n ≤ maxSize ∧ (0 : Byte) ∉ passed := by
  induction h with
  | start => exact ⟨[], rfl, rfl, Nat.zero_le _, List.not_mem_nil⟩
  | @line lines p n l _ hread ih =>
      obtain ⟨passed, hs, hn, hle, hzero⟩ := ih
      obtain ⟨f, eol, heol, hp, -, -, htotal, hle'⟩ :=
        (readHeaderLine_reads strict p hmax hle).of_ok hread
      refine ⟨passed ++ (f.line ++ eol), ?_, ?_, hle', ?_⟩
      · rw [hs, hp]
        simp only [List.append_assoc]
      · rw [htotal, hn, List.length_append, List.length_append, Nat.add_assoc]
      · rw [List.mem_append, not_or]
        exact ⟨hzero, zero_notMem_line f heol⟩

/-- A key holds no colon, and no line a character that does not print. -/
theorem LineRun.printable (hmax : maxSize < sizeMod) (h : LineRun strict maxSize s lines p n) :
    ∀ l ∈ lines, COLON ∉ l.key ∧ ∀ c ∈ l.key ++ l.value, isValidHeaderChar c = true := by
  induction h with
  | start => exact fun l hl => absurd hl List.not_mem_nil
  | @line lines p n l h hread ih =>
      obtain ⟨-, -, -, hle, -⟩ := h.counts hmax
      obtain ⟨f, -, -, -, hkey, hvalue, -, -⟩ :=
        (readHeaderLine_reads strict p hmax hle).of_ok hread
      intro l' hl'
      obtain hl' | hl' := List.mem_append.mp hl'
      · exact ih l' hl'
      · obtain rfl := List.mem_singleton.mp hl'
        rw [hkey, hvalue]
        refine ⟨fun hmem => (f.name_char COLON hmem).2 rfl, fun c hc => ?_⟩
        obtain hc | hc := List.mem_append.mp hc
        · exact (f.name_char c hc).1
        · exact f.value_char c hc

end

/-! ### The loops of the parsers -/

/-- What the loop of `ConsumeHeader` ends with: it stands behind a run, or a line of the run
cannot be read or stored. -/
def StopsBehind (s : Bytes) (o : EStateM.Result Exception HttpRequest (Bytes × Nat)) : Prop :=
  ∃ lines p n, LineRun true kMaxHeaderSize s lines p n ∧
    match o with
    | .ok q _ => q = (p, n)
    | .error e r => readHeaderLine true p n kMaxHeaderSize = .error e ∨
        ∃ l, readHeaderLine true p n kMaxHeaderSize = .ok l ∧
          (storeHeader l.key l.value).run r = .error e r

/-- A header that is not stored leaves the request alone. -/
theorem storeHeader_stays (key value : Bytes) (r : HttpRequest) :
    EStateM.Triple (· = r) (storeHeader key value) (fun _ _ => True) fun _ t => t = r := by
  refine .get_bind ?_
  rintro s rfl
  exact .ite (fun _ => .throw fun _ h => h) fun _ => .update fun _ _ => trivial

/-- **The loop of `ConsumeHeader` is a run over lines.** -/
theorem consumeHeaderLines_stopsBehind (fuel : Nat) {s p : Bytes} (hfuel : p.length < fuel)
    {lines : List HeaderLine} {n : Nat} (h : LineRun true kMaxHeaderSize s lines p n)
    (r : HttpRequest) : StopsBehind s ((consumeHeaderLines fuel p n).run r) := by
  induction fuel generalizing p lines n r with
  | zero => omega
  | succ fuel ih =>
      rw [consumeHeaderLines, EStateM.run_ite]
      split_ifs with hend
      · exact ⟨lines, p, n, h, rfl⟩
      · rw [EStateM.run_bind]
        rcases hread : readHeaderLine true p n kMaxHeaderSize with e | l
        · exact ⟨lines, p, n, h, .inl hread⟩
        · rw [run_call_ok]
          dsimp only
          rw [EStateM.run_bind]
          have hstays := storeHeader_stays l.key l.value r r rfl
          rcases hrun : (storeHeader l.key l.value).run r with ⟨u, t⟩ | ⟨e, t⟩
          · have hlt := readHeaderLine_length_lt hread
            exact ih (by omega) (.line h hread) t
          · rw [hrun] at hstays
            obtain rfl : t = r := hstays
            exact ⟨lines, p, n, h, .inr ⟨l, hread, hrun⟩⟩

/-- What the loop of `CgiResponseParser::AdvanceHeader` ends with. -/
def CgiStopsBehind (s : Bytes) (o : EStateM.Result Exception CgiResponseParser Unit) : Prop :=
  ∃ lines p n, LineRun false kMaxCgiHeaderSize s lines p n ∧
    match o with
    | .ok _ _ => deref p = 0 ∨ isCRLF p ∨ isLF p
    | .error e t => readHeaderLine false p n kMaxCgiHeaderSize = .error e ∨
        ∃ l, readHeaderLine false p n kMaxCgiHeaderSize = .ok l ∧
          storeCgiHeader t.res l.key l.value = .error e

/-- **The loop of `CgiResponseParser::AdvanceHeader` is a run over lines.** -/
theorem storeCgiHeaderLines_stopsBehind (fuel : Nat) {s p : Bytes} (hfuel : p.length < fuel)
    {lines : List HeaderLine} {n : Nat} (h : LineRun false kMaxCgiHeaderSize s lines p n)
    (t : CgiResponseParser) : CgiStopsBehind s ((storeCgiHeaderLines fuel p n).run t) := by
  induction fuel generalizing p lines n t with
  | zero => omega
  | succ fuel ih =>
      rw [storeCgiHeaderLines, EStateM.run_ite]
      split_ifs with hend
      · exact ⟨lines, p, n, h, hend⟩
      · rcases hread : readHeaderLine false p n kMaxCgiHeaderSize with e | l
        · exact ⟨lines, p, n, h, .inl hread⟩
        · dsimp only
          rw [EStateM.run_bind, EStateM.run_get]
          dsimp only
          rcases hstore : storeCgiHeader t.res l.key l.value with e | res
          · exact ⟨lines, p, n, h, .inr ⟨l, hread, hstore⟩⟩
          · have hlt := readHeaderLine_length_lt hread
            exact ih (by omega) (.line h hread) { t with res := res }

/-- A header section that is accepted fits with its blank line. -/
theorem consumeHeader_length {s q : Bytes} {r t : HttpRequest}
    (hrun : (consumeHeader s).run r = .ok q t) :
    ∃ head, s = head ++ CRLF ++ q ∧ (head ++ CRLF).length ≤ kMaxHeaderSize := by
  obtain ⟨lines, p, n, h, hstop⟩ :=
    consumeHeaderLines_stopsBehind _ (Nat.lt_succ_self s.length) .start r
  rw [consumeHeader, EStateM.run_bind] at hrun
  rcases hlines : (consumeHeaderLines (s.length + 1) s 0).run r with ⟨q', u⟩ | ⟨e, u⟩
  · rw [hlines] at hrun hstop
    obtain rfl : q' = (p, n) := hstop
    dsimp only at hrun
    rw [EStateM.run_ite] at hrun
    by_cases hcrlf : isCRLF p = true
    · obtain ⟨rest, rfl⟩ := eq_of_isCRLF hcrlf
      obtain ⟨passed, hs, hn, hle, -⟩ := h.counts kMaxHeaderSize_lt
      rw [hcrlf, Bool.not_true, if_neg Bool.false_ne_true, EStateM.run_bind] at hrun
      rcases hvalid : (validateHeaders n).run u with ⟨v, w⟩ | ⟨e, w⟩
      · rw [hvalid] at hrun
        cases hrun
        rcases hbump : bumpLenOrThrow n 2 kMaxHeaderSize with e | m
        · rw [validateHeaders, hbump] at hvalid
          cases hvalid
        · obtain ⟨rfl, hfit⟩ := (bumpLenOrThrow_reads 2 hle kMaxHeaderSize_lt).of_ok hbump
          refine ⟨passed, ?_, ?_⟩
          · rw [hs, List.append_assoc]
            rfl
          · rw [List.length_append, ← hn]
            exact hfit
      · rw [hvalid] at hrun
        cases hrun
    · rw [if_pos (by simpa using hcrlf)] at hrun
      cases hrun
  · rw [hlines] at hrun
    cases hrun

/-! ### The section -/

/-- The count behind some lines: it is exact, within `max_size` and in front of the NUL, the
lines are printable, and the next one is read without a subtraction that wraps. -/
structure CountsExactly (strict : Bool) (maxSize : Nat) (s : Bytes) (lines : List HeaderLine)
    (p : Bytes) (n : Nat) : Prop where
  counts : ∃ passed, s = passed ++ p ∧ n = passed.length ∧ n ≤ maxSize ∧ (0 : Byte) ∉ passed
  printable : ∀ l ∈ lines, COLON ∉ l.key ∧ ∀ c ∈ l.key ++ l.value, isValidHeaderChar c = true
  within : ∀ bump, BumpsWithin maxSize bump →
    readHeaderLineWith bump strict p n maxSize = readHeaderLine strict p n maxSize

/-- **The count of a header section is exact**, behind any number of lines and for both kinds
of line ends; the loops of the two parsers are such runs; and a section that `ConsumeHeader`
accepts has at most `kMaxHeaderSize` bytes, its blank line included. -/
theorem headerLength_exact {maxSize : Nat} (hmax : maxSize < sizeMod) (s : Bytes) :
    (∀ strict lines p n, LineRun strict maxSize s lines p n →
        CountsExactly strict maxSize s lines p n) ∧
      (∀ r, StopsBehind s ((consumeHeaderLines (s.length + 1) s 0).run r)) ∧
      (∀ t, CgiStopsBehind s ((storeCgiHeaderLines (s.length + 1) s 0).run t)) ∧
      ∀ r q t, (consumeHeader s).run r = .ok q t →
        ∃ head, s = head ++ CRLF ++ q ∧ (head ++ CRLF).length ≤ kMaxHeaderSize := by
  refine ⟨fun strict lines p n h => ?_, fun r => ?_, fun t => ?_, fun r q t => consumeHeader_length⟩
  · obtain ⟨passed, hs, hn, hle, hzero⟩ := h.counts hmax
    exact ⟨⟨passed, hs, hn, hle, hzero⟩, h.printable hmax,
      fun bump hbump => readHeaderLineWith_eq hbump hmax strict p hle⟩
  · exact consumeHeaderLines_stopsBehind _ (Nat.lt_succ_self _) .start r
  · exact storeCgiHeaderLines_stopsBehind _ (Nat.lt_succ_self _) .start t

/-- The size of both parsers, and a section of one line. -/
theorem headerLength_exact_host :
    CountsExactly true kMaxHeaderSize (bytes "Host: a\r\n\r\n") [⟨bytes "Host", bytes "a", 9, CRLF⟩]
        CRLF 9 ∧
      ∀ r q t, (consumeHeader (bytes "Host: a\r\n\r\n")).run r = .ok q t →
        ∃ head, bytes "Host: a\r\n\r\n" = head ++ CRLF ++ q ∧
          (head ++ CRLF).length ≤ kMaxHeaderSize := by
  obtain ⟨hcounts, -, -, hsection⟩ :=
    headerLength_exact kMaxHeaderSize_lt (bytes "Host: a\r\n\r\n")
  refine ⟨hcounts true _ _ _ ?_, hsection⟩
  exact .line (l := ⟨bytes "Host", bytes "a", 9, CRLF⟩) .start (by decide)

end Webserv
