/-
Webserv/HttpRequest/Head.lean

Locality of the header phase.

`AdvanceHeader` runs on a pointer to the whole buffer, once the buffer contains
an empty line.  What lies behind that line is not looked at: on a text `p` that
ends with the first CRLF CRLF, every `Consume…` function does with `p ++ t` what
it does with `p`, and leaves `t` behind.  The reason is that no scanning loop
passes a CR: it is a stop character or it is refused.

The functions neither read nor write `buffer`; the two facts are stated as one,
`Local`.
-/
import Webserv.HttpRequest.Body

namespace Webserv

/-! ### Terminated texts -/

/-- The text of a head: it ends with an empty line. -/
def Terminated (p : Bytes) : Prop := ∃ y, p = y ++ CRLF ++ CRLF

/-- The text at the start of a line of a head: what is left of a head, or its
empty line. -/
def LineStart (p : Bytes) : Prop := p = CRLF ∨ Terminated p

theorem Terminated.mem_CR {p : Bytes} (h : Terminated p) : CR ∈ p := by
  obtain ⟨y, rfl⟩ := h
  simp

theorem Terminated.length {p : Bytes} (h : Terminated p) : 4 ≤ p.length := by
  obtain ⟨y, rfl⟩ := h
  simp

/-- What is left of a head behind a part without CR. -/
theorem Terminated.right {a rest : Bytes} (h : Terminated (a ++ rest)) (hcr : CR ∉ a) :
    Terminated rest := by
  obtain ⟨y, hy⟩ := h
  rw [List.append_assoc] at hy
  obtain ⟨c, -, hrest⟩ | ⟨c, ha, hc⟩ := List.append_eq_append_iff.mp hy
  · exact ⟨c, by rw [hrest, List.append_assoc]⟩
  · rcases c with - | ⟨c, cs⟩
    · exact ⟨[], hc.symm⟩
    · -- the part would contain the CR of the empty line
      have hcons : c = CR := (List.cons.inj hc).1.symm
      exact absurd (by simp [ha, hcons]) hcr

theorem Terminated.drop_CRLF {rest : Bytes} (h : Terminated (CR :: LF :: rest)) :
    LineStart rest := by
  obtain ⟨y, hy⟩ := h
  rcases y with - | ⟨c, - | ⟨c', y⟩⟩
  · left
    simpa using hy
  · exact absurd (List.cons.inj (List.cons.inj hy).2).1 (by decide)
  · right
    exact ⟨y, by simpa using (List.cons.inj (List.cons.inj hy).2).2⟩

theorem LineStart.length {p : Bytes} (h : LineStart p) : 2 ≤ p.length := by
  rcases h with rfl | h
  · exact le_rfl
  · have := h.length
    omega

theorem deref_append {p : Bytes} (h : 1 ≤ p.length) (t : Bytes) : deref (p ++ t) = deref p := by
  rcases p with - | ⟨c, p⟩
  · simp at h
  · rfl

theorem tail_append {p : Bytes} (h : 1 ≤ p.length) (t : Bytes) :
    (p ++ t).tail = p.tail ++ t := by
  rcases p with - | ⟨c, p⟩
  · simp at h
  · rfl

theorem isCRLF_append {p : Bytes} (h : 2 ≤ p.length) (t : Bytes) :
    isCRLF (p ++ t) = isCRLF p := by
  rcases p with - | ⟨c, - | ⟨c', p⟩⟩
  · simp at h
  · simp at h
  · rfl

theorem eq_of_isCRLF {p : Bytes} (h : isCRLF p = true) : ∃ rest, p = CR :: LF :: rest := by
  rcases p with - | ⟨c, - | ⟨c', p⟩⟩
  · exact absurd h (by decide)
  · have hlf : (0 : Byte) ≠ LF := by decide
    simp [isCRLF, hlf] at h
  · simp only [isCRLF, deref_cons, List.tail_cons, Bool.and_eq_true, beq_iff_eq] at h
    exact ⟨p, by rw [h.1, h.2]⟩

theorem eq_of_isLF {p : Bytes} (h : isLF p = true) : ∃ rest, p = LF :: rest := by
  rcases p with - | ⟨c, rest⟩
  · exact absurd h (by decide)
  · exact ⟨rest, by rw [show c = LF from eq_of_beq h]⟩

/-- A prefix without CR lies in front of the first CR. -/
theorem prefix_append_iff {pat p : Bytes} (hpat : CR ∉ pat) (hp : CR ∈ p) (t : Bytes) :
    pat <+: p ++ t ↔ pat <+: p := by
  constructor
  · intro h
    obtain ⟨rest, hrest⟩ := h
    obtain ⟨c, hc, -⟩ | ⟨c, hc, -⟩ := List.append_eq_append_iff.mp hrest
    · exact ⟨c, hc.symm⟩
    · exact absurd (by rw [hc]; exact List.mem_append_left _ hp) hpat
  · exact fun h => h.trans (List.prefix_append _ _)

/-! ### Scanning loops -/

/-- A scanning loop that does not pass a CR. -/
def StopsAtCR (stop : Byte → Bool) (check : Byte → Nat → Except Exception Nat) : Prop :=
  stop CR = true ∨ ∀ n, ∃ e, check CR n = .error e

theorem scanUntil_append {stop : Byte → Bool} {check : Byte → Nat → Except Exception Nat}
    (hcr : StopsAtCR stop check) {p : Bytes} (hp : CR ∈ p) (t : Bytes) (n : Nat) :
    scanUntil stop check (p ++ t) n =
      (scanUntil stop check p n).map fun r => (r.1, r.2.1, r.2.2 ++ t) := by
  induction p generalizing n with
  | nil => simp at hp
  | cons c cs ih =>
      simp only [List.cons_append, scanUntil]
      by_cases hstop : c = 0 ∨ stop c
      · simp only [if_pos hstop]
        rfl
      · simp only [if_neg hstop]
        rcases hc : check c n with e | n'
        · rfl
        · have hne : CR ≠ c := by
            rintro rfl
            rcases hcr with h | h
            · exact hstop (.inr h)
            · obtain ⟨e, he⟩ := h n
              rw [he] at hc
              cases hc
          have ih := ih ((List.mem_cons.mp hp).resolve_left hne) n'
          show (scanUntil stop check (cs ++ t) n' >>= _) = _
          rw [ih]
          rcases h : scanUntil stop check cs n' with e | ⟨a, m, rest⟩
          · simp only [bind, Except.bind, Except.map, h]
          · simp only [bind, Except.bind, Except.map, h]

/-- A scanning loop reads up to the rest, and has passed every byte it read. -/
theorem scanUntil_ok {stop : Byte → Bool} {check : Byte → Nat → Except Exception Nat}
    {p a rest : Bytes} {n m : Nat} (h : scanUntil stop check p n = .ok (a, m, rest)) :
    p = a ++ rest ∧ ∀ c ∈ a, stop c = false ∧ ∃ k k', check c k = .ok k' := by
  induction p generalizing n a with
  | nil =>
      cases h
      exact ⟨rfl, nofun⟩
  | cons c cs ih =>
      simp only [scanUntil] at h
      by_cases hstop : c = 0 ∨ stop c
      · rw [if_pos hstop] at h
        cases h
        exact ⟨rfl, nofun⟩
      · rw [if_neg hstop] at h
        rcases hc : check c n with e | n'
        · rw [hc] at h
          cases h
        · rcases hrec : scanUntil stop check cs n' with e | ⟨a', m', rest'⟩
          · simp only [bind, Except.bind, hc, hrec] at h
            cases h
          · simp only [bind, Except.bind, hc, hrec] at h
            cases h
            obtain ⟨rfl, hpass⟩ := ih hrec
            have hc0 : stop c = false := Bool.eq_false_iff.mpr fun hs => hstop (.inr hs)
            exact ⟨rfl, List.forall_mem_cons.mpr ⟨⟨hc0, n, n', hc⟩, hpass⟩⟩

theorem scanUntil_spec {stop : Byte → Bool} {check : Byte → Nat → Except Exception Nat}
    (hcr : StopsAtCR stop check) {p a rest : Bytes} {n m : Nat}
    (h : scanUntil stop check p n = .ok (a, m, rest)) : p = a ++ rest ∧ CR ∉ a := by
  obtain ⟨hsplit, hpass⟩ := scanUntil_ok h
  refine ⟨hsplit, fun hmem => ?_⟩
  obtain ⟨hstop, k, k', hk⟩ := hpass CR hmem
  rcases hcr with h | h
  · rw [h] at hstop
    cases hstop
  · obtain ⟨e, he⟩ := h k
    rw [he] at hk
    cases hk

theorem checkHeaderChar_CR (stop : Byte → Bool) (maxSize : Nat) :
    StopsAtCR stop (checkHeaderChar maxSize) :=
  .inr fun _ => ⟨_, rfl⟩

theorem checkUriChar_CR (stop : Byte → Bool) : StopsAtCR stop checkUriChar := by
  refine .inr fun n => ?_
  by_cases h : n + 1 ≥ kMaxUriSize
  · exact ⟨.responseStatus .kUriTooLong, by rw [checkUriChar, if_neg (by decide), if_pos h]⟩
  · refine ⟨.responseStatus .kBadRequest, ?_⟩
    have hvisible : isVisibleAscii CR = false := by decide
    simp [checkUriChar, h, hvisible]

/-! ### A header line -/

theorem Terminated.drop_separator {p : Bytes} (hp : Terminated p)
    (hsep : ¬ (deref p ≠ COLON ∨ deref p.tail = 0 ∨ deref p.tail ≠ SP)) :
    Terminated (p.drop 2) := by
  simp only [not_or, not_not] at hsep
  obtain ⟨hcolon, -, hsp⟩ := hsep
  rcases p with - | ⟨c, - | ⟨c', p⟩⟩
  · exact absurd hp.length (by simp)
  · exact absurd hp.length (by simp)
  · have hcolon : c = COLON := hcolon
    have hsp : c' = SP := hsp
    subst hcolon hsp
    exact hp.right (a := [COLON, SP]) (by decide)

theorem readHeaderLine_append {p : Bytes} (hp : Terminated p) (t : Bytes) (n maxSize : Nat) :
    readHeaderLine true (p ++ t) n maxSize =
      (readHeaderLine true p n maxSize).map fun l => { l with rest := l.rest ++ t } := by
  simp only [readHeaderLine, readUntil,
    scanUntil_append (checkHeaderChar_CR (· == COLON) maxSize) hp.mem_CR]
  rcases hkey : scanUntil (· == COLON) (checkHeaderChar maxSize) p n with e | ⟨key, n1, data⟩
  · rfl
  · obtain ⟨rfl, hmem⟩ := scanUntil_spec (checkHeaderChar_CR _ _) hkey
    have hdata := hp.right hmem
    have hlen := hdata.length
    simp only [Except.map, bind, Except.bind, deref_append (show 1 ≤ data.length by omega),
      tail_append (show 1 ≤ data.length by omega),
      deref_append (show 1 ≤ data.tail.length by rw [List.length_tail]; omega)]
    by_cases hsep : deref data ≠ COLON ∨ deref data.tail = 0 ∨ deref data.tail ≠ SP
    · simp only [if_pos hsep]
    · simp only [if_neg hsep]
      rcases bumpLenOrThrow n1 2 maxSize with e | n2
      · rfl
      · have hvalue := hdata.drop_separator hsep
        simp only [List.drop_append_of_le_length (show 2 ≤ data.length by omega),
          scanUntil_append (checkHeaderChar_CR _ maxSize) hvalue.mem_CR]
        rcases hval : scanUntil (fun c => c == CR || c == LF) (checkHeaderChar maxSize)
          (data.drop 2) n2 with e | ⟨value, n3, rest⟩
        · rfl
        · obtain ⟨hsplit, hmem'⟩ := scanUntil_spec (checkHeaderChar_CR _ _) hval
          have hrest : Terminated rest := Terminated.right (hsplit ▸ hvalue) hmem'
          have hlen' := hrest.length
          simp only [Except.map, isCRLF_append (show 2 ≤ rest.length by omega),
            List.drop_append_of_le_length (show 2 ≤ rest.length by omega)]
          by_cases hcrlf : isCRLF rest = true
          · simp only [if_pos hcrlf]
            rcases bumpLenOrThrow n3 2 maxSize with e | n4 <;> rfl
          · simp only [if_neg hcrlf]
            rfl

theorem eq_of_separator {p : Bytes}
    (h : ¬ (deref p ≠ COLON ∨ deref p.tail = 0 ∨ deref p.tail ≠ SP)) :
    p = COLON :: SP :: p.drop 2 := by
  simp only [not_or, not_not] at h
  obtain ⟨hcolon, -, hsp⟩ := h
  rcases p with - | ⟨c, - | ⟨c', p⟩⟩
  · exact absurd hcolon (by decide)
  · exact absurd (show (0 : Byte) = SP from hsp) (by decide)
  · rw [show c = COLON from hcolon, show c' = SP from hsp]
    rfl

theorem readUntil_ok {stop : Byte → Bool} {p a rest : Bytes} {n m maxSize : Nat}
    (h : readUntil stop maxSize p n = .ok (a, m, rest)) :
    p = a ++ rest ∧ ∀ c ∈ a, isValidHeaderChar c = true := by
  obtain ⟨hsplit, hpass⟩ := scanUntil_ok h
  refine ⟨hsplit, fun c hc => ?_⟩
  obtain ⟨-, k, k', hk⟩ := hpass c hc
  by_contra hvalid
  rw [checkHeaderChar, if_pos (by simp [hvalid])] at hk
  cases hk

/-- **What `ReadHeaderLine` accepts**: `key: value` and the end of the line, in
printable characters. -/
theorem readHeaderLine_ok {strict : Bool} {p : Bytes} {n maxSize : Nat} {l : HeaderLine}
    (h : readHeaderLine strict p n maxSize = .ok l) :
    ∃ eol, p = l.key ++ COLON :: SP :: (l.value ++ eol ++ l.rest) ∧
      (eol = CRLF ∨ strict = false ∧ eol = [LF]) ∧
      (∀ c ∈ l.key, isValidHeaderChar c = true) ∧ ∀ c ∈ l.value, isValidHeaderChar c = true := by
  simp only [readHeaderLine, bind, Except.bind] at h
  -- name, separator, value and line end, each with its own check of the length
  rcases hkey : readUntil (· == COLON) maxSize p n with e | ⟨key, n1, data⟩
  · simp only [hkey, reduceCtorEq] at h
  · obtain ⟨rfl, hkeyValid⟩ := readUntil_ok hkey
    simp only [hkey] at h
    split_ifs at h with hsep
    rcases hbump : bumpLenOrThrow n1 2 maxSize with e | n2
    · simp only [hbump, reduceCtorEq] at h
    · simp only [hbump] at h
      rcases hval : readUntil (fun c => c == CR || c == LF) maxSize (data.drop 2) n2
        with e | ⟨value, n3, rest⟩
      · simp only [hval, reduceCtorEq] at h
      · obtain ⟨hsplit, hvalueValid⟩ := readUntil_ok hval
        simp only [hval] at h
        rw [eq_of_separator hsep, hsplit]
        by_cases hcrlf : isCRLF rest = true
        · obtain ⟨rest', rfl⟩ := eq_of_isCRLF hcrlf
          rw [if_pos hcrlf] at h
          rcases hbump' : bumpLenOrThrow n3 2 maxSize with e | n4
          · simp only [hbump', reduceCtorEq] at h
          · simp only [hbump', Except.ok.injEq] at h
            subst h
            exact ⟨CRLF, by simp, .inl rfl, hkeyValid, hvalueValid⟩
        · rw [if_neg hcrlf] at h
          by_cases hlf : (!strict && isLF rest) = true
          · rw [if_pos hlf] at h
            rw [Bool.and_eq_true, Bool.not_eq_true'] at hlf
            obtain ⟨hstrict, hlf⟩ := hlf
            obtain ⟨rest', rfl⟩ := eq_of_isLF hlf
            rcases hbump' : bumpLenOrThrow n3 1 maxSize with e | n4
            · simp only [hbump', reduceCtorEq] at h
            · simp only [hbump', Except.ok.injEq] at h
              subst h
              exact ⟨[LF], by simp, .inr ⟨hstrict, rfl⟩, hkeyValid, hvalueValid⟩
          · rw [if_neg hlf] at h
            simp at h

/-- A line takes something of the text. -/
theorem readHeaderLine_length_lt {strict : Bool} {p : Bytes} {n maxSize : Nat} {l : HeaderLine}
    (h : readHeaderLine strict p n maxSize = .ok l) : l.rest.length < p.length := by
  obtain ⟨eol, hp, -⟩ := readHeaderLine_ok h
  rw [hp]
  simp only [List.length_append, List.length_cons]
  omega

theorem CR_notMem_of_valid {s : Bytes} (h : ∀ c ∈ s, isValidHeaderChar c = true) : CR ∉ s :=
  fun hmem => absurd (h CR hmem) (by decide)

theorem LF_notMem_of_valid {s : Bytes} (h : ∀ c ∈ s, isValidHeaderChar c = true) : LF ∉ s :=
  fun hmem => absurd (h LF hmem) (by decide)

theorem readHeaderLine_rest {p : Bytes} (hp : Terminated p) {n maxSize : Nat} {l : HeaderLine}
    (h : readHeaderLine true p n maxSize = .ok l) :
    LineStart l.rest ∧ l.rest.length < p.length := by
  refine ⟨?_, readHeaderLine_length_lt h⟩
  obtain ⟨eol, hsplit, heol, hkey, hvalue⟩ := readHeaderLine_ok h
  obtain rfl : eol = CRLF := heol.resolve_right nofun
  have hline : CR ∉ l.key ++ COLON :: SP :: l.value := by
    have hk := CR_notMem_of_valid hkey
    have hv := CR_notMem_of_valid hvalue
    simp [hk, hv, show CR ≠ COLON by decide, show CR ≠ SP by decide]
  have hp' : Terminated ((l.key ++ COLON :: SP :: l.value) ++ CR :: LF :: l.rest) := by
    rw [hsplit] at hp
    simpa using hp
  exact (hp'.right hline).drop_CRLF

/-! ### Local functions -/

/-- `r` with the buffer `b`. -/
def HttpRequest.withBuffer (r : HttpRequest) (b : Bytes) : HttpRequest := { r with buffer := b }

/-- A function that leaves what follows `p` alone, and the buffer too. -/
def Local (f : Bytes → RequestM Bytes) (p : Bytes) : Prop :=
  ∀ t b r, (f (p ++ t)).run (r.withBuffer b) = ((f p).run r).bimap (· ++ t) (·.withBuffer b)

/-- A function that neither reads nor writes the buffer. -/
def Frame {α : Type} (x : RequestM α) : Prop :=
  ∀ b r, x.run (r.withBuffer b) = (x.run r).bimap id (·.withBuffer b)

theorem Local.bind {f g : Bytes → RequestM Bytes} {p : Bytes} (hf : Local f p)
    (hg : ∀ q r s, (f p).run r = .ok q s → Local g q) : Local (fun p => f p >>= g) p := by
  intro t b r
  simp only [EStateM.run_bind, hf t b r]
  rcases h : (f p).run r with ⟨q, s⟩ | ⟨e, s⟩
  · exact hg q r s h t b s
  · rfl

theorem Frame.bind {α β : Type} {x : RequestM α} {k : α → RequestM β} (hx : Frame x)
    (hk : ∀ a, Frame (k a)) : Frame (x >>= k) := by
  intro b r
  simp only [EStateM.run_bind, hx b r]
  rcases h : x.run r with ⟨a, s⟩ | ⟨e, s⟩
  · exact hk a b s
  · rfl

/-- What is left of a text behind a prefix it has. -/
theorem drop_append_of_isPrefix {pat p : Bytes} (h : pat <+: p) {n : Nat} (hn : pat.length = n)
    (t : Bytes) : (p ++ t).drop n = p.drop n ++ t :=
  List.drop_append_of_le_length (hn ▸ h.length_le)

theorem Terminated.drop_isPrefix {pat p : Bytes} (hp : Terminated p) (h : pat <+: p)
    (hcr : CR ∉ pat) {n : Nat} (hn : pat.length = n) : Terminated (p.drop n) := by
  obtain ⟨rest, rfl⟩ := h
  rw [← hn, List.drop_left]
  exact hp.right hcr

/-! ### The request line -/

theorem consumeMethod_local {p : Bytes} (hp : Terminated p) : Local consumeMethod p := by
  intro t b r
  have hiff : ∀ pat, CR ∉ pat → (pat <+: p ++ t ↔ pat <+: p) := fun pat hpat =>
    prefix_append_iff hpat hp.mem_CR t
  simp only [consumeMethod, EStateM.run_ite, hiff (bytes "GET ") (by decide),
    hiff (bytes "HEAD ") (by decide), hiff (bytes "POST ") (by decide),
    hiff (bytes "DELETE ") (by decide)]
  split_ifs with hget hhead hpost hdelete
  · rw [drop_append_of_isPrefix hget (by decide)]; rfl
  · rw [drop_append_of_isPrefix hhead (by decide)]; rfl
  · rw [drop_append_of_isPrefix hpost (by decide)]; rfl
  · rw [drop_append_of_isPrefix hdelete (by decide)]; rfl
  · rfl

theorem consumeMethod_rest {p q : Bytes} {r s : HttpRequest} (hp : Terminated p)
    (h : (consumeMethod p).run r = .ok q s) : Terminated q := by
  simp only [consumeMethod, EStateM.run_ite] at h
  split_ifs at h with hget hhead hpost hdelete
  · cases h; exact hp.drop_isPrefix hget (by decide) (by decide)
  · cases h; exact hp.drop_isPrefix hhead (by decide) (by decide)
  · cases h; exact hp.drop_isPrefix hpost (by decide) (by decide)
  · cases h; exact hp.drop_isPrefix hdelete (by decide) (by decide)
  · cases h

/-- What is left of a head behind one byte that is no CR. -/
theorem Terminated.drop_one {p : Bytes} (hp : Terminated p) {c : Byte} (hc : deref p = c)
    (hcr : c ≠ CR) : Terminated (p.drop 1) := by
  rcases p with - | ⟨c', p⟩
  · exact absurd hp.length (by simp)
  · have hc : c' = c := hc
    subst hc
    exact hp.right (a := [c']) (by simpa using Ne.symm hcr)

theorem consumeQuery_local {p : Bytes} (hp : Terminated p) (len : Nat) :
    Local (consumeQuery · len) p := by
  intro t b r
  simp only [consumeQuery, consumeUntilStopChar, EStateM.run_bind,
    scanUntil_append (checkUriChar_CR _) hp.mem_CR]
  rcases scanUntil (· == SP) checkUriChar p len with e | ⟨query, n, rest⟩ <;> rfl

theorem consumeQuery_rest {p q : Bytes} {r s : HttpRequest} {len : Nat} (hp : Terminated p)
    (h : (consumeQuery p len).run r = .ok q s) : Terminated q := by
  simp only [consumeQuery, consumeUntilStopChar, EStateM.run_bind] at h
  rcases hscan : scanUntil (· == SP) checkUriChar p len with e | ⟨query, n, rest⟩
  · rw [hscan] at h
    cases h
  · rw [hscan] at h
    cases h
    obtain ⟨rfl, hmem⟩ := scanUntil_spec (checkUriChar_CR _) hscan
    exact hp.right hmem

theorem consumeOptionalQuery_local {p : Bytes} (hp : Terminated p) (len : Nat) :
    Local (consumeOptionalQuery len) p := by
  intro t b r
  have hlen := hp.length
  simp only [consumeOptionalQuery, EStateM.run_ite, deref_append (show 1 ≤ p.length by omega)]
  split_ifs with hquery htooLong
  · rfl
  · rw [List.drop_append_of_le_length (by omega)]
    exact consumeQuery_local (hp.drop_one hquery (by decide)) (len + 1) t b r
  · rfl

theorem consumeOptionalQuery_rest {p q : Bytes} {r s : HttpRequest} {len : Nat}
    (hp : Terminated p) (h : (consumeOptionalQuery len p).run r = .ok q s) : Terminated q := by
  simp only [consumeOptionalQuery, EStateM.run_ite] at h
  split_ifs at h with hquery htooLong
  · cases h
  · exact consumeQuery_rest (hp.drop_one hquery (by decide)) h
  · cases h
    exact hp

theorem skipSpaceAfterUri_local {p : Bytes} (hp : Terminated p) : Local skipSpaceAfterUri p := by
  intro t b r
  have hlen := hp.length
  simp only [skipSpaceAfterUri, EStateM.run_ite, deref_append (show 1 ≤ p.length by omega),
    List.drop_append_of_le_length (show 1 ≤ p.length by omega)]
  split_ifs <;> rfl

theorem skipSpaceAfterUri_rest {p q : Bytes} {r s : HttpRequest} (hp : Terminated p)
    (h : (skipSpaceAfterUri p).run r = .ok q s) : Terminated q := by
  simp only [skipSpaceAfterUri, EStateM.run_ite] at h
  split_ifs at h with hsp
  · cases h
  · cases h
    exact hp.drop_one (not_not.mp hsp) (by decide)

theorem consumeUri_local {p : Bytes} (hp : Terminated p) : Local consumeUri p := by
  intro t b r
  have hlen := hp.length
  simp only [consumeUri, EStateM.run_ite, deref_append (show 1 ≤ p.length by omega)]
  by_cases hslash : deref p ≠ SLASH
  · simp only [if_pos hslash]
    rfl
  · simp only [if_neg hslash, EStateM.run_bind, consumeUntilStopChar,
      scanUntil_append (checkUriChar_CR _) hp.mem_CR]
    rcases hscan : scanUntil (fun c => c == SP || c == 63) checkUriChar p 0 with e | ⟨path, len, q⟩
    · rfl
    · obtain ⟨rfl, hmem⟩ := scanUntil_spec (checkUriChar_CR _) hscan
      have hq := hp.right hmem
      have hqlen := hq.length
      simp only [Except.map, run_call_ok, EStateM.run_modify, EStateM.run_ite,
        deref_append (show 1 ≤ q.length by omega)]
      split_ifs with hbad
      · rfl
      · exact Local.bind (consumeOptionalQuery_local hq len)
          (fun q' _ _ h => skipSpaceAfterUri_local (consumeOptionalQuery_rest hq h)) t b
          { r with uri := path }

theorem consumeUri_rest {p q : Bytes} {r s : HttpRequest} (hp : Terminated p)
    (h : (consumeUri p).run r = .ok q s) : Terminated q := by
  simp only [consumeUri, EStateM.run_ite] at h
  split_ifs at h with hslash
  · cases h
  · simp only [EStateM.run_bind, consumeUntilStopChar] at h
    rcases hscan : scanUntil (fun c => c == SP || c == 63) checkUriChar p 0 with e | ⟨path, len, q'⟩
    · rw [hscan] at h
      cases h
    · obtain ⟨rfl, hmem⟩ := scanUntil_spec (checkUriChar_CR _) hscan
      have hq := hp.right hmem
      simp only [hscan, run_call_ok, EStateM.run_modify, EStateM.run_ite] at h
      split_ifs at h with hbad
      · cases h
      · rw [EStateM.run_bind] at h
        rcases hquery : (consumeOptionalQuery len q').run { r with uri := path }
          with ⟨q'', s'⟩ | ⟨e, s'⟩
        · rw [hquery] at h
          exact skipSpaceAfterUri_rest (consumeOptionalQuery_rest hq hquery) h
        · rw [hquery] at h
          cases h

theorem consumeVersion_local {p : Bytes} (hp : Terminated p) : Local consumeVersion p := by
  intro t b r
  simp only [consumeVersion, EStateM.run_bind,
    @scanUntil_append (· == CR) checkVersionChar (.inl rfl) p hp.mem_CR]
  rcases hscan : scanUntil (· == CR) checkVersionChar p 0 with e | ⟨version, len, q⟩
  · rfl
  · obtain ⟨rfl, hmem⟩ := scanUntil_spec (.inl rfl) hscan
    have hlen := (hp.right hmem).length
    simp only [Except.map, run_call_ok, EStateM.run_ite, isCRLF_append (show 2 ≤ q.length by omega),
      List.drop_append_of_le_length (show 2 ≤ q.length by omega)]
    split_ifs <;> rfl

theorem consumeVersion_rest {p q : Bytes} {r s : HttpRequest} (hp : Terminated p)
    (h : (consumeVersion p).run r = .ok q s) : LineStart q := by
  simp only [consumeVersion, EStateM.run_bind] at h
  rcases hscan : scanUntil (· == CR) checkVersionChar p 0 with e | ⟨version, len, q'⟩
  · rw [hscan] at h
    cases h
  · obtain ⟨rfl, hmem⟩ := scanUntil_spec (.inl rfl) hscan
    have hq := hp.right hmem
    simp only [hscan, run_call_ok, EStateM.run_ite] at h
    split_ifs at h with hcrlf hversion
    · cases h
    · cases h
    · obtain ⟨rest, rfl⟩ := eq_of_isCRLF (by simpa using hcrlf)
      cases h
      exact hq.drop_CRLF

/-! ### The header fields -/

/-- Functions without a text that touch neither the text nor the buffer. -/
theorem storeHeader_frame (key value : Bytes) : Frame (storeHeader key value) := by
  intro b r
  simp only [storeHeader, EStateM.run_bind, EStateM.run_get, EStateM.run_ite]
  rw [show (r.withBuffer b).headers = r.headers from rfl]
  split_ifs <;> rfl

theorem validateAndExtractHost_frame : Frame validateAndExtractHost := by
  intro b r
  simp only [validateAndExtractHost, EStateM.run_bind, EStateM.run_get]
  rw [show (r.withBuffer b).headers = r.headers from rfl]
  rcases r.headers[bytes "host"]? with - | hostValue
  · rfl
  · simp only [EStateM.run_ite, EStateM.run_bind, EStateM.run_modify]
    split_ifs
    · rfl
    · rfl
    · rfl
    · rcases strToUnsignedShort _ with - | port <;> rfl

theorem parseContentLength_frame (s : Bytes) : Frame (parseContentLength s) := by
  intro b r
  simp only [parseContentLength]
  rcases strToLong s with - | len
  · rfl
  · simp only [EStateM.run_ite]
    split_ifs <;> rfl

theorem validateBodyHeaders_frame : Frame validateBodyHeaders := by
  intro b r
  simp only [validateBodyHeaders, EStateM.run_bind, EStateM.run_get]
  rw [show (r.withBuffer b).headers = r.headers from rfl]
  rcases r.headers[bytes "content-length"]? with - | s
    <;> rcases r.headers[bytes "transfer-encoding"]? with - | s'
  · rfl
  · simp only [parseTransferEncoding, EStateM.run_ite]
    split_ifs <;> rfl
  · simp only [EStateM.run_bind, parseContentLength_frame s b r]
    rcases (parseContentLength s).run r with ⟨u, r'⟩ | ⟨e, r'⟩
    · simp only [EStateM.Result.bimap, EStateM.run_get, EStateM.run_ite]
      rw [show (r'.withBuffer b).contentLength = r'.contentLength from rfl,
        show (r'.withBuffer b).maxBodySizeLimit = r'.maxBodySizeLimit from rfl]
      split_ifs <;> rfl
    · rfl
  · rfl

theorem parseConnectionDirective_frame : Frame parseConnectionDirective := by
  intro b r
  simp only [parseConnectionDirective, EStateM.run_bind, EStateM.run_get]
  rw [show (r.withBuffer b).headers = r.headers from rfl]
  rcases r.headers[bytes "connection"]? with - | v
  · rfl
  · simp only [EStateM.run_ite]
    split_ifs <;> rfl

/-- The loop over the header lines is local, and does not need more fuel when
more text follows. -/
theorem consumeHeaderLines_append (fuel fuel' : Nat) {p : Bytes} (hp : LineStart p)
    (hfuel : p.length < fuel) (hfuel' : p.length < fuel') (t b : Bytes) (n : Nat)
    (r : HttpRequest) :
    (consumeHeaderLines fuel' (p ++ t) n).run (r.withBuffer b) =
      ((consumeHeaderLines fuel p n).run r).bimap (fun q => (q.1 ++ t, q.2)) (·.withBuffer b) := by
  induction fuel generalizing fuel' p n r with
  | zero => omega
  | succ fuel ih =>
      rcases fuel' with - | fuel'
      · omega
      · have hlen := hp.length
        simp only [consumeHeaderLines, EStateM.run_ite, deref_append (show 1 ≤ p.length by omega),
          isCRLF_append hlen]
        by_cases hstop : deref p = 0 ∨ isCRLF p = true
        · simp only [if_pos hstop]
          rfl
        · simp only [if_neg hstop, EStateM.run_bind]
          have hterm : Terminated p := by
            refine hp.resolve_left fun h => hstop (.inr ?_)
            rw [h]
            rfl
          rw [readHeaderLine_append hterm]
          rcases hline : readHeaderLine true p n kMaxHeaderSize with e | l
          · rfl
          · obtain ⟨hrest, hlt⟩ := readHeaderLine_rest hterm hline
            simp only [Except.map, run_call_ok, storeHeader_frame l.key l.value b r]
            rcases (storeHeader l.key l.value).run r with ⟨u, s⟩ | ⟨e, s⟩
            · exact ih fuel' hrest (by omega) (by omega) l.totalLen s
            · rfl

theorem consumeHeaderLines_rest (fuel : Nat) {p q : Bytes} (hp : LineStart p)
    {n m : Nat} {r s : HttpRequest} (h : (consumeHeaderLines fuel p n).run r = .ok (q, m) s) :
    LineStart q := by
  induction fuel generalizing p n r with
  | zero => cases h
  | succ fuel ih =>
      simp only [consumeHeaderLines, EStateM.run_ite] at h
      split_ifs at h with hstop
      · cases h
        exact hp
      · have hterm : Terminated p := by
          refine hp.resolve_left fun h => hstop (.inr ?_)
          rw [h]
          rfl
        rw [EStateM.run_bind] at h
        rcases hline : readHeaderLine true p n kMaxHeaderSize with e | l
        · rw [hline] at h
          cases h
        · obtain ⟨hrest, -⟩ := readHeaderLine_rest hterm hline
          simp only [hline, run_call_ok, EStateM.run_bind] at h
          rcases hstore : (storeHeader l.key l.value).run r with ⟨u, s'⟩ | ⟨e, s'⟩
          · rw [hstore] at h
            exact ih hrest h
          · rw [hstore] at h
            cases h

theorem validateHeaders_frame (totalLen : Nat) : Frame (validateHeaders totalLen) := by
  have hcall : Frame (call (bumpLenOrThrow totalLen 2 kMaxHeaderSize)) := by
    intro b r
    rcases bumpLenOrThrow totalLen 2 kMaxHeaderSize with e | n <;> rfl
  exact hcall.bind fun _ => validateAndExtractHost_frame.bind fun _ =>
    validateBodyHeaders_frame.bind fun _ => parseConnectionDirective_frame

theorem consumeHeader_local {p : Bytes} (hp : LineStart p) : Local consumeHeader p := by
  intro t b r
  simp only [consumeHeader, EStateM.run_bind]
  rw [consumeHeaderLines_append (p.length + 1) ((p ++ t).length + 1) hp (by omega)
    (by rw [List.length_append]; omega)]
  rcases hlines : (consumeHeaderLines (p.length + 1) p 0).run r with ⟨⟨q, n⟩, s⟩ | ⟨e, s⟩
  · have hq := (consumeHeaderLines_rest _ hp hlines).length
    simp only [EStateM.Result.bimap, EStateM.run_ite, isCRLF_append hq,
      List.drop_append_of_le_length hq]
    split_ifs
    · rfl
    · simp only [EStateM.run_bind, validateHeaders_frame n b s]
      rcases (validateHeaders n).run s with ⟨u, s'⟩ | ⟨e, s'⟩ <;> rfl
  · rfl

/-- **The header phase is local**: it does with a text what it does with the
head of it. -/
theorem consumeRequestHead_local {p : Bytes} (hp : Terminated p) : Local consumeRequestHead p :=
  (consumeMethod_local hp).bind fun _ _ _ hmethod =>
    have hp := consumeMethod_rest hp hmethod
    (consumeUri_local hp).bind fun _ _ _ huri =>
      have hp := consumeUri_rest hp huri
      (consumeVersion_local hp).bind fun _ _ _ hversion =>
        consumeHeader_local (consumeVersion_rest hp hversion)

/-! ### The end of the head -/

theorem findEndOfHeader_strict (s : Bytes) :
    findEndOfHeader true s = (Substring.find (CRLF ++ CRLF) s).map (· + 4) := by
  unfold findEndOfHeader
  rcases Substring.find (CRLF ++ CRLF) s with - | i <;> rfl

theorem findEndOfHeader_eq_some {s : Bytes} {i : Nat} (h : findEndOfHeader true s = some i) :
    i ≤ s.length ∧ Terminated (s.take i) := by
  rw [findEndOfHeader_strict] at h
  obtain ⟨k, hk, rfl⟩ := Option.map_eq_some_iff.mp h
  have hle : k + 4 ≤ s.length := Substring.find_le_length (by decide) hk
  refine ⟨hle, s.take k, ?_⟩
  have hsplit : s = (s.take k ++ CRLF ++ CRLF) ++ s.drop (k + 4) := by
    rw [List.append_assoc (s.take k)]
    exact Substring.find_split (by decide) hk
  have hlen : (s.take k ++ CRLF ++ CRLF).length = k + 4 := by
    simp only [List.length_append, List.length_take, List.length_cons, List.length_nil]
    omega
  calc s.take (k + 4) = ((s.take k ++ CRLF ++ CRLF) ++ s.drop (k + 4)).take (k + 4) := by
        rw [← hsplit]
    _ = s.take k ++ CRLF ++ CRLF := List.take_left' hlen

theorem findEndOfHeader_append {s : Bytes} {i : Nat} (h : findEndOfHeader true s = some i)
    (t : Bytes) : findEndOfHeader true (s ++ t) = some i := by
  rw [findEndOfHeader_strict] at h ⊢
  obtain ⟨k, hk, rfl⟩ := Option.map_eq_some_iff.mp h
  rw [Substring.find_append (by decide) hk t]
  rfl

/-- The header phase on a longer buffer. -/
theorem consumeRequestHead_withBuffer {r : HttpRequest} {i : Nat}
    (h : findEndOfHeader true r.buffer = some i) (xs : Bytes) :
    (consumeRequestHead (r.buffer ++ xs)).run (r.withBuffer (r.buffer ++ xs)) =
      ((consumeRequestHead r.buffer).run r).bimap (· ++ xs) (·.withBuffer (r.buffer ++ xs)) := by
  have hlocal := consumeRequestHead_local (findEndOfHeader_eq_some h).2
  have hsplit := List.take_append_drop i r.buffer
  have hshort := hlocal (r.buffer.drop i) r.buffer r
  have hlong := hlocal (r.buffer.drop i ++ xs) (r.buffer ++ xs) r
  rw [hsplit, show r.withBuffer r.buffer = r from rfl] at hshort
  rw [← List.append_assoc, hsplit] at hlong
  rw [hlong, hshort]
  rcases (consumeRequestHead (r.buffer.take i)).run r with ⟨q, s⟩ | ⟨e, s⟩
  · simp only [EStateM.Result.bimap, List.append_assoc]
    rfl
  · rfl

end Webserv
