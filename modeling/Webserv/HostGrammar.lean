/-
Webserv/HostGrammar.lean

The hosts `IsValidHost` accepts, against the grammar of hosts.

The three recognisers read the pieces between dots, and `std::getline` gives no piece
behind a last dot.  `IsValidDomainName` rejects a last dot before it splits,
`IsValidIPv4` does not: a quad with a dot behind it is the one text outside the
grammar that is accepted.
-/
import Webserv.HostValidation
import Webserv.Theory.Segments

namespace Webserv

open Segments

/-! ### The grammar -/

/-- An ASCII letter. -/
def isLetter (c : Byte) : Bool := (65 ≤ c && c ≤ 90) || (97 ≤ c && c ≤ 122)

/-- Texts with dots between them. -/
def dotted (parts : List Bytes) : Bytes := [DOT].intercalate parts

/-- Four numbers up to 255, written without leading zeros. -/
def IsQuad (s : Bytes) : Prop :=
  ∃ octets : List Nat, octets.length = 4 ∧ (∀ n ∈ octets, n ≤ 255) ∧
    s = dotted (octets.map natToString)

/-- 1 to 63 letters, digits and hyphens, no hyphen at an end. -/
structure IsLabel (label : Bytes) : Prop where
  nonempty : label ≠ []
  short : label.length ≤ 63
  chars : ∀ c ∈ label, isAlnum c = true ∨ c = HYPHEN
  first : label.head? ≠ some HYPHEN
  last : label.getLast? ≠ some HYPHEN

/-- Two labels or more, with a letter among them. -/
def IsDomainName (s : Bytes) : Prop :=
  (∃ labels : List Bytes, 2 ≤ labels.length ∧ (∀ l ∈ labels, IsLabel l) ∧ s = dotted labels) ∧
    ∃ c ∈ s, isLetter c = true

/-- A host. -/
def IsHost (s : Bytes) : Prop := s = bytes "localhost" ∨ IsQuad s ∨ IsDomainName s

/-! ### Characters -/

theorem isAlnum_iff {c : Byte} : isAlnum c = true ↔ isDigit c = true ∨ isLetter c = true := by
  simp [isAlnum, isLetter, or_assoc]

theorem isDigit_ne_dot {c : Byte} (h : isDigit c = true) : c ≠ DOT := by
  rintro rfl
  exact absurd h (by decide)

theorem not_isLetter_digit {c : Byte} (h : isDigit c = true) : isLetter c = false := by
  obtain ⟨hlo, hhi⟩ := isDigit_iff.mp h
  simp only [isLetter, Bool.or_eq_false_iff, Bool.and_eq_false_iff, decide_eq_false_iff_not,
    UInt8.le_iff_toNat_le]
  have h65 : (65 : Byte).toNat = 65 := rfl
  have h97 : (97 : Byte).toNat = 97 := rfl
  exact ⟨.inl (by omega), .inl (by omega)⟩

/-! ### Pieces -/

theorem modifyHead_nil_append (ps : List Bytes) : ps.modifyHead ([] ++ ·) = ps := by
  cases ps <;> rfl

theorem modifyHead_append (cur : Bytes) (c : Byte) (ps : List Bytes) :
    ps.modifyHead ((cur ++ [c]) ++ ·) = (ps.modifyHead (c :: ·)).modifyHead (cur ++ ·) := by
  cases ps with
  | nil => rfl
  | cons p ps => simp

/-- A last dot gives no piece. -/
theorem getlinePieces_append_dot (cur s : Bytes) :
    getlinePieces cur (s ++ [DOT]) = (pieces DOT s).modifyHead (cur ++ ·) := by
  induction s generalizing cur with
  | nil => simp [getlinePieces, pieces]
  | cons c cs ih =>
      rw [List.cons_append, getlinePieces, pieces]
      split_ifs
      · rw [ih, modifyHead_nil_append]
        simp
      · rw [ih, modifyHead_append]

/-- Without a last dot every piece is given. -/
theorem getlinePieces_eq (cur : Bytes) {s : Bytes} (hne : cur ++ s ≠ [])
    (hlast : s.getLast? ≠ some DOT) :
    getlinePieces cur s = (pieces DOT s).modifyHead (cur ++ ·) := by
  induction s generalizing cur with
  | nil =>
      rw [List.append_nil] at hne
      simp [getlinePieces, pieces, hne]
  | cons c cs ih =>
      have hrest : cs ≠ [] → cs.getLast? ≠ some DOT := fun hcs => by
        rwa [List.getLast?_cons_of_ne_nil hcs] at hlast
      rw [getlinePieces, pieces]
      split_ifs with hc
      · have hcs : cs ≠ [] := by
          rintro rfl
          exact hlast (congrArg some hc)
        rw [ih [] hcs (hrest hcs), modifyHead_nil_append]
        simp
      · rw [← modifyHead_append]
        refine ih _ (by simp) fun h => ?_
        rcases cs with - | ⟨d, ds⟩
        · cases h
        · exact hrest (List.cons_ne_nil _ _) h

/-! ### Quads -/

theorem isValidIPv4Segment_iff (segment : Bytes) :
    isValidIPv4Segment segment = true ↔ ∃ n ≤ 255, segment = natToString n := by
  constructor
  · intro h
    unfold isValidIPv4Segment at h
    split_ifs at h with hlen hzero
    rw [Bool.and_eq_true, List.all_eq_true, decide_eq_true_eq] at h
    refine ⟨_, h.2, (natToString_decimalVal ⟨fun hnil => hlen (.inl hnil), h.1, ?_⟩).symm⟩
    exact fun hlong hhead => hzero ⟨hlong, hhead⟩
  · rintro ⟨n, hn, rfl⟩
    have hplain := isPlainNumeral_natToString n
    have hlen : (natToString n).length ≤ 3 := by
      rw [natToString, List.length_map]
      exact (Nat.length_toDigits_le_iff (by decide) (by decide)).mpr (by omega)
    unfold isValidIPv4Segment
    rw [if_neg (not_or.mpr ⟨hplain.nonempty, by omega⟩),
      if_neg fun h => hplain.leading h.1 h.2, Bool.and_eq_true, List.all_eq_true,
      decide_eq_true_eq, decimalVal_natToString]
    exact ⟨hplain.digits, hn⟩

/-- Four numerals are the numerals of four numbers. -/
theorem octets_iff (parts : List Bytes) :
    (parts.length = 4 ∧ ∀ p ∈ parts, isValidIPv4Segment p = true) ↔
      ∃ octets : List Nat, octets.length = 4 ∧ (∀ n ∈ octets, n ≤ 255) ∧
        parts = octets.map natToString := by
  constructor
  · rintro ⟨hlen, hvalid⟩
    have hback : parts.map (natToString ∘ decimalVal) = parts.map id :=
      List.map_congr_left fun p hp => by
        obtain ⟨n, -, rfl⟩ := (isValidIPv4Segment_iff p).mp (hvalid p hp)
        exact congrArg natToString (decimalVal_natToString n)
    refine ⟨parts.map decimalVal, by rw [List.length_map, hlen], fun n hn => ?_, ?_⟩
    · obtain ⟨p, hp, rfl⟩ := List.mem_map.mp hn
      obtain ⟨m, hm, rfl⟩ := (isValidIPv4Segment_iff p).mp (hvalid p hp)
      rwa [decimalVal_natToString]
    · rw [List.map_map, hback, List.map_id]
  · rintro ⟨octets, hlen, hle, rfl⟩
    refine ⟨by rw [List.length_map, hlen], fun p hp => ?_⟩
    obtain ⟨n, hn, rfl⟩ := List.mem_map.mp hp
    exact (isValidIPv4Segment_iff _).mpr ⟨n, hle n hn, rfl⟩

theorem dot_notMem_natToString (n : Nat) : DOT ∉ natToString n := by
  intro h
  exact isDigit_ne_dot (isDigit_natToString h) rfl

/-- The pieces of a quad. -/
theorem isQuad_iff (s : Bytes) :
    IsQuad s ↔ (pieces DOT s).length = 4 ∧ ∀ p ∈ pieces DOT s, isValidIPv4Segment p = true := by
  rw [octets_iff]
  constructor
  · rintro ⟨octets, hlen, hle, rfl⟩
    refine ⟨octets, hlen, hle, pieces_intercalate (fun h => ?_) fun t ht => ?_⟩
    · rw [List.map_eq_nil_iff.mp h] at hlen
      cases hlen
    · obtain ⟨n, -, rfl⟩ := List.mem_map.mp ht
      exact dot_notMem_natToString n
  · rintro ⟨octets, hlen, hle, hpieces⟩
    refine ⟨octets, hlen, hle, ?_⟩
    rw [← hpieces]
    exact (intercalate_pieces s).symm

/-- Every character of a piece list, with dots between. -/
theorem char_of_pieces {s : Bytes} {c : Byte} (h : c ∈ s) : c = DOT ∨ ∃ p ∈ pieces DOT s, c ∈ p := by
  have hjoin : c ∈ join DOT (pieces DOT s) := by
    rw [join_pieces]
    exact List.mem_cons_of_mem _ h
  exact mem_join hjoin

theorem IsQuad.chars {s : Bytes} (h : IsQuad s) : ∀ c ∈ s, isDigit c = true ∨ c = DOT := by
  intro c hc
  obtain ⟨-, hvalid⟩ := (isQuad_iff s).mp h
  rcases char_of_pieces hc with hdot | ⟨p, hp, hcp⟩
  · exact .inr hdot
  · obtain ⟨n, -, rfl⟩ := (isValidIPv4Segment_iff p).mp (hvalid p hp)
    exact .inl (isDigit_natToString hcp)

/-- A quad ends with a digit. -/
theorem not_isQuad_append_dot (q : Bytes) : ¬ IsQuad (q ++ [DOT]) := by
  intro h
  have hvalid := ((isQuad_iff _).mp h).2
  rw [pieces_append_sep] at hvalid
  obtain ⟨n, -, hn⟩ := (isValidIPv4Segment_iff []).mp
    (hvalid [] (List.mem_append_right _ List.mem_cons_self))
  exact natToString_ne_nil n hn.symm

/-- **`IsValidIPv4`** accepts a quad, and a quad with a dot behind it. -/
theorem isValidIPv4_iff (host : Bytes) :
    isValidIPv4 host = true ↔ IsQuad host ∨ ∃ quad, IsQuad quad ∧ host = quad ++ [DOT] := by
  have hread : ∀ q s : Bytes, getlinePieces [] s = pieces DOT q →
      (∀ c ∈ s, c ∈ q ∨ c = DOT) → (isValidIPv4 s = true ↔ IsQuad q) := by
    intro q _ hpieces hsub
    rw [isQuad_iff, isValidIPv4, hpieces, Bool.and_eq_true, Bool.and_eq_true, beq_iff_eq,
      List.all_eq_true, List.all_eq_true]
    constructor
    · exact And.right
    · intro h
      refine ⟨fun c hc => ?_, h⟩
      rcases hsub c hc with hcq | rfl
      · rcases ((isQuad_iff q).mpr h).chars c hcq with hdigit | rfl
        · simp [hdigit]
        · rfl
      · rfl
  rcases List.eq_nil_or_concat host with rfl | ⟨q, c, rfl⟩
  · have hnil : ¬ IsQuad [] := fun h => absurd ((isQuad_iff []).mp h).1 (by decide)
    exact iff_of_false (by decide) (not_or.mpr ⟨hnil, fun ⟨q, _, h⟩ => by simp at h⟩)
  · rw [List.concat_eq_append]
    by_cases hc : c = DOT
    · subst hc
      have hpieces := getlinePieces_append_dot [] q
      rw [modifyHead_nil_append] at hpieces
      rw [hread q _ hpieces fun c hc => by simpa using hc]
      constructor
      · exact fun h => .inr ⟨q, h, rfl⟩
      · rintro (h | ⟨q', h, heq⟩)
        · exact absurd h (not_isQuad_append_dot q)
        · rwa [List.append_cancel_right heq]
    · have hlast : (q ++ [c]).getLast? ≠ some DOT := by simpa using hc
      have hpieces := getlinePieces_eq [] (by simp) hlast
      rw [modifyHead_nil_append] at hpieces
      rw [hread _ _ hpieces fun _ => .inl]
      refine ⟨.inl, fun h => h.resolve_right ?_⟩
      rintro ⟨q', -, heq⟩
      rw [heq] at hlast
      exact hlast (by simp)

/-! ### Domain names -/

theorem isValidDomainLabel_iff (label : Bytes) :
    isValidDomainLabel label = true ↔ IsLabel label := by
  unfold isValidDomainLabel
  split_ifs with hlen hhyphen
  · refine iff_of_false (by simp) fun h => ?_
    rcases hlen with hnil | hlong
    · exact h.nonempty hnil
    · exact absurd h.short (by omega)
  · refine iff_of_false (by simp) fun h => ?_
    rcases hhyphen with hfirst | hlast
    · exact h.first hfirst
    · exact h.last hlast
  · rw [not_or] at hlen hhyphen
    rw [List.all_eq_true]
    constructor
    · intro h
      refine ⟨hlen.1, by omega, fun c hc => ?_, hhyphen.1, hhyphen.2⟩
      simpa using h c hc
    · intro h c hc
      simpa using h.chars c hc

theorem IsLabel.dot_notMem {label : Bytes} (h : IsLabel label) : DOT ∉ label := by
  intro hmem
  rcases h.chars DOT hmem with halnum | hhyphen
  · exact absurd halnum (by decide)
  · exact absurd hhyphen (by decide)

theorem isDomainName_iff (s : Bytes) :
    IsDomainName s ↔ (2 ≤ (pieces DOT s).length ∧ ∀ p ∈ pieces DOT s, IsLabel p) ∧
      ∃ c ∈ s, isLetter c = true := by
  refine and_congr_left' ?_
  constructor
  · rintro ⟨labels, hlen, hvalid, rfl⟩
    have hpieces : pieces DOT (dotted labels) = labels :=
      pieces_intercalate (fun h => by rw [h] at hlen; cases hlen) fun t ht => (hvalid t ht).dot_notMem
    rw [hpieces]
    exact ⟨hlen, hvalid⟩
  · rintro ⟨hlen, hvalid⟩
    exact ⟨_, hlen, hvalid, (intercalate_pieces s).symm⟩

/-- A text with a dot at an end has an empty piece there. -/
theorem nil_mem_pieces {s : Bytes}
    (h : s = [] ∨ s.head? = some DOT ∨ s.getLast? = some DOT) : [] ∈ pieces DOT s := by
  rcases h with rfl | hfirst | hlast
  · exact List.mem_cons_self
  · obtain ⟨t, rfl⟩ := List.head?_eq_some_iff.mp hfirst
    rw [pieces_sep]
    exact List.mem_cons_self
  · obtain ⟨t, rfl⟩ := List.getLast?_eq_some_iff.mp hlast
    rw [pieces_append_sep]
    exact List.mem_append_right _ List.mem_cons_self

theorem isValidDomainName_iff (s : Bytes) :
    isValidDomainName s = true ↔ 2 ≤ (pieces DOT s).length ∧ ∀ p ∈ pieces DOT s, IsLabel p := by
  unfold isValidDomainName
  split_ifs with hends
  · refine iff_of_false (by simp) fun h => ?_
    exact (h.2 [] (nil_mem_pieces hends)).nonempty rfl
  · rw [not_or, not_or] at hends
    obtain ⟨hne, -, hlast⟩ := hends
    have hpieces := getlinePieces_eq [] hne hlast
    rw [modifyHead_nil_append] at hpieces
    rw [hpieces, Bool.and_eq_true, List.all_eq_true, decide_eq_true_eq, and_comm]
    simp only [isValidDomainLabel_iff]

theorem IsDomainName.chars {s : Bytes} (h : IsDomainName s) :
    ∀ c ∈ s, isHostChar c = true := by
  intro c hc
  have hlabels := ((isDomainName_iff s).mp h).1.2
  rcases char_of_pieces hc with rfl | ⟨p, hp, hcp⟩
  · rfl
  · rcases (hlabels p hp).chars c hcp with halnum | rfl
    · simp [isHostChar, halnum]
    · rfl

/-! ### Hosts -/

/-- A host character that a quad cannot have is a letter. -/
theorem isLetter_of_hostChar {c : Byte} (hhost : isHostChar c = true)
    (hlooks : (isDigit c || c == DOT || c == HYPHEN) = false) : isLetter c = true := by
  simp only [Bool.or_eq_false_iff] at hlooks
  obtain ⟨⟨hdigit, hdot⟩, hhyphen⟩ := hlooks
  rw [isHostChar, hdot, hhyphen, Bool.or_false, Bool.or_false] at hhost
  rcases isAlnum_iff.mp hhost with h | h
  · rw [hdigit] at h
    cases h
  · exact h

theorem not_isLetter_of_looksLike {c : Byte}
    (h : (isDigit c || c == DOT || c == HYPHEN) = true) : isLetter c = false := by
  simp only [Bool.or_eq_true, beq_iff_eq] at h
  rcases h with (hdigit | rfl) | rfl
  · exact not_isLetter_digit hdigit
  · rfl
  · rfl

/-- With a character no quad has, only a domain name is left. -/
theorem domainName_of_other {host : Bytes} {c : Byte} (hlocal : host ≠ bytes "localhost")
    (hc : c ∈ host) (hother : (isDigit c || c == DOT || c == HYPHEN) = false) :
    (IsHost host ∨ ∃ quad, IsQuad quad ∧ host = quad ++ [DOT]) ↔ IsDomainName host := by
  simp only [Bool.or_eq_false_iff, beq_eq_false_iff_ne] at hother
  obtain ⟨⟨hdigit, hdot⟩, -⟩ := hother
  have hquad : ∀ q, IsQuad q → c ∈ q → False := by
    intro q hq hcq
    rcases hq.chars c hcq with h | h
    · rw [hdigit] at h
      cases h
    · exact hdot h
  constructor
  · rintro ((h | h | h) | ⟨quad, h, rfl⟩)
    · exact absurd h hlocal
    · exact (hquad host h hc).elim
    · exact h
    · rcases List.mem_append.mp hc with hcq | hcd
      · exact (hquad quad h hcq).elim
      · exact absurd (List.mem_singleton.mp hcd) hdot
  · exact fun h => .inl (.inr (.inr h))

/-- **The hosts that are accepted**: those of the grammar, and a quad with a last dot. -/
theorem isValidHost_accepts (host : Bytes) :
    isValidHost host = true ↔ IsHost host ∨ ∃ quad, IsQuad quad ∧ host = quad ++ [DOT] := by
  unfold isValidHost
  split_ifs with hnil hlocal hlooks hinvalid
  · subst hnil
    refine iff_of_false (by simp) ?_
    rintro ((hlocal | hquad | hdomain) | ⟨quad, -, hquad⟩)
    · exact absurd hlocal (by decide)
    · exact absurd ((isQuad_iff []).mp hquad).1 (by decide)
    · exact absurd ((isDomainName_iff []).mp hdomain).1.1 (by decide)
    · simp at hquad
  · exact iff_of_true rfl (.inl (.inl hlocal))
  · rw [isValidIPv4_iff]
    rw [looksLikeIPv4, List.all_eq_true] at hlooks
    have hdomain : ¬ IsDomainName host := by
      rintro ⟨-, c, hc, hletter⟩
      rw [not_isLetter_of_looksLike (hlooks c hc)] at hletter
      cases hletter
    simp only [IsHost, hlocal, hdomain, false_or, or_false]
  · rw [containsInvalidChars, List.any_eq_true] at hinvalid
    obtain ⟨c, hc, hchar⟩ := hinvalid
    rw [Bool.not_eq_true'] at hchar
    have hother : (isDigit c || c == DOT || c == HYPHEN) = false := by
      simp only [isHostChar, isAlnum, Bool.or_eq_false_iff] at hchar ⊢
      exact ⟨⟨hchar.1.1.1.1, hchar.2⟩, hchar.1.2⟩
    rw [domainName_of_other hlocal hc hother]
    refine iff_of_false (by simp) fun h => ?_
    rw [h.chars c hc] at hchar
    cases hchar
  · obtain ⟨c, hc, hother⟩ : ∃ c ∈ host, (isDigit c || c == DOT || c == HYPHEN) = false := by
      simpa [looksLikeIPv4] using hlooks
    have hchars : ∀ d ∈ host, isHostChar d = true := by
      simpa [containsInvalidChars] using hinvalid
    rw [domainName_of_other hlocal hc hother, isValidDomainName_iff, isDomainName_iff]
    exact (and_iff_left ⟨c, hc, isLetter_of_hostChar (hchars c hc) hother⟩).symm

/-- **`IsValidHost` recognises the grammar** everywhere but on a quad with a dot behind
it. -/
theorem isValidHost_iff (host : Bytes) :
    (isValidHost host = true ↔ IsHost host) ↔
      ¬ ∃ quad, IsQuad quad ∧ host = quad ++ [DOT] := by
  rw [isValidHost_accepts]
  constructor
  · rintro h ⟨quad, hquad, rfl⟩
    rcases h.mp (.inr ⟨quad, hquad, rfl⟩) with hlocal | hagain | hdomain
    · have hlast := congrArg List.getLast? hlocal
      rw [List.getLast?_concat] at hlast
      exact absurd hlast (by decide)
    · exact not_isQuad_append_dot quad hagain
    · have hlabels := ((isDomainName_iff _).mp hdomain).1.2
      exact (hlabels [] (nil_mem_pieces (.inr (.inr (by simp))))).nonempty rfl
  · exact or_iff_left

/-- `"1.2.3.4."`. -/
theorem isValidHost_lastDot :
    ¬ (isValidHost (bytes "1.2.3.4.") = true ↔ IsHost (bytes "1.2.3.4.")) := by
  intro h
  rcases h.mp (by decide) with hlocal | hquad | hdomain
  · exact absurd hlocal (by decide)
  · exact absurd ((isQuad_iff _).mp hquad).1 (by decide)
  · obtain ⟨c, hc, hletter⟩ := hdomain.2
    have hnone : ∀ c ∈ bytes "1.2.3.4.", isLetter c = false := by decide +kernel
    rw [hnone c hc] at hletter
    cases hletter

end Webserv
