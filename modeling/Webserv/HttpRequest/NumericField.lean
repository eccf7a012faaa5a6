/-
Webserv/HttpRequest/NumericField.lean

The two numbers of a header section: `Content-Length` and the port of `Host`.

Both are read with `operator>>`, which has a grammar of its own: it skips white space
and takes a sign, and into an `unsigned short` it reads a negative number modulo 2^16.
The check that the stream is at its end rejects what follows the digits, but nothing
rejects what stands before them.
-/
import Webserv.HttpRequest.Framing

namespace Webserv

/-! ### Numerals -/

/-- A non-empty string of decimal digits, with its value. -/
def IsNumeral (s : Bytes) (n : Nat) : Prop :=
  s ≠ [] ∧ (∀ c ∈ s, isDigit c = true) ∧ decimalVal s = n

theorem IsNumeral.plain {s : Bytes} {n : Nat} (h : IsNumeral s n) : Plain s :=
  plain_of_digits h.2.1

/-- A run of digits that reaches the end. -/
theorem isNumeral_of_dropWhile {s : Bytes} (hdigits : s.takeWhile isDigit ≠ [])
    (hend : s.dropWhile isDigit = []) : IsNumeral s (decimalVal (s.takeWhile isDigit)) := by
  have hsplit := List.takeWhile_append_dropWhile (p := isDigit) (l := s)
  rw [hend, List.append_nil] at hsplit
  refine ⟨?_, List.dropWhile_eq_nil_iff.mp hend, by rw [hsplit]⟩
  rw [← hsplit]
  exact hdigits

theorem strToLong_plain {s : Bytes} {n : Int} (hs : Plain s) (h : strToLong s = some n) :
    ∃ k : Nat, IsNumeral s k ∧ n = k := by
  rw [strToLong, scanInteger_plain hs] at h
  rcases hd : s.takeWhile isDigit with - | ⟨d, ds⟩ <;> rcases he : s.dropWhile isDigit with - | ⟨c, cs⟩
  · rw [hd, he] at h
    cases h
  · rw [hd, he] at h
    cases h
  · have hnumeral := isNumeral_of_dropWhile (by rw [hd]; exact List.cons_ne_nil _ _) he
    simp only [hd, he] at h hnumeral
    split_ifs at h with hle
    cases h
    exact ⟨_, hnumeral, rfl⟩
  · rw [hd, he] at h
    cases h

theorem strToUnsignedShort_plain {s : Bytes} {n : Nat} (hs : Plain s)
    (h : strToUnsignedShort s = some n) : IsNumeral s n ∧ n ≤ 65535 := by
  rw [strToUnsignedShort, scanInteger_plain hs] at h
  rcases hd : s.takeWhile isDigit with - | ⟨d, ds⟩ <;> rcases he : s.dropWhile isDigit with - | ⟨c, cs⟩
  · rw [hd, he] at h
    cases h
  · rw [hd, he] at h
    cases h
  · have hnumeral := isNumeral_of_dropWhile (by rw [hd]; exact List.cons_ne_nil _ _) he
    simp only [hd, he] at h hnumeral
    split_ifs at h with hle
    cases h
    exact ⟨hnumeral, hle⟩
  · rw [hd, he] at h
    cases h

/-! ### The fields -/

/-- The part of a `Host` value behind its first `:`. -/
def portText (v : Bytes) : Option Bytes :=
  match v.dropWhile (· ≠ COLON) with
  | [] => none
  | _ :: port => some port

theorem hostPortOf_portText {v port : Bytes} (h : portText v = some port) :
    hostPortOf v = strToUnsignedShort port := by
  have hsplit := List.takeWhile_append_dropWhile (p := (· ≠ COLON)) (l := v)
  unfold portText at h
  unfold hostPortOf
  obtain ⟨name, hname⟩ : ∃ name, name = v.takeWhile (· ≠ COLON) := ⟨_, rfl⟩
  rw [← hname] at hsplit ⊢
  rcases hdrop : v.dropWhile (· ≠ COLON) with - | ⟨c, rest⟩
  · rw [hdrop] at h
    cases h
  · rw [hdrop] at h hsplit
    cases h
    rw [← hsplit]
    have hport : (name ++ c :: port).drop (name.length + 1) = port := by simp
    rw [if_neg (by simp), hport]

/-- The two fields are numerals, and were read as such. -/
structure NumericFields (limit : Nat) (fields : List HeaderField) (s : HttpRequest) : Prop where
  contentLength : ∀ v, fieldValue fields (bytes "content-length") = some v →
    ∃ n : Nat, IsNumeral v n ∧ s.contentLength = n ∧ n ≤ min kMaxPayloadSize limit
  hostPort : ∀ v port, fieldValue fields (bytes "host") = some v → portText v = some port →
    IsNumeral port s.hostPort ∧ s.hostPort ≤ 65535

/-- Neither field has white space or a sign in front of its digits. -/
structure PlainFields (fields : List HeaderField) : Prop where
  contentLength : ∀ v, fieldValue fields (bytes "content-length") = some v → Plain v
  hostPort : ∀ v port, fieldValue fields (bytes "host") = some v → portText v = some port →
    Plain port

/-- **The numeric fields of an accepted header section** are read exactly if and only if
nothing stands in front of their digits. -/
theorem advanceHeader_numericFields_iff {limit : Nat} {b : Bytes} {s : HttpRequest}
    (h : Accepts limit b s) :
    ∃ (head : RequestHead) (t : Bytes), b = head.encode ++ t ∧
      (NumericFields limit head.fields s ↔ PlainFields head.fields) := by
  obtain ⟨head, t, hreadable, rfl, name, port, length, keep, ⟨v, hhost, hport⟩, hframed, rfl⟩ :=
    headerStep_fresh h.headerStep
  refine ⟨head, t, rfl, ?_, ?_⟩
  · intro hnumeric
    constructor
    · intro v hv
      obtain ⟨n, hnumeral, -⟩ := hnumeric.contentLength v hv
      exact hnumeral.plain
    · intro v p hv hp
      exact (hnumeric.hostPort v p hv hp).1.plain
  · intro hplain
    constructor
    · intro w hw
      have hlength := hplain.contentLength w hw
      rw [hw] at hframed
      unfold Framed at hframed
      rcases hte : fieldValue head.fields (bytes "transfer-encoding") with - | u
      · simp only [hte] at hframed
        obtain ⟨hread, -, hmax, hlimit⟩ := hframed
        obtain ⟨n, hnumeral, rfl⟩ := strToLong_plain hlength hread
        exact ⟨n, hnumeral, rfl, by omega⟩
      · simp only [hte] at hframed
    · intro w p hw hp
      obtain rfl : v = w := Option.some.inj (hhost.symm.trans hw)
      rw [hostPortOf_portText hp] at hport
      exact strToUnsignedShort_plain (hplain.hostPort v p hw hp) hport

theorem advanceHeader_numericFields_iff_post :
    ∃ (s : HttpRequest) (head : RequestHead) (t : Bytes),
      bytes "POST / HTTP/1.1\r\nHost: a:80\r\nContent-Length: 5\r\n\r\nhello" = head.encode ++ t ∧
      (NumericFields 1024 head.fields s ↔ PlainFields head.fields) := by
  obtain ⟨s, haccepts, -⟩ := @accepts_of_run 1024
    (bytes "POST / HTTP/1.1\r\nHost: a:80\r\nContent-Length: 5\r\n\r\nhello") 5 (by decide +kernel)
  exact ⟨s, advanceHeader_numericFields_iff haccepts⟩

/-- A length with a sign. -/
theorem advanceHeader_numericFields_fails :
    ¬ ∀ (limit : Nat) (b : Bytes) (s : HttpRequest), Accepts limit b s →
      ∃ (head : RequestHead) (t : Bytes), b = head.encode ++ t ∧
        NumericFields limit head.fields s := by
  intro h
  obtain ⟨head, hhead⟩ : ∃ head, head = framedHead (bytes "Content-Length") (bytes "+5")
    (by decide +kernel) (by decide +kernel) := ⟨_, rfl⟩
  obtain ⟨s, haccepts, -⟩ := @accepts_of_run 1024 head.encode 5 (by
    rw [hhead]
    decide +kernel)
  obtain ⟨head', t, heq, hnumeric⟩ := h 1024 head.encode s haccepts
  obtain ⟨-, hfields, -⟩ := encode_append_inj (t := []) ((List.append_nil _).trans heq)
  rw [← hfields, hhead] at hnumeric
  obtain ⟨n, hnumeral, -⟩ := hnumeric.contentLength (bytes "+5") (by decide +kernel)
  exact absurd (hnumeral.2.1 43 (by decide +kernel)) (by decide)

end Webserv
