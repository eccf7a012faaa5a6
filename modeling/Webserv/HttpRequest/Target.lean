/-
Webserv/HttpRequest/Target.lean

The request targets that `ConsumeUri` recognises.

A target is a path and perhaps a query, of visible characters, and short enough for the
counter that both scanning loops and the `?` between them share.  A text whose first
`kMaxUriSize` bytes go on like a target is refused as too long, wherever its `?` is.
-/
import Webserv.HttpRequest.HeadSound

namespace Webserv

/-! ### Targets -/

/-- A path and a query, if there is one. -/
structure Target where
  path : Bytes
  query : Option Bytes
  path_absolute : path.head? = some SLASH
  path_char : ∀ c ∈ path, isVisibleAscii c = true ∧ c ≠ 35 ∧ c ≠ 63
  query_char : ∀ q ∈ query, ∀ c ∈ q, isVisibleAscii c = true ∧ c ≠ 35

/-- The text of a target. -/
def Target.text (t : Target) : Bytes := t.path ++ t.query.elim [] fun q => 63 :: q

theorem Target.length_text (t : Target) :
    t.text.length = t.path.length + t.query.elim 0 fun q => q.length + 1 := by
  rw [Target.text, List.length_append]
  cases t.query with
  | none => rfl
  | some q => rfl

/-- What `ConsumeUri` leaves in the request. -/
def Target.store (t : Target) (r : HttpRequest) : HttpRequest :=
  { r with uri := t.path, queryString := t.query.elim r.queryString id }

theorem consumeUri_target (t : Target) (hlen : t.text.length ≤ kMaxUriSize - 1) (rest : Bytes)
    (r : HttpRequest) : (consumeUri (t.text ++ SP :: rest)).run r = .ok rest (t.store r) := by
  have hpos : 0 < kMaxUriSize := by decide
  rw [t.length_text] at hlen
  exact consumeUri_encode ⟨.kGet, t.path, t.query, bytes "HTTP/1.1", List.mem_cons_self,
    t.path_absolute, t.path_char, t.query_char, http11_known, by omega⟩ rest r

/-! ### Targets that are too long -/

/-- A scanning loop of `ConsumeUri` that meets no stop character runs into the limit. -/
theorem consumeUntilStopChar_tooLong {stop : Byte → Bool} (a t : Bytes) {n : Nat}
    (hpass : ∀ c ∈ a, (isVisibleAscii c = true ∧ c ≠ 35) ∧ stop c = false) (hn : n < kMaxUriSize)
    (hlong : kMaxUriSize ≤ n + a.length) :
    consumeUntilStopChar stop (a ++ t) n = .error (.responseStatus .kUriTooLong) := by
  refine scanUntil_over (kMaxUriSize - 1) a t ?_ ?_ ?_ (by omega) (by omega)
  · intro c hc
    exact ⟨ne_of_visible (hpass c hc).1.1 (by decide), (hpass c hc).2⟩
  · intro c hc m hm
    exact checkUriChar_ok (hpass c hc).1.1 (hpass c hc).1.2 (by omega)
  · intro c hc
    rw [checkUriChar, if_neg (hpass c hc).1.2, if_pos (by omega)]

theorem consumeQuery_tooLong (q t : Bytes) {n : Nat}
    (hq : ∀ c ∈ q, isVisibleAscii c = true ∧ c ≠ 35) (hlong : kMaxUriSize ≤ n + 1 + q.length)
    (r : HttpRequest) :
    (consumeOptionalQuery n (63 :: q ++ t)).run r = .error (.responseStatus .kUriTooLong) r := by
  rw [consumeOptionalQuery, if_pos (show deref (63 :: q ++ t) = 63 from rfl)]
  by_cases hfull : n + 1 ≥ kMaxUriSize
  · rw [if_pos hfull]
    rfl
  · rw [if_neg hfull]
    have hpass : ∀ c ∈ q, (isVisibleAscii c = true ∧ c ≠ 35) ∧ (c == SP) = false := by
      intro c hc
      exact ⟨hq c hc, by simpa using ne_of_visible (hq c hc).1 (show SP.toNat < 33 by decide)⟩
    have hscan := consumeUntilStopChar_tooLong q t hpass (show n + 1 < kMaxUriSize by omega) hlong
    show (consumeQuery (q ++ t) (n + 1)).run r = _
    rw [consumeQuery, hscan]
    rfl

/-- A target that goes on for `kMaxUriSize` bytes is refused, by the loop that meets the
limit or at the `?`. -/
theorem consumeUri_tooLong {p : Bytes} (hhead : p.head? = some SLASH)
    (hlong : kMaxUriSize ≤ p.length)
    (hvisible : ∀ c ∈ p.take kMaxUriSize, isVisibleAscii c = true ∧ c ≠ 35) (r : HttpRequest) :
    ∃ s, (consumeUri p).run r = .error (.responseStatus .kUriTooLong) s := by
  have hpos : 0 < kMaxUriSize := by decide
  have hlength : (p.take kMaxUriSize).length = kMaxUriSize := List.length_take_of_le hlong
  have hderef : deref p = SLASH := by
    rw [← List.cons_head?_tail (Option.mem_def.mpr hhead)]
    rfl
  have hstop : ∀ c, isVisibleAscii c = true → c ≠ 63 → (c == SP || c == 63) = false := by
    intro c hc hquery
    simpa [hquery] using ne_of_visible hc (show SP.toNat < 33 by decide)
  rw [consumeUri, if_neg (not_not.mpr hderef)]
  -- whether the count runs out in the query or in front of it
  by_cases hquery : (63 : Byte) ∈ p.take kMaxUriSize
  · obtain ⟨u, v, hsplit, hfirst⟩ := List.eq_append_cons_of_mem hquery
    have hp : p = u ++ 63 :: (v ++ p.drop kMaxUriSize) := by
      rw [← List.cons_append, ← List.append_assoc, ← hsplit, List.take_append_drop]
    rw [hsplit] at hvisible hlength
    rw [List.length_append, List.length_cons] at hlength
    have hu : ∀ c ∈ u, isVisibleAscii c = true ∧ c ≠ 35 := by
      intro c hc
      exact hvisible c (List.mem_append_left _ hc)
    have hv : ∀ c ∈ v, isVisibleAscii c = true ∧ c ≠ 35 := by
      intro c hc
      exact hvisible c (List.mem_append_right _ (List.mem_cons_of_mem _ hc))
    have hne : u ≠ [] := by
      rintro rfl
      rw [hp] at hhead
      exact absurd (Option.some.inj hhead) (by decide)
    -- the path stops at the first `?`, and the query goes on counting from there
    have hscan := scanUntil_pass (fun c => c == SP || c == 63) checkUriChar u
      (v ++ p.drop kMaxUriSize) 63 0
      (fun c hc => ⟨ne_of_visible (hu c hc).1 (by decide),
        hstop c (hu c hc).1 fun h => hfirst (h ▸ hc)⟩)
      (fun c hc m hm => checkUriChar_ok (hu c hc).1 (hu c hc).2 (by omega)) (.inr rfl)
    rw [← hp, Nat.zero_add] at hscan
    have htoo := consumeQuery_tooLong v (p.drop kMaxUriSize) hv
      (show kMaxUriSize ≤ u.length + 1 + v.length by omega) { r with uri := u }
    rw [consumeUntilStopChar, hscan]
    simp only [EStateM.run_bind, run_call_ok, EStateM.run_modify, deref_cons, hne]
    refine ⟨{ r with uri := u }, ?_⟩
    show ((consumeOptionalQuery u.length (63 :: v ++ p.drop kMaxUriSize)) >>=
      skipSpaceAfterUri).run { r with uri := u } = _
    rw [EStateM.run_bind, htoo]
  · have hpass : ∀ c ∈ p.take kMaxUriSize,
        (isVisibleAscii c = true ∧ c ≠ 35) ∧ (c == SP || c == 63) = false := by
      intro c hc
      exact ⟨hvisible c hc, hstop c (hvisible c hc).1 fun h => hquery (h ▸ hc)⟩
    have hscan := consumeUntilStopChar_tooLong (p.take kMaxUriSize) (p.drop kMaxUriSize) hpass hpos
      (by omega)
    rw [List.take_append_drop] at hscan
    rw [hscan]
    exact ⟨r, rfl⟩

/-! ### What is recognised -/

theorem consumeUri_isTarget {p q : Bytes} {r s : HttpRequest}
    (h : (consumeUri p).run r = .ok q s) :
    ∃ t : Target, t.text.length ≤ kMaxUriSize - 1 ∧ p = t.text ++ SP :: q ∧ s = t.store r := by
  have hread := consumeUri_read p r r rfl
  rw [h] at hread
  obtain ⟨path, query, habs, hpath, hquery, hshort, hp, hs⟩ := hread
  refine ⟨⟨path, query, habs, hpath, hquery⟩, ?_, hp, hs⟩
  rw [Target.length_text]
  dsimp only
  omega

/-- **Recognition is exact**: `ConsumeUri` succeeds on the texts of targets that are short
enough, followed by a space, and on no others; it stores the path and the query and stops
behind the space; and a target that goes on for `kMaxUriSize` bytes is too long. -/
theorem consumeUri_exact (p : Bytes) (r : HttpRequest) :
    ((∃ q s, (consumeUri p).run r = .ok q s) ↔
      ∃ (t : Target) (rest : Bytes), t.text.length ≤ kMaxUriSize - 1 ∧ p = t.text ++ SP :: rest) ∧
    (∀ (t : Target) (rest : Bytes), t.text.length ≤ kMaxUriSize - 1 → p = t.text ++ SP :: rest →
      (consumeUri p).run r =
        .ok rest { r with uri := t.path, queryString := t.query.elim r.queryString id }) ∧
    (p.head? = some SLASH → kMaxUriSize ≤ p.length →
      (∀ c ∈ p.take kMaxUriSize, isVisibleAscii c = true ∧ c ≠ 35) →
      ∃ s, (consumeUri p).run r = .error (.responseStatus .kUriTooLong) s) := by
  refine ⟨⟨?_, ?_⟩, ?_, ?_⟩
  · intro h
    obtain ⟨q, s, hrun⟩ := h
    obtain ⟨t, hshort, hp, -⟩ := consumeUri_isTarget hrun
    exact ⟨t, q, hshort, hp⟩
  · intro h
    obtain ⟨t, rest, hshort, rfl⟩ := h
    exact ⟨rest, t.store r, consumeUri_target t hshort rest r⟩
  · intro t rest hshort hp
    rw [hp]
    exact consumeUri_target t hshort rest r
  · intro hhead hlong hvisible
    exact consumeUri_tooLong hhead hlong hvisible r

end Webserv
