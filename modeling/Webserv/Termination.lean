/-
Webserv/Termination.lean

Whether `Parse` ends.

The loop of `StreamParser::Parse` has no measure of its own.  It ends because a phase
that is left is not entered again, and because what it calls at `kDone` throws: that is
left to the derived classes, and `CgiResponseParser` does not do it.  The loop of the
chunk decoder inside ends because every iteration that goes on moves the read position,
as long as no chunk size makes it wrap.
-/
import Webserv.CgiResponseParser
import Webserv.HttpRequest.ChunkStep
import Webserv.HttpRequest.LimitInvariant

namespace Webserv

open EStateM (Triple)

/-! ### Ending -/

/-- From a state in `P` the program ends: with a value, in `Q`, or with an exception of
its own. -/
abbrev Halts {σ α : Type} (P : σ → Prop) (x : EStateM Exception σ α) (Q : α → σ → Prop) : Prop :=
  Triple P x Q fun e _ => e ≠ .diverges

/-- `Parse(data, len)` ends: some number of iterations of its loop is enough. -/
def Terminates {σ : Type} (v : Virtuals σ) (data : Bytes) (s : σ) : Prop :=
  ∃ fuel, ∀ t, (v.append data >>= fun _ => parseLoop v fuel).run s ≠ .error .diverges t

theorem Terminates.of_halts {σ : Type} {v : Virtuals σ} {data : Bytes} {P : σ → Prop} {fuel : Nat}
    (h : Halts P (v.append data >>= fun _ => parseLoop v fuel) fun _ _ => True) {s : σ}
    (hs : P s) : Terminates v data s := by
  refine ⟨fuel, fun t hrun => ?_⟩
  exact h.of_error hs hrun rfl

/-- Behind the header one iteration is the last. -/
theorem parseLoop_halts_behind {σ : Type} {v : Virtuals σ} {I : σ → Prop}
    (hbody : Halts (fun s => I s ∧ v.state s = .kBody) v.advanceBody
      fun finished s => finished = true → v.state s = .kDone)
    (hextra : Halts (fun s => I s ∧ v.state s = .kDone) v.onExtraDataAfterDone fun _ _ => False)
    (fuel : Nat) :
    Halts (fun s => I s ∧ v.state s ≠ .kHeader) (parseLoop v (fuel + 1)) fun _ _ => True := by
  refine .get_bind fun s hs => ?_
  rcases hstate : v.state s with - | - | -
  · exact absurd hstate hs.2
  · refine (hbody.imp ?_ (fun _ _ h => h) (fun _ _ h => h)).bind fun finished =>
      .ite (fun _ => .pure fun _ _ => trivial) fun hfinished => .get_bind fun t ht => ?_
    · rintro t rfl
      exact ⟨hs.1, hstate⟩
    · rw [if_neg (not_not.mpr (ht (by simpa using hfinished)))]
      exact fun _ _ => trivial
  · refine (hextra.imp ?_ (fun _ _ h => h) (fun _ _ h => h)).bind fun _ => fun _ h => h.elim
    rintro t rfl
    exact ⟨hs.1, hstate⟩

/-- **The loop of `Parse`.**  If the phases end, in the phase they promise, and the hook
for excess data throws, two iterations are enough. -/
theorem parseLoop_halts {σ : Type} {v : Virtuals σ} {I : σ → Prop}
    (hheader : Halts (fun s => I s ∧ v.state s = .kHeader) v.advanceHeader
      fun found s => found = true → I s ∧ v.state s = .kBody)
    (hbody : Halts (fun s => I s ∧ v.state s = .kBody) v.advanceBody
      fun finished s => finished = true → v.state s = .kDone)
    (hextra : Halts (fun s => I s ∧ v.state s = .kDone) v.onExtraDataAfterDone fun _ _ => False) :
    Halts I (parseLoop v 2) fun _ _ => True := by
  intro s hs
  by_cases hstate : v.state s = .kHeader
  · have hloop : Halts (fun s => I s ∧ v.state s = .kHeader) (parseLoop v 2) fun _ _ => True := by
      refine .get_bind fun s hs => ?_
      rw [hs.2]
      refine (hheader.imp ?_ (fun _ _ h => h) (fun _ _ h => h)).bind fun found =>
        .ite (fun _ => .pure fun _ _ => trivial) fun hfound => .get_bind fun t ht => ?_
      · rintro t rfl
        exact hs
      · obtain ⟨hinv, hphase⟩ := ht (by simpa using hfound)
        rw [if_neg (not_not.mpr hphase)]
        rintro u rfl
        exact parseLoop_halts_behind hbody hextra 0 u ⟨hinv, fun h => by rw [hphase] at h; cases h⟩
    exact hloop s ⟨hs, hstate⟩
  · exact parseLoop_halts_behind hbody hextra 1 s ⟨hs, hstate⟩

/-! ### The chunk decoder -/

/-- The decoder when no size can wrap, with at most `n` bytes to read. -/
structure Unread (n : Nat) (r : HttpRequest) : Prop extends Fits r where
  length_le : r.buffer.length ≤ stringMaxSize
  unread_le : r.buffer.length ≤ r.bufferReadPos + n

theorem readSizeLine_halts (n : Nat) : Halts (Unread n) readSizeLine fun _ => Unread n := by
  refine .get_bind fun r hr => .ite (fun _ => ?_) fun _ => .pure ?_
  · refine ((parseChunkSize_spec hr.pos_le hr.length_le).imp (fun _ h => h) (fun _ _ h => h)
      ?_).bind fun q => ?_
    · rintro e s ⟨-, status, rfl, -⟩ h
      cases h
    · rcases q with - | ⟨pos, size⟩
      · refine .pure ?_
        rintro s ⟨rfl, -⟩
        exact hr
      · refine .update_bind (M := Unread n) (.pure fun _ h => h) ?_
        rintro s ⟨rfl, hq⟩
        obtain ⟨hle, hend⟩ := hq _ rfl
        exact ⟨⟨hend, hr.lt_sizeMod⟩, hr.length_le, hr.unread_le.trans (Nat.add_le_add_right hle n)⟩
  · rintro s rfl
    exact hr

theorem validateFinalCRLF_halts (n : Nat) :
    Halts (Unread n) validateFinalCRLF fun _ _ => True := by
  intro r hr
  rw [validateFinalCRLF_run hr.toFits]
  rcases r.unread with - | ⟨c, - | ⟨c', rest⟩⟩
  · trivial
  · trivial
  · dsimp only
    split_ifs
    · trivial
    · intro h
      cases h
    · intro h
      cases h

/-- A chunk that was taken lies behind the read position. -/
theorem appendChunkData_halts {n size : Nat} {r : HttpRequest} (hr : Unread n r) :
    Halts (· = r) (appendChunkData r.bufferReadPos size) fun q s =>
      ∃ body, s = { r with body := body } ∧
        ∀ p ∈ q, r.bufferReadPos + 2 ≤ p ∧ p ≤ r.buffer.length := by
  have hpos := hr.pos_le
  have hmod := hr.lt_sizeMod
  refine .get_bind ?_
  rintro s rfl
  refine .ite (fun _ => .throw ?_) fun hfits => .ite (fun _ => .pure ?_) fun _ =>
    .ite (fun hout => absurd hout (by omega)) fun _ => ?_
  · rintro r rfl h
    cases h
  · rintro r rfl
    exact ⟨r.body, rfl, nofun⟩
  · rw [not_or, not_lt] at hfits
    have hadd : addSize s.bufferReadPos size = s.bufferReadPos + size :=
      addSize_of_lt (by omega)
    unfold stringAppend
    split_ifs with happend
    · refine .pure_bind (.update_bind (M := (· = { s with
        body := s.body ++ (s.buffer.drop s.bufferReadPos).take size })) ?_ (by rintro r rfl; rfl))
      refine (@validateAndSkipCRLF_spec _ { s with
        body := s.body ++ (s.buffer.drop s.bufferReadPos).take size } hr.length_le).imp
          (fun _ h => h) ?_ ?_
      · rintro q t ⟨rfl, hq⟩
        refine ⟨_, rfl, ?_⟩
        rintro p rfl
        obtain ⟨hp, hle⟩ := hq
        rw [hadd] at hp
        exact ⟨by omega, hle⟩
      · rintro e t ⟨-, status, rfl, -⟩ h
        cases h
    · refine .throw_bind ?_
      rintro r rfl h
      cases h

/-- **An iteration that goes on** has moved the read position. -/
theorem consumeChunk_halts (n : Nat) :
    Halts (Unread n) consumeChunk fun q s => q = none → ∃ m, m < n ∧ Unread m s := by
  refine .get_bind fun r hr => .ite (fun _ => ?_) fun _ => ?_
  · refine ((validateFinalCRLF_halts n).imp ?_ (fun _ _ h => h) (fun _ _ h => h)).bind fun finished =>
      .ite (fun _ => .pure fun _ _ h => by cases h) fun _ => ?_
    · rintro s rfl
      exact hr
    · exact .update_bind (M := fun _ => True) (.pure fun _ _ h => by cases h) fun _ _ => trivial
  · refine (appendChunkData_halts hr).bind fun q => ?_
    rcases q with - | pos
    · exact .pure fun _ _ h => by cases h
    · refine .update_bind (M := fun s => ∃ m, m < n ∧ Unread m s) (.pure fun _ h _ => h) ?_
      rintro s ⟨body, rfl, hq⟩
      obtain ⟨hmoved, hend⟩ := hq pos rfl
      have hunread := hr.unread_le
      exact ⟨n - 2, by omega, ⟨hend, hr.lt_sizeMod⟩, hr.length_le,
        show r.buffer.length ≤ pos + (n - 2) by omega⟩

theorem chunkLoop_halts {fuel n : Nat} (hfuel : n < fuel) :
    Halts (Unread n) (chunkLoop fuel) fun _ _ => True := by
  induction fuel generalizing n with
  | zero => omega
  | succ fuel ih =>
      refine (readSizeLine_halts n).bind fun more => .ite (fun _ => .pure fun _ _ => trivial)
        fun _ => (consumeChunk_halts n).bind fun q => ?_
      rcases q with - | finished
      · intro s hs
        obtain ⟨m, hm, hunread⟩ := hs rfl
        exact ih (by omega) s hunread
      · exact .pure fun _ _ => trivial

/-- A decoder in front of a size line that brings it back to where it is. -/
def HttpRequest.turningBack (r : HttpRequest) : HttpRequest :=
  { r with
    buffer := bytes "1\r\na\r\nFFFFFFFFFFFFFFEC\r\n"
    bufferReadPos := 6
    nextChunkSize := -1
    body := bytes "a"
    maxBodySizeLimit := sizeMod - 1 }

set_option maxRecDepth 8000 in
theorem readSizeLine_turningBack (r : HttpRequest) :
    readSizeLine.run r.turningBack =
      .ok true { r.turningBack with bufferReadPos := 24, nextChunkSize := -20 } := by
  rfl

theorem consumeChunk_turningBack (r : HttpRequest) :
    consumeChunk.run { r.turningBack with bufferReadPos := 24, nextChunkSize := -20 } =
      .ok none r.turningBack := by
  unfold consumeChunk appendChunkData HttpRequest.turningBack
  simp only [EStateM.run_bind, EStateM.run_get]
  rw [if_neg (by decide)]
  simp only [EStateM.run_bind, EStateM.run_get]
  -- the size is within the limit, and the sum of the three terms has wrapped
  rw [if_neg (by decide), if_neg (by decide), if_neg (by decide)]
  rfl

/-- Under a limit near 2^64 a chunk size can make the read position wrap, and then no
number of iterations is enough. -/
theorem chunkLoop_turningBack (r : HttpRequest) (fuel : Nat) :
    (chunkLoop fuel).run r.turningBack = .error .diverges r.turningBack := by
  induction fuel with
  | zero => rfl
  | succ fuel ih =>
      simp only [chunkLoop, EStateM.run_bind, readSizeLine_turningBack, consumeChunk_turningBack,
        ih, Bool.not_true, Bool.false_eq_true, if_false]

theorem WithinLimit.fits {limit : Nat} (hlimit : NoWrap limit) {r : HttpRequest}
    (hr : WithinLimit limit r) (hpos : r.bufferReadPos ≤ r.buffer.length) : Fits r := by
  refine ⟨hpos, ?_⟩
  rw [hr.limit_eq]
  exact hlimit.lt_sizeMod hr.buffer_le

theorem advanceChunkedBody_halts {limit : Nat} (hlimit : NoWrap limit) :
    Halts (WithinLimit limit) advanceChunkedBody fun _ _ => True := by
  refine .get_bind fun r hr => .ite (fun _ => .throw fun _ _ h => by cases h) fun hpos =>
    .ite (fun _ => .pure fun _ _ => trivial) fun _ => ?_
  rintro s rfl
  exact chunkLoop_halts (n := s.buffer.length) (by omega) s
    ⟨hr.fits hlimit (by omega), hr.buffer_le, Nat.le_add_left _ _⟩

/-! ### The phases of a request -/

theorem advanceHeader_halts : Halts (fun _ => True) advanceHeader fun _ _ => True := by
  refine .get_bind fun r _ => ?_
  rcases hend : findEndOfHeader true r.buffer with - | i
  · exact .pure fun _ _ => trivial
  · have hended := (consumeRequestHead_progress hend).2
    rintro s rfl
    simp only [EStateM.run_bind, EStateM.run_tryCatch_any]
    rcases hrun : (consumeRequestHead s.buffer).run s with ⟨q, t⟩ | ⟨e, t⟩
    · trivial
    · rw [hrun] at hended
      obtain ⟨status, hstatus⟩ := rethrowAsStatus_eq hended
      dsimp only
      rw [hstatus]
      intro h
      cases h

theorem advanceContentLengthBody_halts :
    Halts (fun _ => True) advanceContentLengthBody fun _ _ => True := by
  refine .get_bind fun r _ => .ite (fun _ => .throw fun _ _ h => by cases h) fun _ =>
    .ite (fun _ => ?_) fun _ => .ite (fun _ => .pure fun _ _ => trivial) fun _ => ?_
  · exact .update_bind (M := fun _ => True) (.pure fun _ _ => trivial) fun _ _ => trivial
  · intro s _
    trivial

theorem advanceBody_halts {limit : Nat} (hlimit : NoWrap limit) :
    Halts (WithinLimit limit) advanceBody fun _ _ => True := by
  refine EStateM.Triple.tryCatch (E := fun e _ => e ≠ .diverges) ?_ fun e => .throw ?_
  · refine .get_bind fun r hr => .ite (fun _ => ?_) fun _ => .ite (fun _ => ?_) fun _ => ?_
    · exact .update_bind (M := fun _ => True) (.pure fun _ _ => trivial) fun _ _ => trivial
    · exact advanceContentLengthBody_halts.imp (fun _ _ => trivial) (fun _ _ h => h)
        fun _ _ h => h
    · refine (advanceChunkedBody_halts hlimit).imp ?_ (fun _ _ h => h) fun _ _ h => h
      rintro s rfl
      exact hr
  · intro s he
    obtain ⟨status, hstatus⟩ := rethrowAsStatus_eq he
    rw [hstatus]
    intro h
    cases h

theorem appendToBuffer_halts (data : Bytes) :
    Halts (fun _ => True) (appendToBuffer data) fun _ _ => True := by
  refine .get_bind fun r _ => ?_
  unfold stringAppend
  split_ifs
  · exact .pure_bind (.update fun _ _ => trivial)
  · exact .throw_bind fun _ _ h => by cases h

/-- **`HttpRequest::Parse` ends**, in every state that calls of it reach. -/
theorem httpRequest_terminates {limit : Nat} (hlimit : NoWrap limit) {r : HttpRequest}
    (hr : WithinLimit limit r) (data : Bytes) : Terminates HttpRequest.virtuals data r := by
  have hsize : limit < sizeMod := by
    have hlt := hlimit.lt_sizeMod (Nat.zero_le _)
    omega
  have hloop : Halts (WithinLimit limit) (parseLoop HttpRequest.virtuals 2) fun _ _ => True := by
    refine parseLoop_halts ?_ ?_ ?_
    · refine ((advanceHeader_withinLimit limit).and
        (advanceHeader_halts.imp (fun _ _ => trivial) (fun _ _ h => h) fun _ _ h => h)).imp
        (fun _ h => h) ?_ fun _ _ h => h.2
      intro found s h hfound
      exact ⟨h.1.1, h.1.2 hfound⟩
    · refine ((advanceBody_withinLimit hsize).and
        ((advanceBody_halts hlimit).imp (fun _ h => h.1) (fun _ _ h => h) fun _ _ h => h)).imp
        (fun _ h => h) ?_ fun _ _ h => h.2
      intro finished s h
      exact h.1.2
    · exact .throw fun _ _ h => by cases h
  have happend := (appendToBuffer_withinLimit limit data).and
    ((appendToBuffer_halts data).imp (fun _ _ => trivial) (fun _ _ h => h) fun _ _ h => h)
  have hparse : Halts (WithinLimit limit)
      (appendToBuffer data >>= fun _ => parseLoop HttpRequest.virtuals 2) fun _ _ => True :=
    (happend.imp (fun _ h => h) (fun _ _ h => h.1) fun _ _ h => h.2).bind fun _ => hloop
  exact .of_halts hparse hr

/-! ### The parser of CGI output -/

/-- The parser behind some calls of `Parse`, each of which has returned or thrown. -/
inductive CgiResponseParser.Reachable : CgiResponseParser → Prop
  | init : Reachable {}
  | returned {p t : CgiResponseParser} {data : Bytes} (h : Reachable p)
      (hrun : (parse CgiResponseParser.virtuals data).run p = .ok () t) : Reachable t
  | threw {p t : CgiResponseParser} {data : Bytes} {e : Exception} (h : Reachable p)
      (hrun : (parse CgiResponseParser.virtuals data).run p = .error e t) (he : e ≠ .diverges) :
      Reachable t

theorem advanceCgiHeader_halts :
    Halts (fun _ => True) advanceCgiHeader fun found p => found = true → p.state = .kBody := by
  intro p _
  obtain ⟨hthrows, hbody⟩ := advanceCgiHeader_spec p
  rcases hrun : advanceCgiHeader.run p with ⟨found, t⟩ | ⟨e, t⟩
  · rintro rfl
    exact hbody t hrun
  · rw [hrun] at hthrows
    obtain ⟨status, rfl⟩ := hthrows e rfl
    intro h
    cases h

/-- Before its end the parser ends every call. -/
theorem cgiResponseParser_terminates {p : CgiResponseParser} (hp : p.state ≠ .kDone)
    (data : Bytes) : Terminates CgiResponseParser.virtuals data p := by
  have hloop : Halts (fun p => p.state ≠ .kDone) (parseLoop CgiResponseParser.virtuals 2)
      fun _ _ => True := by
    refine parseLoop_halts ?_ ?_ ?_
    · refine advanceCgiHeader_halts.imp (fun _ _ => trivial) ?_ fun _ _ h => h
      intro found t h hfound
      refine ⟨fun hdone => ?_, h hfound⟩
      rw [h hfound] at hdone
      cases hdone
    · exact .update_bind (M := fun p => p.state = .kDone) (.pure fun _ h _ => h) fun _ _ => rfl
    · exact fun t ht => absurd ht.2 ht.1
  have happend : Halts (fun p => p.state ≠ .kDone) (CgiResponseParser.virtuals.append data)
      fun _ p => p.state ≠ .kDone := by
    refine .get_bind fun t ht => ?_
    unfold stringAppend
    split_ifs
    · refine .update ?_
      rintro s rfl
      exact ht
    · exact .throw fun _ _ h => by cases h
  exact .of_halts (happend.bind fun _ => hloop) hp

/-- At `kDone` an iteration does nothing. -/
theorem parseLoop_kDone {p : CgiResponseParser} (hp : p.state = .kDone) (fuel : Nat) :
    (parseLoop CgiResponseParser.virtuals fuel).run p = .error .diverges p := by
  induction fuel with
  | zero => rfl
  | succ fuel ih =>
      have hstate : CgiResponseParser.virtuals.state p = .kDone := hp
      simp only [parseLoop, EStateM.run_bind, EStateM.run_get, hstate]
      exact ih

/-- A parser that has finished does not come back from `Parse`, unless the append throws. -/
theorem cgiResponseParser_terminates_kDone {p : CgiResponseParser} (hp : p.state = .kDone)
    (data : Bytes) :
    Terminates CgiResponseParser.virtuals data p ↔
      stringMaxSize < p.buffer.length + data.length := by
  have happend : (CgiResponseParser.virtuals.append data).run p =
      if p.buffer.length + data.length ≤ stringMaxSize then
        .ok () { p with buffer := p.buffer ++ data }
      else .error .lengthError p := by
    simp only [CgiResponseParser.virtuals, EStateM.run_bind, EStateM.run_get, stringAppend]
    split_ifs <;> rfl
  unfold Terminates
  simp only [EStateM.run_bind, happend]
  by_cases hfits : p.buffer.length + data.length ≤ stringMaxSize
  · have hloop := @parseLoop_kDone { p with buffer := p.buffer ++ data } hp
    simp only [if_pos hfits, hloop]
    constructor
    · intro h
      obtain ⟨fuel, hne⟩ := h
      exact absurd rfl (hne _)
    · intro hlong
      omega
  · simp only [if_neg hfits]
    refine ⟨fun _ => not_le.mp hfits, fun _ => ⟨0, fun t h => ?_⟩⟩
    cases h

/-! ### Both parsers -/

/-- **`Parse` ends**, for both classes and in every state that calls of it reach, but
for one: an excess piece given to a parser of CGI output that has finished. -/
theorem parse_terminates_iff {limit : Nat} (hlimit : NoWrap limit) (pieces : List Bytes)
    (p : CgiResponseParser) (data : Bytes) :
    Terminates HttpRequest.virtuals data ((HttpRequest.fresh limit).feed pieces) ∧
      (Terminates CgiResponseParser.virtuals data p ↔
        p.state ≠ .kDone ∨ stringMaxSize < p.buffer.length + data.length) := by
  refine ⟨?_, ?_⟩
  · have hsize : limit < sizeMod := by
      have hlt := hlimit.lt_sizeMod (Nat.zero_le _)
      omega
    exact httpRequest_terminates hlimit (feed_withinLimit hsize pieces (fresh_withinLimit limit)) data
  · by_cases hp : p.state = .kDone
    · rw [cgiResponseParser_terminates_kDone hp]
      exact ⟨.inr, fun h => h.resolve_left (not_not.mpr hp)⟩
    · exact ⟨fun _ => .inl hp, fun _ => cgiResponseParser_terminates hp data⟩

/-- Fresh parsers, under the default limit. -/
theorem parse_terminates_iff_fresh :
    Terminates HttpRequest.virtuals (bytes "GET / HTTP/1.1\r\n")
        ((HttpRequest.fresh kMaxPayloadSize).feed []) ∧
      (Terminates CgiResponseParser.virtuals (bytes "GET / HTTP/1.1\r\n") {} ↔
        ({} : CgiResponseParser).state ≠ .kDone ∨
          stringMaxSize < ([] : Bytes).length + (bytes "GET / HTTP/1.1\r\n").length) :=
  @parse_terminates_iff kMaxPayloadSize (by unfold NoWrap; decide) [] {} _

/-- A complete output, and then an empty piece. -/
theorem parse_terminates_fails :
    ¬ ((∀ limit, NoWrap limit → ∀ (pieces : List Bytes) (data : Bytes),
        Terminates HttpRequest.virtuals data ((HttpRequest.fresh limit).feed pieces)) ∧
      ∀ p, CgiResponseParser.Reachable p → ∀ data : Bytes,
        Terminates CgiResponseParser.virtuals data p) := by
  intro h
  have hrun : ((parse CgiResponseParser.virtuals (bytes "Content-Type: text/plain\n\nok")).run
      {}).Returned fun p => p.state = .kDone ∧ p.buffer = [] := by decide +kernel
  obtain ⟨u, p, hrun, hdone, hbuffer⟩ := hrun
  have hlong := (cgiResponseParser_terminates_kDone hdone []).mp
    (h.2 p (.returned .init hrun) [])
  rw [hbuffer] at hlong
  exact absurd hlong (by decide)

end Webserv
