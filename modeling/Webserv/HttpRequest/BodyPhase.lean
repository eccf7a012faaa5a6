/-
Webserv/HttpRequest/BodyPhase.lean

What every function of the body phase keeps, for every limit a `size_t` can hold.

Near 2^64 the additions of the chunk decoder wrap, so the closed forms of its moves
say nothing there.  What is kept all the same: the body stays within the limit, the
read position stays within the buffer, and as long as nothing was thrown the body
stays so short that appending to it cannot throw `std::length_error`.
-/
import Webserv.HttpRequest.HeadSound

namespace Webserv

open EStateM (Triple)

/-! ### The decoder between two moves -/

/-- The decoder at any time: its body is within the limit, its position within the buffer. -/
structure Measured (limit bound : Nat) (r : HttpRequest) : Prop where
  limit_eq : r.maxBodySizeLimit = limit
  length_neg : r.contentLength < 0
  state_eq : r.state = .kBody
  body_le : r.body.length ≤ limit
  pos_le : r.bufferReadPos ≤ r.buffer.length
  buffer_le : r.buffer.length ≤ bound

/-- The decoder as long as nothing was thrown: the body is not much longer than what
was read of the buffer.  (It can be longer, after a size near 2^64; under a limit that
excludes such a size, `room` can be 0.) -/
structure Decoding (limit bound room : Nat) (r : HttpRequest) : Prop extends
    Measured limit bound r where
  room_le : r.body.length ≤ room + r.bufferReadPos

/-- What the decoder throws, and the state it leaves. -/
structure Stopped (limit bound room : Nat) (e : Exception) (r : HttpRequest) : Prop extends
    Measured limit bound r where
  fault : room + bound ≤ stringMaxSize → ClientFault e ∨ e = .diverges

/-- The decoder has finished. -/
structure Decoded (limit bound : Nat) (r : HttpRequest) : Prop where
  limit_eq : r.maxBodySizeLimit = limit
  length_neg : r.contentLength < 0
  state_eq : r.state = .kDone
  body_le : r.body.length ≤ limit
  buffer_le : r.buffer.length ≤ bound

theorem Measured.stopped {limit bound : Nat} {e : Exception} {r : HttpRequest}
    (h : Measured limit bound r) (he : ClientFault e) (room : Nat) :
    Stopped limit bound room e r := ⟨h, fun _ => .inl he⟩

/-! ### Line ends and size lines -/

theorem validateAndSkipCRLF_spec (pos : Nat) {r : HttpRequest}
    (hlen : r.buffer.length ≤ stringMaxSize) :
    Triple (· = r) (validateAndSkipCRLF pos)
      (fun q s => s = r ∧
        match q with
        | none => r.buffer.length ≤ addSize pos 1
        | some p => p = pos + 2 ∧ p ≤ r.buffer.length)
      fun e s => s = r ∧ ClientFault e := by
  refine .get_bind ?_
  rintro s rfl
  refine .ite (fun hend => .pure ?_) fun hend => .ite (fun _ => .throw ?_) fun hcrlf => .pure ?_
  · rintro r rfl
    exact ⟨rfl, hend⟩
  · rintro r rfl
    exact ⟨rfl, .of_status (by decide)⟩
  · rintro r rfl
    refine ⟨rfl, ?_⟩
    dsimp only
    -- the byte at `pos` is a CR, so `pos` lies inside the buffer and nothing wraps
    have hpos : pos < r.buffer.length := by
      by_contra hout
      rw [List.getD_eq_default _ _ (by omega)] at hcrlf
      exact hcrlf (.inl (by decide))
    unfold stringMaxSize at hlen
    have h1 : addSize pos 1 = pos + 1 := addSize_of_lt (by unfold sizeMod; omega)
    have h2 : addSize pos 2 = pos + 2 := addSize_of_lt (by unfold sizeMod; omega)
    rw [h1] at hend
    rw [h2]
    omega

theorem scanChunkSize_reads (text : Bytes) (pos n : Nat) (saw : Bool) :
    Reads (scanChunkSize text pos n saw) fun x => pos ≤ x.1 ∧ x.1 ≤ pos + text.length := by
  induction text generalizing pos n saw with
  | nil => exact ⟨le_rfl, le_rfl⟩
  | cons c cs ih =>
      rw [scanChunkSize]
      split
      · exact ⟨le_rfl, Nat.le_add_right _ _⟩
      · rcases hexDigit c with - | d
        · exact .of_status (by decide)
        · dsimp only
          split
          · exact .of_status (by decide)
          · refine (ih _ _ _).imp fun x hx => ?_
            rw [List.length_cons]
            omega

theorem parseChunkSize_spec {pos : Nat} {r : HttpRequest} (hpos : pos ≤ r.buffer.length)
    (hlen : r.buffer.length ≤ stringMaxSize) :
    Triple (· = r) (parseChunkSize pos)
      (fun q s => s = r ∧ ∀ p ∈ q, pos ≤ p.1 ∧ p.1 ≤ r.buffer.length)
      fun e s => s = r ∧ ClientFault e := by
  refine .get_bind ?_
  rintro s rfl
  have hscan := scanChunkSize_reads (s.buffer.drop pos) pos 0 false
  rw [List.length_drop] at hscan
  rcases hrun : scanChunkSize (s.buffer.drop pos) pos 0 false with e | ⟨pos', size, saw⟩
  · rintro r rfl
    exact ⟨rfl, hscan.of_error hrun⟩
  · obtain ⟨hle, -⟩ := hscan.of_ok hrun
    refine .ite (fun _ => .pure ?_) fun _ => (validateAndSkipCRLF_spec pos' hlen).bind fun q =>
      .pure ?_
    · rintro r rfl
      exact ⟨rfl, nofun⟩
    · rintro r ⟨rfl, hq⟩
      refine ⟨rfl, ?_⟩
      rintro p hp
      obtain ⟨k, hk, rfl⟩ := Option.map_eq_some_iff.mp hp
      subst hk
      obtain ⟨rfl, hk⟩ := hq
      dsimp only at hle ⊢
      omega

theorem readSizeLine_spec {limit bound room : Nat} (hbound : bound ≤ stringMaxSize) :
    Triple (Decoding limit bound room) readSizeLine (fun _ => Decoding limit bound room)
      (Stopped limit bound room) := by
  refine .get_bind fun r hr => .ite (fun _ => ?_) fun _ => .pure ?_
  · refine ((parseChunkSize_spec hr.pos_le (hr.buffer_le.trans hbound)).imp (fun _ h => h)
      (fun _ _ h => h) ?_).bind fun q => ?_
    · rintro e s ⟨rfl, he⟩
      exact hr.stopped he room
    · rcases q with - | ⟨pos, size⟩
      · refine .pure ?_
        rintro s ⟨rfl, -⟩
        exact hr
      · refine .update_bind (M := Decoding limit bound room) (.pure fun _ h => h) ?_
        rintro s ⟨rfl, hq⟩
        obtain ⟨hle, hend⟩ := hq _ rfl
        exact { hr with
          pos_le := hend
          room_le := hr.room_le.trans (Nat.add_le_add_left hle room) }
  · rintro s rfl
    exact hr

/-! ### Chunks -/

/-- What `AppendChunkData` leaves: its new position is not stored yet. -/
theorem appendChunkData_spec {limit bound room size : Nat} (hlimit : limit < sizeMod)
    (hbound : bound ≤ stringMaxSize) (hroom : 2 * bound + 1 ≤ room ∨ bound + limit + 2 < sizeMod) {r : HttpRequest}
    (hr : Decoding limit bound room r) :
    Triple (· = r) (appendChunkData r.bufferReadPos size)
      (fun q s => Decoding limit bound room { s with bufferReadPos := q.getD s.bufferReadPos })
      (Stopped limit bound room) := by
  have hpos := hr.pos_le
  have hbuffer := hr.buffer_le
  have hbody := hr.room_le
  have hlim := hr.limit_eq
  have hmax : stringMaxSize + 1 < sizeMod := by decide
  refine .get_bind ?_
  rintro s rfl
  refine .ite (fun _ => .throw ?_) fun hfits => .ite (fun _ => .pure ?_) fun hmore =>
    .ite (fun hout => absurd hout (by omega)) fun _ => ?_
  · rintro r rfl
    exact hr.stopped (.of_status (by decide)) room
  · rintro r rfl
    exact hr
  · rw [not_or, not_lt, hlim] at hfits
    obtain ⟨hle, hrest⟩ := hfits
    rw [subSize_of_le hle hlimit, not_lt] at hrest
    have hdata : ((s.buffer.drop s.bufferReadPos).take size).length
        = min size (s.buffer.length - s.bufferReadPos) := by
      rw [List.length_take, List.length_drop]
    unfold stringAppend
    split_ifs with happend
    · refine .pure_bind (.update_bind (M := (· = { s with
        body := s.body ++ (s.buffer.drop s.bufferReadPos).take size })) ?_ (by rintro r rfl; rfl))
      have hbody' : (s.body ++ (s.buffer.drop s.bufferReadPos).take size).length
          = s.body.length + min size (s.buffer.length - s.bufferReadPos) := by
        rw [List.length_append, hdata]
      have hmeasured : Measured limit bound { s with
          body := s.body ++ (s.buffer.drop s.bufferReadPos).take size } :=
        { hr with
          body_le := by
            show (s.body ++ _).length ≤ limit
            omega }
      have hskip := @validateAndSkipCRLF_spec (addSize s.bufferReadPos size)
        { s with body := s.body ++ (s.buffer.drop s.bufferReadPos).take size }
        (hbuffer.trans hbound)
      refine hskip.imp (fun _ h => h) ?_ ?_
      · rintro q t ⟨rfl, hq⟩
        have hnone : q = none → s.buffer.length ≤ addSize (addSize s.bufferReadPos size) 1 := by
          rintro rfl
          exact hq
        have hsome : ∀ p, q = some p →
            p = addSize s.bufferReadPos size + 2 ∧ p ≤ s.buffer.length := by
          rintro p rfl
          exact hq
        -- either nothing has wrapped, or the size was near 2^64 and the body is short
        have hcases : s.bufferReadPos + size + 2 ≤ s.buffer.length ∨
            sizeMod ≤ s.bufferReadPos + size + 2 := by
          unfold addSize sizeMod at *
          omega
        refine { hmeasured with pos_le := ?_, room_le := ?_ }
        · rcases q with - | p
          · exact hpos
          · exact (hsome p rfl).2
        · show (s.body ++ _).length ≤ room + q.getD s.bufferReadPos
          rcases hcases with hforward | hwrap
          · have hadd : addSize s.bufferReadPos size = s.bufferReadPos + size :=
              addSize_of_lt (by omega)
            have hadd' : addSize (s.bufferReadPos + size) 1 = s.bufferReadPos + size + 1 :=
              addSize_of_lt (by omega)
            rcases q with - | p
            · have hend := hnone rfl
              rw [hadd, hadd'] at hend
              omega
            · obtain ⟨rfl, -⟩ := hsome p rfl
              rw [hadd, Option.getD_some]
              omega
          · omega
      · rintro e t ⟨rfl, he⟩
        exact hmeasured.stopped he room
    · refine .throw_bind ?_
      rintro r rfl
      exact ⟨hr.toMeasured, fun hshort => absurd happend (by omega)⟩

/-- The final CRLF, and what `AdvanceChunkedBody` assigns behind it. -/
theorem validateFinalCRLF_spec {limit bound room : Nat} (hbound : bound ≤ stringMaxSize)
    {r : HttpRequest} (hr : Decoding limit bound room r) :
    Triple (· = r) validateFinalCRLF
      (fun finished s =>
        if finished then ∃ pos, s = { r with buffer := [], bufferReadPos := pos, state := .kDone }
        else s = r)
      (Stopped limit bound room) := by
  refine .get_bind ?_
  rintro s rfl
  refine .ite (fun hout => absurd hr.pos_le (by omega)) fun _ => ?_
  refine ((validateAndSkipCRLF_spec s.bufferReadPos (hr.buffer_le.trans hbound)).imp
    (fun _ h => h) (fun _ _ h => h) ?_).bind fun q => ?_
  · rintro e t ⟨rfl, he⟩
    exact hr.stopped he room
  · rcases q with - | pos
    · refine .pure ?_
      rintro t ⟨rfl, -⟩
      rfl
    · rintro t ⟨rfl, -, hpos⟩
      refine Triple.update_bind (P := (· = t)) (M := (· = { t with bufferReadPos := pos }))
        ?_ (by rintro r rfl; rfl) t rfl
      refine .ite (fun _ => .throw ?_) fun _ =>
        .update_bind (M := (· = { t with buffer := [], bufferReadPos := pos, state := .kDone }))
          (.pure ?_) (by rintro r rfl; rfl)
      · rintro r rfl
        exact ⟨{ hr.toMeasured with pos_le := hpos }, fun _ => .inl (.of_status (by decide))⟩
      · rintro r rfl
        exact ⟨pos, rfl⟩

/-- What an iteration of the loop leaves: it has finished, waits, or goes on. -/
def AfterChunk (limit bound room : Nat) : Option Bool → HttpRequest → Prop
  | some true => Decoded limit bound
  | _ => Decoding limit bound room

theorem consumeChunk_spec {limit bound room : Nat} (hlimit : limit < sizeMod)
    (hbound : bound ≤ stringMaxSize) (hroom : 2 * bound + 1 ≤ room ∨ bound + limit + 2 < sizeMod) :
    Triple (Decoding limit bound room) consumeChunk (AfterChunk limit bound room)
      (Stopped limit bound room) := by
  refine .get_bind fun r hr => .ite (fun _ => ?_) fun _ => ?_
  · refine (validateFinalCRLF_spec hbound hr).bind fun finished => ?_
    rcases finished with - | -
    · refine .pure ?_
      rintro s rfl
      exact hr
    · rintro s ⟨pos, rfl⟩
      refine ⟨hr.limit_eq, hr.length_neg, rfl, hr.body_le, ?_⟩
      show (([] : Bytes).drop pos).length ≤ bound
      simp
  · refine (appendChunkData_spec hlimit hbound hroom hr).bind fun q => ?_
    rcases q with - | pos
    · exact .pure fun _ h => h
    · refine .update_bind (M := Decoding limit bound room) (.pure fun _ h => h) fun s hs => ?_
      exact { hs with }

theorem chunkLoop_spec {limit bound room : Nat} (hlimit : limit < sizeMod)
    (hbound : bound ≤ stringMaxSize) (hroom : 2 * bound + 1 ≤ room ∨ bound + limit + 2 < sizeMod) (fuel : Nat) :
    Triple (Decoding limit bound room) (chunkLoop fuel)
      (fun finished => AfterChunk limit bound room (some finished))
      (Stopped limit bound room) := by
  induction fuel with
  | zero => exact .throw fun _ hr => ⟨hr.toMeasured, fun _ => .inr rfl⟩
  | succ fuel ih =>
      refine (readSizeLine_spec hbound).bind fun more => .ite (fun _ => .pure fun _ h => h) fun _ => ?_
      refine (consumeChunk_spec hlimit hbound hroom).bind fun q => ?_
      rcases q with - | finished
      · exact ih
      · exact .pure fun _ h => h

/-- **`AdvanceChunkedBody`**: wherever it stops, the body is within the limit. -/
theorem advanceChunkedBody_spec {limit bound room : Nat} (hlimit : limit < sizeMod)
    (hbound : bound ≤ stringMaxSize) (hroom : 2 * bound + 1 ≤ room ∨ bound + limit + 2 < sizeMod) :
    Triple (Decoding limit bound room) advanceChunkedBody
      (fun finished => AfterChunk limit bound room (some finished))
      (Stopped limit bound room) := by
  refine .get_bind fun r hr => .ite (fun hout => absurd hr.pos_le (by omega)) fun _ =>
    .ite (fun _ => .pure ?_) fun _ => ?_
  · rintro s rfl
    exact hr
  · rintro s rfl
    exact chunkLoop_spec hlimit hbound hroom _ s hr

end Webserv
