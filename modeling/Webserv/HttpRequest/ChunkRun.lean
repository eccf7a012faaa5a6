/-
Webserv/HttpRequest/ChunkRun.lean

The chunk decoder as an incremental consumer: its moves are stable under more
input, and `chunkLoop` is a run of them.
-/
import Webserv.HttpRequest.ChunkStep

namespace Webserv

open Incremental

/-! ### More input -/

/-- `buffer_.append(xs)`, for a result that is not too long. -/
def HttpRequest.receive (r : HttpRequest) (xs : Bytes) : HttpRequest :=
  { r with buffer := r.buffer ++ xs }

@[simp] theorem receive_nil (r : HttpRequest) : r.receive [] = r := by
  simp [HttpRequest.receive]

theorem receive_append (r : HttpRequest) (xs ys : Bytes) :
    (r.receive xs).receive ys = r.receive (xs ++ ys) := by
  simp [HttpRequest.receive]

theorem receive_unread {r : HttpRequest} (h : r.bufferReadPos ≤ r.buffer.length) (xs : Bytes) :
    (r.receive xs).unread = r.unread ++ xs :=
  List.drop_append_of_le_length h

/-! ### Sound states -/

theorem ChunkSound.afterSizeLine {r : HttpRequest} (h : ChunkSound r) {len size : Nat}
    (hlen : len ≤ r.unread.length) : ChunkSound (r.afterSizeLine len size) := by
  have hpos := h.pos_le
  have hbody := h.body_le
  have hunread : r.unread.length = r.buffer.length - r.bufferReadPos := List.length_drop
  refine ⟨⟨?_, h.lt_sizeMod⟩, h.length_le, ?_⟩
  · show r.bufferReadPos + len ≤ r.buffer.length
    omega
  · show r.body.length ≤ r.bufferReadPos + len
    omega

theorem ChunkSound.afterChunk {r : HttpRequest} (h : ChunkSound r) {size : Nat}
    (hlen : size + 2 ≤ r.unread.length) : ChunkSound (r.afterChunk size) := by
  have hpos := h.pos_le
  have hbody := h.body_le
  have hunread : r.unread.length = r.buffer.length - r.bufferReadPos := List.length_drop
  refine ⟨⟨?_, h.lt_sizeMod⟩, h.length_le, ?_⟩
  · show r.bufferReadPos + size + 2 ≤ r.buffer.length
    omega
  · show (r.body ++ r.unread.take size).length ≤ r.bufferReadPos + size + 2
    rw [List.length_append, List.length_take]
    omega

/-- The moves of the decoder that go on: behind a size line, or behind a chunk. -/
theorem chunkStep_next {r t : HttpRequest} (h : chunkStep r = .next t) :
    (∃ len size, r.nextChunkSize = -1 ∧ sizeLine r.unread = .read len size ∧
        ¬ (size ≠ 0 ∧ r.tooLarge size) ∧ t = r.afterSizeLine len size) ∨
      (∃ rest, r.nextChunkSize ≠ -1 ∧ r.nextChunkSize ≠ 0 ∧
        ¬ r.tooLarge (toSize r.nextChunkSize) ∧
        r.unread.drop (toSize r.nextChunkSize) = CR :: LF :: rest ∧
        t = r.afterChunk (toSize r.nextChunkSize)) := by
  unfold chunkStep dataStep at h
  split_ifs at h with hnext h0 hbig
  · rcases hline : sizeLine r.unread with - | - | ⟨len, size⟩
    · simp [hline] at h
    · simp [hline] at h
    · simp only [hline] at h
      split_ifs at h with hlimit
      cases h
      exact .inl ⟨len, size, hnext, rfl, hlimit, rfl⟩
  · rcases hu : r.unread with - | ⟨c, - | ⟨c', rest⟩⟩
    · simp [hu] at h
    · simp [hu] at h
    · simp only [hu] at h
      split_ifs at h
  · rcases hu : r.unread.drop (toSize r.nextChunkSize) with - | ⟨c, - | ⟨c', rest⟩⟩
    · simp [hu] at h
    · simp [hu] at h
    · simp only [hu] at h
      split_ifs at h with hcr
      cases h
      obtain ⟨rfl, rfl⟩ := hcr
      exact .inr ⟨rest, hnext, h0, hbig, rfl, rfl⟩

theorem ChunkSound.next {r t : HttpRequest} (h : ChunkSound r) (hst : chunkStep r = .next t) :
    ChunkSound t := by
  obtain ⟨len, size, -, hline, -, rfl⟩ | ⟨rest, -, -, -, hdrop, rfl⟩ := chunkStep_next hst
  · exact h.afterSizeLine (sizeLine_read_bounds hline).2.1
  · refine h.afterChunk ?_
    have hlen := congrArg List.length hdrop
    simp only [List.length_drop, List.length_cons] at hlen
    omega


/-! ### Stability -/

theorem ChunkSound.of_receive {r : HttpRequest} (h : ChunkSound r) {xs : Bytes}
    (hlen : r.buffer.length + xs.length ≤ stringMaxSize)
    (hmod : r.buffer.length + xs.length + r.maxBodySizeLimit + 2 < sizeMod) :
    ChunkSound (r.receive xs) := by
  have hpos := h.pos_le
  have hl : (r.receive xs).buffer.length = r.buffer.length + xs.length := List.length_append
  refine ⟨⟨?_, ?_⟩, ?_, h.body_le⟩
  · show r.bufferReadPos ≤ (r.receive xs).buffer.length
    omega
  · show (r.receive xs).buffer.length + r.maxBodySizeLimit + 2 < sizeMod
    omega
  · omega

theorem ChunkSound.of_append {r : HttpRequest} {xs ys : Bytes} (h : ChunkSound r)
    (hx : ChunkSound (r.receive (xs ++ ys))) : ChunkSound (r.receive xs) := by
  have hl : (r.receive (xs ++ ys)).buffer.length = r.buffer.length + (xs ++ ys).length :=
    List.length_append
  have hlen := hx.length_le
  have hmod : (r.receive (xs ++ ys)).buffer.length + r.maxBodySizeLimit + 2 < sizeMod :=
    hx.lt_sizeMod
  rw [hl, List.length_append] at hlen hmod
  exact h.of_receive (by omega) (by omega)

theorem chunkStep_receive_next {r t : HttpRequest} {xs : Bytes} (hs : ChunkSound r)
    (h : chunkStep r = .next t) : chunkStep (r.receive xs) = .next (t.receive xs) := by
  have hunread := receive_unread hs.pos_le xs
  obtain ⟨len, size, hnext, hline, hlimit, rfl⟩ | ⟨rest, hnext, h0, hbig, hdrop, rfl⟩ :=
    chunkStep_next h
  · have hline' : sizeLine (r.receive xs).unread = .read len size := by
      rw [hunread, sizeLine_append (by simp [hline]), hline]
    have hlimit' : ¬ (size ≠ 0 ∧ (r.receive xs).tooLarge size) := hlimit
    rw [chunkStep, if_pos (show (r.receive xs).nextChunkSize = -1 from hnext), hline']
    simp only [if_neg hlimit']
    rfl
  · have hle : toSize r.nextChunkSize ≤ r.unread.length := by
      have hlen := congrArg List.length hdrop
      simp only [List.length_drop, List.length_cons] at hlen
      omega
    have hdrop' : (r.receive xs).unread.drop (toSize r.nextChunkSize)
        = CR :: LF :: (rest ++ xs) := by
      rw [hunread, List.drop_append_of_le_length hle, hdrop]
      rfl
    have htake : (r.receive xs).unread.take (toSize r.nextChunkSize)
        = r.unread.take (toSize r.nextChunkSize) := by
      rw [hunread, List.take_append_of_le_length hle]
    have hafter : (r.receive xs).afterChunk (toSize r.nextChunkSize)
        = (r.afterChunk (toSize r.nextChunkSize)).receive xs := by
      simp only [HttpRequest.afterChunk, htake]
      rfl
    rw [chunkStep, if_neg (show ¬ (r.receive xs).nextChunkSize = -1 from hnext), dataStep,
      if_neg (show ¬ (r.receive xs).nextChunkSize = 0 from h0),
      if_neg (show ¬ (r.receive xs).tooLarge (toSize (r.receive xs).nextChunkSize) from hbig)]
    rw [show (r.receive xs).nextChunkSize = r.nextChunkSize from rfl, hdrop']
    simp only [and_self, if_true, hafter]

theorem chunkStep_receive_fail {r t : HttpRequest} {e : Exception} {xs : Bytes}
    (hs : ChunkSound r) (h : chunkStep r = .fail e t) :
    chunkStep (r.receive xs) = .fail e (t.receive xs) := by
  have hunread := receive_unread hs.pos_le xs
  have htooLarge : ∀ size, (r.receive xs).tooLarge size ↔ r.tooLarge size := fun _ => Iff.rfl
  have hfield : (r.receive xs).nextChunkSize = r.nextChunkSize := rfl
  unfold chunkStep dataStep at h ⊢
  simp only [hfield, htooLarge]
  -- what has been refused is in the buffer already, so more input changes nothing
  split_ifs at h ⊢ with hnext h0 hbig
  · rcases hline : sizeLine r.unread with - | - | ⟨len, size⟩
    · simp [hline] at h
    · rw [hunread, sizeLine_append (by simp [hline]), hline]
      rw [hline] at h
      cases h
      rfl
    · rw [hunread, sizeLine_append (by simp [hline]), hline]
      simp only [hline] at h ⊢
      split_ifs at h with hlimit
      cases h
      rw [if_pos hlimit]
      rfl
  · rcases hu : r.unread with - | ⟨c, - | ⟨c', rest⟩⟩
    · simp [hu] at h
    · simp [hu] at h
    · rw [hunread, hu]
      simp only [hu, List.cons_append] at h ⊢
      split_ifs at h with hcr hrest
      · cases h
        rw [if_pos hcr, if_neg (by simp [hrest])]
        rfl
      · cases h
        rw [if_neg hcr]
  · cases h; rfl
  · rcases hu : r.unread.drop (toSize r.nextChunkSize) with - | ⟨c, - | ⟨c', rest⟩⟩
    · simp [hu] at h
    · simp [hu] at h
    · have hle : toSize r.nextChunkSize ≤ r.unread.length := by
        have hlen := congrArg List.length hu
        simp only [List.length_drop, List.length_cons] at hlen
        omega
      rw [hunread, List.drop_append_of_le_length hle, hu, List.take_append_of_le_length hle]
      simp only [hu, List.cons_append] at h ⊢
      split_ifs at h ⊢ with hcr
      cases h
      rfl

/-- **The chunk decoder** as an incremental consumer of bytes. -/
def chunkConsumer : Consumer HttpRequest Byte Exception where
  step := chunkStep
  extend := HttpRequest.receive
  Sound := ChunkSound
  extend_nil := receive_nil
  extend_append := receive_append
  sound_of_append := ChunkSound.of_append
  sound_next := ChunkSound.next
  step_next hs _ h := chunkStep_receive_next hs h
  step_fail hs _ h := chunkStep_receive_fail hs h

/-! ### What the moves leave alone -/

/-- A move that fails throws one of two statuses, and leaves all but the progress alone. -/
theorem chunkStep_fail {r t : HttpRequest} {e : Exception} (h : chunkStep r = .fail e t) :
    ∃ status pos next body, e = .responseStatus status ∧
      (status = .kBadRequest ∨ status = .kPayloadTooLarge) ∧
      t = { r with bufferReadPos := pos, nextChunkSize := next, body := body } := by
  unfold chunkStep dataStep at h
  split_ifs at h with hnext h0 hbig
  · rcases hline : sizeLine r.unread with - | - | ⟨len, size⟩
    · simp [hline] at h
    · rw [hline] at h
      cases h
      exact ⟨_, _, _, _, rfl, .inl rfl, rfl⟩
    · simp only [hline] at h
      split_ifs at h
      cases h
      exact ⟨_, _, _, _, rfl, .inr rfl, rfl⟩
  · rcases hu : r.unread with - | ⟨c, - | ⟨c', rest⟩⟩
    · simp [hu] at h
    · simp [hu] at h
    · simp only [hu] at h
      split_ifs at h <;> cases h <;> exact ⟨_, _, _, _, rfl, .inl rfl, rfl⟩
  · cases h
    exact ⟨_, _, _, _, rfl, .inr rfl, rfl⟩
  · rcases hu : r.unread.drop (toSize r.nextChunkSize) with - | ⟨c, - | ⟨c', rest⟩⟩
    · simp [hu] at h
    · simp [hu] at h
    · simp only [hu] at h
      split_ifs at h
      cases h
      exact ⟨_, _, _, _, rfl, .inl rfl, rfl⟩

/-- Only a run that finishes changes `state_`. -/
theorem chunk_runs_state {r : HttpRequest} {o : Outcome HttpRequest Exception}
    (h : Runs chunkConsumer r o) : (∃ t, o = .finished t) ∨ o.result.state.state = r.state := by
  induction h with
  | wait => exact .inr rfl
  | @done s t h => exact .inl ⟨t, rfl⟩
  | @fail s e t h =>
      obtain ⟨_, _, _, _, -, -, rfl⟩ := chunkStep_fail h
      exact .inr rfl
  | @next s t o h _ ih =>
      obtain ⟨_, _, -, -, -, rfl⟩ | ⟨_, -, -, -, -, rfl⟩ := chunkStep_next h
      · exact ih
      · exact ih

/-! ### The loop -/

/-- What `AdvanceChunkedBody` returns at the end of a run. -/
def loopResult : Outcome HttpRequest Exception → EStateM.Result Exception HttpRequest Bool
  | .waiting s => .ok false s
  | .finished s => .ok true s
  | .failed e s => .error e s

theorem consumeChunk_runs {r : HttpRequest} (hs : ChunkSound r) (hnext : r.nextChunkSize ≠ -1)
    (k : RequestM Bool)
    (hk : ∀ t, chunkStep r = .next t → ∃ o, Runs chunkConsumer t o ∧ k.run t = loopResult o) :
    ∃ o, Runs chunkConsumer r o ∧
      (match consumeChunk.run r with
        | .ok (some finished) t => .ok finished t
        | .ok none t => k.run t
        | .error e t => .error e t) = loopResult o := by
  have hstep : chunkStep r = dataStep r := if_neg hnext
  rw [consumeChunk_run hs.toFits hs.hasRoom, ← hstep]
  rcases h : chunkStep r with t | - | t | ⟨e, t⟩
  · obtain ⟨o, ho, hrun⟩ := hk t h
    exact ⟨o, .next h ho, hrun⟩
  · exact ⟨.waiting r, .wait h, rfl⟩
  · exact ⟨.finished t, .done h, rfl⟩
  · exact ⟨.failed e t, .fail h, rfl⟩

theorem dataStep_tooLarge {r : HttpRequest} {len size : Nat} (hlt : size < sizeMod)
    (h0 : size ≠ 0) (hbig : r.tooLarge size) :
    dataStep (r.afterSizeLine len size) =
      .fail (.responseStatus .kPayloadTooLarge) (r.afterSizeLine len size) := by
  have hnext : ¬ toPtrdiff size = 0 := fun h => h0 ((toPtrdiff_eq_zero hlt).mp h)
  have hbig' : (r.afterSizeLine len size).tooLarge (toSize (toPtrdiff size)) := by
    rw [toSize_toPtrdiff hlt]
    exact hbig
  rw [dataStep, if_neg (show ¬ (r.afterSizeLine len size).nextChunkSize = 0 from hnext)]
  exact if_pos hbig'

/-- A size that is accepted is not the one that would be taken for -1. -/
theorem size_lt_of_not_tooLarge {r : HttpRequest} (hs : Fits r) {size : Nat}
    (h : ¬ (size ≠ 0 ∧ r.tooLarge size)) : size < sizeMod - 1 := by
  have hmod := hs.lt_sizeMod
  by_cases h0 : size = 0
  · subst h0; decide
  · have hle := not_tooLarge_iff.mp fun hbig => h ⟨h0, hbig⟩
    omega

theorem readSizeLine_run {r : HttpRequest} (hs : Fits r) :
    readSizeLine.run r =
      if r.nextChunkSize = -1 then
        match sizeLine r.unread with
        | .needMore => .ok false r
        | .malformed => .error (.responseStatus .kBadRequest) r
        | .read len size => .ok true (r.afterSizeLine len size)
      else .ok true r := by
  simp only [readSizeLine, EStateM.run_bind, EStateM.run_get, EStateM.run_ite]
  by_cases h : r.nextChunkSize = -1
  · simp only [if_pos h, parseChunkSize_run hs]
    rcases sizeLine r.unread with - | - | ⟨len, size⟩ <;> rfl
  · simp only [if_neg h]
    rfl

/-- **The loop of `AdvanceChunkedBody` is a run of the decoder.**  Every iteration
that goes on has read a size line and a chunk, so the fuel suffices. -/
theorem chunkLoop_runs (fuel : Nat) {r : HttpRequest} (hs : ChunkSound r)
    (hfuel : r.unread.length < fuel) :
    ∃ o, Runs chunkConsumer r o ∧ (chunkLoop fuel).run r = loopResult o := by
  induction fuel generalizing r with
  | zero => omega
  | succ fuel ih =>
      -- behind a chunk the unread text is shorter
      have hnextChunk : ∀ {r t : HttpRequest}, ChunkSound r → r.unread.length ≤ fuel →
          r.nextChunkSize ≠ -1 → chunkStep r = .next t →
          ∃ o, Runs chunkConsumer t o ∧ (chunkLoop fuel).run t = loopResult o := by
        intro r t hs hle hnext h
        refine ih (hs.next h) ?_
        obtain ⟨-, -, hneg, -⟩ | ⟨rest, -, -, -, hdrop, rfl⟩ := chunkStep_next h
        · exact absurd hneg hnext
        · have hlen := congrArg List.length hdrop
          have hunread : (r.afterChunk (toSize r.nextChunkSize)).unread.length
              = r.buffer.length - (r.bufferReadPos + toSize r.nextChunkSize + 2) :=
            List.length_drop
          have hunread' : r.unread.length = r.buffer.length - r.bufferReadPos := List.length_drop
          simp only [List.length_drop, List.length_cons] at hlen
          omega
      simp only [chunkLoop, EStateM.run_bind, readSizeLine_run hs.toFits]
      by_cases hnext : r.nextChunkSize = -1
      · rw [if_pos hnext]
        have hstep : chunkStep r = _ := if_pos hnext
        rcases hline : sizeLine r.unread with - | - | ⟨len, size⟩
        · rw [hline] at hstep
          exact ⟨.waiting r, .wait hstep, rfl⟩
        · rw [hline] at hstep
          exact ⟨.failed _ r, .fail hstep, rfl⟩
        · obtain ⟨hpos, hle, hlt⟩ := sizeLine_read_bounds hline
          have hs' : ChunkSound (r.afterSizeLine len size) := hs.afterSizeLine hle
          simp only [hline] at hstep
          by_cases hlimit : size ≠ 0 ∧ r.tooLarge size
          · rw [if_pos hlimit] at hstep
            refine ⟨.failed _ _, .fail hstep, ?_⟩
            have hfail := consumeChunk_run hs'.toFits hs'.hasRoom
            rw [dataStep_tooLarge hlt hlimit.1 hlimit.2] at hfail
            simp only [Bool.not_true, Bool.false_eq_true, if_false, EStateM.run_bind, hfail]
            rfl
          · rw [if_neg hlimit] at hstep
            have hsentinel : (r.afterSizeLine len size).nextChunkSize ≠ -1 :=
              toPtrdiff_ne (size_lt_of_not_tooLarge hs.toFits hlimit)
            have hshort : (r.afterSizeLine len size).unread.length ≤ fuel := by
              have hunread : (r.afterSizeLine len size).unread.length
                  = r.buffer.length - (r.bufferReadPos + len) := List.length_drop
              have hunread' : r.unread.length = r.buffer.length - r.bufferReadPos :=
                List.length_drop
              omega
            obtain ⟨o, ho, hrun⟩ := consumeChunk_runs hs' hsentinel (chunkLoop fuel)
              fun t ht => hnextChunk hs' hshort hsentinel ht
            refine ⟨o, .next hstep ho, ?_⟩
            rw [← hrun]
            simp only [Bool.not_true, Bool.false_eq_true, if_false, EStateM.run_bind]
            rcases consumeChunk.run (r.afterSizeLine len size) with ⟨- | b, t⟩ | ⟨e, t⟩ <;> rfl
      · rw [if_neg hnext]
        obtain ⟨o, ho, hrun⟩ := consumeChunk_runs hs hnext (chunkLoop fuel)
          fun t ht => hnextChunk hs (by omega) hnext ht
        refine ⟨o, ho, ?_⟩
        rw [← hrun]
        simp only [Bool.not_true, Bool.false_eq_true, if_false, EStateM.run_bind]
        rcases consumeChunk.run r with ⟨- | b, t⟩ | ⟨e, t⟩ <;> rfl

/-- **`AdvanceChunkedBody` is a run of the decoder.** -/
theorem advanceChunkedBody_runs {r : HttpRequest} (hs : ChunkSound r)
    (hfits : r.nextChunkSize ≠ -1 → r.nextChunkSize ≠ 0 →
      ¬ r.tooLarge (toSize r.nextChunkSize)) :
    ∃ o, Runs chunkConsumer r o ∧ advanceChunkedBody.run r = loopResult o := by
  have hpos := hs.pos_le
  simp only [advanceChunkedBody, EStateM.run_bind, EStateM.run_get, EStateM.run_ite,
    if_neg (show ¬ r.bufferReadPos > r.buffer.length by omega)]
  by_cases hend : r.bufferReadPos = r.buffer.length
  · -- no unread byte: the decoder waits in every phase
    rw [if_pos hend]
    have hunread : r.unread = [] := List.drop_eq_nil_of_le hend.ge
    refine ⟨.waiting r, .wait ?_, rfl⟩
    show chunkStep r = .wait
    unfold chunkStep dataStep
    rw [hunread]
    split_ifs with hnext h0 hbig
    · rfl
    · rfl
    · exact absurd hbig (hfits hnext h0)
    · rw [List.drop_nil]
  · rw [if_neg hend]
    refine chunkLoop_runs _ hs ?_
    show (r.buffer.drop r.bufferReadPos).length < 3 * r.buffer.length + 2
    rw [List.length_drop]
    omega

end Webserv
