/-
Webserv/HttpRequest/Malformed.lean

Which chunked bodies are left waiting.

A decoder that waits has read, up to the last byte, the start of an encoding: the
helpers look at two bytes at once, so a wrong byte is only seen together with the next
one.  There is one exception.  A size line without a digit is taken for one that has
not arrived, and a CR at its start is never looked at again.
-/
import Webserv.HttpRequest.ChunkedFormat
import Webserv.HttpRequest.Trailing

namespace Webserv

open Incremental

/-! ### The start of an encoding -/

/-- The start of an encoding, or one byte more. -/
def NearlyBody (u : Bytes) : Prop := ∃ b : ChunkedBody, u.dropLast <+: b.encode

/-- Complete chunks with at most `room` bytes of data, and then a CR where a size line
should be. -/
def LacksSize (room : Nat) (u : Bytes) : Prop :=
  ∃ (chunks : List Chunk) (rest : Bytes), u = (chunks.map Chunk.encode).flatten ++ CR :: rest ∧
    (chunks.map Chunk.data).flatten.length ≤ room

theorem dropLast_append_prefix (a b : Bytes) : (a ++ b).dropLast <+: a ++ b.dropLast := by
  rcases eq_or_ne b [] with rfl | hb
  · rw [List.append_nil, List.dropLast_nil, List.append_nil]
    exact List.dropLast_prefix a
  · rw [List.dropLast_append_of_ne_nil hb]

/-- The chunked body without chunks. -/
def noChunks : ChunkedBody where
  chunks := []
  zeros := [48]
  zeros_ne_nil := List.cons_ne_nil _ _
  eq_zero_of_mem _ hc := List.mem_singleton.mp hc

/-- A size line and a part of the data of its chunk start an encoding. -/
theorem nearlyBody_of_data {ds rest : Bytes} (hne : ds ≠ []) (hhex : ∀ c ∈ ds, isHexDigit c)
    (hpos : 1 ≤ hexVal ds) (hlen : rest.length ≤ hexVal ds + 1) :
    NearlyBody (ds ++ CRLF ++ rest) := by
  have hdata : (rest.take (hexVal ds) ++ List.replicate (hexVal ds - rest.length) 0).length
      = hexVal ds := by
    rw [List.length_append, List.length_take, List.length_replicate]
    omega
  let c : Chunk := ⟨ds, rest.take (hexVal ds) ++ List.replicate (hexVal ds - rest.length) 0, hne,
    hhex, by rw [hdata]; exact hpos, hdata.symm⟩
  refine ⟨noChunks.cons c, ?_⟩
  have hrest : rest.dropLast <+: rest.take (hexVal ds) := by
    rw [List.dropLast_eq_take]
    exact List.take_prefix_take_left (by omega)
  have hencode : ds ++ CRLF ++ rest.take (hexVal ds) <+:
      (noChunks.cons c).encode := by
    rw [ChunkedBody.encode_cons, Chunk.encode]
    exact ⟨List.replicate (hexVal ds - rest.length) 0 ++ CRLF ++
      noChunks.encode, by simp [c]⟩
  exact ( dropLast_append_prefix _ _).trans
    (((List.prefix_append_right_inj _).mpr hrest).trans hencode)

/-- The digits of a size line start an encoding, also with the CR behind them. -/
theorem nearlyBody_of_digits {ds : Bytes} (hne : ds ≠ []) (hhex : ∀ c ∈ ds, isHexDigit c) :
    NearlyBody (ds ++ CRLF) := by
  rcases Nat.eq_zero_or_pos (hexVal ds) with hzero | hpos
  · refine ⟨⟨[], ds, hne, (hexVal_eq_zero_iff hhex).mp hzero⟩, ?_⟩
    exact (List.dropLast_prefix _).trans (List.prefix_append _ _)
  · have h := @nearlyBody_of_data _ [] hne hhex hpos (Nat.zero_le _)
    rwa [List.append_nil] at h

theorem NearlyBody.of_dropLast_le {u v : Bytes} (h : NearlyBody v) (huv : u.dropLast <+: v.dropLast) :
    NearlyBody u := by
  obtain ⟨b, hb⟩ := h
  exact ⟨b, huv.trans hb⟩

theorem NearlyBody.cons {u : Bytes} (c : Chunk) (h : NearlyBody u) :
    NearlyBody (c.encode ++ u) := by
  obtain ⟨b, hb⟩ := h
  refine ⟨b.cons c, ( dropLast_append_prefix _ _).trans ?_⟩
  rw [ChunkedBody.encode_cons]
  exact (List.prefix_append_right_inj _).mpr hb

/-! ### Where the decoder waits -/

theorem dropLast_prefix_dropLast {u v : Bytes} (h : u <+: v) : u.dropLast <+: v.dropLast := by
  have hlen := h.length_le
  rw [show v.dropLast = v.take (v.length - 1) from List.dropLast_eq_take, List.prefix_take_iff,
    List.length_dropLast]
  exact ⟨(List.dropLast_prefix u).trans h, by omega⟩

/-- What a decoder that waits for a size line has in front of it. -/
theorem sizeLine_eq_needMore {text : Bytes} (h : sizeLine text = .needMore) :
    (∃ rest, text = CR :: rest) ∨ NearlyBody text := by
  have hsplit := List.takeWhile_append_dropWhile (p := isHexDigit) (l := text)
  have hhex : ∀ c ∈ text.takeWhile isHexDigit, isHexDigit c := fun c hc => List.mem_takeWhile_imp hc
  obtain ⟨ds, hds⟩ : ∃ ds, ds = text.takeWhile isHexDigit := ⟨_, rfl⟩
  -- digits, and perhaps the CR behind them
  have hdigits : ds ≠ [] → ∀ u, text = ds ++ u → u <+: CRLF → NearlyBody text := by
    intro hne u htext hu
    refine (nearlyBody_of_digits hne (hds ▸ hhex)).of_dropLast_le (dropLast_prefix_dropLast ?_)
    rw [htext]
    exact (List.prefix_append_right_inj _).mpr hu
  simp only [sizeLine, ← hds] at h
  rw [← hds] at hsplit
  have hover : ¬ sizeMod ≤ hexVal ds := by
    intro hover
    rw [if_pos hover] at h
    cases h
  rw [if_neg hover] at h
  rcases hrest : text.dropWhile isHexDigit with - | ⟨c, rest⟩
  · rw [hrest] at hsplit
    right
    by_cases hne : ds = []
    · rw [← hsplit, hne]
      exact ⟨noChunks, List.nil_prefix⟩
    · exact hdigits hne [] hsplit.symm List.nil_prefix
  · rw [hrest] at hsplit h
    dsimp only at h
    split_ifs at h with hcr hne
    · rw [not_not] at hcr
      rw [hne, hcr] at hsplit
      exact .inl ⟨rest, hsplit.symm⟩
    · rw [not_not] at hcr
      rcases rest with - | ⟨c', rest⟩
      · rw [hcr] at hsplit
        exact .inr (hdigits hne [CR] hsplit.symm ⟨[LF], rfl⟩)
      · dsimp only at h
        split_ifs at h

/-- What a decoder that waits has in front of it, before a size line. -/
def LeftWaiting (room : Nat) (u : Bytes) : Prop := NearlyBody u ∨ LacksSize room u

/-- What a decoder that waits has in front of it, in each of its phases. -/
def HttpRequest.Awaits (r : HttpRequest) : Prop :=
  if r.nextChunkSize = -1 then LeftWaiting (r.maxBodySizeLimit - r.body.length) r.unread
  else if r.nextChunkSize = 0 then r.unread.length ≤ 1
  else
    r.unread.length ≤ toSize r.nextChunkSize + 1 ∨
      ∃ d u : Bytes, d.length = toSize r.nextChunkSize ∧ r.unread = d ++ CRLF ++ u ∧
        LeftWaiting (r.maxBodySizeLimit - r.body.length - d.length) u

theorem LeftWaiting.cons {room : Nat} {u : Bytes} (c : Chunk) (hroom : c.data.length ≤ room)
    (h : LeftWaiting (room - c.data.length) u) : LeftWaiting room (c.encode ++ u) := by
  rcases h with hnear | ⟨chunks, rest, rfl, hle⟩
  · exact .inl (hnear.cons c)
  · refine .inr ⟨c :: chunks, rest, by simp, ?_⟩
    rw [List.map_cons, List.flatten_cons, List.length_append]
    omega

theorem dataStep_eq_wait {r : HttpRequest} (h : dataStep r = .wait) :
    if r.nextChunkSize = 0 then r.unread.length ≤ 1
    else r.unread.length ≤ toSize r.nextChunkSize + 1 := by
  unfold dataStep at h
  split_ifs at h ⊢ with h0 hbig
  · rcases hu : r.unread with - | ⟨c, - | ⟨c', rest⟩⟩
    · exact Nat.zero_le _
    · exact le_rfl
    · simp only [hu] at h
      split_ifs at h
  · have hlen : (r.unread.drop (toSize r.nextChunkSize)).length ≤ 1 := by
      rcases hu : r.unread.drop (toSize r.nextChunkSize) with - | ⟨c, - | ⟨c', rest⟩⟩
      · exact Nat.zero_le _
      · exact le_rfl
      · simp only [hu] at h
        split_ifs at h
    rw [List.length_drop] at hlen
    omega

/-- **The decoder waits** only where more input is needed, or a size is lacking. -/
theorem awaits_of_wait {r : HttpRequest} (h : chunkStep r = .wait) : r.Awaits := by
  unfold HttpRequest.Awaits
  unfold chunkStep at h
  split_ifs at h ⊢ with hnext h0
  · rcases hline : sizeLine r.unread with - | - | ⟨len, size⟩
    · obtain ⟨rest, hrest⟩ | hnear := sizeLine_eq_needMore hline
      · exact .inr ⟨[], rest, hrest, Nat.zero_le _⟩
      · exact .inl hnear
    · rw [hline] at h
      cases h
    · simp only [hline] at h
      split_ifs at h
  · have hwait := dataStep_eq_wait h
    rwa [if_pos h0] at hwait
  · have hwait := dataStep_eq_wait h
    rw [if_neg h0] at hwait
    exact .inl hwait

theorem HttpRequest.Awaits.before_sizeLine {r : HttpRequest} {len size : Nat} (hs : ChunkSound r)
    (hnext : r.nextChunkSize = -1) (hline : sizeLine r.unread = .read len size)
    (hlimit : ¬ (size ≠ 0 ∧ r.tooLarge size)) (h : (r.afterSizeLine len size).Awaits) :
    r.Awaits := by
  have hsentinel : toPtrdiff size ≠ -1 := toPtrdiff_ne (size_lt_of_not_tooLarge hs.toFits hlimit)
  obtain ⟨ds, rest, hsplit, hne, hhex, hval, hlt, rfl⟩ := sizeLine_eq_read.mp hline
  have hunread := @HttpRequest.unread_afterSizeLine r ds rest size hsplit
  unfold HttpRequest.Awaits at h ⊢
  rw [if_pos hnext, hsplit]
  rw [if_neg (show (r.afterSizeLine _ size).nextChunkSize ≠ -1 from hsentinel), hunread] at h
  by_cases h0 : size = 0
  · -- behind the last size line at most one byte is waited with
    subst h0
    have hrest : rest.length ≤ 1 := h
    have hnil : rest.dropLast = [] := by
      apply List.eq_nil_of_length_eq_zero
      rw [List.length_dropLast]
      omega
    refine .inl ⟨⟨[], ds, hne, (hexVal_eq_zero_iff hhex).mp hval⟩, ?_⟩
    refine ( dropLast_append_prefix _ _).trans ?_
    rw [hnil, List.append_nil]
    exact List.prefix_append _ _
  · rw [if_neg (show ¬ (r.afterSizeLine _ size).nextChunkSize = 0 from
      fun h => h0 ((toPtrdiff_eq_zero hlt).mp h))] at h
    have hsize : toSize (r.afterSizeLine (ds.length + 2) size).nextChunkSize = size :=
      toSize_toPtrdiff hlt
    rw [hsize] at h
    obtain hshort | ⟨d, u, hd, hu, hwait⟩ := h
    · refine .inl (nearlyBody_of_data hne hhex (by omega) ?_)
      rw [hval]
      exact hshort
    · have hfit := not_tooLarge_iff.mp fun hbig => hlimit ⟨h0, hbig⟩
      have hchunk := @LeftWaiting.cons (r.maxBodySizeLimit - r.body.length) u
        ⟨ds, d, hne, hhex, by omega, by omega⟩ (by show d.length ≤ _; omega) hwait
      rw [Chunk.encode] at hchunk
      rw [hu]
      simpa using hchunk

theorem HttpRequest.Awaits.before_chunk {r : HttpRequest} {rest : Bytes}
    (hnext : r.nextChunkSize ≠ -1) (h0 : r.nextChunkSize ≠ 0)
    (hdrop : r.unread.drop (toSize r.nextChunkSize) = CR :: LF :: rest)
    (h : (r.afterChunk (toSize r.nextChunkSize)).Awaits) : r.Awaits := by
  obtain ⟨hlen, hsplit⟩ := split_of_drop hdrop
  have hunread := HttpRequest.unread_afterChunk hsplit
  rw [hlen] at hunread
  unfold HttpRequest.Awaits at h ⊢
  rw [if_neg hnext, if_neg h0]
  have hwait := (if_pos rfl).mp h
  rw [hunread] at hwait
  refine .inr ⟨_, rest, hlen, hsplit, ?_⟩
  have hbody : (r.afterChunk (toSize r.nextChunkSize)).body.length
      = r.body.length + toSize r.nextChunkSize := by
    rw [← hlen]
    simp [HttpRequest.afterChunk, hlen]
  have hroom : (r.afterChunk (toSize r.nextChunkSize)).maxBodySizeLimit -
      (r.afterChunk (toSize r.nextChunkSize)).body.length =
        r.maxBodySizeLimit - r.body.length - (r.unread.take (toSize r.nextChunkSize)).length := by
    rw [hbody, hlen, Nat.sub_sub]
    rfl
  rwa [hroom] at hwait

/-- **A run that waits.**  By induction on the run. -/
theorem awaits_of_runs {r t : HttpRequest} (hs : ChunkSound r)
    (h : Runs chunkConsumer r (.waiting t)) : r.Awaits := by
  generalize ho : Outcome.waiting (ε := Exception) t = o at h
  induction h with
  | done => cases ho
  | fail => cases ho
  | wait h => exact awaits_of_wait h
  | @next s t o h _ ih =>
      have hstep : chunkStep s = .next t := h
      have hst := hs.next hstep
      obtain ⟨len, size, hnext, hline, hlimit, rfl⟩ | ⟨rest, hnext, h0, -, hdrop, rfl⟩ :=
        chunkStep_next hstep
      · exact .before_sizeLine hs hnext hline hlimit (ih hst ho)
      · exact .before_chunk hnext h0 hdrop (ih hst ho)

/-! ### A size that is lacking -/

/-- **Where a CR stands for a size line** the decoder waits, whatever follows. -/
theorem lacksSize_runs (chunks : List Chunk) {rest : Bytes} {r : HttpRequest} (hs : ChunkSound r)
    (hnext : r.nextChunkSize = -1)
    (hunread : r.unread = (chunks.map Chunk.encode).flatten ++ CR :: rest)
    (hfit : r.body.length + (chunks.map Chunk.data).flatten.length ≤ r.maxBodySizeLimit) :
    ∃ t, Runs chunkConsumer r (.waiting t) := by
  induction chunks generalizing r with
  | nil =>
      have hline : sizeLine r.unread = .needMore := by
        rw [hunread]
        rfl
      have hstep : chunkStep r = .wait := by
        rw [chunkStep, if_pos hnext, hline]
      exact ⟨r, .wait hstep⟩
  | cons c cs ih =>
      rw [List.map_cons, List.flatten_cons, List.append_assoc] at hunread
      rw [List.map_cons, List.flatten_cons, List.length_append] at hfit
      obtain ⟨t, ht, hts, htunread, hruns⟩ := chunk_runs hs hnext c hunread (by omega)
      have htbody : t.body.length = r.body.length + c.data.length := by
        rw [ht]
        exact List.length_append
      have htlimit : t.maxBodySizeLimit = r.maxBodySizeLimit := by rw [ht]
      obtain ⟨u, hu⟩ := ih hts (by rw [ht]; exact hnext) htunread (by omega)
      exact ⟨u, hruns _ hu⟩

/-! ### In pieces -/

/-- A request in the body phase, in front of a chunked body. -/
def HttpRequest.startBody (r : HttpRequest) (limit : Nat) : HttpRequest :=
  { r.freshBody limit [] with contentLength := -1 }

/-- No encoding starts with `b`. -/
def MalformedBody (b : Bytes) : Prop := ∀ c : ChunkedBody, ¬ b <+: c.encode

/-- The calls of `Parse` on the pieces end with an exception that names a status. -/
def Refused (r : HttpRequest) (pieces : List Bytes) : Prop :=
  ∃ status t, (pieces.forM HttpRequest.parse).run r = .error (.responseStatus status) t

theorem startBody_sound {r : HttpRequest} {limit : Nat} (hlimit : NoWrap limit) {s : Bytes}
    (hs : s.length ≤ stringMaxSize) : RequestSound ((r.startBody limit).receive s) where
  pos_le := Nat.zero_le _
  lt_sizeMod := hlimit.lt_sizeMod hs
  length_le := hs
  body_le := le_rfl
  header_pos h := by cases h
  header_next h := by cases h
  data_fits h := absurd rfl h

/-- **However the text is cut into pieces**: they are taken if the decoder waits on all of
it, and refused if it fails. -/
theorem startBody_feeds {r : HttpRequest} {limit : Nat} (hlimit : NoWrap limit)
    (pieces : List Bytes) (hlen : pieces.flatten.length ≤ stringMaxSize)
    {o : Outcome HttpRequest Exception}
    (ho : Runs chunkConsumer ((r.startBody limit).receive pieces.flatten) o) :
    Feeds (fun e => ∃ status, e = .responseStatus status) o
      ((pieces.forM HttpRequest.parse).run (r.startBody limit)) := by
  have hneg : ¬ (r.startBody limit).contentLength ≥ 0 := by
    show ¬ (-1 : Int) ≥ 0
    decide
  have hbody : ∀ s, InChunkedBody ((r.startBody limit).receive s) := fun s =>
    .of_length rfl hneg
  have hstart : RequestSound (r.startBody limit) := by
    have h := startBody_sound (r := r) hlimit (s := []) (Nat.zero_le _)
    rwa [receive_nil] at h
  have hruns := chunk_runs_request ho rfl (hbody _).2.1 (hbody _).2.2
  have hwait : (r.startBody limit).step = .wait := by
    rw [show (r.startBody limit).step = chunkStep (r.startBody limit) from
      (InChunkedBody.of_length rfl hneg).step]
    rfl
  refine forM_push_feeds parse_implements hstart hwait ?_ ?_ ?_ pieces (startBody_sound hlimit hlen)
    hruns
  · intro xs e t h
    exact request_runs_end h
  · intro xs ys t hsound hys h
    rw [show requestConsumer.extend (r.startBody limit) (xs ++ ys) =
      ((r.startBody limit).receive xs).receive ys from (receive_append _ _ _).symm] at hsound ⊢
    have hxs : RequestSound ((r.startBody limit).receive xs) :=
      hstart.of_append (by rw [← receive_append]; exact hsound)
    obtain ⟨u, hu⟩ := chunked_trailing hxs hys hsound (hbody xs) h
    exact ⟨_, u, hu⟩
  · intro xs ys t hsound h
    have hys : ys.length ≤ stringMaxSize := by
      have hle : ([] ++ (xs ++ ys)).length ≤ stringMaxSize := hsound.length_le
      rw [List.nil_append, List.length_append] at hle
      omega
    have hdone : t.state = .kDone := request_runs_end h
    have hbuffer : t.buffer = [] := (hbody xs).finished h
    exact ⟨_, _, parse_of_done hdone (by simpa [hbuffer] using hys), _, rfl⟩

/-! ### What is left waiting -/

theorem MalformedBody.not_nearlyBody {b : Bytes} (hb : MalformedBody b) (c : Byte) :
    ¬ NearlyBody (b ++ [c]) := by
  intro h
  obtain ⟨body, hbody⟩ := h
  rw [List.dropLast_concat] at hbody
  exact hb body hbody

theorem noChunks_encode (chunks : List Chunk) :
    (ChunkedBody.encode { noChunks with chunks := chunks }) =
      (chunks.map Chunk.encode).flatten ++ ([48] ++ CRLF ++ CRLF) := by
  simp [ChunkedBody.encode, noChunks]

/-- A size that is lacking in a malformed text and one byte more is lacking in the text. -/
theorem LacksSize.of_concat {limit : Nat} {b : Bytes} {c : Byte} (hb : MalformedBody b) :
    LacksSize limit (b ++ [c]) ↔ LacksSize limit b := by
  constructor
  · intro h
    obtain ⟨chunks, rest, hsplit, hfit⟩ := h
    rcases List.eq_nil_or_concat rest with rfl | ⟨rest, d, rfl⟩
    · -- without the CR the chunks are complete
      have hchunks : b = (chunks.map Chunk.encode).flatten := (List.append_inj' hsplit rfl).1
      refine absurd ?_ (hb { noChunks with chunks := chunks })
      rw [noChunks_encode, hchunks]
      exact List.prefix_append _ _
    · rw [List.concat_eq_append, ← List.cons_append, ← List.append_assoc] at hsplit
      exact ⟨chunks, rest, (List.append_inj' hsplit rfl).1, hfit⟩
  · intro h
    obtain ⟨chunks, rest, rfl, hfit⟩ := h
    exact ⟨chunks, rest ++ [c], by simp, hfit⟩

/-- **What is left waiting**: a malformed body and one byte more are refused, in any pieces,
unless a CR stands where a size line should be. -/
theorem malformedBody_refused_iff (r : HttpRequest) (limit : Nat) (hlimit : NoWrap limit)
    (b : Bytes) (hb : MalformedBody b) (c : Byte) (hlen : (b ++ [c]).length ≤ stringMaxSize)
    (pieces : List Bytes) (hpieces : pieces.flatten = b ++ [c]) :
    Refused (r.startBody limit) pieces ↔ ¬ LacksSize limit b := by
  have hsound : ChunkSound ((r.startBody limit).receive (b ++ [c])) :=
    (startBody_sound hlimit hlen).toChunkSound
  have hnext : ((r.startBody limit).receive (b ++ [c])).nextChunkSize = -1 := rfl
  have hunread : ((r.startBody limit).receive (b ++ [c])).unread = b ++ [c] := rfl
  have hfeeds : ∀ {o}, Runs chunkConsumer ((r.startBody limit).receive (b ++ [c])) o →
      Feeds (fun e => ∃ status, e = .responseStatus status) o
        ((pieces.forM HttpRequest.parse).run (r.startBody limit)) := by
    intro o ho
    rw [← hpieces] at ho hlen
    exact startBody_feeds hlimit pieces hlen ho
  rw [← LacksSize.of_concat (c := c) hb]
  obtain ⟨o, ho, -⟩ := advanceChunkedBody_runs hsound fun h => absurd hnext h
  constructor
  · intro hrefused hlacks
    obtain ⟨chunks, rest, hsplit, hfit⟩ := hlacks
    obtain ⟨t, ht⟩ := lacksSize_runs chunks hsound hnext (hunread.trans hsplit)
      (by show 0 + _ ≤ limit; omega)
    obtain ⟨status, u, hrun⟩ := hrefused
    have hok : (pieces.forM HttpRequest.parse).run (r.startBody limit) = .ok () t := hfeeds ht
    rw [hrun] at hok
    cases hok
  · intro hlacks
    have hfed := hfeeds ho
    cases o with
    | waiting t =>
        have hawaits := awaits_of_runs hsound ho
        unfold HttpRequest.Awaits at hawaits
        rw [if_pos hnext, hunread] at hawaits
        obtain hnear | hlack := hawaits
        · exact absurd hnear (hb.not_nearlyBody c)
        · exact absurd hlack hlacks
    | finished t =>
        obtain ⟨body, hbody, -⟩ := (if_pos hnext).mp (expects_of_runs hsound (Nat.zero_le _) ho)
        rw [hunread] at hbody
        refine absurd ?_ (hb body)
        rw [← hbody]
        exact List.prefix_append _ _
    | failed e t =>
        obtain ⟨e, u, hrun, status, rfl⟩ := hfed
        exact ⟨status, u, hrun⟩

/-- An encoding starts with a digit. -/
theorem malformedBody_of_head {d : Byte} (hd : isHexDigit d = false) (b : Bytes) :
    MalformedBody (d :: b) := by
  intro c hprefix
  have hhead : ∀ {ds rest : Bytes}, ds ≠ [] → (∀ x ∈ ds, isHexDigit x) →
      ¬ d :: b <+: ds ++ rest := by
    intro ds rest hne hhex h
    obtain ⟨x, xs, rfl⟩ := List.exists_cons_of_ne_nil hne
    have hx : d = x := (List.cons_prefix_cons.mp h).1
    rw [hx, hhex x List.mem_cons_self] at hd
    cases hd
  obtain ⟨chunks, zeros, hne, hzero⟩ := c
  rcases chunks with - | ⟨chunk, chunks⟩
  · have htext : ChunkedBody.encode ⟨[], zeros, hne, hzero⟩ = zeros ++ (CRLF ++ CRLF) := by
      simp [ChunkedBody.encode]
    rw [htext] at hprefix
    refine hhead hne (fun x hx => ?_) hprefix
    rw [hzero x hx]
    decide
  · rw [show ChunkedBody.encode ⟨chunk :: chunks, zeros, hne, hzero⟩
      = chunk.encode ++ ChunkedBody.encode ⟨chunks, zeros, hne, hzero⟩ from
        ChunkedBody.encode_cons chunk ⟨chunks, zeros, hne, hzero⟩, Chunk.encode, List.append_assoc,
      List.append_assoc, List.append_assoc] at hprefix
    exact hhead chunk.digits_ne_nil chunk.isHexDigit_of_mem hprefix

/-- A byte that is no digit, and then anything. -/
theorem malformedBody_refused_letter :
    Refused (HttpRequest.startBody {} 1024) [bytes "G", bytes "x"] ↔ ¬ LacksSize 1024 (bytes "G") :=
  malformedBody_refused_iff {} 1024 (by unfold NoWrap; decide) (bytes "G")
    (malformedBody_of_head (by decide) []) 120 (by decide) _ rfl

/-- A CR, and then anything. -/
theorem malformedBody_refused_fails :
    ¬ ∀ (r : HttpRequest) (limit : Nat), NoWrap limit → ∀ b : Bytes, MalformedBody b → ∀ c : Byte,
      (b ++ [c]).length ≤ stringMaxSize → ∀ pieces : List Bytes, pieces.flatten = b ++ [c] →
      Refused (r.startBody limit) pieces := by
  intro h
  obtain ⟨status, t, hrun⟩ := h {} 1024 (by unfold NoWrap; decide) [CR]
    (malformedBody_of_head (by decide) []) 120 (by decide) [[CR, 120]] rfl
  have hok : (([[CR, 120]] : List Bytes).forM HttpRequest.parse).run
      (HttpRequest.startBody {} 1024) |>.Returned fun _ => True := by decide
  obtain ⟨u, s, hok, -⟩ := hok
  rw [hrun] at hok
  cases hok

end Webserv
