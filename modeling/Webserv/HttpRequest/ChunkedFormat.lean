/-
Webserv/HttpRequest/ChunkedFormat.lean

What the chunk decoder accepts, stated without the decoder.

A chunk is a hexadecimal numeral, CRLF, as many bytes as the numeral says, CRLF.
A chunked body is a sequence of non-empty chunks, a run of zeros, and two CRLFs.
There is no trailer and there are no chunk extensions.  The main result says that
these encodings, up to the size limit, are exactly the inputs on which
`AdvanceChunkedBody` finishes, and that it finishes with the data.
-/
import Webserv.HttpRequest.ChunkRun

namespace Webserv

open Incremental

/-! ### The format -/

/-- A chunk: its size line and its data. -/
structure Chunk where
  digits : Bytes
  data : Bytes
  digits_ne_nil : digits ≠ []
  isHexDigit_of_mem : ∀ c ∈ digits, isHexDigit c
  data_ne_nil : 1 ≤ data.length
  hexVal_digits : hexVal digits = data.length

/-- `h CRLF d CRLF`. -/
def Chunk.encode (c : Chunk) : Bytes := c.digits ++ CRLF ++ c.data ++ CRLF

/-- A chunked body: its chunks and the zeros of the last size line. -/
structure ChunkedBody where
  chunks : List Chunk
  zeros : Bytes
  zeros_ne_nil : zeros ≠ []
  eq_zero_of_mem : ∀ c ∈ zeros, c = 48

namespace ChunkedBody

/-- The bytes on the wire. -/
def encode (b : ChunkedBody) : Bytes :=
  (b.chunks.map Chunk.encode).flatten ++ b.zeros ++ CRLF ++ CRLF

/-- The bytes it stands for. -/
def data (b : ChunkedBody) : Bytes := (b.chunks.map Chunk.data).flatten

/-- `b` with a chunk in front. -/
def cons (c : Chunk) (b : ChunkedBody) : ChunkedBody := { b with chunks := c :: b.chunks }

@[simp] theorem encode_cons (c : Chunk) (b : ChunkedBody) :
    (cons c b).encode = c.encode ++ b.encode := by
  simp [encode, cons]

@[simp] theorem data_cons (c : Chunk) (b : ChunkedBody) :
    (cons c b).data = c.data ++ b.data := by
  simp [data, cons]

end ChunkedBody

/-! ### Zeros -/

theorem hexDigitVal_eq_zero {c : Byte} (hc : isHexDigit c) : hexDigitVal c = 0 ↔ c = 48 := by
  constructor
  · intro h
    obtain ⟨d, hd⟩ := Option.isSome_iff_exists.mp hc
    rw [hexDigitVal, hd, Option.getD_some] at h
    subst h
    unfold hexDigit at hd
    simp only [Bool.and_eq_true, decide_eq_true_eq, UInt8.le_iff_toNat_le] at hd
    split_ifs at hd with h1 h2 h3
    · have h48 : (48 : UInt8).toNat = 48 := rfl
      have hnat : c.toNat = 48 := by
        have := Option.some.inj hd
        omega
      exact UInt8.toNat_inj.mp hnat
    · have := Option.some.inj hd
      omega
    · have := Option.some.inj hd
      omega
  · rintro rfl
    decide

theorem hexVal_eq_zero_iff {ds : Bytes} (hhex : ∀ c ∈ ds, isHexDigit c) :
    hexVal ds = 0 ↔ ∀ c ∈ ds, c = 48 := by
  rw [hexVal, Numeral.value_eq_zero_iff hexDigitVal (by decide)]
  exact forall₂_congr fun c hc => hexDigitVal_eq_zero (hhex c hc)

/-! ### Encodings are accepted -/

theorem HttpRequest.unread_afterSizeLine {r : HttpRequest} {ds rest : Bytes} {size : Nat}
    (h : r.unread = ds ++ CRLF ++ rest) :
    (r.afterSizeLine (ds.length + 2) size).unread = rest := by
  show r.buffer.drop (r.bufferReadPos + (ds.length + 2)) = rest
  rw [← List.drop_drop, show r.buffer.drop r.bufferReadPos = _ from h]
  exact List.drop_left' (by simp)

theorem HttpRequest.unread_afterChunk {r : HttpRequest} {d rest : Bytes}
    (h : r.unread = d ++ CRLF ++ rest) : (r.afterChunk d.length).unread = rest := by
  show r.buffer.drop (r.bufferReadPos + d.length + 2) = rest
  rw [Nat.add_assoc, ← List.drop_drop, show r.buffer.drop r.bufferReadPos = _ from h]
  exact List.drop_left' (by simp)

/-- The size line of a chunk in front of the unread text. -/
theorem chunk_sizeLine {r : HttpRequest} (hs : ChunkSound r) (c : Chunk) {rest : Bytes}
    (hunread : r.unread = c.encode ++ rest) :
    r.unread = c.digits ++ CRLF ++ (c.data ++ CRLF ++ rest) ∧ c.data.length < sizeMod ∧
      sizeLine r.unread = .read (c.digits.length + 2) c.data.length := by
  have hmod := hs.lt_sizeMod
  have hlen := congrArg List.length hunread
  have hlen' : r.unread.length = r.buffer.length - r.bufferReadPos := List.length_drop
  have hlt : c.data.length < sizeMod := by
    simp only [Chunk.encode, List.length_append] at hlen
    omega
  have hsplit : r.unread = c.digits ++ CRLF ++ (c.data ++ CRLF ++ rest) := by
    rw [hunread, Chunk.encode]
    simp
  exact ⟨hsplit, hlt, sizeLine_eq_read.mpr ⟨c.digits, _, hsplit, c.digits_ne_nil,
    c.isHexDigit_of_mem, c.hexVal_digits, hlt, rfl⟩⟩

/-- Two moves read a chunk. -/
theorem chunk_runs {r : HttpRequest} (hs : ChunkSound r) (hnext : r.nextChunkSize = -1)
    (c : Chunk) {rest : Bytes} (hunread : r.unread = c.encode ++ rest)
    (hfit : r.body.length + c.data.length ≤ r.maxBodySizeLimit) :
    ∃ t, t = { r with body := r.body ++ c.data, bufferReadPos := t.bufferReadPos } ∧
      ChunkSound t ∧ t.unread = rest ∧
      ∀ o, Runs chunkConsumer t o → Runs chunkConsumer r o := by
  have hdata := c.data_ne_nil
  obtain ⟨hsplit, hlt, hline⟩ := chunk_sizeLine hs c hunread
  have hfit' : ¬ r.tooLarge c.data.length := not_tooLarge_iff.mpr hfit
  obtain ⟨s, hsdef⟩ : ∃ s, s = r.afterSizeLine (c.digits.length + 2) c.data.length := ⟨_, rfl⟩
  have hstep : chunkStep r = .next s := by
    rw [chunkStep, if_pos hnext, hline]
    subst hsdef
    exact if_neg fun h => hfit' h.2
  have hss : ChunkSound s := hs.next hstep
  have hsunread : s.unread = c.data ++ CRLF ++ rest := by
    subst hsdef
    exact HttpRequest.unread_afterSizeLine hsplit
  have hsnext : s.nextChunkSize = toPtrdiff c.data.length := by rw [hsdef]; rfl
  have hslimit : ¬ s.tooLarge c.data.length := by rw [hsdef]; exact hfit'
  have hstep' : chunkStep s = .next (s.afterChunk c.data.length) := by
    have h1 : toPtrdiff c.data.length ≠ -1 :=
      toPtrdiff_ne (size_lt_of_not_tooLarge hs.toFits fun h => hfit' h.2)
    have h0 : toPtrdiff c.data.length ≠ 0 := fun h => by
      have := (toPtrdiff_eq_zero hlt).mp h
      omega
    have hdrop : s.unread.drop c.data.length = CR :: LF :: rest := by
      rw [hsunread, List.append_assoc, List.drop_left]
      rfl
    rw [chunkStep, hsnext, if_neg h1, dataStep, hsnext, if_neg h0, toSize_toPtrdiff hlt,
      if_neg hslimit, hdrop]
    exact if_pos ⟨rfl, rfl⟩
  refine ⟨s.afterChunk c.data.length, ?_, hss.next hstep',
    HttpRequest.unread_afterChunk hsunread, fun o ho => .next hstep (.next hstep' ho)⟩
  have htake : s.unread.take c.data.length = c.data := by
    rw [hsunread, List.append_assoc, List.take_left]
  rw [HttpRequest.afterChunk, htake, ← hnext]
  subst hsdef
  rfl

/-- Two moves read the last size line and the final CRLF. -/
theorem last_runs {r : HttpRequest} (hnext : r.nextChunkSize = -1)
    {zeros : Bytes} (hne : zeros ≠ []) (hzero : ∀ c ∈ zeros, c = 48)
    (hunread : r.unread = zeros ++ CRLF ++ CRLF) :
    Runs chunkConsumer r (.finished r.afterBody) := by
  have hhex : ∀ c ∈ zeros, isHexDigit c := by
    intro c hc
    rw [hzero c hc]
    decide
  have hval : hexVal zeros = 0 := (hexVal_eq_zero_iff hhex).mpr hzero
  have hline : sizeLine r.unread = .read (zeros.length + 2) 0 :=
    sizeLine_eq_read.mpr ⟨zeros, _, hunread, hne, hhex, hval, by decide, rfl⟩
  have hstep : chunkStep r = .next (r.afterSizeLine (zeros.length + 2) 0) := by
    rw [chunkStep, if_pos hnext, hline]
    exact if_neg fun h => h.1 rfl
  have hunread' : (r.afterSizeLine (zeros.length + 2) 0).unread = CRLF :=
    HttpRequest.unread_afterSizeLine hunread
  have hstep' : chunkStep (r.afterSizeLine (zeros.length + 2) 0) = .done r.afterBody := by
    have h0 : (r.afterSizeLine (zeros.length + 2) 0).nextChunkSize = 0 := rfl
    rw [chunkStep, if_neg (by rw [h0]; decide), dataStep, if_pos h0, hunread']
    rfl
  exact .next hstep (.done hstep')

/-- **Every encoding within the limit decodes to its data.** -/
theorem encode_runs (b : ChunkedBody) {r : HttpRequest} (hs : ChunkSound r)
    (hnext : r.nextChunkSize = -1) (hunread : r.unread = b.encode)
    (hfit : r.body.length + b.data.length ≤ r.maxBodySizeLimit) :
    Runs chunkConsumer r (.finished { r with body := r.body ++ b.data }.afterBody) := by
  obtain ⟨chunks, zeros, hne, hzero⟩ := b
  induction chunks generalizing r with
  | nil =>
      have h := last_runs hnext hne hzero hunread
      simpa [ChunkedBody.data] using h
  | cons c cs ih =>
      have hdata : ChunkedBody.data ⟨c :: cs, zeros, hne, hzero⟩
          = c.data ++ ChunkedBody.data ⟨cs, zeros, hne, hzero⟩ :=
        ChunkedBody.data_cons c ⟨cs, _, _, _⟩
      have hencode : ChunkedBody.encode ⟨c :: cs, zeros, hne, hzero⟩
          = c.encode ++ ChunkedBody.encode ⟨cs, zeros, hne, hzero⟩ :=
        ChunkedBody.encode_cons c ⟨cs, _, _, _⟩
      rw [hdata, List.length_append] at hfit
      rw [hencode] at hunread
      obtain ⟨t, ht, hts, htunread, hruns⟩ := chunk_runs hs hnext c hunread (by omega)
      have htnext : t.nextChunkSize = -1 := by rw [ht]; exact hnext
      have htbody : t.body = r.body ++ c.data := by rw [ht]
      have htlimit : t.maxBodySizeLimit = r.maxBodySizeLimit := by rw [ht]
      have hrest := ih hts htnext htunread (by rw [htbody, htlimit, List.length_append]; omega)
      have hend : ∀ body, ({ t with body := body } : HttpRequest).afterBody
          = ({ r with body := body } : HttpRequest).afterBody := fun body => by rw [ht]; rfl
      rw [htbody, hend, List.append_assoc] at hrest
      rw [hdata]
      exact hruns _ hrest

/-- **Every encoding over the limit is refused** with `kPayloadTooLarge`, at the
size line of the first chunk that does not fit. -/
theorem encode_fails (b : ChunkedBody) {r : HttpRequest} (hs : ChunkSound r)
    (hnext : r.nextChunkSize = -1) (hunread : r.unread = b.encode)
    (hbody : r.body.length ≤ r.maxBodySizeLimit)
    (hbig : r.maxBodySizeLimit < r.body.length + b.data.length) :
    ∃ t, Runs chunkConsumer r (.failed (.responseStatus .kPayloadTooLarge) t) := by
  obtain ⟨chunks, zeros, hne, hzero⟩ := b
  induction chunks generalizing r with
  | nil =>
      simp only [ChunkedBody.data, List.map_nil, List.flatten_nil, List.length_nil] at hbig
      omega
  | cons c cs ih =>
      have hdata : ChunkedBody.data ⟨c :: cs, zeros, hne, hzero⟩
          = c.data ++ ChunkedBody.data ⟨cs, zeros, hne, hzero⟩ :=
        ChunkedBody.data_cons c ⟨cs, _, _, _⟩
      have hencode : ChunkedBody.encode ⟨c :: cs, zeros, hne, hzero⟩
          = c.encode ++ ChunkedBody.encode ⟨cs, zeros, hne, hzero⟩ :=
        ChunkedBody.encode_cons c ⟨cs, _, _, _⟩
      rw [hdata, List.length_append] at hbig
      rw [hencode] at hunread
      by_cases hfit : r.body.length + c.data.length ≤ r.maxBodySizeLimit
      · obtain ⟨t, ht, hts, htunread, hruns⟩ := chunk_runs hs hnext c hunread hfit
        have htbody : t.body = r.body ++ c.data := by rw [ht]
        have htlimit : t.maxBodySizeLimit = r.maxBodySizeLimit := by rw [ht]
        have htlen : t.body.length = r.body.length + c.data.length := by
          rw [htbody, List.length_append]
        obtain ⟨u, hu⟩ := ih hts (by rw [ht]; exact hnext) (by omega) htunread (by omega)
        exact ⟨u, hruns _ hu⟩
      · obtain ⟨-, -, hline⟩ := chunk_sizeLine hs c hunread
        have htooLarge : r.tooLarge c.data.length := by
          by_contra h
          exact hfit (not_tooLarge_iff.mp h)
        have hpos := c.data_ne_nil
        have hstep : chunkStep r = .fail (.responseStatus .kPayloadTooLarge)
            (r.afterSizeLine (c.digits.length + 2) c.data.length) := by
          rw [chunkStep, if_pos hnext, hline]
          exact if_pos ⟨by omega, htooLarge⟩
        exact ⟨_, .fail hstep⟩

/-! ### Nothing else is accepted -/

/-- What the unread text must be for the decoder to finish, in each of its phases. -/
def HttpRequest.Expects (r : HttpRequest) : Prop :=
  if r.nextChunkSize = -1 then
    ∃ b : ChunkedBody, r.unread = b.encode ∧ r.body.length + b.data.length ≤ r.maxBodySizeLimit
  else if r.nextChunkSize = 0 then r.unread = CRLF
  else
    ∃ (d : Bytes) (b : ChunkedBody), d.length = toSize r.nextChunkSize ∧
      r.unread = d ++ CRLF ++ b.encode ∧
      r.body.length + d.length + b.data.length ≤ r.maxBodySizeLimit

theorem dataStep_eq_done {r t : HttpRequest} (h : dataStep r = .done t) :
    r.nextChunkSize = 0 ∧ r.unread = CRLF := by
  unfold dataStep at h
  split_ifs at h with h0 hbig
  · refine ⟨h0, ?_⟩
    rcases hu : r.unread with - | ⟨c, - | ⟨c', rest⟩⟩
    · simp [hu] at h
    · simp [hu] at h
    · simp only [hu] at h
      split_ifs at h with hcr hrest
      obtain ⟨rfl, rfl⟩ := hcr
      rw [hrest]
  · rcases hu : r.unread.drop (toSize r.nextChunkSize) with - | ⟨c, - | ⟨c', rest⟩⟩
    · simp [hu] at h
    · simp [hu] at h
    · simp only [hu] at h
      split_ifs at h

/-- The data of a chunk, and the CRLF behind them. -/
theorem split_of_drop {text rest : Bytes} {n : Nat} (h : text.drop n = CR :: LF :: rest) :
    (text.take n).length = n ∧ text = text.take n ++ CRLF ++ rest := by
  constructor
  · have hlen := congrArg List.length h
    simp only [List.length_drop, List.length_cons] at hlen
    rw [List.length_take]
    omega
  · have htd := List.take_append_drop n text
    rw [h] at htd
    rw [List.append_assoc]
    exact htd.symm

theorem HttpRequest.Expects.before_chunk {r : HttpRequest} {rest : Bytes}
    (hnext : r.nextChunkSize ≠ -1) (h0 : r.nextChunkSize ≠ 0)
    (hdrop : r.unread.drop (toSize r.nextChunkSize) = CR :: LF :: rest)
    (h : (r.afterChunk (toSize r.nextChunkSize)).Expects) : r.Expects := by
  obtain ⟨hlen, hsplit⟩ := split_of_drop hdrop
  have hunread := HttpRequest.unread_afterChunk hsplit
  rw [hlen] at hunread
  unfold HttpRequest.Expects at h ⊢
  rw [if_neg hnext, if_neg h0]
  obtain ⟨b, hb, hfit⟩ := (if_pos rfl).mp h
  rw [hunread] at hb
  refine ⟨_, b, hlen, hb ▸ hsplit, ?_⟩
  have hbody : (r.afterChunk (toSize r.nextChunkSize)).body.length
      = r.body.length + toSize r.nextChunkSize := by
    rw [← hlen]
    simp [HttpRequest.afterChunk, hlen]
  have hlimit : (r.afterChunk (toSize r.nextChunkSize)).maxBodySizeLimit = r.maxBodySizeLimit := rfl
  omega

theorem HttpRequest.Expects.before_sizeLine {r : HttpRequest} {len size : Nat}
    (hs : ChunkSound r) (hbody : r.body.length ≤ r.maxBodySizeLimit)
    (hnext : r.nextChunkSize = -1) (hline : sizeLine r.unread = .read len size)
    (hlimit : ¬ (size ≠ 0 ∧ r.tooLarge size)) (h : (r.afterSizeLine len size).Expects) :
    r.Expects := by
  have hsentinel : toPtrdiff size ≠ -1 := toPtrdiff_ne (size_lt_of_not_tooLarge hs.toFits hlimit)
  obtain ⟨ds, rest, hsplit, hne, hhex, hval, hlt, rfl⟩ := sizeLine_eq_read.mp hline
  have hunread := @HttpRequest.unread_afterSizeLine r ds rest size hsplit
  unfold HttpRequest.Expects at h ⊢
  rw [if_pos hnext]
  rw [if_neg (show (r.afterSizeLine _ size).nextChunkSize ≠ -1 from hsentinel), hunread] at h
  by_cases h0 : size = 0
  · -- the last size line: the numeral is a run of zeros
    subst h0
    have hrest : rest = CRLF := h
    refine ⟨⟨[], ds, hne, (hexVal_eq_zero_iff hhex).mp hval⟩, ?_, ?_⟩
    · rw [hsplit, hrest]
      rfl
    · simpa [ChunkedBody.data] using hbody
  · rw [if_neg (show ¬ (r.afterSizeLine _ size).nextChunkSize = 0 from
      fun h => h0 ((toPtrdiff_eq_zero hlt).mp h))] at h
    obtain ⟨d, b, hd, hrest, hfit⟩ := h
    have hd : d.length = size := hd.trans (toSize_toPtrdiff hlt)
    refine ⟨b.cons ⟨ds, d, hne, hhex, by omega, by omega⟩, ?_, ?_⟩
    · rw [hsplit, hrest, ChunkedBody.encode_cons, Chunk.encode]
      simp
    · rw [ChunkedBody.data_cons, List.length_append]
      have hfit : r.body.length + d.length + b.data.length ≤ r.maxBodySizeLimit := hfit
      show r.body.length + (d.length + b.data.length) ≤ r.maxBodySizeLimit
      omega

/-- **A decoder that finishes has read an encoding within the limit.**  By
induction on its run. -/
theorem expects_of_runs {r t : HttpRequest} (hs : ChunkSound r)
    (hbody : r.body.length ≤ r.maxBodySizeLimit) (h : Runs chunkConsumer r (.finished t)) :
    r.Expects := by
  generalize ho : Outcome.finished (ε := Exception) t = o at h
  induction h with
  | wait => cases ho
  | fail => cases ho
  | @done s t h =>
      have hstep : chunkStep s = .done t := h
      have hnext : s.nextChunkSize ≠ -1 := by
        intro hnext
        rw [chunkStep, if_pos hnext] at hstep
        rcases hline : sizeLine s.unread with - | - | ⟨len, size⟩
        · simp [hline] at hstep
        · simp [hline] at hstep
        · simp only [hline] at hstep
          split_ifs at hstep
      rw [chunkStep, if_neg hnext] at hstep
      obtain ⟨h0, hunread⟩ := dataStep_eq_done hstep
      rwa [HttpRequest.Expects, if_neg hnext, if_pos h0]
  | @next s t o h _ ih =>
      have hstep : chunkStep s = .next t := h
      have hst := hs.next hstep
      obtain ⟨len, size, hnext, hline, hlimit, rfl⟩ | ⟨rest, hnext, h0, hbig, hdrop, rfl⟩ :=
        chunkStep_next hstep
      · exact .before_sizeLine hs hbody hnext hline hlimit (ih hst hbody ho)
      · have hfit := not_tooLarge_iff.mp hbig
        have hbody' : (s.afterChunk (toSize s.nextChunkSize)).body.length
            ≤ s.maxBodySizeLimit := by
          simp only [HttpRequest.afterChunk, List.length_append, List.length_take]
          omega
        exact .before_chunk hnext h0 hdrop (ih hst hbody' ho)

/-! ### The decoder decodes its format -/

/-- `r` at the start of a chunked body `b`, under the limit `limit`. -/
def HttpRequest.freshBody (r : HttpRequest) (limit : Nat) (b : Bytes) : HttpRequest :=
  { r with
    buffer := b, bufferReadPos := 0, state := .kBody, body := [], nextChunkSize := -1,
    maxBodySizeLimit := limit }

theorem freshBody_sound {r : HttpRequest} {limit : Nat} {b : Bytes} (hlimit : limit ≤ 100000000)
    (hb : b.length ≤ stringMaxSize) : ChunkSound (r.freshBody limit b) := by
  refine ⟨⟨Nat.zero_le _, ?_⟩, hb, le_rfl⟩
  show b.length + limit + 2 < sizeMod
  unfold stringMaxSize at hb
  unfold sizeMod
  omega

/-- **The chunk decoder accepts exactly its format**, and decodes it. -/
theorem advanceChunkedBody_kDone_iff (r : HttpRequest) (limit : Nat) (hlimit : limit ≤ 100000000)
    (b : Bytes) (hb : b.length ≤ stringMaxSize) :
    ((advanceChunkedBody.run (r.freshBody limit b)).state.state = .kDone ↔
        ∃ c : ChunkedBody, b = c.encode ∧ c.data.length ≤ limit) ∧
      ∀ c : ChunkedBody, b = c.encode → c.data.length ≤ limit →
        advanceChunkedBody.run (r.freshBody limit b) =
          .ok true { (r.freshBody limit b) with body := c.data, buffer := [], state := .kDone } := by
  have hs : ChunkSound (r.freshBody limit b) := freshBody_sound hlimit hb
  obtain ⟨o, ho, hrun⟩ := advanceChunkedBody_runs hs fun h => absurd rfl h
  have hdecode : ∀ c : ChunkedBody, b = c.encode → c.data.length ≤ limit →
      advanceChunkedBody.run (r.freshBody limit b) =
        .ok true { (r.freshBody limit b) with body := c.data, buffer := [], state := .kDone } := by
    intro c hc hfit
    have hruns := encode_runs c hs rfl hc (show 0 + c.data.length ≤ limit by omega)
    rw [hrun, ho.det hruns]
    rfl
  refine ⟨⟨fun hdone => ?_, fun ⟨c, hc, hfit⟩ => ?_⟩, hdecode⟩
  · rw [hrun] at hdone
    have hfinished : ∃ t, o = .finished t := by
      refine (chunk_runs_state ho).resolve_right fun hstate => ?_
      have hstate : o.result.state.state = .kBody := hstate
      rcases o with s | s | ⟨e, s⟩
      · exact nomatch hdone.symm.trans hstate
      · exact nomatch hdone.symm.trans hstate
      · exact nomatch hdone.symm.trans hstate
    obtain ⟨t, rfl⟩ := hfinished
    obtain ⟨c, hc, hfit⟩ := (if_pos rfl).mp (expects_of_runs hs (Nat.zero_le _) ho)
    refine ⟨c, hc, ?_⟩
    have hfit : 0 + c.data.length ≤ limit := hfit
    omega
  · rw [hdecode c hc hfit]
    rfl

/-- One chunk with a leading zero in its size, and two zeros at the end. -/
theorem advanceChunkedBody_kDone_one_chunk :
    (advanceChunkedBody.run
      (HttpRequest.freshBody {} 1024 (bytes "03\r\nabc\r\n00\r\n\r\n"))).state.state = .kDone :=
  (advanceChunkedBody_kDone_iff {} 1024 (by decide) (bytes "03\r\nabc\r\n00\r\n\r\n")
    (by decide)).1.mpr
    ⟨⟨[⟨bytes "03", bytes "abc", by decide, by decide +kernel, by decide, by decide +kernel⟩],
      bytes "00", by decide, by decide +kernel⟩, by decide +kernel, by decide⟩

end Webserv
