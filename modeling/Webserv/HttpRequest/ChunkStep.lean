/-
Webserv/HttpRequest/ChunkStep.lean

The chunk decoder without its machine arithmetic.

The helpers of `AdvanceChunkedBody` compute with `size_t` positions in the
buffer.  As long as the buffer and the limit together stay below the modulus of
`size_t` (`Fits`), no addition wraps, and each helper is a function of the
unread text `r.buffer.drop r.bufferReadPos` alone.  `chunkStep` puts these
together: one move of the decoder, reading a size line, the data of a chunk, or
the final CRLF.
-/
import Webserv.HttpRequest.Body
import Webserv.Theory.Incremental

namespace Webserv

open Incremental

/-! ### Hexadecimal numerals -/

/-- A hexadecimal digit, of either case. -/
def isHexDigit (c : Byte) : Bool := (hexDigit c).isSome

/-- The value of a hexadecimal digit. -/
def hexDigitVal (c : Byte) : Nat := (hexDigit c).getD 0

/-- The value of a run of hexadecimal digits. -/
def hexVal (ds : Bytes) : Nat := Numeral.value 16 hexDigitVal ds

@[simp] theorem isHexDigit_CR : isHexDigit CR = false := by decide

theorem hexDigit_lt {c : Byte} {d : Nat} (h : hexDigit c = some d) : d < 16 := by
  unfold hexDigit at h
  simp only [Bool.and_eq_true, decide_eq_true_eq, UInt8.le_iff_toNat_le] at h
  split_ifs at h with h1 h2 h3 <;> cases h
  · have : c.toNat ≤ 57 := h1.2
    omega
  · have : c.toNat ≤ 102 := h2.2
    omega
  · have : c.toNat ≤ 70 := h3.2
    omega

theorem hexDigit_eq_none {c : Byte} (h : isHexDigit c = false) : hexDigit c = none := by
  simpa [isHexDigit] using h

theorem hexDigit_eq_some {c : Byte} (h : isHexDigit c = true) :
    hexDigit c = some (hexDigitVal c) := by
  obtain ⟨d, hd⟩ := Option.isSome_iff_exists.mp h
  simp [hexDigitVal, hd]

theorem hexDigitVal_lt (c : Byte) : hexDigitVal c < 16 := by
  rcases h : hexDigit c with - | d
  · simp [hexDigitVal, h]
  · simpa [hexDigitVal, h] using hexDigit_lt h

/-! ### The size line -/

/-- One iteration of `ParseChunkSize` on a digit: it throws exactly if the new
value does not fit, and computes it otherwise. -/
theorem shift_digit {n d : Nat} (hd : d < 16) (hn : n < sizeMod) :
    (n > kMaxBeforeShift ↔ sizeMod ≤ n * 16 + d) ∧
      (¬ n > kMaxBeforeShift → addSize (n <<< 4 % sizeMod) d = n * 16 + d) := by
  have hk : kMaxBeforeShift = 2 ^ 60 - 1 := by decide
  have hshift : n <<< 4 = n * 16 := by rw [Nat.shiftLeft_eq]
  rw [hk, hshift]
  unfold addSize sizeMod at *
  constructor
  · omega
  · intro h
    rw [Nat.mod_eq_of_lt (by omega), Nat.mod_eq_of_lt (by omega)]

theorem scanChunkSize_eq (text : Bytes) (pos n : Nat) (saw : Bool) (hn : n < sizeMod) :
    scanChunkSize text pos n saw =
      let ds := text.takeWhile isHexDigit
      if sizeMod ≤ Numeral.valueFrom 16 hexDigitVal n ds then
        .error (.responseStatus .kBadRequest)
      else
        match text.dropWhile isHexDigit with
        | [] => .ok (pos + ds.length, Numeral.valueFrom 16 hexDigitVal n ds, saw || ds ≠ [])
        | c :: _ =>
            if c = CR then
              .ok (pos + ds.length, Numeral.valueFrom 16 hexDigitVal n ds, saw || ds ≠ [])
            else .error (.responseStatus .kBadRequest) := by
  induction text generalizing pos n saw with
  | nil => simp [scanChunkSize, hn]
  | cons c cs ih =>
      rcases hc : isHexDigit c with - | -
      · -- the run of digits ends here
        have hn' : ¬ sizeMod ≤ n := by omega
        by_cases hcr : c = CR
        · subst hcr
          simp [scanChunkSize, List.takeWhile, List.dropWhile, hn']
        · simp [scanChunkSize, List.takeWhile, List.dropWhile, hc, hcr, hexDigit_eq_none hc, hn']
      · have hcr : c ≠ CR := by
          rintro rfl
          simp at hc
        obtain ⟨hover, hval⟩ := shift_digit (hexDigitVal_lt c) hn
        by_cases hbig : n > kMaxBeforeShift
        · have hle : sizeMod ≤ Numeral.valueFrom 16 hexDigitVal (n * 16 + hexDigitVal c)
              (cs.takeWhile isHexDigit) :=
            (hover.mp hbig).trans (Numeral.le_valueFrom hexDigitVal (by decide) _ _)
          simp [scanChunkSize, List.takeWhile, hc, hcr, hexDigit_eq_some hc, hbig, hle]
        · have hlt : n * 16 + hexDigitVal c < sizeMod := by
            by_contra h
            exact hbig (hover.mpr (by omega))
          simp only [scanChunkSize, if_neg hcr, hexDigit_eq_some hc, if_neg hbig, hval hbig,
            ih (pos + 1) _ true hlt]
          simp [List.takeWhile, List.dropWhile, hc, Nat.add_assoc, Nat.add_comm 1]

/-- What `ParseChunkSize` makes of the unread text. -/
inductive SizeLine
  | needMore
  | malformed
  | read (len size : Nat)

/-- The reading of a size line.  A line that starts with CR is neither read nor
refused. -/
def sizeLine (text : Bytes) : SizeLine :=
  let ds := text.takeWhile isHexDigit
  if sizeMod ≤ hexVal ds then .malformed
  else
    match text.dropWhile isHexDigit with
    | [] => .needMore
    | c :: rest =>
        if c ≠ CR then .malformed
        else if ds = [] then .needMore
        else
          match rest with
          | [] => .needMore
          | c' :: _ => if c' = LF then .read (ds.length + 2) (hexVal ds) else .malformed

/-! ### The closed forms -/

/-- No `size_t` addition of the decoder wraps. -/
structure Fits (r : HttpRequest) : Prop where
  pos_le : r.bufferReadPos ≤ r.buffer.length
  lt_sizeMod : r.buffer.length + r.maxBodySizeLimit + 2 < sizeMod

/-- A limit under which no chunk size wraps, however full the buffer is. -/
def NoWrap (limit : Nat) : Prop := limit + 2 ≤ stringMaxSize

theorem NoWrap.lt_sizeMod {limit : Nat} (h : NoWrap limit) {n : Nat} (hn : n ≤ stringMaxSize) :
    n + limit + 2 < sizeMod := by
  unfold NoWrap stringMaxSize at *
  unfold sizeMod
  omega

/-- The bytes of the buffer the decoder has not read. -/
def HttpRequest.unread (r : HttpRequest) : Bytes := r.buffer.drop r.bufferReadPos

theorem getD_eq_getD_drop (s : Bytes) (i j : Nat) : s.getD (i + j) 0 = (s.drop i).getD j 0 := by
  simp [List.getD_eq_getElem?_getD]

theorem validateAndSkipCRLF_run (r : HttpRequest) {pos : Nat} (hpos : pos ≤ r.buffer.length)
    (hlt : r.buffer.length + 2 < sizeMod) :
    (validateAndSkipCRLF pos).run r =
      match r.buffer.drop pos with
      | c :: c' :: _ =>
          if c = CR ∧ c' = LF then .ok (some (pos + 2)) r
          else .error (.responseStatus .kBadRequest) r
      | _ => .ok none r := by
  have h1 : addSize pos 1 = pos + 1 := addSize_of_lt (by omega)
  have h2 : addSize pos 2 = pos + 2 := addSize_of_lt (by omega)
  have hlen : (r.buffer.drop pos).length = r.buffer.length - pos := List.length_drop
  have hc0 : r.buffer.getD pos 0 = (r.buffer.drop pos).getD 0 0 := getD_eq_getD_drop _ pos 0
  have hc1 : r.buffer.getD (pos + 1) 0 = (r.buffer.drop pos).getD 1 0 :=
    getD_eq_getD_drop _ pos 1
  simp only [validateAndSkipCRLF, EStateM.run_bind, EStateM.run_get, EStateM.run_ite, h1, h2,
    hc0, hc1]
  rcases hd : r.buffer.drop pos with - | ⟨c, - | ⟨c', rest⟩⟩
  · simp only [hd, List.length_nil] at hlen
    simp [show r.buffer.length ≤ pos + 1 by omega]
  · simp only [hd, List.length_singleton] at hlen
    simp [show r.buffer.length ≤ pos + 1 by omega]
  · simp only [hd, List.length_cons] at hlen
    simp only [ge_iff_le, show ¬ r.buffer.length ≤ pos + 1 by omega, if_false]
    by_cases hc : c = CR <;> by_cases hc' : c' = LF <;> simp [hc, hc']

theorem parseChunkSize_run {r : HttpRequest} (h : Fits r) :
    (parseChunkSize r.bufferReadPos).run r =
      match sizeLine r.unread with
      | .needMore => .ok none r
      | .malformed => .error (.responseStatus .kBadRequest) r
      | .read len size => .ok (some (r.bufferReadPos + len, size)) r := by
  have hpos := h.pos_le
  have hmod := h.lt_sizeMod
  have hsplit : r.unread.takeWhile isHexDigit ++ r.unread.dropWhile isHexDigit = r.unread :=
    List.takeWhile_append_dropWhile
  have hlen : r.unread.length = r.buffer.length - r.bufferReadPos := List.length_drop
  have hdrop : r.buffer.drop (r.bufferReadPos + (r.unread.takeWhile isHexDigit).length)
      = r.unread.dropWhile isHexDigit := by
    have hd := congrArg (List.drop (r.unread.takeWhile isHexDigit).length) hsplit
    rw [List.drop_left] at hd
    rw [← List.drop_drop]
    exact hd.symm
  have hle : (r.unread.takeWhile isHexDigit).length ≤ r.unread.length :=
    (List.takeWhile_prefix _).length_le
  have hscan := scanChunkSize_eq r.unread r.bufferReadPos 0 false (by decide)
  have hskip := @validateAndSkipCRLF_run r
    (r.bufferReadPos + (r.unread.takeWhile isHexDigit).length) (by omega) (by omega)
  rw [hdrop] at hskip
  simp only [parseChunkSize, EStateM.run_bind, EStateM.run_get, sizeLine]
  rw [show r.buffer.drop r.bufferReadPos = r.unread from rfl]
  rw [hscan]
  simp only [hexVal, Numeral.value]
  -- a size of 2⁶⁴ or more is refused by the scan, before the line end is looked at
  by_cases hover : sizeMod ≤ Numeral.valueFrom 16 hexDigitVal 0 (r.unread.takeWhile isHexDigit)
  · simp [hover]
  · have hzero : ¬ sizeMod = 0 := by decide
    simp only [if_neg hover]
    rcases hrest : r.unread.dropWhile isHexDigit with - | ⟨c, rest⟩
    · rw [hrest] at hskip
      by_cases hds : r.unread.takeWhile isHexDigit = []
      · simp [hds, hzero]
      · simp [hds, hskip, hover]
    · rw [hrest] at hskip
      by_cases hc : c = CR
      · by_cases hds : r.unread.takeWhile isHexDigit = []
        · simp [hds, hc, hzero]
        · rcases rest with - | ⟨c', rest⟩
          · simp [hds, hc, hskip, hover]
          · by_cases hc' : c' = LF
            · simp [hds, hc, hc', hskip, hover, Nat.add_assoc]
            · simp [hds, hc, hc', hskip, hover]
      · simp [hc, hover]

/-- The size the decoder has read does not fit the limit any more. -/
def HttpRequest.tooLarge (r : HttpRequest) (size : Nat) : Prop :=
  size > r.maxBodySizeLimit ∨ r.body.length > r.maxBodySizeLimit - size

instance (r : HttpRequest) (size : Nat) : Decidable (r.tooLarge size) :=
  inferInstanceAs (Decidable (_ ∨ _))

theorem not_tooLarge_iff {r : HttpRequest} {size : Nat} :
    ¬ r.tooLarge size ↔ r.body.length + size ≤ r.maxBodySizeLimit := by
  unfold HttpRequest.tooLarge
  omega

/-- The decoder behind the data and the CRLF of a chunk. -/
def HttpRequest.afterChunk (r : HttpRequest) (size : Nat) : HttpRequest :=
  { r with
    body := r.body ++ r.unread.take size
    bufferReadPos := r.bufferReadPos + size + 2
    nextChunkSize := -1 }

/-- The decoder behind the final CRLF. -/
def HttpRequest.afterBody (r : HttpRequest) : HttpRequest :=
  { r with buffer := [], bufferReadPos := 0, nextChunkSize := -1, state := .kDone }

/-- The states in which the decoder runs.  What it has decoded it has read from
the buffer, so the body is no longer than the part of the buffer behind it. -/
structure ChunkSound (r : HttpRequest) : Prop extends Fits r where
  length_le : r.buffer.length ≤ stringMaxSize
  body_le : r.body.length ≤ r.bufferReadPos

/-- A chunk within the limit, with its data there, does not make the body too long. -/
def HttpRequest.HasRoom (r : HttpRequest) : Prop :=
  ∀ size, ¬ r.tooLarge size → size + 2 ≤ r.unread.length → r.body.length + size ≤ stringMaxSize

theorem ChunkSound.hasRoom {r : HttpRequest} (h : ChunkSound r) : r.HasRoom := by
  intro size _ hdata
  have hbody := h.body_le
  have hmax := h.length_le
  have hpos := h.pos_le
  have hlen : r.unread.length = r.buffer.length - r.bufferReadPos := List.length_drop
  omega

theorem appendChunkData_tooLarge {r : HttpRequest} (h : Fits r) {pos size : Nat}
    (hbig : r.tooLarge size) :
    (appendChunkData pos size).run r = .error (.responseStatus .kPayloadTooLarge) r := by
  have hlimit : size > r.maxBodySizeLimit ∨
      r.body.length > subSize r.maxBodySizeLimit size := by
    have hmod := h.lt_sizeMod
    rcases hbig with hbig | hbig
    · exact .inl hbig
    · rcases Nat.lt_or_ge r.maxBodySizeLimit size with hlt | hge
      · exact .inl hlt
      · exact .inr (by rwa [subSize_of_le hge (by omega)])
  simp only [appendChunkData, EStateM.run_bind, EStateM.run_get, if_pos hlimit, run_throwStatus]

theorem appendChunkData_run {r : HttpRequest} (h : Fits r) (hroom : r.HasRoom) {size : Nat}
    (hfit : ¬ r.tooLarge size) :
    (appendChunkData r.bufferReadPos size).run r =
      let r' := { r with body := r.body ++ r.unread.take size }
      match r.unread.drop size with
      | c :: c' :: _ =>
          if c = CR ∧ c' = LF then .ok (some (r.bufferReadPos + size + 2)) r'
          else .error (.responseStatus .kBadRequest) r'
      | _ => .ok none r := by
  have hpos := h.pos_le
  have hmod := h.lt_sizeMod
  have hle := not_tooLarge_iff.mp hfit
  have hsub : subSize r.maxBodySizeLimit size = r.maxBodySizeLimit - size :=
    subSize_of_le (by omega) (by omega)
  have h2 : addSize size 2 = size + 2 := addSize_of_lt (by omega)
  have hlen : r.unread.length = r.buffer.length - r.bufferReadPos := List.length_drop
  have hlen' : (r.unread.drop size).length = r.unread.length - size := List.length_drop
  have hlimit : ¬ (size > r.maxBodySizeLimit ∨ r.body.length > r.maxBodySizeLimit - size) := hfit
  simp only [appendChunkData, EStateM.run_bind, EStateM.run_get, EStateM.run_ite, hsub,
    if_neg hlimit, h2]
  have hpos2 : addSize r.bufferReadPos (size + 2) = r.bufferReadPos + (size + 2) :=
    addSize_of_lt (by omega)
  rw [hpos2]
  -- whether the data and its CRLF have come; nothing is appended before they have
  by_cases hneed : r.unread.length < size + 2
  · have hmore : r.bufferReadPos + (size + 2) > r.buffer.length := by omega
    rw [if_pos hmore]
    rcases hd : r.unread.drop size with - | ⟨c, - | ⟨c', rest⟩⟩
    · rfl
    · rfl
    · rw [hd] at hlen'
      simp only [List.length_cons] at hlen'
      omega
  · have hmore : ¬ r.bufferReadPos + (size + 2) > r.buffer.length := by omega
    rw [if_neg hmore, if_neg (by omega)]
    have htake : (r.unread.take size).length = size := by
      rw [List.length_take]; omega
    have happ : stringAppend r.body ((r.buffer.drop r.bufferReadPos).take size)
        = .ok (r.body ++ r.unread.take size) := by
      refine if_pos ?_
      rw [show (r.buffer.drop r.bufferReadPos).take size = r.unread.take size from rfl, htake]
      exact hroom size hfit (by omega)
    have hskip := @validateAndSkipCRLF_run { r with body := r.body ++ r.unread.take size }
      (r.bufferReadPos + size) (by show _ ≤ r.buffer.length; omega)
      (by show r.buffer.length + 2 < _; omega)
    simp only [happ, run_call_ok, EStateM.run_modify,
      addSize_of_lt (show r.bufferReadPos + size < sizeMod by omega), hskip]
    rw [← List.drop_drop, show (r.buffer.drop r.bufferReadPos).drop size = r.unread.drop size from rfl]
    rcases hd : r.unread.drop size with - | ⟨c, - | ⟨c', rest⟩⟩
    · simp only [hd, List.length_nil] at hlen'
      omega
    · simp only [hd, List.length_singleton] at hlen'
      omega
    · rfl

theorem validateFinalCRLF_run {r : HttpRequest} (h : Fits r) :
    validateFinalCRLF.run r =
      match r.unread with
      | c :: c' :: rest =>
          if c = CR ∧ c' = LF then
            if rest = [] then
              .ok true { r with
                buffer := [], bufferReadPos := r.bufferReadPos + 2, state := .kDone }
            else
              .error (.responseStatus .kBadRequest) { r with bufferReadPos := r.bufferReadPos + 2 }
          else .error (.responseStatus .kBadRequest) r
      | _ => .ok false r := by
  have hpos := h.pos_le
  have hmod := h.lt_sizeMod
  have hlen : r.unread.length = r.buffer.length - r.bufferReadPos := List.length_drop
  have hskip := validateAndSkipCRLF_run r hpos (by omega)
  rw [show r.buffer.drop r.bufferReadPos = r.unread from rfl] at hskip
  simp only [validateFinalCRLF, EStateM.run_bind, EStateM.run_get,
    if_neg (show ¬ r.bufferReadPos > r.buffer.length by omega), hskip]
  rcases hu : r.unread with - | ⟨c, - | ⟨c', rest⟩⟩
  · rfl
  · rfl
  · by_cases hcr : c = CR ∧ c' = LF
    · have hrest : r.bufferReadPos + 2 ≠ r.buffer.length ↔ rest ≠ [] := by
        rw [hu] at hlen
        simp only [List.length_cons] at hlen
        rw [← List.length_pos_iff]
        omega
      by_cases hr : rest = []
      · have hpos2 : ¬ r.bufferReadPos + 2 ≠ r.buffer.length := fun hne => hrest.mp hne hr
        simp only [if_pos hcr, EStateM.run_bind, EStateM.run_modify, if_neg hpos2, if_pos hr]
        rfl
      · simp only [if_pos hcr, EStateM.run_bind, EStateM.run_modify, if_pos (hrest.mpr hr),
          if_neg hr]
        rfl
    · simp [hcr]

/-! ### The step function -/

/-- The decoder behind a size line of `len` bytes. -/
def HttpRequest.afterSizeLine (r : HttpRequest) (len size : Nat) : HttpRequest :=
  { r with bufferReadPos := r.bufferReadPos + len, nextChunkSize := toPtrdiff size }

/-- The move of a decoder that has read a size line. -/
def dataStep (r : HttpRequest) : Move HttpRequest Exception :=
  if r.nextChunkSize = 0 then
    match r.unread with
    | c :: c' :: rest =>
        if c = CR ∧ c' = LF then
          if rest = [] then .done r.afterBody
          else .fail (.responseStatus .kBadRequest) { r with bufferReadPos := r.bufferReadPos + 2 }
        else .fail (.responseStatus .kBadRequest) r
    | _ => .wait
  else if r.tooLarge (toSize r.nextChunkSize) then .fail (.responseStatus .kPayloadTooLarge) r
  else
    match r.unread.drop (toSize r.nextChunkSize) with
    | c :: c' :: _ =>
        if c = CR ∧ c' = LF then .next (r.afterChunk (toSize r.nextChunkSize))
        else
          .fail (.responseStatus .kBadRequest)
            { r with body := r.body ++ r.unread.take (toSize r.nextChunkSize) }
    | _ => .wait

/-- **One move of the chunk decoder.**  A size over the limit is refused with its
size line: from 2^63 on it would not survive as a `ptrdiff_t`, and 2^64 - 1 would
come back as the -1 that asks for a size line. -/
def chunkStep (r : HttpRequest) : Move HttpRequest Exception :=
  if r.nextChunkSize = -1 then
    match sizeLine r.unread with
    | .needMore => .wait
    | .malformed => .fail (.responseStatus .kBadRequest) r
    | .read len size =>
        if size ≠ 0 ∧ r.tooLarge size then
          .fail (.responseStatus .kPayloadTooLarge) (r.afterSizeLine len size)
        else .next (r.afterSizeLine len size)
  else dataStep r

/-- The value and state `consumeChunk` ends with. -/
def consumeResult (r : HttpRequest) :
    Move HttpRequest Exception → EStateM.Result Exception HttpRequest (Option Bool)
  | .next t => .ok none t
  | .wait => .ok (some false) r
  | .done t => .ok (some true) t
  | .fail e t => .error e t

theorem consumeChunk_run {r : HttpRequest} (h : Fits r) (hroom : r.HasRoom) :
    consumeChunk.run r = consumeResult r (dataStep r) := by
  unfold consumeChunk dataStep
  simp only [EStateM.run_bind, EStateM.run_get, EStateM.run_ite]
  by_cases h0 : r.nextChunkSize = 0
  · simp only [if_pos h0, validateFinalCRLF_run h]
    rcases r.unread with - | ⟨c, - | ⟨c', rest⟩⟩
    · rfl
    · rfl
    · by_cases hcr : c = CR ∧ c' = LF
      · by_cases hr : rest = []
        · simp only [if_pos hcr, if_pos hr]
          rfl
        · simp only [if_pos hcr, if_neg hr]
          rfl
      · simp only [if_neg hcr]
        rfl
  · simp only [if_neg h0]
    by_cases hbig : r.tooLarge (toSize r.nextChunkSize)
    · simp only [if_pos hbig, appendChunkData_tooLarge h hbig]
      rfl
    · simp only [if_neg hbig, appendChunkData_run h hroom hbig]
      rcases r.unread.drop (toSize r.nextChunkSize) with - | ⟨c, - | ⟨c', rest⟩⟩
      · rfl
      · rfl
      · by_cases hcr : c = CR ∧ c' = LF
        · simp only [if_pos hcr]
          rfl
        · simp only [if_neg hcr]
          rfl

/-! ### More text -/

theorem takeWhile_append_of_dropWhile {text rest : Bytes} {p : Byte → Bool} {c : Byte}
    (h : text.dropWhile p = c :: rest) (xs : Bytes) :
    (text ++ xs).takeWhile p = text.takeWhile p ∧
      (text ++ xs).dropWhile p = c :: (rest ++ xs) := by
  induction text with
  | nil => cases h
  | cons b bs ih =>
      by_cases hb : p b = true
      · rw [List.dropWhile_cons_of_pos hb] at h
        obtain ⟨h1, h2⟩ := ih h
        simp [hb, h1, h2]
      · rw [List.dropWhile_cons_of_neg hb] at h
        cases h
        simp [hb]

/-- **A size line that has been read or refused stays so** when more text follows. -/
theorem sizeLine_append {text : Bytes} (h : sizeLine text ≠ .needMore) (xs : Bytes) :
    sizeLine (text ++ xs) = sizeLine text := by
  rcases hrest : text.dropWhile isHexDigit with - | ⟨c, rest⟩
  · -- the digits reach the end of the text, so they must already be too many
    have hall : text.takeWhile isHexDigit = text := by
      have hsplit := List.takeWhile_append_dropWhile (p := isHexDigit) (l := text)
      rwa [hrest, List.append_nil] at hsplit
    have hover : sizeMod ≤ hexVal text := by
      by_contra hlt
      exact h (by simp [sizeLine, hall, hlt, hrest])
    have hmore : (text ++ xs).takeWhile isHexDigit = text ++ xs.takeWhile isHexDigit := by
      rw [List.takeWhile_append, hall, if_pos rfl]
    have hover' : sizeMod ≤ hexVal (text ++ xs.takeWhile isHexDigit) := by
      calc sizeMod ≤ hexVal text := hover
        _ ≤ Numeral.valueFrom 16 hexDigitVal (hexVal text) (xs.takeWhile isHexDigit) :=
            Numeral.le_valueFrom hexDigitVal (by decide) _ _
        _ = hexVal (text ++ xs.takeWhile isHexDigit) :=
            (Numeral.valueFrom_append 16 hexDigitVal 0 text _).symm
    simp [sizeLine, hall, hover, hmore, hover']
  · obtain ⟨htake, hdrop⟩ := takeWhile_append_of_dropWhile hrest xs
    simp only [sizeLine, htake, hdrop, hrest] at h ⊢
    rcases rest with - | ⟨c', rest⟩
    · split_ifs at h ⊢ with hover hcr hds
      · rfl
      · rfl
      · exact absurd rfl h
      · exact absurd rfl h
    · rfl

/-- What a size line that has been read looks like. -/
theorem sizeLine_eq_read {text : Bytes} {len size : Nat} :
    sizeLine text = .read len size ↔
      ∃ ds rest, text = ds ++ CRLF ++ rest ∧ ds ≠ [] ∧ (∀ c ∈ ds, isHexDigit c) ∧
        hexVal ds = size ∧ size < sizeMod ∧ len = ds.length + 2 := by
  constructor
  · intro h
    have hsplit := List.takeWhile_append_dropWhile (p := isHexDigit) (l := text)
    rcases hrest : text.dropWhile isHexDigit with - | ⟨c, - | ⟨c', rest⟩⟩
    · simp only [sizeLine, hrest] at h
      split_ifs at h
    · simp only [sizeLine, hrest] at h
      split_ifs at h
    · simp only [sizeLine, hrest] at h
      rw [hrest] at hsplit
      split_ifs at h with hover hcr hds hlf
      cases h
      rw [not_not] at hcr
      subst hcr hlf
      refine ⟨text.takeWhile isHexDigit, rest, ?_, hds, fun c hc => ?_, rfl, by omega, rfl⟩
      · rw [List.append_assoc]
        exact hsplit.symm
      · exact List.mem_takeWhile_imp hc
  · rintro ⟨ds, rest, rfl, hne, hhex, rfl, hlt, rfl⟩
    have htake : (ds ++ CRLF ++ rest).takeWhile isHexDigit = ds := by
      rw [List.append_assoc, List.takeWhile_append_of_pos hhex]
      simp
    have hdrop : (ds ++ CRLF ++ rest).dropWhile isHexDigit = CRLF ++ rest := by
      rw [List.append_assoc, List.dropWhile_append_of_pos hhex]
      simp
    simp only [sizeLine, htake, hdrop, if_neg hne, if_neg (show ¬ sizeMod ≤ hexVal ds by omega)]
    rfl

theorem sizeLine_read_bounds {text : Bytes} {len size : Nat}
    (h : sizeLine text = .read len size) : 0 < len ∧ len ≤ text.length ∧ size < sizeMod := by
  obtain ⟨ds, rest, rfl, -, -, -, hlt, rfl⟩ := sizeLine_eq_read.mp h
  refine ⟨by omega, ?_, hlt⟩
  simp only [List.length_append, List.length_cons, List.length_nil]
  omega

end Webserv
