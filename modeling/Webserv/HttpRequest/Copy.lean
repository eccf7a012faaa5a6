/-
Webserv/HttpRequest/Copy.lean

The two ways to copy a request.

`operator=` assigns every member.  The copy constructor initialises every member but one:
`max_body_size_limit_` has no initialiser, and a `size_t` without one holds an indeterminate
value.  So an assigned request is the original, a constructed one is the original under another
limit, and the two are told apart by a body whose length lies between the limits.  The only
place that copies a request hands the copy to a handler, which reads no limit.
-/
import Webserv.HttpRequest.BodyLimit
import Webserv.HttpRequest.HeadPhase
import Webserv.RequestHandler
import Webserv.Theory.Loops

namespace Webserv

namespace HttpRequest

/-! ### The members -/

/-- `SetMaxBodySizeLimit(bytes)`. -/
def setMaxBodySizeLimit (r : HttpRequest) (size : Nat) : HttpRequest :=
  { r with maxBodySizeLimit := size }

/-- `HttpRequest(const HttpRequest& src)`.  The member without an initialiser holds
`indeterminate`. -/
def copyConstruct (src : HttpRequest) (indeterminate : Nat) : HttpRequest where
  buffer := src.buffer
  bufferReadPos := src.bufferReadPos
  state := src.state
  method := src.method
  uri := src.uri
  queryString := src.queryString
  hostName := src.hostName
  hostPort := src.hostPort
  version := src.version
  headers := src.headers
  body := src.body
  contentLength := src.contentLength
  nextChunkSize := src.nextChunkSize
  keepAlive := src.keepAlive
  clientIp := src.clientIp
  maxBodySizeLimit := indeterminate

/-- `operator=(const HttpRequest& src)`, on another object than `src`. -/
def assign (r src : HttpRequest) : HttpRequest :=
  { r with
    buffer := src.buffer
    bufferReadPos := src.bufferReadPos
    state := src.state
    method := src.method
    uri := src.uri
    queryString := src.queryString
    hostName := src.hostName
    hostPort := src.hostPort
    version := src.version
    headers := src.headers
    body := src.body
    contentLength := src.contentLength
    nextChunkSize := src.nextChunkSize
    keepAlive := src.keepAlive
    clientIp := src.clientIp
    maxBodySizeLimit := src.maxBodySizeLimit }

@[simp] theorem assign_eq (r src : HttpRequest) : r.assign src = src := rfl

theorem copyConstruct_eq_self_iff {src : HttpRequest} {indeterminate : Nat} :
    src.copyConstruct indeterminate = src ↔ indeterminate = src.maxBodySizeLimit := by
  constructor
  · intro h
    exact congrArg maxBodySizeLimit h
  · rintro rfl
    rfl

/-! ### What a caller sees of a request -/

/-- The state of a request, and what its getters return. -/
structure View where
  state : ParserState
  method : Method
  uri : Bytes
  queryString : Bytes
  hostName : Bytes
  hostPort : Nat
  version : Bytes
  headers : Dict
  body : Bytes
  contentLength : Int
  keepAlive : Bool
  clientIp : Bytes

/-- `GetState`, `GetMethod`, and so on. -/
def view (r : HttpRequest) : View where
  state := r.state
  method := r.method
  uri := r.uri
  queryString := r.queryString
  hostName := r.hostName
  hostPort := r.hostPort
  version := r.version
  headers := r.headers
  body := r.body
  contentLength := r.contentLength
  keepAlive := r.keepAlive
  clientIp := r.clientIp

/-- One call of `Parse`: what it throws, and the object behind it. -/
def parseCall (r : HttpRequest) (p : Bytes) : Option Exception × HttpRequest :=
  match (parse p).run r with
  | .ok _ t => (none, t)
  | .error e t => (some e, t)

theorem parseCall_isNone (r : HttpRequest) (p : Bytes) :
    (r.parseCall p).1.isNone = ((parse p).run r).toExcept.isOk := by
  unfold parseCall
  cases (parse p).run r <;> rfl

/-- Calls of `Parse`, one after the other, and what the caller sees of each. -/
def results : HttpRequest → List Bytes → List (Option Exception × View)
  | _, [] => []
  | r, p :: ps => ((r.parseCall p).1, (r.parseCall p).2.view) :: (r.parseCall p).2.results ps

/-- What the owner of a request does to it. -/
inductive Call
  | setMaxBodySizeLimit (size : Nat)
  | parse (p : Bytes)

/-- A call on `r`.  `Parse` may throw, and the object is still there. -/
def apply (r : HttpRequest) : Call → HttpRequest
  | .setMaxBodySizeLimit size => r.setMaxBodySizeLimit size
  | .parse p => (r.parseCall p).2

/-- The request that calls on a new one lead to. -/
def after (calls : List Call) : HttpRequest := calls.foldl apply {}

/-- The limit in force behind a call. -/
def Call.limit (limit : Nat) : Call → Nat
  | .setMaxBodySizeLimit size => size
  | .parse _ => limit

/-- The argument of the last `SetMaxBodySizeLimit`, or `kMaxPayloadSize`. -/
def limitSet (calls : List Call) : Nat := calls.foldl Call.limit kMaxPayloadSize

end HttpRequest

/-! ### Parsing leaves the limit alone -/

open EStateM

/-- The two requests are under one limit. -/
def SameLimit (r s : HttpRequest) : Prop := s.maxBodySizeLimit = r.maxBodySizeLimit

instance : Std.Refl SameLimit := ⟨fun _ => rfl⟩

instance : IsTrans HttpRequest SameLimit := ⟨fun _ _ _ h h' => h'.trans h⟩

/-- A member function that does not assign `max_body_size_limit_`, whether it returns or throws. -/
abbrev KeepsLimit {α : Type} (x : RequestM α) : Prop := Steps SameLimit (fun _ => True) x

theorem call_keepsLimit {α : Type} (x : Except Exception α) : KeepsLimit (call x) := by
  cases x with
  | error e => exact .throw trivial
  | ok a => exact .pure a

theorem advanceHeader_keepsLimit : KeepsLimit advanceHeader := by
  intro r
  rcases hend : findEndOfHeader true r.buffer with - | endOfHeader
  · have hwait : advanceHeader.run r = .ok false r := by
      simp only [advanceHeader, EStateM.run_bind, EStateM.run_get, hend]
      rfl
    rw [StepsFrom, hwait]
    exact ⟨rfl, fun _ _ _ => trivial⟩
  · -- what the calls inside the `try` assign is not the limit
    have hprogress := (consumeRequestHead_progress hend).1
    have hlimit : ((consumeRequestHead r.buffer).run r).state.maxBodySizeLimit =
        r.maxBodySizeLimit := congrArg (fun progress => progress.2.2.2.2.2) hprogress
    simp only [StepsFrom, advanceHeader, EStateM.run_bind, EStateM.run_get, hend,
      EStateM.run_tryCatch_any]
    rcases hhead : (consumeRequestHead r.buffer).run r with ⟨rest, s⟩ | ⟨e, s⟩
    · rw [hhead] at hlimit
      exact ⟨hlimit, fun _ _ _ => trivial⟩
    · rw [hhead] at hlimit
      exact ⟨hlimit, fun _ _ _ => trivial⟩

theorem advanceContentLengthBody_keepsLimit : KeepsLimit advanceContentLengthBody := by
  intro r
  refine ⟨?_, fun _ _ _ => trivial⟩
  show SameLimit r (advanceContentLengthBody.run r).state
  simp only [advanceContentLengthBody, EStateM.run_bind, EStateM.run_get]
  split_ifs <;> rfl

theorem validateAndSkipCRLF_keepsLimit (pos : Nat) : KeepsLimit (validateAndSkipCRLF pos) :=
  .bind .get fun _ => .ite (.pure _) (.ite (.throw trivial) (.pure _))

theorem parseChunkSize_keepsLimit (pos : Nat) : KeepsLimit (parseChunkSize pos) :=
  .bind .get fun _ => .bind (call_keepsLimit _) fun _ => .ite (.pure _)
    (.bind (validateAndSkipCRLF_keepsLimit _) fun _ => .pure _)

theorem validateFinalCRLF_keepsLimit : KeepsLimit validateFinalCRLF := by
  refine .bind .get fun r => .ite (.throw trivial) (.bind (validateAndSkipCRLF_keepsLimit _) ?_)
  rintro (- | pos)
  · exact .pure _
  · exact .bind (.modify fun _ => rfl) fun _ => .ite (.throw trivial)
      (.bind (.modify fun _ => rfl) fun _ => .pure _)

theorem appendChunkData_keepsLimit (pos chunkSize : Nat) :
    KeepsLimit (appendChunkData pos chunkSize) :=
  .bind .get fun _ => .ite (.throw trivial) (.ite (.pure _) (.ite (.throw trivial)
    (.bind (call_keepsLimit _) fun _ => .bind (.modify fun _ => rfl) fun _ =>
      validateAndSkipCRLF_keepsLimit _)))

theorem readSizeLine_keepsLimit : KeepsLimit readSizeLine := by
  refine .bind .get fun r => .ite (.bind (parseChunkSize_keepsLimit _) ?_) (.pure _)
  rintro (- | ⟨pos, size⟩)
  · exact .pure _
  · exact .bind (.modify fun _ => rfl) fun _ => .pure _

theorem consumeChunk_keepsLimit : KeepsLimit consumeChunk := by
  refine .bind .get fun r => .ite ?_ (.bind (appendChunkData_keepsLimit _ _) ?_)
  · exact .bind validateFinalCRLF_keepsLimit fun finished => .ite (.pure _)
      (.bind (.modify fun _ => rfl) fun _ => .pure _)
  · rintro (- | pos)
    · exact .pure _
    · exact .bind (.modify fun _ => rfl) fun _ => .pure _

theorem chunkLoop_keepsLimit (fuel : Nat) : KeepsLimit (chunkLoop fuel) := by
  induction fuel with
  | zero => exact .throw trivial
  | succ fuel ih =>
      refine .bind readSizeLine_keepsLimit fun read => .ite (.pure _)
        (.bind consumeChunk_keepsLimit ?_)
      rintro (- | finished)
      · exact ih
      · exact .pure _

theorem selectBodyFraming_keepsLimit : KeepsLimit selectBodyFraming := by
  refine .bind .get fun r => .ite ?_ (.ite ?_ ?_)
  · exact .bind (.modify fun _ => rfl) fun _ => .pure _
  · exact advanceContentLengthBody_keepsLimit
  · exact .bind .get fun _ => .ite (.throw trivial) (.ite (.pure _) (chunkLoop_keepsLimit _))

theorem advanceBody_keepsLimit : KeepsLimit advanceBody :=
  selectBodyFraming_keepsLimit.tryCatch fun _ _ => .throw trivial

/-- One induction on the rounds of `Parse`: every round calls one of the two phases, or throws. -/
theorem parseLoop_keepsLimit (fuel : Nat) :
    KeepsLimit (parseLoop HttpRequest.virtuals fuel) := by
  induction fuel with
  | zero => exact .throw trivial
  | succ fuel ih =>
      refine .bind .get fun r => ?_
      rcases hstate : HttpRequest.virtuals.state r with - | - | -
      · exact .bind advanceHeader_keepsLimit fun found => .ite (.pure _) (.bind .get fun s =>
          .ite (.bind (.throw trivial) fun _ => ih) ih)
      · exact .bind advanceBody_keepsLimit fun finished => .ite (.pure _) (.bind .get fun s =>
          .ite (.bind (.throw trivial) fun _ => .pure _) (.pure _))
      · exact .bind (.throw trivial) fun _ => ih

theorem parse_keepsLimit (p : Bytes) : KeepsLimit (HttpRequest.parse p) :=
  .bind (.bind .get fun _ => .bind (call_keepsLimit _) fun _ => .modify fun _ => rfl) fun _ =>
    parseLoop_keepsLimit parseFuel

namespace HttpRequest

theorem parseCall_maxBodySizeLimit (r : HttpRequest) (p : Bytes) :
    (r.parseCall p).2.maxBodySizeLimit = r.maxBodySizeLimit := by
  have hkeeps := (parse_keepsLimit p r).1
  unfold parseCall
  rcases h : (parse p).run r with ⟨u, t⟩ | ⟨e, t⟩
  · rw [h] at hkeeps
    exact hkeeps
  · rw [h] at hkeeps
    exact hkeeps

theorem foldl_maxBodySizeLimit (calls : List Call) (r : HttpRequest) :
    (calls.foldl apply r).maxBodySizeLimit = calls.foldl Call.limit r.maxBodySizeLimit := by
  induction calls generalizing r with
  | nil => rfl
  | cons c calls ih =>
      rw [List.foldl_cons, List.foldl_cons, ih]
      cases c with
      | setMaxBodySizeLimit size => rfl
      | parse p => rw [apply, parseCall_maxBodySizeLimit]; rfl

theorem after_maxBodySizeLimit (calls : List Call) :
    (after calls).maxBodySizeLimit = limitSet calls := foldl_maxBodySizeLimit calls {}

end HttpRequest

/-! ### A body between the two limits -/

/-- A chunk of one byte. -/
def byteChunk : Chunk where
  digits := bytes "1"
  data := bytes "a"
  digits_ne_nil := by decide
  isHexDigit_of_mem := by decide +kernel
  data_ne_nil := by decide
  hexVal_digits := by decide

/-- `n` bytes in as many chunks. -/
def byteChunks (n : Nat) : ChunkedBody where
  chunks := List.replicate n byteChunk
  zeros := bytes "0"
  zeros_ne_nil := zero_ne_nil
  eq_zero_of_mem := eq_zero_of_mem_zero

@[simp] theorem byteChunks_data_length (n : Nat) : (byteChunks n).data.length = n := by
  induction n with
  | zero => rfl
  | succ n ih =>
      have hcons : byteChunks (n + 1) = .cons byteChunk (byteChunks n) := rfl
      rw [hcons, ChunkedBody.data_cons, List.length_append, ih]
      exact Nat.add_comm 1 n

theorem byteChunks_encode_length (n : Nat) : (byteChunks n).encode.length = 6 * n + 5 := by
  induction n with
  | zero => rfl
  | succ n ih =>
      have hcons : byteChunks (n + 1) = .cons byteChunk (byteChunks n) := rfl
      have hchunk : byteChunk.encode.length = 6 := rfl
      rw [hcons, ChunkedBody.encode_cons, List.length_append, ih, hchunk]
      omega

/-- The header section of `uploadHead` leaves room for a number of any length a body can have. -/
theorem uploadHead_short {n : Nat} (hn : n < 10 ^ 20) : uploadHead.Short n := by
  have hdigits : (natToString n).length ≤ 20 := by
    rw [natToString, List.length_map]
    exact (Nat.length_toDigits_le_iff (by decide) (by decide)).mpr hn
  intro f hf
  rcases List.mem_cons.mp hf with rfl | hf
  · have hline : (contentLengthField n).line.length = 16 + (natToString n).length := by
      have hname : (bytes "Content-Length").length = 14 := rfl
      show (bytes "Content-Length" ++ COLON :: SP :: natToString n).length = _
      rw [List.length_append, hname, List.length_cons, List.length_cons]
      omega
    have hfields : (encodeFields (uploadHead.frame (contentLengthField n)).fields).length =
        (encodeFields uploadHead.before).length + ((contentLengthField n).line.length + 2) := by
      simp only [encodeFields, OpenHead.frame, uploadHead, List.cons_append, List.nil_append,
        List.map_cons, List.map_nil, List.flatten_cons, List.flatten_nil, List.length_append,
        List.length_nil]
      rfl
    have hbefore : (encodeFields uploadHead.before).length = 9 := by decide +kernel
    rw [hfields, hbefore, hline, kMaxHeaderSize]
    omega
  · obtain rfl := List.mem_singleton.mp hf
    decide +kernel

namespace HttpRequest

/-- Two limits are told apart by a body that is longer than the lower one only. -/
theorem results_ne_of_lt {low high : Nat} (h : low < high) (hlow : low ≤ 100000000)
    (hhigh : high < 2 ^ 63) : ∃ ps, (fresh low).results ps ≠ (fresh high).results ps := by
  have hmax : stringMaxSize = 2 ^ 63 - 1 := by decide
  have hmod : sizeMod = 2 ^ 64 := rfl
  have hlength : (uploadHead.withChunks (byteChunks (low + 1))).length ≤ 6 * low + 111 := by
    have hhead : (uploadHead.frame chunkedField).encode.length ≤ 100 := by decide +kernel
    rw [OpenHead.withChunks, List.length_append, byteChunks_encode_length]
    omega
  have hparse := fun (limit : Nat) (hlimit : limit < 2 ^ 63) =>
    @withChunks_parse uploadHead limit (byteChunks (low + 1))
      (uploadHead_short (by rw [byteChunks_data_length]; omega)) (by omega) (by omega)
  have hfails := hparse low (by omega)
  have hcompletes := hparse high hhigh
  rw [byteChunks_data_length] at hfails hcompletes
  rw [if_pos (by omega)] at hfails
  rw [if_neg (by omega)] at hcompletes
  refine ⟨[uploadHead.withChunks (byteChunks (low + 1))], fun heq => ?_⟩
  obtain ⟨t, hreturns, -⟩ := hcompletes
  have hthrown := congrArg (fun calls => calls.head?.map fun call => call.1.isNone) heq
  simp only [results, List.head?_cons, Option.map_some, parseCall_isNone] at hthrown
  rw [hfails, hreturns] at hthrown
  cases hthrown

/-- **A fresh request is copied with its limit or not at all.**  The constructed copy of a request
that waits for its first byte behaves like the original exactly if the member that is not
initialised happens to hold the limit. -/
theorem results_copyConstruct_fresh_iff {limit indeterminate : Nat} (hlimit : limit ≤ 100000000)
    (hind : indeterminate < 2 ^ 63) :
    (∀ ps, ((fresh limit).copyConstruct indeterminate).results ps = (fresh limit).results ps) ↔
      indeterminate = limit := by
  constructor
  · intro hsame
    by_contra hne
    rcases Nat.lt_or_gt_of_ne hne with hlt | hgt
    · obtain ⟨ps, hdiffer⟩ := results_ne_of_lt hlt (by omega) (by omega)
      exact hdiffer (hsame ps)
    · obtain ⟨ps, hdiffer⟩ := results_ne_of_lt hgt hlimit hind
      exact hdiffer (hsame ps).symm
  · rintro rfl ps
    rfl

/-! ### Copies -/

/-- The constructed copy and the assigned one have the state of the original, and no sequence of
calls tells the three apart. -/
def CopiedFaithfully (r dst : HttpRequest) (indeterminate : Nat) : Prop :=
  (r.copyConstruct indeterminate = r ∧ dst.assign r = r) ∧
    ∀ ps, (r.copyConstruct indeterminate).results ps = r.results ps ∧
      (dst.assign r).results ps = r.results ps

/-- **The copy constructor copies a request exactly if it guesses the limit.**  Whatever has been
called on the original, `operator=` copies it; the constructed copy is the original if and only
if the member that is not initialised happens to hold what the last `SetMaxBodySizeLimit` has
set. -/
theorem copiedFaithfully_iff (calls : List Call) (dst : HttpRequest) (indeterminate : Nat) :
    CopiedFaithfully (after calls) dst indeterminate ↔ indeterminate = limitSet calls := by
  constructor
  · intro h
    rw [← after_maxBodySizeLimit]
    exact copyConstruct_eq_self_iff.mp h.1.1
  · intro h
    rw [← after_maxBodySizeLimit] at h
    have hcopy := copyConstruct_eq_self_iff.mpr h
    refine ⟨⟨hcopy, assign_eq dst _⟩, fun ps => ?_⟩
    rw [hcopy, assign_eq]
    exact ⟨rfl, rfl⟩

/-- A limit of five, and a copy that has come up with a limit of zero: a body between the two tells
them apart. -/
theorem copiedFaithfully_fails :
    ¬ ∀ calls dst indeterminate, CopiedFaithfully (after calls) dst indeterminate := by
  intro h
  have hsame : ∀ ps, ((fresh 5).copyConstruct 0).results ps = (fresh 5).results ps :=
    fun ps => ((h [.setMaxBodySizeLimit 5] {} 0).2 ps).1
  cases (results_copyConstruct_fresh_iff (by decide) (by decide)).mp hsame

end HttpRequest

/-! ### The copies that are made -/

/-- The handler of a connection works on a constructed copy, and reads no limit: it does the same
with every one. -/
theorem RequestHandler.run_copyConstruct (sys : Sys) (conf : ServerConfig) (r : HttpRequest)
    (indeterminate : Nat) :
    RequestHandler.run sys conf (r.copyConstruct indeterminate) = RequestHandler.run sys conf r :=
  rfl

end Webserv
