/-
Webserv/StreamParser.lean

`lib::parser::StreamParser`: the incremental parser both `HttpRequest` and
`CgiResponseParser` derive from.

`parse` is the loop of `StreamParser::Parse` over the virtual functions of the
derived class (`Virtuals`).  The helpers that read a header section walk a
`const char*`; here they return the rest of the C string.
-/
import Webserv.Http
import Webserv.Theory.ExceptState
import Webserv.Theory.Substring

namespace Webserv

/-! ### The parser object -/

/-- `StreamParser::State`. -/
inductive ParserState
  | kHeader | kBody | kDone
  deriving DecidableEq, Repr

/-- The data members of `StreamParser`, as its constructor leaves them. -/
structure StreamParser where
  /-- `buffer_` -/
  buffer : Bytes := []
  /-- `buffer_read_pos_` -/
  bufferReadPos : Nat := 0
  /-- `state_` -/
  state : ParserState := .kHeader

/-- The virtual functions of a class derived from `StreamParser`, with the
access to the base object that `Parse` needs. -/
structure Virtuals (σ : Type) where
  state : σ → ParserState
  append : Bytes → EStateM Exception σ Unit
  advanceHeader : EStateM Exception σ Bool
  advanceBody : EStateM Exception σ Bool
  onInternalStateError : EStateM Exception σ Unit
  onExtraDataAfterDone : EStateM Exception σ Unit

/-- `std::string::append`: the result, or `std::length_error`. -/
def stringAppend (s data : Bytes) : Except Exception Bytes :=
  if s.length + data.length ≤ stringMaxSize then .ok (s ++ data) else .error .lengthError

/-- The `for (;;)` of `Parse`, for at most `fuel` iterations. -/
def parseLoop {σ : Type} (v : Virtuals σ) : Nat → EStateM Exception σ Unit
  | 0 => throw .diverges
  | fuel + 1 => do
      match v.state (← get) with
      | .kHeader =>
          -- more input is needed
          if !(← v.advanceHeader) then return
          if v.state (← get) ≠ .kBody then v.onInternalStateError
          parseLoop v fuel
      | .kBody =>
          if !(← v.advanceBody) then return
          if v.state (← get) ≠ .kDone then v.onInternalStateError
          return
      | .kDone =>
          -- the `switch` falls out: a hook that does not throw is called again
          v.onExtraDataAfterDone
          parseLoop v fuel

/-- The iterations `parse` allows.  A header, a body and one look at `kDone` is
all that a loop that ends can do. -/
def parseFuel : Nat := 3

/-- `StreamParser::Parse(data, len)`. -/
def parse {σ : Type} (v : Virtuals σ) (data : Bytes) : EStateM Exception σ Unit := do
  v.append data
  parseLoop v parseFuel

/-- **The rule of the loop.**  An invariant of the two phases is one of the loop, and
if each phase leaves the state it promises, `OnInternalStateError` is not called. -/
theorem parseLoop_triple {σ : Type} {v : Virtuals σ} {I : σ → Prop} {E : Exception → σ → Prop}
    (hheader : EStateM.Triple (fun s => I s ∧ v.state s = .kHeader) v.advanceHeader
      (fun found s => I s ∧ (found = true → v.state s = .kBody)) E)
    (hbody : EStateM.Triple (fun s => I s ∧ v.state s = .kBody) v.advanceBody
      (fun finished s => I s ∧ (finished = true → v.state s = .kDone)) E)
    (hextra : EStateM.Triple (fun s => I s ∧ v.state s = .kDone) v.onExtraDataAfterDone
      (fun _ => I) E)
    (hfuel : ∀ s, I s → E .diverges s) (fuel : Nat) :
    EStateM.Triple I (parseLoop v fuel) (fun _ => I) E := by
  induction fuel with
  -- the induction is on the fuel; each case is one look at the state
  | zero => exact .throw hfuel
  | succ fuel ih =>
      refine .get_bind fun s hs => ?_
      rcases hstate : v.state s with - | - | -
      · refine (hheader.imp ?_ (fun _ _ h => h) (fun _ _ h => h)).bind fun found =>
          .ite (fun _ => .pure fun _ h => h.1) fun hfound => .get_bind fun t ht => ?_
        · rintro t rfl
          exact ⟨hs, hstate⟩
        · rw [if_neg (not_not.mpr (ht.2 (by simpa using hfound)))]
          rintro u rfl
          exact ih u ht.1
      · refine (hbody.imp ?_ (fun _ _ h => h) (fun _ _ h => h)).bind fun finished =>
          .ite (fun _ => .pure fun _ h => h.1) fun hfinished => .get_bind fun t ht => ?_
        · rintro t rfl
          exact ⟨hs, hstate⟩
        · rw [if_neg (not_not.mpr (ht.2 (by simpa using hfinished)))]
          rintro u rfl
          exact ht.1
      · refine (hextra.imp ?_ (fun _ _ h => h) (fun _ _ h => h)).bind fun _ => ih
        rintro t rfl
        exact ⟨hs, hstate⟩

/-! ### Reading a header section -/

/-- `IsCRLF`. -/
def isCRLF (p : Bytes) : Bool := deref p == CR && deref p.tail == LF

/-- `IsLF`. -/
def isLF (p : Bytes) : Bool := deref p == LF

/-- `FindEndOfHeader`, with the value of `IsStrictCrlf()`. -/
def findEndOfHeader (strict : Bool) (payload : Bytes) : Option Nat :=
  match Substring.find (CRLF ++ CRLF) payload with
  | some pos => some (pos + 4)
  | none =>
      -- only a lenient parser also takes an empty line that ends with LF
      if strict then none
      else (Substring.find [LF, LF] payload).map (· + 2)

/-- `BumpLenOrThrow`: the new `total`. -/
def bumpLenOrThrow (total inc maxSize : Nat) : Except Exception Nat :=
  -- a subtraction of `size_t`: with `total` beyond `max_size` the check would pass
  if inc > subSize maxSize total then .error (.responseStatus .kRequestHeaderFieldsTooLarge)
  else .ok (addSize total inc)

/-- The scanning loops of the parsers: read up to a NUL or a byte in `stop`, passing
every byte and the length so far to `check`, which gives the new length or throws.
Returns what was read, the new length and the rest. -/
def scanUntil (stop : Byte → Bool) (check : Byte → Nat → Except Exception Nat) :
    Bytes → Nat → Except Exception (Bytes × Nat × Bytes)
  | [], total => .ok ([], total, [])
  | c :: cs, total =>
      if c = 0 ∨ stop c then .ok ([], total, c :: cs)
      else do
        let total ← check c total
        let (read, total, rest) ← scanUntil stop check cs total
        .ok (c :: read, total, rest)

/-- The body of the two scanning loops of `ReadHeaderLine`. -/
def checkHeaderChar (maxSize : Nat) (c : Byte) (total : Nat) : Except Exception Nat :=
  if !isValidHeaderChar c then .error (.responseStatus .kBadRequest)
  else bumpLenOrThrow total 1 maxSize

/-- The two scanning loops of `ReadHeaderLine`, for the key and for the value. -/
def readUntil (stop : Byte → Bool) (maxSize : Nat) :
    Bytes → Nat → Except Exception (Bytes × Nat × Bytes) :=
  scanUntil stop (checkHeaderChar maxSize)

/-- A header line: key, value, the new `total_len`, and the rest of the text. -/
structure HeaderLine where
  key : Bytes
  value : Bytes
  totalLen : Nat
  rest : Bytes
  deriving DecidableEq, Repr

/-- `ReadHeaderLine`. -/
def readHeaderLine (strict : Bool) (data : Bytes) (totalLen maxSize : Nat) :
    Except Exception HeaderLine := do
  let (key, totalLen, data) ← readUntil (· == COLON) maxSize data totalLen
  -- must be ": ", not ":" or end of string
  if deref data ≠ COLON ∨ deref data.tail = 0 ∨ deref data.tail ≠ SP then
    .error (.responseStatus .kBadRequest)
  else
    let totalLen ← bumpLenOrThrow totalLen 2 maxSize
    let (value, totalLen, data) ←
      readUntil (fun c => c == CR || c == LF) maxSize (data.drop 2) totalLen
    if isCRLF data then
      let totalLen ← bumpLenOrThrow totalLen 2 maxSize
      .ok ⟨key, value, totalLen, data.drop 2⟩
    else if !strict && isLF data then
      let totalLen ← bumpLenOrThrow totalLen 1 maxSize
      .ok ⟨key, value, totalLen, data.drop 1⟩
    else .error (.responseStatus .kBadRequest)

end Webserv
