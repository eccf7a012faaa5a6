/-
Webserv/HttpRequest/Body.lean

The body phase of `HttpRequest`, for a `Content-Length` and for a chunked body,
and `HttpRequest::Parse`.

The chunk decoder keeps its progress in three members: `bufferReadPos` is where
it reads next in `buffer`, `nextChunkSize` is the size of the chunk whose data it
waits for (-1 while it waits for a size line), `body` is the data so far.  A
helper of the source that takes `size_t& pos` and returns a `bool` returns an
optional new `pos` here, `none` for `false`; no caller uses `pos` after `false`.
-/
import Webserv.HttpRequest.Header

namespace Webserv

/-! ### Content-Length framing -/

/-- `AdvanceContentLengthBody`. -/
def advanceContentLengthBody : RequestM Bool := do
  let r ← get
  let need := toSize r.contentLength
  if need > r.maxBodySizeLimit then throwStatus .kPayloadTooLarge
  else if need = 0 then
    modify fun r => { r with state := .kDone }
    return true
  else if r.buffer.length < need then return false
  else
    -- what follows the body stays in the buffer
    set { r with body := r.buffer.take need, buffer := r.buffer.drop need, state := .kDone }
    return true

/-! ### Chunked framing -/

/-- `ValidateAndSkipCRLF`. -/
def validateAndSkipCRLF (pos : Nat) : RequestM (Option Nat) := do
  let buffer := (← get).buffer
  if addSize pos 1 ≥ buffer.length then return none
  -- both bytes are there
  else if buffer.getD pos 0 ≠ CR ∨ buffer.getD (addSize pos 1) 0 ≠ LF then
    throwStatus .kBadRequest
  else return some (addSize pos 2)

/-- The digit test of `ParseChunkSize`. -/
def hexDigit (c : Byte) : Option Nat :=
  if 48 ≤ c && c ≤ 57 then some (c.toNat - 48)  -- '0' .. '9'
  else if 97 ≤ c && c ≤ 102 then some (c.toNat - 97 + 10)  -- 'a' .. 'f'
  else if 65 ≤ c && c ≤ 70 then some (c.toNat - 65 + 10)  -- 'A' .. 'F'
  else none

/-- `std::numeric_limits<size_t>::max() >> 4`. -/
def kMaxBeforeShift : Nat := (sizeMod - 1) >>> 4

/-- The scanning loop of `ParseChunkSize`, from `pos` on: the new `pos` and
`chunk_size`, and `saw_digit`. -/
def scanChunkSize : Bytes → Nat → Nat → Bool → Except Exception (Nat × Nat × Bool)
  | [], pos, chunkSize, sawDigit => .ok (pos, chunkSize, sawDigit)
  | c :: cs, pos, chunkSize, sawDigit =>
      if c = CR then .ok (pos, chunkSize, sawDigit)
      else
        match hexDigit c with
        | none => .error (.responseStatus .kBadRequest)  -- no extensions
        | some digit =>
            if chunkSize > kMaxBeforeShift then .error (.responseStatus .kBadRequest)
            else scanChunkSize cs (pos + 1) (addSize (chunkSize <<< 4 % sizeMod) digit) true

/-- `ParseChunkSize`: the new `pos` and the size. -/
def parseChunkSize (pos : Nat) : RequestM (Option (Nat × Nat)) := do
  let (pos, chunkSize, sawDigit) ← call (scanChunkSize ((← get).buffer.drop pos) pos 0 false)
  -- no digit asks for more input, also where a CR has stopped the scan
  if !sawDigit then return none
  else
    let skipped ← validateAndSkipCRLF pos
    return skipped.map fun pos => (pos, chunkSize)

/-- `ValidateFinalCRLF(buffer_read_pos_)`: the read position is passed by
reference, so it has moved when the check for excess data throws. -/
def validateFinalCRLF : RequestM Bool := do
  let r ← get
  -- the trace prints `buffer_.substr(pos)`
  if r.bufferReadPos > r.buffer.length then throw .outOfRange
  else
    match ← validateAndSkipCRLF r.bufferReadPos with
    | none => return false
    | some pos =>
        modify fun r => { r with bufferReadPos := pos }
        -- nothing may follow the message
        if pos ≠ r.buffer.length then throwStatus .kBadRequest
        else
          modify fun r => { r with buffer := [], state := .kDone }
          return true

/-- `AppendChunkData`. -/
def appendChunkData (pos chunkSize : Nat) : RequestM (Option Nat) := do
  let r ← get
  if chunkSize > r.maxBodySizeLimit ∨ r.body.length > subSize r.maxBodySizeLimit chunkSize then
    throwStatus .kPayloadTooLarge
  -- the data and their CRLF have to be there as a whole
  else if addSize pos (addSize chunkSize 2) > r.buffer.length then return none
  -- reached only if the sum has wrapped
  else if pos > r.buffer.length then throw .outOfRange
  else
    let body ← call (stringAppend r.body ((r.buffer.drop pos).take chunkSize))
    modify fun r => { r with body := body }
    validateAndSkipCRLF (addSize pos chunkSize)

/-- The first half of an iteration of `AdvanceChunkedBody`: read the size line if
that is what the decoder waits for.  `false` for the `return false` in it. -/
def readSizeLine : RequestM Bool := do
  let r ← get
  if r.nextChunkSize = -1 then
    match ← parseChunkSize r.bufferReadPos with
    | none => return false
    | some (pos, size) =>
        modify fun r => { r with bufferReadPos := pos, nextChunkSize := toPtrdiff size }
        return true
  else return true

/-- The second half: the final CRLF, or the data of a chunk.  The value the
function returns, or `none` if the loop goes on. -/
def consumeChunk : RequestM (Option Bool) := do
  let r ← get
  if r.nextChunkSize = 0 then
    if !(← validateFinalCRLF) then return some false
    else
      modify fun r => { r with
        buffer := r.buffer.drop r.bufferReadPos, bufferReadPos := 0,
        nextChunkSize := -1, state := .kDone }
      return some true
  else
    match ← appendChunkData r.bufferReadPos (toSize r.nextChunkSize) with
    | none => return some false
    | some pos =>
        modify fun r => { r with bufferReadPos := pos, nextChunkSize := -1 }
        return none

/-- The `for (;;)` of `AdvanceChunkedBody`, for at most `fuel` iterations. -/
def chunkLoop : Nat → RequestM Bool
  | 0 => throw .diverges
  | fuel + 1 => do
      if !(← readSizeLine) then return false
      else
        match ← consumeChunk with
        | some finished => return finished
        | none => chunkLoop fuel

/-- `AdvanceChunkedBody`.  An iteration that goes on has read a chunk.  Under a limit
near 2^64 a size can wrap the position back, but only as long as the body is shorter
than the buffer: a loop that runs longer than this never ends. -/
def advanceChunkedBody : RequestM Bool := do
  let r ← get
  if r.bufferReadPos > r.buffer.length then throwStatus .kInternalServerError
  else if r.bufferReadPos = r.buffer.length then return false
  else chunkLoop (3 * r.buffer.length + 2)

/-! ### The body phase and the parser -/

/-- The statements inside the `try` of `AdvanceBody`. -/
def selectBodyFraming : RequestM Bool := do
  let r ← get
  let hasTransferEncoding := r.headers.contains (bytes "transfer-encoding")
  if r.contentLength = 0 ∧ !hasTransferEncoding then
    modify fun r => { r with state := .kDone }
    return true
  else if r.contentLength ≥ 0 then advanceContentLengthBody
  -- -1 stands for a chunked body
  else advanceChunkedBody

/-- `HttpRequest::AdvanceBody`. -/
def advanceBody : RequestM Bool :=
  tryCatch selectBodyFraming fun e => throw e.rethrowAsStatus

/-- `buffer_.append(data, len)`. -/
def appendToBuffer (data : Bytes) : RequestM Unit := do
  let buffer ← call (stringAppend (← get).buffer data)
  modify fun r => { r with buffer := buffer }

/-- The virtual functions of `HttpRequest`. -/
def HttpRequest.virtuals : Virtuals HttpRequest where
  state r := r.state
  append := appendToBuffer
  advanceHeader := advanceHeader
  advanceBody := advanceBody
  onInternalStateError := throwStatus .kInternalServerError
  onExtraDataAfterDone := throwStatus .kBadRequest

/-- `Parse` on an `HttpRequest`. -/
def HttpRequest.parse (data : Bytes) : RequestM Unit := Webserv.parse HttpRequest.virtuals data

/-- A fresh request with the limit set by `SetMaxBodySizeLimit`. -/
def HttpRequest.fresh (limit : Nat) : HttpRequest := { maxBodySizeLimit := limit }

end Webserv
