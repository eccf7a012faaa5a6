/-
Webserv/HttpRequest/Header.lean

`HttpRequest` and its header phase: the request line, the header lines, and the
validation that decides the framing of the body.

A member function is a program in `RequestM`.  The state survives an exception,
as the object does: members assigned before a `throw` keep their values.
-/
import Webserv.StreamParser
import Webserv.StringUtils

namespace Webserv

/-! ### The request object -/

/-- `std::map<std::string, std::string>`. -/
abbrev Dict := Std.ExtTreeMap Bytes Bytes compare

/-- `HttpRequest::kMaxHeaderSize`. -/
def kMaxHeaderSize : Nat := 8192

/-- `HttpRequest::kMaxPayloadSize`. -/
def kMaxPayloadSize : Nat := 1048576

/-- `HttpRequest::kMaxUriSize`. -/
def kMaxUriSize : Nat := 1024

/-- `HttpRequest::kDefaultPort`. -/
def kDefaultPort : Nat := 8080

/-- `HttpRequest`, as its default constructor leaves it. -/
structure HttpRequest extends StreamParser where
  method : Method := .kUnknownMethod
  uri : Bytes := []
  queryString : Bytes := []
  hostName : Bytes := []
  /-- `host_port_`, an `unsigned short` -/
  hostPort : Nat := 8080
  version : Bytes := []
  headers : Dict := ∅
  body : Bytes := []
  /-- `content_length_`, a `long`; -1 for a chunked body -/
  contentLength : Int := -1
  /-- `next_chunk_size_`, a `ptrdiff_t`; -1 while waiting for a size line -/
  nextChunkSize : Int := -1
  keepAlive : Bool := false
  clientIp : Bytes := []
  /-- `max_body_size_limit_`, a `size_t` -/
  maxBodySizeLimit : Nat := kMaxPayloadSize

/-- A member function of `HttpRequest`. -/
abbrev RequestM := EStateM Exception HttpRequest

/-- `throw lib::exception::ResponseStatusException(status)`. -/
def throwStatus {α : Type} (status : Status) : RequestM α := throw (.responseStatus status)

/-- Call a function that touches no member. -/
def call {α : Type} : Except Exception α → RequestM α
  | .ok a => pure a
  | .error e => throw e

@[simp] theorem run_throwStatus {α : Type} (status : Status) (r : HttpRequest) :
    (throwStatus status : RequestM α).run r = .error (.responseStatus status) r := rfl

@[simp] theorem run_call_ok {α : Type} (a : α) (r : HttpRequest) :
    (call (.ok a)).run r = .ok a r := rfl

@[simp] theorem run_call_error {α : Type} (e : Exception) (r : HttpRequest) :
    (call (.error e) : RequestM α).run r = .error e r := rfl

/-! ### The request line -/

/-- `ConsumeMethod`. -/
def consumeMethod (req : Bytes) : RequestM Bytes := do
  if bytes "GET " <+: req then
    modify fun r => { r with method := .kGet }
    return req.drop 4
  else if bytes "HEAD " <+: req then
    modify fun r => { r with method := .kHead }
    return req.drop 5
  else if bytes "POST " <+: req then
    modify fun r => { r with method := .kPost }
    return req.drop 5
  else if bytes "DELETE " <+: req then
    modify fun r => { r with method := .kDelete }
    return req.drop 7
  else throwStatus .kNotImplemented

/-- The body of the loop of `ConsumeUntilStopChar`. -/
def checkUriChar (c : Byte) (len : Nat) : Except Exception Nat :=
  if c = 35 then .error (.responseStatus .kBadRequest)  -- '#'
  else if len + 1 ≥ kMaxUriSize then .error (.responseStatus .kUriTooLong)
  else if !isVisibleAscii c then .error (.responseStatus .kBadRequest)
  else .ok (len + 1)

/-- `ConsumeUntilStopChar`: what was read, the new `len` and the rest. -/
def consumeUntilStopChar (stopChar : Byte → Bool) :
    Bytes → Nat → Except Exception (Bytes × Nat × Bytes) :=
  scanUntil stopChar checkUriChar

/-- `ConsumeQuery`: the new `len` is used by no caller. -/
def consumeQuery (req : Bytes) (len : Nat) : RequestM Bytes := do
  let (query, _, rest) ← call (consumeUntilStopChar (· == SP) req len)
  modify fun r => { r with queryString := query }
  return rest

/-- The part of `ConsumeUri` that reads a query, if there is one. -/
def consumeOptionalQuery (len : Nat) (req : Bytes) : RequestM Bytes :=
  if deref req = 63 then  -- '?'
    if len + 1 ≥ kMaxUriSize then throwStatus .kUriTooLong
    else consumeQuery (req.drop 1) (len + 1)
  else pure req

/-- The end of `ConsumeUri`. -/
def skipSpaceAfterUri (req : Bytes) : RequestM Bytes :=
  if deref req ≠ SP then throwStatus .kBadRequest else pure (req.drop 1)

/-- `ConsumeUri`. -/
def consumeUri (req : Bytes) : RequestM Bytes := do
  if deref req ≠ SLASH then throwStatus .kBadRequest
  else
    let (path, len, req) ← call (consumeUntilStopChar (fun c => c == SP || c == 63) req 0)
    modify fun r => { r with uri := path }
    if path = [] ∨ deref req ≠ SP ∧ deref req ≠ 63 then throwStatus .kBadRequest
    else consumeOptionalQuery len req >>= skipSpaceAfterUri

/-- The body of the scanning loop of `ConsumeVersion`. -/
def checkVersionChar (c : Byte) (len : Nat) : Except Exception Nat :=
  if !isVisibleAscii c then .error (.responseStatus .kBadRequest) else .ok (len + 1)

/-- `ConsumeVersion`. -/
def consumeVersion (req : Bytes) : RequestM Bytes := do
  let (version, _, rest) ← call (scanUntil (· == CR) checkVersionChar req 0)
  if !isCRLF rest then throwStatus .kBadRequest
  else
    modify fun r => { r with version := version }
    if version ≠ bytes "HTTP/1.1" ∧ version ≠ bytes "HTTP/1.0" then throwStatus .kBadRequest
    else return rest.drop 2

/-! ### Header lines -/

/-- `StoreHeader`. -/
def storeHeader (rawKey value : Bytes) : RequestM Unit := do
  let k := toLowerAscii rawKey
  -- every duplicate is refused, whatever the field
  if (← get).headers.contains k then throwStatus .kBadRequest
  else modify fun r => { r with headers := r.headers.insert k value }

/-- `ValidateAndExtractHost`. -/
def validateAndExtractHost : RequestM Unit := do
  match (← get).headers[bytes "host"]? with
  | none => throwStatus .kBadRequest
  | some hostValue =>
      if hostValue = [] then throwStatus .kBadRequest
      else
        let name := hostValue.takeWhile (· ≠ COLON)
        if name = [] then throwStatus .kBadRequest
        else
          modify fun r => { r with hostName := name }
          if name.length = hostValue.length then
            modify fun r => { r with hostPort := kDefaultPort }
          else
            match strToUnsignedShort (hostValue.drop (name.length + 1)) with
            | some port => modify fun r => { r with hostPort := port }
            -- `Value` of an empty `Optional`
            | none => throw .badOptionalAccess

/-- `ParseContentLength`. -/
def parseContentLength (s : Bytes) : RequestM Unit := do
  match strToLong s with
  | none => throwStatus .kBadRequest
  | some len =>
      -- 400 also for a length beyond the fixed limit; 413 is left to the limit of the server
      if len < 0 ∨ toSize len > kMaxPayloadSize then throwStatus .kBadRequest
      else modify fun r => { r with contentLength := len }

/-- `ParseTransferEncoding`. -/
def parseTransferEncoding (s : Bytes) : RequestM Unit := do
  if s = bytes "chunked" then modify fun r => { r with contentLength := -1 }
  else throwStatus .kNotImplemented

/-- `ValidateBodyHeaders`. -/
def validateBodyHeaders : RequestM Unit := do
  let headers := (← get).headers
  match headers[bytes "content-length"]?, headers[bytes "transfer-encoding"]? with
  | some _, some _ => throwStatus .kBadRequest
  | some s, none => do
      parseContentLength s
      let r ← get
      if r.contentLength ≥ 0 ∧ toSize r.contentLength > r.maxBodySizeLimit then
        throwStatus .kPayloadTooLarge
  | none, some s => parseTransferEncoding s
  | none, none => modify fun r => { r with contentLength := 0 }

/-- `ParseConnectionDirective`. -/
def parseConnectionDirective : RequestM Unit := do
  match (← get).headers[bytes "connection"]? with
  | some v =>
      if v = bytes "close" then modify fun r => { r with keepAlive := false }
      else if v = bytes "keep-alive" then modify fun r => { r with keepAlive := true }
      else throwStatus .kBadRequest
  | none => modify fun r => { r with keepAlive := r.version == bytes "HTTP/1.1" }

/-- The loop of `ConsumeHeader` over the header lines, for at most `fuel` lines. -/
def consumeHeaderLines : Nat → Bytes → Nat → RequestM (Bytes × Nat)
  | 0, _, _ => throw .diverges
  | fuel + 1, req, totalLen => do
      if deref req = 0 ∨ isCRLF req then return (req, totalLen)
      else
        let line ← call (readHeaderLine true req totalLen kMaxHeaderSize)
        storeHeader line.key line.value
        consumeHeaderLines fuel line.rest line.totalLen

/-- The end of `ConsumeHeader`: what is checked behind the header lines. -/
def validateHeaders (totalLen : Nat) : RequestM Unit := do
  -- the empty line counts too
  let _ ← call (bumpLenOrThrow totalLen 2 kMaxHeaderSize)
  validateAndExtractHost
  validateBodyHeaders
  parseConnectionDirective

/-- `ConsumeHeader`.  Every header line takes at least one byte of `req`. -/
def consumeHeader (req : Bytes) : RequestM Bytes := do
  let (req, totalLen) ← consumeHeaderLines (req.length + 1) req 0
  if !isCRLF req then throwStatus .kBadRequest
  else
    validateHeaders totalLen
    return req.drop 2

/-! ### The header phase -/

/-- The calls inside the `try` of `AdvanceHeader`.  It ignores the last `cur`. -/
def consumeRequestHead (begin' : Bytes) : RequestM Bytes := do
  let cur ← consumeMethod begin'
  let cur ← consumeUri cur
  let cur ← consumeVersion cur
  consumeHeader cur

/-- `HttpRequest::AdvanceHeader`. -/
def advanceHeader : RequestM Bool := do
  let r ← get
  match findEndOfHeader true r.buffer with
  | none => return false
  | some endOfHeader =>
      let _ ← tryCatch (consumeRequestHead r.buffer) fun e => throw e.rethrowAsStatus
      modify fun r => { r with buffer := r.buffer.drop endOfHeader, state := .kBody }
      return true

end Webserv
