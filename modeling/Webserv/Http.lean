/-
Webserv/Http.lean

The enumerations and character classes of `lib::http`, and the exceptions the
program throws.
-/
import Webserv.Basic

namespace Webserv

/-! ### Methods and statuses -/

/-- `lib::http::Method`. -/
inductive Method
  | kNone | kGet | kHead | kPost | kDelete | kUnknownMethod
  deriving DecidableEq, Repr

/-- `lib::http::MethodToString`. -/
def methodToString : Method → Bytes
  | .kGet => bytes "GET"
  | .kHead => bytes "HEAD"
  | .kPost => bytes "POST"
  | .kDelete => bytes "DELETE"
  | .kUnknownMethod => bytes "UNKNOWN_METHOD"
  | .kNone => bytes "kNone"

/-- The enumerators of `lib::http::Status`. -/
inductive Status
  | kOk | kCreated | kAccepted | kNoContent | kResetContent | kFound
  | kTemporaryRedirect | kBadRequest | kUnauthorized | kForbidden | kNotFound
  | kMethodNotAllowed | kRequestTimeout | kLengthRequired | kPayloadTooLarge
  | kUriTooLong | kRequestHeaderFieldsTooLarge | kInternalServerError
  | kNotImplemented | kBadGateway
  deriving DecidableEq, Repr

/-- The value of an enumerator. -/
def Status.code : Status → Int
  | .kOk => 200
  | .kCreated => 201
  | .kAccepted => 202
  | .kNoContent => 204
  | .kResetContent => 205
  | .kFound => 302
  | .kTemporaryRedirect => 307
  | .kBadRequest => 400
  | .kUnauthorized => 401
  | .kForbidden => 403
  | .kNotFound => 404
  | .kMethodNotAllowed => 405
  | .kRequestTimeout => 408
  | .kLengthRequired => 411
  | .kPayloadTooLarge => 413
  | .kUriTooLong => 414
  | .kRequestHeaderFieldsTooLarge => 431
  | .kInternalServerError => 500
  | .kNotImplemented => 501
  | .kBadGateway => 502

/-- The reason phrase of an enumerator, as `StatusToString` gives it. -/
def Status.reason : Status → Bytes
  | .kOk => bytes "OK"
  | .kCreated => bytes "Created"
  | .kAccepted => bytes "Accepted"
  | .kNoContent => bytes "No Content"
  | .kResetContent => bytes "Reset Content"
  | .kFound => bytes "Found"
  | .kTemporaryRedirect => bytes "Temporary Redirect"
  | .kBadRequest => bytes "Bad Request"
  | .kUnauthorized => bytes "Unauthorized"
  | .kForbidden => bytes "Forbidden"
  | .kNotFound => bytes "Not Found"
  | .kMethodNotAllowed => bytes "Method Not Allowed"
  | .kRequestTimeout => bytes "Request Timeout"
  | .kLengthRequired => bytes "Length Required"
  | .kPayloadTooLarge => bytes "Payload Too Large"
  | .kUriTooLong => bytes "URI Too Long"
  | .kRequestHeaderFieldsTooLarge => bytes "Request Header Fields Too Large"
  | .kInternalServerError => bytes "Internal Server Error"
  | .kNotImplemented => bytes "Not Implemented"
  | .kBadGateway => bytes "Bad Gateway"

/-- Every enumerator, in the order of the source. -/
def Status.all : List Status :=
  [.kOk, .kCreated, .kAccepted, .kNoContent, .kResetContent, .kFound,
    .kTemporaryRedirect, .kBadRequest, .kUnauthorized, .kForbidden, .kNotFound,
    .kMethodNotAllowed, .kRequestTimeout, .kLengthRequired, .kPayloadTooLarge,
    .kUriTooLong, .kRequestHeaderFieldsTooLarge, .kInternalServerError,
    .kNotImplemented, .kBadGateway]

/-- `lib::http::StatusToString`.  A CGI program may have any `int` cast to the
enumeration, so the argument is the value and not the enumerator. -/
def statusToString (code : Int) : Bytes :=
  match Status.all.find? (·.code = code) with
  | some status => status.reason
  | none => bytes "I'm a teapot"

/-! ### Character classes -/

/-- `lib::http::IsValidHeaderChar`: printable ASCII. -/
def isValidHeaderChar (c : Byte) : Bool := 32 ≤ c && c ≤ 126

/-- `lib::http::IsVisibleAscii`.  The comparison is on a signed `char`, which
rejects the bytes from 128 on just as the unsigned one does. -/
def isVisibleAscii (c : Byte) : Bool := 33 ≤ c && c ≤ 126

/-! ### Exceptions -/

/-- What a function of the program may throw.  `diverges` is no C++ exception:
it stands for a `for (;;)` loop that has not ended within the iterations the
model allows it, and no handler catches it. -/
inductive Exception
  | responseStatus (status : Status)
  | connectionClosed
  | badOptionalAccess
  | invalidHeader
  | outOfRange
  | lengthError
  | diverges
  deriving DecidableEq, Repr

/-- The handler pair `catch (ResponseStatusException&) { throw; }` and
`catch (...)` or `catch (std::exception&)` that turns every other exception into
`kInternalServerError`. -/
def Exception.rethrowAsStatus : Exception → Exception
  | .responseStatus status => .responseStatus status
  | .diverges => .diverges
  | _ => .responseStatus .kInternalServerError

theorem rethrowAsStatus_eq {e : Exception} (h : e ≠ .diverges) :
    ∃ status, e.rethrowAsStatus = .responseStatus status := by
  cases e with
  | responseStatus status => exact ⟨status, rfl⟩
  | diverges => exact absurd rfl h
  | _ => exact ⟨.kInternalServerError, rfl⟩

end Webserv
