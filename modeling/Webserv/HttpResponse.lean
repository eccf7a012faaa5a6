/-
Webserv/HttpResponse.lean

`HttpResponse` and its text on the wire.

`ToHttpString` reads the clock for its `Date` field.  The formatted time is an
argument here, `none` where `strftime` gives no text.
-/
import Webserv.StringUtils
import Webserv.HttpRequest.Header

namespace Webserv

/-! ### The response object -/

/-- `HttpResponse`, as its default constructor leaves it. -/
structure HttpResponse where
  /-- `status_code_`, an `int` -/
  statusCode : Int := 200
  reasonPhrase : Bytes := bytes "OK"
  headers : Dict := ∅
  body : Bytes := []
  version : Bytes := bytes "HTTP/1.1"

/-- `HttpResponse(status)`. -/
def HttpResponse.ofStatus (status : Status) : HttpResponse :=
  { statusCode := status.code, reasonPhrase := status.reason }

/-- `SetStatus(status)`, for the value of a status. -/
def HttpResponse.setStatus (res : HttpResponse) (code : Int) : HttpResponse :=
  { res with statusCode := code, reasonPhrase := statusToString code }

/-- `SetStatus(status, reason_phrase)`. -/
def HttpResponse.setStatusReason (res : HttpResponse) (code : Int) (reasonPhrase : Bytes) :
    HttpResponse :=
  { res with statusCode := code, reasonPhrase := reasonPhrase }

/-- `key` or `value` has a `'\r'` or a `'\n'`. -/
def breaksLine (s : Bytes) : Bool := s.contains CR || s.contains LF

/-- `AddHeader`. -/
def HttpResponse.addHeader (res : HttpResponse) (key value : Bytes) :
    Except Exception HttpResponse :=
  if breaksLine key || breaksLine value then .error .invalidHeader
  else .ok { res with headers := res.headers.insert (toLowerAscii key) value }

/-- `HasHeader`: the key is not lower-cased. -/
def HttpResponse.hasHeader (res : HttpResponse) (key : Bytes) : Bool := res.headers.contains key

/-- `SetBody`. -/
def HttpResponse.setBody (res : HttpResponse) (body : Bytes) : HttpResponse :=
  { res with body := body }

/-- The version is the one that every constructor gives; no member function changes it. -/
def HttpResponse.HasVersion (res : HttpResponse) : Prop := res.version = bytes "HTTP/1.1"

theorem HttpResponse.HasVersion.addHeader {res res' : HttpResponse} {key value : Bytes}
    (h : res.HasVersion) (hadd : res.addHeader key value = .ok res') : res'.HasVersion := by
  rw [HttpResponse.addHeader] at hadd
  split_ifs at hadd
  cases hadd
  exact h

/-! ### Default error pages -/

/-- The page before its padding. -/
def errorPageText (statusCode : Int) (reasonPhrase : Bytes) : Bytes :=
  let title := intToString statusCode ++ [SP] ++ reasonPhrase
  bytes "<html>\n" ++ bytes "<head><title>" ++ title ++ bytes "</title></head>\n" ++
    bytes "<body>\n" ++ bytes "<center><h1>" ++ title ++ bytes "</h1></center>\n" ++
    bytes "<hr>\n" ++ bytes "</body>\n" ++ bytes "</html>\n" ++ bytes "<!-- "

/-- `MakeDefaultErrorPage`.  The padding loop counts from the length so far to 512
in steps of 7. -/
def makeDefaultErrorPage (statusCode : Int) (reasonPhrase : Bytes) : Bytes :=
  let text := errorPageText statusCode reasonPhrase
  text ++ (List.replicate ((512 - text.length + 6) / 7) (bytes "webserv")).flatten ++
    bytes " -->\n"

/-- `EnsureDefaultErrorContent`. -/
def HttpResponse.ensureDefaultErrorContent (res : HttpResponse) : HttpResponse :=
  if res.body ≠ [] ∨ res.statusCode < 400 then res
  else { res with body := makeDefaultErrorPage res.statusCode res.reasonPhrase }

theorem HttpResponse.HasVersion.ensureDefaultErrorContent {res : HttpResponse}
    (h : res.HasVersion) : res.ensureDefaultErrorContent.HasVersion := by
  rw [HttpResponse.ensureDefaultErrorContent]
  split_ifs
  · exact h
  · exact h

/-! ### The text of a response -/

/-- The header fields that are sent: those set, a date, and a length. -/
def HttpResponse.finalHeaders (res : HttpResponse) (date : Option Bytes) : Dict :=
  let headers :=
    match date with
    | some date => if res.headers.contains (bytes "date") then res.headers
        else res.headers.insert (bytes "date") date
    | none => res.headers
  if headers.contains (bytes "content-length") || headers.contains (bytes "transfer-encoding") then
    headers
  else headers.insert (bytes "content-length") (natToString res.body.length)

/-- `ToHttpString`. -/
def HttpResponse.toHttpString (res : HttpResponse) (date : Option Bytes) : Bytes :=
  res.version ++ [SP] ++ intToString res.statusCode ++ [SP] ++ res.reasonPhrase ++ CRLF ++
    ((res.finalHeaders date).toList.map fun (key, value) =>
      key ++ [COLON, SP] ++ value ++ CRLF).flatten ++ CRLF ++ res.body

theorem HttpResponse.toHttpString_ne_nil (res : HttpResponse) (date : Option Bytes) :
    res.toHttpString date ≠ [] := by
  simp [toHttpString]

end Webserv
