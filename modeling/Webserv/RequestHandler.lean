/-
Webserv/RequestHandler.lean

`RequestHandler::Run`: from a complete request to a response, a file operation or
a CGI program.

`PrepareRoutingContext` leaves a location and a path in members; here they are
passed on.  The traces on `std::cerr` are left out.
-/
import Webserv.CgiExecutor

namespace Webserv

/-! ### Routing -/

/-- `ResolveFilesystemPath`, behind a match. -/
def resolveFilesystemPath (m : LocationMatch) : Except Exception Bytes :=
  -- a redirect needs no path
  if m.loc.hasRedirect then .ok []
  else validateAndNormalizePath (m.loc.root ++ m.remainder) m.loc.root

/-- `PrepareRoutingContext`: `location_match_` and `filesystem_path_`. -/
def prepareRoutingContext (conf : ServerConfig) (req : HttpRequest) :
    Except Exception (LocationMatch × Bytes) := do
  let m ← conf.findLocationForUri req.uri
  let path ← resolveFilesystemPath m
  .ok (m, path)

/-- `AppendIndexFileIfDirectoryOrThrow`. -/
def appendIndexFileIfDirectoryOrThrow (sys : Sys) (req : HttpRequest) (loc : Location)
    (basePath : Bytes) : Except Exception Bytes :=
  if endsWithSlash req.uri || sys.isDirectory basePath then
    -- a directory without an index file; there is no listing
    if loc.indexFile = [] then .error (.responseStatus .kForbidden)
    else
      let path := if endsWithSlash basePath then basePath else basePath ++ [SLASH]
      validateAndNormalizePath (path ++ loc.indexFile) loc.root
  else validateAndNormalizePath basePath loc.root

/-! ### Files -/

/-- `DetectMimeTypeFromPath`. -/
def detectMimeTypeFromPath (path : Bytes) : Bytes :=
  let extension :=
    if path.contains DOT then toLowerAscii (path.rtakeWhile (· ≠ DOT)) else []
  if extension = bytes "html" ∨ extension = bytes "htm" then bytes "text/html"
  else if extension = bytes "css" then bytes "text/css"
  else if extension = bytes "js" then bytes "application/javascript"
  else if extension = bytes "json" then bytes "application/json"
  else if extension = bytes "png" then bytes "image/png"
  else if extension = bytes "jpg" ∨ extension = bytes "jpeg" then bytes "image/jpeg"
  else if extension = bytes "gif" then bytes "image/gif"
  else if extension = bytes "txt" then bytes "text/plain"
  else if extension = bytes "pdf" then bytes "application/pdf"
  else if extension = bytes "xml" then bytes "application/xml"
  else bytes "application/octet-stream"

/-- A system call that failed with `errno`. -/
def failErrno {α : Type} (errno : Errno) : HandlerM α := failHandler (mapErrnoToHttpStatus errno)

/-- `StatOrThrow`, then `EnsureRegularFileOrThrowForbidden`. -/
def ensureRegularFile (sys : Sys) (path : Bytes) : HandlerM Unit :=
  match sys.stat path with
  | .error errno => failErrno errno
  | .ok .regular => pure ()
  | .ok _ => failHandler .kForbidden

/-- `EnsureAccessOrThrow`. -/
def ensureAccess (sys : Sys) (path : Bytes) : HandlerM Unit :=
  match sys.access path with
  | some errno => failErrno errno
  | none => pure ()

/-- `ReadFileToStringOrThrow`. -/
def readFileToStringOrThrow (sys : Sys) (path : Bytes) : HandlerM Bytes := do
  ensureRegularFile sys path
  ensureAccess sys path
  act (.readFile path)
  match sys.ifstream path with
  | .error errno => failErrno errno
  | .ok content => return content

/-- `dirname`. -/
def dirname (path : Bytes) : Bytes :=
  let trimmed := path.rdropWhile (· = SLASH)
  if trimmed = [] then (if path = [] then dot else [SLASH])
  else
    let parent := trimmed.rdropWhile (· ≠ SLASH)
    if parent = [] then dot
    else if parent.rdropWhile (· = SLASH) = [] then [SLASH]
    else parent.rdropWhile (· = SLASH)

/-- `CheckDeletableRegularFileOrThrow`. -/
def checkDeletableRegularFileOrThrow (sys : Sys) (path : Bytes) : HandlerM Unit := do
  ensureRegularFile sys path
  match sys.stat (dirname path) with
  | .error errno => failErrno errno
  | .ok _ => ensureAccess sys (dirname path)

/-! ### Methods -/

/-- `AddHeader` on a response. -/
def addHeader (res : HttpResponse) (key value : Bytes) : HandlerM HttpResponse :=
  callHandler (res.addHeader key value)

/-- The page `HandlePost` answers with for a directory. -/
def rejectDirectory : HandlerM ExecResult := do
  let res ← addHeader (HttpResponse.setStatus {} Status.kMethodNotAllowed.code)
    (bytes "Connection") (bytes "close")
  let res ← addHeader res (bytes "Content-Type") (bytes "text/html")
  return { response := res.ensureDefaultErrorContent }

/-- `HandleGet`. -/
def handleGet (sys : Sys) (req : HttpRequest) (loc : Location) (filesystemPath : Bytes) :
    HandlerM ExecResult := do
  let path ← callHandler (appendIndexFileIfDirectoryOrThrow sys req loc filesystemPath)
  if loc.cgiEnabled then (CgiExecutor.construct req loc path).run sys
  else
    let body ← readFileToStringOrThrow sys path
    let res ← addHeader {} (bytes "Content-Type") (detectMimeTypeFromPath path)
    return { response := (res.setBody body).setStatus Status.kOk.code }

/-- The upload of `HandlePost`. -/
def storeBody (sys : Sys) (req : HttpRequest) (path : Bytes) : HandlerM ExecResult := do
  let result := sys.ofstream path req.body
  act (.writeFile path req.body result)
  if !result.opened then failHandler .kForbidden
  -- the stream is looked at before it is flushed
  else if !result.good then failHandler .kInternalServerError
  else
    -- refused if the URI breaks the line, with the file already written
    let res ← addHeader (.ofStatus .kCreated) (bytes "Location") req.uri
    return { response := res }

/-- `HandlePost`. -/
def handlePost (sys : Sys) (req : HttpRequest) (loc : Location) (filesystemPath : Bytes) :
    HandlerM ExecResult := do
  if endsWithSlash req.uri then rejectDirectory
  else if sys.isDirectory filesystemPath then rejectDirectory
  else if loc.cgiEnabled then (CgiExecutor.construct req loc filesystemPath).run sys
  else storeBody sys req filesystemPath

/-- `HandleDelete`. -/
def handleDelete (sys : Sys) (filesystemPath : Bytes) : HandlerM ExecResult := do
  checkDeletableRegularFileOrThrow sys filesystemPath
  act (.removeFile filesystemPath)
  match sys.remove filesystemPath with
  | some errno => failErrno errno
  | none =>
      let res := (HttpResponse.ofStatus .kOk).setBody (bytes "File deleted successfully")
      let res ← addHeader res (bytes "Content-Type") (bytes "text/plain")
      return { response := res }

/-- The answer to a method the location does not allow. -/
def rejectMethod (loc : Location) : HandlerM ExecResult := do
  let res := HttpResponse.setStatus {} Status.kMethodNotAllowed.code
  let res ← addHeader res (bytes "Allow") loc.getAllowedMethodsString
  let res ← addHeader res (bytes "Connection") (bytes "close")
  let res ← addHeader res (bytes "Content-Type") (bytes "text/html")
  return { response := res.ensureDefaultErrorContent }

/-- The answer of a location that redirects. -/
def redirectTo (loc : Location) : HandlerM ExecResult := do
  let res ← addHeader (HttpResponse.setStatus {} loc.redirectStatus.code)
    (bytes "Location") loc.redirect
  return { response := res }

/-- The dispatch on the method. -/
def handleMethod (sys : Sys) (req : HttpRequest) (loc : Location) (filesystemPath : Bytes) :
    HandlerM ExecResult :=
  match req.method with
  | .kGet => handleGet sys req loc filesystemPath
  | .kPost => handlePost sys req loc filesystemPath
  | .kDelete => handleDelete sys filesystemPath
  -- `HEAD` is parsed and not served
  | _ => return { response := .ofStatus .kNotImplemented }

/-- The statements inside the `try` of `Run`. -/
def handleRequest (sys : Sys) (conf : ServerConfig) (req : HttpRequest) : HandlerM ExecResult := do
  let (m, filesystemPath) ← callHandler (prepareRoutingContext conf req)
  -- in front of the check of the method
  if m.loc.hasRedirect then redirectTo m.loc
  else if m.loc.hasAllowedMethods && !m.loc.isMethodAllowed req.method then rejectMethod m.loc
  else handleMethod sys req m.loc filesystemPath

/-- Where neither a redirect nor the list of methods answers, the method is dispatched on. -/
theorem handleRequest_eq_handleMethod {sys : Sys} {conf : ServerConfig} {req : HttpRequest}
    {m : LocationMatch} {path : Bytes} (hroute : prepareRoutingContext conf req = .ok (m, path))
    (hredirect : m.loc.hasRedirect = false)
    (hmethods : (m.loc.hasAllowedMethods && !m.loc.isMethodAllowed req.method) = false) :
    handleRequest sys conf req = handleMethod sys req m.loc path := by
  rw [handleRequest, hroute]
  show (if m.loc.hasRedirect = true then redirectTo m.loc
    else if (m.loc.hasAllowedMethods && !m.loc.isMethodAllowed req.method) = true then
      rejectMethod m.loc else handleMethod sys req m.loc path) = _
  rw [hredirect, hmethods]
  rfl

/-- The handlers of `Run`. -/
def ExecResult.ofException : Exception → ExecResult
  | .responseStatus status =>
      { response := (HttpResponse.ofStatus status).setBody (statusToString status.code) }
  | _ =>
      { response :=
          (HttpResponse.ofStatus .kInternalServerError).setBody (bytes "Internal Server Error") }

/-- `RequestHandler::Run`: the result, and what was done. -/
def RequestHandler.run (sys : Sys) (conf : ServerConfig) (req : HttpRequest) :
    ExecResult × List Action :=
  match (handleRequest sys conf req).run [] with
  | .ok result actions => (result, actions)
  | .error e actions => (.ofException e, actions)

end Webserv
