/-
Webserv/CgiExecutor.lean

`CgiExecutor`: from a script path to a running CGI program.

The constructor cuts the path: behind the first place that looks like a script it
is `PATH_INFO`, and what lies before it is executed.
-/
import Webserv.CgiSocket
import Webserv.ServerConfig
import Webserv.FileValidator

namespace Webserv

/-! ### Scripts -/

/-- `path[ext_end]` is the end of the path or of a segment, and the extension does
not begin a segment. -/
def isScriptAt (path ext : Bytes) (pos : Nat) : Bool :=
  let extEnd := pos + ext.length
  (extEnd == path.length || path[extEnd]? == some SLASH) &&
    (pos == 0 || path[pos - 1]? != some SLASH)

/-- The `while` loop of `CreatePathInfo` for one extension, from `pos` down: the place
at which it breaks.  Every turn that goes on moves `pos` down. -/
def findScript (path ext : Bytes) : Nat → Option Nat → Option Nat
  | 0, _ => none
  | _ + 1, none => none
  | fuel + 1, some pos =>
      if isScriptAt path ext pos then some pos
      else if pos = 0 then none
      else findScript path ext fuel (Substring.rfind ext path (pos - 1))

/-- The place of the extension `ext` in `path`. -/
def scriptPos (path ext : Bytes) : Option Nat :=
  findScript path ext (path.length + 1) (Substring.rfind ext path path.length)

/-- The `for` loop of `CreatePathInfo`, with `min_pos` and `found_ext_len`. -/
def findFirstScript (path : Bytes) : List Bytes → Option (Nat × Nat) → Option (Nat × Nat)
  | [], found => found
  | ext :: exts, found =>
      -- an empty extension is passed over
      if ext = [] then findFirstScript path exts found
      else
        match scriptPos path ext with
        | none => findFirstScript path exts found
        | some pos =>
            -- of two extensions at one place the first stays
            if found.all fun (minPos, _) => pos < minPos then
              findFirstScript path exts (some (pos, ext.length))
            else findFirstScript path exts found

/-- `CreatePathInfo`. -/
def createPathInfo (path : Bytes) (extensions : List Bytes) : Option Bytes :=
  (findFirstScript path extensions none).map fun (minPos, foundExtLen) =>
    path.drop (minPos + foundExtLen)

/-- `IsScriptExtensionAllowed`. -/
def isScriptExtensionAllowed (scriptPath : Bytes) (extensions : List Bytes) : Bool :=
  extensions.any fun ext => ext.isSuffixOf scriptPath

/-! ### The executor -/

/-- `CgiExecutor`. -/
structure CgiExecutor where
  loc : Location
  scriptPath : Bytes
  body : Bytes
  metaVars : Std.ExtTreeMap Bytes (Option Bytes) compare

/-- `InitializeMetaVars`: the map, for the `PATH_INFO` of a script. -/
def initializeMetaVars (req : HttpRequest) (loc : Location) (pathInfo : Option Bytes) :
    Std.ExtTreeMap Bytes (Option Bytes) compare :=
  .ofList
    [(bytes "AUTH_TYPE", req.headers[bytes "authorization"]?.bind fun auth => getFirstToken auth SP),
      (bytes "CONTENT_LENGTH", req.headers[bytes "content-length"]?),
      (bytes "CONTENT_TYPE", req.headers[bytes "content-type"]?),
      (bytes "GATEWAY_INTERFACE", some (bytes "CGI/1.1")),
      (bytes "PATH_INFO", pathInfo),
      (bytes "PATH_TRANSLATED", pathInfo.map fun info => loc.root ++ info),
      (bytes "QUERY_STRING", some req.queryString),
      (bytes "REQUEST_URI", pathInfo),
      (bytes "REMOTE_ADDR", some req.clientIp),
      (bytes "REMOTE_HOST", some req.clientIp),
      (bytes "REMOTE_IDENT", none),
      (bytes "REMOTE_USER", none),
      (bytes "REQUEST_METHOD", some (methodToString req.method)),
      (bytes "SCRIPT_NAME",
        match pathInfo with
        | some info => some (req.uri.take (subSize req.uri.length info.length))
        | none => some req.uri),
      (bytes "SERVER_NAME", some req.hostName),
      (bytes "SERVER_PORT", some (natToString req.hostPort)),
      (bytes "SERVER_PROTOCOL", some req.version),
      (bytes "SERVER_SOFTWARE", some (bytes "webserv/1.0"))]
    compare

/-- The entries of the environment that depend on the request's path, method and body. -/
theorem initializeMetaVars_getElem? (req : HttpRequest) (loc : Location)
    (pathInfo : Option Bytes) :
    (initializeMetaVars req loc pathInfo)[bytes "CONTENT_LENGTH"]? =
        some req.headers[bytes "content-length"]? ∧
      (initializeMetaVars req loc pathInfo)[bytes "PATH_INFO"]? = some pathInfo ∧
      (initializeMetaVars req loc pathInfo)[bytes "REQUEST_METHOD"]? =
        some (some (methodToString req.method)) ∧
      (initializeMetaVars req loc pathInfo)[bytes "SCRIPT_NAME"]? =
        some (match pathInfo with
          | some info => some (req.uri.take (subSize req.uri.length info.length))
          | none => some req.uri) := by
  obtain ⟨vars, hvars, hdistinct, hlength, hinfo, hmethod, hname⟩ :
      ∃ vars, initializeMetaVars req loc pathInfo = .ofList vars compare ∧
        vars.Pairwise (fun a b => ¬ compare a.1 b.1 = .eq) ∧
        (bytes "CONTENT_LENGTH", req.headers[bytes "content-length"]?) ∈ vars ∧
        (bytes "PATH_INFO", pathInfo) ∈ vars ∧
        (bytes "REQUEST_METHOD", some (methodToString req.method)) ∈ vars ∧
        (bytes "SCRIPT_NAME", match pathInfo with
          | some info => some (req.uri.take (subSize req.uri.length info.length))
          | none => some req.uri) ∈ vars := by
    refine ⟨_, rfl, ?_, ?_, ?_, ?_, ?_⟩
    · rw [← List.pairwise_map (f := Prod.fst) (R := fun a b => ¬ compare a b = .eq)]
      simp only [List.map_cons, List.map_nil]
      decide +kernel
    all_goals simp only [List.mem_cons, true_or, or_true]
  have hentry : ∀ key value, (key, value) ∈ vars →
      (initializeMetaVars req loc pathInfo)[key]? = some value := by
    intro key value hmem
    rw [hvars]
    exact Std.ExtTreeMap.getElem?_ofList_of_mem (k := key) (by simp) hdistinct hmem
  exact ⟨hentry _ _ hlength, hentry _ _ hinfo, hentry _ _ hmethod, hentry _ _ hname⟩

/-- `CgiExecutor(req, loc, script_path)`. -/
def CgiExecutor.construct (req : HttpRequest) (loc : Location) (scriptPath : Bytes) :
    CgiExecutor :=
  let pathInfo := createPathInfo scriptPath loc.cgiAllowedExtensions
  { loc := loc
    scriptPath :=
      match pathInfo with
      -- the script ends where `PATH_INFO` begins
      | some info => scriptPath.take (scriptPath.length - info.length)
      | none => scriptPath
    body := req.body
    metaVars := initializeMetaVars req loc pathInfo }

/-- `GetMetaVars`: the environment of the program. -/
def CgiExecutor.getMetaVars (cgi : CgiExecutor) : List Bytes :=
  cgi.metaVars.toList.filterMap fun (key, value) => value.map fun value => key ++ bytes "=" ++ value

/-! ### Running -/

/-- The answers of the system to one `RequestHandler::Run`. -/
structure Sys where
  /-- `stat`, in `IsDirectory` -/
  isDirectory : Bytes → Bool
  /-- `stat`, elsewhere -/
  stat : Bytes → Except Errno FileKind
  /-- `access`; the mode is the caller's -/
  access : Bytes → Option Errno
  /-- `std::ifstream`: what the file holds -/
  ifstream : Bytes → Except Errno Bytes
  /-- `std::ofstream`, with the data that is written -/
  ofstream : Bytes → Bytes → OfstreamResult
  /-- `std::remove` -/
  remove : Bytes → Option Errno
  socketpair : Option (Fd × Fd)
  fork : Option Pid
  /-- `fcntl`, in `SetNonBlocking` -/
  fcntl : Option Errno
  /-- `write` to the program: how much of the data it accepts -/
  write : Option Nat
  /-- `std::time`, when the `CgiSocket` is built -/
  now : Int

/-- A system in which every file is there, and every call succeeds but `write`. -/
def sampleSys : Sys where
  isDirectory _ := false
  stat _ := .ok .regular
  access _ := none
  ifstream _ := .ok []
  ofstream _ data := ⟨true, true, data.length⟩
  remove _ := none
  socketpair := some (6, 7)
  fork := some 100
  fcntl := none
  write := none
  now := 0

/-- A server with programs in `/srv`. -/
def sampleConfig : ServerConfig where
  locations := [{
    name := bytes "/"
    root := bytes "/srv"
    cgiEnabled := true
    cgiAllowedExtensions := [bytes ".py"] }]

/-- A program of the request handler, with the actions so far. -/
abbrev HandlerM := EStateM Exception (List Action)

/-- Do something that others can see. -/
def act (action : Action) : HandlerM Unit := modify (· ++ [action])

/-- Call a function that does nothing others can see. -/
def callHandler {α : Type} : Except Exception α → HandlerM α
  | .ok a => pure a
  | .error e => throw e

/-- `throw lib::exception::ResponseStatusException(status)`. -/
def failHandler {α : Type} (status : Status) : HandlerM α := throw (.responseStatus status)

/-- `ExecResult`. -/
structure ExecResult where
  response : HttpResponse
  newSocket : Option CgiSocket := none
  isAsync : Bool := false

/-- `ExecResult(sock)`. -/
def ExecResult.ofSocket (sock : CgiSocket) : ExecResult where
  response := .ofStatus .kOk
  newSocket := some sock
  isAsync := true

/-- `Send`: the caller does not look at the result. -/
def sendToCgi (sys : Sys) (data : Bytes) : HandlerM Unit :=
  act (.writeCgi data (min data.length (sys.write.getD 0)))

/-- `CgiExecutor::Run`. -/
def CgiExecutor.run (cgi : CgiExecutor) (sys : Sys) : HandlerM ExecResult := do
  if !isScriptExtensionAllowed cgi.scriptPath cgi.loc.cgiAllowedExtensions then
    return { response := .ofStatus .kForbidden }
  else
    match sys.socketpair with
    | none => failHandler .kInternalServerError
    | some (sv0, sv1) =>
        act (.socketpair sv0 sv1)
        match sys.fork with
        | none =>
            act (.close sv1)
            act (.close sv0)
            failHandler .kInternalServerError
        | some pid =>
            act (.fork pid)
            -- what the child does next is not that of this process
            act (.execve cgi.scriptPath cgi.getMetaVars)
            act (.close sv1)
            -- the parent goes on; the constructor throws if `fcntl` fails, and the child is left to itself
            match CgiSocket.construct sv0 pid sys.fcntl sys.now with
            | .error e =>
                act (.close sv0)
                throw e
            | .ok cgiSocket =>
                if cgi.metaVars[bytes "REQUEST_METHOD"]? = some (some (bytes "POST")) then
                  sendToCgi sys cgi.body
                return .ofSocket cgiSocket

end Webserv
