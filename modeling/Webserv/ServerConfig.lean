/-
Webserv/ServerConfig.lean

`Location` and `ServerConfig`: what the configuration file says about a server,
and the location that is responsible for a URI.

The setters that refuse to be called twice throw `std::runtime_error`; the model
keeps its message.
-/
import Webserv.HttpResponse

namespace Webserv

/-! ### Locations -/

/-- What the configuration parser may throw.  `diverges` stands for a loop that has
not ended within the iterations the model allows it. -/
inductive ConfigError
  | runtimeError (message : Bytes)
  | responseStatus (status : Status)
  /-- of `Value`, where an `Optional` holds none; its text is `bad optional access` -/
  | badOptionalAccess
  | diverges
  deriving DecidableEq, Repr

/-- `throw std::runtime_error(message)`. -/
def runtimeError {α : Type} (message : String) : Except ConfigError α :=
  .error (.runtimeError (bytes message))

/-- `Location`, as its constructor leaves it. -/
structure Location where
  /-- `methods_`, a set: the order of insertion is never looked at -/
  methods : List Method := []
  name : Bytes := bytes "/"
  root : Bytes := bytes "./"
  autoindex : Bool := false
  indexFile : Bytes := []
  uploadPath : Bytes := []
  redirect : Bytes := []
  redirectStatus : Status := .kFound
  cgiEnabled : Bool := false
  cgiAllowedExtensions : List Bytes := []
  hasAllowedMethods : Bool := false
  hasRoot : Bool := false
  hasAutoindex : Bool := false
  hasIndexDirective : Bool := false
  hasUploadPath : Bool := false
  hasRedirect : Bool := false
  hasCgiEnabled : Bool := false
  hasCgiAllowedExtensions : Bool := false
  deriving DecidableEq, Repr

namespace Location

/-- `AddAllowedMethod`. -/
def addAllowedMethod (loc : Location) (method : Method) : Location :=
  { loc with methods := if method ∈ loc.methods then loc.methods else loc.methods ++ [method] }

/-- `IsMethodAllowed`. -/
def isMethodAllowed (loc : Location) (method : Method) : Bool := loc.methods.contains method

/-- `GetAllowedMethodsString`: a `std::set` is walked in the order of its keys. -/
def getAllowedMethodsString (loc : Location) : Bytes :=
  (bytes ", ").intercalate
    (([.kNone, .kGet, .kHead, .kPost, .kDelete, .kUnknownMethod].filter loc.isMethodAllowed).map
      methodToString)

/-- `SetRoot`. -/
def setRoot (loc : Location) (root : Bytes) : Except ConfigError Location :=
  if loc.hasRoot then runtimeError "Duplicate root directive"
  else .ok { loc with root := root, hasRoot := true }

/-- `SetAutoIndex`. -/
def setAutoIndex (loc : Location) (autoindex : Bool) : Except ConfigError Location :=
  if loc.hasAutoindex then runtimeError "Duplicate autoindex directive"
  else .ok { loc with autoindex := autoindex, hasAutoindex := true }

/-- `SetIndexFile`. -/
def setIndexFile (loc : Location) (index : Bytes) : Except ConfigError Location :=
  if loc.hasIndexDirective then runtimeError "Duplicate index directive"
  else .ok { loc with indexFile := index, hasIndexDirective := true }

/-- `SetUploadPath`. -/
def setUploadPath (loc : Location) (path : Bytes) : Except ConfigError Location :=
  if loc.hasUploadPath then runtimeError "Duplicate upload_path directive"
  else .ok { loc with uploadPath := path, hasUploadPath := true }

/-- `SetRedirect`. -/
def setRedirect (loc : Location) (redirect : Bytes) : Except ConfigError Location :=
  if loc.hasRedirect then runtimeError "Duplicate redirect directive"
  else .ok { loc with redirect := redirect, redirectStatus := .kFound, hasRedirect := true }

/-- `SetCgiEnabled`. -/
def setCgiEnabled (loc : Location) (value : Bytes) : Except ConfigError Location :=
  if loc.hasCgiEnabled then runtimeError "Duplicate cgi directive"
  else if value ≠ bytes "on" ∧ value ≠ bytes "off" then
    .error (.runtimeError (bytes "Invalid cgi value: " ++ value))
  else .ok { loc with cgiEnabled := value == bytes "on", hasCgiEnabled := true }

end Location

/-! ### Routing keys -/

/-- `ServerConfig::TrimTrailingSlashExceptRoot`. -/
def trimTrailingSlashExceptRoot : Bytes → Bytes
  | [] => []
  | c :: cs => c :: cs.rdropWhile (· = SLASH)

/-- `ServerConfig::IsPathPrefix`. -/
def isPathPrefix (uriKey locKey : Bytes) : Bool :=
  if locKey = [SLASH] then true
  else if uriKey.length < locKey.length then false
  else if uriKey.take locKey.length ≠ locKey then false
  else if uriKey.length = locKey.length then true
  else uriKey[locKey.length]? == some SLASH

/-! ### Servers -/

/-- `ServerConfig`, as its constructor leaves it. -/
structure ServerConfig where
  host : Bytes := bytes "0.0.0.0"
  /-- `port_`, an `unsigned short` -/
  port : Nat := 80
  serverName : Bytes := []
  /-- `max_body_size_`, an `int` -/
  maxBodySize : Int := 0
  /-- `errors_`, with the values of its statuses as keys -/
  errors : Std.ExtTreeMap Int Bytes compare := ∅
  locations : List Location := []
  hasListen : Bool := false
  hasServerName : Bool := false
  hasMaxBody : Bool := false

/-- `LocationMatch`, of a location that was found. -/
structure LocationMatch where
  loc : Location
  remainder : Bytes
  deriving DecidableEq, Repr

namespace ServerConfig

/-- `SetListen`. -/
def setListen (config : ServerConfig) (host : Bytes) (port : Nat) :
    Except ConfigError ServerConfig :=
  if config.hasListen then runtimeError "Duplicate listen directive"
  else .ok { config with host := host, port := port, hasListen := true }

/-- `SetHost`. -/
def setHost (config : ServerConfig) (host : Bytes) : Except ConfigError ServerConfig :=
  config.setListen host config.port

/-- `SetPort`. -/
def setPort (config : ServerConfig) (port : Nat) : Except ConfigError ServerConfig :=
  config.setListen config.host port

/-- `SetServerName`. -/
def setServerName (config : ServerConfig) (serverName : Bytes) : Except ConfigError ServerConfig :=
  if config.hasServerName then runtimeError "Duplicate server_name directive"
  else .ok { config with serverName := serverName, hasServerName := true }

/-- `SetMaxBodySize`. -/
def setMaxBodySize (config : ServerConfig) (size : Int) : Except ConfigError ServerConfig :=
  if config.hasMaxBody then runtimeError "Duplicate client_max_body_size directive"
  else .ok { config with maxBodySize := size, hasMaxBody := true }

/-- `SetErrorPage`. -/
def setErrorPage (config : ServerConfig) (code : Int) (path : Bytes) : ServerConfig :=
  { config with errors := config.errors.insert code path }

/-- `AddLocation`. -/
def addLocation (config : ServerConfig) (location : Location) :
    Except ConfigError ServerConfig :=
  let name := trimTrailingSlashExceptRoot location.name
  if config.locations.any fun l => trimTrailingSlashExceptRoot l.name = name then
    .error (.runtimeError (bytes "Duplicate location name: " ++ name))
  else .ok { config with locations := config.locations ++ [location] }

/-- The loop of `FindLocationForUri`, with `best.loc` and `best_len`. -/
def findBest (uriKey : Bytes) : List Location → Option Location → Nat → Option Location
  | [], best, _ => best
  | loc :: locs, best, bestLen =>
      let locKey := trimTrailingSlashExceptRoot loc.name
      -- only a longer key takes the place of the best so far
      if isPathPrefix uriKey locKey ∧ locKey.length > bestLen then
        findBest uriKey locs (some loc) locKey.length
      else findBest uriKey locs best bestLen

/-- `FindLocationForUri`. -/
def findLocationForUri (config : ServerConfig) (uri : Bytes) : Except Exception LocationMatch :=
  let uriKey := trimTrailingSlashExceptRoot uri
  match findBest uriKey config.locations none 0 with
  | none => .error (.responseStatus .kNotFound)
  | some loc =>
      let bestKey := trimTrailingSlashExceptRoot loc.name
      if uriKey.length = bestKey.length then .ok ⟨loc, [SLASH]⟩
      else
        let remainder := uriKey.drop bestKey.length
        -- the rest always begins with a slash
        let remainder := if remainder = [] then [SLASH] else remainder
        .ok ⟨loc, if remainder.head? ≠ some SLASH then SLASH :: remainder else remainder⟩

end ServerConfig

end Webserv
