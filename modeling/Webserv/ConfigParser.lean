/-
Webserv/ConfigParser.lean

`ConfigParser`: the configuration file as a list of servers.

A directive's function works on the object it is given a pointer to; here it
takes the object and returns it.  A `while (true)` loop runs for at most as many
iterations as the text has bytes, and one more.
-/
import Webserv.ServerConfig
import Webserv.HostValidation
import Webserv.FileValidator

namespace Webserv

/-! ### The parser object -/

/-- `ConfigParser`. -/
structure ConfigParser where
  content : Bytes
  currentPos : Nat := 0
  serverConfigs : List ServerConfig := []

/-- A member function of `ConfigParser`. -/
abbrev ConfigM := EStateM ConfigError ConfigParser

/-- `throw std::runtime_error(message + token)`. -/
def throwRuntime {α : Type} (message : String) (token : Bytes) : ConfigM α :=
  throw (.runtimeError (bytes message ++ token))

/-- Call a function that touches no member. -/
def callConfig {α : Type} : Except ConfigError α → ConfigM α
  | .ok a => pure a
  | .error e => throw e

/-! ### Tokens -/

/-- A byte of `kWhitespace`. -/
def isConfigSpace (c : Byte) : Bool := c == 32 || c == 9 || c == 13 || c == 10

/-- A byte of `kSpecialLetter`. -/
def isSpecialLetter (c : Byte) : Bool := c == 123 || c == 125 || c == 59

/-- The token `Tokenize` takes from the rest of the text, the empty one at its end. -/
def firstToken (rest : Bytes) : Bytes :=
  match rest.dropWhile isConfigSpace with
  | [] => []
  | c :: cs =>
      if isSpecialLetter c then [c]
      else (c :: cs).takeWhile fun c => !isConfigSpace c && !isSpecialLetter c

/-- `Tokenize`. -/
def tokenize : ConfigM Bytes := do
  let p ← get
  if p.currentPos ≥ p.content.length then return []
  else
    let rest := p.content.drop p.currentPos
    let token := firstToken rest
    let skipped := (rest.takeWhile isConfigSpace).length
    set { p with currentPos := p.currentPos + skipped + token.length }
    return token

/-- `enum TokenType`. -/
inductive TokenType
  | kTokenUnknown | kTokenListen | kTokenServerName | kTokenMaxBody | kTokenErrorPage
  | kTokenLocation | kTokenAllowedMethods | kTokenRoot | kTokenAutoindex | kTokenIndex
  | kTokenUploadPath | kTokenRedirect | kTokenCgi | kTokenCgiAllowedExtensions
  deriving DecidableEq, Repr

/-- `kTokenTable`. -/
def tokenTable : List (Bytes × TokenType) :=
  [(bytes "listen", .kTokenListen), (bytes "server_name", .kTokenServerName),
    (bytes "client_max_body_size", .kTokenMaxBody), (bytes "error_page", .kTokenErrorPage),
    (bytes "location", .kTokenLocation), (bytes "allowed_methods", .kTokenAllowedMethods),
    (bytes "root", .kTokenRoot), (bytes "autoindex", .kTokenAutoindex),
    (bytes "index", .kTokenIndex), (bytes "upload_path", .kTokenUploadPath),
    (bytes "redirect", .kTokenRedirect), (bytes "cgi", .kTokenCgi),
    (bytes "cgi_allowed_extensions", .kTokenCgiAllowedExtensions)]

/-- `ToTokenType`. -/
def toTokenType (token : Bytes) : TokenType := (tokenTable.lookup token).getD .kTokenUnknown

/-- `ConsumeExpectedSemicolon`. -/
def consumeExpectedSemicolon (directiveName : String) : ConfigM Unit := do
  if (← tokenize) ≠ bytes ";" then
    throwRuntime ("Expected ';' after " ++ directiveName ++ " directive") []

/-- `ParseSimpleDirective`. -/
def parseSimpleDirective {τ : Type} (setter : τ → Bytes → Except ConfigError τ)
    (errorMsg : String) (obj : τ) : ConfigM τ := do
  let token ← tokenize
  if token = [] then throwRuntime ("Syntax error: expected " ++ errorMsg) []
  else
    let obj ← callConfig (setter obj token)
    consumeExpectedSemicolon errorMsg
    return obj

/-- `std::atoi`: white space, an optional sign, the leading digits.  A value that no `int` holds is
undefined in C; that it is read modulo 2^32 is an assumption on the C library (glibc does so up to
2^63, and answers with -1 or 0 beyond). -/
def atoi (s : Bytes) : Int :=
  match scanInteger s with
  | (false, ds, _) => toInt (decimalVal ds)
  | (true, ds, _) => toInt (-(decimalVal ds : Int))

/-! ### Directives of a location -/

/-- The loop of `ParseMethods`; `isMethodEmpty` is the flag of the source. -/
def parseMethodList : Nat → Location → Bool → ConfigM Location
  | 0, _, _ => throw .diverges
  | fuel + 1, location, isMethodEmpty => do
      let token ← tokenize
      if token = bytes ";" then
        if isMethodEmpty then throwRuntime "No methods specified in allowed_methods directive" []
        else return { location with hasAllowedMethods := true }
      else if token = bytes "GET" then
        parseMethodList fuel (location.addAllowedMethod .kGet) false
      else if token = bytes "POST" then
        parseMethodList fuel (location.addAllowedMethod .kPost) false
      else if token = bytes "DELETE" then
        parseMethodList fuel (location.addAllowedMethod .kDelete) false
      else throwRuntime "Invalid method in allowed_methods: " token

/-- The iterations a loop of the parser may take. -/
def ConfigParser.fuel (p : ConfigParser) : Nat := p.content.length + 1

/-- `ParseMethods`. -/
def parseMethods (location : Location) : ConfigM Location := do
  if location.hasAllowedMethods then throwRuntime "Duplicate allowed_methods directive" []
  else parseMethodList (← get).fuel location true

/-- `JoinAndNormalizePath`. -/
def joinAndNormalizePath (base relative : Bytes) : Except ConfigError Bytes :=
  if base = [] ∨ base = dot then .ok relative
  -- any two dots, also within a name
  else if (Substring.find dotdot relative).isSome then
    runtimeError "Relative path contains '..', which is not allowed"
  else
    match normalizePathBySegments (base ++ [SLASH] ++ relative) with
    | .ok path => .ok path
    | .error (.responseStatus status) => .error (.responseStatus status)
    | .error _ => .error .diverges

/-- `ResolveRootPath`, where `getcwd` gives `cwd`, or fails. -/
def resolveRootPath (cwd : Option Bytes) (token : Bytes) : Except ConfigError Bytes :=
  if token.head? = some SLASH then .ok token
  else
    match cwd with
    | none => runtimeError "Failed to get current working directory"
    | some currentDir => joinAndNormalizePath currentDir token

/-- `RequireAbsoluteSafePathOrThrow`. -/
def requireAbsoluteSafePathOrThrow (path : Bytes) (label : String) : Except ConfigError Unit :=
  if path.head? ≠ some SLASH then
    .error (.runtimeError (bytes (label ++ " must be an absolute path: ") ++ path))
  else if path.any fun c => !isValidHeaderChar c then
    .error (.runtimeError (bytes (label ++ " contains invalid character: ") ++ path))
  else .ok ()

/-- `ParseRoot`. -/
def parseRoot (cwd : Option Bytes) (location : Location) : ConfigM Location := do
  let token ← tokenize
  if token = [] then throwRuntime "Syntax error: expected root path but got empty token" []
  else
    let resolved ← callConfig (resolveRootPath cwd token)
    callConfig (requireAbsoluteSafePathOrThrow resolved "Root path")
    let location ← callConfig (location.setRoot resolved)
    consumeExpectedSemicolon "root path"
    return location

/-- `ParseAutoIndex`. -/
def parseAutoIndex (location : Location) : ConfigM Location := do
  let token ← tokenize
  if token = [] then throwRuntime "Syntax error: expected autoindex value" token
  else if token ≠ bytes "on" ∧ token ≠ bytes "off" then
    throwRuntime "Invalid autoindex value: " token
  else
    let location ← callConfig (location.setAutoIndex (token == bytes "on"))
    consumeExpectedSemicolon "autoindex"
    return location

/-- `IsSafeIndexFilename`. -/
def isSafeIndexFilename (filename : Bytes) : Bool :=
  if filename = [] then false
  else if (Substring.find (bytes "../") filename).isSome then false
  else if filename.contains SLASH then false
  else filename.all fun c =>
    isVisibleAscii c && (isAlnum c || c == DOT || c == HYPHEN || c == 95)

/-- `ParseIndex`. -/
def parseIndex (location : Location) : ConfigM Location := do
  let token ← tokenize
  if token = [] then
    throwRuntime "Syntax error: expected index file name  but got empty token" []
  else if !isSafeIndexFilename token then throwRuntime "Unsafe index file name: " token
  else
    let location ← callConfig (location.setIndexFile token)
    consumeExpectedSemicolon "index file name"
    return location

/-- `ParseUploadPath`. -/
def parseUploadPath (location : Location) : ConfigM Location := do
  let token ← tokenize
  if token = [] then throwRuntime "Syntax error: expected upload path but got empty token" []
  else
    callConfig (requireAbsoluteSafePathOrThrow token "Upload path")
    let location ← callConfig (location.setUploadPath token)
    consumeExpectedSemicolon "upload path"
    return location

/-- `ParseRedirect`. -/
def parseRedirect : Location → ConfigM Location :=
  parseSimpleDirective Location.setRedirect "redirect value"

/-- `ParseCgi`. -/
def parseCgi : Location → ConfigM Location :=
  parseSimpleDirective Location.setCgiEnabled "cgi value"

/-- The loop of `ParseCgiAllowedExtensions`, behind its first token. -/
def parseExtensionList : Nat → Location → Bytes → ConfigM Location
  | 0, _, _ => throw .diverges
  | fuel + 1, location, token => do
      if token = [] ∨ token = bytes ";" then
        return { location with hasCgiAllowedExtensions := true }
      else
        parseExtensionList fuel
          { location with cgiAllowedExtensions := location.cgiAllowedExtensions ++ [token] }
          (← tokenize)

/-- `ParseCgiAllowedExtensions`. -/
def parseCgiAllowedExtensions (location : Location) : ConfigM Location := do
  if location.hasCgiAllowedExtensions then
    throwRuntime "Duplicate cgi allowed extensions directive" []
  else
    let token ← tokenize
    if token = [] ∨ token = bytes ";" then
      throwRuntime
        "Syntax error: expected cgi allowed extensions but got empty token or ;" []
    else parseExtensionList (← get).fuel location token

/-! ### Locations -/

/-- `IsValidLocationName`. -/
def isValidLocationName (name : Bytes) : Bool :=
  name.head? == some SLASH && (Substring.find dotdot name).isNone &&
    (Substring.find [SLASH, SLASH] name).isNone

/-- The `switch` of `ParseLocation`. -/
def parseLocationDirective (cwd : Option Bytes) (token : Bytes) (location : Location) :
    ConfigM Location :=
  match toTokenType token with
  | .kTokenAllowedMethods => parseMethods location
  | .kTokenRoot => parseRoot cwd location
  | .kTokenAutoindex => parseAutoIndex location
  | .kTokenIndex => parseIndex location
  | .kTokenUploadPath => parseUploadPath location
  | .kTokenRedirect => parseRedirect location
  | .kTokenCgi => parseCgi location
  | .kTokenCgiAllowedExtensions => parseCgiAllowedExtensions location
  | _ => throwRuntime "Unknown directive in location: " token

/-- The loop of `ParseLocation`. -/
def parseLocationBody (cwd : Option Bytes) : Nat → Location → ConfigM Location
  | 0, _ => throw .diverges
  | fuel + 1, location => do
      let token ← tokenize
      if token = bytes "\x7d" then return location
      else
        let location ← parseLocationDirective cwd token location
        parseLocationBody cwd fuel location

/-- `ParseLocation`. -/
def parseLocation (cwd : Option Bytes) (server : ServerConfig) : ConfigM ServerConfig := do
  let name ← tokenize
  if !isValidLocationName name then throwRuntime "Invalid location name: " name
  else
    let token ← tokenize
    if token ≠ bytes "\x7b" then
      throwRuntime "Syntax error: expected '\x7b' after location name, got: " token
    else
      let location ← parseLocationBody cwd (← get).fuel { name := name }
      callConfig (server.addLocation location)

/-! ### Directives of a server -/

/-- `IsAllDigits`. -/
def isAllDigits (str : Bytes) : Bool := str.all isDigit

/-- `IsValidPortNumber`. -/
def isValidPortNumber (port : Bytes) : Bool :=
  if port = [] ∨ port.length > 5 then false
  else if !port.all isDigit then false
  else 0 < atoi port && atoi port ≤ 65535

/-- `StrToUnsignedShort(port).Value()`. -/
def portValue (port : Bytes) : Except ConfigError Nat :=
  match strToUnsignedShort port with
  | some n => .ok n
  | none => .error .badOptionalAccess

/-- `ParseListen`. -/
def parseListen (config : ServerConfig) : ConfigM ServerConfig := do
  let token1 ← tokenize
  if token1 = [] then throwRuntime "Syntax error : expected host or port after listen" []
  else if token1.contains COLON then
    let host := token1.takeWhile (· ≠ COLON)
    let port := (token1.dropWhile (· ≠ COLON)).drop 1
    if !isValidHost host then throwRuntime "Invalid host in listen directive: " host
    else if !isValidPortNumber port then
      throwRuntime "Invalid port number after ':' in listen directive: " port
    else
      let last ← tokenize
      if last ≠ bytes ";" then
        throwRuntime "Syntax error: expected ';' after listen directive " last
      else callConfig (portValue port >>= config.setListen host)
  else
    let token2 ← tokenize
    if token2 ≠ bytes ";" then
      throwRuntime "Syntax error: expected ';' after listen value: " token2
    else if isAllDigits token1 then
      if !isValidPortNumber token1 then
        throwRuntime "Invalid port number in listen directive: " token1
      else callConfig (portValue token1 >>= config.setPort)
    else if !isValidHost token1 then throwRuntime "Invalid host in listen directive: " token1
    else callConfig (config.setHost token1)

/-- `ParseServerName`. -/
def parseServerName : ServerConfig → ConfigM ServerConfig :=
  parseSimpleDirective ServerConfig.setServerName "server_name value"

/-- `ParseMaxBody`. -/
def parseMaxBody (config : ServerConfig) : ConfigM ServerConfig := do
  let token ← tokenize
  if token = [] then throwRuntime "Syntax error : expected max_body value" token
  else
    let size := atoi token
    if size < 0 ∨ size > 100000000 then throwRuntime "Invalid max_body size: " token
    else
      let config ← callConfig (config.setMaxBodySize size)
      consumeExpectedSemicolon "max_body"
      return config

/-- `ParseErrorPage`. -/
def parseErrorPage (config : ServerConfig) : ConfigM ServerConfig := do
  let token ← tokenize
  if token = [] then throwRuntime "Syntax error : expected error code" token
  else
    let errorCode := atoi token
    if errorCode < 400 ∨ errorCode > 599 then throwRuntime "Invalid error code: " token
    else
      let path ← tokenize
      if path = [] then throwRuntime "Syntax error : expected error page path" path
      else if path.head? = some DOT then
        throwRuntime "Error page path must be absolute: " path
      else
        let absolute := bytes "https://" <+: path ∨ bytes "http://" <+: path ∨
          path.head? = some SLASH
        let config := config.setErrorPage errorCode (if absolute then path else SLASH :: path)
        consumeExpectedSemicolon "error_page"
        return config

/-! ### Servers -/

/-- The `switch` of `ParseServer`. -/
def parseServerDirective (cwd : Option Bytes) (token : Bytes) (config : ServerConfig) :
    ConfigM ServerConfig :=
  match toTokenType token with
  | .kTokenListen => parseListen config
  | .kTokenServerName => parseServerName config
  | .kTokenMaxBody => parseMaxBody config
  | .kTokenErrorPage => parseErrorPage config
  | .kTokenLocation => parseLocation cwd config
  | _ => throwRuntime "Unknown directive: " token

/-- The loop of `ParseServer`. -/
def parseServerBody (cwd : Option Bytes) : Nat → ServerConfig → ConfigM ServerConfig
  | 0, _ => throw .diverges
  | fuel + 1, config => do
      let token ← tokenize
      if token = bytes "\x7d" then return config
      else
        let config ← parseServerDirective cwd token config
        parseServerBody cwd fuel config

/-- `ParseServer`. -/
def parseServer (cwd : Option Bytes) : ConfigM Unit := do
  let token ← tokenize
  if token ≠ bytes "\x7b" then throwRuntime "Syntax error: " token
  else
    let config ← parseServerBody cwd (← get).fuel {}
    modify fun p => { p with serverConfigs := p.serverConfigs ++ [config] }

/-- The loop of `Parse`. -/
def parseServers (cwd : Option Bytes) : Nat → ConfigM Unit
  | 0 => throw .diverges
  | fuel + 1 => do
      let token ← tokenize
      if token = [] then return
      else if token = bytes "server" then
        parseServer cwd
        parseServers cwd fuel
      else throwRuntime "Syntax error: " token

/-- `ConfigParser::Parse`: the servers of the text. -/
def ConfigParser.parse (cwd : Option Bytes) (content : Bytes) :
    Except ConfigError (List ServerConfig) :=
  match (do parseServers cwd (← get).fuel : ConfigM Unit).run { content := content } with
  | .ok _ p => .ok p.serverConfigs
  | .error e _ => .error e

end Webserv
