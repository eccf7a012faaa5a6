/-
Webserv/ConfigMeaning.lean

What a configuration file means.

A file is a list of blocks, and a block a list of statements.  Each statement changes the server
of its block; a host and port, a name, a body limit and a location may be given once, and an
error page replaces the one before it.  `Parse` accepts exactly the texts whose tokens are those
of such a file, and returns the servers that it describes.
-/
import Webserv.ConfigNumbers
import Webserv.Theory.Declarations

namespace Webserv

/-! ### Statements of a server -/

/-- A statement in the block of a server. -/
inductive ServerStatement
  | listen (t : Bytes)
  | serverName (t : Bytes)
  | maxBody (t : Bytes)
  | errorPage (t path : Bytes)
  | location (name : Bytes) (stmts : List Statement)
  deriving DecidableEq, Repr

/-- What a server can be given once. -/
inductive ServerKey
  | listen
  | serverName
  | maxBody
  | location (key : Bytes)
  deriving DecidableEq, Repr

/-- The host in the argument of `listen`, if there is one. -/
def hostToken (t : Bytes) : Option Bytes :=
  if t.contains COLON then some (t.takeWhile (· ≠ COLON))
  else if isAllDigits t then none
  else some t

/-- The path of an error page; what is no URL starts with a slash. -/
def pagePath (path : Bytes) : Bytes :=
  if bytes "https://" <+: path ∨ bytes "http://" <+: path ∨ path.head? = some SLASH then path
  else SLASH :: path

namespace ServerStatement

def keyword : ServerStatement → Bytes
  | .listen _ => bytes "listen"
  | .serverName _ => bytes "server_name"
  | .maxBody _ => bytes "client_max_body_size"
  | .errorPage _ _ => bytes "error_page"
  | .location _ _ => bytes "location"

/-- The directive that the keyword stands for. -/
def kind : ServerStatement → TokenType
  | .listen _ => .kTokenListen
  | .serverName _ => .kTokenServerName
  | .maxBody _ => .kTokenMaxBody
  | .errorPage _ _ => .kTokenErrorPage
  | .location _ _ => .kTokenLocation

/-- The tokens behind the keyword. -/
def taken : ServerStatement → List Bytes
  | .listen t | .serverName t | .maxBody t => [t, bytes ";"]
  | .errorPage t path => [t, path, bytes ";"]
  | .location name stmts =>
      name :: bytes "\x7b" :: (stmts.flatMap Statement.tokens ++ [bytes "\x7d"])

/-- The tokens of a statement. -/
def tokens (s : ServerStatement) : List Bytes := s.keyword :: s.taken

/-- What may be given once. -/
def key : ServerStatement → Option ServerKey
  | .listen _ => some .listen
  | .serverName _ => some .serverName
  | .maxBody _ => some .maxBody
  | .errorPage _ _ => none
  | .location name _ => some (.location (trimTrailingSlashExceptRoot name))

/-- The arguments pass the checks of the statement. -/
def Checked (cwd : Option Bytes) : ServerStatement → Prop
  | .listen t => (∀ host ∈ hostToken t, isValidHost host = true) ∧
      ∀ port ∈ portToken t, isValidPortNumber port = true
  | .serverName t => t ≠ []
  | .maxBody t => t ≠ [] ∧ 0 ≤ atoi t ∧ atoi t ≤ 100000000
  | .errorPage t path => t ≠ [] ∧ (400 ≤ atoi t ∧ atoi t ≤ 599) ∧ path ≠ [] ∧
      path.head? ≠ some DOT
  | .location name stmts => isValidLocationName name = true ∧ (∀ s ∈ stmts, s.Checked cwd) ∧
      (stmts.map Statement.kind).Nodup

/-- The server that the statement makes of one. -/
def apply (cwd : Option Bytes) (s : ServerStatement) (config : ServerConfig) : ServerConfig :=
  match s with
  | .listen t =>
      { config with
        host := (hostToken t).getD config.host
        port := ((portToken t).map decimalVal).getD config.port
        hasListen := true }
  | .serverName t => { config with serverName := t, hasServerName := true }
  | .maxBody t => { config with maxBodySize := atoi t, hasMaxBody := true }
  | .errorPage t path => config.setErrorPage (atoi t) (pagePath path)
  | .location name stmts =>
      { config with
        locations := config.locations ++ [(locationSettings cwd).setAll { name := name } stmts] }

end ServerStatement

/-- What has been given to a server. -/
def ServerConfig.isGiven (key : ServerKey) (config : ServerConfig) : Bool :=
  match key with
  | .listen => config.hasListen
  | .serverName => config.hasServerName
  | .maxBody => config.hasMaxBody
  | .location key => (config.locations.map Location.key).contains key

section Statements

variable {cwd : Option Bytes} {config config' : ServerConfig} {loc : Location}

theorem setAll_name (stmts : List Statement) :
    ((locationSettings cwd).setAll loc stmts).name = loc.name := by
  induction stmts generalizing loc with
  | nil => rfl
  | cons s stmts ih =>
      refine ih.trans ?_
      show (loc.store cwd s.kind s.arguments).name = loc.name
      cases s.kind <;> rfl

theorem isGiven_apply (cwd : Option Bytes) (k : ServerKey) (s : ServerStatement)
    (config : ServerConfig) : (s.apply cwd config).isGiven k = true ↔
      s.key = some k ∨ config.isGiven k = true := by
  cases s with
  | location name stmts =>
      cases k with
      | location key =>
          rw [ServerStatement.apply, ServerConfig.isGiven, ServerConfig.isGiven, List.map_append,
            List.contains_append, Bool.or_eq_true, or_comm, ServerStatement.key]
          refine or_congr_left ?_
          have hkey : ((locationSettings cwd).setAll { name := name } stmts).key =
              trimTrailingSlashExceptRoot name := by
            rw [Location.key, setAll_name]
          rw [List.map_singleton, hkey]
          simp [eq_comm]
      | listen | serverName | maxBody =>
          exact (or_iff_right fun h => ServerKey.noConfusion (Option.some.inj h)).symm
  | errorPage t path =>
      have hsame : ((ServerStatement.errorPage t path).apply cwd config).isGiven k =
          config.isGiven k := by
        cases k <;> rfl
      rw [hsame]
      exact (or_iff_right (Option.some_ne_none _).symm).symm
  | listen t | serverName t | maxBody t =>
      cases k with
      | listen | serverName | maxBody | location =>
          first
          | exact iff_of_true rfl (.inl rfl)
          | exact (or_iff_right fun h => ServerKey.noConfusion (Option.some.inj h)).symm

/-- A server as what its statements declare. -/
def serverDeclarations (cwd : Option Bytes) : Declarations ServerKey ServerStatement ServerConfig where
  key := ServerStatement.key
  isSet := ServerConfig.isGiven
  apply := ServerStatement.apply cwd
  isSet_apply := isGiven_apply cwd

/-- A statement of this kind is carried out. -/
def Declares (cwd : Option Bytes) (kind : TokenType) (config : ServerConfig) (w : List Bytes)
    (config' : ServerConfig) (r : List Bytes) : Prop :=
  ∃ s : ServerStatement, s.kind = kind ∧ w = s.taken ++ r ∧ s.Checked cwd ∧
    (serverDeclarations cwd).Allows config s ∧ config' = s.apply cwd config

theorem toTokenType_keyword {s : ServerStatement} {t : Bytes} :
    toTokenType t = s.kind ↔ t = s.keyword := by
  constructor
  · intro h
    cases s with
    | listen => exact @keyword_eq t .kTokenListen "listen" h (by decide) (by decide +kernel)
    | serverName => exact @keyword_eq t .kTokenServerName "server_name" h (by decide) (by decide +kernel)
    | maxBody => exact @keyword_eq t .kTokenMaxBody "client_max_body_size" h (by decide) (by decide +kernel)
    | errorPage => exact @keyword_eq t .kTokenErrorPage "error_page" h (by decide) (by decide +kernel)
    | location => exact @keyword_eq t .kTokenLocation "location" h (by decide) (by decide +kernel)
  · rintro rfl
    cases s <;> rfl

theorem ServerStatement.keyword_ne_nil (s : ServerStatement) : s.keyword ≠ [] := by
  cases s <;> exact List.cons_ne_nil _ _

theorem allows_iff (s : ServerStatement) (k : ServerKey) (h : s.key = some k) :
    (serverDeclarations cwd).Allows config s ↔ config.isGiven k = false := by
  constructor
  · exact fun hs => hs k h
  · rintro hk k' hk'
    cases h.symm.trans hk'
    exact hk

theorem parseServerName_parses :
    Parses (parseServerName config) (Declares cwd .kTokenServerName config) := by
  have hparses : Parses (parseServerName config) _ := .argument .throw fun t ht =>
    .check (.call_bind fun c => .semicolon)
  refine hparses.congr fun w config' r => ?_
  constructor
  · rintro ⟨t, ht, ⟨-, c, hset, rfl⟩, rfl⟩
    rw [ServerConfig.setServerName] at hset
    split_ifs at hset with hflag
    · cases hset
    · cases hset
      exact ⟨.serverName t, rfl, rfl, ht, (allows_iff _ .serverName rfl).mpr (Bool.eq_false_of_not_eq_true hflag), rfl⟩
  · rintro ⟨s, hkind, rfl, hchecked, hallows, rfl⟩
    cases s with
    | serverName t =>
        have hflag : config.hasServerName = false := (allows_iff _ .serverName rfl).mp hallows
        refine ⟨t, hchecked, ⟨hchecked, _, ?_, rfl⟩, rfl⟩
        rw [ServerConfig.setServerName, hflag]
        rfl
    | _ => cases hkind

theorem parseMaxBody_parses :
    Parses (parseMaxBody config) (Declares cwd .kTokenMaxBody config) := by
  have hparses : Parses (parseMaxBody config) _ := .argument .throw fun t ht =>
    .check (.check (.call_bind fun c => .semicolon))
  refine hparses.congr fun w config' r => ?_
  constructor
  · rintro ⟨t, ht, ⟨-, hrange, c, hset, rfl⟩, rfl⟩
    rw [not_or, Int.not_lt, Int.not_lt] at hrange
    rw [ServerConfig.setMaxBodySize] at hset
    split_ifs at hset with hflag
    · cases hset
    · cases hset
      exact ⟨.maxBody t, rfl, rfl, ⟨ht, hrange⟩,
        (allows_iff _ .maxBody rfl).mpr (Bool.eq_false_of_not_eq_true hflag), rfl⟩
  · rintro ⟨s, hkind, rfl, hchecked, hallows, rfl⟩
    cases s with
    | maxBody t =>
        obtain ⟨ht, hrange⟩ := hchecked
        have hflag : config.hasMaxBody = false := (allows_iff _ .maxBody rfl).mp hallows
        refine ⟨t, ht, ⟨ht, ?_, _, ?_, rfl⟩, rfl⟩
        · rw [not_or, Int.not_lt, Int.not_lt]
          exact hrange
        · rw [ServerConfig.setMaxBodySize, hflag]
          rfl
    | _ => cases hkind

theorem parseErrorPage_parses :
    Parses (parseErrorPage config) (Declares cwd .kTokenErrorPage config) := by
  have hparses : Parses (parseErrorPage config) _ := .token .throw fun t ht =>
    .check (.check (.argument .throw fun path hpath => .check (.check .semicolon)))
  refine hparses.congr fun w config' r => ?_
  constructor
  · rintro ⟨t, v, ht, rfl, -, hrange, path, hpath, ⟨-, hdot, rfl⟩, rfl⟩
    rw [not_or, Int.not_lt, Int.not_lt] at hrange
    exact ⟨.errorPage t path, rfl, rfl, ⟨ht, hrange, hpath, hdot⟩, fun k hk => (by cases hk), rfl⟩
  · rintro ⟨s, hkind, rfl, hchecked, hallows, rfl⟩
    cases s with
    | errorPage t path =>
        obtain ⟨ht, hrange, hpath, hdot⟩ := hchecked
        refine ⟨t, _, ht, rfl, ht, ?_, path, hpath, ⟨hpath, hdot, rfl⟩, rfl⟩
        rw [not_or, Int.not_lt, Int.not_lt]
        exact hrange
    | _ => cases hkind

/-- The value of a port that has been checked. -/
theorem portValue_valid {port : Bytes} (h : isValidPortNumber port = true) :
    portValue port = .ok (decimalVal port) := by
  obtain ⟨n, hnumeral, -, -, hvalue⟩ := isValidPortNumber_numeral h
  rw [portValue, hvalue, hnumeral.2.2]

/-- The argument of `listen` is a host and a port, a port or a host. -/
theorem listenToken_cases (t : Bytes) :
    (t.contains COLON = true ∧ hostToken t = some (t.takeWhile (· ≠ COLON)) ∧
        portToken t = some ((t.dropWhile (· ≠ COLON)).drop 1)) ∨
      (¬ t.contains COLON = true ∧ isAllDigits t = true ∧ hostToken t = none ∧ portToken t = some t) ∨
      ¬ t.contains COLON = true ∧ ¬ isAllDigits t = true ∧ hostToken t = some t ∧ portToken t = none := by
  rw [hostToken, portToken]
  by_cases hcolon : t.contains COLON = true
  · rw [if_pos hcolon, if_pos hcolon]
    exact .inl ⟨hcolon, rfl, rfl⟩
  · rw [if_neg hcolon, if_neg hcolon]
    by_cases hdigits : isAllDigits t = true
    · rw [if_pos hdigits, if_pos hdigits]
      exact .inr (.inl ⟨hcolon, hdigits, rfl, rfl⟩)
    · rw [if_neg hdigits, if_neg hdigits]
      exact .inr (.inr ⟨hcolon, hdigits, rfl, rfl⟩)

theorem parseListen_parses :
    Parses (parseListen config) (Declares cwd .kTokenListen config) := by
  have hparses : Parses (parseListen config) _ := .token .throw fun t ht => .check
    (.ite (fun hcolon => .check (.check (.expect (c := id) .call))) fun hcolon =>
      .expect (c := id) (.ite (fun hdigits => .check .call) fun hdigits => .check .call))
  refine hparses.congr fun w config' r => ?_
  have hallows : ∀ t, (serverDeclarations cwd).Allows config (.listen t) ↔ config.hasListen = false :=
    fun t => allows_iff _ .listen rfl
  -- the three spellings: `host:port`, a port and a host
  constructor
  · rintro ⟨t, v, ht, rfl, -, hcase⟩
    obtain ⟨hcolon, hhost, hport⟩ | ⟨hcolon, hdigits, hhost, hport⟩ | ⟨hcolon, hdigits, hhost, hport⟩ :=
      listenToken_cases t
    · rw [if_pos hcolon] at hcase
      obtain ⟨hvalid, hnumber, v', rfl, hset, rfl⟩ := hcase
      rw [Bool.not_eq_true', Bool.not_eq_false] at hvalid hnumber
      rw [portValue_valid hnumber] at hset
      obtain ⟨hunset, rfl⟩ := setListen_ok.mp hset
      refine ⟨.listen t, rfl, rfl, ?_, (hallows t).mpr hunset, ?_⟩
      · rw [ServerStatement.Checked, hhost, hport]
        exact ⟨fun host h => Option.some.inj h ▸ hvalid, fun port h => Option.some.inj h ▸ hnumber⟩
      · rw [ServerStatement.apply, hhost, hport]
        rfl
    · rw [if_neg hcolon] at hcase
      obtain ⟨v', rfl, hcase⟩ := hcase
      rw [if_pos hdigits] at hcase
      obtain ⟨hnumber, hset, rfl⟩ := hcase
      rw [Bool.not_eq_true', Bool.not_eq_false] at hnumber
      rw [portValue_valid hnumber] at hset
      obtain ⟨hunset, rfl⟩ := setListen_ok.mp hset
      refine ⟨.listen t, rfl, rfl, ?_, (hallows t).mpr hunset, ?_⟩
      · rw [ServerStatement.Checked, hhost, hport]
        exact ⟨fun host h => (by cases h), fun port h => Option.some.inj h ▸ hnumber⟩
      · rw [ServerStatement.apply, hhost, hport]
        rfl
    · rw [if_neg hcolon] at hcase
      obtain ⟨v', rfl, hcase⟩ := hcase
      rw [if_neg hdigits] at hcase
      obtain ⟨hvalid, hset, rfl⟩ := hcase
      rw [Bool.not_eq_true', Bool.not_eq_false] at hvalid
      obtain ⟨hunset, rfl⟩ := setListen_ok.mp hset
      refine ⟨.listen t, rfl, rfl, ?_, (hallows t).mpr hunset, ?_⟩
      · rw [ServerStatement.Checked, hhost, hport]
        exact ⟨fun host h => Option.some.inj h ▸ hvalid, fun port h => (by cases h)⟩
      · rw [ServerStatement.apply, hhost, hport]
        rfl
  · rintro ⟨s, hkind, rfl, hchecked, hallowed, rfl⟩
    cases s with
    | listen t =>
        obtain ⟨hvalid, hnumber⟩ := hchecked
        have hunset := (hallows t).mp hallowed
        have hne : t ≠ [] := by
          rintro rfl
          exact absurd (hnumber [] rfl) Bool.false_ne_true
        have hset : ∀ host port, config.setListen host port =
            .ok { config with host := host, port := port, hasListen := true } :=
          fun host port => setListen_ok.mpr ⟨hunset, rfl⟩
        refine ⟨t, _, hne, rfl, hne, ?_⟩
        rw [ServerStatement.apply]
        obtain ⟨hcolon, hhost, hport⟩ | ⟨hcolon, hdigits, hhost, hport⟩ | ⟨hcolon, hdigits, hhost, hport⟩ :=
          listenToken_cases t
        · have hport' := hnumber _ hport
          rw [if_pos hcolon, hvalid _ hhost, hport', hhost, hport, portValue_valid hport']
          exact ⟨Bool.false_ne_true, Bool.false_ne_true, r, rfl, hset _ _, rfl⟩
        · have hport' := hnumber _ hport
          rw [if_neg hcolon]
          refine ⟨r, rfl, ?_⟩
          rw [if_pos hdigits, hport', hhost, hport, portValue_valid hport']
          exact ⟨Bool.false_ne_true, hset _ _, rfl⟩
        · rw [if_neg hcolon]
          refine ⟨r, rfl, ?_⟩
          rw [if_neg hdigits, hvalid _ hhost, hhost, hport]
          exact ⟨Bool.false_ne_true, hset _ _, rfl⟩
    | _ => cases hkind

/-- A location that has just been named has nothing but its name. -/
theorem fresh_named_iff {name : Bytes} {stmts : List Statement} (h : ∀ s ∈ stmts, s.Checked cwd) :
    (locationSettings cwd).Fresh { name := name } stmts ↔ (stmts.map Statement.kind).Nodup := by
  constructor
  · exact fun hfresh => hfresh.nodup
  · refine fun hnodup => ⟨hnodup, fun s hs => ?_⟩
    have hshaped := (h s hs).shaped
    show Location.isSet s.kind { name := name } = false
    rw [Statement.Shaped] at hshaped
    generalize s.kind = kind at hshaped ⊢
    cases kind
    case kTokenAllowedMethods | kTokenRoot | kTokenAutoindex | kTokenIndex | kTokenUploadPath
        | kTokenRedirect | kTokenCgi | kTokenCgiAllowedExtensions => rfl
    all_goals exact hshaped.elim

theorem parseLocation_parses :
    Parses (parseLocation cwd config) (Declares cwd .kTokenLocation config) := by
  intro p config' r
  have hnew : ∀ name stmts, (serverDeclarations cwd).Allows config (.location name stmts) ↔
      ((locationSettings cwd).setAll { name := name } stmts).key ∉
        config.locations.map Location.key := by
    intro name stmts
    rw [allows_iff (.location name stmts) (.location (trimTrailingSlashExceptRoot name)) rfl,
      ServerConfig.isGiven, Location.key, setAll_name, ← Bool.not_eq_true, List.contains_iff_mem]
  constructor
  · rintro ⟨q, hrun, rfl⟩
    obtain ⟨name, stmts, loc, hblock, hvalid, hadd⟩ := parseLocation_iff.mp hrun
    obtain ⟨hp, hchecked, hfresh, rfl⟩ := (isBlock_iff (isWord_of_validName hvalid).1).mp ⟨q, hblock, rfl⟩
    obtain ⟨hkey, rfl⟩ := addLocation_eq_ok.mp hadd
    refine ⟨.location name stmts, rfl, ?_, ⟨hvalid, hchecked, hfresh.nodup⟩, (hnew _ _).mpr hkey, rfl⟩
    rw [hp, ServerStatement.taken, List.cons_append, List.cons_append, List.append_assoc]
    rfl
  · rintro ⟨s, hkind, hp, hchecked, hallows, rfl⟩
    cases s with
    | location name stmts =>
        obtain ⟨hvalid, hall, hnodup⟩ := hchecked
        rw [ServerStatement.taken, List.cons_append, List.cons_append, List.append_assoc] at hp
        obtain ⟨q, hblock, hq⟩ := (isBlock_iff (isWord_of_validName hvalid).1).mpr
          ⟨hp, hall, (fresh_named_iff hall).mpr hnodup, rfl⟩
        refine ⟨q, parseLocation_iff.mpr ⟨name, stmts, _, hblock, hvalid, ?_⟩, hq⟩
        exact addLocation_eq_ok.mpr ⟨(hnew _ _).mp hallows, rfl⟩
    | _ => cases hkind

/-- **The `switch` of `ParseServer`.** -/
theorem parseServerDirective_parses {t : Bytes} :
    Parses (parseServerDirective cwd t config) (Declares cwd (toTokenType t) config) := by
  rw [parseServerDirective]
  rcases toTokenType t
  case kTokenListen => exact parseListen_parses
  case kTokenServerName => exact parseServerName_parses
  case kTokenMaxBody => exact parseMaxBody_parses
  case kTokenErrorPage => exact parseErrorPage_parses
  case kTokenLocation => exact parseLocation_parses
  all_goals
    refine Parses.throw.congr fun w config' r => ⟨False.elim, ?_⟩
    rintro ⟨s, hkind, -⟩
    cases s <;> cases hkind

/-! ### Blocks and files -/

/-- The tokens of the block of a server. -/
def serverTokens (block : List ServerStatement) : List Bytes :=
  bytes "server" :: bytes "\x7b" :: (block.flatMap ServerStatement.tokens ++ [bytes "\x7d"])

/-- **A block that is accepted**: each statement passes its checks, and what may be given once is
given once. -/
structure Accepted (cwd : Option Bytes) (block : List ServerStatement) : Prop where
  checked : ∀ s ∈ block, s.Checked cwd
  once : (block.filterMap ServerStatement.key).Nodup

/-- The server that a block describes. -/
def describe (cwd : Option Bytes) (block : List ServerStatement) : ServerConfig :=
  (serverDeclarations cwd).applyAll {} block

theorem flatMap_server_tokens_cons (s : ServerStatement) (block : List ServerStatement) (w : List Bytes) :
    (s :: block).flatMap ServerStatement.tokens ++ w =
      s.keyword :: (s.taken ++ (block.flatMap ServerStatement.tokens ++ w)) := by
  rw [List.flatMap_cons, ServerStatement.tokens, List.cons_append, List.cons_append, List.append_assoc]

/-- **The loop of `ParseServer`** carries out statements. -/
theorem ReadsBlock.statements {p q : ConfigParser} {ds : List Directive}
    (h : ReadsBlock (parseServerDirective cwd) p config ds q config') :
    ∃ block : List ServerStatement, p.rest = block.flatMap ServerStatement.tokens ++ q.rest ∧
      (∀ s ∈ block, s.Checked cwd) ∧ (serverDeclarations cwd).Fresh config block ∧
      config' = (serverDeclarations cwd).applyAll config block := by
  induction h with
  | nil => exact ⟨[], rfl, fun s hs => absurd hs List.not_mem_nil, Declarations.fresh_nil, rfl⟩
  | @cons p p1 p2 q x y z d ds hkeyword hrun htaken h ih =>
      obtain ⟨block, hp2, hchecked, hfresh, rfl⟩ := ih
      obtain ⟨s, hkind, hp1, hs, hallows, rfl⟩ := (parseServerDirective_parses p1 y p2.rest).mp ⟨p2, hrun, rfl⟩
      have hkey : d.keyword = s.keyword := toTokenType_keyword.mp hkind.symm
      refine ⟨s :: block, ?_, List.forall_mem_cons.mpr ⟨hs, hchecked⟩,
        Declarations.fresh_cons.mpr ⟨hallows, hfresh⟩, rfl⟩
      rw [flatMap_server_tokens_cons, ← hp2, ← hp1, ← hkey]
      apply rest_of_tokenize hkeyword
      rw [hkey]
      exact s.keyword_ne_nil

theorem readsBlock_statements {p : ConfigParser} {block : List ServerStatement} {w : List Bytes}
    (hp : p.rest = block.flatMap ServerStatement.tokens ++ w) (hchecked : ∀ s ∈ block, s.Checked cwd)
    (hfresh : (serverDeclarations cwd).Fresh config block) :
    ∃ ds q, ReadsBlock (parseServerDirective cwd) p config ds q
      ((serverDeclarations cwd).applyAll config block) ∧ q.rest = w := by
  induction block generalizing p config with
  | nil => exact ⟨[], p, .nil, hp⟩
  | cons s block ih =>
      obtain ⟨hs, hblock⟩ := List.forall_mem_cons.mp hchecked
      obtain ⟨hallows, hrest⟩ := Declarations.fresh_cons.mp hfresh
      rw [flatMap_server_tokens_cons] at hp
      obtain ⟨-, p1, hkeyword, hp1⟩ := tokenize_cons hp
      obtain ⟨p2, hrun, hp2⟩ := (parseServerDirective_parses p1 _ _).mpr
        ⟨s, (toTokenType_keyword.mpr rfl).symm, hp1, hs, hallows, rfl⟩
      obtain ⟨ds, q, h, hq⟩ := ih hp2 hblock hrest
      rw [← hp2] at hp1
      exact ⟨⟨s.keyword, s.taken⟩ :: ds, q, .cons hkeyword hrun hp1 h, hq⟩

/-- A new server has been given nothing. -/
theorem fresh_new_iff {block : List ServerStatement} :
    (serverDeclarations cwd).Fresh {} block ↔ (block.filterMap ServerStatement.key).Nodup := by
  refine ⟨fun h => h.nodup, fun h => ⟨h, fun s _ k _ => ?_⟩⟩
  show ServerConfig.isGiven k {} = false
  cases k <;> rfl

/-- **`Parse` reads blocks** that are accepted. -/
theorem ReadsFile.blocks {p : ConfigParser} {bs : List ServerBlock} (h : ReadsFile cwd p bs) :
    ∃ file : List (List ServerStatement), p.rest = file.flatMap serverTokens ∧
      (∀ block ∈ file, Accepted cwd block) ∧ bs.map ServerBlock.config = file.map (describe cwd) := by
  induction h with
  | @nil p q hend =>
      obtain ⟨t, q', hrun, hcase⟩ := tokenize_run p
      rw [hend] at hrun
      cases hrun
      obtain ⟨-, hp, -⟩ | ⟨hne, -⟩ := hcase
      · exact ⟨[], hp, fun block hb => absurd hb List.not_mem_nil, rfl⟩
      · exact absurd rfl hne
  | @cons p p1 p2 p3 q b bs hserver hopen hblock hclose h ih =>
      obtain ⟨file, hq, haccepted, hfile⟩ := ih
      obtain ⟨block, hp2, hchecked, hfresh, hconfig⟩ := hblock.statements
      refine ⟨block :: file, ?_, List.forall_mem_cons.mpr ⟨⟨hchecked, fresh_new_iff.mp hfresh⟩, haccepted⟩, ?_⟩
      · have hq : q.rest = file.flatMap serverTokens := hq
        rw [rest_of_tokenize hserver (by decide), rest_of_tokenize hopen (by decide), hp2,
          rest_of_tokenize hclose (by decide), hq, List.flatMap_cons, serverTokens]
        simp only [List.cons_append, List.append_assoc, List.nil_append]
      · rw [List.map_cons, List.map_cons, hfile, hconfig]
        rfl

theorem readsFile_blocks {p : ConfigParser} {file : List (List ServerStatement)}
    (hp : p.rest = file.flatMap serverTokens) (h : ∀ block ∈ file, Accepted cwd block) :
    ∃ bs, ReadsFile cwd p bs ∧ bs.map ServerBlock.config = file.map (describe cwd) := by
  induction file generalizing p with
  | nil =>
      obtain ⟨t, q, hrun, ⟨rfl, -, -⟩ | ⟨-, hrest⟩⟩ := tokenize_run p
      · exact ⟨[], .nil hrun, rfl⟩
      · rw [hp] at hrest
        cases hrest
  | cons block file ih =>
      obtain ⟨⟨hchecked, honce⟩, hfile⟩ := List.forall_mem_cons.mp h
      have hp : p.rest = bytes "server" :: bytes "\x7b" ::
          (block.flatMap ServerStatement.tokens ++ bytes "\x7d" :: file.flatMap serverTokens) := by
        rw [hp, List.flatMap_cons, serverTokens]
        simp only [List.cons_append, List.append_assoc, List.nil_append]
      obtain ⟨-, p1, hserver, hp1⟩ := tokenize_cons hp
      obtain ⟨-, p2, hopen, hp2⟩ := tokenize_cons hp1
      obtain ⟨ds, p3, hblock, hp3⟩ := readsBlock_statements hp2 hchecked (fresh_new_iff.mpr honce)
      obtain ⟨-, q, hclose, hq⟩ := tokenize_cons hp3
      obtain ⟨bs, hbs, hconfigs⟩ := ih (p := q.addServer (describe cwd block)) hq hfile
      refine ⟨⟨ds, describe cwd block⟩ :: bs, .cons hserver hopen hblock hclose hbs, ?_⟩
      rw [List.map_cons, List.map_cons, hconfigs]

/-! ### The tokens of a file -/

theorem Statement.tokens_ne_close {s : Statement} (h : s.Shaped) (w w' : List Bytes) :
    s.tokens ++ w ≠ bytes "\x7d" :: w' := by
  intro heq
  exact h.keyword_ne (List.cons.inj heq).1

theorem ServerStatement.tokens_ne_close (s : ServerStatement) (w w' : List Bytes) :
    s.tokens ++ w ≠ bytes "\x7d" :: w' := by
  intro heq
  have hkey : s.keyword = bytes "\x7d" := (List.cons.inj heq).1
  have hkind := toTokenType_keyword.mpr hkey.symm
  cases s <;> cases hkind

/-- **The tokens tell where a statement ends.** -/
theorem ServerStatement.tokens_inj {s s' : ServerStatement} {w w' : List Bytes} (h : s.Checked cwd)
    (h' : s'.Checked cwd) (heq : s.tokens ++ w = s'.tokens ++ w') : s = s' ∧ w = w' := by
  obtain ⟨hkey, htaken⟩ := List.cons.inj heq
  have hkind : s.kind = s'.kind := (toTokenType_keyword.mpr rfl).symm.trans (toTokenType_keyword.mpr hkey)
  have htaken : s.taken ++ w = s'.taken ++ w' := htaken
  cases s with
  | location name stmts =>
      cases s' with
      | location name' stmts' =>
          rw [taken, taken] at htaken
          simp only [List.cons_append, List.append_assoc, List.nil_append] at htaken
          obtain ⟨rfl, hblock⟩ := List.cons.inj htaken
          obtain ⟨rfl, hclose⟩ := Declarations.flatMap_append_inj
            (fun x y hx hy w w' => Statement.Shaped.tokens_inj hx hy)
            (fun x hx w => x.tokens_ne_close hx w _) (fun x hx w => x.tokens_ne_close hx w _)
            (fun x hx => (h.2.1 x hx).shaped) (fun x hx => (h'.2.1 x hx).shaped)
            (List.cons.inj hblock).2
          exact ⟨rfl, (List.cons.inj hclose).2⟩
      | _ => cases hkind
  | errorPage t path =>
      cases s' with
      | errorPage t' path' =>
          cases htaken
          exact ⟨rfl, rfl⟩
      | _ => cases hkind
  | listen t | serverName t | maxBody t =>
      cases s' with
      | listen | serverName | maxBody =>
          first
          | cases htaken
            exact ⟨rfl, rfl⟩
          | cases hkind
      | _ => cases hkind

/-- **The tokens tell what a file is.** -/
theorem file_tokens_inj {file file' : List (List ServerStatement)}
    (h : ∀ block ∈ file, Accepted cwd block) (h' : ∀ block ∈ file', Accepted cwd block)
    (heq : file.flatMap serverTokens = file'.flatMap serverTokens) : file = file' := by
  have hinj : ∀ x y, Accepted cwd x → Accepted cwd y → ∀ w w',
      serverTokens x ++ w = serverTokens y ++ w' → x = y ∧ w = w' := by
    intro x y hx hy w w' hxy
    rw [serverTokens, serverTokens] at hxy
    simp only [List.cons_append, List.append_assoc, List.nil_append] at hxy
    obtain ⟨rfl, hclose⟩ := Declarations.flatMap_append_inj
      (fun s s' hs hs' w w' => ServerStatement.tokens_inj hs hs')
      (fun s _ w => s.tokens_ne_close w _) (fun s _ w => s.tokens_ne_close w _) hx.checked hy.checked
      (List.cons.inj (List.cons.inj hxy).2).2
    exact ⟨rfl, (List.cons.inj hclose).2⟩
  have hend : ∀ x, Accepted cwd x → ∀ w, serverTokens x ++ w ≠ [] := fun _ _ _ => List.cons_ne_nil _ _
  rw [← List.append_nil (file.flatMap serverTokens), ← List.append_nil (file'.flatMap serverTokens)] at heq
  exact (Declarations.flatMap_append_inj hinj hend hend h h' heq).1

/-- A text with these tokens. -/
def spelledOut (w : List Bytes) : Bytes := w.flatMap (· ++ [SP])

theorem tokens_spelledOut {w : List Bytes} (h : ∀ t ∈ w, IsToken t) : tokens (spelledOut w) = w := by
  induction w with
  | nil => rfl
  | cons t w ih =>
      obtain ⟨ht, hw⟩ := List.forall_mem_cons.mp h
      have htext : spelledOut (t :: w) = t ++ SP :: spelledOut w := by
        rw [spelledOut, List.flatMap_cons, List.append_assoc]
        rfl
      obtain ⟨hfirst, hafter⟩ := @firstToken_isToken t (spelledOut w) ht
      rw [htext, tokens_eq, hfirst, hafter, if_neg ht.1, tokens_space_cons, ih hw]

end Statements

/-! ### The meaning of a file -/

/-- **What a configuration file means.**  `Parse` succeeds exactly on the texts whose tokens are
those of a list of accepted blocks, and returns the servers that the blocks describe; there is
only one such list, and every list whose words are tokens has a text. -/
theorem configFile_means (cwd : Option Bytes) :
    (∀ content configs, ConfigParser.parse cwd content = .ok configs ↔
      ∃ file : List (List ServerStatement), tokens content = file.flatMap serverTokens ∧
        (∀ block ∈ file, Accepted cwd block) ∧ configs = file.map (describe cwd)) ∧
    (∀ file file' : List (List ServerStatement), (∀ block ∈ file, Accepted cwd block) →
      (∀ block ∈ file', Accepted cwd block) →
      file.flatMap serverTokens = file'.flatMap serverTokens → file = file') ∧
    ∀ file : List (List ServerStatement), (∀ block ∈ file, Accepted cwd block) →
      (∀ t ∈ file.flatMap serverTokens, IsToken t) →
      ConfigParser.parse cwd (spelledOut (file.flatMap serverTokens)) = .ok (file.map (describe cwd)) := by
  have hexact : ∀ content configs, ConfigParser.parse cwd content = .ok configs ↔
      ∃ file : List (List ServerStatement), tokens content = file.flatMap serverTokens ∧
        (∀ block ∈ file, Accepted cwd block) ∧ configs = file.map (describe cwd) := by
    intro content configs
    have hrest : ConfigParser.rest { content := content } = tokens content := rfl
    rw [parse_iff, ← hrest]
    constructor
    · rintro ⟨bs, hbs, rfl⟩
      exact hbs.blocks
    · rintro ⟨file, hp, haccepted, rfl⟩
      obtain ⟨bs, hbs, hconfigs⟩ := readsFile_blocks hp haccepted
      exact ⟨bs, hbs, hconfigs.symm⟩
  exact ⟨hexact, fun file file' h h' heq => file_tokens_inj h h' heq, fun file h hwords =>
    (hexact _ _).mpr ⟨file, tokens_spelledOut hwords, h, rfl⟩⟩

/-- A port and two locations. -/
def shopBlock : List ServerStatement :=
  [.listen (bytes "8080"), .location (bytes "/") [⟨bytes "root", [bytes "/srv"]⟩],
    .location (bytes "/img") [⟨bytes "index", [bytes "i"]⟩]]

theorem configFile_means_shop :
    ConfigParser.parse none (bytes ("server \x7b listen 8080 ; location / \x7b root /srv ; \x7d " ++
        "location /img \x7b index i ; \x7d \x7d ")) = .ok [describe none shopBlock] ∧
      (describe none shopBlock).port = 8080 ∧
      (describe none shopBlock).locations.map Location.name = [bytes "/", bytes "/img"] := by
  have hroot : Statement.Checked none ⟨bytes "root", [bytes "/srv"]⟩ :=
    ⟨bytes "/srv", bytes "/srv", rfl, by decide, by decide +kernel, by decide +kernel⟩
  have hindex : Statement.Checked none ⟨bytes "index", [bytes "i"]⟩ := ⟨bytes "i", rfl, by decide +kernel⟩
  have hlisten : ServerStatement.Checked none (.listen (bytes "8080")) := by
    refine ⟨fun host hhost => ?_, fun port hport => ?_⟩
    · cases hhost
    · cases hport
      decide +kernel
  have hchecked : ∀ s ∈ shopBlock, s.Checked none :=
    List.forall_mem_cons.mpr ⟨hlisten, List.forall_mem_cons.mpr
      ⟨⟨by decide +kernel, List.forall_mem_singleton.mpr hroot, by decide⟩, List.forall_mem_singleton.mpr
        ⟨by decide +kernel, List.forall_mem_singleton.mpr hindex, by decide⟩⟩⟩
  have haccepted : ∀ block ∈ [shopBlock], Accepted none block :=
    List.forall_mem_singleton.mpr ⟨hchecked, by decide +kernel⟩
  have hwords : ∀ t ∈ [shopBlock].flatMap serverTokens, IsToken t := by
    have hall : ∀ t ∈ [shopBlock].flatMap serverTokens, t ∈ [bytes "\x7b", bytes "\x7d", bytes ";"] ∨
        t ≠ [] ∧ ∀ c ∈ t, isConfigSpace c = false ∧ isSpecialLetter c = false := by
      decide +kernel
    intro t ht
    obtain hspecial | ⟨hne, hword⟩ := hall t ht
    · have hletters : ∀ t ∈ [bytes "\x7b", bytes "\x7d", bytes ";"], t ≠ [] ∧
          t = [t.headD 0] ∧ isConfigSpace (t.headD 0) = false ∧ isSpecialLetter (t.headD 0) = true := by
        decide +kernel
      exact ⟨(hletters t hspecial).1, .inl ⟨_, (hletters t hspecial).2⟩⟩
    · exact ⟨hne, .inr hword⟩
  have hparse := (configFile_means none).2.2 [shopBlock] haccepted hwords
  have htext : spelledOut ([shopBlock].flatMap serverTokens) =
      bytes ("server \x7b listen 8080 ; location / \x7b root /srv ; \x7d " ++
        "location /img \x7b index i ; \x7d \x7d ") := by
    decide +kernel
  rw [htext] at hparse
  exact ⟨hparse, by decide +kernel, by decide +kernel⟩

end Webserv
