/-
Webserv/ConfigGrammar.lean

The grammar of the configuration file, and what `ConfigParser::Parse` accepts.

Some directives look at their arguments (`listen` wants a host or a port, `autoindex`
an `on` or `off`); these arguments are words.  The others take whatever token comes
next, and that may be a brace or a semicolon.  So the grammar has a parameter, which
says what such an argument may be; the parser accepts the grammar for any token, and
the intended grammar is the one for words.
-/
import Webserv.ConfigParser
import Webserv.Theory.Reading

namespace Webserv

open Language (only)
open scoped Computability

/-! ### Tokens -/

/-- The text behind its first token. -/
def afterToken (s : Bytes) : Bytes :=
  s.drop ((s.takeWhile isConfigSpace).length + (firstToken s).length)

/-- The tokens of a text, at most `n`. -/
def tokensUpTo : Nat → Bytes → List Bytes
  | 0, _ => []
  | n + 1, s => if firstToken s = [] then [] else firstToken s :: tokensUpTo n (afterToken s)

/-- The tokens of a text. -/
def tokens (s : Bytes) : List Bytes := tokensUpTo s.length s

theorem length_afterToken {s : Bytes} (h : firstToken s ≠ []) :
    (afterToken s).length < s.length := by
  have hs : s ≠ [] := fun hs => h (by rw [hs]; rfl)
  have hpos := List.length_pos_of_ne_nil hs
  have htoken := List.length_pos_of_ne_nil h
  rw [afterToken, List.length_drop]
  omega

theorem tokensUpTo_of_le {n m : Nat} {s : Bytes} (hn : s.length ≤ n) (hm : s.length ≤ m) :
    tokensUpTo n s = tokensUpTo m s := by
  induction n generalizing m s with
  | zero =>
      obtain rfl := List.length_eq_zero_iff.mp (Nat.le_zero.mp hn)
      cases m <;> rfl
  | succ n ih =>
      cases m with
      | zero =>
          obtain rfl := List.length_eq_zero_iff.mp (Nat.le_zero.mp hm)
          rfl
      | succ m =>
          rw [tokensUpTo, tokensUpTo]
          split_ifs with h
          · rfl
          · have hlt := length_afterToken h
            rw [ih (m := m) (by omega) (by omega)]

/-- **One token after the other.** -/
theorem tokens_eq (s : Bytes) :
    tokens s = if firstToken s = [] then [] else firstToken s :: tokens (afterToken s) := by
  rw [tokens, tokensUpTo_of_le le_rfl (Nat.le_succ _), tokensUpTo]
  split_ifs with h
  · rfl
  · have hlt := length_afterToken h
    rw [tokensUpTo_of_le (by omega) le_rfl, tokens]

/-! ### The grammar -/

/-- A token that is not one of `{`, `}` and `;`. -/
def IsWord (t : Bytes) : Prop := t ≠ [] ∧ t ≠ bytes "\x7b" ∧ t ≠ bytes "\x7d" ∧ t ≠ bytes ";"

instance : DecidablePred IsWord := fun t =>
  inferInstanceAs (Decidable (t ≠ [] ∧ t ≠ bytes "\x7b" ∧ t ≠ bytes "\x7d" ∧ t ≠ bytes ";"))

/-- This token. -/
def token (s : String) : Language Bytes := only (· = bytes s)

/-- A word. -/
def word : Language Bytes := only IsWord

/-- An argument that the parser does not look at. -/
def argument (W : Bytes → Prop) : Language Bytes := only fun t => t ≠ [] ∧ W t

/-- An argument in a list that a semicolon ends. -/
def listArgument (W : Bytes → Prop) : Language Bytes := only fun t => (t ≠ [] ∧ t ≠ bytes ";") ∧ W t

/-- A keyword, its arguments and a semicolon. -/
def directive (keyword : String) (arguments : Language Bytes) : Language Bytes :=
  token keyword * (arguments * token ";")

/-- A directive of a location. -/
def locationDirective (W : Bytes → Prop) : Language Bytes :=
  directive "allowed_methods" (word * word∗) + directive "root" (argument W) +
    directive "autoindex" word + directive "index" word + directive "upload_path" word +
    directive "redirect" (argument W) + directive "cgi" word +
    directive "cgi_allowed_extensions" (listArgument W * (listArgument W)∗)

/-- A block of a location. -/
def locationBlock (W : Bytes → Prop) : Language Bytes :=
  token "location" * (word * (token "\x7b" * ((locationDirective W)∗ * token "\x7d")))

/-- A directive of a server. -/
def serverDirective (W : Bytes → Prop) : Language Bytes :=
  directive "listen" word + directive "server_name" (argument W) +
    directive "client_max_body_size" (argument W) + directive "error_page" (word * argument W) +
    locationBlock W

/-- A block of a server. -/
def serverBlock (W : Bytes → Prop) : Language Bytes :=
  token "server" * (token "\x7b" * ((serverDirective W)∗ * token "\x7d"))

/-- A configuration file. -/
def configFile (W : Bytes → Prop) : Language Bytes := (serverBlock W)∗

/-! ### The arguments that are not looked at -/

/-- Where in the file a token stands. -/
inductive Place
  | file | serverOpen | server | locationName | locationOpen | location
  /-- In front of the remaining arguments of a directive, of which those marked are not
  looked at, and of a semicolon. -/
  | arguments (inLocation : Bool) (unchecked : List Bool)
  /-- In a list of arguments that a semicolon ends. -/
  | list (unchecked : Bool)
  deriving DecidableEq, Repr

/-- The place behind a token. -/
def Place.next : Place → Bytes → Place
  | .file, _ => .serverOpen
  | .serverOpen, _ => .server
  | .server, t =>
      if t = bytes "\x7d" then .file
      else
        match toTokenType t with
        | .kTokenListen => .arguments false [false]
        | .kTokenServerName => .arguments false [true]
        | .kTokenMaxBody => .arguments false [true]
        | .kTokenErrorPage => .arguments false [false, true]
        | .kTokenLocation => .locationName
        | _ => .server
  | .locationName, _ => .locationOpen
  | .locationOpen, _ => .location
  | .location, t =>
      if t = bytes "\x7d" then .server
      else
        match toTokenType t with
        | .kTokenAllowedMethods => .list false
        | .kTokenRoot => .arguments true [true]
        | .kTokenAutoindex => .arguments true [false]
        | .kTokenIndex => .arguments true [false]
        | .kTokenUploadPath => .arguments true [false]
        | .kTokenRedirect => .arguments true [true]
        | .kTokenCgi => .arguments true [false]
        | .kTokenCgiAllowedExtensions => .list true
        | _ => .location
  | .arguments inLocation [], _ => if inLocation then .location else .server
  | .arguments inLocation (_ :: unchecked), _ => .arguments inLocation unchecked
  | .list unchecked, t => if t = bytes ";" then .location else .list unchecked

/-- The token is an argument that is not looked at. -/
def Place.takes : Place → Bytes → Bool
  | .arguments _ (unchecked :: _), _ => unchecked
  | .list unchecked, t => unchecked && t != bytes ";"
  | _, _ => false

/-- The walk that finds these arguments. -/
def uncheckedReader : Reader Bytes Place := ⟨Place.next, Place.takes⟩

/-- The arguments in a text that the parser does not look at: those of `server_name`,
`client_max_body_size`, `root`, `redirect` and `cgi_allowed_extensions`, and the path of
`error_page`. -/
def uncheckedArguments (content : Bytes) : List Bytes := uncheckedReader.taken .file (tokens content)

/-! ### The walk follows the grammar -/

theorem reads_token {s t : Place} {text : String} (hnext : s.next (bytes text) = t)
    (htakes : s.takes (bytes text) = false) :
    uncheckedReader.Reads s t fun _ => token text :=
  Reader.Reads.only (by rintro a rfl; exact ⟨hnext, htakes⟩)

theorem reads_semicolon (inLocation : Bool) :
    uncheckedReader.Reads (.arguments inLocation []) (if inLocation then .location else .server)
      fun _ => token ";" := reads_token rfl rfl

theorem reads_word (inLocation : Bool) (unchecked : List Bool) :
    uncheckedReader.Reads (.arguments inLocation (false :: unchecked))
      (.arguments inLocation unchecked) fun _ => word :=
  Reader.Reads.only fun _ _ => ⟨rfl, rfl⟩

theorem reads_argument (inLocation : Bool) (unchecked : List Bool) :
    uncheckedReader.Reads (.arguments inLocation (true :: unchecked))
      (.arguments inLocation unchecked) argument :=
  Reader.Reads.asked fun _ _ => ⟨rfl, rfl⟩

/-- The words of `allowed_methods`. -/
theorem reads_words : uncheckedReader.Reads (.list false) (.list false) fun _ => word :=
  Reader.Reads.only fun _ ht => ⟨if_neg ht.2.2.2, rfl⟩

theorem reads_listArgument : uncheckedReader.Reads (.list true) (.list true) listArgument :=
  Reader.Reads.asked fun a ha => ⟨if_neg ha.2, by
    show (true && a != bytes ";") = true
    rw [Bool.true_and, bne_iff_ne]
    exact ha.2⟩

theorem reads_listEnd (unchecked : Bool) :
    uncheckedReader.Reads (.list unchecked) .location fun _ => token ";" := by
  apply reads_token
  · show (if bytes ";" = bytes ";" then Place.location else Place.list unchecked) = Place.location
    rw [if_pos rfl]
  · show (unchecked && bytes ";" != bytes ";") = false
    rw [bne_self_eq_false, Bool.and_false]

/-- **The walk over a directive of a location.** -/
theorem reads_locationDirective :
    uncheckedReader.Reads .location .location locationDirective := by
  have hkey : ∀ (keyword : String) (p : Place), Place.location.next (bytes keyword) = p →
      uncheckedReader.Reads .location p fun _ => token keyword :=
    fun keyword p h => reads_token h rfl
  refine .add (.add (.add (.add (.add (.add (.add ?_ ?_) ?_) ?_) ?_) ?_) ?_) ?_
  · exact (hkey _ _ (by decide +kernel)).mul ((reads_words.mul reads_words.kstar).mul (reads_listEnd _))
  · exact (hkey _ _ (by decide +kernel)).mul ((reads_argument true []).mul (reads_semicolon true))
  · exact (hkey _ _ (by decide +kernel)).mul ((reads_word true []).mul (reads_semicolon true))
  · exact (hkey _ _ (by decide +kernel)).mul ((reads_word true []).mul (reads_semicolon true))
  · exact (hkey _ _ (by decide +kernel)).mul ((reads_word true []).mul (reads_semicolon true))
  · exact (hkey _ _ (by decide +kernel)).mul ((reads_argument true []).mul (reads_semicolon true))
  · exact (hkey _ _ (by decide +kernel)).mul ((reads_word true []).mul (reads_semicolon true))
  · exact (hkey _ _ (by decide +kernel)).mul
      ((reads_listArgument.mul reads_listArgument.kstar).mul (reads_listEnd _))

theorem reads_locationBlock : uncheckedReader.Reads .server .server locationBlock := by
  have hname : uncheckedReader.Reads .locationName .locationOpen fun _ => word :=
    Reader.Reads.only fun _ _ => ⟨rfl, rfl⟩
  refine Reader.Reads.mul (reads_token (t := .locationName) ?_ rfl) (hname.mul
    (Reader.Reads.mul (reads_token (t := .location) rfl rfl)
      (reads_locationDirective.kstar.mul (reads_token ?_ rfl))))
  · decide +kernel
  · decide +kernel

/-- **The walk over a directive of a server.** -/
theorem reads_serverDirective : uncheckedReader.Reads .server .server serverDirective := by
  have hkey : ∀ (keyword : String) (p : Place), Place.server.next (bytes keyword) = p →
      uncheckedReader.Reads .server p fun _ => token keyword :=
    fun keyword p h => reads_token h rfl
  refine .add (.add (.add (.add ?_ ?_) ?_) ?_) reads_locationBlock
  · exact (hkey _ _ (by decide +kernel)).mul ((reads_word false []).mul (reads_semicolon false))
  · exact (hkey _ _ (by decide +kernel)).mul ((reads_argument false []).mul (reads_semicolon false))
  · exact (hkey _ _ (by decide +kernel)).mul ((reads_argument false []).mul (reads_semicolon false))
  · exact (hkey _ _ (by decide +kernel)).mul
      (((reads_word false [true]).mul (reads_argument false [])).mul (reads_semicolon false))

/-- **The walk over a file.** -/
theorem reads_configFile : uncheckedReader.Reads .file .file configFile := by
  refine Reader.Reads.kstar (Reader.Reads.mul (reads_token (t := .serverOpen) rfl rfl)
    (Reader.Reads.mul (reads_token (t := .server) rfl rfl)
      (reads_serverDirective.kstar.mul (reads_token ?_ rfl))))
  decide +kernel

end Webserv
