/-
Webserv/HostValidation.lean

`host_validation`: the host names a `listen` directive may have.
-/
import Webserv.StringUtils

namespace Webserv

/-- `'-'`. -/
abbrev HYPHEN : Byte := 45

/-- `std::isalnum` in the C locale. -/
def isAlnum (c : Byte) : Bool := isDigit c || (65 ≤ c && c ≤ 90) || (97 ≤ c && c ≤ 122)

/-- The pieces that `std::getline(ss, piece, '.')` gives one after the other: there is
no empty piece behind the last dot. -/
def getlinePieces (cur : Bytes) : Bytes → List Bytes
  | [] => if cur = [] then [] else [cur]
  | c :: cs => if c = DOT then cur :: getlinePieces [] cs else getlinePieces (cur ++ [c]) cs

/-- `IsHostChar`. -/
def isHostChar (c : Byte) : Bool := isAlnum c || c == HYPHEN || c == DOT

/-- `ContainsInvalidChars`. -/
def containsInvalidChars (host : Bytes) : Bool := host.any fun c => !isHostChar c

/-- `LooksLikeIPv4`. -/
def looksLikeIPv4 (host : Bytes) : Bool := host.all fun c => isDigit c || c == DOT || c == HYPHEN

/-- `IsValidIPv4Segment`. -/
def isValidIPv4Segment (segment : Bytes) : Bool :=
  if segment = [] ∨ segment.length > 3 then false
  else if segment.length > 1 ∧ segment.head? = some 48 then false
  else segment.all isDigit && decimalVal segment ≤ 255

/-- `IsValidIPv4`. -/
def isValidIPv4 (host : Bytes) : Bool :=
  (host.all fun c => isDigit c || c == DOT) &&
    ((getlinePieces [] host).length == 4 && (getlinePieces [] host).all isValidIPv4Segment)

/-- `IsValidDomainLabel`. -/
def isValidDomainLabel (label : Bytes) : Bool :=
  if label = [] ∨ label.length > 63 then false
  else if label.head? = some HYPHEN ∨ label.getLast? = some HYPHEN then false
  else label.all fun c => isAlnum c || c == HYPHEN

/-- `IsValidDomainName`. -/
def isValidDomainName (host : Bytes) : Bool :=
  if host = [] ∨ host.head? = some DOT ∨ host.getLast? = some DOT then false
  else (getlinePieces [] host).all isValidDomainLabel && 2 ≤ (getlinePieces [] host).length

/-- `IsValidHost`. -/
def isValidHost (host : Bytes) : Bool :=
  if host = [] then false
  else if host = bytes "localhost" then true
  -- what looks like an address is not tried as a name
  else if looksLikeIPv4 host then isValidIPv4 host
  else if containsInvalidChars host then false
  else isValidDomainName host

end Webserv
