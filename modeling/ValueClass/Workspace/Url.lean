import ValueClass.Text.Digit
import ValueClass.Text.Ranges

/-! # Addresses

What must hold of an address before it is requested: it has a scheme and a
host, and brackets hold nothing but an IPv6 address or one of a later version.
-/

namespace ValueClass

inductive UrlFault where
  /-- The scheme or the host is missing. -/
  | incomplete
  | malformedHost
  deriving Repr, DecidableEq

namespace Url

/-- Whether a character may stand in a scheme. -/
def isSchemeChar (c : Char) : Bool :=
  c.isAlphanum || c == '+' || c == '-' || c == '.'

/-- The address as it is read: control characters and blanks in front and line
    ends inside do not count. -/
def clean (url : Text) : Text :=
  (url.dropWhile fun c => c.toNat ≤ 0x20).filter fun c => !(c == '\t' || c == '\r' || c == '\n')

/-- What follows the scheme of an address, if it has one. -/
def afterScheme? (url : Text) : Option Text :=
  let scheme := url.takeWhile isSchemeChar
  match scheme, url.drop scheme.length with
  | c :: _, ':' :: rest => if c.isAlpha then some rest else none
  | _, _ => none

/-- The part of an address behind its scheme that names the host; empty when
    there is none. -/
def authorityOf (rest : Text) : Text :=
  match rest with
  | '/' :: '/' :: host => host.takeWhile fun c => !(c == '/' || c == '?' || c == '#')
  | _ => []

/-- Whether a character is a hexadecimal digit. -/
def isHex (c : Char) : Bool :=
  (Text.hexDigit? c).isSome

/-- Whether a text is a group of an IPv6 address. -/
def isHextet (t : Text) : Bool :=
  !t.isEmpty && t.length ≤ 4 && t.all isHex

/-- Whether a text is a number of an IPv4 address; it has no leading zero. -/
def isOctet (t : Text) : Bool :=
  !t.isEmpty && t.length ≤ 3 && t.all Char.isDigit && (t.head? != some '0' || t.length == 1) &&
    Text.digitsValue t ≤ 255

def isIPv4 (t : Text) : Bool :=
  let octets := t.splitWhere (· == '.')
  octets.length == 4 && octets.all isOctet

/-- The number of groups in a part of an IPv6 address, if it is well formed.
    An IPv4 address at the end of the whole takes the place of two groups. -/
def groupCount? (atEnd : Bool) (t : Text) : Option Nat :=
  let groups := t.splitWhere (· == ':')
  if t.isEmpty then some 0
  else if groups.all isHextet then some groups.length
  else if atEnd && groups.dropLast.all isHextet && isIPv4 (groups.getLast?.getD []) then
    some (groups.length + 1)
  else none

/-- Whether a text is an IPv6 address: eight groups, or fewer with one double
    colon for those left out. -/
def isIPv6 (t : Text) : Bool :=
  match Text.cut? "::" t with
  | none => groupCount? true t == some 8
  | some (before, behind) =>
    match groupCount? false before, groupCount? true behind with
    | some m, some n => m + n < 8
    | _, _ => false

/-- Whether a text is an IPv6 address, perhaps with the scope it is valid in. -/
def isScopedIPv6 (t : Text) : Bool :=
  match Text.cut? "%" t with
  | none => isIPv6 t
  | some (address, scope) => !scope.isEmpty && !scope.contains '%' && isIPv6 address

/-- Whether a text that starts with a `v` is an address of a later version:
    the version in hexadecimal digits, a dot, and the address. -/
def isLaterVersion (t : Text) : Bool :=
  let version := (t.drop 1).takeWhile isHex
  match t.drop (version.length + 1) with
  | '.' :: address => !version.isEmpty && !address.isEmpty
  | _ => false

/-- Whether a text may stand in brackets. -/
def isBracketable (t : Text) : Bool :=
  if t.head? == some 'v' then isLaterVersion t else isScopedIPv6 t

/-- The host behind the name of a user, if it is well placed: nothing stands
    before its brackets, and only a colon can follow them. -/
def hostWithin? (authority : Text) : Option Text :=
  let server := (authority.reverse.takeWhile (· != '@')).reverse
  match Text.cut? "[" server with
  | none => some (server.takeWhile (· != ':'))
  | some (before, inside) =>
    let (host, behind) := (Text.cut? "]" inside).getD (inside, [])
    if before.isEmpty && (behind.isEmpty || behind.head? == some ':') then some host else none

/-- The characters that are compatible with a delimiter of addresses. -/
def disguisedRanges : List (Nat × Nat) :=
  [(0x2047, 0x2049), (0x2100, 0x2101), (0x2105, 0x2106), (0x2A74, 0x2A74), (0xFE13, 0xFE13),
   (0xFE16, 0xFE16), (0xFE55, 0xFE56), (0xFE5F, 0xFE5F), (0xFE6B, 0xFE6B), (0xFF03, 0xFF03),
   (0xFF0F, 0xFF0F), (0xFF1A, 0xFF1A), (0xFF1F, 0xFF20)]

/-- Whether brackets come in pairs around what may stand in them, and no
    delimiter is disguised. -/
def isWellFormed (authority : Text) : Bool :=
  let opens := authority.contains '['
  let closes := authority.contains ']'
  opens == closes && (!opens || ((hostWithin? authority).map isBracketable).getD false) &&
    !authority.any (inRanges disguisedRanges)

/-- Check that an address has a scheme and a well-formed host. -/
def check (url : Text) : Except UrlFault Unit :=
  let cleaned := clean url
  let rest? := afterScheme? cleaned
  let authority := authorityOf (rest?.getD cleaned)
  if !isWellFormed authority then .error .malformedHost
  else if rest?.isNone || authority.isEmpty then .error .incomplete
  else .ok ()

end Url

end ValueClass
