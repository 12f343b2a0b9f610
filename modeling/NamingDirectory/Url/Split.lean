import NamingDirectory.Decimal.Numeral
import NamingDirectory.Fault
import NamingDirectory.Text.Case
import NamingDirectory.Url.Address

/-!
# Splitting URLs

The scheme, the authority and the path of a URL, and the host and the port in the authority. A query and
a fragment are cut off.
-/

namespace NamingDirectory

structure Url where
  scheme : String
  authority : List Char
  path : List Char

namespace Url

/-- Why a URL cannot be split, or its port not be read. -/
inductive Problem where
  | brackets
  | futureAddress
  | noAddress (host : String)
  | oldAddress
  | confusable (authority : String)
  | portText (port : String)
  | portLength (digits : Nat)
  | portRange
deriving DecidableEq

def Problem.message : Problem → String
  | .brackets => "Invalid IPv6 URL"
  | .futureAddress => "IPvFuture address is invalid"
  | .noAddress host => Text.quoted host ++ " does not appear to be an IPv4 or IPv6 address"
  | .oldAddress => "An IPv4 address cannot be in brackets"
  | .confusable authority =>
    "netloc '" ++ authority ++ "' contains invalid characters under NFKC normalization"
  | .portText port => "Port could not be cast to integer value as " ++ Text.quoted port
  | .portLength digits => Numeral.tooManyDigits digits
  | .portRange => "Port out of range 0-65535"

/-- The part of a text before the first `c`, and the part after it if there is one. -/
def cutAt (c : Char) (cs : List Char) : List Char × Option (List Char) :=
  match cs.dropWhile (· != c) with
  | [] => (cs, none)
  | _ :: rest => (cs.takeWhile (· != c), some rest)

/-- The part of a text after the last `c`, the whole text if there is none. -/
def afterLast (c : Char) (cs : List Char) : List Char := (cs.reverse.takeWhile (· != c)).reverse

/-- Whether a character may stand in a scheme. -/
def isSchemeCharacter (c : Char) : Bool := c.isAlphanum || c == '+' || c == '-' || c == '.'

/-- The scheme in front of the first colon, if it is one, and the rest. -/
def cutScheme (cs : List Char) : List Char × List Char :=
  match cs, cutAt ':' cs with
  | c :: _, (scheme, some rest) =>
    if c.isAlpha && scheme.all isSchemeCharacter then (scheme.map Char.toLower, rest) else ([], cs)
  | _, _ => ([], cs)

/-- Checks what stands between brackets: an address of version 6, or one of a version to come. -/
def checkBracketed (host : List Char) : Except Problem Unit :=
  match host with
  | 'v' :: rest =>
    match cutAt '.' rest with
    | (digits, some (_ :: _)) =>
      if !digits.isEmpty && digits.all Text.isHexDigit then .ok () else .error .futureAddress
    | _ => .error .futureAddress
  | _ =>
    if isIpv6WithZone host then .ok ()
    else if isIpv4 host then .error .oldAddress
    else .error (.noAddress (String.ofList host))

/-- Checks the brackets of an authority. Nothing stands before an opening bracket, and at most a port
after the closing one. -/
def checkBrackets (authority : List Char) : Except Problem Unit :=
  let opens := authority.contains '['
  let closes := authority.contains ']'
  if opens != closes then .error .brackets
  else if !opens then .ok ()
  else
    let hostAndPort := afterLast '@' authority
    match cutAt '[' hostAndPort with
    | (before, some bracketed) =>
      if !before.isEmpty then .error .brackets
      else
        let (host, port) := cutAt ']' bracketed
        match port with
        | some (c :: _) => if c == ':' then checkBracketed host else .error .brackets
        | _ => checkBracketed host
    | (_, none) => checkBracketed (cutAt ':' hostAndPort).1

/-- The characters whose compatible forms hold one of the signs that end an authority or part it. -/
def confusables : List Nat := [
  0x2047, 0x2048, 0x2049, 0x2100, 0x2101, 0x2105, 0x2106, 0x2a74, 0xfe13, 0xfe16, 0xfe55, 0xfe56,
  0xfe5f, 0xfe6b, 0xff03, 0xff0f, 0xff1a, 0xff1f, 0xff20]

/-- Splits a URL. Control characters and spaces in front do not count, and neither do tabs and line
ends anywhere. -/
def split (url : String) : Except Problem Url := do
  let cs := url.toList.dropWhile (·.toNat ≤ 0x20)
  let cs := cs.filter fun c => !(c == '\t' || c == '\n' || c == '\r')
  let (scheme, rest) := cutScheme cs
  let isEnd (c : Char) : Bool := c == '/' || c == '?' || c == '#'
  let (authority, rest) := match rest with
    | '/' :: '/' :: rest => (rest.takeWhile (!isEnd ·), rest.dropWhile (!isEnd ·))
    | rest => ([], rest)
  checkBrackets authority
  if authority.any fun c => confusables.contains c.toNat then
    throw (.confusable (String.ofList authority))
  let path := (cutAt '?' (cutAt '#' rest).1).1
  return ⟨String.ofList scheme, authority, path⟩

/-- The host and the port in the authority, as they are written. -/
def hostAndPort (u : Url) : List Char × List Char :=
  let info := afterLast '@' u.authority
  match cutAt '[' info with
  | (_, some bracketed) =>
    let (host, rest) := cutAt ']' bracketed
    (host, ((cutAt ':' (rest.getD [])).2).getD [])
  | (_, none) =>
    let (host, port) := cutAt ':' info
    (host, port.getD [])

/-- The host in small letters; a zone in it keeps its letters. -/
def host (u : Url) : String :=
  let host := u.hostAndPort.1
  let name := host.takeWhile (· != '%')
  Text.lower (String.ofList name) ++ String.ofList (host.drop name.length)

/-- The port, if one is given. -/
def port? (u : Url) : Except Problem (Option Nat) :=
  let port := u.hostAndPort.2
  if port.isEmpty then .ok none
  else if !port.all Char.isDigit then .error (.portText (String.ofList port))
  else if Numeral.digitLimit < port.length then .error (.portLength port.length)
  else
    let n := Numeral.digitsValue port
    if n ≤ 65535 then .ok (some n) else .error .portRange

end Url
end NamingDirectory
