import NamingDirectory.Decimal.Numeral
import NamingDirectory.Ldap.Settings

/-!
# Endpoints

Where a directory server listens, worked out from the host, the port and the security that were set. A
host may be a URL that overrides the port and the security, or name a local socket.
-/

namespace NamingDirectory.Ldap

/-- Where a server listens. A local socket has no port. -/
structure Endpoint where
  host : String
  port : Value
  secure : Bool
  name : String

namespace Endpoint

def portNotInteger : Fault := .defect .invalidPort "port must be an integer"

/-- The host, and the port if the host gives one, both in a text after its scheme. `url` says whether
there was a scheme. -/
def hostAndPort (url : Bool) (cs : List Char) : Except Fault (List Char × Option Int) :=
  if cs.count ':' == 1 then
    let (host, port) := Url.cutAt ':' cs
    match Numeral.integer (String.ofList (port.getD [])) with
    | .ok n => .ok (host, if n == 0 then none else some n)
    | .error _ => .error portNotInteger
  else if url && cs.head? == some '[' then
    match Url.cutAt ']' (cs.drop 1) with
    | (host, some rest) =>
      if !Url.isIpv6 host then .error (.defect .invalidServer "")
      else match rest with
        | [] => .ok (host, none)
        | ':' :: port =>
          let port := Numeral.asciiDigits port
          if port.isEmpty || !port.all Char.isDigit then .error portNotInteger
          else if Numeral.digitLimit < port.length then
            .error (.defect .badValue (Numeral.tooManyDigits port.length))
          else .ok (host, some (Numeral.digitsValue port : Nat))
        | _ => .error (.defect .invalidServer "invalid URL in server name")
    | (_, none) => .error (.defect .invalidServer "")
  else if !url && Url.isIpv6 cs then .ok (cs, none)
  else if 1 < cs.count ':' then .error (.defect .invalidServer "")
  else .ok (cs, none)

/-- The port, which is the usual one if none was given. -/
def checkPort (secure : Bool) (port : Value) : Except Fault Value :=
  let port := if port.isVoid then .int (if secure then 636 else 389) else port
  let inRange (n : Int) : Bool := 0 ≤ n && n < 65535
  match port with
  | .int n =>
    if inRange n then .ok port
    else .error (.defect .invalidPort "Source port must in range from 0 to 65535")
  | .bool _ => .ok port
  | _ => .error (.defect .invalidPort "Source port must be an integer")

/-- Cuts a scheme off a host, in letters of any case. -/
def afterScheme? (scheme : String) (cs : List Char) : Option (List Char) :=
  let n := scheme.length
  if (cs.take n).map Char.toLower == scheme.toList then some (cs.drop n) else none

def onPort (host : List Char) (secure : Bool) (port : Value) : Endpoint :=
  let shown := if Url.isIpv6 host then '[' :: (host ++ [']']) else host
  let scheme := if secure then "ldaps://" else "ldap://"
  { host := String.ofList host, port, secure
    name := scheme ++ String.ofList shown ++ ":" ++ port.plain }

/-- The endpoint that a host, a port and a wish for security mean. -/
def ofParts (host port useSsl : Value) : Except Fault Endpoint := do
  let host ← match host with
    | .text s => pure (Text.trim s.toList)
    | .bytes _ =>
      throw (.defect .wrongKind "startswith first arg must be bytes or a tuple of bytes, not str")
    | v => throw (.missing v "strip")
  match afterScheme? "ldapi://" host with
  | some _ =>
    return { host := String.ofList (Text.percentDecode (host.drop 7)), port := .null, secure := false
             name := String.ofList host }
  | none =>
    let (rest, url, secure) := match afterScheme? "ldap://" host, afterScheme? "ldaps://" host with
      | some rest, _ => (rest, true, false)
      | none, some rest => (rest, true, true)
      | none, none => (host, false, !useSsl.isVoid)
    let (name, given) ← hostAndPort url rest
    let port ← checkPort secure ((given.map .int).getD port)
    return onPort name secure port

end Endpoint

/-- The floating-point number of a numeral, which a fault shows in its quoted form. -/
def secondsOf (quoted numeral : String) : Except Fault Binary64 :=
  match Numeral.float? numeral with
  | some x => .ok x
  | none => .error (.defect .badValue ("could not convert string to float: " ++ quoted))

def seconds (v : Value) : Except Fault Binary64 :=
  match v with
  | .float x => .ok x
  | .bool b => .ok ((Binary64.ofInt? (if b then 1 else 0)).getD .nan)
  | .int i =>
    match Binary64.ofInt? i with
    | some x => .ok x
    | none => .error (.defect .overflow "int too large to convert to float")
  | .text s => secondsOf (Text.quoted s) s
  | .bytes bs => secondsOf (Text.quotedBytes bs) (Value.markedText bs)
  | v =>
    .error (.defect .wrongKind
      ("float() argument must be a string or a real number, not '" ++ v.kind ++ "'"))

/-- A directory: its settings, and what was worked out from them. -/
structure Directory where
  settings : Settings
  endpoint : Endpoint
  timeout : Binary64

namespace Directory

def ofSettings (s : Settings) : Except Fault Directory := do
  let timeout ← seconds s.timeout
  let endpoint ← Endpoint.ofParts s.host s.port s.useSsl
  return { settings := s, endpoint, timeout }

/-- How the names of entries are read. -/
def grammar (d : Directory) : Name.Grammar := d.settings.nameStyle.grammar

end Directory
end NamingDirectory.Ldap
