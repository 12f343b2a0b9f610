import NamingDirectory.Name.Reading
import NamingDirectory.Text.Percent
import NamingDirectory.Url.Split

/-!
# Settings of a directory

How a directory server is reached, and how its entries are named and told apart. A setting holds
whatever value was given for it, and is interpreted where it is used; only the name style is checked at
once. `Settings.ofUrl` takes host, port and base from a URL.
-/

namespace NamingDirectory.Ldap

inductive NameStyle where
  /-- Segments between slashes, each the value of the naming attribute. -/
  | composite
  | dn
deriving DecidableEq

namespace NameStyle

def word : NameStyle → String
  | .composite => "composite"
  | .dn => "dn"

def grammar : NameStyle → Name.Grammar
  | .composite => .slashes
  | .dn => .dn

/-- The style that a word names. -/
def ofWord? (word : String) : Option NameStyle :=
  if word == "composite" then some .composite
  else if word == "dn" then some .dn
  else none

/-- The style that a value names; what counts as not given is composite. -/
def ofValue (v : Value) : Except Fault NameStyle :=
  if v.isVoid then .ok .composite
  else
    let unknown : Fault := .defect .badValue ("Unknown name syntax: " ++ v.quoted fun _ => [])
    v.readText (fun s => (ofWord? (Text.lower (Text.trimmed s))).elim (.error unknown) .ok)
      fun _ => .error unknown

end NameStyle

structure Settings where
  host : Value
  port : Value := .int 389
  useSsl : Value := .bool false
  startTls : Value := .bool false
  /-- Who binds; nobody in particular if it counts as not given. -/
  principal : Value := .text ""
  password : Value := .text ""
  /-- The distinguished name under which the tree lies. -/
  base : Value := .text ""
  validateTls : Value := .bool false
  /-- Seconds to wait for a connection. -/
  timeout : Value := .float (.ofDecimal false 5 0)
  nameStyle : NameStyle := .composite
  /-- The attribute that a composite segment is the value of. -/
  namingAttribute : Value := .text "cn"
  /-- The attribute that holds a bound value. -/
  valueAttribute : Value := .text "description"
  /-- The object classes that make an existing entry a context. -/
  contextClasses : Value := .tuple [.text "organizationalUnit", .text "container"]
  /-- The object classes of a new context, by the attribute that names it. -/
  newContextClassesByAttribute : Value := .dict [
    (.text "ou", .tuple [.text "top", .text "organizationalUnit"]),
    (.text "cn", .tuple [.text "top", .text "container"])]
  /-- The object classes of a new context that any other attribute names. -/
  newContextClasses : Value := .tuple [.text "top", .text "container"]
  /-- The object classes of a new entry for a value. -/
  newLeafClasses : Value := .tuple [.text "top", .text "applicationProcess"]

namespace Settings

def entries (s : Settings) : List (String × Value) := [
  ("host", s.host), ("port", s.port), ("use_ssl", s.useSsl), ("starttls", s.startTls),
  ("bind_principal", s.principal), ("bind_password", s.password), ("base_dn", s.base),
  ("tls_validate", s.validateTls), ("connect_timeout_s", s.timeout),
  ("name_syntax", .text s.nameStyle.word), ("naming_attribute", s.namingAttribute),
  ("value_attribute", s.valueAttribute), ("context_classes", s.contextClasses),
  ("context_object_classes_by_attribute", s.newContextClassesByAttribute),
  ("context_object_classes", s.newContextClasses), ("leaf_object_classes", s.newLeafClasses)]

/-- The settings with one of them changed, if the keyword is one. The name style is left to `setAll`. -/
def set? (s : Settings) (keyword : String) (v : Value) : Option Settings :=
  match keyword with
  | "host" => some { s with host := v }
  | "port" => some { s with port := v }
  | "use_ssl" => some { s with useSsl := v }
  | "starttls" => some { s with startTls := v }
  | "bind_principal" => some { s with principal := v }
  | "bind_password" => some { s with password := v }
  | "base_dn" => some { s with base := v }
  | "tls_validate" => some { s with validateTls := v }
  | "connect_timeout_s" => some { s with timeout := v }
  | "name_syntax" => some s
  | "naming_attribute" => some { s with namingAttribute := v }
  | "value_attribute" => some { s with valueAttribute := v }
  | "context_classes" => some { s with contextClasses := v }
  | "context_object_classes_by_attribute" => some { s with newContextClassesByAttribute := v }
  | "context_object_classes" => some { s with newContextClasses := v }
  | "leaf_object_classes" => some { s with newLeafClasses := v }
  | _ => none

/-- An argument that is given twice, once by its keyword. -/
def givenTwice (call keyword : String) : Fault :=
  .defect .wrongKind (call ++ " got multiple values for argument '" ++ keyword ++ "'")

/-- A keyword that is none. One word stands for the settings themselves, which are given already. -/
def unknownKeyword (keyword : String) : Fault :=
  let call := "LdapConfig.__init__()"
  if keyword == "self" then givenTwice call keyword
  else .defect .wrongKind (call ++ " got an unexpected keyword argument '" ++ keyword ++ "'")

/-- Changes settings by their keywords, without a look at the values. -/
def assign (s : Settings) (changes : List (String × Value)) : Except Fault Settings :=
  changes.foldlM (fun s change =>
    match s.set? change.1 change.2 with
    | some s => .ok s
    | none => .error (unknownKeyword change.1)) s

/-- Sets the name style that the changes ask for, if they do. -/
def restyle (s : Settings) (changes : List (String × Value)) : Except Fault Settings :=
  match changes.lookup "name_syntax" with
  | some v => (NameStyle.ofValue v).map fun style => { s with nameStyle := style }
  | none => .ok s

/-- Changes settings by their keywords. An unknown keyword is found before the name style is checked. -/
def setAll (s : Settings) (changes : List (String × Value)) : Except Fault Settings := do
  let s ← s.assign changes
  s.restyle changes

/-- The settings with the given values and the defaults for the others. A host has to be given. -/
def ofOptions (options : List (String × Value)) : Except Fault Settings := do
  let s ← assign { host := .null } options
  if (options.lookup "host").isNone then
    throw (.defect .wrongKind "LdapConfig.__init__() missing 1 required positional argument: 'host'")
  s.restyle options

def malformedUrl (p : Url.Problem) : Fault := .defect .badValue p.message

def unsupportedScheme (url : Value) : Fault :=
  .refuse .invalidName ("Unsupported provider URL scheme: " ++ url.quoted fun _ => []) .null

/-- The parts of a URL. One that is given as bytes is of no scheme, and has to be ASCII. -/
def urlParts (url : Value) : Except Fault Url :=
  url.readText (fun s => (Url.split (Text.trimmed s)).mapError malformedUrl) fun bs =>
    let bare := Text.trimmedBytes bs
    match Value.asciiText? bare with
    | some s => do
      let _ ← (Url.split s).mapError malformedUrl
      throw (unsupportedScheme url)
    | none =>
      let place := (bare.takeWhile (· < 0x80)).length
      let byte := String.ofList (Text.hex 2 (bare.getD place 0).toNat)
      .error (.defect .notAscii ("'ascii' codec can't decode byte 0x" ++ byte ++ " in position " ++
        toString place ++ ": ordinal not in range(128)"))

/-- The settings that a URL gives: host, port, base, and whether the connection is secure. -/
def ofUrlAlone (url : Value) : Except Fault Settings := do
  let u ← urlParts url
  if u.scheme != "ldap" && u.scheme != "ldaps" then throw (unsupportedScheme url)
  if u.host.isEmpty then
    throw (.refuse .invalidName ("Provider URL has no host: " ++ url.quoted fun _ => []) .null)
  let secure := u.scheme == "ldaps"
  let port ← u.port?.mapError malformedUrl
  let port := match port with
    | some (n + 1) => n + 1
    | _ => if secure then 636 else 389
  let base := Text.percentDecode (u.path.dropWhile (· == '/'))
  return { host := .text u.host, port := .int port, useSsl := .bool secure
           base := .text (String.ofList base) }

/-- The settings that a URL gives, with the overrides that are something. No override may be the URL, or
the kind of settings that is made. -/
def ofUrl (url : Value) (overrides : List (String × Value)) : Except Fault Settings := do
  if let some (keyword, _) := overrides.find? fun o => o.1 == "cls" || o.1 == "url" then
    throw (givenTwice "LdapConfig.from_url()" keyword)
  let s ← ofUrlAlone url
  s.setAll (overrides.filter fun o => match o.2 with | .null => false | _ => true)

/-- A text or bytes in small letters, for a comparison. -/
def lowered (v : Value) : Except Fault Value :=
  match v with
  | .text s => .ok (.text (Text.lower s))
  | .bytes bs => .ok (.bytes (bs.map fun b => if 0x41 ≤ b && b ≤ 0x5a then b + 0x20 else b))
  | v => .error (.missing v "lower")

/-- Whether an entry with the given object classes is a context. The classes of the settings have to be
texts; those of the entry are taken by their texts. -/
def marksContext (s : Settings) (classes : Value) : Except Fault Bool := do
  let wanted ← (← s.contextClasses.items).mapM lowered
  return (← classes.items).any fun c => wanted.contains (.text (Text.lower c.plain))

/-- The object classes of a new context that a given attribute names. -/
def classesNamedBy (s : Settings) (naming : Value) : Except Fault (List Value) := do
  let byAttribute ← match s.newContextClassesByAttribute with
    | .dict entries => entries.mapM fun entry => (lowered entry.1).map fun key => (key, entry.2)
    | v => .error (.missing v "items")
  let key ← lowered naming
  (((OrderedMap.ofEntries byAttribute).get? key).getD s.newContextClasses).items

end Settings
end NamingDirectory.Ldap
