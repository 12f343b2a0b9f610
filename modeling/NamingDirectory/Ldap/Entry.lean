import NamingDirectory.Json.Reader
import NamingDirectory.Ldap.Session

/-!
# Directory entries as contexts

The operations of a context that is an entry of a directory. A name below it is turned into a
distinguished name, leaf first, and a bound value is kept as JSON text in one attribute.
-/

namespace NamingDirectory.Ldap

def rdn (d : Directory) (s : Segment) : String :=
  match d.settings.nameStyle with
  | .dn => s.text
  | .composite =>
    d.settings.namingAttribute.plain ++ "=" ++ String.ofList (Dn.escape s.text.toList)

/-- The distinguished name of a name below the entry at `own`. -/
def entryDn (d : Directory) (own : Value) (n : Name) : Except Fault String :=
  let rdns := n.segments.reverse.map (rdn d)
  if own.isVoid then .ok (",".intercalate rdns)
  else match own with
    | .text own => .ok (",".intercalate (rdns ++ [own]))
    | own => .error (.defect .wrongKind ("sequence item " ++ toString n.length ++
        ": expected str instance, " ++ own.kind ++ " found"))

/-- The attributes that a segment gives to its entry. -/
def rdnAttributes (d : Directory) (segment : Value) : Except Fault Attributes :=
  match d.settings.nameStyle with
  | .composite => d.settings.namingAttribute.asKey.map fun naming => [(naming, segment)]
  | .dn =>
    let read (text : String) : Except Fault Attributes :=
      match Dn.assertions text with
      | .ok as => .ok (OrderedMap.ofEntries (as.map fun a => (.text a.type, .text a.value)))
      | .error p => .error (.defect .invalidDn p.message)
    match segment with
    | .text s => read s
    | .bytes (_ :: _) =>
      .error (.defect .wrongKind "argument should be integer or bytes-like object, not 'str'")
    | v => if v.isVoid then read "" else .error (.missing v "find")

/-- What stands at a name: another context, or a value. -/
inductive Found where
  | entry (dn : String)
  | value (v : Value)

/-- Nothing stands at a distinguished name. -/
def noEntry (dn : String) (n : Name) : Fault :=
  .refuse .notFound ("No such entry: " ++ dn) (.text n.shown)

/-- Nothing stands above a distinguished name. -/
def noParent (dn : String) (n : Name) : Fault :=
  .refuse .notFound ("Parent context not found for " ++ dn) (.text n.shown)

/-- The server refused a request. -/
def requestFailed (what : String) (outcome : Outcome) (n : Name) : Fault :=
  .refuse .general ("LDAP " ++ what ++ " failed: " ++ outcome.text) (.text n.shown)

def objectClass : Value := .text "objectClass"

/-- The value that an entry holds, read from the first value of its attribute. -/
def storedValue (d : Directory) (dn : String) (n : Name) (attributes : Attributes) :
    Except Fault Value := do
  let raw := (attributes.get? (← d.settings.valueAttribute.asKey)).getD (.list [])
  if raw.isVoid then return .null
  else
    let first ← raw.head
    match Json.read first.plain with
    | .ok v => return v
    | .error e =>
      let message := "Undecodable value at " ++ dn ++ ": " ++ e.plain
      throw (.refusal .general (.text message) (.text n.shown) (some e))

/-- What an entry is. -/
def interpret (d : Directory) (dn : String) (n : Name) (attributes : Attributes) :
    Except Fault Found := do
  if ← d.settings.marksContext ((attributes.get? objectClass).getD (.list [])) then
    return .entry dn
  else
    return .value (← storedValue d dn n attributes)

/-- Looks up a name below the entry at `own`. -/
def lookup (d : Directory) (own name : Value) : Op Found := do
  let n ← lift (d.grammar.resolve name)
  let dn ← lift (entryDn d own n)
  let (reply, outcome) ← session d do
    let reply ← call (.search dn [objectClass, d.settings.valueAttribute])
    return (reply, ← lift reply.outcome)
  if !reply.ok then
    throw (if outcome.isNoSuchObject then noEntry dn n else requestFailed "search" outcome n)
  match reply.entries with
  | [] => throw (noEntry dn n)
  | attributes :: _ => lift (interpret d dn n attributes)

def encode (v : Value) (n : Name) : Except Fault String :=
  match Json.text v with
  | .ok s => .ok s
  | .error p =>
    let message := "Value is not serializable: " ++ p.message
    .error (.refusal .general (.text message) (.text n.shown) (some p.fault))

/-- The attributes of a new entry for a value. -/
def leafAttributes (d : Directory) (n : Name) (text : String) : Except Fault Attributes := do
  let classes ← d.settings.newLeafClasses.items
  let rdnAttributes ← rdnAttributes d (.text n.leaf.text)
  let attributes := OrderedMap.update [(objectClass, .list classes)] rdnAttributes
  return OrderedMap.put attributes d.settings.valueAttribute (.text text)

/-- Binds a value at a name below the entry at `own`: the attribute is replaced in the entry that is
there, or a new entry is added. -/
def rebind (d : Directory) (own name value : Value) : Op Unit := do
  let n ← lift (d.grammar.resolve name)
  let dn ← lift (entryDn d own n)
  let text ← lift (encode value n)
  let refused? ← session d do
    let key ← lift d.settings.valueAttribute.asKey
    let modified ← call (.modify dn key text)
    if modified.ok then return none
    let outcome ← lift modified.outcome
    if !outcome.isNoSuchObject then throw (requestFailed "modify" outcome n)
    let attributes ← lift (leafAttributes d n text)
    let added ← call (.add dn attributes)
    if added.ok then return none
    return some (← lift added.outcome)
  match refused? with
  | none => return ()
  | some outcome =>
    throw (if outcome.isNoSuchObject then noParent dn n else requestFailed "add" outcome n)

def contextAttributes (d : Directory) (n : Name) : Except Fault Attributes := do
  let rdnAttributes ← rdnAttributes d (.text n.leaf.text)
  let naming := match rdnAttributes with
    | [] => .null
    | (naming, _) :: _ => naming
  let classes ← d.settings.classesNamedBy naming
  return OrderedMap.update [(objectClass, .list classes)] rdnAttributes

def createContext (d : Directory) (own name : Value) : Op String := do
  let n ← lift (d.grammar.resolve name)
  let dn ← lift (entryDn d own n)
  let attributes ← lift (contextAttributes d n)
  let (added, outcome) ← session d do
    let added ← call (.add dn attributes)
    return (added, ← lift added.outcome)
  if added.ok then return dn
  else if outcome.isEntryAlreadyExists then
    throw (.refuse .alreadyBound ("Entry already exists: " ++ dn) (.text n.shown))
  else if outcome.isNoSuchObject then throw (noParent dn n)
  else throw (requestFailed "add" outcome n)

end NamingDirectory.Ldap
