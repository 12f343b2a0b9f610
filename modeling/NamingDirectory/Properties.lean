import NamingDirectory.Fault
import NamingDirectory.Text.Blank
import NamingDirectory.Text.Case

/-!
# Directory properties

The entries of a mixed configuration that concern the directory: those whose keys start with a common
stem. Two of them get the names under which the opening of a root context looks for them, and are left
out when they hold nothing; the others lose the stem.
-/

namespace NamingDirectory

abbrev Properties := OrderedMap String Value

namespace Properties

/-- What the keys of directory entries start with. -/
def stem : String := "dirbind.directory."

/-- The key of the kind of directory, in a configuration. -/
def classKey : String := "dirbind.directory.class"

/-- The key of the URL of the provider, in a configuration. -/
def urlKey : String := "dirbind.directory.url"

def contextFactory : String := "naming.factory.initial"
def providerUrl : String := "naming.provider.url"
def principal : String := "security.principal"
def credentials : String := "security.credentials"
def startTls : String := "ldap.starttls"
def validateTls : String := "ldap.tls_validate"
def nameStyle : String := "ldap.name_syntax"

/-- The property that an entry becomes, if it becomes one. -/
def rename : Value × Value → Option (String × Value)
  | (.text key, v) =>
    if key == classKey then
      match v with
      | .null => none
      | v => some (contextFactory, v)
    else if key == urlKey then
      match v with
      | .null => none
      | v => some (providerUrl, v)
    else if stem.toList.isPrefixOf key.toList then
      some (String.ofList (key.toList.drop stem.length), v)
    else none
  | _ => none

def ofEntries (entries : List (Value × Value)) : Properties :=
  OrderedMap.ofEntries (entries.filterMap rename)

/-- The properties of a configuration; what counts as not given has none. -/
def ofConfiguration (config : Value) : Except Fault Properties :=
  match config with
  | .dict entries => .ok (ofEntries entries)
  | v => if v.isVoid then .ok [] else .error (.missing v "items")

def value (props : Properties) (key : String) : Value := (props.get? key).getD .null

/-- The truth value that a property stands for; nothing stands for none. `keys` are the keys bound in
a memory context. -/
def truth? (keys : Nat → List String) (v : Value) : Option Bool :=
  match v with
  | .null => none
  | .bool b => some b
  | v => some (["1", "true", "yes", "on"].contains (Text.lower (Text.trimmed (v.shown keys))))

end Properties
end NamingDirectory
