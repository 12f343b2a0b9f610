import NamingDirectory.Decimal.Numeral
import NamingDirectory.Fault

/-!
# The environment

The defaults that a process takes from its environment, used where a configuration is silent. Each of them
can be given as an argument, by its keyword or by the name of its variable; an argument wins over a
variable, and names are compared without regard to case. `Environment.Lens` is how the variables are
read. `Process` keeps what was read until it is told to forget it.
-/

namespace NamingDirectory

structure Environment where
  contextFactory : String
  providerUrl : String
  bindUser : String
  bindPassword : String
  validateTls : Bool
  connectTimeout : Binary64
  logLevel : String
  logDirectory : String

namespace Environment

/-- The two names of a field: its keyword, and the name of its variable. -/
structure Label where
  keyword : String
  varName : String
deriving DecidableEq

namespace Label

def contextFactory : Label := ⟨"context_factory", "DIRBIND_CONTEXT_FACTORY"⟩
def providerUrl : Label := ⟨"provider_url", "DIRBIND_PROVIDER_URL"⟩
def bindUser : Label := ⟨"ldap_bind_user", "DIRBIND_LDAP_BIND_USER"⟩
def bindPassword : Label := ⟨"ldap_bind_password", "DIRBIND_LDAP_BIND_PASSWORD"⟩
def validateTls : Label := ⟨"ldap_tls_validate", "DIRBIND_LDAP_TLS_VALIDATE"⟩
def connectTimeout : Label := ⟨"ldap_connect_timeout_s", "DIRBIND_LDAP_CONNECT_TIMEOUT"⟩
def logLevel : Label := ⟨"log_level", "DIRBIND_LOG_LEVEL"⟩
def logDirectory : Label := ⟨"log_dir", "DIRBIND_LOG_DIR"⟩

def all : List Label := [
  contextFactory, providerUrl, bindUser, bindPassword, validateTls, connectTimeout, logLevel,
  logDirectory]

end Label

def alike (a b : String) : Bool := Text.lower a == Text.lower b

/-! ### Variables -/

/-- The variables of a process, in the order in which they were set. -/
abbrev Variables := OrderedMap String String

/-- How the variables of a process are read. -/
structure Lens where
  /-- Names of variables have to match in case. -/
  isExact : Bool
  /-- What stands before the keyword of a field, where that is the name of a variable. -/
  stem : String
  /-- An empty variable counts as one that is not set. -/
  skipsEmpty : Bool
  /-- The text that stands for nothing. -/
  nothing? : Option String

namespace Lens

/-- The arguments that are about the reading itself. -/
def options : List String := [
  "_case_sensitive", "_nested_model_default_partial_update", "_env_prefix", "_env_prefix_target",
  "_env_file", "_env_file_encoding", "_env_ignore_empty", "_env_nested_delimiter",
  "_env_nested_max_split", "_env_parse_none_str", "_env_parse_enums", "_cli_prog_name",
  "_cli_parse_args", "_cli_settings_source", "_cli_parse_none_str", "_cli_hide_none_type",
  "_cli_avoid_json", "_cli_enforce_required", "_cli_use_class_docs_for_groups",
  "_cli_exit_on_error", "_cli_prefix", "_cli_flag_prefix_char", "_cli_implicit_flags",
  "_cli_ignore_unknown_args", "_cli_kebab_case", "_cli_shortcuts", "_secrets_dir", "_build_sources"]

def textOption? (arguments : List (String × Value)) (option : String) : Option String :=
  match arguments.lookup option with
  | some (.text s) => some s
  | _ => none

/-- The reading that arguments ask for. -/
def ofArguments (arguments : List (String × Value)) : Lens :=
  let isSet (option : String) : Bool := (arguments.lookup option).any (!·.isVoid)
  { isExact := isSet "_case_sensitive"
    stem := (textOption? arguments "_env_prefix").getD ""
    skipsEmpty := isSet "_env_ignore_empty"
    nothing? := textOption? arguments "_env_parse_none_str" }

/-- The value of the variable with a name; of several that match the one that was set last. -/
def read? (lens : Lens) (vars : Variables) (name : String) : Option Value :=
  let matching := vars.reverse.find? fun e =>
    (if lens.isExact then e.1 == name else alike e.1 name) && !(lens.skipsEmpty && e.2.isEmpty)
  matching.map fun e => if lens.nothing? == some e.2 then .null else .text e.2

/-- What the variables give for a field, and under which of its names. A variable may be named by the
keyword too, if none has the name that is meant for it. -/
def given? (lens : Lens) (vars : Variables) (label : Label) : Option (Value × String) :=
  match lens.read? vars label.varName, lens.read? vars (lens.stem ++ label.keyword) with
  | some v, _ => some (v, label.varName)
  | none, some v => some (v, label.keyword)
  | none, none => none

end Lens

/-! ### Fields -/

/-- The argument for a field. Its names are compared without regard to case, and the name of the
variable goes before the keyword. -/
def argument? (arguments : List (String × Value)) (label : Label) : Option Value :=
  match arguments.find? (alike ·.1 label.varName), arguments.find? (alike ·.1 label.keyword) with
  | some a, _ | none, some a => some a.2
  | none, none => none

/-- Whether a field is given by its keyword as it is written, and not by the name of its variable. -/
def isByKeyword (arguments : List (String × Value)) (label : Label) : Bool :=
  (arguments.lookup label.varName).isNone && (arguments.lookup label.keyword).isSome

/-- The value that is given for a field, and the name under which it counts as given: that of the
variable, unless it was the keyword. -/
def given? (arguments : List (String × Value)) (vars : Variables) (label : Label) :
    Option (Value × String) :=
  match argument? arguments label with
  | some v => some (v, if isByKeyword arguments label then label.keyword else label.varName)
  | none => (Lens.ofArguments arguments).given? vars label

def utf8 (problem : String) (bs : List UInt8) : Except String String :=
  match String.fromUTF8? ⟨bs.toArray⟩ with
  | some s => .ok s
  | none => .error problem

def readText : Value → Except String String
  | .text s => .ok s
  | .bytes bs => utf8 "string_unicode" bs
  | _ => .error "string_type"

/-- The words for truth and falsehood. -/
def truthWords : List (String × Bool) := [
  ("1", true), ("on", true), ("t", true), ("true", true), ("y", true), ("yes", true),
  ("0", false), ("off", false), ("f", false), ("false", false), ("n", false), ("no", false)]

/-- The truth value that a word stands for, in any case. -/
def ofTruthWord (word : String) : Except String Bool :=
  match truthWords.lookup (String.ofList (word.toList.map Char.toLower)) with
  | some b => .ok b
  | none => .error "bool_parsing"

def ofInteger (i : Int) : Except String Bool :=
  if i = 0 then .ok false
  else if i = 1 then .ok true
  else .error "bool_parsing"

/-- The integer of 64 bits that a value stands for. Of the floating-point numbers the least of them does
not count. -/
def word? (v : Value) : Option Int :=
  match v with
  | .float _ => v.integer?.filter fun i => Value.isWord i && Value.isWord (i - 1)
  | v => v.integer?.filter Value.isWord

/-- Reads a truth value: itself, zero or one, or a word, which may be given as bytes. Numbers that are no
integers of 64 bits are of another kind. -/
def readBool : Value → Except String Bool
  | .bool b => .ok b
  | .text s => ofTruthWord s
  | .bytes bs => utf8 "bool_parsing" bs >>= ofTruthWord
  | v =>
    match word? v with
    | some i => ofInteger i
    | none => .error "bool_type"

def ofNumeral (s : String) : Except String Binary64 :=
  match Numeral.plainFloat? s with
  | some x => .ok x
  | none => .error "float_parsing"

/-- Reads a floating-point number: a number, a truth value, or a numeral, which may be given as bytes. -/
def readFloat : Value → Except String Binary64
  | .float x => .ok x
  | .int i =>
    match Binary64.ofInt? i with
    | some x => .ok x
    | none => .error "float_type"
  | .bool b => .ok (Binary64.nearest false (if b then 1 else 0) 1)
  | .text s => ofNumeral s
  | .bytes bs => utf8 "float_parsing" bs >>= ofNumeral
  | _ => .error "float_type"

def field {α : Type} (arguments : List (String × Value)) (vars : Variables)
    (read : Value → Except String α) (label : Label) (default : α) : Except SettingProblem α :=
  match given? arguments vars label with
  | none => .ok default
  | some (v, place) => (read v).mapError fun problem => ⟨problem, place⟩

/-- Whether an argument is one for a field or for the reading. -/
def isKnown (name : String) : Bool :=
  Lens.options.contains name ||
    Label.all.any fun label => alike name label.varName || alike name label.keyword

/-- Whether a variable gives a field its value by the keyword, while an argument gives it another under
the name of the variable. -/
def isTwice (arguments : List (String × Value)) (vars : Variables) (label : Label) : Bool :=
  (argument? arguments label).isSome && !isByKeyword arguments label &&
    ((Lens.ofArguments arguments).given? vars label).any (·.2 == label.keyword)

/-- What is given and gives no field its value: unknown arguments, and keywords of fields that are given
twice. -/
def strayProblems (arguments : List (String × Value)) (vars : Variables) : List SettingProblem :=
  let unknown := (arguments.map (·.1)).filter (!isKnown ·)
  let twice := (Label.all.filter (isTwice arguments vars)).map (·.keyword)
  (unknown ++ twice).map fun name => ⟨"extra_forbidden", name⟩

def problem? {α : Type} : Except SettingProblem α → List SettingProblem
  | .ok _ => []
  | .error p => [p]

/-- Reads the environment. All that is wrong is reported at once. -/
def read (arguments : List (String × Value)) (vars : Variables) : Except Fault Environment :=
  let text := field arguments vars readText
  let contextFactory := text .contextFactory "memory"
  let providerUrl := text .providerUrl "memory://default"
  let bindUser := text .bindUser ""
  let bindPassword := text .bindPassword ""
  let validateTls := field arguments vars readBool .validateTls false
  let connectTimeout :=
    field arguments vars readFloat .connectTimeout (Binary64.nearest false 5 1)
  let logLevel := text .logLevel "INFO"
  let logDirectory := text .logDirectory ""
  let problems :=
    problem? contextFactory ++ problem? providerUrl ++ problem? bindUser ++ problem? bindPassword ++
      problem? validateTls ++ problem? connectTimeout ++ problem? logLevel ++
      problem? logDirectory ++ strayProblems arguments vars
  match problems, contextFactory, providerUrl, bindUser, bindPassword, validateTls, connectTimeout,
      logLevel, logDirectory with
  | [], .ok contextFactory, .ok providerUrl, .ok bindUser, .ok bindPassword, .ok validateTls,
      .ok connectTimeout, .ok logLevel, .ok logDirectory =>
    .ok { contextFactory, providerUrl, bindUser, bindPassword, validateTls, connectTimeout, logLevel
          logDirectory }
  | problems, _, _, _, _, _, _, _, _ => .error (.settings problems)

def entries (env : Environment) : List (String × Value) := [
  (Label.contextFactory.keyword, .text env.contextFactory),
  (Label.providerUrl.keyword, .text env.providerUrl),
  (Label.bindUser.keyword, .text env.bindUser),
  (Label.bindPassword.keyword, .text env.bindPassword),
  (Label.validateTls.keyword, .bool env.validateTls),
  (Label.connectTimeout.keyword, .float env.connectTimeout),
  (Label.logLevel.keyword, .text env.logLevel),
  (Label.logDirectory.keyword, .text env.logDirectory)]

def toValue (env : Environment) : Value :=
  .dict (env.entries.map fun e => (.text e.1, e.2))

end Environment

/-- The environment of a process: its variables, and what was read from them and kept. -/
structure Process where
  vars : Environment.Variables
  kept : Option Environment

namespace Process

def empty : Process := ⟨[], none⟩

/-- Whether a variable belongs to this program. -/
def isOwn (name : String) : Bool :=
  "DIRBIND_".toList.isPrefixOf (name.toList.flatMap Text.capitals)

/-- Why a variable cannot be set: no character may be zero, and the name is not empty and has no equals
sign in it. -/
def refusal? (name value : String) : Option Fault :=
  if name.toList.contains '\x00' || value.toList.contains '\x00' then
    some (.defect .badValue "embedded null byte")
  else if name.toList.contains '=' then
    some (.defect .badValue "illegal environment variable name")
  else if name.isEmpty then some (.defect .system "[Errno 22] Invalid argument")
  else none

/-- Sets variables in order, up to one that cannot be set. -/
def set (p : Process) : List (String × String) → Option Fault × Process
  | [] => (none, p)
  | (name, value) :: rest =>
    match refusal? name value with
    | some e => (some e, p)
    | none => set { p with vars := p.vars.put name value } rest

/-- Removes the variables of this program and sets others. -/
def setVariables (p : Process) (vars : List (String × String)) : Option Fault × Process :=
  set { p with vars := p.vars.filter fun e => !isOwn e.1 } vars

/-- The environment, read when it is first asked for. What cannot be read is not kept. -/
def environment (p : Process) : Except Fault Environment × Process :=
  match p.kept with
  | some env => (.ok env, p)
  | none =>
    match Environment.read [] p.vars with
    | .ok env => (.ok env, { p with kept := some env })
    | .error e => (.error e, p)

def forget (p : Process) : Process := { p with kept := none }

end Process
end NamingDirectory
