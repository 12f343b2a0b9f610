import NamingDirectory.Environment
import NamingDirectory.Properties
import NamingDirectory.Realm

/-!
# Opening a root context

A configuration says which provider is wanted and where; the environment says what the configuration
leaves open. `Opening.plan` works out what is to be opened, and `Site.openContext` opens it: a named memory
root, which is shared, or the root of a directory.
-/

namespace NamingDirectory.Opening

/-- What is to be opened. -/
inductive Plan where
  /-- The memory root with a key. -/
  | memory (key : String)
  | directory (d : Ldap.Directory)

variable (keys : Nat → List String)

/-- The overrides of a directory that properties and environment ask for. -/
def overrides (props : Properties) (env : Environment) : List (String × Value) :=
  let given (key : String) (fallback : String) : Value :=
    ((Properties.value props key).orElse (.text fallback)).orElse .null
  let truth (key : String) : Value :=
    match Properties.truth? keys (Properties.value props key) with
    | some b => .bool b
    | none => .null
  [("bind_principal", given Properties.principal env.bindUser),
   ("bind_password", given Properties.credentials env.bindPassword),
   ("starttls", truth Properties.startTls),
   ("tls_validate",
     .bool ((Properties.truth? keys (Properties.value props Properties.validateTls)).getD
       env.validateTls)),
   ("connect_timeout_s", .float env.connectTimeout),
   ("name_syntax", Properties.value props Properties.nameStyle)]

def kind (props : Properties) (env : Environment) : String :=
  let wanted := Properties.value props Properties.contextFactory
  Text.lower (Text.trimmed ((wanted.orElse (.text env.contextFactory)).shown keys))

def url (props : Properties) (env : Environment) : Value :=
  .text (((Properties.value props Properties.providerUrl).orElse (.text env.providerUrl)).shown keys)

/-- What properties and environment ask for. -/
def plan (props : Properties) (env : Environment) : Except Fault Plan := do
  let kind := kind keys props env
  if kind == "memory" then return .memory (← Memory.rootKey (url keys props env))
  else if kind == "ldap" then
    let settings ← Ldap.Settings.ofUrl (url keys props env) (overrides keys props env)
    return .directory (← Ldap.Directory.ofSettings settings)
  else throw (.defect .badValue ("Unknown context factory: " ++ Text.quoted kind))

end Opening

/-- The state in which root contexts are opened: the realm, the named memory roots, and the process with
its environment. -/
structure Site where
  realm : Realm
  roots : Memory.Roots
  process : Process

namespace Site

def empty : Site := ⟨.empty, [], .empty⟩

/-- Opens the memory root with a key. -/
def openRoot (key : String) (s : Site) : Value × Site :=
  let (id, roots, heap) := s.roots.open s.realm.heap key
  (.context id, { s with roots, realm := { s.realm with heap } })

/-- Opens the memory root that a URL names. -/
def openMemory (url : Value) (s : Site) : Answer × Site :=
  match Memory.rootKey url with
  | .ok key =>
    let (v, s) := s.openRoot key
    (.ok v, s)
  | .error e => (.error e, s)

/-- Forgets the memory roots. Contexts that are in use live on. -/
def forgetRoots (s : Site) : Site := { s with roots := [] }

/-- Opens the root of a directory with given settings. -/
def openDirectory (settings : Ldap.Settings) (s : Site) : Answer × Site :=
  match Ldap.Directory.ofSettings settings with
  | .ok d =>
    let (v, realm) := s.realm.addDirectory d
    (.ok v, { s with realm })
  | .error e => (.error e, s)

def carryOut (plan : Opening.Plan) (s : Site) : Value × Site :=
  match plan with
  | .memory key => s.openRoot key
  | .directory d =>
    let (v, realm) := s.realm.addDirectory d
    (v, { s with realm })

def environment (s : Site) : Except Fault Environment × Site :=
  let (env, process) := s.process.environment
  (env, { s with process })

def hear (logger : String) (event : Event) (s : Site) : Site :=
  { s with realm := s.realm.hear logger event }

/-- Opens the root context that a configuration describes. If no environment is given, that of the
process is used. -/
def openContext (config : Value) (env? : Option Environment) (logger : String) (s : Site) :
    Answer × Site :=
  match Properties.ofConfiguration config with
  | .error e => (.error e, s)
  | .ok props =>
    let s := s.hear logger (.configured (props.map fun p => (.text p.1, p.2)))
    let (env, s) : Except Fault Environment × Site := match env? with
      | some env => (.ok env, s)
      | none => s.environment
    match env.bind (Opening.plan s.realm.heap.keys props) with
    | .ok plan =>
      let (v, s) := s.carryOut plan
      (.ok v, s)
    | .error e =>
      (.error (Client.failed .unavailable .null .null e), s.hear logger (.openingFailed (some e)))

/-! ### Laws -/

/-- The environment that an opening uses, or the fault that it cannot be read. -/
def environmentFor (env? : Option Environment) (s : Site) : Except Fault Environment :=
  env?.elim s.process.environment.1 .ok

/-- The site when an opening has reported its properties and has its environment. -/
def prepared (props : Properties) (env? : Option Environment) (logger : String) (s : Site) : Site :=
  { s.hear logger (.configured (props.map fun p => (.text p.1, p.2))) with
    process := env?.elim s.process.environment.2 fun _ => s.process }

/-- What an opening comes to once its properties are known: a plan is carried out, and without one the fault
is reported. -/
theorem openContext_of_properties {config : Value} {props : Properties}
    (hprops : Properties.ofConfiguration config = .ok props) (env? : Option Environment) (logger : String)
    (s : Site) :
    s.openContext config env? logger =
      match (s.environmentFor env?).bind (Opening.plan s.realm.heap.keys props) with
      | .ok plan =>
        (.ok ((s.prepared props env? logger).carryOut plan).1,
          ((s.prepared props env? logger).carryOut plan).2)
      | .error e =>
        (.error (Client.failed .unavailable .null .null e),
          (s.prepared props env? logger).hear logger (.openingFailed (some e))) := by
  rw [openContext, hprops]
  cases env? with
  | none =>
    simp only [environmentFor, prepared, environment, hear, Realm.heap_hear, Option.elim_none]
  | some env =>
    simp only [environmentFor, prepared, hear, Realm.heap_hear, Option.elim_some]

end Site
end NamingDirectory
