import NamingDirectory.Proofs.OrderedMap
import NamingDirectory.Realm.Opening

/-!
# Configuration before environment

Five settings can be given by a configuration and by the environment. A configuration that gives one is not
touched by what the environment has for it, and one that does not is read as if it held what the environment
has (`given_wins`).

What gives a setting is not what one might think: an entry that counts as not given, such as an empty text,
leaves its setting to the environment as if it were missing (`empty_principal_overruled`). Only the check of
certificates tells `false` from nothing.

The settings are one inductive type, with a property and an entry of the environment for each, so that the law
is stated and proved once. All that a plan takes from the two sources is what is in force (`plan_congr`):

    inForce props env f  =  the property, if it gives the setting, and else the environment.

Both halves of the law are then about `inForce` alone. With the setting given, another environment leaves it
as it is (`plan_graft`). With the setting not given, it stays what it is if the property is written to be that
(`plan_put_fallback`): the environment's entry gives the setting, or else is what comes of not giving it.
-/

namespace NamingDirectory.Opening

/-- The settings that a configuration and the environment can both give. -/
inductive Setting where
  | contextFactory
  | providerUrl
  | principal
  | credentials
  | validateTls

namespace Setting

/-- The property that gives a setting. -/
def key : Setting → String
  | .contextFactory => Properties.contextFactory
  | .providerUrl => Properties.providerUrl
  | .principal => Properties.principal
  | .credentials => Properties.credentials
  | .validateTls => Properties.validateTls

/-- What an environment has for a setting. -/
def fallback (env : Environment) : Setting → Value
  | .contextFactory => .text env.contextFactory
  | .providerUrl => .text env.providerUrl
  | .principal => .text env.bindUser
  | .credentials => .text env.bindPassword
  | .validateTls => .bool env.validateTls

/-- The environment that has for a setting what another one has for it. -/
def graft (other env : Environment) : Setting → Environment
  | .contextFactory => { env with contextFactory := other.contextFactory }
  | .providerUrl => { env with providerUrl := other.providerUrl }
  | .principal => { env with bindUser := other.bindUser }
  | .credentials => { env with bindPassword := other.bindPassword }
  | .validateTls => { env with validateTls := other.validateTls }

/-- Whether a property gives a setting. -/
def gives : Setting → Value → Bool
  | .validateTls, .null => false
  | .validateTls, _ => true
  | _, v => !v.isVoid

/-- What properties and environment together have for a setting. -/
def inForce (props : Properties) (env : Environment) (f : Setting) : Value :=
  if f.gives (Properties.value props f.key) then Properties.value props f.key else f.fallback env

end Setting

variable {keys : Nat → List String} {props : Properties} {f : Setting}

/-! ### What is in force decides

Each place where a plan looks at one of the settings, as a function of what is in force there. -/

theorem orElse_eq (v w : Value) : v.orElse w = if !v.isVoid then v else w := by
  cases h : v.isVoid <;> simp [Value.orElse, h]

theorem kind_eq (env : Environment) :
    kind keys props env =
      Text.lower (Text.trimmed ((Setting.inForce props env .contextFactory).shown keys)) := by
  rw [kind, orElse_eq]
  rfl

theorem url_eq (env : Environment) :
    url keys props env = .text ((Setting.inForce props env .providerUrl).shown keys) := by
  rw [url, orElse_eq]
  rfl

/-- Whether certificates are checked: what the property stands for, if there is one. -/
theorem validateTls_eq (env : Environment) :
    (Properties.truth? keys (Properties.value props Properties.validateTls)).getD env.validateTls =
      (Properties.truth? keys (Setting.inForce props env .validateTls)).getD false := by
  cases hv : Properties.value props Properties.validateTls <;>
    simp [Setting.inForce, Setting.key, hv, Setting.gives, Setting.fallback, Properties.truth?]

/-- What is to be opened is a matter of the settings in force, and of what only one of the two can give. -/
theorem plan_congr {props' : Properties} {env env' : Environment}
    (hforce : ∀ f, Setting.inForce props env f = Setting.inForce props' env' f)
    (htls : Properties.value props Properties.startTls = Properties.value props' Properties.startTls)
    (hstyle : Properties.value props Properties.nameStyle = Properties.value props' Properties.nameStyle)
    (htimeout : env.connectTimeout = env'.connectTimeout) :
    plan keys props env = plan keys props' env' := by
  have hkind : kind keys props env = kind keys props' env' := by
    rw [kind_eq, kind_eq, hforce]
  have hurl : url keys props env = url keys props' env' := by
    rw [url_eq, url_eq, hforce]
  have hprincipal : (Properties.value props Properties.principal).orElse (.text env.bindUser) =
      (Properties.value props' Properties.principal).orElse (.text env'.bindUser) := by
    rw [orElse_eq, orElse_eq]
    exact hforce .principal
  have hcredentials : (Properties.value props Properties.credentials).orElse (.text env.bindPassword) =
      (Properties.value props' Properties.credentials).orElse (.text env'.bindPassword) := by
    rw [orElse_eq, orElse_eq]
    exact hforce .credentials
  have hoverrides : overrides keys props env = overrides keys props' env' := by
    simp only [overrides, hprincipal, hcredentials, validateTls_eq, hforce, htls, hstyle, htimeout]
  rw [plan, plan, hkind, hurl, hoverrides]

/-- A property that is written is read back, and no other one is changed. -/
theorem value_put (props : Properties) (key : String) (v : Value) (key' : String) :
    Properties.value (props.put key v) key' = if key = key' then v else Properties.value props key' := by
  rw [Properties.value, Properties.value, OrderedMap.get?_put]
  by_cases h : key = key' <;> simp [h]

/-- With a setting given it does not matter what the environment has for it. -/
theorem plan_graft (hgiven : f.gives (Properties.value props f.key) = true) (other env : Environment) :
    plan keys props (f.graft other env) = plan keys props env := by
  have hforce : ∀ g, Setting.inForce props (f.graft other env) g = Setting.inForce props env g := by
    intro g
    by_cases hg : g = f
    · subst hg
      rw [Setting.inForce, Setting.inForce, if_pos hgiven, if_pos hgiven]
    · have hother : g.fallback (f.graft other env) = g.fallback env := by
        cases f <;> cases g <;> first | rfl | exact absurd rfl hg
      rw [Setting.inForce, Setting.inForce, hother]
  apply plan_congr hforce rfl rfl
  cases f <;> rfl

/-- With a setting not given, it is as if the properties held what the environment has for it. -/
theorem plan_put_fallback (hsilent : f.gives (Properties.value props f.key) = false)
    (env : Environment) :
    plan keys (props.put f.key (f.fallback env)) env = plan keys props env := by
  -- Whether the value of the environment counts as given or not, it is now what is in force.
  have hforce : ∀ g, Setting.inForce (props.put f.key (f.fallback env)) env g =
      Setting.inForce props env g := by
    intro g
    rw [Setting.inForce, Setting.inForce, value_put]
    by_cases hg : f = g
    · subst hg
      rw [if_pos rfl, hsilent]
      simp
    · have hkey : f.key ≠ g.key := by
        cases f <;> cases g <;> first | exact absurd rfl hg | decide
      rw [if_neg hkey]
  have hvalue : ∀ key, f.key ≠ key →
      Properties.value (props.put f.key (f.fallback env)) key = Properties.value props key := by
    intro key hkey
    rw [value_put, if_neg hkey]
  apply plan_congr hforce _ _ rfl
  · apply hvalue
    cases f <;> decide
  · apply hvalue
    cases f <;> decide

/-! ### Opening

The law for plans, carried over to the opening of a root context. -/

/-- What a configuration gives wins over the environment: a root context is opened, or not, all the same
whatever the environment has for it. What it does not give is what the environment has. -/
theorem given_wins (f : Setting) (config : Value) (env other : Environment) (logger : String) (s : Site)
    (props : Properties) (hprops : Properties.ofConfiguration config = .ok props) :
    (f.gives (Properties.value props f.key) = true →
      s.openContext config (some (f.graft other env)) logger = s.openContext config (some env) logger) ∧
    (f.gives (Properties.value props f.key) = false →
      ∀ keys, plan keys props env = plan keys (props.put f.key (f.fallback env)) env) := by
  constructor
  · intro hgiven
    simp only [Site.openContext, hprops, Except.bind, plan_graft hgiven]
  · intro hsilent keys
    exact (plan_put_fallback hsilent env).symm

/-- A configuration that asks for a directory and names an empty principal. -/
def anonymous : Value := .dict [
  (.text "dirbind.directory.class", .text "ldap"),
  (.text "dirbind.directory.url", .text "ldap://dc01/DC=e"),
  (.text "dirbind.directory.security.principal", .text "")]

/-- The defaults of an environment with a given principal. -/
def environmentOf (principal : String) : Environment where
  contextFactory := "memory"
  providerUrl := "memory://default"
  bindUser := principal
  bindPassword := ""
  validateTls := false
  connectTimeout := .ofDecimal false 5 0
  logLevel := "INFO"
  logDirectory := ""

/-- The kind and the URL of a configuration win over the environment. -/
theorem given_wins_anonymous :
    (Site.empty.openContext anonymous
        (some (Setting.contextFactory.graft (environmentOf "root") (environmentOf "me"))) Event.logger =
      Site.empty.openContext anonymous (some (environmentOf "me")) Event.logger) ∧
    ∀ keys, plan keys (Properties.ofEntries [(.text "dirbind.directory.class", .text "ldap")])
        (environmentOf "me") =
      plan keys ((Properties.ofEntries [(.text "dirbind.directory.class", .text "ldap")]).put
        Properties.principal (.text "me")) (environmentOf "me") :=
  ⟨(given_wins .contextFactory anonymous (environmentOf "me") (environmentOf "root") Event.logger
      Site.empty _ rfl).1 (by decide),
    (given_wins .principal (.dict [(.text "dirbind.directory.class", .text "ldap")]) (environmentOf "me")
      (environmentOf "root") Event.logger Site.empty _ rfl).2 (by decide)⟩

/-- An empty principal is there, and yet the directory gets the principal that the environment has. -/
theorem empty_principal_overruled :
    let opened := fun env =>
      (Site.empty.openContext anonymous (some env) Event.logger).2.realm.directories.map (·.settings.principal)
    (∃ props, Properties.ofConfiguration anonymous = .ok props ∧
      props.get? Setting.principal.key = some (.text "")) ∧
    opened (environmentOf "me") = [.text "me"] ∧
    opened (Setting.principal.graft (environmentOf "root") (environmentOf "me")) = [.text "root"] :=
  ⟨⟨_, rfl, rfl⟩, rfl, rfl⟩

end NamingDirectory.Opening
