import NamingDirectory.Proofs.Ldap.Secrecy
import NamingDirectory.Proofs.Opening.Precedence

/-!
# Credentials do not reach the log

Two configurations that differ in secrets alone: in values under keys of the directory that speak of
credentials or of a password. Opening a root context comes to the same with both and reports the same, and so
does whatever the client then does with the context (`credentials_unseen`).

A secret gets no farther than the password of a directory, as the report of the properties masks it
(`record_configured`), and no other part of the plan looks at it (`plan_veiled`). What a password can do is in
`Realm.Resembles`.

The secret is followed through the stages that a configuration goes through, with a relation for what there is
at each of them, and every relation says where the secret may still be:

    entries           values under secret keys          SameButSecret
    properties        values of secret properties       SameProperty
    overrides         the value of the password         SameOverride
    settings          the password                      SameSettings
    plan              the password of the directory     SamePlan
    site              passwords, and the wire           Site.Resembles

A lemma for each function of a stage takes one relation to the next. The stages may fail, and then fail alike
(`Agree`), as no fault of them quotes a secret.
-/

namespace NamingDirectory

namespace Opening

/-! ### Configurations and properties

Whether a key is secret is decided by its text. The stem that entries of the directory have before their keys
speaks of no secret, so a key is as secret after it is taken away as before. -/

/-- Whether two entries of a configuration are the same, but for the value of a secret of the directory. -/
def SameButSecret (e e' : Value × Value) : Prop :=
  e'.1 = e.1 ∧ (e'.2 = e.2 ∨
    ∃ key, e.1 = .text key ∧ Properties.stem.toList.isPrefixOf key.toList ∧ Event.isSecret key)

/-- Whether two properties are the same, but for the value of a secret. -/
def SameProperty (p p' : String × Value) : Prop := p'.1 = p.1 ∧ (p'.2 = p.2 ∨ Event.isSecret p.1)

/-- The stem adds no place where one of the two words could be found. -/
theorem occurs_credentials_stem (rest : List Char) :
    Event.occurs "credentials".toList (Properties.stem.toList ++ rest) =
      Event.occurs "credentials".toList rest := by
  rfl

theorem occurs_password_stem (rest : List Char) :
    Event.occurs "password".toList (Properties.stem.toList ++ rest) = Event.occurs "password".toList rest := by
  rfl

/-- A key is as secret without the stem as with it. -/
theorem isSecret_drop {key : String} (hstem : Properties.stem.toList.isPrefixOf key.toList) :
    Event.isSecret (String.ofList (key.toList.drop Properties.stem.length)) = Event.isSecret key := by
  obtain ⟨rest, hrest⟩ := List.isPrefixOf_iff_prefix.mp hstem
  have hdrop : key.toList.drop Properties.stem.length = rest := by
    rw [← hrest]
    exact List.drop_left
  rw [hdrop]
  simp only [Event.isSecret, String.toList_ofList, ← hrest, occurs_credentials_stem, occurs_password_stem]

theorem sameProperty_refl (p : String × Value) : SameProperty p p := ⟨rfl, .inl rfl⟩

/-- An entry becomes a property under a key that is as secret as its own, or none at all. -/
theorem rename_veiled {e e' : Value × Value} (h : SameButSecret e e') :
    Option.Rel SameProperty (Properties.rename e) (Properties.rename e') := by
  obtain ⟨k, v⟩ := e
  obtain ⟨k', v'⟩ := e'
  obtain ⟨rfl, rfl | ⟨key, rfl, hstem, hsecret⟩⟩ := h
  · cases Properties.rename (k', v') with
    | none => exact .none
    | some p => exact .some (sameProperty_refl p)
  · -- The two keys that are renamed are no secrets.
    have hclass : ¬key = Properties.classKey := by
      rintro rfl
      exact absurd hsecret (by decide)
    have hurl : ¬key = Properties.urlKey := by
      rintro rfl
      exact absurd hsecret (by decide)
    simp only [Properties.rename, beq_iff_eq, hclass, hurl, hstem, if_true, if_false]
    exact .some ⟨rfl, .inr ((isSecret_drop hstem).trans hsecret)⟩

/-! ### Maps of properties

The two maps have the same keys, at which values may differ if the key is secret. -/

section Maps

variable {props props' : Properties}

/-- Writing the same key into both keeps the maps related. -/
theorem put_veiled (h : List.Forall₂ SameProperty props props') {key : String} {v v' : Value}
    (hv : v' = v ∨ Event.isSecret key) :
    List.Forall₂ SameProperty (props.put key v) (props'.put key v') := by
  induction h with
  | nil => exact .cons ⟨rfl, hv⟩ .nil
  | @cons p p' _ _ hp htail ih =>
    obtain ⟨k, w⟩ := p
    obtain ⟨k', w'⟩ := p'
    obtain ⟨rfl, hw⟩ := hp
    rw [OrderedMap.put, OrderedMap.put]
    split
    · next hkey =>
      rw [beq_iff_eq] at hkey
      subst hkey
      exact .cons ⟨rfl, hv⟩ htail
    · exact .cons ⟨rfl, hw⟩ ih

/-- Entries that are related make maps that are. -/
theorem ofEntries_veiled {entries entries' : List (Value × Value)}
    (h : List.Forall₂ SameButSecret entries entries') :
    List.Forall₂ SameProperty (Properties.ofEntries entries) (Properties.ofEntries entries') := by
  have hrenamed : List.Forall₂ SameProperty (entries.filterMap Properties.rename)
      (entries'.filterMap Properties.rename) :=
    List.rel_filterMap @rename_veiled h
  apply List.rel_foldl _ .nil hrenamed
  rintro props props' hprops ⟨key, v⟩ ⟨_, v'⟩ ⟨rfl, hv⟩
  exact put_veiled hprops hv

/-- A property that is no secret is the same in both. -/
theorem value_veiled (h : List.Forall₂ SameProperty props props') {key : String}
    (hkey : Event.isSecret key = false) : Properties.value props' key = Properties.value props key := by
  have hget : OrderedMap.get? props' key = OrderedMap.get? props key := by
    induction h with
    | nil => rfl
    | @cons p p' _ _ hp _ ih =>
      obtain ⟨k, w⟩ := p
      obtain ⟨k', w'⟩ := p'
      obtain ⟨rfl, hw⟩ := hp
      rw [OrderedMap.get?, OrderedMap.get?, ih]
      split
      · next heq =>
        rw [beq_iff_eq] at heq
        subst heq
        -- Values differ under secret keys only, and this key is none.
        rcases hw with rfl | hw
        · rfl
        · rw [hkey] at hw
          cases hw
      · rfl
  rw [Properties.value, Properties.value, hget]

/-- The report shows each entry as it is concealed. -/
theorem message_configured (keys : Nat → List String) (entries : List (Value × Value)) :
    (Event.configured entries).message keys =
      "Directory context properties: " ++ (Value.dict (entries.map Event.concealed)).shown keys := by
  unfold Event.message
  with_reducible rfl

/-- The report of the properties masks what is secret. -/
theorem record_configured (h : List.Forall₂ SameProperty props props') (keys : Nat → List String)
    (logger : String) :
    (Event.configured (props'.map fun p => (.text p.1, p.2))).record keys logger =
      (Event.configured (props.map fun p => (.text p.1, p.2))).record keys logger := by
  have hconcealed : (props'.map fun p => (Value.text p.1, p.2)).map Event.concealed =
      (props.map fun p => (Value.text p.1, p.2)).map Event.concealed := by
    induction h with
    | nil => rfl
    | @cons p p' _ _ hp _ ih =>
      obtain ⟨k, w⟩ := p
      obtain ⟨k', w'⟩ := p'
      obtain ⟨rfl, hw⟩ := hp
      simp only [List.map_cons, ih]
      rcases hw with rfl | hw
      · rfl
      · simp only [Event.concealed, Event.marksSecret, hw]
  have hmessage : (Event.configured (props'.map fun p => (.text p.1, p.2))).message keys =
      (Event.configured (props.map fun p => (.text p.1, p.2))).message keys := by
    rw [message_configured, message_configured, hconcealed]
  unfold Event.record
  rw [hmessage]
  rfl

end Maps

/-! ### Results

The same fault, or related results. Two results of which only one is a fault are not related. -/

section Results

variable {α β : Type}

/-- Whether two results are the same fault, or are related. -/
inductive Agree (related : α → α → Prop) : Except Fault α → Except Fault α → Prop
  | ok {a a' : α} (h : related a a') : Agree related (.ok a) (.ok a')
  | error (e : Fault) : Agree related (.error e) (.error e)

theorem Agree.refl {related : α → α → Prop} (hrefl : ∀ a, related a a) (x : Except Fault α) :
    Agree related x x := by
  cases x with
  | ok a => exact .ok (hrefl a)
  | error e => exact .error e

theorem Agree.bind {related : α → α → Prop} {related' : β → β → Prop} {x x' : Except Fault α}
    {f f' : α → Except Fault β} (h : Agree related x x')
    (hnext : ∀ a a', related a a' → Agree related' (f a) (f' a')) : Agree related' (x >>= f) (x' >>= f') := by
  cases h with
  | ok h => exact hnext _ _ h
  | error e => exact .error e

end Results

/-! ### Overrides of settings

The settings are made of a URL and of overrides, among which the password is one. Overrides that are nothing
are left out first, so a password may be an override on one side and none on the other. -/

section Overrides

variable {s s' : Ldap.Settings} {os os' : List (String × Value)}

/-- Whether two settings are the same but for the password. -/
def SameSettings (s s' : Ldap.Settings) : Prop := ∃ p, s' = s.withPassword p

theorem SameSettings.refl (s : Ldap.Settings) : SameSettings s s := ⟨s.password, rfl⟩

/-- Whether two overrides are the same, but for the value of the password. -/
def SameOverride (o o' : String × Value) : Prop := o'.1 = o.1 ∧ (o'.2 = o.2 ∨ o.1 = "bind_password")

/-- The overrides that are something. -/
def real (os : List (String × Value)) : List (String × Value) :=
  os.filter fun o => match o.2 with | .null => false | _ => true

theorem real_null (keyword : String) (os : List (String × Value)) : real ((keyword, .null) :: os) = real os :=
  rfl

theorem real_cons {v : Value} (hv : v ≠ .null) (keyword : String) (os : List (String × Value)) :
    real ((keyword, v) :: os) = (keyword, v) :: real os := by
  cases v with
  | null => exact absurd rfl hv
  | _ => rfl

theorem ofUrl_eq (url : Value) (os : List (String × Value)) :
    Ldap.Settings.ofUrl url os =
      match os.find? fun o => o.1 == "cls" || o.1 == "url" with
      | some o => .error (Ldap.Settings.givenTwice "LdapConfig.from_url()" o.1)
      | none => Ldap.Settings.ofUrlAlone url >>= fun s => s.setAll (real os) := by
  rw [Ldap.Settings.ofUrl]
  cases os.find? fun o => o.1 == "cls" || o.1 == "url" <;> rfl

theorem assign_cons (s : Ldap.Settings) (o : String × Value) (os : List (String × Value)) :
    s.assign (o :: os) =
      match s.set? o.1 o.2 with
      | some s => s.assign os
      | none => .error (Ldap.Settings.unknownKeyword o.1) := by
  rw [Ldap.Settings.assign, List.foldlM_cons]
  cases s.set? o.1 o.2 <;> rfl

/-- A keyword is known or not, whatever the password. -/
theorem set?_veiled (h : SameSettings s s') (keyword : String) (v : Value) :
    Option.Rel SameSettings (s.set? keyword v) (s'.set? keyword v) := by
  obtain ⟨p, rfl⟩ := h
  unfold Ldap.Settings.set?
  split
  case h_6 => exact .some ⟨v, rfl⟩
  case h_17 => exact .none
  all_goals exact .some ⟨p, rfl⟩

/-- A password that is given, or left out, is all that sets the settings apart. -/
theorem assign_password (s : Ldap.Settings) (v : Value) (os : List (String × Value)) :
    ∃ p, s.assign (real (("bind_password", v) :: os)) = (s.withPassword p).assign (real os) := by
  cases v with
  | null => exact ⟨s.password, rfl⟩
  | _ => exact ⟨_, rfl⟩

/-- All overrides are taken over, or the same one is refused. -/
theorem assign_veiled (h : SameSettings s s') (hos : List.Forall₂ SameOverride os os') :
    Agree SameSettings (s.assign (real os)) (s'.assign (real os')) := by
  induction hos generalizing s s' with
  | nil => exact .ok h
  | @cons o o' os os' ho _ ih =>
    obtain ⟨k, v⟩ := o
    obtain ⟨k', v'⟩ := o'
    obtain ⟨rfl, rfl | rfl⟩ := ho
    · by_cases hv : v' = .null
      · subst hv
        exact ih h
      · rw [real_cons hv, real_cons hv, assign_cons, assign_cons]
        have hset := set?_veiled h k' v'
        generalize s.set? k' v' = next, s'.set? k' v' = next' at hset
        cases hset with
        | none => exact .error _
        | some hset => exact ih hset
    · -- The one override that may differ changes nothing but the password, or is left out on one side.
      obtain ⟨p, hp⟩ := assign_password s v os
      obtain ⟨p', hp'⟩ := assign_password s' v' os'
      obtain ⟨q, rfl⟩ := h
      rw [hp, hp']
      exact ih ⟨p', rfl⟩

/-- No override but that of the password tells the two apart. -/
theorem lookup_veiled (hos : List.Forall₂ SameOverride os os') {key : String} (hkey : key ≠ "bind_password") :
    (real os').lookup key = (real os).lookup key := by
  have hother : ∀ (v : Value) (os : List (String × Value)),
      (real (("bind_password", v) :: os)).lookup key = (real os).lookup key := by
    intro v os
    by_cases hv : v = .null
    · rw [hv, real_null]
    · rw [real_cons hv, List.lookup_cons, beq_false_of_ne hkey]
  induction hos with
  | nil => rfl
  | @cons o o' os os' ho _ ih =>
    obtain ⟨k, v⟩ := o
    obtain ⟨k', v'⟩ := o'
    obtain ⟨rfl, rfl | rfl⟩ := ho
    · by_cases hv : v' = .null
      · subst hv
        exact ih
      · rw [real_cons hv, real_cons hv, List.lookup_cons, List.lookup_cons, ih]
    · rw [hother, hother, ih]

theorem restyle_veiled (h : SameSettings s s') (hos : List.Forall₂ SameOverride os os') :
    Agree SameSettings (s.restyle (real os)) (s'.restyle (real os')) := by
  obtain ⟨p, rfl⟩ := h
  rw [Ldap.Settings.restyle, Ldap.Settings.restyle, lookup_veiled hos (by decide)]
  split
  · next v _ =>
    cases Ldap.NameStyle.ofValue v with
    | ok style => exact .ok ⟨p, rfl⟩
    | error e => exact .error e
  · exact .ok ⟨p, rfl⟩

theorem ofUrl_veiled (hos : List.Forall₂ SameOverride os os') (url : Value) :
    Agree SameSettings (Ldap.Settings.ofUrl url os) (Ldap.Settings.ofUrl url os') := by
  have hfind : Option.Rel SameOverride (os.find? fun o => o.1 == "cls" || o.1 == "url")
      (os'.find? fun o => o.1 == "cls" || o.1 == "url") := by
    induction hos with
    | nil => exact .none
    | @cons o o' _ _ ho _ ih =>
      rw [List.find?_cons, List.find?_cons, ho.1]
      split
      · exact .some ho
      · exact ih
  rw [ofUrl_eq, ofUrl_eq]
  generalize os.find? (fun o => o.1 == "cls" || o.1 == "url") = found,
    os'.find? (fun o => o.1 == "cls" || o.1 == "url") = found' at hfind
  cases hfind with
  | none =>
    apply Agree.bind (.refl SameSettings.refl _)
    intro s s' hs
    exact Agree.bind (assign_veiled hs hos) fun _ _ hassigned => restyle_veiled hassigned hos
  | some ho =>
    simp only [ho.1]
    exact .error _

end Overrides

/-! ### Plans

What is to be opened, from properties and environment. -/

section Plans

variable {props props' : Properties}

/-- Whether two plans are the same but for the password of a directory. -/
inductive SamePlan : Plan → Plan → Prop
  | memory (key : String) : SamePlan (.memory key) (.memory key)
  | directory (d : Ldap.Directory) (p : Value) : SamePlan (.directory d) (.directory (d.withPassword p))

/-- No secret property is among those that become another override than the password. -/
theorem overrides_veiled (h : List.Forall₂ SameProperty props props') (keys : Nat → List String)
    (env : Environment) : List.Forall₂ SameOverride (overrides keys props env) (overrides keys props' env) := by
  have hprincipal := value_veiled h (by decide : Event.isSecret Properties.principal = false)
  have hstartTls := value_veiled h (by decide : Event.isSecret Properties.startTls = false)
  have hvalidate := value_veiled h (by decide : Event.isSecret Properties.validateTls = false)
  have hstyle := value_veiled h (by decide : Event.isSecret Properties.nameStyle = false)
  simp only [overrides, hprincipal, hstartTls, hvalidate, hstyle]
  refine .cons ⟨rfl, .inl rfl⟩ (.cons ⟨rfl, .inr rfl⟩ ?_)
  rw [List.forall₂_same]
  exact fun _ _ => ⟨rfl, .inl rfl⟩

/-- A directory is made of settings without a look at the password. -/
theorem ofSettings_veiled (s : Ldap.Settings) (p : Value) :
    Agree (fun d d' => ∃ p, d' = Ldap.Directory.withPassword d p) (Ldap.Directory.ofSettings s)
      (Ldap.Directory.ofSettings (s.withPassword p)) := by
  apply Agree.bind (.refl (fun _ => rfl) (Ldap.seconds s.timeout))
  rintro timeout _ rfl
  apply Agree.bind (.refl (fun _ => rfl) (Ldap.Endpoint.ofParts s.host s.port s.useSsl))
  rintro endpoint _ rfl
  exact .ok ⟨p, rfl⟩

/-- What is to be opened is the same but for a password. -/
theorem plan_veiled (h : List.Forall₂ SameProperty props props') (keys : Nat → List String)
    (env : Environment) : Agree SamePlan (plan keys props env) (plan keys props' env) := by
  have hkind : kind keys props' env = kind keys props env := by
    rw [kind, kind, value_veiled h (by decide)]
  have hurl : url keys props' env = url keys props env := by
    rw [url, url, value_veiled h (by decide)]
  rw [plan, plan, hkind, hurl]
  split
  · apply Agree.bind (.refl (fun _ => rfl) _)
    rintro key _ rfl
    exact .ok (.memory key)
  · split
    · apply Agree.bind (ofUrl_veiled (overrides_veiled h keys env) _)
      rintro s _ ⟨p, rfl⟩
      apply Agree.bind (ofSettings_veiled s p)
      rintro d _ ⟨p, rfl⟩
      exact .ok (.directory d p)
    · exact .error _

end Plans

end Opening

open Opening (SameButSecret SamePlan)

/-! ### Sites

The relation of realms, with the roots and the process beside them, which are equal. -/

/-- Whether two sites are the same but for what sets two realms apart. -/
structure Site.Resembles (s s' : Site) : Prop where
  realm : s.realm.Resembles s'.realm
  roots : s'.roots = s.roots
  process : s'.process = s.process

namespace Site

variable {s s' : Site}

theorem Resembles.refl (s : Site) : s.Resembles s := ⟨.refl s.realm, rfl, rfl⟩

theorem Resembles.hear (h : s.Resembles s') (logger : String) (event : Event) :
    (s.hear logger event).Resembles (s'.hear logger event) :=
  ⟨h.realm.hear logger event, h.roots, h.process⟩

theorem Resembles.openRoot (h : s.Resembles s') (key : String) :
    (s'.openRoot key).1 = (s.openRoot key).1 ∧ (s.openRoot key).2.Resembles (s'.openRoot key).2 := by
  simp only [Site.openRoot, h.roots, h.realm.heap, true_and]
  exact ⟨⟨rfl, h.realm.directories, h.realm.serial, h.realm.server, h.realm.script, h.realm.log⟩, rfl, h.process⟩

/-- A plan is carried out the same: what it adds to the realm differs in a password at most. -/
theorem Resembles.carryOut (h : s.Resembles s') {plan plan' : Opening.Plan} (hplan : SamePlan plan plan') :
    (s'.carryOut plan').1 = (s.carryOut plan).1 ∧
      (s.carryOut plan).2.Resembles (s'.carryOut plan').2 := by
  cases hplan with
  | memory key => exact h.openRoot key
  | directory d p =>
    obtain ⟨hroot, hrealm⟩ := h.realm.addDirectory d p
    exact ⟨hroot, hrealm, h.roots, h.process⟩

/-- The properties are reported the same. -/
theorem Resembles.prepared (h : s.Resembles s') {props props' : Properties}
    (hprops : List.Forall₂ Opening.SameProperty props props') (env? : Option Environment) (logger : String) :
    (s.prepared props env? logger).Resembles (s'.prepared props' env? logger) := by
  refine ⟨?_, h.roots, ?_⟩
  · have hrecord := Opening.record_configured hprops s.realm.heap.keys logger
    simp only [Site.prepared, Site.hear, Realm.hear, h.realm.heap, hrecord]
    exact h.realm.record _
  · rw [Site.prepared, Site.prepared, h.process]

/-- Opening a root context comes to the same in both sites: the answer, and what is reported on the way. -/
theorem Resembles.openContext (h : s.Resembles s') {entries entries' : List (Value × Value)}
    (hentries : List.Forall₂ SameButSecret entries entries') (env? : Option Environment) (logger : String) :
    (s'.openContext (.dict entries') env? logger).1 = (s.openContext (.dict entries) env? logger).1 ∧
      (s.openContext (.dict entries) env? logger).2.Resembles
        (s'.openContext (.dict entries') env? logger).2 := by
  have hprops := Opening.ofEntries_veiled hentries
  have hprepared := h.prepared hprops env? logger
  have henv : s'.environmentFor env? = s.environmentFor env? := by
    rw [environmentFor, environmentFor, h.process]
  have hplan : Opening.Agree SamePlan
      ((s.environmentFor env?).bind (Opening.plan s.realm.heap.keys (Properties.ofEntries entries)))
      ((s'.environmentFor env?).bind (Opening.plan s'.realm.heap.keys (Properties.ofEntries entries'))) := by
    rw [henv, h.realm.heap]
    apply Opening.Agree.bind (.refl (fun _ => rfl) _)
    rintro env _ rfl
    exact Opening.plan_veiled hprops _ env
  rw [openContext_of_properties rfl, openContext_of_properties rfl]
  generalize (s.environmentFor env?).bind _ = plan, (s'.environmentFor env?).bind _ = plan' at hplan
  cases hplan with
  | ok hplan =>
    obtain ⟨hroot, hsite⟩ := hprepared.carryOut hplan
    exact ⟨congrArg Except.ok hroot, hsite⟩
  | error e =>
    dsimp only
    exact ⟨rfl, hprepared.hear logger _⟩

end Site

/-! ### What the client does with the context

Any calls, on any nodes, in any order. They are not chosen in the light of the answers, but as these are the
same on both sides, they might as well be. -/

/-- A call of the client on a node. -/
inductive Client.Call where
  | bind (name value node : Value)
  | lookup (name node : Value)

namespace Client.Call

def perform (r : Realm) : Call → Answer × Realm
  | .bind name value node => ((r.bind name value node).1.map fun _ => .null, (r.bind name value node).2)
  | .lookup name node => r.lookup name node

/-- The answers to calls, one after another, and the realm after them. -/
def inTurn (r : Realm) : List Call → List Answer × Realm
  | [] => ([], r)
  | call :: calls =>
    let (answers, after) := inTurn (call.perform r).2 calls
    ((call.perform r).1 :: answers, after)

variable {r r' : Realm}

theorem perform_resembles (h : r.Resembles r') (call : Call) :
    Realm.SameOutcome (call.perform r) (call.perform r') := by
  cases call with
  | bind name value node =>
    obtain ⟨hresult, hafter⟩ := Realm.run_resembles h (Client.bind name value node)
    exact ⟨congrArg (fun result => result.map fun _ => Value.null) hresult, hafter⟩
  | lookup name node => exact Realm.run_resembles h (Client.lookup name node)

theorem inTurn_resembles (h : r.Resembles r') (calls : List Call) :
    Realm.SameOutcome (inTurn r calls) (inTurn r' calls) := by
  induction calls generalizing r r' with
  | nil => exact ⟨rfl, h⟩
  | cons call calls ih =>
    obtain ⟨hanswer, hafter⟩ := perform_resembles h call
    obtain ⟨hanswers, hlast⟩ := ih hafter
    exact ⟨congrArg₂ List.cons hanswer hanswers, hlast⟩

end Client.Call

namespace Opening

/-- Two configurations that differ in secrets alone come to the same root context, or to the same failure, and
report the same; and whatever calls of the client follow are answered the same, and report the same. -/
theorem credentials_unseen (entries entries' : List (Value × Value))
    (h : List.Forall₂ SameButSecret entries entries') (env? : Option Environment) (logger : String) (s : Site) :
    let opened := s.openContext (.dict entries) env? logger
    let opened' := s.openContext (.dict entries') env? logger
    opened'.1 = opened.1 ∧ opened'.2.realm.log = opened.2.realm.log ∧
      ∀ calls : List Client.Call,
        (Client.Call.inTurn opened'.2.realm calls).1 = (Client.Call.inTurn opened.2.realm calls).1 ∧
          (Client.Call.inTurn opened'.2.realm calls).2.log = (Client.Call.inTurn opened.2.realm calls).2.log := by
  obtain ⟨hanswer, hsite⟩ := (Site.Resembles.refl s).openContext h env? logger
  refine ⟨hanswer, hsite.realm.log, ?_⟩
  intro calls
  obtain ⟨hanswers, hafter⟩ := Client.Call.inTurn_resembles hsite.realm calls
  exact ⟨hanswers, hafter.log⟩

/-- A configuration of a directory with given credentials. -/
def withCredentials (credentials : Value) : List (Value × Value) := [
  (.text "dirbind.directory.class", .text "ldap"),
  (.text "dirbind.directory.url", .text "ldap://dc01/DC=e"),
  (.text "dirbind.directory.security.credentials", credentials)]

/-- The directories get different passwords, and nothing else tells the two apart. -/
theorem credentials_unseen_withCredentials :
    let opened := fun credentials =>
      Site.empty.openContext (.dict (withCredentials credentials)) (some (environmentOf "me")) Event.logger
    (opened (.text "a")).2.realm.directories.map (·.settings.password) = [.text "a"] ∧
    (opened (.text "b")).2.realm.directories.map (·.settings.password) = [.text "b"] ∧
    (opened (.text "b")).1 = (opened (.text "a")).1 ∧
    (opened (.text "b")).2.realm.log = (opened (.text "a")).2.realm.log ∧
    ∀ calls : List Client.Call,
      (Client.Call.inTurn (opened (.text "b")).2.realm calls).1 =
          (Client.Call.inTurn (opened (.text "a")).2.realm calls).1 ∧
        (Client.Call.inTurn (opened (.text "b")).2.realm calls).2.log =
          (Client.Call.inTurn (opened (.text "a")).2.realm calls).2.log := by
  have hsame : List.Forall₂ SameButSecret (withCredentials (.text "a")) (withCredentials (.text "b")) := by
    refine .cons ⟨rfl, .inl rfl⟩ (.cons ⟨rfl, .inl rfl⟩ (.cons ⟨rfl, .inr ⟨_, rfl, ?_, ?_⟩⟩ .nil))
    · decide
    · decide
  refine ⟨rfl, rfl, ?_⟩
  exact credentials_unseen _ _ hsame (some (environmentOf "me")) Event.logger Site.empty

end Opening
end NamingDirectory
