import NamingDirectory.Proofs.Dn.Assertions
import NamingDirectory.Proofs.Ldap.Connection
import NamingDirectory.Proofs.Ldap.DistinguishedName
import NamingDirectory.Proofs.Ldap.Line
import NamingDirectory.Proofs.Ldap.NameStyles
import NamingDirectory.Proofs.Ldap.Operation
import NamingDirectory.Proofs.OrderedMap

/-!
# Refusals of operations

What goes wrong in an operation on an entry is to leave it as a refusal. `Ensures` says of an operation what
it may end in with any server that keeps to the directory protocol: a result of one kind or a fault of
another. A session turns faults of the protocol into refusals, so whatever is done in it may raise them
(`ensures_session`).

A creation reads the relative name of the new entry before its session. If that has no assignments to read,
the fault of the protocol is not turned into a refusal, and it is the only fault of any operation that is not
one (`perform_refuses_iff`).

`Meets` and `Ensures` have the same two rules, for one step after another and for a weaker claim on faults,
and each function of the model gets one lemma in the order in which they call each other. A kind of fault is a
parameter where a function raises none at all, so that its lemma can be used in any place. What the server
sends is supposed to be proper (`Reply.IsRegular`), and the settings to be of the kinds that they are meant to
be (`Settings.IsTyped`): a value of the wrong kind in either of them is a defect when it is used, and leaves
an operation as it is.

The two are said of results and of operations:

    Meets good bad result     a result that is good, or a fault that is bad
    Ensures op good bad       every course of op with a regular server ends in such a result
-/

namespace NamingDirectory

/-! ### Results of two kinds

The kinds are predicates, one on what is returned and one on faults. A step after another may rely on what the
first one is known to return, and a step for each member of a list is one step after another. -/

/-- Whether a result is of one kind, or a fault of another. -/
def Meets {α : Type} (good : α → Prop) (bad : Fault → Prop) : Except Fault α → Prop
  | .ok a => good a
  | .error e => bad e

section Meets

variable {α β : Type} {good : α → Prop} {good' : β → Prop} {bad bad' : Fault → Prop}
  {result : Except Fault α}

theorem Meets.mono (h : Meets good bad result) (hbad : ∀ e, bad e → bad' e) : Meets good bad' result := by
  cases result with
  | ok a => exact h
  | error e => exact hbad e h

theorem Meets.bind (h : Meets good bad result) {next : α → Except Fault β}
    (hnext : ∀ a, good a → Meets good' bad (next a)) : Meets good' bad (result >>= next) := by
  cases result with
  | ok a => exact hnext a h
  | error e => exact h

theorem Meets.mapM {f : α → Except Fault β} {l : List α} (h : ∀ a ∈ l, Meets good' bad (f a)) :
    Meets (fun bs => ∀ b ∈ bs, good' b) bad (l.mapM f) := by
  induction l with
  | nil => exact nofun
  | cons a l ih =>
    obtain ⟨ha, hl⟩ := List.forall_mem_cons.mp h
    rw [List.mapM_cons]
    exact ha.bind fun b hb => (ih hl).bind fun bs hbs => List.forall_mem_cons.mpr ⟨hb, hbs⟩

end Meets

namespace Ldap

open Dialogue

/-! ### Regular servers

A server within the protocol replies properly, or raises one of the protocol's faults. This is all that is
supposed of it; what a reply says may have nothing to do with what was asked. -/

/-- Lists, and the one that holds itself. -/
def IsList (v : Value) : Prop := v = .circular ∨ ∃ items, v = .list items

/-- The result of a reply is a dictionary or nothing, and the attributes of entries are lists. -/
structure Reply.IsProper (reply : Reply) : Prop where
  result : reply.result = .null ∨ ∃ entries, reply.result = .dict entries
  entries : ∀ attributes ∈ reply.entries, ∀ a ∈ attributes, IsList a.2

/-- A reply within the protocol: one of its faults is raised, or a proper reply comes back. -/
structure Reply.IsRegular (reply : Reply) : Prop where
  raised : ∀ e, reply.raised = some e → e.isProtocol
  returned : reply.raised = none → reply.IsProper

/-- Whether a server keeps to the protocol in a course. -/
def IsRegular (t : List Exchange) : Prop := ∀ request reply, .call request reply ∈ t → reply.IsRegular

/-- What may be raised in a session: a refusal, or a fault of the protocol. -/
def IsTame (e : Fault) : Prop := e.isRefusal ∨ e.isProtocol

/-- Whatever a regular server replies, an operation ends in a result of one kind or a fault of another. -/
def Ensures {α : Type} (op : Op α) (good : α → Prop) (bad : Fault → Prop) : Prop :=
  ∀ t result, Course op.run t result → IsRegular t → Meets good bad result

section Ensures

variable {α β : Type} {good : α → Prop} {good' : β → Prop} {bad bad' : Fault → Prop} {op : Op α}
  {next : α → Op β} {t t' : List Exchange} {e : Fault}

/-- A server keeps to the protocol in two parts of a course just if it does in both. -/
theorem isRegular_append_iff : IsRegular (t ++ t') ↔ IsRegular t ∧ IsRegular t' := by
  simp only [IsRegular, List.mem_append, or_imp, forall_and]

theorem ensures_lift {result : Except Fault α} (h : Meets good bad result) :
    Ensures (lift result) good bad := by
  intro t a hlift _
  obtain ⟨-, rfl⟩ := course_lift_iff.mp hlift
  exact h

theorem ensures_ok {a : α} (h : good a) : Ensures (lift (.ok a)) good bad := ensures_lift h

theorem ensures_error (h : bad e) : Ensures (lift (.error e) : Op α) good bad := ensures_lift h

/-- A call brings a proper reply or a fault of the protocol. -/
theorem ensures_call (request : Request) :
    Ensures (call request) Reply.IsProper fun e => e.isProtocol := by
  intro t a hcall ht
  obtain ⟨reply, rfl, hreply⟩ := course_call_iff.mp hcall
  have hregular := ht request reply List.mem_cons_self
  rcases hreply with ⟨e, hraised, rfl⟩ | ⟨hraised, rfl⟩
  · exact hregular.raised e hraised
  · exact hregular.returned hraised

theorem Ensures.mono (h : Ensures op good bad) (hbad : ∀ e, bad e → bad' e) : Ensures op good bad' :=
  fun t result hcourse ht => (h t result hcourse ht).mono hbad

theorem Ensures.inl (h : Ensures op good bad) : Ensures op good fun e => bad e ∨ bad' e :=
  h.mono fun _ => .inl

theorem Ensures.bind (h : Ensures op good bad) (hnext : ∀ a, good a → Ensures (next a) good' bad) :
    Ensures (op >>= next) good' bad := by
  intro t b hcourse ht
  rcases course_bind_iff.mp hcourse with ⟨e, hop, rfl⟩ | ⟨t₁, a, t₂, hop, hrest, rfl⟩
  · exact h t (.error e) hop ht
  · obtain ⟨ht₁, ht₂⟩ := isRegular_append_iff.mp ht
    exact hnext a (h t₁ (.ok a) hop ht₁) t₂ b hrest ht₂

/-! ### Sessions

A session lets refusals through and turns faults of the protocol into refusals, when it opens, inside, and
when it closes. -/

theorem isTame_contained (h : IsTame e) : e.contained = e := by
  unfold Fault.contained
  split
  · rcases h with h | h <;> cases h
  · rfl

theorem isRefusal_asRefusal (h : IsTame e) : (asRefusal e).isRefusal := by
  rw [asRefusal]
  split
  · rfl
  · next hprotocol => exact h.resolve_right hprotocol

/-- The end of a session leaves a result as it is, and makes a refusal of a tame fault. -/
theorem meets_mapError_asRefusal {result : Except Fault α} (h : Meets good IsTame result) :
    Meets good (fun e => e.isRefusal) (result.mapError asRefusal) := by
  cases result with
  | ok a => exact h
  | error e => exact isRefusal_asRefusal h

theorem ensures_call_tame (request : Request) : Ensures (call request) Reply.IsProper IsTame :=
  (ensures_call request).mono fun _ => .inr

theorem Ensures.contained (h : Ensures op good IsTame) :
    Ensures (ExceptT.adapt Fault.contained op) good IsTame := by
  intro t a hcourse ht
  obtain ⟨t₁, result, t₂, hop, hdone, rfl⟩ := Dialogue.course_bind_iff.mp hcourse
  obtain ⟨rfl, rfl⟩ := course_done_iff.mp hdone
  have hresult := h t₁ result hop (isRegular_append_iff.mp ht).1
  cases result with
  | ok a => exact hresult
  | error e =>
    show IsTame e.contained
    rwa [isTame_contained hresult]

theorem ensures_openConnection (d : Directory) :
    Ensures (openConnection d) (fun _ => True) IsTame := by
  refine (ensures_call_tame .open).bind fun _ _ => ?_
  split
  · exact (ensures_call_tame .startTls).bind fun _ _ => ensures_ok trivial
  · exact ensures_ok trivial

theorem Reply.IsProper.outcome {reply : Reply} (h : reply.IsProper) :
    ∃ outcome, reply.outcome = .ok outcome := by
  rcases h.result with hresult | ⟨entries, hresult⟩
  · rw [Reply.outcome, hresult]
    exact ⟨⟨[]⟩, rfl⟩
  · rw [Reply.outcome, hresult]
    exact ⟨⟨entries⟩, rfl⟩

/-- A proper reply tells how it came out. -/
theorem Reply.IsProper.meets_outcome {reply : Reply} (h : reply.IsProper) :
    Meets (fun _ => True) bad reply.outcome := by
  obtain ⟨outcome, houtcome⟩ := h.outcome
  rw [houtcome]
  trivial

theorem ensures_authenticate : Ensures authenticate (fun _ => True) IsTame := by
  refine (ensures_call_tame .bind).contained.bind fun reply hreply => ?_
  split
  · refine (ensures_lift hreply.meets_outcome).bind fun outcome _ => ?_
    exact ensures_error (.inl rfl)
  · exact ensures_ok trivial

/-- Closing a connection adds no fault of its own. -/
theorem ensures_close {result : Except Fault α} (h : Meets good bad result) :
    Ensures (close result) good bad := by
  intro t a hcourse ht
  obtain ⟨reply, t', rfl, hreply⟩ := course_ask_iff.mp hcourse
  cases hraised : reply.raised with
  | none =>
    simp only [hraised] at hreply
    obtain ⟨-, rfl⟩ := course_done_iff.mp hreply
    exact h
  | some e =>
    have hprotocol := (ht .unbind reply List.mem_cons_self).raised e hraised
    simp only [hraised, hprotocol, if_true] at hreply
    obtain ⟨_, -, hdone⟩ := course_note_iff.mp hreply
    obtain ⟨-, rfl⟩ := course_done_iff.mp hdone
    exact h

/-- Only refusals leave a session if what is done in it raises no more than those and faults of the
protocol. -/
theorem ensures_session {d : Directory} {body : Op α} (h : Ensures body good IsTame) :
    Ensures (session d body) good fun e => e.isRefusal := by
  intro t a hcourse ht
  obtain ⟨t, rfl, hopened⟩ := course_note_iff.mp hcourse
  obtain ⟨t₁, opened, t₂, hopen, hrest, rfl⟩ := Dialogue.course_bind_iff.mp hopened
  obtain ⟨-, ht⟩ := (isRegular_append_iff (t := [_])).mp ht
  obtain ⟨ht₁, ht₂⟩ := isRegular_append_iff.mp ht
  have htame := ensures_openConnection d t₁ opened hopen ht₁
  cases opened with
  | error e =>
    -- There is nothing to close, but what was raised is translated all the same.
    obtain ⟨-, rfl⟩ := course_done_iff.mp hrest
    have hrefusal := isRefusal_asRefusal htame
    show ((asRefusal e).contained).isRefusal
    rwa [isTame_contained (.inl hrefusal)]
  | ok _ =>
    obtain ⟨t₃, result, t₄, hheld, hclose, rfl⟩ := Dialogue.course_bind_iff.mp hrest
    obtain ⟨ht₃, ht₄⟩ := isRegular_append_iff.mp ht₂
    have hresult := (ensures_authenticate.bind fun _ _ => h) t₃ result hheld ht₃
    exact ensures_close (meets_mapError_asRefusal hresult) t₄ a hclose ht₄

end Ensures

/-! ### Settings, names and entries

What is worked out before and after a session. No call is made here, so these are about results only. A value
of a setting, or in a reply, is taken apart in the model with a defect for each kind that it may not have, and
the hypotheses on settings and replies leave just the kinds that raise none. -/

def IsText (v : Value) : Prop := ∃ s, v = .text s

/-- Whether a value has items, and they are texts. -/
def IsTexts (v : Value) : Prop := ∃ texts : List String, v.items? = some (texts.map .text)

/-- Whether the settings that operations interpret are of the kinds that they are meant to be. -/
structure Settings.IsTyped (s : Settings) : Prop where
  naming : IsText s.namingAttribute
  value : IsText s.valueAttribute
  contextClasses : IsTexts s.contextClasses
  newContextClasses : IsTexts s.newContextClasses
  newLeafClasses : IsTexts s.newLeafClasses
  byAttribute : ∃ entries, s.newContextClassesByAttribute = .dict entries ∧
    ∀ e ∈ entries, IsText e.1 ∧ IsTexts e.2

/-- Whether a value is a text or a finished name. -/
def IsNaming (v : Value) : Prop := IsText v ∨ ∃ n, v = .name n

/-- Whether what an action takes for a name is one. Only texts are read as names. -/
def IsNamed : Action → Prop
  | .lookup name | .rebind name _ | .createContext name => IsNaming name
  | .readName text => IsText text

section Parts

variable {d : Directory} {n : Name} {dn : String} {s : Settings} {v : Value} {bad : Fault → Prop}
  {attributes : Attributes}

theorem meets_items (h : IsTexts v) : Meets (fun items => ∀ i ∈ items, IsText i) bad v.items := by
  obtain ⟨texts, htexts⟩ := h
  rw [Value.items, htexts]
  intro i hi
  obtain ⟨t, -, rfl⟩ := List.mem_map.mp hi
  exact ⟨t, rfl⟩

theorem meets_lowered (h : IsText v) : Meets IsText bad (Settings.lowered v) := by
  obtain ⟨t, rfl⟩ := h
  exact ⟨_, rfl⟩

theorem meets_asKey (h : IsText v) : Meets (fun _ => True) bad v.asKey := by
  obtain ⟨t, rfl⟩ := h
  trivial

theorem meets_orRefuse (n? : Option Name) :
    Meets (fun _ => True) (fun e => e.isRefusal) (Name.orRefuse n?) := by
  cases n? with
  | none => rfl
  | some n => trivial

/-- A text that is no name is refused. -/
theorem meets_read (g : Name.Grammar) (text : String) :
    Meets (fun _ => True) (fun e => e.isRefusal) (g.read text) := by
  cases g with
  | composite sep =>
    rw [Name.Grammar.read]
    cases Composite.parse sep text with
    | ok n => trivial
    | error p => rfl
  | dn =>
    simp only [Name.Grammar.read]
    split
    · rfl
    · cases Dn.parse (Text.trimmed text) with
      | ok n? => exact meets_orRefuse n?
      | error p => rfl

/-- A text or a finished name is a name, or refused. -/
theorem meets_resolve (g : Name.Grammar) (h : IsNaming v) :
    Meets (fun _ => True) (fun e => e.isRefusal) (g.resolve v) := by
  rcases h with ⟨text, rfl⟩ | ⟨n, rfl⟩
  · exact meets_read g text
  · trivial

theorem meets_encode (v : Value) (n : Name) :
    Meets (fun _ => True) (fun e => e.isRefusal) (encode v n) := by
  rw [encode]
  cases Json.text v with
  | ok text => trivial
  | error p => rfl

/-- The values of an attribute are a list, also if it is missing. -/
theorem isList_getD (h : ∀ a ∈ attributes, IsList a.2) (k : Value) :
    IsList ((attributes.get? k).getD (.list [])) := by
  cases hget : attributes.get? k with
  | none => exact .inr ⟨[], rfl⟩
  | some v =>
    obtain ⟨k', hmem⟩ := OrderedMap.exists_key_of_get? hget
    exact h _ hmem

theorem meets_marksContext (hs : s.IsTyped) (h : IsList v) :
    Meets (fun _ => True) bad (s.marksContext v) := by
  refine (meets_items hs.contextClasses).bind fun classes hclasses => ?_
  refine (Meets.mapM fun c hc => meets_lowered (hclasses c hc)).bind fun wanted _ => ?_
  rcases h with rfl | ⟨items, rfl⟩
  · trivial
  · trivial

/-- A value that cannot be read is refused. -/
theorem meets_storedValue (hd : d.settings.IsTyped) (h : ∀ a ∈ attributes, IsList a.2) :
    Meets (fun _ => True) (fun e => e.isRefusal) (storedValue d dn n attributes) := by
  obtain ⟨key, hkey⟩ := hd.value
  have hlist := isList_getD h (.text key)
  rw [storedValue, hkey]
  show Meets _ _ (if ((attributes.get? (.text key)).getD (.list [])).isVoid then _ else _)
  split
  · trivial
  · next hnonempty =>
    -- The first item of a list that is not empty. One that holds itself has a first item too.
    have hhead : Meets (fun _ => True) (fun e => e.isRefusal)
        ((attributes.get? (.text key)).getD (.list [])).head := by
      rcases hlist with hcircular | ⟨items, hitems⟩
      · rw [hcircular]
        trivial
      · rw [hitems] at hnonempty ⊢
        cases items with
        | nil => exact absurd rfl hnonempty
        | cons item items => trivial
    refine hhead.bind fun first _ => ?_
    cases Json.read first.plain with
    | ok v => trivial
    | error e => rfl

theorem meets_interpret (hd : d.settings.IsTyped) (h : ∀ a ∈ attributes, IsList a.2) :
    Meets (fun _ => True) (fun e => e.isRefusal) (interpret d dn n attributes) := by
  refine (meets_marksContext hd (isList_getD h _)).bind fun marked _ => ?_
  split
  · trivial
  · exact (meets_storedValue hd h).bind fun v _ => trivial

theorem meets_foundIn (hd : d.settings.IsTyped) {answer : Reply × Outcome} (h : answer.1.IsProper) :
    Meets (fun _ => True) (fun e => e.isRefusal) (foundIn d dn n answer) := by
  rw [foundIn]
  split
  · split
    · rfl
    · next attributes _ hentries =>
      exact meets_interpret hd (h.entries attributes (hentries ▸ List.mem_cons_self))
  · split
    · rfl
    · rfl

/-- The fault of a segment that has no assignments to read, in the style that reads them. -/
def IsUnreadable (d : Directory) (segment : String) (e : Fault) : Prop :=
  d.settings.nameStyle = .dn ∧ ∃ p, Dn.assertions segment = .error p ∧ e = .defect .invalidDn p.message

/-- The attributes of a segment start with one that is named by a text. -/
theorem meets_rdnAttributes (hd : d.settings.IsTyped) (segment : String) :
    Meets (fun attributes => ∃ name v rest, attributes = (.text name, v) :: rest) (IsUnreadable d segment)
      (rdnAttributes d (.text segment)) := by
  rw [rdnAttributes]
  cases hstyle : d.settings.nameStyle with
  | composite =>
    obtain ⟨naming, hnaming⟩ := hd.naming
    rw [hnaming]
    exact ⟨naming, _, _, rfl⟩
  | dn =>
    dsimp only
    cases hread : Dn.assertions segment with
    | error p => exact ⟨hstyle, p, hread, rfl⟩
    | ok as =>
      have hne := (Dn.isWritten_of_assertions hread).2.nonempty
      have hentries : ∀ e ∈ as.map (fun a => (Value.text a.type, Value.text a.value)),
          IsText e.1 ∧ IsText e.2 := by
        intro e he
        obtain ⟨a, -, rfl⟩ := List.mem_map.mp he
        exact ⟨⟨_, rfl⟩, ⟨_, rfl⟩⟩
      have hmap : as.map (fun a => (Value.text a.type, Value.text a.value)) ≠ [] :=
        mt List.map_eq_nil_iff.mp hne
      obtain ⟨⟨k, v⟩, rest, hcons⟩ := List.exists_cons_of_ne_nil (OrderedMap.ofEntries_ne_nil hmap)
      have hall := OrderedMap.forall_mem_ofEntries hentries
      rw [hcons] at hall
      obtain ⟨⟨name, rfl⟩, -⟩ := hall _ List.mem_cons_self
      exact ⟨name, v, rest, hcons⟩

/-- A new entry has attributes unless its leaf has no assignments to read. -/
theorem meets_leafAttributes (hd : d.settings.IsTyped) (n : Name) (text : String) :
    Meets (fun _ => True) (IsUnreadable d n.leaf.text) (leafAttributes d n text) :=
  (meets_items hd.newLeafClasses).bind fun _ _ => (meets_rdnAttributes hd n.leaf.text).bind fun _ _ => trivial

/-- Looking for the classes of an attribute raises nothing. -/
theorem meets_classesNamedBy (hs : s.IsTyped) (name : String) :
    Meets (fun _ => True) bad (s.classesNamedBy (.text name)) := by
  obtain ⟨entries, hdict, hentries⟩ := hs.byAttribute
  have hlowered : Meets (fun es => ∀ e ∈ es, IsText e.1 ∧ IsTexts e.2) bad
      (entries.mapM fun entry => (Settings.lowered entry.1).map fun key => (key, entry.2)) := by
    refine Meets.mapM fun e he => ?_
    obtain ⟨⟨k, hk⟩, htexts⟩ := hentries e he
    rw [hk]
    exact ⟨⟨_, rfl⟩, htexts⟩
  rw [Settings.classesNamedBy, hdict]
  refine hlowered.bind fun byAttribute hbyAttribute => ?_
  refine (meets_lowered ⟨name, rfl⟩).bind fun key _ => ?_
  have htexts : IsTexts (((OrderedMap.ofEntries byAttribute).get? key).getD s.newContextClasses) := by
    cases hget : (OrderedMap.ofEntries byAttribute).get? key with
    | none => exact hs.newContextClasses
    | some v =>
      obtain ⟨k', hmem⟩ := OrderedMap.exists_key_of_get? hget
      exact (OrderedMap.forall_mem_ofEntries hbyAttribute _ hmem).2
  obtain ⟨texts, hitems⟩ := htexts
  rw [Value.items, hitems]
  trivial

theorem meets_contextAttributes (hd : d.settings.IsTyped) (n : Name) :
    Meets (fun _ => True) (IsUnreadable d n.leaf.text) (contextAttributes d n) := by
  refine (meets_rdnAttributes hd n.leaf.text).bind fun attributes hattributes => ?_
  obtain ⟨name, v, rest, rfl⟩ := hattributes
  exact (meets_classesNamedBy hd name).bind fun _ _ => trivial

end Parts

/-! ### Operations

In three parts each: what is worked out before the session, the session, and what is made of it. The first and
the last raise refusals only. What is done in the session may raise faults of the protocol as well, a relative
name that cannot be read among them, and the session turns them into refusals. -/

section Operations

variable {d : Directory} {own name value : Value} {n : Name} {dn text : String} {tail : List String}

theorem ensures_consult (request : Request) :
    Ensures (consult request) (fun answer => answer.1.IsProper) IsTame := by
  refine (ensures_call_tame request).bind fun reply hreply => ?_
  exact (ensures_lift hreply.meets_outcome).bind fun outcome _ => ensures_ok hreply

/-- Attributes that cannot be read are a fault of the protocol, which a session turns into a refusal. -/
theorem ensures_store (hd : d.settings.IsTyped) (dn : String) (n : Name) (text : String) :
    Ensures (store d dn n text) (fun _ => True) IsTame := by
  refine (ensures_lift (meets_asKey hd.value)).bind fun key _ => ?_
  refine (ensures_call_tame _).bind fun modified hmodified => ?_
  split
  · exact ensures_ok trivial
  · refine (ensures_lift hmodified.meets_outcome).bind fun outcome _ => ?_
    split
    · have htame : ∀ e, IsUnreadable d n.leaf.text e → IsTame e := by
        rintro e ⟨-, p, -, rfl⟩
        exact .inr rfl
      refine (ensures_lift ((meets_leafAttributes hd n text).mono htame)).bind fun attributes _ => ?_
      refine (ensures_call_tame _).bind fun added hadded => ?_
      split
      · exact ensures_ok trivial
      · exact (ensures_lift hadded.meets_outcome).bind fun outcome _ => ensures_ok trivial
    · exact ensures_error (.inl rfl)

/-- A lookup ends in something or a refusal. -/
theorem ensures_lookup (hd : d.settings.IsTyped) (htail : tail? own = some tail) (hname : IsNaming name) :
    Ensures (lookup d own name) (fun _ => True) fun e => e.isRefusal := by
  rw [lookup_eq]
  refine (ensures_lift (meets_resolve d.grammar hname)).bind fun n _ => ?_
  rw [entryDn_of_tail? htail, lift_ok_bind]
  exact (ensures_session (ensures_consult _)).bind fun answer hanswer =>
    ensures_lift (meets_foundIn hd hanswer)

theorem meets_storedAfter (dn : String) (n : Name) (refused? : Option Outcome) :
    Meets (fun _ => True) (fun e => e.isRefusal) (storedAfter dn n refused?) := by
  cases refused? with
  | none => trivial
  | some outcome =>
    rw [storedAfter]
    split
    · rfl
    · rfl

theorem ensures_rebind (hd : d.settings.IsTyped) (htail : tail? own = some tail) (hname : IsNaming name)
    (value : Value) : Ensures (rebind d own name value) (fun _ => True) fun e => e.isRefusal := by
  rw [rebind_eq]
  refine (ensures_lift (meets_resolve d.grammar hname)).bind fun n _ => ?_
  rw [entryDn_of_tail? htail, lift_ok_bind]
  refine (ensures_lift (meets_encode value n)).bind fun text _ => ?_
  exact (ensures_session (ensures_store hd _ n text)).bind fun refused? _ =>
    ensures_lift (meets_storedAfter _ n refused?)

theorem meets_createdAfter (dn : String) (n : Name) (answer : Reply × Outcome) :
    Meets (fun _ => True) (fun e => e.isRefusal) (createdAfter dn n answer) := by
  rw [createdAfter]
  split
  · trivial
  · split
    · rfl
    · split
      · rfl
      · rfl

/-- A creation may also end in the fault of a leaf that has no assignments to read. -/
theorem ensures_createContext (hd : d.settings.IsTyped) (htail : tail? own = some tail)
    (hname : IsNaming name) :
    Ensures (createContext d own name) (fun _ => True) fun e =>
      e.isRefusal ∨ ∃ n, d.grammar.resolve name = .ok n ∧ IsUnreadable d n.leaf.text e := by
  rw [createContext_eq]
  have hrefusal := meets_resolve d.grammar hname
  cases hresolve : d.grammar.resolve name with
  | error e =>
    rw [hresolve] at hrefusal
    rw [lift_error_bind]
    exact ensures_error (.inl hrefusal)
  | ok n =>
    have hunreadable : ∀ e, IsUnreadable d n.leaf.text e →
        e.isRefusal ∨ ∃ m, Except.ok (ε := Fault) n = .ok m ∧ IsUnreadable d m.leaf.text e :=
      fun e he => .inr ⟨n, rfl, he⟩
    rw [lift_ok_bind, entryDn_of_tail? htail, lift_ok_bind]
    -- Here no session is open yet to turn the fault into a refusal.
    refine (ensures_lift ((meets_contextAttributes hd n).mono hunreadable)).bind fun attributes _ => ?_
    refine .inl ?_
    exact (ensures_session (ensures_consult _)).bind fun answer _ =>
      ensures_lift (meets_createdAfter _ n answer)

/-- Whether an action creates an entry whose name ends in a segment that has no assignments to read. -/
def CreatesUnreadable (d : Directory) (action : Action) (p : Dn.Problem) : Prop :=
  ∃ name n, action = .createContext name ∧ d.settings.nameStyle = .dn ∧
    d.grammar.resolve name = .ok n ∧ Dn.assertions n.leaf.text = .error p

/-- No other action than a creation has a fault that is no refusal. -/
theorem ensures_perform (hd : d.settings.IsTyped) (htail : tail? own = some tail) {action : Action}
    (haction : IsNamed action) :
    Ensures (Realm.perform d own action) (fun _ => True) fun e =>
      e.isRefusal ∨ ∃ p, CreatesUnreadable d action p := by
  cases action with
  | lookup name => exact (ensures_lookup hd htail haction).mono fun e => .inl
  | rebind name value =>
    refine .inl ?_
    exact (ensures_rebind hd htail haction value).bind fun _ _ => ensures_ok trivial
  | createContext name =>
    have hcreates : ∀ e, (e.isRefusal ∨
        ∃ n, d.grammar.resolve name = .ok n ∧ IsUnreadable d n.leaf.text e) →
        e.isRefusal ∨ ∃ p, CreatesUnreadable d (.createContext name) p := by
      rintro e (he | ⟨n, hn, hstyle, p, hread, -⟩)
      · exact .inl he
      · exact .inr ⟨p, name, n, rfl, hstyle, hn, hread⟩
    refine ((ensures_createContext hd htail haction).mono hcreates).bind fun dn _ => ?_
    exact ensures_ok trivial
  | readName text =>
    refine .inl (ensures_lift ?_)
    obtain ⟨text, rfl⟩ := haction
    have hread := meets_read d.grammar text
    show Meets _ _ ((d.grammar.read text).map _)
    cases hresult : d.grammar.read text with
    | ok n => trivial
    | error e =>
      rw [hresult] at hread
      exact hread

/-- A creation with a segment that has no assignments to read fails before anything is asked. -/
theorem perform_of_createsUnreadable (htail : tail? own = some tail) {action : Action} {p : Dn.Problem}
    (h : CreatesUnreadable d action p) :
    Realm.perform d own action = lift (.error (.defect .invalidDn p.message)) := by
  obtain ⟨name, n, rfl, hstyle, hn, hread⟩ := h
  have hattributes : contextAttributes d n = .error (.defect .invalidDn p.message) := by
    have hrdn : rdnAttributes d (.text n.leaf.text) = .error (.defect .invalidDn p.message) := by
      rw [rdnAttributes, hstyle]
      simp only [hread]
    rw [contextAttributes, hrdn]
    rfl
  rw [Realm.perform, createContext_eq, hn, lift_ok_bind, entryDn_of_tail? htail, lift_ok_bind, hattributes,
    lift_error_bind, lift_error_bind]

end Operations

/-- What goes wrong in an operation on an entry, with any server that keeps to the protocol. Every fault is
a refusal, but for a creation in the style of distinguished names whose last segment has no assignments to
read. That creation asks the server nothing, and ends in the protocol's fault that says what is wrong with
the segment. -/
theorem perform_refuses_iff (d : Directory) (hd : d.settings.IsTyped) (own : Value) (tail : List String)
    (htail : tail? own = some tail) (action : Action) (haction : IsNamed action)
    (server : Partner Notice Request Reply) (hserver : ∀ past request, (server past request).IsRegular) :
    let out := (Realm.perform d own action).run.against server []
    ((∀ e, out.1 = .error e → e.isRefusal) ↔ ∀ p, ¬ CreatesUnreadable d action p) ∧
      ∀ p, CreatesUnreadable d action p → out = (.error (.defect .invalidDn p.message), []) := by
  intro out
  have hunreadable : ∀ p, CreatesUnreadable d action p →
      out = (.error (.defect .invalidDn p.message), []) := by
    intro p hp
    simp only [out, perform_of_createsUnreadable htail hp]
    rfl
  refine ⟨⟨?escapes, ?refused⟩, hunreadable⟩
  case escapes =>
    intro hrefused p hp
    have hdefect := hrefused (.defect .invalidDn p.message) (by rw [hunreadable p hp])
    cases hdefect
  case refused =>
    intro hnone e he
    -- The run is a course, and each reply in it is the server's.
    obtain ⟨t, hcourse, ht⟩ := course_against server (Realm.perform d own action).run []
    have hregular : IsRegular t := by
      intro request reply hmem
      rw [List.nil_append] at ht
      rw [← ht] at hmem
      rcases answer_of_mem_against hmem with hpast | ⟨earlier, rfl⟩
      · exact absurd hpast List.not_mem_nil
      · exact hserver earlier request
    have hmeets := ensures_perform hd htail haction t _ hcourse hregular
    have hout : ((Realm.perform d own action).run.against server []).1 = .error e := he
    rw [hout] at hmeets
    exact hmeets.resolve_right fun ⟨p, hp⟩ => hnone p hp

theorem isTyped_plainDirectory (style : NameStyle) : (plainDirectory.styled style).settings.IsTyped where
  naming := ⟨"cn", rfl⟩
  value := ⟨"description", rfl⟩
  contextClasses := ⟨["organizationalUnit", "container"], rfl⟩
  newContextClasses := ⟨["top", "container"], rfl⟩
  newLeafClasses := ⟨["top", "applicationProcess"], rfl⟩
  byAttribute := by
    refine ⟨_, rfl, ?_⟩
    rintro e (_ | ⟨_, _ | ⟨_, ⟨⟩⟩⟩)
    · exact ⟨⟨"ou", rfl⟩, ["top", "organizationalUnit"], rfl⟩
    · exact ⟨⟨"cn", rfl⟩, ["top", "container"], rfl⟩

theorem isRegular_agreed : Reply.agreed.IsRegular := ⟨nofun, fun _ => ⟨.inr ⟨_, rfl⟩, nofun⟩⟩

theorem isRegular_failingAt {e : Fault} (he : e.isProtocol) (fails : Request → Bool)
    (past : List Exchange) (request : Request) : (failingAt e fails past request).IsRegular := by
  rw [failingAt]
  split
  · exact ⟨fun e' h => Option.some.inj h ▸ he, nofun⟩
  · exact isRegular_agreed

/-- A search that the protocol fails at is refused. -/
theorem perform_refuses_busy :
    let busy : Fault := .defect (.protocol "busy") "busy"
    let server := failingAt busy Request.isAccess
    let action : Action := .lookup (.text "a")
    let out := (Realm.perform plainDirectory (.text "dc=x") action).run.against server []
    plainDirectory.settings.IsTyped ∧ tail? (.text "dc=x") = some ["dc=x"] ∧ IsNamed action ∧
      (∀ past request, (server past request).IsRegular) ∧ (∀ p, ¬ CreatesUnreadable plainDirectory action p) ∧
      out.1 = .error (.refusal .general (.text "LDAP error: busy") .null (some busy)) ∧
      ∀ e, out.1 = .error e → e.isRefusal := by
  intro busy server action out
  have hd := isTyped_plainDirectory .composite
  have hserver := isRegular_failingAt (e := busy) rfl Request.isAccess
  have hnone : ∀ p, ¬ CreatesUnreadable plainDirectory action p := by
    rintro p ⟨name, n, heq, -⟩
    exact Action.noConfusion heq
  obtain ⟨hrefuses, -⟩ := perform_refuses_iff plainDirectory hd (.text "dc=x") ["dc=x"] rfl action
    (.inl ⟨"a", rfl⟩) server hserver
  exact ⟨hd, rfl, .inl ⟨"a", rfl⟩, hserver, hnone, rfl, hrefuses.mpr hnone⟩

/-- A name whose last segment has no assignment in it cannot be created, and what is raised is no
refusal. -/
theorem unreadable_leaf_escapes :
    let d := plainDirectory.styled .dn
    let n : Name := ⟨⟨"bad", by decide⟩, []⟩
    let action : Action := .createContext (.name n)
    let out := (Realm.perform d (.text "dc=x") action).run.against (fun _ _ => .agreed) []
    d.settings.IsTyped ∧ IsNamed action ∧ Reply.agreed.IsRegular ∧
      out = (.error (.defect .invalidDn "attribute type not present"), []) ∧
      ¬ (Fault.defect .invalidDn "attribute type not present").isRefusal := by
  intro d n action out
  have huncut : ∀ c, Dn.IsSeparator (some c) → Dn.cutFirst c [] ['b', 'a', 'd'] = none := by
    intro c hc
    rcases Dn.isSeparator_some_iff.mp hc with rfl | rfl <;> rfl
  have hread : Dn.assertions "bad" = .error .noType := Dn.assertions_of_uncut (List.cons_ne_nil _ _) huncut
  have hcreates : CreatesUnreadable d action .noType := ⟨.name n, n, rfl, rfl, rfl, hread⟩
  have hperform := perform_of_createsUnreadable (tail?_text (s := "dc=x") (by decide)) hcreates
  refine ⟨isTyped_plainDirectory .dn, .inr ⟨n, rfl⟩, isRegular_agreed, ?_, Bool.false_ne_true⟩
  simp only [out, hperform]
  rfl

end Ldap
end NamingDirectory
