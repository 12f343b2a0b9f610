import NamingDirectory.Proofs.Ldap.DistinguishedName
import NamingDirectory.Proofs.Ldap.Line
import NamingDirectory.Proofs.Ldap.Operation
import NamingDirectory.Proofs.TextKey

/-!
# Operations on a store

What the operations on entries come to when the server answers from a store of entries and a directory has the
usual attributes and object classes. A lookup finds what the store has (`Store.find`), a rebind writes one
entry (`Store.rebind?`), and a step of the walk enters a context or adds one (`Store.enter?`).

That the operations do just that is said by `Yields`: run on a server with one store, an operation ends in a
result and leaves the server with another store, and nothing else is changed but the record of what went over
the wire.

`Yields` has a rule for each node of a dialogue and one for a dialogue after another, so an operation is
carried out by going through its parts in the order in which they are written. A session is gone through once
(`yields_session`): a store never fails, so on it a session is what is done in it.

The usual directories are those with the attributes and classes that a configuration has if nothing else is
said. They are fixed so that the entries can be written down. Laws that hold of other directories too are
elsewhere, and do not suppose a store.
-/

namespace NamingDirectory

namespace Ldap

open Dialogue

/-! ### Usual directories

The names of attributes and classes are texts, so nothing fails where they are looked at. -/

/-- Whether a directory has composite names, and the usual attributes and object classes. -/
structure Directory.IsUsual (d : Directory) : Prop where
  nameStyle : d.settings.nameStyle = .composite
  namingAttribute : d.settings.namingAttribute = .text "cn"
  valueAttribute : d.settings.valueAttribute = .text "description"
  contextClasses : d.settings.contextClasses =
    .tuple [.text "organizationalUnit", .text "container"]
  newContextClassesByAttribute : d.settings.newContextClassesByAttribute = .dict [
    (.text "ou", .tuple [.text "top", .text "organizationalUnit"]),
    (.text "cn", .tuple [.text "top", .text "container"])]
  newLeafClasses : d.settings.newLeafClasses = .tuple [.text "top", .text "applicationProcess"]

theorem Directory.IsUsual.isComposite {d : Directory} (hd : d.IsUsual) : d.IsComposite where
  composite := hd.nameStyle
  closed := by
    rw [hd.namingAttribute]
    decide

theorem isUsual_plainDirectory : plainDirectory.IsUsual := ⟨rfl, rfl, rfl, rfl, rfl, rfl⟩

/-! ### Entries

The three kinds of entries that binds make, and what a lookup looks at in any entry: the object classes, and
the text of a value. -/

/-- What a store has at a distinguished name. -/
abbrev Entry := OrderedMap Value (List Value)

namespace Entry

def description : Value := .text "description"

/-- Whether one of the object classes makes an entry a context. -/
def isContext (e : Entry) : Bool :=
  ((e.get? objectClass).getD []).any fun c =>
    [Value.text "organizationalunit", .text "container"].contains (.text (Text.lower c.plain))

/-- A new context at a segment. -/
def context (s : Segment) : Entry :=
  [(objectClass, [.text "top", .text "container"]), (.text "cn", [.text s.text])]

/-- A new entry for a text at a segment. -/
def leaf (s : Segment) (text : String) : Entry :=
  [(objectClass, [.text "top", .text "applicationProcess"]), (.text "cn", [.text s.text]),
    (description, [.text text])]

/-- The entry that a rebind leaves where there was one or none: the old one with its text replaced, or a
new one. -/
def rewritten (old? : Option Entry) (s : Segment) (text : String) : Entry :=
  match old? with
  | some e => e.put description [.text text]
  | none => leaf s text

/-- The part of an entry that a search asks for. -/
def selected (d : Directory) (e : Entry) : Attributes :=
  OrderedMap.ofEntries ([objectClass, d.settings.valueAttribute].filterMap fun name =>
    (e.get? name).map fun vs => (name, .list vs))

theorem isContext_context (s : Segment) : (context s).isContext = true := by
  have hclasses : (context s).get? objectClass = some [.text "top", .text "container"] := rfl
  rw [isContext, hclasses]
  decide +kernel

theorem isContext_leaf (s : Segment) (text : String) : (leaf s text).isContext = false := by
  have hclasses : (leaf s text).get? objectClass =
      some [.text "top", .text "applicationProcess"] := rfl
  rw [isContext, hclasses]
  decide +kernel

/-- A rebind does not change whether an entry is a context. -/
theorem isContext_rewritten (old? : Option Entry) (s : Segment) (text : String) :
    (rewritten old? s text).isContext = old?.any isContext := by
  cases old? with
  | none => exact isContext_leaf s text
  | some e =>
    have hclasses : (e.put description [.text text]).get? objectClass = e.get? objectClass := by
      rw [description, objectClass, OrderedMap.get?_put_text]
      exact if_neg (by decide)
    rw [rewritten, isContext, hclasses]
    rfl

theorem get?_description_rewritten (old? : Option Entry) (s : Segment) (text : String) :
    (rewritten old? s text).get? description = some [.text text] := by
  cases old? with
  | none => rfl
  | some e =>
    rw [rewritten, description, OrderedMap.get?_put_text]
    exact if_pos rfl

/-- Of the two attributes a search asks for, each comes back if the entry has it. -/
theorem get?_selected {d : Directory} (hd : d.IsUsual) (e : Entry) {name : Value}
    (hname : name = objectClass ∨ name = description) :
    (selected d e).get? name = (e.get? name).map .list := by
  rw [selected, hd.valueAttribute]
  rcases hname with rfl | rfl <;> cases hclasses : e.get? objectClass <;>
    cases htext : e.get? (.text "description") <;>
    simp only [List.filterMap_cons, List.filterMap_nil, hclasses, htext, description, Option.map_none,
      Option.map_some] <;> rfl

end Entry

/-! ### Lookups

What is found is worked out by `interpret`, from the part of an entry that was asked for. An entry that is a
context is found as such, whatever text it may have, and any other entry is found by its text. -/

section Find

variable {d : Directory} {s : Store} {dn text : String} {n : Name} {e : Entry} {v : Value}

/-- What a lookup finds at a distinguished name. -/
def Store.find (s : Store) (d : Directory) (dn : String) (n : Name) : Except Fault Found :=
  match s.get? dn with
  | none => .error (noEntry dn n)
  | some e => interpret d dn n (Entry.selected d e)

/-- With the usual classes, an entry is a context if it has one of the two, in any case of letters. -/
theorem marksContext_list (hd : d.IsUsual) (classes : List Value) :
    d.settings.marksContext (.list classes) = .ok (classes.any fun c =>
      [Value.text "organizationalunit", .text "container"].contains (.text (Text.lower c.plain))) := by
  rw [Settings.marksContext, hd.contextClasses]
  rfl

/-- The attributes that a lookup asks for are enough to tell what an entry is. -/
theorem interpret_selected (hd : d.IsUsual) (dn : String) (n : Name) (e : Entry) :
    interpret d dn n (Entry.selected d e) =
      if e.isContext then .ok (.entry dn)
      else (storedValue d dn n (Entry.selected d e)).map Found.value := by
  have hclasses : ((Entry.selected d e).get? objectClass).getD (.list []) =
      .list ((e.get? objectClass).getD []) := by
    rw [Entry.get?_selected hd _ (.inl rfl)]
    cases e.get? objectClass with
    | none => rfl
    | some classes => rfl
  rw [interpret, hclasses, marksContext_list hd, ← Entry.isContext]
  cases e.isContext with
  | true => rfl
  | false => rfl

/-- Whether there is a context at a distinguished name. -/
def Store.hasContext (s : Store) (dn : String) : Bool := (s.get? dn).any Entry.isContext

theorem Store.find_of_none (h : s.get? dn = none) : s.find d dn n = .error (noEntry dn n) := by
  rw [find, h]

/-- What is found is the entry itself as a context, or a value that is no node. -/
theorem Store.find_ok {found : Found} (h : s.find d dn n = .ok found) :
    found = .entry dn ∨ ∃ v, found = .value v ∧ ¬ v.isNode := by
  rw [find] at h
  split at h
  · cases h
  · exact interpret_ok h

theorem Store.hasContext_of_some (h : s.get? dn = some e) : s.hasContext dn = e.isContext := by
  rw [hasContext, h]
  rfl

theorem Store.hasContext_of_none (h : s.get? dn = none) : s.hasContext dn = false := by
  rw [hasContext, h]
  rfl

theorem Store.has_of_none (h : s.get? dn = none) : s.has dn = false := by
  rw [OrderedMap.has, h]
  rfl

theorem Store.has_of_some (h : s.get? dn = some e) : s.has dn := by
  rw [OrderedMap.has, h]
  rfl

theorem Store.find_of_hasContext (hd : d.IsUsual) (h : s.hasContext dn) :
    s.find d dn n = .ok (.entry dn) := by
  obtain ⟨e, he, hcontext⟩ := (Option.any_eq_true _ _).mp h
  rw [find, he]
  exact (interpret_selected hd dn n e).trans (if_pos hcontext)

/-- An entry that is no context is found to be a value, if it can be read at all. -/
theorem Store.find_of_not_isContext (hd : d.IsUsual) (h : s.get? dn = some e) (he : ¬ e.isContext) :
    (∃ v, s.find d dn n = .ok (.value v) ∧ ¬ v.isNode) ∨
      ∃ fault, s.find d dn n = .error fault ∧ ¬ fault.isNotFound := by
  have hfind : s.find d dn n = (storedValue d dn n (Entry.selected d e)).map Found.value := by
    rw [find, h]
    exact (interpret_selected hd dn n e).trans (if_neg he)
  rw [hfind]
  cases hvalue : storedValue d dn n (Entry.selected d e) with
  | ok v => exact .inl ⟨v, rfl, not_isNode_storedValue hvalue⟩
  | error fault => exact .inr ⟨fault, rfl, spares_storedValue d dn n _ fault hvalue⟩

theorem Store.find_of_text (hd : d.IsUsual) (h : s.get? dn = some e) (he : ¬ e.isContext)
    (htext : e.get? Entry.description = some [.text text]) (hread : Json.read text = .ok v) :
    s.find d dn n = .ok (.value v) := by
  have hstored : storedValue d dn n (Entry.selected d e) = .ok v := by
    have hraw : ((Entry.selected d e).get? (.text "description")).getD (.list []) = .list [.text text] := by
      have hselected := Entry.get?_selected hd e (.inr rfl)
      rw [htext] at hselected
      exact congrArg (Option.getD · _) hselected
    have hkey : d.settings.valueAttribute.asKey = .ok (.text "description") := by
      rw [hd.valueAttribute]
      rfl
    refine bind_eq_ok_iff.mpr ⟨.text "description", hkey, ?_⟩
    dsimp only
    rw [hraw]
    refine bind_eq_ok_iff.mpr ⟨.text text, rfl, ?_⟩
    have hplain : (Value.text text).plain = text := rfl
    rw [hplain, hread]
    rfl
  rw [find, h]
  refine (interpret_selected hd dn n e).trans ((if_neg he).trans ?_)
  rw [hstored]
  rfl

end Find

/-! ### Running on a store

The rules of `Yields`, along a dialogue. A store never raises a fault (`raised_answer`), so of the ways in
which an operation can go on after a request only the one with a reply is left. -/

/-- A server that answers from a store alone. -/
def Server.ofStore (s : Store) : Server := ⟨[], some s⟩

/-- Run on a server with the store `s`, a dialogue ends in `a` and leaves the store `s'`. Nothing else is
changed but the record of the requests. -/
def Yields {α : Type} (talk : Realm.Line α) (s : Store) (a : α) (s' : Store) : Prop :=
  ∀ r : Realm, r.server = .ofStore s →
    ∃ wire, talk.run Realm.reply Realm.attend r = (a, { r with server := .ofStore s', wire })

section Yields

variable {α β : Type} {s s' s'' : Store} {a : α}

theorem yields_done (a : α) (s : Store) : Yields (.done a) s a s := by
  intro r hr
  exact ⟨r.wire, by rw [← hr]; rfl⟩

/-- Announcing a connection is recorded, and changes nothing else. -/
theorem yields_connect {c : Connection} {next : Realm.Line α} (h : Yields next s a s') :
    Yields (.note (.connect c) next) s a s' := by
  intro r hr
  exact h _ hr

/-- A request is answered by the store, and leaves the store that the answer comes with. -/
theorem yields_ask {request : Request} {next : Reply → Realm.Line α}
    (h : Yields (next (s.answer request).1) (s.answer request).2 a s') :
    Yields (.ask request next) s a s' := by
  intro r hr
  have hreply : Realm.reply request r = ((s.answer request).1,
      { r with server := .ofStore (s.answer request).2, wire := r.wire ++ [.request request] }) := by
    rw [Realm.reply, hr]
    rfl
  rw [Dialogue.run, hreply]
  exact h _ rfl

/-- A dialogue after another goes on from the store that the first one leaves. -/
theorem Yields.bind {talk : Realm.Line α} {next : α → Realm.Line β} {b : β} (h : Yields talk s a s')
    (hnext : Yields (next a) s' b s'') : Yields (talk.bind next) s b s'' := by
  intro r hr
  obtain ⟨wire, hrun⟩ := h r hr
  rw [Dialogue.run_bind, hrun]
  exact hnext _ rfl

theorem Yields.op_bind {op : Op α} {next : α → Op β} {b : Except Fault β}
    (h : Yields op.run s (.ok a) s') (hnext : Yields (next a).run s' b s'') :
    Yields (op >>= next).run s b s'' :=
  Yields.bind h hnext

theorem Yields.op_bind_error {op : Op α} {e : Fault} (h : Yields op.run s (.error e) s')
    (next : α → Op β) : Yields (op >>= next).run s (.error e) s' :=
  Yields.bind h (yields_done _ s')

theorem yields_lift (result : Except Fault α) (s : Store) : Yields (lift result).run s result s :=
  yields_done result s

theorem yields_lift_bind {result : Except Fault α} {next : α → Op β} {b : Except Fault β}
    (h : result = .ok a) (hnext : Yields (next a).run s b s') :
    Yields (lift result >>= next).run s b s' :=
  Yields.op_bind (h ▸ yields_lift result s) hnext

/-- A store raises no faults. -/
theorem raised_answer (s : Store) (request : Request) : (s.answer request).1.raised = none := by
  unfold Store.answer
  split
  · split
    · rfl
    · rfl
  · split
    · rfl
    · rfl
  · split
    · rfl
    · split
      · rfl
      · rfl
  · rfl

theorem yields_call (s : Store) (request : Request) :
    Yields (call request).run s (.ok (s.answer request).1) (s.answer request).2 := by
  refine yields_ask ?_
  rw [raised_answer]
  exact yields_done _ _

theorem yields_lift_bind_error {result : Except Fault α} {e : Fault} (h : result = .error e)
    (next : α → Op β) (s : Store) : Yields (lift result >>= next).run s (.error e) s :=
  Yields.op_bind_error (h ▸ yields_lift result s) next

/-- What is done in a session is done. -/
theorem yields_session {body : Op α} (d : Directory) (h : Yields body.run s (.ok a) s') :
    Yields (session d body).run s (.ok a) s' := by
  have hopen : Yields (openConnection d).run s (.ok ()) s := by
    refine Yields.op_bind (yields_call s .open) ?_
    split
    · exact Yields.op_bind (yields_call s .startTls) (yields_done _ s)
    · exact yields_done _ s
  have hauth : Yields authenticate.run s (.ok ()) s :=
    Yields.op_bind (Yields.bind (yields_call s .bind) (yields_done _ s)) (yields_done _ s)
  refine yields_connect (Yields.bind hopen ?_)
  refine Yields.bind (Yields.op_bind hauth h) ?_
  exact yields_ask (yields_done _ s')

/-- A session that asks for one outcome brings it. -/
theorem yields_session_consult {request : Request} {reply : Reply} {outcome : Outcome} (d : Directory)
    (h : s.answer request = (reply, s')) (houtcome : reply.outcome = .ok outcome) :
    Yields (session d (consult request)).run s (.ok (reply, outcome)) s' := by
  have hcall := yields_call s request
  rw [h] at hcall
  exact yields_session d (Yields.op_bind hcall (yields_lift_bind houtcome (yields_done _ _)))

end Yields

/-! ### What the operations do

Each operation, by the three parts that it has: what is worked out, the session, and what is made of it. -/

/-- The server's word that there is no such entry. -/
def Outcome.absent : Outcome :=
  ⟨[(.text "result", .int 32), (.text "description", .text "noSuchObject"), (.text "message", .text "")]⟩

section Operations

variable {d : Directory} {own name v : Value} {n : Name} {dn text : String} {s : Store} {seg : Segment}

/-- A lookup finds what the store has. -/
theorem yields_lookup (hn : d.grammar.resolve name = .ok n) (hdn : entryDn d own n = .ok dn)
    (s : Store) : Yields (lookup d own name).run s (s.find d dn n) s := by
  rw [lookup_eq]
  refine yields_lift_bind hn (yields_lift_bind hdn ?_)
  cases he : s.get? dn with
  | none =>
    have hanswer : s.answer (inquiry d dn) = (.noSuchObject, s) := by
      simp only [inquiry, Store.answer, he]
    rw [Store.find_of_none he]
    exact Yields.op_bind (yields_session_consult d hanswer rfl) (yields_lift _ s)
  | some e =>
    have hanswer : s.answer (inquiry d dn) =
        ({ Reply.agreed with entries := [Entry.selected d e] }, s) := by
      simp only [inquiry, Store.answer, he, Entry.selected]
    rw [Store.find, he]
    exact Yields.op_bind (yields_session_consult d hanswer rfl) (yields_lift _ s)

theorem yields_lookup_error {e : Fault} (hn : d.grammar.resolve name = .ok n)
    (hdn : entryDn d own n = .error e) (s : Store) : Yields (lookup d own name).run s (.error e) s := by
  rw [lookup_eq]
  exact yields_lift_bind hn (yields_lift_bind_error hdn _ s)

/-- The attributes of a new entry are those of `Entry.leaf`. -/
theorem leafAttributes_eq (hd : d.IsUsual) (n : Name) (text : String) :
    leafAttributes d n text = .ok [(objectClass, .list [.text "top", .text "applicationProcess"]),
      (.text "cn", .text n.leaf.text), (.text "description", .text text)] := by
  simp only [leafAttributes, rdnAttributes, hd.newLeafClasses, hd.nameStyle, hd.namingAttribute,
    hd.valueAttribute]
  rfl

/-- The attributes of a new context are those of `Entry.context`. -/
theorem contextAttributes_eq (hd : d.IsUsual) (n : Name) :
    contextAttributes d n = .ok [(objectClass, .list [.text "top", .text "container"]),
      (.text "cn", .text n.leaf.text)] := by
  simp only [contextAttributes, rdnAttributes, hd.nameStyle, hd.namingAttribute,
    Settings.classesNamedBy, hd.newContextClassesByAttribute]
  rfl

/-- The store after a text was written at a distinguished name, if there is an entry or one above. -/
def Store.write? (s : Store) (dn : String) (seg : Segment) (text : String) : Option Store :=
  if s.has dn || s.hasParent dn then some (s.put dn (Entry.rewritten (s.get? dn) seg text)) else none

/-- In a session, a text is written, or the server refuses to add an entry with nothing above it. -/
theorem yields_store (hd : d.IsUsual) (s : Store) (dn : String) (n : Name) (text : String) :
    match s.write? dn n.leaf text with
    | some s' => Yields (store d dn n text).run s (.ok none) s'
    | none => Yields (store d dn n text).run s (.ok (some .absent)) s := by
  have hkey : d.settings.valueAttribute.asKey = .ok Entry.description := by
    rw [hd.valueAttribute]
    rfl
  have hmodify := yields_call s (.modify dn Entry.description text)
  rw [Store.write?, store]
  cases he : s.get? dn with
  | some e =>
    have hhas : s.has dn = true := Store.has_of_some he
    -- There is an entry, and the modification is all that is asked.
    have hanswer : s.answer (.modify dn Entry.description text) =
        (.agreed, s.put dn (e.put Entry.description [.text text])) := by
      simp only [Store.answer, he]
    rw [hanswer] at hmodify
    rw [hhas, Bool.true_or, if_pos rfl]
    exact yields_lift_bind hkey (Yields.op_bind hmodify (yields_done _ _))
  | none =>
    have hhas : s.has dn = false := Store.has_of_none he
    -- There is none, so an addition comes next, and the entry above decides.
    have hanswer : s.answer (.modify dn Entry.description text) = (.noSuchObject, s) := by
      simp only [Store.answer, he]
    rw [hanswer] at hmodify
    have hadd := yields_call s (.add dn [(objectClass, .list [.text "top", .text "applicationProcess"]),
      (.text "cn", .text n.leaf.text), (.text "description", .text text)])
    simp only [Store.answer, hhas, Bool.false_eq_true, if_false] at hadd
    rw [hhas, Bool.false_or]
    cases hparent : s.hasParent dn with
    | true =>
      simp only [hparent, if_true] at hadd ⊢
      refine yields_lift_bind hkey (Yields.op_bind hmodify (yields_lift_bind rfl ?_))
      exact yields_lift_bind (leafAttributes_eq hd n text) (Yields.op_bind hadd (yields_done _ _))
    | false =>
      simp only [hparent, Bool.false_eq_true, if_false] at hadd ⊢
      refine yields_lift_bind hkey (Yields.op_bind hmodify (yields_lift_bind rfl ?_))
      exact yields_lift_bind (leafAttributes_eq hd n text)
        (Yields.op_bind hadd (yields_lift_bind rfl (yields_done _ _)))

/-- The store after a value is bound at a name below an entry, if that succeeds. -/
def Store.rebind? (s : Store) (d : Directory) (own : Value) (n : Name) (v : Value) : Option Store :=
  match entryDn d own n, Json.text v with
  | .ok dn, .ok text => s.write? dn n.leaf text
  | _, _ => none

theorem not_isInterrupt_of_entryDn {e : Fault} (h : entryDn d own n = .error e) :
    ¬ e.isInterrupt := by
  unfold entryDn at h
  split at h
  · cases h
  · split at h
    · cases h
    · cases h
      exact Bool.false_ne_true

/-- A rebind writes the text of the value, or fails and leaves the store as it was. The fault is no demand to
stop, so a bind that tries the whole name first goes on to walk. -/
theorem yields_rebind (hd : d.IsUsual) (hn : d.grammar.resolve name = .ok n) (own v : Value)
    (s : Store) :
    match s.rebind? d own n v with
    | some s' => Yields (rebind d own name v).run s (.ok ()) s'
    | none => ∃ e, ¬ e.isInterrupt ∧ Yields (rebind d own name v).run s (.error e) s := by
  rw [rebind_eq, Store.rebind?]
  cases hdn : entryDn d own n with
  | error e =>
    refine ⟨e, not_isInterrupt_of_entryDn hdn, ?_⟩
    exact yields_lift_bind hn (yields_lift_bind_error hdn _ s)
  | ok dn =>
    cases htext : Json.text v with
    | error p =>
      have hencode : encode v n = .error (.refusal .general
          (.text ("Value is not serializable: " ++ p.message)) (.text n.shown) (some p.fault)) := by
        simp only [encode, htext]
      refine ⟨_, ?_, yields_lift_bind hn (yields_lift_bind hdn (yields_lift_bind_error hencode _ s))⟩
      exact Bool.false_ne_true
    | ok text =>
      have hencode : encode v n = .ok text := encode_eq_ok_iff.mpr htext
      have hstore := yields_store hd s dn n text
      dsimp only
      cases hwrite : s.write? dn n.leaf text with
      | some s' =>
        rw [hwrite] at hstore
        refine yields_lift_bind hn (yields_lift_bind hdn (yields_lift_bind hencode ?_))
        exact Yields.op_bind (yields_session d hstore) (yields_lift _ s')
      | none =>
        rw [hwrite] at hstore
        refine ⟨noParent dn n, Bool.false_ne_true, ?_⟩
        refine yields_lift_bind hn (yields_lift_bind hdn (yields_lift_bind hencode ?_))
        exact Yields.op_bind (yields_session d hstore) (yields_lift _ s)

theorem yields_rebind_error {e : Fault} (hn : d.grammar.resolve name = .error e) (own v : Value)
    (s : Store) : Yields (rebind d own name v).run s (.error e) s := by
  rw [rebind_eq]
  exact yields_lift_bind_error hn _ s

/-- Where nothing is, a context is created, if an entry is above. If there is none, the server says so, and
the fault names the entry that was to be added. -/
theorem yields_createContext (hd : d.IsUsual) (hn : d.grammar.resolve name = .ok n)
    (hdn : entryDn d own n = .ok dn) (habsent : s.get? dn = none) :
    if s.hasParent dn then
      Yields (createContext d own name).run s (.ok dn) (s.put dn (Entry.context n.leaf))
    else Yields (createContext d own name).run s (.error (noParent dn n)) s := by
  have hhas : s.has dn = false := Store.has_of_none habsent
  have hadd : s.answer (.add dn [(objectClass, .list [.text "top", .text "container"]),
      (.text "cn", .text n.leaf.text)]) =
      if s.hasParent dn then (.agreed, s.put dn (Entry.context n.leaf)) else (.noSuchObject, s) := by
    rw [Store.answer, if_neg (by simp [hhas])]
    rfl
  rw [createContext_eq]
  split
  · next hparent =>
    rw [if_pos hparent] at hadd
    refine yields_lift_bind hn (yields_lift_bind hdn (yields_lift_bind (contextAttributes_eq hd n) ?_))
    exact Yields.op_bind (yields_session_consult d hadd rfl) (yields_lift _ _)
  · next hparent =>
    rw [if_neg hparent] at hadd
    refine yields_lift_bind hn (yields_lift_bind hdn (yields_lift_bind (contextAttributes_eq hd n) ?_))
    exact Yields.op_bind (yields_session_consult d hadd rfl) (yields_lift _ _)

end Operations

end Ldap
end NamingDirectory
