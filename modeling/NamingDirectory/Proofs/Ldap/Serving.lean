import NamingDirectory.Proofs.Ldap.Planting

/-!
# Serving from a store

Binds and lookups in a realm whose server answers from a store of entries (`Realm.Serves`). A bind in the
realm is a bind in the store (`Serves.bind`): step by step, what the walk of the client does to the server is
what `Store.plant?` does to the store. A lookup brings what the store has: a context as a new handle on it
(`Serves.lookup_of_hasContext`), and what is bound by its text (`Serves.lookup_of_text`).

The simulation goes both ways. Where the store has a next one, the dialogue succeeds and leaves a realm that
serves this one; and where it has none, the dialogue fails (`Ends`). The faults themselves are not compared,
but none of them is a demand to stop, so that a first attempt that failed is followed by the walk. Of the rest
of a realm, the handles that were given out and the log, nothing need be known.

What is shown is that this square commutes, and that the upper side fails where the lower one does:

    realm   ──── Client.bind ────▶   realm
      │                                │
    Serves                           Serves
      │                                │
    store   ──── Store.bind? ────▶   store
-/

namespace NamingDirectory

open Ldap

/-! ### Running on a store

Each function of the client on an entry, against the function on stores. A request to the entry is answered by
what its operation yields on the store (`Serves.run_ask`), so every proof goes through the dialogue of the
client and looks at the store for each of its requests. -/

/-- A realm that serves a directory from a store alone. -/
structure Realm.Serves (r : Realm) (k : Nat) (d : Directory) (s : Store) : Prop where
  directories : r.directories[k]? = some d
  server : r.server = .ofStore s

namespace Ldap

/-- A realm with a plain directory that is served from a store. -/
def plainRealm (s : Store) : Realm :=
  { Realm.empty with directories := [plainDirectory], server := .ofStore s }

theorem serves_plainRealm (s : Store) : (plainRealm s).Serves 0 plainDirectory s := ⟨rfl, rfl⟩

end Ldap

namespace Realm

variable {r : Realm} {k : Nat} {d : Directory} {s s' : Store} {own name v : Value} {seg : Segment}

theorem Serves.hear (h : r.Serves k d s) (logger : String) (event : Event) :
    (hear logger event r).Serves k d s :=
  ⟨h.directories, h.server⟩

theorem Serves.receive (h : r.Serves k d s) (result : Except Fault Found) :
    (r.receive k result).2.Serves k d s := by
  rcases result with e | dn | v
  · exact h
  · exact ⟨h.directories, h.server⟩
  · exact h

/-- An entry answers what its operation yields, in a realm that serves the store which the operation leaves. -/
theorem Serves.run_ask {α : Type} {action : Action} {result : Except Fault Found} (h : r.Serves k d s)
    (hyields : Yields (perform d own action).run s result s') (serial : Nat)
    (next : Answer → Client.Talk α) :
    ∃ r' : Realm, r'.Serves k d s' ∧ r.run (.ask ⟨.entry k serial own, action⟩ next) =
      (r'.receive k result).2.run (next (r'.receive k result).1) := by
  obtain ⟨wire, hrun⟩ := hyields r h.server
  refine ⟨{ r with server := .ofStore s', wire }, ⟨h.directories, rfl⟩, ?_⟩
  rw [Realm.run_ask]
  simp only [answer, h.directories, askEntry_eq_receive, operate, hrun]

/-- One step down the walk is one step in the store. Where the store has no such step the walk fails, by the
fault of the lookup, of the creation, or because something else is in the way. -/
theorem Serves.run_descend (h : r.Serves k d s) (hd : d.IsUsual) (name own : Value) (serial : Nat)
    (seg : Segment) :
    match s.enter? d own seg with
    | some (dn, s') => ∃ serial' r', Serves r' k d s' ∧
        r.run (Client.descend name (.entry k serial own) seg) =
          (.ok (.entry k serial' (.text dn)), r')
    | none => ∃ e r', r.run (Client.descend name (.entry k serial own) seg) = (.error e, r') := by
  have hsought := h.hear Event.logger (.stepSought (.text seg.text))
  rw [Store.enter?, Client.descend, run_note]
  cases hdn : entryDn d own (.single seg) with
  | error e =>
    -- Without a distinguished name nothing is asked for, and the walk takes no context to be missing.
    have hlookup : Yields (perform d own (.lookup (.name (.single seg)))).run s (.error e) s :=
      yields_lookup_error rfl hdn s
    obtain ⟨r₁, -, hrun⟩ := hsought.run_ask hlookup serial _
    rw [hrun]
    simp only [Realm.receive, if_neg (spares_entryDn d own (.single seg) e hdn)]
    exact ⟨_, _, rfl⟩
  | ok dn =>
    have hlookup : Yields (perform d own (.lookup (.name (.single seg)))).run s
        (s.find d dn (.single seg)) s := yields_lookup rfl hdn s
    obtain ⟨r₁, hr₁, hrun⟩ := hsought.run_ask hlookup serial _
    rw [hrun]
    dsimp only
    cases he : s.get? dn with
    | some e =>
      by_cases hcontext : s.hasContext dn
      · rw [Store.find_of_hasContext hd hcontext, if_pos hcontext]
        exact ⟨_, _, (hr₁.receive (.ok (.entry dn))).hear Event.logger _, rfl⟩
      · -- An entry that is no context is in the way, whether its text can be read or not.
        rw [if_neg hcontext, Store.has_of_some he]
        rw [Store.hasContext_of_some he] at hcontext
        rcases Store.find_of_not_isContext hd he hcontext with ⟨v, hv, hnode⟩ | ⟨fault, hfault, hspare⟩
        · rw [hv]
          simp only [Realm.receive, if_neg hnode]
          exact ⟨_, _, rfl⟩
        · rw [hfault]
          simp only [Realm.receive, if_neg hspare]
          exact ⟨_, _, rfl⟩
    | none =>
      -- Nothing is there, so a context is created, which a store allows below an entry only.
      rw [Store.find_of_none he, Store.hasContext_of_none he, Store.has_of_none he]
      have hmissing := hr₁.hear Event.logger (.stepMissing (.text seg.text))
      have hname : d.grammar.resolve (.name (.single seg)) = .ok (.single seg) := rfl
      have hcreate := yields_createContext hd hname hdn he
      have hnone : (noEntry dn (.single seg)).isNotFound = true := rfl
      simp only [Realm.receive, hnone, if_true, run_note]
      simp only [Bool.false_eq_true, if_false, Bool.not_false, Bool.true_and]
      by_cases hparent : s.hasParent dn
      · rw [if_pos hparent] at hcreate ⊢
        have hperform : Yields (perform d own (.createContext (.name (.single seg)))).run s
            (.ok (.entry dn)) (s.put dn (Entry.context seg)) := hcreate.op_bind (yields_done _ _)
        obtain ⟨r₂, hr₂, hrun₂⟩ := hmissing.run_ask hperform serial _
        rw [hrun₂]
        exact ⟨_, _, hr₂.receive (.ok (.entry dn)), rfl⟩
      · rw [if_neg hparent] at hcreate ⊢
        have hperform : Yields (perform d own (.createContext (.name (.single seg)))).run s
            (.error (noParent dn (.single seg))) s := hcreate.op_bind_error _
        obtain ⟨r₂, -, hrun₂⟩ := hmissing.run_ask hperform serial _
        rw [hrun₂]
        exact ⟨_, _, rfl⟩

/-- An entry that is asked to rebind writes in the store, or answers with a fault that is no demand to stop
and leaves the store as it was. -/
theorem Serves.run_rebind {α : Type} {n : Name} (h : r.Serves k d s) (hd : d.IsUsual)
    (hn : d.grammar.resolve name = .ok n) (v own : Value) (serial : Nat)
    (next : Answer → Client.Talk α) :
    match s.rebind? d own n v with
    | some s' => ∃ r' : Realm, r'.Serves k d s' ∧
        r.run (.ask ⟨.entry k serial own, .rebind name v⟩ next) = r'.run (next (.ok .null))
    | none => ∃ (e : Fault) (r' : Realm), ¬ e.isInterrupt ∧ r'.Serves k d s ∧
        r.run (.ask ⟨.entry k serial own, .rebind name v⟩ next) = r'.run (next (.error e)) := by
  have hrebind := yields_rebind hd hn own v s
  cases hs' : s.rebind? d own n v with
  | some s' =>
    rw [hs'] at hrebind
    have hperform : Yields (perform d own (.rebind name v)).run s (.ok (.value .null)) s' :=
      hrebind.op_bind (yields_done _ _)
    exact h.run_ask hperform serial next
  | none =>
    rw [hs'] at hrebind
    obtain ⟨e, he, hrebind⟩ := hrebind
    have hperform : Yields (perform d own (.rebind name v)).run s (.error e) s :=
      hrebind.op_bind_error _
    obtain ⟨r', hr', hrun⟩ := h.run_ask hperform serial next
    exact ⟨e, r', he, hr', hrun⟩

/-- A bind that was to leave a given store has succeeded and left it; one that was to leave none has
failed. -/
def Ends (k : Nat) (d : Directory) (planned : Option Store) (out : Except Fault Unit × Realm) : Prop :=
  match planned with
  | some s => out.1 = .ok () ∧ out.2.Serves k d s
  | none => ∃ e, out.1 = .error e

/-- The report at the end changes nothing of how a bind ends. -/
theorem Ends.conclude {planned : Option Store} {talk : Client.Talk (Except Fault Unit)}
    (h : Ends k d planned (r.run talk)) (name : Value) :
    Ends k d planned (r.run (talk.bind (Client.conclude name))) := by
  rw [run_bind]
  cases planned with
  | some s =>
    obtain ⟨hok, hr⟩ := h
    rw [hok]
    exact ⟨rfl, hr.hear Event.logger _⟩
  | none =>
    obtain ⟨e, he⟩ := h
    rw [he]
    exact ⟨e, rfl⟩

/-- The walk of the client is the walk in the store. -/
theorem Serves.run_walk (h : r.Serves k d s) (hd : d.IsUsual) (name v own : Value) (serial : Nat)
    (seg : Segment) (rest : List Segment) :
    Ends k d (s.plant? d v own seg rest)
      (r.run (Client.walk name v (.entry k serial own) seg rest)) := by
  -- Along the segments; a step down leaves a realm that serves the next store.
  induction rest generalizing r s own serial seg with
  | nil =>
    have hname : d.grammar.resolve (.name (.single seg)) = .ok (.single seg) := rfl
    have hbegun := h.hear Event.logger (.bindBegun (.name (.single seg)))
    have hrebind := hbegun.run_rebind hd hname v own serial (α := Except Fault Unit)
    rw [Store.plant?, Client.walk, Client.bindLeaf, run_note]
    cases hs' : s.rebind? d own (.single seg) v with
    | some s' =>
      rw [hs'] at hrebind
      obtain ⟨r', hr', hrun⟩ := hrebind _
      rw [hrun]
      exact ⟨rfl, hr'⟩
    | none =>
      rw [hs'] at hrebind
      obtain ⟨e, r', -, -, hrun⟩ := hrebind _
      rw [hrun]
      exact ⟨_, rfl⟩
  | cons t rest ih =>
    have hdescend := h.run_descend hd name own serial seg
    rw [Store.plant?, Client.walk, run_bind]
    cases hentered : s.enter? d own seg with
    | none =>
      rw [hentered] at hdescend
      obtain ⟨e, r', hrun⟩ := hdescend
      rw [hrun]
      exact ⟨_, rfl⟩
    | some entered =>
      obtain ⟨dn, s'⟩ := entered
      rw [hentered] at hdescend
      obtain ⟨serial', r', hr', hrun⟩ := hdescend
      rw [hrun]
      exact ih hr' (.text dn) serial' t

/-- With the reading of the name before it, the walk of the client is the walk in the store still. -/
theorem Serves.run_walkFrom (h : r.Serves k d s) (hd : d.IsUsual) (name v own : Value) (serial : Nat) :
    Ends k d ((d.grammar.parse name).toOption.bind fun n => s.plant? d v own n.first n.rest)
      (r.run (Client.walkFrom name v (.entry k serial own))) := by
  have hread : Yields (perform d own (.readName name)).run s
      ((d.grammar.parse name).map fun n => .value (.name n)) s := yields_lift _ s
  obtain ⟨r₁, hr₁, hrun⟩ := h.run_ask hread serial _
  rw [Client.walkFrom, hrun]
  cases d.grammar.parse name with
  | error e => exact ⟨_, rfl⟩
  | ok n => exact hr₁.run_walk hd name v own serial n.first n.rest

/-- A bind in a realm is a bind in the store. -/
theorem Serves.bind (h : r.Serves k d s) (hd : d.IsUsual) (name v own : Value) (serial : Nat) :
    Ends k d (s.bind? d own name v) (r.bind name v (.entry k serial own)) := by
  have hbegun := h.hear Event.logger (.bindBegun name)
  rw [Realm.bind, Client.bind, run_note, Store.bind?]
  cases hn : d.grammar.resolve name with
  | error e =>
    -- What cannot be resolved cannot be parsed, so the walk fails as well.
    have hperform : Yields (perform d own (.rebind name v)).run s (.error e) s :=
      (yields_rebind_error hn own v s).op_bind_error _
    obtain ⟨r₁, hr₁, hrun⟩ := hbegun.run_ask hperform serial _
    have hwalk := (hr₁.run_walkFrom hd name v own serial).conclude name
    rw [hrun]
    rw [Name.Grammar.parse_error_of_resolve hn] at hwalk ⊢
    simp only [Realm.receive]
    by_cases he : e.isInterrupt
    · rw [if_pos he]
      exact ⟨e, rfl⟩
    · rw [if_neg he]
      exact hwalk
  | ok n =>
    have hrebind := hbegun.run_rebind hd hn v own serial (α := Except Fault Unit)
    simp only [Except.toOption, Option.bind_some]
    cases hs' : s.rebind? d own n v with
    | some s' =>
      rw [hs'] at hrebind
      obtain ⟨r', hr', hrun⟩ := hrebind _
      rw [hrun]
      exact ⟨rfl, hr'.hear Event.logger _⟩
    | none =>
      rw [hs'] at hrebind
      obtain ⟨e, r', he, hr', hrun⟩ := hrebind _
      rw [hrun]
      simp only [if_neg he]
      exact (hr'.run_walkFrom hd name v own serial).conclude name

/-! ### Lookups

The client fails a lookup with the fault of the node as its cause, and passes everything else on. So it is
enough to know what the store has at the distinguished name. -/

section Lookup

variable {n : Name} {dn text : String} {e : Entry}

/-- A lookup answers what the store has. -/
theorem Serves.lookup (h : r.Serves k d s) (hn : d.grammar.resolve name = .ok n)
    (hdn : entryDn d own n = .ok dn) (serial : Nat) :
    ∃ r' : Realm, (r.lookup name (.entry k serial own)).1 =
      (r'.receive k (s.find d dn n)).1.mapError (Client.failed .lookup .null name) := by
  have hbegun := h.hear Event.logger (.lookupBegun name)
  have hlookup : Yields (perform d own (.lookup name)).run s (s.find d dn n) s :=
    yields_lookup hn hdn s
  obtain ⟨r', -, hrun⟩ := hbegun.run_ask hlookup serial _
  refine ⟨r', ?_⟩
  rw [Realm.lookup, Client.lookup, run_note, hrun]
  cases (r'.receive k (s.find d dn n)).1 with
  | ok v => rfl
  | error e => rfl

/-- A context is brought as a new handle on it. -/
theorem Serves.lookup_of_hasContext (h : r.Serves k d s) (hd : d.IsUsual)
    (hn : d.grammar.resolve name = .ok n) (hdn : entryDn d own n = .ok dn) (hcontext : s.hasContext dn)
    (serial : Nat) :
    ∃ serial', (r.lookup name (.entry k serial own)).1 = .ok (.entry k serial' (.text dn)) := by
  obtain ⟨r', hlookup⟩ := h.lookup hn hdn serial
  rw [hlookup, Store.find_of_hasContext hd hcontext]
  exact ⟨r'.serial, rfl⟩

/-- An entry that is no context is brought as the value that its text is read as. -/
theorem Serves.lookup_of_text (h : r.Serves k d s) (hd : d.IsUsual)
    (hn : d.grammar.resolve name = .ok n) (hdn : entryDn d own n = .ok dn) (he : s.get? dn = some e)
    (hcontext : ¬ e.isContext) (htext : e.get? Entry.description = some [.text text])
    (hread : Json.read text = .ok v) (serial : Nat) :
    (r.lookup name (.entry k serial own)).1 = .ok v := by
  obtain ⟨r', hlookup⟩ := h.lookup hn hdn serial
  rw [hlookup, Store.find_of_text hd he hcontext htext hread]
  rfl

/-- A lookup brings a node iff there is a context. -/
theorem Serves.isNode_lookup_iff (h : r.Serves k d s) (hd : d.IsUsual)
    (hn : d.grammar.resolve name = .ok n) (hdn : entryDn d own n = .ok dn) (serial : Nat) :
    (∃ node, (r.lookup name (.entry k serial own)).1 = .ok node ∧ node.isNode) ↔ s.hasContext dn := by
  constructor
  · rintro ⟨node, hnode, hisNode⟩
    obtain ⟨r', hlookup⟩ := h.lookup hn hdn serial
    rw [hlookup] at hnode
    cases he : s.get? dn with
    | none =>
      rw [Store.find_of_none he] at hnode
      cases hnode
    | some e =>
      rw [Store.hasContext_of_some he]
      refine Decidable.byContradiction fun hcontext => ?_
      rcases Store.find_of_not_isContext hd he hcontext with ⟨v, hv, hplain⟩ | ⟨fault, hfault, -⟩
      · rw [hv] at hnode
        cases hnode
        exact hplain hisNode
      · rw [hfault] at hnode
        cases hnode
  · intro hcontext
    obtain ⟨serial', hlookup⟩ := h.lookup_of_hasContext hd hn hdn hcontext serial
    exact ⟨_, hlookup, rfl⟩

end Lookup

end Realm
end NamingDirectory
