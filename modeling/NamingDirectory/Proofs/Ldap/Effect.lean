import NamingDirectory.Proofs.Json.RoundTrip
import NamingDirectory.Proofs.Ldap.Serving

/-!
# The effect of a bind

What can be looked up after a bind that succeeded, on a server that answers from a store. At the name
itself it is the value, unless the entry that was there is marked as a context: its text is replaced, and
its mark stays. Above the name there are contexts, unless the text could be written at once: then nobody
looked at what is above, and a lookup there brings whatever it brought before.

`bind_effect` says exactly when a lookup brings a node, and when it brings the value.
`bind_effect_unchecked` shows the two ways in which a bind can succeed and leave a tree that the walk would
not have made: its text can go into an entry that stays a context, and below an entry that holds a value.
-/

namespace NamingDirectory

namespace Ldap

section Effect

variable {r r' : Realm} {k : Nat} {d : Directory} {s s' : Store} {own name v : Value} {n m : Name}
  {tail : List String} {dn text : String}

/-- What was bound is found at the name, in an entry that is no context. -/
theorem Bound.lookup_leaf (hbound : Bound d tail n text s s') (hr' : r'.Serves k d s') (hd : d.IsUsual)
    (htail : tail? own = some tail) (htext : Json.text v = .ok text)
    (hcontext : ¬ s.hasContext (pathDn d tail n.segments)) (hname : d.grammar.resolve name = .ok n)
    (serial : Nat) : (r'.lookup name (.entry k serial own)).1 = .ok (Json.normal v) := by
  have hleaf := hbound.get?_leaf
  refine hr'.lookup_of_text hd hname (entryDn_of_tail? htail n) hleaf ?_
    (Entry.get?_description_rewritten _ _ _) (Json.read_text htext) serial
  rw [← Store.hasContext_of_some hleaf, hbound.hasContext_leaf]
  exact hcontext

/-- What can be looked up after a bind that has succeeded. At its name there is the value, or still the
context that was there; above, there are the contexts that were there, and if the text could not be written
at once, there are contexts everywhere. -/
theorem bind_effect (r : Realm) (k : Nat) (d : Directory) (s : Store) (hr : r.Serves k d s)
    (hd : d.IsUsual) (name v own : Value) (serial : Nat)
    (hbind : (r.bind name v (.entry k serial own)).1 = .ok ()) :
    ∃ n dn text, d.grammar.resolve name = .ok n ∧ entryDn d own n = .ok dn ∧ Json.text v = .ok text ∧
      let after (q : Value) := ((r.bind name v (.entry k serial own)).2.lookup q (.entry k serial own)).1
      (∀ q, d.grammar.resolve q = .ok n →
        if s.hasContext dn then ∃ serial', after q = .ok (.entry k serial' (.text dn))
        else after q = .ok (Json.normal v)) ∧
      ∀ q m dn', d.grammar.resolve q = .ok m → m.IsAbove n → entryDn d own m = .ok dn' →
        ((∃ node, after q = .ok node ∧ node.isNode) ↔
          s.hasContext dn' ∨ ¬ s.has dn ∧ ¬ s.hasParent dn) := by
  -- The bind in the realm is the bind in the store, so it is enough to look at the store that is left.
  have hends := hr.bind hd name v own serial
  cases hs' : s.bind? d own name v with
  | none =>
    rw [hs'] at hends
    obtain ⟨e, he⟩ := hends
    rw [he] at hbind
    cases hbind
  | some s' =>
    rw [hs'] at hends
    obtain ⟨-, hr'⟩ := hends
    obtain ⟨n, tail, text, hn, htail, htext, hbound⟩ := Store.bound_of_bind hs'
    refine ⟨n, pathDn d tail n.segments, text, hn, entryDn_of_tail? htail n, htext, ?_, ?_⟩
    · intro q hq
      split
      · next hcontext =>
        rw [← hbound.hasContext_leaf] at hcontext
        exact hr'.lookup_of_hasContext hd hq (entryDn_of_tail? htail n) hcontext serial
      · next hcontext => exact hbound.lookup_leaf hr' hd htail htext hcontext hq serial
    · rintro q m dn' hq ⟨below, hbelow, hsegments⟩ hdn'
      cases (entryDn_of_tail? htail m).symm.trans hdn'
      rw [hr'.isNode_lookup_iff hd hq (entryDn_of_tail? htail m) serial]
      exact hbound.hasContext_above_iff (List.cons_ne_nil _ _) hbelow hsegments

end Effect

theorem eq_ok_of_isOk {ε : Type} {result : Except ε Unit} (h : result.isOk) : result = .ok () := by
  cases result with
  | error e => cases h
  | ok _ => rfl

/-- A store in which `cn=a,dc=x` has the object classes of a context. -/
def markedStore : Store :=
  [("dc=x", []),
    ("cn=a,dc=x", [(objectClass, [.text "top", .text "container"]), (.text "cn", [.text "a"])])]

/-- Where the context above is missing, a bind adds it, and what it bound is looked up as a list. -/
theorem bind_effect_halfway :
    let r := plainRealm markedStore
    let root := Value.entry 0 0 (.text "dc=x")
    let out := r.bind (.text "a/b/c") (.tuple [.int 1, .null]) root
    r.Serves 0 plainDirectory markedStore ∧ plainDirectory.IsUsual ∧ out.1 = .ok () ∧
      (out.2.lookup (.text "a/b/c") root).1 = .ok (.list [.int 1, .null]) ∧
      ∃ node, (out.2.lookup (.text "a/b") root).1 = .ok node ∧ node.isNode := by
  intro r root out
  have hr : r.Serves 0 plainDirectory markedStore := serves_plainRealm markedStore
  have hbind : out.1 = .ok () := eq_ok_of_isOk (by decide +kernel)
  obtain ⟨n, dn, text, hn, hdn, -, hleaf, habove⟩ :=
    bind_effect r 0 plainDirectory markedStore hr isUsual_plainDirectory (.text "a/b/c")
      (.tuple [.int 1, .null]) (.text "dc=x") 0 hbind
  have hvalue := hleaf (.text "a/b/c") hn
  have hname : plainDirectory.grammar.resolve (.text "a/b/c") =
      .ok ⟨⟨"a", by decide⟩, [⟨"b", by decide⟩, ⟨"c", by decide⟩]⟩ := by rfl
  cases hn.symm.trans hname
  have hentry : entryDn plainDirectory (.text "dc=x")
      ⟨⟨"a", by decide⟩, [⟨"b", by decide⟩, ⟨"c", by decide⟩]⟩ = .ok "cn=c,cn=b,cn=a,dc=x" := by rfl
  cases hdn.symm.trans hentry
  have hunmarked : ¬ markedStore.hasContext "cn=c,cn=b,cn=a,dc=x" := by decide
  rw [if_neg hunmarked] at hvalue
  refine ⟨hr, isUsual_plainDirectory, hbind, hvalue, ?_⟩
  refine (habove (.text "a/b") ⟨⟨"a", by decide⟩, [⟨"b", by decide⟩]⟩ _ rfl ⟨[⟨"c", by decide⟩], ?_, rfl⟩
    rfl).mpr (.inr ⟨?_, ?_⟩)
  · exact List.cons_ne_nil _ _
  · exact Bool.false_ne_true
  · exact Bool.false_ne_true

/-- A store in which `cn=a,dc=x` holds a value. -/
def valueStore : Store :=
  [("dc=x", []),
    ("cn=a,dc=x", [(objectClass, [.text "top", .text "applicationProcess"]),
      (.text "cn", [.text "a"]), (Entry.description, [.text "1"])])]

/-- A bind at a context succeeds, and a lookup still brings the context. A bind below a value succeeds as
well, and a lookup of the name above still brings the value, which is no node. -/
theorem bind_effect_unchecked :
    let root := Value.entry 0 0 (.text "dc=x")
    let outAt := (plainRealm markedStore).bind (.text "a") (.int 1) root
    let outBelow := (plainRealm valueStore).bind (.text "a/b") (.int 2) root
    (outAt.1 = .ok () ∧
      (outAt.2.lookup (.text "a") root).1 = .ok (.entry 0 0 (.text "cn=a,dc=x"))) ∧
    outBelow.1 = .ok () ∧ (outBelow.2.lookup (.text "a") root).1 = .ok (.int 1) :=
  ⟨⟨rfl, rfl⟩, rfl, rfl⟩

end Ldap
end NamingDirectory
