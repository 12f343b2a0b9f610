import NamingDirectory.Proofs.Json.NormalForm
import NamingDirectory.Proofs.Ldap.Serving

/-!
# Values of entries

What becomes of a value that an entry is asked to rebind. If it has a JSON form, it is written as text, into
the entry that is there or into a new one, and the next lookup brings back what it is turned into on its way
through JSON. If it has none, the entry refuses before it opens a connection (`rebind_reads_back`).

Three developments meet here: which values can be written and what they come back as, what an operation does
on a store, and how a realm answers a call on an entry. The store need only have a place for the entry, which
is what the hypothesis on it says.
-/

namespace NamingDirectory

open Ldap

namespace Realm

variable {r : Realm} {k : Nat} {d : Directory} {s s' : Store} {own name v : Value} {n : Name} {dn : String}

/-- Asked once, a node answers what a dialogue that asks it ends in. -/
theorem run_ask_done (request : Request) (r : Realm) :
    r.run (.ask request .done) = r.answer request := rfl

/-- A rebind that a store allows is answered with success, and leaves the store that it makes. -/
theorem Serves.answer_rebind (h : r.Serves k d s) (hd : d.IsUsual) (hn : d.grammar.resolve name = .ok n)
    (hs' : s.rebind? d own n v = some s') (serial : Nat) :
    ∃ r' : Realm, r'.Serves k d s' ∧
      r.answer ⟨.entry k serial own, .rebind name v⟩ = (.ok .null, r') := by
  have hrun := h.run_rebind hd hn v own serial .done
  rw [hs'] at hrun
  exact hrun

/-- A lookup of an entry that holds a value is answered with the value. -/
theorem Serves.answer_lookup (h : r.Serves k d s) (hn : d.grammar.resolve name = .ok n)
    (hdn : entryDn d own n = .ok dn) (hfind : s.find d dn n = .ok (.value v)) (serial : Nat) :
    (r.answer ⟨.entry k serial own, .lookup name⟩).1 = .ok v := by
  have hlookup : Yields (perform d own (.lookup name)).run s (s.find d dn n) s :=
    yields_lookup hn hdn s
  obtain ⟨r', -, hrun⟩ := h.run_ask hlookup serial .done
  rw [run_ask_done] at hrun
  rw [hrun, hfind]
  rfl

end Realm

namespace Ldap

open Realm

/-- The refusal of a value that has no JSON form. -/
def formless (p : Json.Unwritable) (n : Name) : Fault :=
  .refusal .general (.text ("Value is not serializable: " ++ p.message)) (.text n.shown) (some p.fault)

/-- What has no form is refused by the writer, with its own words. -/
theorem encode_of_not_hasForm {v : Value} (hv : ¬ Json.HasForm v) (n : Name) :
    ∃ p, encode v n = .error (formless p n) := by
  unfold encode
  split
  · next text htext => exact absurd (Json.exists_text_iff.mp ⟨text, htext⟩) hv
  · next p _ => exact ⟨p, rfl⟩

/-- A value without a form is refused before anything is asked of the server. -/
theorem operate_rebind_of_not_hasForm {d : Directory} {own name v : Value} {n : Name} {dn : String}
    (hn : d.grammar.resolve name = .ok n) (hdn : entryDn d own n = .ok dn) (hv : ¬ Json.HasForm v)
    (r : Realm) : ∃ p, r.operate (rebind d own name v) = (.error (formless p n), r) := by
  obtain ⟨p, hp⟩ := encode_of_not_hasForm hv n
  refine ⟨p, ?_⟩
  rw [rebind_eq]
  simp only [operate_bind, operate_lift, hn, hdn, hp]

/-- A rebind can be carried out at an entry, and where an entry can be added. -/
theorem rebind?_eq_put {d : Directory} {s : Store} {own v : Value} {n : Name} {dn text : String}
    (hdn : entryDn d own n = .ok dn) (htext : Json.text v = .ok text)
    (hentry : s.has dn ∨ s.hasParent dn) :
    s.rebind? d own n v = some (s.put dn (Entry.rewritten (s.get? dn) n.leaf text)) :=
  Store.rebind?_eq_some_iff.mpr ⟨dn, text, hdn, htext, Store.write?_eq_some_iff.mpr ⟨hentry, rfl⟩⟩

/-- An entry that is asked to rebind a value at a name, where there is no entry but one above, or an entry
that is no context. A value with a JSON form is bound, and the next lookup brings what it is turned into. Any
other value is refused: no connection is opened, and nothing is changed. -/
theorem rebind_reads_back (r : Realm) (k : Nat) (d : Directory) (s : Store) (hr : r.Serves k d s)
    (hd : d.IsUsual) (own name v : Value) (serial : Nat) (n : Name) (dn : String)
    (hn : d.grammar.resolve name = .ok n) (hdn : entryDn d own n = .ok dn)
    (hentry : s.get? dn = none ∧ s.hasParent dn ∨
      ∃ e : Entry, s.get? dn = some e ∧ ¬ e.isContext) :
    let out := r.answer ⟨.entry k serial own, .rebind name v⟩
    let after := out.2.answer ⟨.entry k serial own, .lookup name⟩
    (Json.HasForm v → out.1 = .ok .null ∧ after.1 = .ok (Json.normal v) ∧
        (Json.IsPlain v → Json.Normalises v (Json.normal v))) ∧
      (¬ Json.HasForm v → ∃ p, out = (.error (formless p n), r)) := by
  intro out after
  constructor
  · intro hv
    obtain ⟨text, htext⟩ := Json.exists_text_iff.mpr hv
    have hwritable : s.has dn ∨ s.hasParent dn := by
      rcases hentry with ⟨-, hparent⟩ | ⟨e, he, -⟩
      · exact .inr hparent
      · exact .inl (Store.has_of_some he)
    -- A rebind makes no context, so that the lookup reads the text.
    have hplain : ¬ (Entry.rewritten (s.get? dn) n.leaf text).isContext := by
      rw [Entry.isContext_rewritten]
      rcases hentry with ⟨hnone, -⟩ | ⟨e, he, hcontext⟩
      · rw [hnone]
        exact Bool.false_ne_true
      · rw [he]
        exact hcontext
    obtain ⟨r', hr', hout⟩ := hr.answer_rebind hd hn (rebind?_eq_put hdn htext hwritable) serial
    have hfind := Store.find_of_text (n := n) hd (get?_put_self s dn _) hplain
      (Entry.get?_description_rewritten _ _ text) (Json.read_text htext)
    refine ⟨congrArg Prod.fst hout, ?_, Json.normalises_normal hv⟩
    show (out.2.answer _).1 = _
    rw [show out.2 = r' from congrArg Prod.snd hout]
    exact hr'.answer_lookup hn hdn hfind serial
  · intro hv
    obtain ⟨p, hp⟩ := operate_rebind_of_not_hasForm hn hdn hv r
    refine ⟨p, ?_⟩
    show r.answer _ = _
    simp only [answer, hr.directories, askEntry, hp]
    rfl

/-- A dictionary with two keys that become one, of which the later value is brought back at the place of
the earlier. -/
def collidingValue : Value :=
  .dict [(.int 1, .tuple [.bool true, .text "\x22\n"]), (.null, .int (-5)), (.text "1", .tuple [.null])]

/-- All its parts have a form, though two of its keys have the same text. -/
theorem hasForm_collidingValue : Json.HasForm collidingValue := by
  refine .dict ?keys ?values
  case keys =>
    simp only [List.forall_mem_cons, List.not_mem_nil, false_implies, implies_true, and_true]
    exact ⟨.int (by decide), .null, .text "1"⟩
  case values =>
    simp only [List.forall_mem_cons, List.not_mem_nil, false_implies, implies_true, and_true]
    refine ⟨.tuple ?_, .int (by decide), .tuple ?_⟩
    · simp only [List.forall_mem_cons, List.not_mem_nil, false_implies, implies_true, and_true]
      exact ⟨.bool true, .text _⟩
    · simp only [List.forall_mem_cons, List.not_mem_nil, false_implies, implies_true, and_true]
      exact .null

/-- Two keys that become one are read back as one, and a set is refused. -/
theorem rebind_reads_back_merged :
    let r := plainRealm [("dc=x", [])]
    let own := Value.text "dc=x"
    let out := r.answer ⟨.entry 0 0 own, .rebind (.text "a") collidingValue⟩
    r.Serves 0 plainDirectory [("dc=x", [])] ∧ plainDirectory.IsUsual ∧ out.1 = .ok .null ∧
      (out.2.answer ⟨.entry 0 0 own, .lookup (.text "a")⟩).1 =
        .ok (.dict [(.text "1", .list [.null]), (.text "null", .int (-5))]) ∧
      ∃ e, r.answer ⟨.entry 0 0 own, .rebind (.text "a") (.list [.emptySet])⟩ = (.error e, r) := by
  intro r own out
  have hr : r.Serves 0 plainDirectory [("dc=x", [])] := serves_plainRealm _
  have hd := isUsual_plainDirectory
  have hentry : OrderedMap.get? ([("dc=x", [])] : Store) "cn=a,dc=x" = none ∧
      Store.hasParent [("dc=x", [])] "cn=a,dc=x" := ⟨rfl, by decide +kernel⟩
  have hname : plainDirectory.grammar.resolve (.text "a") = .ok ⟨⟨"a", by decide⟩, []⟩ := by rfl
  have hdn : entryDn plainDirectory own ⟨⟨"a", by decide⟩, []⟩ = .ok "cn=a,dc=x" := by rfl
  have hreads := fun v => rebind_reads_back r 0 plainDirectory [("dc=x", [])] hr hd own (.text "a") v 0
    ⟨⟨"a", by decide⟩, []⟩ "cn=a,dc=x" hname hdn (.inl hentry)
  obtain ⟨hok, hafter, -⟩ := (hreads collidingValue).1 hasForm_collidingValue
  have hnormal : Json.normal collidingValue =
      .dict [(.text "1", .list [.null]), (.text "null", .int (-5))] := by rfl
  rw [hnormal] at hafter
  refine ⟨hr, hd, hok, hafter, ?_⟩
  have hset : ¬ Json.HasForm (.list [.emptySet]) := by
    intro h
    cases h with
    | list hitems => cases hitems .emptySet List.mem_cons_self
  obtain ⟨p, hp⟩ := (hreads (.list [.emptySet])).2 hset
  exact ⟨_, hp⟩

end Ldap
end NamingDirectory
