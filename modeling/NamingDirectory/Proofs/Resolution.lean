import NamingDirectory.Proofs.Ldap.Confinement
import NamingDirectory.Proofs.Ldap.Effect
import NamingDirectory.Proofs.Ldap.Likeness
import NamingDirectory.Proofs.Memory.Below

/-!
# Resolution composes

A name may be resolved in two steps: the path above first, and the rest from the context that the path leads
to. `resolution_composes` says that this is the same as one step, for every operation that a provider has on
names and for both providers. That is what lets the client walk down a name one segment at a time.

In memory it comes from following the segments (`Memory.sameButName_parentOf`). In a directory it comes from
the distinguished names: the rest of a name below the entry at the path has the distinguished name of the
whole name (`Ldap.entryDn_append`), and an operation asks the server for nothing else (`Ldap.AsksAlike`). Only
a fault may tell the steps apart, since it is about the name that the operation was given.
-/

namespace NamingDirectory

open Ldap

/-! ### Operations at a name

The operations that a provider has on names, as one type, and what it means that two of them come to the same
up to the name in a fault. -/

/-- What can be done at a name below a node. -/
inductive Deed where
  | lookup
  | rebind (value : Value)
  | createContext
  /-- Only memory contexts can do it. -/
  | unbind

def Deed.run (deed : Deed) (node : Value) (n : Name) (r : Realm) : Answer × Realm :=
  match deed with
  | .lookup => Realm.answer ⟨node, .lookup (.name n)⟩ r
  | .rebind value => Realm.answer ⟨node, .rebind (.name n) value⟩ r
  | .createContext => Realm.answer ⟨node, .createContext (.name n)⟩ r
  | .unbind => r.unbind node (.name n)

/-- The contexts of the two providers: a context of a heap where nothing leads out of the heap and all
contexts have one separator, or an entry of a directory that is served from a store. -/
inductive Realm.Hosts (r : Realm) : Value → Prop
  | context {id : Nat} : id < r.heap.size → r.heap.Closed → r.heap.IsUniform → r.Hosts (.context id)
  | entry {k serial : Nat} {own : Value} {d : Directory} {s : Store} : r.Serves k d s →
      r.Hosts (.entry k serial own)

/-- Whether two nodes are contexts of the same provider. -/
def Value.IsFellow : Value → Value → Prop
  | .context _, .context _ => True
  | .entry .., .entry .. => True
  | _, _ => False

/-- Whether two answers are the same but for the serial number of a handle on an entry, or for the name that a
fault is about. -/
inductive SameAnswer : Answer → Answer → Prop
  | ok (v : Value) : SameAnswer (.ok v) (.ok v)
  | handle (k serial serial' : Nat) (dn : Value) :
      SameAnswer (.ok (.entry k serial dn)) (.ok (.entry k serial' dn))
  | error {e e' : Fault} : e.nameless = e'.nameless → SameAnswer (.error e) (.error e')

/-- Whether two operations give the same answer, and leave the same heap and the same server. -/
structure ComeToTheSame (out out' : Answer × Realm) : Prop where
  answer : SameAnswer out.1 out'.1
  heap : out.2.heap = out'.2.heap
  server : out.2.server = out'.2.server

/-! ### Memory contexts

The context above a leaf is found by following the segments, and following them in two parts is following them
from where the first part ends. -/

namespace Realm

variable {r r' : Realm}

theorem sameAnswer_of_sameButName {answer answer' : Answer} (h : SameButName answer answer') :
    SameAnswer answer answer' := by
  cases h with
  | ok v => exact .ok v
  | error he => exact .error he

theorem withHeap_comesToTheSame {result result' : Except Fault Memory.Heap}
    (h : SameButName result result') (r : Realm) (v : Value) :
    ComeToTheSame (r.withHeap result v) (r.withHeap result' v) := by
  cases h with
  | ok heap => exact ⟨.ok v, rfl, rfl⟩
  | error he => exact ⟨.error he, rfl, rfl⟩

/-- At a context on the way every operation on the rest of a name does what it does on the whole name. The
separators are compared because a context that is created takes its own from the one that it is created from. -/
theorem deed_below_context {id c : Nat} {n above below : Name}
    (hc : r.heap.at? (.context id) above.segments = some (.context c))
    (hn : n.segments = above.segments ++ below.segments)
    (hseparator : (r.heap.context c).separator = (r.heap.context id).separator) (deed : Deed) :
    ComeToTheSame (deed.run (.context c) below r) (deed.run (.context id) n r) := by
  cases deed with
  | lookup => exact ⟨sameAnswer_of_sameButName (Memory.sameButName_lookup hc hn), rfl, rfl⟩
  | rebind value => exact withHeap_comesToTheSame (Memory.sameButName_rebind hc hn value) r _
  | createContext => exact withHeap_comesToTheSame (Memory.sameButName_create hc hn hseparator) r _
  | unbind => exact withHeap_comesToTheSame (Memory.sameButName_unbind hc hn) r _

/-! ### Entries of a directory

A lookup of the path above brings a new handle, whose distinguished name is that of the path. It asks the
server and leaves the store as it was. -/

variable {k serial serial' : Nat} {d : Directory} {s : Store} {own c : Value} {dn : String}
  {n above below : Name}

theorem receive_comesToTheSame {result result' : Except Fault Found} (h : SameButName result result')
    (hheap : r.heap = r'.heap) (hserver : r.server = r'.server) (k : Nat) :
    ComeToTheSame (r.receive k result) (r'.receive k result') := by
  cases h with
  | ok found =>
    cases found with
    | entry dn => exact ⟨.handle k _ _ _, hheap, hserver⟩
    | value v => exact ⟨.ok v, hheap, hserver⟩
  | error he => exact ⟨.error he, hheap, hserver⟩

/-- Operations that ask the same of a server come to the same on one store, even if they are the operations of
different entries. -/
theorem Serves.answers_alike (hr : r.Serves k d s) (hr' : r'.Serves k d s) (hheap : r'.heap = r.heap)
    {own' : Value} {action action' : Action} (h : AsksAlike (perform d own' action') (perform d own action))
    (serial serial' : Nat) :
    ComeToTheSame (Realm.answer ⟨.entry k serial' own', action'⟩ r')
      (Realm.answer ⟨.entry k serial own, action⟩ r) := by
  obtain ⟨hleft, hresult⟩ := h.run reply attend r'
  obtain ⟨hone, hserver⟩ := run_reply_congr (perform d own action).run (hr'.server.trans hr.server.symm)
  simp only [Realm.answer, hr.directories, hr'.directories, askEntry_eq_receive]
  apply receive_comesToTheSame
  · rw [hone] at hresult
    exact hresult
  · rw [heap_operate, heap_operate, hheap]
  · exact (congrArg Realm.server hleft).trans hserver

/-- A lookup is answered with what the store has, and leaves the store alone. -/
theorem Serves.answer_lookup_eq (hr : r.Serves k d s) (serial : Nat) (own : Value) (n : Name) :
    ∃ wire, Realm.answer ⟨.entry k serial own, .lookup (.name n)⟩ r =
      Realm.receive k { r with server := .ofStore s, wire }
        (entryDn d own n >>= fun dn => s.find d dn n) := by
  have hyields : Yields (Ldap.lookup d own (.name n)).run s
      (entryDn d own n >>= fun dn => s.find d dn n) s := by
    cases hdn : entryDn d own n with
    | error e => exact yields_lookup_error rfl hdn s
    | ok dn => exact yields_lookup rfl hdn s
  obtain ⟨wire, hrun⟩ := hyields r hr.server
  refine ⟨wire, ?_⟩
  simp only [Realm.answer, hr.directories, askEntry_eq_receive, operate, perform, hrun]

/-- A lookup that brings an entry brings the one at the distinguished name of the path, in a realm that serves
the store it served before. -/
theorem Serves.lookup_fellow (hr : r.Serves k d s)
    (hc : Realm.answer ⟨.entry k serial own, .lookup (.name n)⟩ r = (.ok c, r'))
    (hfellow : Value.IsFellow (.entry k serial own) c) :
    ∃ serial' dn, c = .entry k serial' (.text dn) ∧ entryDn d own n = .ok dn ∧ r'.Serves k d s ∧
      r'.heap = r.heap ∧ r'.directories = r.directories := by
  obtain ⟨wire, hanswer⟩ := hr.answer_lookup_eq serial own n
  rw [hanswer] at hc
  cases hfound : entryDn d own n >>= fun dn => s.find d dn n with
  | error e =>
    rw [hfound] at hc
    cases hc
  | ok found =>
    rw [hfound] at hc
    obtain ⟨dn, hdn, hfound⟩ := bind_eq_ok_iff.mp hfound
    rcases Store.find_ok hfound with rfl | ⟨v, rfl, hv⟩
    · cases hc
      exact ⟨r.serial, dn, rfl, hdn, ⟨hr.directories, rfl⟩, rfl, rfl⟩
    · -- A value that is no node is no entry either.
      cases hc
      cases c with
      | entry k' serial' dn' => exact absurd rfl hv
      | _ => exact hfellow.elim

/-- At an entry on the way every operation on the rest of a name does what it does on the whole name. -/
theorem Serves.deed_below_entry (hr : r.Serves k d s) (hr' : r'.Serves k d s) (hheap : r'.heap = r.heap)
    (hdn : entryDn d (.text dn) below = entryDn d own n) (hleaf : below.leaf = n.leaf) (deed : Deed)
    (serial serial' : Nat) :
    ComeToTheSame (deed.run (.entry k serial' (.text dn)) below r') (deed.run (.entry k serial own) n r) := by
  -- Both operations are carried out in the style of the directory itself.
  let styled := d.styled d.settings.nameStyle
  cases deed with
  | lookup =>
    refine hr.answers_alike hr' hheap ?_ serial serial'
    change AsksAlike (Ldap.lookup styled _ _) (Ldap.lookup styled _ _)
    exact asksAlike_lookup hdn
  | rebind value =>
    refine hr.answers_alike hr' hheap ?_ serial serial'
    refine AsksAlike.bind ?_ fun _ => asksAlike_refl _
    change AsksAlike (Ldap.rebind styled _ _ _) (Ldap.rebind styled _ _ _)
    exact asksAlike_rebind hdn (leafAttributes_congr hleaf d)
  | createContext =>
    refine hr.answers_alike hr' hheap ?_ serial serial'
    refine AsksAlike.bind ?_ fun _ => asksAlike_refl _
    change AsksAlike (Ldap.createContext styled _ _) (Ldap.createContext styled _ _)
    exact asksAlike_createContext hdn (contextAttributes_congr hleaf d)
  | unbind => exact ⟨.error rfl, hheap, hr'.server.trans hr.server.symm⟩

end Realm

/-! ### Two steps

The two providers are put together. In either case it is not known what the operation is, only that it is
carried out at the place of the name. -/

/-- A name that is cut between two of its segments gives two names. -/
theorem Name.exists_take_drop {n : Name} {k : Nat} (hk : 0 < k) (hlength : k < n.length) :
    ∃ above below, n.take k = .ok above ∧ n.drop k = .ok below ∧
      n.segments = above.segments ++ below.segments := by
  have hbound : bound n.length k = k := by
    simp only [bound, place]
    omega
  have habove : n.segments.take k ≠ [] := by
    rw [Ne, List.take_eq_nil_iff]
    exact not_or.mpr ⟨hk.ne', List.cons_ne_nil _ _⟩
  have hbelow : n.segments.drop k ≠ [] := by
    rw [Ne, List.drop_eq_nil_iff]
    exact Nat.not_le_of_lt hlength
  obtain ⟨s, rest, hs⟩ := List.exists_cons_of_ne_nil habove
  obtain ⟨t, rest', ht⟩ := List.exists_cons_of_ne_nil hbelow
  refine ⟨⟨s, rest⟩, ⟨t, rest'⟩, ?_, ?_, ?_⟩
  · rw [take, take?, hbound, hs]
    rfl
  · rw [drop, drop?, hbound, ht]
    rfl
  · have hboth := List.take_append_drop k n.segments
    rw [hs, ht] at hboth
    exact hboth.symm

/-- If the first segments of a name lead to a context of the same provider, every operation on the other
segments comes to the same there as the operation on the whole name at the start: the same answer or a fault
that differs at most in its name, the same heap and the same store. In a directory both stand for one
distinguished name. -/
theorem resolution_composes (r : Realm) (node : Value) (hnode : r.Hosts node) (n : Name) (k : Nat)
    (hk : 0 < k) (hlength : k < n.length) :
    ∃ above below, n.take k = .ok above ∧ n.drop k = .ok below ∧
      ∀ c r', Realm.answer ⟨node, .lookup (.name above)⟩ r = (.ok c, r') → node.IsFellow c →
        r'.dnOf c (.name below) = r.dnOf node (.name n) ∧
        ∀ deed : Deed, ComeToTheSame (deed.run c below r') (deed.run node n r) := by
  obtain ⟨above, below, habove, hbelow, hn⟩ := Name.exists_take_drop hk hlength
  refine ⟨above, below, habove, hbelow, fun c r' hlookup hfellow => ?_⟩
  cases hnode with
  | @context id hid hclosed huniform =>
    cases c with
    | context c =>
      -- The way to a context is the start of the way to what is below it.
      obtain ⟨hok, rfl⟩ := Prod.mk.inj hlookup
      obtain ⟨m, hm, hat⟩ := Memory.at?_of_lookup hok
      cases hm
      refine ⟨rfl, Realm.deed_below_context hat hn ?_⟩
      exact huniform id hid c (hclosed.lt_size_of_at? hid hat)
    | _ => exact hfellow.elim
  | @entry directory serial own d s hr =>
    -- Both distinguished names are made of the same relative names, whichever entry they are counted from.
    obtain ⟨serial', dn, rfl, hdn, hr', hheap, hdirectories⟩ := hr.lookup_fellow hlookup hfellow
    have hwhole : entryDn d (.text dn) below = entryDn d own n := entryDn_append hn hdn
    refine ⟨?_, fun deed => ?_⟩
    · simp only [Realm.dnOf, Realm.directoryOf, hdirectories, hr.directories]
      exact congrArg (fun dn => dn.map Value.text) hwhole
    · exact hr.deed_below_entry hr' hheap hwhole (Name.leaf_of_segments hn).symm deed serial serial'

/-- Two contexts that lead to each other. -/
def Memory.Heap.circle : Memory.Heap :=
  ⟨[⟨.slash, [(⟨"down", by decide⟩, .context 1)]⟩,
    ⟨.slash, [(⟨"back", by decide⟩, .context 0)]⟩]⟩

theorem Memory.Heap.closed_circle : circle.Closed := by
  intro id s c hv
  obtain ⟨context, hcontext, hmem⟩ := mem_of_get? hv
  simp only [circle, List.mem_cons, List.not_mem_nil, or_false] at hcontext
  rcases hcontext with rfl | rfl <;> cases List.mem_singleton.mp hmem <;> decide

theorem Memory.Heap.isUniform_circle : circle.IsUniform := by
  unfold IsUniform
  decide

/-- Around a circle of contexts, and down two entries of a directory. -/
theorem resolution_composes_around :
    let r : Realm := { plainRealm markedStore with heap := .circle }
    let down : Segment := ⟨"down", by decide⟩
    let back : Segment := ⟨"back", by decide⟩
    let a : Segment := ⟨"a", by decide⟩
    (r.Hosts (.context 0) ∧
      Realm.answer ⟨.context 0, .lookup (.name ⟨down, [back, down]⟩)⟩ r = (.ok (.context 1), r) ∧
      ∀ deed : Deed, ComeToTheSame (deed.run (.context 1) (.single a) r)
        (deed.run (.context 0) ⟨down, [back, down, a]⟩ r)) ∧
    r.Hosts (.entry 0 5 (.text "dc=x")) ∧
      ∃ r', Realm.answer ⟨.entry 0 5 (.text "dc=x"), .lookup (.name (.single a))⟩ r =
          (.ok (.entry 0 0 (.text "cn=a,dc=x")), r') ∧
        r'.dnOf (.entry 0 0 (.text "cn=a,dc=x")) (.name (.single back)) = .ok (.text "cn=back,cn=a,dc=x") ∧
        ∀ deed : Deed, ComeToTheSame (deed.run (.entry 0 0 (.text "cn=a,dc=x")) (.single back) r')
          (deed.run (.entry 0 5 (.text "dc=x")) ⟨a, [back]⟩ r) := by
  intro r down back a
  have hcontext : r.Hosts (.context 0) :=
    .context (by decide) Memory.Heap.closed_circle Memory.Heap.isUniform_circle
  have hr : r.Serves 0 plainDirectory markedStore := ⟨rfl, rfl⟩
  have hentry : r.Hosts (.entry 0 5 (.text "dc=x")) := .entry hr
  have hlookup : Realm.answer ⟨.context 0, .lookup (.name ⟨down, [back, down]⟩)⟩ r =
      (.ok (.context 1), r) := rfl
  obtain ⟨r', hlookup'⟩ : ∃ r',
      Realm.answer ⟨.entry 0 5 (.text "dc=x"), .lookup (.name (.single a))⟩ r =
        (.ok (.entry 0 0 (.text "cn=a,dc=x")), r') := by
    obtain ⟨wire, hanswer⟩ := hr.answer_lookup_eq 5 (.text "dc=x") (.single a)
    have hpath : pathDn plainDirectory ["dc=x"] [a] = "cn=a,dc=x" := by decide +kernel
    have hdn : entryDn plainDirectory (.text "dc=x") (.single a) = .ok "cn=a,dc=x" :=
      hpath ▸ entryDn_of_tail? rfl (.single a)
    have hfind : markedStore.find plainDirectory "cn=a,dc=x" (.single a) = .ok (.entry "cn=a,dc=x") :=
      Store.find_of_hasContext isUsual_plainDirectory (by decide)
    rw [hdn] at hanswer
    exact ⟨_, hanswer.trans (congrArg (Realm.receive 0 _) hfind)⟩
  refine ⟨⟨hcontext, hlookup, ?_⟩, hentry, r', hlookup', ?_⟩
  · obtain ⟨above, below, habove, hbelow, hsame⟩ :=
      resolution_composes r (.context 0) hcontext ⟨down, [back, down, a]⟩ 3 (by decide) (by decide)
    cases habove
    cases hbelow
    exact (hsame _ _ hlookup trivial).2
  · obtain ⟨above, below, habove, hbelow, hsame⟩ :=
      resolution_composes r (.entry 0 5 (.text "dc=x")) hentry ⟨a, [back]⟩ 1 (by decide) (by decide)
    cases habove
    cases hbelow
    obtain ⟨hdn, hdeeds⟩ := hsame _ _ hlookup' trivial
    have hpath : pathDn plainDirectory ["dc=x"] [a, back] = "cn=back,cn=a,dc=x" := by decide +kernel
    have hwhole : entryDn plainDirectory (.text "dc=x") ⟨a, [back]⟩ = .ok "cn=back,cn=a,dc=x" :=
      hpath ▸ entryDn_of_tail? rfl ⟨a, [back]⟩
    refine ⟨hdn.trans ?_, hdeeds⟩
    simp only [Realm.dnOf, Realm.directoryOf, hr.directories]
    exact congrArg (fun dn => dn.map Value.text) hwhole

end NamingDirectory
