import NamingDirectory.Proofs.Ldap.DistinguishedName
import NamingDirectory.Proofs.Ldap.Line
import NamingDirectory.Proofs.Ldap.Operation

/-!
# What a bind may write

A bind writes to a directory in three ways: it replaces the value at its name, it adds the entry at its name,
and it adds contexts above. `bind_writes_confined` says which of these it may ask for, and when: an entry is
added at the name only right after the server said that there is none, and above the name only after a search
for just that entry found nothing. A search that fails for any other reason is the last request but for the
upkeep of its session.

The entry at the name is addressed in two ways, from the root and from the contexts that the walk went
through. Both are the same distinguished name, since names compose (`entryDn_append`); where the walk stands
is kept in `Stands`.

All of this is about the line to the server and holds whatever is at its other end. By `Realm.run_eq_line`,
running a bind in a realm is running that line.

A write is warranted by what is right before it, or by what is between it and an earlier search, so `Confined`
is put together from the parts of a course by one rule:

    Confined t,  Settled t,  Confined t'   →   Confined (t ++ t').

The walk is followed level by level (`course_line_walk`). What carries the induction is that the search of a
level is settled if the walk goes on, and that it then stands one segment further down.
-/

namespace NamingDirectory.Ldap

open Dialogue

/-! ### Warranted writes

`Warranted` is about one write and what was exchanged before it. `Confined` says it of each write of a course.
What warrants an addition is close to it, the last reply or a search with nothing but upkeep in between. So it
goes on to be warranted when more is put before the course, as long as no search has failed there. -/

def Request.isWrite : Request → Bool
  | .modify .. | .add .. => true
  | _ => false

/-- The writes that a bind of a value at a name may ask for, after a given course of its exchanges. -/
inductive Warranted (d : Directory) (own : Value) (n : Name) (value : Value) (before : List Exchange) :
    Request → Prop
  /-- The value of the entry at the name is replaced. -/
  | replace {dn text : String} : entryDn d own n = .ok dn → Json.text value = .ok text →
      Warranted d own n value before (.modify dn d.settings.valueAttribute text)
  /-- An entry is added at the name, right after the server said that there is none. -/
  | addLeaf {dn text : String} {attributes : Attributes} {earlier : List Exchange} {reply : Reply} :
      entryDn d own n = .ok dn → Json.text value = .ok text → leafAttributes d n text = .ok attributes →
      before = earlier ++ [.call (.modify dn d.settings.valueAttribute text) reply] → reply.Denies →
      Warranted d own n value before (.add dn attributes)
  /-- A context is added above the name, after a search for just that entry found nothing. -/
  | addAbove {m : Name} {below : List Segment} {dn : String} {attributes : Attributes}
      {earlier between : List Exchange} {reply : Reply} :
      n.segments = m.segments ++ below → below ≠ [] → entryDn d own m = .ok dn →
      entryDn d own n ≠ .ok dn → contextAttributes d m = .ok attributes →
      before = earlier ++ .call (inquiry d dn) reply :: between → reply.FindsNothing →
      IsUpkeep between → Warranted d own n value before (.add dn attributes)

/-- No search failed but for the reason that there is no such entry. -/
def Settled (t : List Exchange) : Prop :=
  ∀ dn names reply, .call (.search dn names) reply ∈ t → reply.FindsNothing ∨ reply.Agrees

/-- Every write of a course is warranted by what comes before it, where no search has failed. -/
def Confined (d : Directory) (own : Value) (n : Name) (value : Value) (t : List Exchange) : Prop :=
  ∀ before request reply after, t = before ++ .call request reply :: after → request.isWrite →
    Warranted d own n value before request ∧ Settled before

section Confined

variable {d : Directory} {own value : Value} {n : Name} {before t t' : List Exchange} {request : Request}

/-- What warrants a write is not undone by what came earlier still. -/
theorem Warranted.after (h : Warranted d own n value before request) (t : List Exchange) :
    Warranted d own n value (t ++ before) request := by
  cases h with
  | replace hdn htext => exact .replace hdn htext
  | addLeaf hdn htext hattributes hbefore hdenied =>
    exact .addLeaf hdn htext hattributes (by rw [hbefore, List.append_assoc]) hdenied
  | addAbove hn hbelow hdn hne hattributes hbefore hnothing hbetween =>
    exact .addAbove hn hbelow hdn hne hattributes (by rw [hbefore, List.append_assoc]) hnothing hbetween

theorem settled_append_iff : Settled (t ++ t') ↔ Settled t ∧ Settled t' := by
  simp only [Settled, List.mem_append, or_imp, forall_and]

theorem settled_of_isUpkeep (h : IsUpkeep t) : Settled t := by
  intro dn names reply hmem
  cases h _ hmem

theorem settled_singleton {reply : Reply} (h : reply.FindsNothing ∨ reply.Agrees) :
    Settled [.call request reply] := by
  intro dn names reply' hmem
  cases List.mem_singleton.mp hmem
  exact h

theorem settled_of_isWrite {reply : Reply} (h : request.isWrite) : Settled [.call request reply] := by
  intro dn names reply' hmem
  cases List.mem_singleton.mp hmem
  cases h

theorem not_isWrite_of_isUpkeep {reply : Reply} (h : isUpkeep (.call request reply)) :
    ¬ request.isWrite := by
  cases request with
  | modify => cases h
  | add => cases h
  | _ => exact Bool.false_ne_true

theorem confined_of_not_isWrite (h : ∀ request reply, .call request reply ∈ t → ¬ request.isWrite) :
    Confined d own n value t := by
  rintro before request reply after rfl hwrite
  exact absurd hwrite (h request reply (by simp))

theorem confined_of_isUpkeep (h : IsUpkeep t) : Confined d own n value t :=
  confined_of_not_isWrite fun _ _ hmem => not_isWrite_of_isUpkeep (h _ hmem)

/-- A part that comes after a settled one may write what it might by itself. -/
theorem Confined.append (h : Confined d own n value t) (hsettled : Settled t)
    (h' : Confined d own n value t') : Confined d own n value (t ++ t') := by
  intro before request reply after heq hwrite
  rcases append_eq_append_call heq with ⟨after', rfl⟩ | ⟨before', rfl, rfl⟩
  · exact h before request reply after' rfl hwrite
  · obtain ⟨hwarranted, hsettled'⟩ := h' before' request reply after rfl hwrite
    exact ⟨hwarranted.after t, settled_append_iff.mpr ⟨hsettled, hsettled'⟩⟩

/-- A warranted write may come next. -/
theorem Confined.write {reply : Reply} (h : Confined d own n value t) (hsettled : Settled t)
    (hwarranted : Warranted d own n value t request) :
    Confined d own n value (t ++ [.call request reply]) := by
  intro before request' reply' after heq hwrite
  rcases append_eq_append_call heq with ⟨after', rfl⟩ | ⟨before', rfl, hlast⟩
  · exact h before request' reply' after' rfl hwrite
  · rcases List.singleton_eq_append_iff.mp hlast with ⟨rfl, hlast⟩ | ⟨-, hnil⟩
    · cases hlast
      rw [List.append_nil]
      exact ⟨hwarranted, hsettled⟩
    · cases hnil

end Confined

/-! ### The writes of a rebind

A rebind at the root and one at the end of a walk address the same entry. Either replaces the value of that
entry, which needs nothing else, or adds it after the reply to just that. -/

/-- A node that the walk down a name can be at: the entry at a path from the root. -/
def Stands (d : Directory) (own : Value) (passed : List Segment) (node : Value) : Prop :=
  passed = [] ∧ node = own ∨
    ∃ m dn, m.segments = passed ∧ entryDn d own m = .ok dn ∧ node = .text dn

/-- The rest of a name leads from where the walk stands to the entry that the whole name leads to. -/
theorem Stands.entryDn_eq {d : Directory} {own node : Value} {passed : List Segment} {n q : Name}
    (h : Stands d own passed node) (hn : n.segments = passed ++ q.segments) :
    entryDn d node q = entryDn d own n := by
  rcases h with ⟨rfl, rfl⟩ | ⟨m, dn, rfl, hdn, rfl⟩
  · rw [Name.segments_injective (n := n) (m := q) (by simpa using hn)]
  · exact entryDn_append hn hdn

/-- The attributes of a new entry are told by its leaf. -/
theorem leafAttributes_congr {n m : Name} (h : n.leaf = m.leaf) (d : Directory) (text : String) :
    leafAttributes d n text = leafAttributes d m text := by
  rw [leafAttributes, leafAttributes, h]

theorem contextAttributes_congr {n m : Name} (h : n.leaf = m.leaf) (d : Directory) :
    contextAttributes d n = contextAttributes d m := by
  rw [contextAttributes, contextAttributes, h]

section Steps

variable {d : Directory} {own node name value : Value} {passed : List Segment} {n q : Name}
  {t : List Exchange}

theorem Written.settled (h : Written d node name value t) : Settled t := by
  cases h with
  | unasked hupkeep => exact settled_of_isUpkeep hupkeep
  | replaced _ _ _ h₁ h₂ =>
    rw [List.append_cons]
    exact settled_append_iff.mpr ⟨settled_append_iff.mpr
      ⟨settled_of_isUpkeep h₁, settled_of_isWrite rfl⟩, settled_of_isUpkeep h₂⟩
  | added _ _ _ h₁ h₂ _ _ =>
    rw [List.append_cons, List.append_cons]
    exact settled_append_iff.mpr ⟨settled_append_iff.mpr ⟨settled_append_iff.mpr
      ⟨settled_of_isUpkeep h₁, settled_of_isWrite rfl⟩, settled_of_isWrite rfl⟩,
        settled_of_isUpkeep h₂⟩

/-- A rebind of what is no name does not get as far as writing. -/
theorem Written.isUpkeep_of_unreadable {e : Fault} (h : Written d node name value t)
    (hname : d.grammar.resolve name = .error e) : IsUpkeep t := by
  cases h with
  | unasked hupkeep => exact hupkeep
  | replaced hq => cases hname.symm.trans hq
  | added hq => cases hname.symm.trans hq

/-- A rebind of the rest of a name writes what a bind of the name may write. -/
theorem Written.confined (h : Written d node name value t) (hnode : Stands d own passed node)
    (hq : d.grammar.resolve name = .ok q) (hn : n.segments = passed ++ q.segments)
    (hleaf : n.leaf = q.leaf) : Confined d own n value t := by
  cases h with
  | unasked hupkeep => exact confined_of_isUpkeep hupkeep
  | @replaced q' dn text t₁ t₂ reply hq' hdn htext h₁ h₂ =>
    cases hq.symm.trans hq'
    rw [hnode.entryDn_eq hn] at hdn
    rw [List.append_cons]
    refine Confined.append ?_ ?_ (confined_of_isUpkeep h₂)
    · exact (confined_of_isUpkeep h₁).write (settled_of_isUpkeep h₁) (.replace hdn htext)
    · exact settled_append_iff.mpr ⟨settled_of_isUpkeep h₁, settled_of_isWrite rfl⟩
  | @added q' dn text t₁ t₂ reply reply' attributes hq' hdn htext h₁ h₂ hdenied hattributes =>
    cases hq.symm.trans hq'
    rw [hnode.entryDn_eq hn] at hdn
    rw [← leafAttributes_congr hleaf] at hattributes
    rw [List.append_cons, List.append_cons]
    have hmodified : Settled (t₁ ++ [.call (.modify dn d.settings.valueAttribute text) reply]) :=
      settled_append_iff.mpr ⟨settled_of_isUpkeep h₁, settled_of_isWrite rfl⟩
    refine Confined.append ?_ ?_ (confined_of_isUpkeep h₂)
    · refine Confined.write ?_ hmodified (.addLeaf hdn htext hattributes rfl hdenied)
      exact (confined_of_isUpkeep h₁).write (settled_of_isUpkeep h₁) (.replace hdn htext)
    · exact settled_append_iff.mpr ⟨hmodified, settled_of_isWrite rfl⟩

theorem Sought.confined {result : Except Fault Found} (h : Sought d node q t result) :
    Confined d own n value t := by
  cases h with
  | unasked hupkeep _ => exact confined_of_isUpkeep hupkeep
  | asked _ h₁ h₂ _ =>
    refine confined_of_not_isWrite fun request reply' hmem => ?_
    rcases List.mem_append.mp hmem with hmem | hmem
    · exact not_isWrite_of_isUpkeep (h₁ _ hmem)
    · rcases List.mem_cons.mp hmem with hmem | hmem
      · cases hmem
        exact Bool.false_ne_true
      · exact not_isWrite_of_isUpkeep (h₂ _ hmem)

end Steps

/-! ### The writes of a walk

From one level to the walk and the whole bind, on the line to the server. A level asks for an entry and, if
there is none, for a context in its place: the search is what warrants the addition, and it is not the
rebind's. The attempt that comes first and the recovery after it are put together by the rule for parts. -/

/-- The path that leads on from a path by one more segment is a name. -/
theorem exists_segments_eq (p : List Segment) (s : Segment) : ∃ n : Name, n.segments = p ++ [s] := by
  cases p with
  | nil => exact ⟨.single s, rfl⟩
  | cons t p => exact ⟨⟨t, p ++ [s]⟩, rfl⟩

section Walk

variable {d : Directory} {own node name value : Value} {passed below : List Segment} {s : Segment}
  {n m : Name} {t : List Exchange} {k serial : Nat} {r r' : Realm} {dn : String}

/-- The name of an entry above is another one. -/
theorem entryDn_ne (hn : n.segments = m.segments ++ below) (hbelow : below ≠ [])
    (hm : entryDn d own m = .ok dn) : entryDn d own n ≠ .ok dn := by
  obtain ⟨tail, htail, rfl⟩ := entryDn_eq_ok_iff.mp hm
  rw [entryDn_of_tail? htail, hn]
  exact fun heq => pathDn_ne_append hbelow (Except.ok.inj heq).symm

/-- A call on an entry takes a course of its operation, and the line goes on from what the realm makes of its
end. -/
theorem course_line_ask_iff {α : Type} {action : Action} {next : Answer → Client.Talk α} {out : α × Realm}
    (hd : r.directories[k]? = some d) :
    Course (r.line (.ask ⟨.entry k serial node, action⟩ next)) t out ↔
      ∃ t₁ result t₂, Course (Realm.perform d node action).run t₁ result ∧
        Course ((r.receive k result).2.line (next (r.receive k result).1)) t₂ out ∧ t = t₁ ++ t₂ := by
  rw [Realm.line_ask_entry hd]
  exact Dialogue.course_bind_iff

theorem settled_search {t₁ t₂ : List Exchange} {reply : Reply} (h₁ : IsUpkeep t₁) (h₂ : IsUpkeep t₂)
    (h : reply.FindsNothing ∨ reply.Agrees) : Settled (t₁ ++ .call (inquiry d dn) reply :: t₂) := by
  rw [List.append_cons]
  exact settled_append_iff.mpr ⟨settled_append_iff.mpr ⟨settled_of_isUpkeep h₁, settled_singleton h⟩,
    settled_of_isUpkeep h₂⟩

/-- After a search that found nothing, the creation of a context there is what a bind may write. -/
theorem Created.confined {t₁ t₂ : List Exchange} {reply : Reply} {result : Except Fault String}
    (h : Created d node (.single s) t result) (hnode : Stands d own passed node)
    (hn : n.segments = passed ++ s :: below) (hbelow : below ≠ [])
    (hdn : entryDn d node (.single s) = .ok dn) (h₁ : IsUpkeep t₁) (h₂ : IsUpkeep t₂)
    (hnothing : reply.FindsNothing) :
    Confined d own n value (t₁ ++ .call (inquiry d dn) reply :: t₂ ++ t) ∧
      ∀ dn', result = .ok dn' → dn' = dn ∧ Settled (t₁ ++ .call (inquiry d dn) reply :: t₂ ++ t) := by
  obtain ⟨m, hm⟩ : ∃ m : Name, m.segments = passed ++ [s] := exists_segments_eq passed s
  have hmdn : entryDn d own m = .ok dn := (hnode.entryDn_eq hm).symm.trans hdn
  have hnm : n.segments = m.segments ++ below := by
    rw [hn, hm]
    simp
  have hsearch : Settled (t₁ ++ .call (inquiry d dn) reply :: t₂) := settled_search h₁ h₂ (.inl hnothing)
  have hsought : Sought d node (.single s) (t₁ ++ .call (inquiry d dn) reply :: t₂)
      (.error (noEntry dn m)) := .asked hdn h₁ h₂ ⟨.inl hnothing, nofun⟩
  have hunwritten : Confined d own n value (t₁ ++ .call (inquiry d dn) reply :: t₂) := hsought.confined
  cases h with
  | unasked hupkeep =>
    exact ⟨hunwritten.append hsearch (confined_of_isUpkeep hupkeep), nofun⟩
  | @asked t₃ t₄ dn' attributes reply' _ hdn' hattributes h₃ h₄ hresult =>
    cases hdn.symm.trans hdn'
    rw [← contextAttributes_congr (Name.leaf_of_segments hm)] at hattributes
    have hbefore : Settled (t₁ ++ .call (inquiry d dn) reply :: t₂ ++ t₃) :=
      settled_append_iff.mpr ⟨hsearch, settled_of_isUpkeep h₃⟩
    have hafter : t₁ ++ .call (inquiry d dn) reply :: t₂ ++ t₃ =
        t₁ ++ .call (inquiry d dn) reply :: (t₂ ++ t₃) := List.append_assoc _ _ _
    have hwarranted : Warranted d own n value (t₁ ++ .call (inquiry d dn) reply :: t₂ ++ t₃)
        (.add dn attributes) :=
      .addAbove hnm hbelow hmdn (entryDn_ne hnm hbelow hmdn) hattributes hafter hnothing
        (isUpkeep_append_iff.mpr ⟨h₂, h₃⟩)
    have hadded : Confined d own n value
        (t₁ ++ .call (inquiry d dn) reply :: t₂ ++ t₃ ++ [.call (.add dn attributes) reply']) :=
      (hunwritten.append hsearch (confined_of_isUpkeep h₃)).write hbefore hwarranted
    have hsettled : Settled
        (t₁ ++ .call (inquiry d dn) reply :: t₂ ++ t₃ ++ [.call (.add dn attributes) reply']) :=
      settled_append_iff.mpr ⟨hbefore, settled_of_isWrite rfl⟩
    rw [← List.append_assoc, List.append_cons _ _ t₄]
    refine ⟨hadded.append hsettled (confined_of_isUpkeep h₄), fun dn' hok => ?_⟩
    exact ⟨hresult dn' hok, settled_append_iff.mpr ⟨hsettled, settled_of_isUpkeep h₄⟩⟩

theorem course_perform_createContext {result : Except Fault Found}
    (h : Course (Realm.perform d node (.createContext (.name (.single s)))).run t result)
    (ht : Unrefused t) :
    ∃ created, Created d node (.single s) t created ∧ result = created.map Found.entry := by
  rcases course_bind_iff.mp h with ⟨e, hcreate, rfl⟩ | ⟨t₁, dn, t₂, hcreate, hend, rfl⟩
  · exact ⟨.error e, course_createContext hcreate ht, rfl⟩
  · obtain ⟨rfl, rfl⟩ := course_done_iff.mp hend
    rw [List.append_nil] at ht ⊢
    exact ⟨.ok dn, course_createContext hcreate ht, rfl⟩

theorem course_perform_rebind {result : Except Fault Found}
    (h : Course (Realm.perform d node (.rebind name value)).run t result) (ht : Unrefused t) :
    Written d node name value t := by
  rcases course_bind_iff.mp h with ⟨e, hrebind, rfl⟩ | ⟨t₁, a, t₂, hrebind, hend, rfl⟩
  · exact course_rebind hrebind ht
  · obtain ⟨rfl, rfl⟩ := course_done_iff.mp hend
    rw [List.append_nil] at ht ⊢
    exact course_rebind hrebind ht

/-- One level: it writes what a bind may write, and if it leads on, its searches have not failed and the walk
stands at the child. -/
theorem course_line_descend {answer : Answer} (hd : r.directories[k]? = some d)
    (h : Course (r.line (Client.descend name (.entry k serial node) s)) t (answer, r'))
    (ht : Unrefused t) (hnode : Stands d own passed node) (hn : n.segments = passed ++ s :: below)
    (hbelow : below ≠ []) :
    Confined d own n value t ∧ r'.directories = r.directories ∧
      ∀ child, answer = .ok child → Settled t ∧
        ∃ serial' node', child = .entry k serial' node' ∧ Stands d own (passed ++ [s]) node' := by
  rw [Client.descend, Realm.line_note] at h
  obtain ⟨t₁, result, t₂, hlookup, hrest, rfl⟩ :=
    (course_line_ask_iff (by exact hd)).mp h
  obtain ⟨ht₁, ht₂⟩ := unrefused_append_iff.mp ht
  have hsought : Sought d node (.single s) t₁ result := course_lookup hlookup ht₁
  have hstands : ∀ dn, entryDn d node (.single s) = .ok dn → Stands d own (passed ++ [s]) (.text dn) := by
    intro dn hdn
    obtain ⟨m, hm⟩ := exists_segments_eq passed s
    exact .inr ⟨m, dn, hm, (hnode.entryDn_eq hm).symm.trans hdn, rfl⟩
  have hconfined : Confined d own n value t₁ := hsought.confined
  cases hsought with
  | @unasked _ e hupkeep he =>
    -- A lookup that did not search ends the walk: its fault does not say that nothing is there.
    simp only [Realm.receive, he, Bool.false_eq_true, if_false] at hrest
    obtain ⟨rfl, hout⟩ := course_done_iff.mp hrest
    cases hout
    rw [List.append_nil]
    exact ⟨hconfined, rfl, nofun⟩
  | @asked t₁ t₃ dn reply result hdn h₁ h₃ htells =>
    cases result with
    | ok found =>
      obtain ⟨hagrees, rfl | ⟨v, rfl, hv⟩⟩ := htells.something _ rfl
      · -- The segment leads to an entry that is a context.
        obtain ⟨rfl, hout⟩ := course_done_iff.mp hrest
        cases hout
        rw [List.append_nil]
        refine ⟨hconfined, rfl, fun child hchild => ?_⟩
        cases hchild
        exact ⟨settled_search h₁ h₃ (.inr hagrees), _, _, rfl, hstands dn hdn⟩
      · -- It leads to a value, which is in the way.
        simp only [Realm.receive, hv, Bool.false_eq_true, if_false] at hrest
        obtain ⟨rfl, hout⟩ := course_done_iff.mp hrest
        cases hout
        rw [List.append_nil]
        exact ⟨hconfined, rfl, nofun⟩
    | error e =>
      by_cases he : e.isNotFound
      · -- The search found nothing, and this is what warrants the creation.
        have hnothing : reply.FindsNothing := htells.nothing.resolve_right fun h => h e rfl he
        simp only [Realm.receive, he, if_true, Realm.line_note] at hrest
        obtain ⟨t₄, created, t₅, hcreation, hend, rfl⟩ := (course_line_ask_iff (by exact hd)).mp hrest
        obtain ⟨ht₄, -⟩ := unrefused_append_iff.mp ht₂
        obtain ⟨result, hcreated, hresult⟩ := course_perform_createContext hcreation ht₄
        obtain ⟨hwritten, hchild⟩ : Confined d own n value _ ∧ _ :=
          hcreated.confined hnode hn hbelow hdn h₁ h₃ hnothing
        cases result with
        | error e' =>
          cases hresult
          obtain ⟨rfl, hout⟩ := course_done_iff.mp hend
          cases hout
          rw [List.append_nil]
          exact ⟨hwritten, rfl, nofun⟩
        | ok dn' =>
          cases hresult
          obtain ⟨rfl, hsettled⟩ := hchild dn' rfl
          obtain ⟨rfl, hout⟩ := course_done_iff.mp hend
          cases hout
          rw [List.append_nil]
          refine ⟨hwritten, rfl, fun child hchild => ?_⟩
          cases hchild
          exact ⟨hsettled, _, _, rfl, hstands _ hdn⟩
      · simp only [Realm.receive, he, Bool.false_eq_true, if_false] at hrest
        obtain ⟨rfl, hout⟩ := course_done_iff.mp hrest
        cases hout
        rw [List.append_nil]
        exact ⟨hconfined, rfl, nofun⟩

/-- The leaf is written by a rebind at the node that the walk has come to. -/
theorem course_line_bindLeaf {leaf : Value} {out : Except Fault Unit × Realm}
    (hd : r.directories[k]? = some d)
    (h : Course (r.line (Client.bindLeaf name value (.entry k serial node) leaf)) t out)
    (ht : Unrefused t) : Written d node leaf value t := by
  rw [Client.bindLeaf, Realm.line_note] at h
  obtain ⟨t₁, result, t₂, hrebind, hend, rfl⟩ := (course_line_ask_iff (by exact hd)).mp h
  have hnil : t₂ = [] := by
    rcases result with e | dn | v
    · exact (course_done_iff.mp hend).1
    · exact (course_done_iff.mp hend).1
    · exact (course_done_iff.mp hend).1
  rw [hnil, List.append_nil] at ht ⊢
  exact course_perform_rebind hrebind ht

/-- The whole walk, by induction on the segments that are left. The name stays the same all the way, and is
split into what was passed and the rest. -/
theorem course_line_walk {rest : List Segment} {out : Except Fault Unit × Realm}
    (hd : r.directories[k]? = some d)
    (h : Course (r.line (Client.walk name value (.entry k serial node) s rest)) t out) (ht : Unrefused t)
    (hnode : Stands d own passed node) (hn : n.segments = passed ++ s :: rest) :
    Confined d own n value t := by
  -- Down the segments; what carries the induction is that each child stands one segment further.
  induction rest generalizing r t serial node passed s with
  | nil =>
    exact (course_line_bindLeaf hd h ht).confined hnode rfl hn (Name.leaf_of_segments hn)
  | cons s' rest ih =>
    rw [Client.walk, Realm.line_bind] at h
    obtain ⟨t₁, ⟨answer, r'⟩, t₂, hdescend, hrest, rfl⟩ := Dialogue.course_bind_iff.mp h
    obtain ⟨ht₁, ht₂⟩ := unrefused_append_iff.mp ht
    obtain ⟨hconfined, hsame, hchild⟩ : Confined d own n value _ ∧ _ ∧ _ :=
      course_line_descend hd hdescend ht₁ hnode hn (List.cons_ne_nil s' rest)
    cases answer with
    | error e =>
      obtain ⟨rfl, -⟩ := course_done_iff.mp hrest
      rwa [List.append_nil]
    | ok child =>
      obtain ⟨hsettled, serial', node', rfl, hnode'⟩ := hchild child rfl
      rw [← hsame] at hd
      exact hconfined.append hsettled (ih hd hrest ht₂ hnode' (by rw [hn, List.append_cons]))

theorem line_conclude_course {result : Except Fault Unit} {out : Except Fault Unit × Realm}
    (h : Course (r.line (Client.conclude name result)) t out) : t = [] := by
  cases result with
  | ok _ => exact (course_done_iff.mp h).1
  | error e => exact (course_done_iff.mp h).1

/-- The walk from the root, if the name can be read, and nothing else if not. -/
theorem course_line_walkFrom {out : Except Fault Unit × Realm} (hd : r.directories[k]? = some d)
    (h : Course (r.line (Client.walkFrom name value (.entry k serial own))) t out) (ht : Unrefused t) :
    t = [] ∨ ∃ n, d.grammar.parse name = .ok n ∧ Confined d own n value t := by
  obtain ⟨t₁, result, t₂, hread, hrest, rfl⟩ := (course_line_ask_iff hd).mp h
  obtain ⟨rfl, rfl⟩ := course_lift_iff.mp hread
  rw [List.nil_append] at ht ⊢
  cases hn : d.grammar.parse name with
  | error e =>
    rw [hn] at hrest
    exact .inl (course_done_iff.mp hrest).1
  | ok n =>
    rw [hn] at hrest
    exact .inr ⟨n, rfl, course_line_walk hd hrest ht (.inl ⟨rfl, rfl⟩) rfl⟩

/-- A bind of a name that cannot be read writes nothing. With any other name it writes what it may, first by
the attempt and then by the walk. -/
theorem course_line_bind {text : String} {out : Except Fault Unit × Realm}
    (hd : r.directories[k]? = some d)
    (h : Course (r.line (Client.bind (.text text) value (.entry k serial own))) t out)
    (ht : Unrefused t) :
    IsUpkeep t ∨ ∃ n, d.grammar.parse (.text text) = .ok n ∧ Confined d own n value t := by
  rw [Client.bind, Realm.line_note] at h
  obtain ⟨t₁, result, t₂, hrebind, hrest, rfl⟩ := (course_line_ask_iff (by exact hd)).mp h
  obtain ⟨ht₁, ht₂⟩ := unrefused_append_iff.mp ht
  have hdirect : Written d own (.text text) value t₁ := course_perform_rebind hrebind ht₁
  have hwalk : t₂ = [] ∨
      ∃ n, d.grammar.parse (.text text) = .ok n ∧ Confined d own n value t₂ := by
    rcases result with e | dn | v
    · simp only [Realm.receive] at hrest
      split at hrest
      · exact .inl (course_done_iff.mp hrest).1
      · rw [Realm.line_bind] at hrest
        obtain ⟨t₃, out', t₄, hwalk, hend, rfl⟩ := Dialogue.course_bind_iff.mp hrest
        rw [line_conclude_course hend, List.append_nil]
        exact course_line_walkFrom (by exact hd) hwalk (unrefused_append_iff.mp ht₂).1
    · exact .inl (line_conclude_course hrest)
    · exact .inl (line_conclude_course hrest)
  cases hn : d.grammar.parse (.text text) with
  | error e =>
    -- A name that cannot be read ends both the attempt and the recovery before anything is written.
    have hnil : t₂ = [] := hwalk.resolve_right fun ⟨n, hn', _⟩ => nomatch hn.symm.trans hn'
    rw [hnil, List.append_nil]
    exact .inl (hdirect.isUpkeep_of_unreadable hn)
  | ok n =>
    have hconfined : Confined d own n value t₁ := hdirect.confined (.inl ⟨rfl, rfl⟩) hn rfl rfl
    refine .inr ⟨n, rfl, hconfined.append hdirect.settled ?_⟩
    rcases hwalk with rfl | ⟨n', hn', hwalk⟩
    · exact confined_of_isUpkeep isUpkeep_nil
    · cases hn.symm.trans hn'
      exact hwalk

end Walk

/-- The writes of a bind, with any server that raises no refusals of its own. The name can be read, and
each write is warranted by what came before it: either it replaces the value at the name, or it adds the
entry at the name right after the server said that there is none, or it adds a context above the name
after a search for it that found nothing. No search has failed for another reason by then. -/
theorem bind_writes_confined (r : Realm) (k serial : Nat) (d : Directory)
    (hd : r.directories[k]? = some d) (own value : Value) (text : String)
    (server : Partner Notice Request Reply)
    (hserver : ∀ past request e, (server past request).raised = some e → ¬ e.isRefusal)
    (before after : List Exchange) (request : Request) (reply : Reply)
    (hbind : ((r.line (Client.bind (.text text) value (.entry k serial own))).against server []).2 =
      before ++ .call request reply :: after)
    (hwrite : request.isWrite) :
    ∃ n, d.grammar.parse (.text text) = .ok n ∧ Warranted d own n value before request ∧
      Settled before := by
  obtain ⟨t, hcourse, ht⟩ :=
    course_against server (r.line (Client.bind (.text text) value (.entry k serial own))) []
  rw [List.nil_append] at ht
  have hunrefused : Unrefused t := by
    intro request reply e hmem he
    rw [← ht] at hmem
    rcases answer_of_mem_against hmem with hnone | ⟨earlier, rfl⟩
    · cases hnone
    · exact hserver earlier request e he
  rw [ht] at hbind
  rcases course_line_bind hd hcourse hunrefused with hupkeep | ⟨n, hn, hconfined⟩
  · have hcall : isUpkeep (.call request reply) := hupkeep _ (by simp [hbind])
    exact absurd hwrite (not_isWrite_of_isUpkeep hcall)
  · exact ⟨n, hn, hconfined before request reply after hbind hwrite⟩

/-- A server where no entry is, and where an entry can be added once a search was made. -/
def barren : Partner Notice Request Reply := fun past request =>
  let searched := past.any fun
    | .call (.search ..) _ => true
    | _ => false
  match request with
  | .search .. | .modify .. => .noSuchObject
  | .add .. => if searched then .agreed else .noSuchObject
  | _ => .agreed

theorem not_isRefusal_barren (past : List Exchange) (request : Request) (e : Fault)
    (he : (barren past request).raised = some e) : ¬ e.isRefusal := by
  have hnone : (barren past request).raised = none := by
    unfold barren
    dsimp only
    split
    · rfl
    · rfl
    · split
      · rfl
      · rfl
    · rfl
  rw [hnone] at he
  cases he

/-- Below an entry with nothing in it, the first write that is carried out adds the context above the
leaf. -/
theorem bind_writes_confined_barren :
    let r : Realm := { Realm.empty with directories := [plainDirectory] }
    let exchanges := ((r.line (Client.bind (.text "a/b") (.int 1) (.entry 0 0 (.text "dc=x")))).against
      barren []).2
    let attributes : Attributes :=
      [(objectClass, .list [.text "top", .text "container"]), (.text "cn", .text "a")]
    r.directories[0]? = some plainDirectory ∧
      (∀ past request e, (barren past request).raised = some e → ¬ e.isRefusal) ∧
      exchanges = exchanges.take 14 ++ .call (.add "cn=a,dc=x" attributes) .agreed :: exchanges.drop 15 ∧
      ∃ n, plainDirectory.grammar.parse (.text "a/b") = .ok n ∧
        Warranted plainDirectory (.text "dc=x") n (.int 1) (exchanges.take 14)
          (.add "cn=a,dc=x" attributes) ∧
        Settled (exchanges.take 14) := by
  intro r exchanges attributes
  have hexchanges : exchanges =
      exchanges.take 14 ++ .call (.add "cn=a,dc=x" attributes) .agreed :: exchanges.drop 15 := rfl
  exact ⟨rfl, not_isRefusal_barren, hexchanges,
    bind_writes_confined r 0 0 plainDirectory rfl (.text "dc=x") (.int 1) "a/b" barren
      not_isRefusal_barren (exchanges.take 14) (exchanges.drop 15) (.add "cn=a,dc=x" attributes) .agreed
      hexchanges rfl⟩

end NamingDirectory.Ldap
