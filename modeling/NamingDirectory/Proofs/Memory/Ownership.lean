import NamingDirectory.Proofs.Memory.Refinement

/-!
# Owned contexts

Memory contexts shared out among owners, each of which is a root. If what the contexts of an owner bind is its
own (`Ruled`), then an operation on a context of one owner changes contexts of this owner only, and what it
creates there is owned by the same one (`works_perform`). So what is seen through a context of another owner
stays as it is (`Works.lookup_eq`, `Works.keys_eq`).

Owners are given for all numbers in advance, those of contexts that do not exist yet included. A step thus
never has to extend the assignment: it is enough that new numbers belong to the owner on whose behalf the step
is taken, and between steps `Ruled.congr` changes what is said of numbers that are not in use.

`Works` is closed under composition, and everything that is done to a heap is a composition of bindings, of
unbindings and of new contexts. So each operation is taken apart into these, at the place that its name has,
and the recursion of the walk is one more composition.

An operation on a context of an owner is thus felt by this owner alone:

    op on a context of o   →   contexts of others as before,  new contexts owned by o
-/

namespace NamingDirectory.Memory

/-- Who owns which context, if it has an owner. -/
abbrev Owners := Nat → Option Nat

/-- Whether the contexts that those of an owner bind are its own. -/
structure Heap.Ruled (h : Heap) (own : Owners) : Prop where
  holdsContexts : h.HoldsContexts
  nodup_keys : ∀ id o, own id = some o → (OrderedMap.keys (h.context id).bindings).Nodup
  binds : ∀ id s c o, own id = some o → h.get? id s = some (.context c) → c < h.size ∧ own c = some o

/-- What is done to a heap on behalf of an owner: the contexts of others stay as they are. -/
structure Works (own : Owners) (o : Nat) (h h' : Heap) : Prop where
  size_le : h.size ≤ h'.size
  context_eq : ∀ id, id < h.size → own id ≠ some o → h'.context id = h.context id
  ruled : h.Ruled own → h'.Ruled own

variable {own : Owners} {o o' id c : Nat} {h h' h'' : Heap} {s : Segment} {v : Value}

/-- What is owned is a matter of the contexts that there are. -/
theorem Heap.Ruled.congr {own' : Owners} (hr : h.Ruled own) (hown : ∀ c, c < h.size → own' c = own c) :
    h.Ruled own' := by
  have hold : ∀ id s w, h.get? id s = some w → own' id = own id := by
    intro id s w hw
    apply hown
    apply Nat.lt_of_not_le
    intro hle
    rw [h.get?_of_size_le hle] at hw
    cases hw
  constructor
  case holdsContexts => exact hr.holdsContexts
  case nodup_keys =>
    intro id o ho
    by_cases hid : id < h.size
    · exact hr.nodup_keys id o ((hown id hid).symm.trans ho)
    · have hempty : h.contexts[id]? = none := List.getElem?_eq_none (Nat.le_of_not_lt hid)
      rw [Heap.context, hempty]
      exact List.nodup_nil
  case binds =>
    intro id s c o ho hc
    obtain ⟨hlt, hc'⟩ := hr.binds id s c o ((hold id s _ hc).symm.trans ho) hc
    exact ⟨hlt, (hown c hlt).trans hc'⟩

/-! ### Single changes

The changes that operations are made of. Each keeps what the contexts of others hold, since it changes one
context, or none that exists. -/

theorem Works.refl : Works own o h h :=
  ⟨Nat.le_refl _, fun _ _ _ => rfl, fun hr => hr⟩

theorem Works.trans (hw : Works own o h h') (hw' : Works own o h' h'') : Works own o h h'' := by
  constructor
  case size_le => exact Nat.le_trans hw.size_le hw'.size_le
  case context_eq =>
    intro id hid hown
    rw [hw'.context_eq id (Nat.lt_of_lt_of_le hid hw.size_le) hown, hw.context_eq id hid hown]
  case ruled => exact fun hr => hw'.ruled (hw.ruled hr)

/-- Binding what is no node, or a context of the same owner. -/
theorem works_put (hid : id < h.size) (hown : own id = some o) (s : Segment)
    (hv : v.isNode = true → ∃ c, v = .context c ∧ c < h.size ∧ own c = some o) :
    Works own o h (h.put id s v) := by
  constructor
  case size_le => exact Nat.le_of_eq (h.size_put id s v).symm
  case context_eq =>
    intro id' _ hother
    rw [Heap.context_put h hid, if_neg]
    rintro rfl
    exact hother hown
  case ruled =>
    intro hr
    constructor
    case holdsContexts =>
      intro id' t w hw hnode
      rcases Heap.eq_or_of_get?_put hw with rfl | hw
      · obtain ⟨c, hc, -⟩ := hv hnode
        exact ⟨c, hc⟩
      · exact hr.holdsContexts id' t w hw hnode
    case nodup_keys =>
      intro id' o' hown'
      rw [Heap.context_put h hid]
      split
      · exact OrderedMap.nodup_keys_put (hr.nodup_keys id o hown) s v
      · exact hr.nodup_keys id' o' hown'
    case binds =>
      intro id' t c' o' hown' hc'
      rw [Heap.size_put]
      rw [Heap.get?_put h hid] at hc'
      split at hc'
      · next heq =>
        -- The new binding, which is the owner's own.
        obtain ⟨rfl, rfl⟩ := heq
        cases hc'
        obtain ⟨c, heq, hlt, hc⟩ := hv rfl
        cases heq
        exact ⟨hlt, hc.trans (hown.symm.trans hown')⟩
      · exact hr.binds id' t c' o' hown' hc'

theorem works_erase (hr : h.Ruled own) (hid : id < h.size) (hown : own id = some o) (s : Segment) :
    Works own o h (h.erase id s) := by
  have hold : ∀ id' t w, (h.erase id s).get? id' t = some w → h.get? id' t = some w := by
    intro id' t w hw
    rw [h.get?_erase hid (hr.nodup_keys id o hown)] at hw
    split at hw
    · cases hw
    · exact hw
  constructor
  case size_le => exact Nat.le_of_eq (h.size_erase id s).symm
  case context_eq =>
    intro id' _ hother
    rw [Heap.context_erase h hid, if_neg]
    rintro rfl
    exact hother hown
  case ruled =>
    intro hr
    constructor
    case holdsContexts => exact fun id' t w hw => hr.holdsContexts id' t w (hold id' t w hw)
    case nodup_keys =>
      intro id' o' hown'
      rw [Heap.context_erase h hid]
      split
      · exact (OrderedMap.keys_erase_sublist _ s).nodup (hr.nodup_keys id o hown)
      · exact hr.nodup_keys id' o' hown'
    case binds =>
      intro id' t c' o' hown' hc'
      rw [Heap.size_erase]
      exact hr.binds id' t c' o' hown' (hold id' t _ hc')

/-- A new context is empty, and changes no other one. -/
theorem works_push (separator : Separator) : Works own o h (h.push separator) := by
  constructor
  case size_le =>
    rw [Heap.size_push]
    exact Nat.le_succ _
  case context_eq =>
    intro id hid _
    rw [Heap.context_push, if_neg (Nat.ne_of_lt hid)]
  case ruled =>
    intro hr
    constructor
    case holdsContexts =>
      intro id t w hw
      rw [Heap.get?_push] at hw
      exact hr.holdsContexts id t w hw
    case nodup_keys =>
      intro id o hown
      rw [Heap.context_push]
      split
      · exact List.nodup_nil
      · exact hr.nodup_keys id o hown
    case binds =>
      intro id t c o hown hc
      rw [Heap.get?_push] at hc
      obtain ⟨hlt, hc⟩ := hr.binds id t c o hown hc
      exact ⟨by rw [Heap.size_push]; exact Nat.lt_succ_of_lt hlt, hc⟩

/-- A new context, bound in one of the same owner. It is owned before it is there, see `Owners`. -/
theorem works_grow (hid : id < h.size) (hown : own id = some o) (hnew : own h.size = some o)
    (s : Segment) (separator : Separator) :
    Works own o h ((h.push separator).put id s (.context h.size)) := by
  have hsize : (h.push separator).size = h.size + 1 := Heap.size_push ..
  have hpush : Works own o h (h.push separator) := works_push separator
  apply hpush.trans
  apply works_put (Nat.lt_of_lt_of_le hid hpush.size_le) hown s
  intro _
  exact ⟨h.size, rfl, by rw [hsize]; exact Nat.lt_succ_self _, hnew⟩

/-! ### Operations

An operation starts from a context of its owner, and all the contexts that it gets to are found by following
bindings, so they are this owner's too. -/

/-- Whether a context is one of an owner. -/
def Heap.Has (h : Heap) (own : Owners) (o id : Nat) : Prop := id < h.size ∧ own id = some o

/-- A context that has just been created and bound is there. -/
theorem Heap.has_grown (hnew : own h.size = some o) (separator : Separator) (id : Nat) (s : Segment) (v : Value) :
    ((h.push separator).put id s v).Has own o h.size := by
  refine ⟨?_, hnew⟩
  rw [Heap.size_put, Heap.size_push]
  exact Nat.lt_succ_self _

/-- A path from a context of an owner leads to contexts of the same one. -/
theorem Heap.Ruled.has_of_at? (hr : h.Ruled own) (hid : h.Has own o id) {p : List Segment}
    (hp : h.at? (.context id) p = some (.context c)) : h.Has own o c := by
  induction p generalizing id with
  | nil => cases hp; exact hid
  | cons t p ih =>
    obtain ⟨child, hchild, hp⟩ := Heap.step_of_at?_eq_context hp
    exact ih (hr.binds id t child o hid.2 hchild) hp

/-- A name given to a context of an owner has its place in a context of the same one. -/
theorem Heap.Ruled.has_of_place? (hr : h.Ruled own) (hid : h.Has own o id) {name : Value}
    (hplace : place? h id name = some (c, s)) : h.Has own o c := by
  obtain ⟨n, -, hc, -⟩ := place?_eq_some_iff.mp hplace
  exact hr.has_of_at? hid hc

/-- The walk of a bind. What it creates is owned by the owner of the context that it starts from. -/
theorem works_plant (hr : h.Ruled own) (hid : h.Has own o id) (hnew : ∀ c, h.size ≤ c → own c = some o)
    (name : Value) (hv : v.isNode = false) (path : List Segment) :
    Works own o h (plant name v h id path).2 := by
  fun_induction plant name v h id path with
  | case1 => exact .refl
  | case2 h id s => exact works_put hid.1 hid.2 s (by simp [hv])
  | case3 h id s t rest hs ih =>
    have hchild := hnew _ (Nat.le_refl h.size)
    have hgrow : Works own o h ((h.push (h.context id).separator).put id s (.context h.size)) :=
      works_grow hid.1 hid.2 hchild s _
    apply hgrow.trans
    apply ih (hgrow.ruled hr) (Heap.has_grown hchild ..)
    exact fun c hc => hnew c (Nat.le_trans hgrow.size_le hc)
  | case4 h id s t rest child hs ih => exact ih hr (hr.binds id s child o hid.2 hs) hnew
  | case5 => exact .refl

/-- What changes a heap on behalf of an owner, or fails, gives the same to the realm. -/
theorem works_withHeap {r : Realm} {result : Except Fault Heap} {v : Value}
    (h : ∀ h', result = .ok h' → Works own o r.heap h' ∧ ∀ c, v = .context c → h'.Has own o c) :
    Works own o r.heap (r.withHeap result v).2.heap ∧
      ∀ c, (r.withHeap result v).1 = .ok (.context c) → (r.withHeap result v).2.heap.Has own o c := by
  cases result with
  | ok h' =>
    obtain ⟨hworks, hgives⟩ := h h' rfl
    refine ⟨hworks, ?_⟩
    intro c hc
    cases hc
    exact hgives c rfl
  | error e => exact ⟨.refl, fun c hc => nomatch hc⟩

/-- What an operation does on a context of an owner is done on behalf of this one, and if it gives a context,
it is one of the same. -/
theorem works_perform {r : Realm} (hr : r.heap.Ruled own) (hid : r.heap.Has own o id)
    (hnew : ∀ c, r.heap.size ≤ c → own c = some o) (op : Operation) (hop : op.IsPlain) :
    Works own o r.heap (perform id op r).2.heap ∧
      ∀ c, (perform id op r).1 = .ok (.context c) → (perform id op r).2.heap.Has own o c := by
  cases op with
  | lookup name =>
    refine ⟨.refl, ?_⟩
    intro c hc
    obtain ⟨n, -, hp⟩ := at?_of_lookup hc
    exact hr.has_of_at? hid hp
  | rebind name v =>
    apply works_withHeap
    intro h' hh'
    obtain ⟨c, s, hplace, rfl⟩ := rebind_eq_ok_iff.mp hh'
    have hc := hr.has_of_place? hid hplace
    have hplain : v.isNode = false := hop
    exact ⟨works_put hc.1 hc.2 s (by simp [hplain]), fun c hc => nomatch hc⟩
  | create name =>
    apply works_withHeap
    intro h' hh'
    obtain ⟨c, s, hplace, -, rfl⟩ := create_eq_ok_iff.mp hh'
    have hc := hr.has_of_place? hid hplace
    have hnew := hnew _ (Nat.le_refl r.heap.size)
    refine ⟨works_grow hc.1 hc.2 hnew s _, ?_⟩
    intro id' hid'
    cases hid'
    exact Heap.has_grown hnew ..
  | unbind name =>
    apply works_withHeap
    intro h' hh'
    obtain ⟨c, s, hplace, rfl⟩ := unbind_eq_ok_iff.mp hh'
    have hc := hr.has_of_place? hid hplace
    exact ⟨works_erase hr hc.1 hc.2 s, fun c hc => nomatch hc⟩
  -- What a bind leaves is what its walk leaves, and the walk was followed above.
  | bind text v =>
    obtain ⟨log, hbind⟩ := run_bind_text r hr.holdsContexts id text v
    rw [perform, hbind]
    have hplant : Works own o r.heap (attempt r.heap id text v).2 := by
      rw [attempt]
      split
      · exact works_plant hr hid hnew _ hop _
      · exact .refl
    refine ⟨hplant, ?_⟩
    intro c hc
    cases hresult : (attempt r.heap id text v).1 with
    | ok _ => rw [hresult] at hc; cases hc
    | error e => rw [hresult] at hc; cases hc

/-! ### What others see

A lookup goes along contexts of one owner, and these are what they were. So a path that was followed before a
step for another owner is followed to the same end after it. -/

/-- What is done on behalf of one owner is not seen by another. -/
theorem Works.context_of_has (hw : Works own o h h') (hid : h.Has own o' id) (ho : o' ≠ o) :
    h'.context id = h.context id := by
  apply hw.context_eq id hid.1
  rw [hid.2]
  intro heq
  exact ho (Option.some.inj heq)

theorem Works.get?_of_has (hw : Works own o h h') (hid : h.Has own o' id) (ho : o' ≠ o) (s : Segment) :
    h'.get? id s = h.get? id s := by
  rw [Heap.get?, Heap.get?, hw.context_of_has hid ho]

/-- A path is followed through contexts of one owner, so it is the same path after a step for another one. -/
theorem Works.follow_eq (hw : Works own o h h') (hr : h.Ruled own) (hid : h.Has own o' id) (ho : o' ≠ o)
    (passed path : List Segment) : follow h' passed id path = follow h passed id path := by
  induction path generalizing passed id with
  | nil => rfl
  | cons s rest ih =>
    rw [follow, follow, hw.get?_of_has hid ho]
    cases hs : h.get? id s with
    | none => rfl
    | some w =>
      rcases w.context_or_ne with ⟨c, rfl⟩ | hne
      · exact ih (hr.binds id s c o' hid.2 hs) _
      · cases w with
        | context c => exact absurd rfl (hne c)
        | _ => rfl

/-- A lookup by another owner gives what it gave before. -/
theorem Works.lookup_eq (hw : Works own o h h') (hr : h.Ruled own) (hid : h.Has own o' id) (ho : o' ≠ o)
    (name : Value) : lookup h' id name = lookup h id name := by
  have hname : nameFor h' id name = nameFor h id name := by
    rw [nameFor, nameFor, hw.context_of_has hid ho]
  have hparent : ∀ n, parentOf h' id n = parentOf h id n := fun n => hw.follow_eq hr hid ho [] n.parents
  rw [lookup, lookup, hname]
  simp only [hparent]
  rcases reach_cases h id name with ⟨e, he⟩ | ⟨n, c, -, hc, hreach⟩
  · exact (he _).trans (he _).symm
  · rw [hreach, hreach, hw.get?_of_has (hr.has_of_at? hid hc) ho]

theorem Works.keys_eq (hw : Works own o h h') (hid : h.Has own o' id) (ho : o' ≠ o) :
    h'.keys id = h.keys id := by
  rw [Heap.keys, Heap.keys, hw.context_of_has hid ho]

end NamingDirectory.Memory
