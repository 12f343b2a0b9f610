import NamingDirectory.Item
import NamingDirectory.Proofs.Memory.Refinement

/-!
# Which object a lookup brings

A memory context holds objects, and a lookup brings the very object that was bound, no copy of it. The marks
that are noted while operations are carried out keep track of this: a bind notes the mark of what it binds, at
the place where it is bound now, and an unbind forgets it (`Tracked.perform`).

Places are contexts and segments, so they say nothing about paths. The specification does: it is a path map
that has, beside the nodes, the object at each path that has a value (`ItemMap`). The two go together
(`Follows`), since in a tree each place is the end of one path only:

    Tracked.perform ──▶ marks by place
    ItemMap.perform ──▶ objects by path      lookup_eq_itemMap : both look up the same item.

So two lookups of a path bring one object unless something was bound or unbound there, or above, in between
(`isSame_of_unchanged`).
-/

namespace NamingDirectory.Memory

/-! ### Noting what is bound

The marks beside the operations on a realm, and the objects beside those on a path map. Either notes what an
operation that succeeded has bound or unbound, at the place or at the path of the name that it was given. -/

/-- What an operation that succeeded changes in the notes about what is bound: a rebind and a bind are noted
with their name, and so is an unbind; a lookup and a creation are not. -/
def Operation.noted {ν : Type} (bound unbound : Value → ν → ν) (op : Operation) (notes : ν) : ν :=
  match op with
  | .rebind name _ => bound name notes
  | .bind text _ => bound (.text text) notes
  | .unbind name => unbound name notes
  | .lookup _ | .create _ => notes

/-- A realm, and the marks of what its contexts hold. -/
structure Tracked where
  realm : Realm
  marks : Marks
  /-- The mark of the object that the next operation is given. -/
  next : Nat

/-- Carries out an operation on the context with a given number, and notes the mark of what it binds. -/
def Tracked.perform (root : Nat) (op : Operation) (t : Tracked) : Answer × Tracked :=
  let (answer, realm) := Memory.perform root op t.realm
  let noted := op.noted (fun name marks => marks.bound realm.heap root name t.next)
    (fun name marks => marks.unbound realm.heap root name) t.marks
  (answer, ⟨realm, if answer.isOk then noted else t.marks, t.next + 1⟩)

def Tracked.lookup (root : Nat) (name : Value) (t : Tracked) : Except Fault Item :=
  t.marks.lookup t.realm.heap root name t.next

/-- A path map, and the object at each path that has a value. -/
structure ItemMap where
  map : PathMap
  object? : List Segment → Option Nat
  next : Nat

namespace ItemMap

/-- A path map in which nothing is mapped but the root. -/
def fresh (separator : Separator) (root : Nat) : ItemMap := ⟨.fresh separator root, fun _ => none, 0⟩

/-- There is something else at a path now, and nothing below it. -/
def changed (object? : List Segment → Option Nat) (p : List Segment) (x : Option Nat) :
    List Segment → Option Nat :=
  fun q => if q = p then x else if p <+: q then none else object? q

/-- There is something else at the path of a name now. -/
def changedAt (m : PathMap) (x : Option Nat) (name : Value) (object? : List Segment → Option Nat) :
    List Segment → Option Nat :=
  match (Name.Grammar.composite m.separator).resolve name with
  | .ok n => changed object? n.segments x
  | .error _ => object?

/-- An operation on the map, and what it changes of the objects: a bind and a rebind put a new one at a path. -/
def perform (op : Operation) (m : ItemMap) : Answer × ItemMap :=
  let (answer, map) := m.map.perform op
  let noted := op.noted (changedAt m.map (some m.next)) (changedAt m.map none) m.object?
  (answer, ⟨map, if answer.isOk then noted else m.object?, m.next + 1⟩)

/-- The item at the path of a name: the object that was bound there last, or a new one. -/
def lookup (name : Value) (m : ItemMap) : Except Fault Item := do
  let n ← (Name.Grammar.composite m.map.separator).resolve name
  let v ← m.map.lookup n
  return ⟨v, (m.object? n.segments).getD m.next⟩

end ItemMap

/-! ### Marks by place and objects by path

A place is found again at the end of one path, because what a path map stands for is a tree. Where one binding
of a tree is changed, all that was reached through it is gone, in the marks as in the objects. -/

/-- Marks tell the objects of a path map: what is noted for a segment of a context is the object at the path
to this segment. -/
structure Tell (marks : Marks) (m : PathMap) (object? : List Segment → Option Nat) : Prop where
  get?_eq : ∀ d c s, m.node? d = some (.context c) → marks.get? (c, s) = object? (d ++ [s])
  /-- All values are noted. -/
  isSome : ∀ p v, m.node? p = some (.value v) → (object? p).isSome = true
  /-- What is noted is in a context. -/
  above : ∀ d s, (object? (d ++ [s])).isSome = true → ∃ c, m.node? d = some (.context c)
  /-- Nothing is noted for contexts that are not there yet. -/
  lt_next : ∀ c s, (marks.get? (c, s)).isSome = true → c < m.next
  nodup_keys : (OrderedMap.keys marks).Nodup

section Tell

variable {h : Heap} {root c : Nat} {m m' : PathMap} {marks marks' : Marks}
  {object? : List Segment → Option Nat} {d p passed ahead : List Segment} {s : Segment} {x : Option Nat}

theorem tell_fresh (separator : Separator) (root : Nat) :
    Tell [] (.fresh separator root) fun _ => none := by
  constructor
  case get?_eq => intros; rfl
  case isSome =>
    intro p v hp
    simp only [PathMap.fresh] at hp
    split at hp <;> cases hp
  case above =>
    intro d s hsome
    cases hsome
  case lt_next =>
    intro c s hsome
    cases hsome
  case nodup_keys => exact List.nodup_nil

/-- One binding is changed in a tree. All that was below it is gone, and as one path alone leads to the context,
a change at one place is a change at one path. -/
theorem Tell.change (ht : Tell marks m object?) (hrep : Represents h root m')
    (hd : m'.node? d = some (.context c)) (hnext : m'.next = m.next)
    (hcontext : ∀ q o, m'.node? q = some (.context o) ↔ m.node? q = some (.context o) ∧ ¬d ++ [s] <+: q)
    (hvalue : ∀ q v, m'.node? q = some (.value v) →
      q = d ++ [s] ∧ x.isSome = true ∨ m.node? q = some (.value v) ∧ ¬d ++ [s] <+: q)
    (hget : ∀ place, marks'.get? place = if (c, s) = place then x else marks.get? place)
    (hnodup : (OrderedMap.keys marks').Nodup) :
    Tell marks' m' (ItemMap.changed object? (d ++ [s]) x) := by
  -- What is bound beside the changed path is not below it either.
  have hbeside : ∀ {d' : List Segment} {s' : Segment}, ¬d ++ [s] <+: d' → d' ++ [s'] ≠ d ++ [s] →
      ¬d ++ [s] <+: d' ++ [s'] := by
    intro d' s' hout hne hpre
    rcases List.prefix_concat_iff.mp hpre with heq | hpre
    · exact hne heq.symm
    · exact hout hpre
  constructor
  case get?_eq =>
    intro d' c' s' hd'
    obtain ⟨hold, hout⟩ := (hcontext d' c').mp hd'
    rw [hget, ItemMap.changed]
    by_cases hplace : (c, s) = (c', s')
    · cases hplace
      -- No other path leads to the context, so the place that is changed is the path that is changed.
      rw [if_pos rfl, if_pos (by rw [hrep.unshared d' d c hd' hd])]
    · have hne : d' ++ [s'] ≠ d ++ [s] := by
        intro heq
        obtain ⟨rfl, hs⟩ := List.append_inj' heq rfl
        cases hs
        cases hd.symm.trans hd'
        exact hplace rfl
      rw [if_neg hplace, if_neg hne, if_neg (hbeside hout hne)]
      exact ht.get?_eq d' c' s' hold
  case isSome =>
    intro q v hq
    rw [ItemMap.changed]
    rcases hvalue q v hq with ⟨rfl, hx⟩ | ⟨hold, hout⟩
    · rwa [if_pos rfl]
    · have hne : q ≠ d ++ [s] := fun heq => hout (heq ▸ List.prefix_rfl)
      rw [if_neg hne, if_neg hout]
      exact ht.isSome q v hold
  case above =>
    intro d' s' hsome
    rw [ItemMap.changed] at hsome
    split at hsome
    · next heq =>
      obtain ⟨rfl, -⟩ := List.append_inj' heq rfl
      exact ⟨c, hd⟩
    · split at hsome
      · cases hsome
      · next hout =>
        obtain ⟨c', hc'⟩ := ht.above d' s' hsome
        exact ⟨c', (hcontext d' c').mpr ⟨hc', fun hpre => hout (hpre.trans (List.prefix_append _ _))⟩⟩
  case lt_next =>
    intro c' s' hsome
    rw [hget] at hsome
    split at hsome
    · next hplace =>
      cases hplace
      rw [hrep.next_eq]
      exact hrep.lt_size d c hd
    · rw [hnext]
      exact ht.lt_next c' s' hsome
  case nodup_keys => exact hnodup

theorem Tell.set (ht : Tell marks m object?) {v : Value} (hrep : Represents h root (m.set (d ++ [s]) v))
    (hd : (m.set (d ++ [s]) v).node? d = some (.context c)) (mark : Nat) :
    Tell (marks.put (c, s) mark) (m.set (d ++ [s]) v)
      (ItemMap.changed object? (d ++ [s]) (some mark)) := by
  apply ht.change hrep hd rfl
  case hcontext =>
    intro q o
    rw [PathMap.node?_set]
    split
    · next heq => simp [heq]
    · split
      · next hpre => simp [hpre]
      · next hpre => simp [hpre]
  case hvalue =>
    intro q w hq
    rw [PathMap.node?_set] at hq
    split at hq
    · next heq => exact .inl ⟨heq, rfl⟩
    · split at hq
      · cases hq
      · next hpre => exact .inr ⟨hq, hpre⟩
  case hget =>
    intro place
    rw [OrderedMap.get?_put]
    simp only [beq_iff_eq]
  case hnodup => exact OrderedMap.nodup_keys_put ht.nodup_keys _ _

theorem Tell.remove (ht : Tell marks m object?) (hrep : Represents h root (m.remove (d ++ [s])))
    (hd : (m.remove (d ++ [s])).node? d = some (.context c)) :
    Tell (marks.erase (c, s)) (m.remove (d ++ [s])) (ItemMap.changed object? (d ++ [s]) none) := by
  apply ht.change hrep hd rfl
  case hcontext =>
    intro q o
    rw [PathMap.node?_remove]
    split
    · next hpre => simp [hpre]
    · next hpre => simp [hpre]
  case hvalue =>
    intro q w hq
    rw [PathMap.node?_remove] at hq
    split at hq
    · cases hq
    · next hpre => exact .inr ⟨hq, hpre⟩
  case hget =>
    intro place
    rw [OrderedMap.get?_erase ht.nodup_keys]
    simp only [beq_iff_eq]
  case hnodup => exact (OrderedMap.keys_erase_sublist _ _).nodup ht.nodup_keys

/-- A new context holds nothing yet, and nothing is noted for it. -/
theorem Tell.addContext (ht : Tell marks m object?) (hp : m.node? p = none) :
    Tell marks (m.addContext p) object? := by
  constructor
  case get?_eq =>
    intro d c s hd
    rw [PathMap.node?_addContext] at hd
    split at hd
    · next heq =>
      cases hd
      subst heq
      -- The marks have no place in a context with the number, and objects are only below contexts.
      have hmark : marks.get? (m.next, s) = none := by
        rw [← Option.not_isSome_iff_eq_none]
        exact fun hsome => Nat.lt_irrefl _ (ht.lt_next m.next s hsome)
      have hobject : object? (d ++ [s]) = none := by
        rw [← Option.not_isSome_iff_eq_none]
        intro hsome
        obtain ⟨c, hc⟩ := ht.above d s hsome
        rw [hp] at hc
        cases hc
      rw [hmark, hobject]
    · exact ht.get?_eq d c s hd
  case isSome =>
    intro q v hq
    rw [PathMap.node?_addContext] at hq
    split at hq
    · cases hq
    · exact ht.isSome q v hq
  case above =>
    intro d s hsome
    obtain ⟨c, hc⟩ := ht.above d s hsome
    refine ⟨c, ?_⟩
    rw [PathMap.node?_addContext, if_neg]
    · exact hc
    · rintro rfl
      rw [hp] at hc
      cases hc
  case lt_next => exact fun c s hsome => Nat.lt_succ_of_lt (ht.lt_next c s hsome)
  case nodup_keys => exact ht.nodup_keys

theorem Tell.fill (ht : Tell marks m object?) : Tell marks (m.fill passed ahead) object? := by
  induction ahead generalizing m passed with
  | nil => exact ht
  | cons s rest ih =>
    rw [PathMap.fill]
    split
    · next hnone => exact ih (ht.addContext hnone)
    · exact ih ht

end Tell

/-! ### Runs

An operation on the realm and the same one on the item map answer alike and go on telling the same, so a run
of them does. -/

/-- A realm with marks is what an item map says it is, seen from a root. -/
structure Follows (root : Nat) (t : Tracked) (m : ItemMap) : Prop where
  represents : Represents t.realm.heap root m.map
  tell : Tell t.marks m.map m.object?
  next_eq : t.next = m.next

section Follows

variable {h : Heap} {root : Nat} {m : PathMap} {t : Tracked} {items : ItemMap} {n : Name} {name : Value}

/-- In the heap that a path map stands for, the place of a name is at the end of its path. -/
theorem Represents.place?_eq (hrep : Represents h root m) {c : Nat}
    (hn : (Name.Grammar.composite m.separator).resolve name = .ok n)
    (hc : m.node? n.parents = some (.context c)) : place? h root name = some (c, n.leaf) := by
  apply place?_eq_some_iff.mpr
  exact ⟨n, hrep.nameFor_eq.trans hn, hrep.node?_eq_context_iff.mp hc, rfl⟩

/-- After a path is set there is a context above it still, and its place is noted. -/
theorem Represents.tell_bound {v : Value} {marks : Marks}
    {object? : List Segment → Option Nat} (hrep : Represents h root (m.set n.segments v))
    (hn : (Name.Grammar.composite m.separator).resolve name = .ok n) (ht : Tell marks m object?)
    (mark : Nat) :
    Tell (marks.bound h root name mark) (m.set n.segments v)
      (ItemMap.changed object? n.segments (some mark)) := by
  have hset : ((m.set n.segments v).node? (n.parents ++ [n.leaf])).isSome = true := by
    rw [Name.parents_append_leaf, PathMap.node?_set, if_pos rfl]
    rfl
  obtain ⟨c, hc⟩ := hrep.context_above (List.cons_ne_nil _ _) hset
  have hplace : place? h root name = some (c, n.leaf) := hrep.place?_eq hn hc
  rw [Marks.bound, hplace]
  rw [← Name.parents_append_leaf] at hrep hc ⊢
  exact ht.set hrep hc mark

/-- After a path is removed its place has no mark any more, and if there was no such place, nothing was noted. -/
theorem Represents.tell_unbound {h' : Heap} {marks : Marks} {object? : List Segment → Option Nat}
    (hrep : Represents h root m) (hrep' : Represents h' root (m.remove n.segments))
    (hn : (Name.Grammar.composite m.separator).resolve name = .ok n)
    (hcheck : m.check [] n.parents = .ok ()) (ht : Tell marks m object?) :
    Tell (marks.unbound h' root name) (m.remove n.segments)
      (ItemMap.changed object? n.segments none) := by
  rcases hrep.parentOf_cases n with ⟨c, -, -, hc⟩ | ⟨e, -, he⟩
  · have hout : ¬n.segments <+: n.parents := by
      rw [← Name.parents_append_leaf]
      intro hpre
      have hle := hpre.length_le
      rw [List.length_append, List.length_singleton] at hle
      omega
    have hc' : (m.remove n.segments).node? n.parents = some (.context c) := by
      rw [PathMap.node?_remove, if_neg hout, hc]
    have hplace : place? h' root name = some (c, n.leaf) := hrep'.place?_eq hn hc'
    rw [Marks.unbound, hplace]
    rw [← Name.parents_append_leaf] at hrep' hc' ⊢
    exact ht.remove hrep' hc'
  · cases hcheck.symm.trans he

/-- One operation: the marks that are noted go on telling the objects. -/
theorem Follows.perform (hf : Follows root t items) (op : Operation) (hop : op.IsPlain) :
    (t.perform root op).1 = (items.perform op).1 ∧
      Follows root (t.perform root op).2 (items.perform op).2 := by
  obtain ⟨hanswer, hrep⟩ := hf.represents.perform_refines op hop
  refine ⟨hanswer, hrep, ?_, congrArg (· + 1) hf.next_eq⟩
  show Tell (if (Memory.perform root op t.realm).1.isOk then _ else t.marks) (items.map.perform op).2
    (if (items.map.perform op).1.isOk then _ else items.object?)
  rw [hanswer]
  rcases items.map.perform_cases op with ⟨v, hok, hdoes⟩ | ⟨e, he⟩
  · rw [hok, hf.next_eq]
    revert hrep hdoes
    generalize (items.map.perform op).2 = m'
    intro hrep hdoes
    have hchanged : ∀ {name : Value} {n : Name} (x : Option Nat),
        (Name.Grammar.composite items.map.separator).resolve name = .ok n →
          ItemMap.changedAt items.map x name items.object? =
            ItemMap.changed items.object? n.segments x := by
      intro name n x hn
      rw [ItemMap.changedAt, hn]
    cases hdoes with
    | lookup => exact hf.tell
    | rebind hn =>
      show Tell _ _ (ItemMap.changedAt _ _ _ _)
      rw [hchanged _ hn]
      exact hrep.tell_bound hn hf.tell _
    | create _ _ hnone => exact hf.tell.addContext hnone
    | unbind hn hcheck =>
      show Tell _ _ (ItemMap.changedAt _ _ _ _)
      rw [hchanged _ hn]
      exact hf.represents.tell_unbound hrep hn hcheck hf.tell
    | bind hn =>
      show Tell _ _ (ItemMap.changedAt _ _ _ _)
      rw [hchanged _ hn]
      rw [← PathMap.separator_fill] at hn
      exact hrep.tell_bound hn hf.tell.fill _
  · rw [he]
    exact hf.tell

/-- Where a lookup on the map brings something, the mark that is found is that of the object at the path. -/
theorem Follows.found_eq (hf : Follows root t items)
    (hn : (Name.Grammar.composite items.map.separator).resolve name = .ok n) {v : Value}
    (hv : items.map.lookup n = .ok v) :
    t.marks.found t.realm.heap root name t.next = (items.object? n.segments).getD items.next := by
  rw [PathMap.lookup] at hv
  rcases hf.represents.parentOf_cases n with ⟨c, -, -, hc⟩ | ⟨e, -, he⟩
  · have hmark : t.marks.get? (c, n.leaf) = items.object? n.segments := by
      rw [hf.tell.get?_eq n.parents c n.leaf hc, Name.parents_append_leaf]
    rw [Marks.found, hf.represents.place?_eq hn hc, Option.bind_some, hmark, hf.next_eq]
  · rw [he] at hv
    cases hv

/-- Marks and objects make the same items. -/
theorem Follows.lookup_eq (hf : Follows root t items) (name : Value) :
    t.lookup root name = items.lookup name := by
  have hanswer : Memory.lookup t.realm.heap root name = (items.map.perform (.lookup name)).1 :=
    congrArg Prod.fst hf.represents.lookup_refines
  rw [Tracked.lookup, Marks.lookup, hanswer, PathMap.perform, ItemMap.lookup]
  cases hn : (Name.Grammar.composite items.map.separator).resolve name with
  | error e => rfl
  | ok n =>
    simp only [PathMap.reading, bind, Except.bind]
    cases hv : items.map.lookup n with
    | error e => rfl
    | ok v =>
      show Except.ok _ = Except.ok _
      rw [hf.found_eq hn hv]

/-- What a lookup brings is mapped, and has the object at its path, or a new one if none was noted there, as
is so of a context that a bind or a creation has made. -/
theorem Follows.exists_of_lookup (hf : Follows root t items)
    (hn : (Name.Grammar.composite items.map.separator).resolve name = .ok n) {item : Item}
    (hitem : t.lookup root name = .ok item) :
    ∃ node, items.map.node? n.segments = some node ∧
      item = ⟨node.toValue, (items.object? n.segments).getD items.next⟩ := by
  rw [hf.lookup_eq, ItemMap.lookup, hn] at hitem
  simp only [bind, Except.bind, PathMap.lookup] at hitem
  split at hitem
  · cases hitem
  · next v hv =>
    split at hv
    · cases hv
    · split at hv
      · next node hnode =>
        cases hv
        cases hitem
        exact ⟨node, hnode, rfl⟩
      · cases hv

end Follows

/-- After any run of operations on a new root, and so at any time, a lookup brings the item that was bound last
at the path of its name. -/
theorem lookup_eq_itemMap (separator : Separator) (r : Realm) (hholds : r.heap.HoldsContexts)
    (ops : List Operation) (hops : ∀ op ∈ ops, op.IsPlain) (name : Value) :
    let root := r.heap.size
    let tracked := inTurn (Tracked.perform root) ops ⟨(r.addContext separator).2, [], 0⟩
    let items := inTurn ItemMap.perform ops (.fresh separator root)
    tracked.1 = items.1 ∧ tracked.2.lookup root name = items.2.lookup name := by
  intro root tracked items
  have hfresh : Follows root ⟨(r.addContext separator).2, [], 0⟩ (.fresh separator root) :=
    ⟨.fresh hholds separator, tell_fresh separator root, rfl⟩
  obtain ⟨hanswers, hf⟩ :=
    inTurn_refines (R := Follows root) (fun op hop _ _ h => h.perform op hop) ops hops hfresh
  exact ⟨hanswers, hf.lookup_eq name⟩

/-- Two lookups of a path bring the same object if it is mapped to the same node with the same object. What
happened to other paths in between does not matter. -/
theorem isSame_of_unchanged {root : Nat} {t t' : Tracked} {items items' : ItemMap} {n : Name}
    {name : Value} {item item' : Item} (hf : Follows root t items) (hf' : Follows root t' items')
    (hn : (Name.Grammar.composite items.map.separator).resolve name = .ok n)
    (hseparator : items'.map.separator = items.map.separator)
    (hnode : items'.map.node? n.segments = items.map.node? n.segments)
    (hobject : items'.object? n.segments = items.object? n.segments)
    (hitem : t.lookup root name = .ok item) (hitem' : t'.lookup root name = .ok item') :
    item.isSame item' = true := by
  have hn' : (Name.Grammar.composite items'.map.separator).resolve name = .ok n := by rw [hseparator, hn]
  obtain ⟨node, hp, rfl⟩ := hf.exists_of_lookup hn hitem
  obtain ⟨node', hp', rfl⟩ := hf'.exists_of_lookup hn' hitem'
  rw [hnode, hp] at hp'
  cases hp'
  cases node with
  | context o => exact Item.isSame_context_iff.mpr (.inr rfl)
  | value v =>
    -- A value is noted, so neither of the marks is a new one.
    obtain ⟨mark, hmark⟩ := Option.isSome_iff_exists.mp (hf.tell.isSome n.segments v hp)
    rw [hobject, hmark, Option.getD_some, Option.getD_some]
    exact Item.isSame_self _

/-- A list that is bound is found again as the object that it was, also beside a list that equals it. -/
example :
    let run := inTurn (Tracked.perform 0) [.rebind (.text "a") (.list []), .rebind (.text "b") (.list [])]
      ⟨(Realm.empty.addContext .slash).2, [], 0⟩
    run.2.lookup 0 (.text "a") = .ok ⟨.list [], 0⟩ ∧ run.2.lookup 0 (.text "b") = .ok ⟨.list [], 1⟩ :=
  ⟨rfl, rfl⟩

end NamingDirectory.Memory
