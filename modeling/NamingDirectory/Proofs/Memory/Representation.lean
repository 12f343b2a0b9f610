import NamingDirectory.Proofs.Memory.Graph
import NamingDirectory.Proofs.Memory.PathMap

/-!
# Path maps represent heaps

The invariant between a heap of memory contexts, seen from a root, and a path map (`Represents`). What makes
it last is that contexts are not shared: one path alone leads to each, so a change of one binding is a change
at one path of the map, and of what is below it.

It is read in one direction and kept in the other.

* Reading: every step that an operation takes through the heap is a step along a path of the map. Where the
  map has contexts, `follow` gets to the context at the end of the path; where it has none, both are at the
  same fault (`follow_cases`).
* Keeping: a heap changes in three ways, and to each there is one change of the map, with one lemma for the
  two: a value is bound (`Represents.put`), a binding is removed (`Represents.erase`), or a new context is
  bound where nothing was (`Represents.grow`). All three rest on `at?_changed`, which says what is seen of a
  heap in which one binding was changed.
-/

namespace NamingDirectory.Memory

/-- A path map is what is seen of a heap from a root: the paths lead in the heap to what the map has for them,
and only one path leads to each context. The other fields are what the steps need to go on: contexts that are
seen are in the heap and have each key once, new objects are numbered alike on both sides, and no context
binds a node of another provider. -/
structure Represents (h : Heap) (root : Nat) (m : PathMap) : Prop where
  node?_eq : ∀ p, m.node? p = (h.at? (.context root) p).map Node.ofValue
  unshared : ∀ p q o, m.node? p = some (.context o) → m.node? q = some (.context o) → p = q
  lt_size : ∀ p o, m.node? p = some (.context o) → o < h.size
  nodup_keys : ∀ p o, m.node? p = some (.context o) → (OrderedMap.keys (h.context o).bindings).Nodup
  next_eq : m.next = h.size
  separator_eq : (h.context root).separator = m.separator
  holdsContexts : h.HoldsContexts

namespace Node

@[simp] theorem ofValue_context (id : Nat) : ofValue (.context id) = .context id := rfl

/-- Anything but a memory context is a value at the end of its path, the nodes of other providers included. -/
theorem ofValue_of_ne {v : Value} (hv : ∀ id, v ≠ .context id) : ofValue v = .value v := by
  cases v with
  | context id => exact absurd rfl (hv id)
  | _ => rfl

theorem ofValue_eq_context_iff {v : Value} {id : Nat} : ofValue v = .context id ↔ v = .context id := by
  constructor
  · intro hv
    rcases v.context_or_ne with ⟨id', rfl⟩ | hne
    · cases hv
      rfl
    · rw [ofValue_of_ne hne] at hv
      cases hv
  · rintro rfl
    rfl

/-- So a node keeps all of its value, and a lookup on the map gives what the heap has. -/
@[simp] theorem toValue_ofValue (v : Value) : (ofValue v).toValue = v := by
  cases v <;> rfl

end Node

namespace Represents

variable {h g : Heap} {root : Nat} {m : PathMap} {p q d passed ahead : List Segment} {c o : Nat}
  {s : Segment} {v : Value}

/-! ### Reading the heap through the map

What is asked of the heap can be asked of the map. -/

/-- Where the map has a context, the heap has the same object. -/
theorem node?_eq_context_iff (hrep : Represents h root m) :
    m.node? p = some (.context o) ↔ h.at? (.context root) p = some (.context o) := by
  rw [hrep.node?_eq, Option.map_eq_some_iff]
  constructor
  · rintro ⟨v, hv, ho⟩
    rw [hv, Node.ofValue_eq_context_iff.mp ho]
  · intro hp
    exact ⟨_, hp, rfl⟩

@[simp] theorem node?_nil (hrep : Represents h root m) : m.node? [] = some (.context root) := by
  rw [hrep.node?_eq_context_iff, Heap.at?_nil]

/-- One step below a context of the map is one binding of it in the heap. -/
theorem node?_concat (hrep : Represents h root m) (hd : m.node? d = some (.context c)) :
    m.node? (d ++ [s]) = (h.get? c s).map Node.ofValue := by
  rw [hrep.node?_eq, Heap.at?_concat (hrep.node?_eq_context_iff.mp hd)]

/-- Everything above a mapped path is a context. So a path that has a value has nothing below it. -/
theorem context_above (hrep : Represents h root m) (hq : q ≠ []) (hpq : (m.node? (p ++ q)).isSome = true) :
    ∃ o, m.node? p = some (.context o) := by
  obtain ⟨node, hnode⟩ := Option.isSome_iff_exists.mp hpq
  rw [hrep.node?_eq] at hnode
  obtain ⟨w, hw, -⟩ := Option.map_eq_some_iff.mp hnode
  obtain ⟨o, ho⟩ := Heap.context_of_at?_append hq hw
  exact ⟨o, hrep.node?_eq_context_iff.mpr ho⟩

/-- Nothing is mapped below a path that is not. A new context can therefore be hung in there with nothing
below it. -/
theorem node?_below (hrep : Represents h root m) (hp : m.node? p = none) : m.node? (p ++ q) = none := by
  cases q with
  | nil => rw [List.append_nil, hp]
  | cons s q =>
    rw [← Option.not_isSome_iff_eq_none]
    intro hsome
    obtain ⟨o, ho⟩ := hrep.context_above (List.cons_ne_nil s q) hsome
    rw [hp] at ho
    cases ho

/-- Nothing is in the way on a path that is not mapped, as nothing is mapped below it. -/
theorem obstacle?_below (hrep : Represents h root m) (hp : m.node? passed = none) :
    m.obstacle? passed ahead = none := by
  induction ahead generalizing passed with
  | nil => rfl
  | cons s rest ih =>
    have hs : m.node? (passed ++ [s]) = none := hrep.node?_below hp
    rw [PathMap.obstacle?, hs]
    exact ih hs

/-- The contexts that an operation goes through are those of the map. By induction on what is ahead: a step of
the operation and a step of `check` look at the same binding, and give up for the same reason. -/
theorem follow_cases (hrep : Represents h root m) (hc : m.node? passed = some (.context c)) :
    (∃ o, follow h passed c ahead = .ok o ∧ m.check passed ahead = .ok () ∧
      m.node? (passed ++ ahead) = some (.context o)) ∨
    ∃ e, follow h passed c ahead = .error e ∧ m.check passed ahead = .error e := by
  induction ahead generalizing passed c with
  | nil =>
    left
    exact ⟨c, rfl, rfl, by rw [List.append_nil, hc]⟩
  | cons s rest ih =>
    have hs : m.node? (passed ++ [s]) = (h.get? c s).map Node.ofValue := hrep.node?_concat hc
    have happ : passed ++ s :: rest = passed ++ [s] ++ rest := List.append_cons passed s rest
    rw [follow, PathMap.check, happ]
    cases hw : h.get? c s with
    | none =>
      rw [hw] at hs
      right
      exact ⟨_, rfl, by rw [hs]; rfl⟩
    | some w =>
      rw [hw, Option.map_some] at hs
      -- A context leads on. Anything else is in the way on both sides, a node of another provider included.
      rcases w.context_or_ne with ⟨id, rfl⟩ | hne
      · rw [hs]
        exact ih hs
      · rw [Node.ofValue_of_ne hne] at hs
        right
        refine ⟨notAContext s (passed ++ [s]), ?_, by rw [hs]⟩
        simp only

/-- `follow_cases` from the root: whether an operation gets to the context above a leaf is told by the map. -/
theorem parentOf_cases (hrep : Represents h root m) (n : Name) :
    (∃ c, parentOf h root n = .ok c ∧ m.check [] n.parents = .ok () ∧
      m.node? n.parents = some (.context c)) ∨
    ∃ e, parentOf h root n = .error e ∧ m.check [] n.parents = .error e := by
  exact hrep.follow_cases hrep.node?_nil

/-- A new root is a path map with nothing in it but itself. The other contexts of the heap may be anything:
they cannot be seen from a context that binds nothing. -/
theorem fresh (hholds : h.HoldsContexts) (separator : Separator) :
    Represents (h.push separator) h.size (.fresh separator h.size) := by
  -- The only path that leads anywhere is the one of no segments.
  have hempty : ∀ s, (h.push separator).get? h.size s = none := by
    intro s
    rw [Heap.get?_push, Heap.get?_of_size_le h (Nat.le_refl _)]
  have hnode : ∀ p o, (PathMap.fresh separator h.size).node? p = some (.context o) →
      p = [] ∧ o = h.size := by
    intro p o hp
    simp only [PathMap.fresh] at hp
    split at hp
    · next heq => cases hp; exact ⟨heq, rfl⟩
    · cases hp
  constructor
  case node?_eq =>
    intro p
    cases p with
    | nil => rfl
    | cons s p => simp [PathMap.fresh, hempty]
  case unshared =>
    intro p q o hp hq
    rw [(hnode p o hp).1, (hnode q o hq).1]
  case lt_size =>
    intro p o hp
    rw [(hnode p o hp).2, Heap.size_push]
    exact Nat.lt_succ_self _
  case nodup_keys =>
    intro p o hp
    rw [(hnode p o hp).2, Heap.context_push, if_pos rfl]
    exact List.nodup_nil
  case next_eq =>
    rw [Heap.size_push]
    rfl
  case separator_eq =>
    rw [Heap.context_push, if_pos rfl]
    rfl
  case holdsContexts =>
    intro id s v hv hnode
    rw [Heap.get?_push] at hv
    exact hholds id s v hv hnode

/-! ### Changing one binding

Each change is proved field by field. The field that carries the others is `node?_eq`: once it is known what
the map has after the change, the rest is a matter of which contexts are still there. -/

/-- What is seen of a heap that differs in what one context, which the map has at `d`, binds to `s`: that is
`x` now. On the paths through this binding the rest of the path goes on from `x`; on all others the map is
right as it was. A heap with shared contexts would show the change at other paths as well. -/
theorem at?_changed (hrep : Represents h root m) (hd : m.node? d = some (.context c)) {x : Option Value}
    (hget : ∀ id t, g.get? id t = if c = id ∧ s = t then x else h.get? id t) (q : List Segment) :
    (∃ rest, q = d ++ [s] ++ rest ∧ g.at? (.context root) q = x.bind fun w => g.at? w rest) ∨
    (¬d ++ [s] <+: q ∧ (g.at? (.context root) q).map Node.ofValue = m.node? q) := by
  have hd' : h.at? (.context root) d = some (.context c) := hrep.node?_eq_context_iff.mp hd
  have hone : ∀ q, h.at? (.context root) q = some (.context c) → q = d := by
    intro q hq
    exact hrep.unshared q d c (hrep.node?_eq_context_iff.mpr hq) hd
  rcases Heap.at?_changed hd' hone hget q with hbelow | ⟨hpre, hat⟩
  · exact .inl hbelow
  · right
    exact ⟨hpre, by rw [hat, hrep.node?_eq]⟩

/-- A value takes the place of what was bound, whatever was below that. -/
theorem put (hrep : Represents h root m) (hd : m.node? d = some (.context c)) (s : Segment)
    (hv : v.isNode = false) : Represents (h.put c s v) root (m.set (d ++ [s]) v) := by
  have hc : c < h.size := hrep.lt_size d c hd
  have hne : ∀ id, v ≠ .context id := by
    rintro id rfl
    cases hv
  constructor
  case node?_eq =>
    intro q
    rw [PathMap.node?_set]
    -- Through the binding there is the value and nothing below it; beside it nothing has changed.
    rcases hrep.at?_changed hd (h.get?_put hc s v) q with ⟨rest, rfl, hat⟩ | ⟨hpre, hat⟩
    · rw [hat, Option.bind_some]
      cases rest with
      | nil => simp [Node.ofValue_of_ne hne]
      | cons t rest => simp [Heap.at?_cons_of_ne hne]
    · have hq : q ≠ d ++ [s] := fun heq => hpre (heq ▸ List.prefix_rfl)
      rw [if_neg hq, if_neg hpre, hat]
  -- A value adds no context, so what is said of contexts stays true of those that are left.
  case unshared =>
    intro p q o hp hq
    exact hrep.unshared p q o (PathMap.node?_of_set_context hp) (PathMap.node?_of_set_context hq)
  case lt_size =>
    intro p o hp
    rw [Heap.size_put]
    exact hrep.lt_size p o (PathMap.node?_of_set_context hp)
  case nodup_keys =>
    intro p o hp
    have hnodup := hrep.nodup_keys p o (PathMap.node?_of_set_context hp)
    rw [Heap.context_put h hc]
    split
    · next heq => subst heq; exact OrderedMap.nodup_keys_put hnodup s v
    · exact hnodup
  case next_eq =>
    rw [Heap.size_put]
    exact hrep.next_eq
  case separator_eq =>
    rw [Heap.separator_put]
    exact hrep.separator_eq
  case holdsContexts =>
    intro id t w hw hnode
    rcases Heap.eq_or_of_get?_put hw with rfl | hw
    · rw [hv] at hnode
      cases hnode
    · exact hrep.holdsContexts id t w hw hnode

/-- A binding is removed, and nothing is seen below its path any more. -/
theorem erase (hrep : Represents h root m) (hd : m.node? d = some (.context c)) (s : Segment) :
    Represents (h.erase c s) root (m.remove (d ++ [s])) := by
  have hc : c < h.size := hrep.lt_size d c hd
  have hget := h.get?_erase hc (hrep.nodup_keys d c hd) s
  constructor
  case node?_eq =>
    intro q
    rw [PathMap.node?_remove]
    -- Through the binding there is nothing now.
    rcases hrep.at?_changed hd hget q with ⟨rest, rfl, hat⟩ | ⟨hpre, hat⟩
    · rw [hat, if_pos (List.prefix_append _ _)]
      rfl
    · rw [if_neg hpre, hat]
  case unshared =>
    intro p q o hp hq
    exact hrep.unshared p q o (PathMap.node?_of_remove_context hp) (PathMap.node?_of_remove_context hq)
  case lt_size =>
    intro p o hp
    rw [Heap.size_erase]
    exact hrep.lt_size p o (PathMap.node?_of_remove_context hp)
  case nodup_keys =>
    intro p o hp
    have hnodup := hrep.nodup_keys p o (PathMap.node?_of_remove_context hp)
    rw [Heap.context_erase h hc]
    split
    · next heq => subst heq; exact hnodup.sublist (OrderedMap.keys_erase_sublist _ s)
    · exact hnodup
  case next_eq =>
    rw [Heap.size_erase]
    exact hrep.next_eq
  case separator_eq =>
    rw [Heap.separator_erase]
    exact hrep.separator_eq
  case holdsContexts =>
    intro id t w hw hnode
    rw [hget] at hw
    split at hw
    · cases hw
    · exact hrep.holdsContexts id t w hw hnode

/-- A new context is bound where nothing was. It is numbered by the size of the heap, which no context of the
map has, so it is not shared either. -/
theorem grow (hrep : Represents h root m) (hd : m.node? d = some (.context c))
    (hs : m.node? (d ++ [s]) = none) (separator : Separator) :
    Represents ((h.push separator).put c s (.context h.size)) root (m.addContext (d ++ [s])) := by
  have hc : c < h.size := hrep.lt_size d c hd
  have hroot : root < h.size := hrep.lt_size [] root hrep.node?_nil
  have hc' : c < (h.push separator).size := by rw [Heap.size_push]; omega
  have hget : ∀ id t, ((h.push separator).put c s (.context h.size)).get? id t =
      if c = id ∧ s = t then some (.context h.size) else h.get? id t := by
    intro id t
    rw [Heap.get?_put _ hc', Heap.get?_push]
  have hcontext : ∀ q o, (m.addContext (d ++ [s])).node? q = some (.context o) →
      (q = d ++ [s] ∧ o = h.size) ∨ m.node? q = some (.context o) := by
    intro q o hq
    rw [PathMap.node?_addContext] at hq
    split at hq
    · next heq => cases hq; exact .inl ⟨heq, hrep.next_eq⟩
    · exact .inr hq
  constructor
  case node?_eq =>
    intro q
    rw [PathMap.node?_addContext]
    rcases hrep.at?_changed hd hget q with ⟨rest, rfl, hat⟩ | ⟨hpre, hat⟩
    · rw [hat, Option.bind_some]
      -- A new context binds nothing yet, and nothing was mapped below its path.
      cases rest with
      | nil => simp [hrep.next_eq]
      | cons t rest =>
        have hnew : h.get? h.size t = none := h.get?_of_size_le (Nat.le_refl _) t
        have hne : ¬(c = h.size ∧ s = t) := fun heq => Nat.ne_of_lt hc heq.1
        rw [Heap.at?_context_cons, hget, if_neg hne, hnew, hrep.node?_below hs]
        simp
    · have hq : q ≠ d ++ [s] := fun heq => hpre (heq ▸ List.prefix_rfl)
      rw [if_neg hq, hat]
  case unshared =>
    intro p q o hp hq
    -- The new number is none of those that the map had before.
    rcases hcontext p o hp with ⟨rfl, ho⟩ | hp <;> rcases hcontext q o hq with ⟨rfl, ho'⟩ | hq
    · rfl
    · exact absurd (hrep.lt_size q o hq) (by omega)
    · exact absurd (hrep.lt_size p o hp) (by omega)
    · exact hrep.unshared p q o hp hq
  case lt_size =>
    intro p o hp
    rw [Heap.size_put, Heap.size_push]
    rcases hcontext p o hp with ⟨-, rfl⟩ | hp
    · exact Nat.lt_succ_self _
    · exact Nat.lt_succ_of_lt (hrep.lt_size p o hp)
  case nodup_keys =>
    intro p o hp
    have hnodup : (OrderedMap.keys ((h.push separator).context o).bindings).Nodup := by
      rw [Heap.context_push]
      rcases hcontext p o hp with ⟨-, rfl⟩ | hp
      · rw [if_pos rfl]
        exact List.nodup_nil
      · rw [if_neg (Nat.ne_of_lt (hrep.lt_size p o hp))]
        exact hrep.nodup_keys p o hp
    rw [Heap.context_put _ hc']
    split
    · next heq => subst heq; exact OrderedMap.nodup_keys_put hnodup s _
    · exact hnodup
  case next_eq =>
    rw [Heap.size_put, Heap.size_push]
    show m.next + 1 = h.size + 1
    rw [hrep.next_eq]
  case separator_eq =>
    rw [Heap.separator_put, Heap.context_push, if_neg (Nat.ne_of_lt hroot)]
    exact hrep.separator_eq
  case holdsContexts =>
    exact hrep.holdsContexts.grow separator c s

end Represents
end NamingDirectory.Memory
