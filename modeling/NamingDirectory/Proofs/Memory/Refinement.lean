import NamingDirectory.Proofs.Memory.Representation
import NamingDirectory.Proofs.Memory.Walk

/-!
# A tree of memory contexts is a path map

The operations of a memory context and the bind of the client, on a new root, answer as the operations on a
path map do. One operation keeps `Represents` and gives the answer of the map (`Represents.perform_refines`),
and so does a run of them (`Represents.inTurn_refines`). What holds of the map then holds of the tree: its
contexts list what is mapped below them (`Represents.list_eq`), and a path that stays a context keeps its
object (`PathMap.node?_inTurn_of_context`).

The operations of a context all begin alike: they read a name and go to the context that holds its leaf. What
is done there is all that sets them apart, so the beginning is compared with the map once (`reach_matches`).
The bind of the client is not one of them. It walks down the segments, and creates contexts on its way; this
walk is compared with `fill` by induction on the segments (`plant_clear`, `plant_obstacle`).
-/

namespace NamingDirectory.Memory

open Client (notANode)

/-- Carries out an operation on the context with a given number. -/
def perform (root : Nat) (op : Operation) (r : Realm) : Answer × Realm :=
  match op with
  | .lookup name => Realm.answer ⟨.context root, .lookup name⟩ r
  | .rebind name v => Realm.answer ⟨.context root, .rebind name v⟩ r
  | .create name => Realm.answer ⟨.context root, .createContext name⟩ r
  | .unbind name => Realm.unbind (.context root) name r
  | .bind text v =>
    let (result, r) := r.bind (.text text) v (.context root)
    (result.map fun _ => .null, r)

namespace Represents

variable {h : Heap} {root id : Nat} {m : PathMap} {passed : List Segment} {name v : Value} {n : Name}

/-! ### One operation

For each operation there is a lemma on heaps, before realms, dialogues and events come in. -/

/-- An operation that may change a heap comes out as one on the map does: both give the answer `v` and agree
afterwards, or both are at the same fault and change nothing. The answer is a parameter because the heap does
not have it: a creation answers with the number of the new context, the others with nothing. -/
def Matches (root : Nat) (m : PathMap) (result : Except Fault Heap) (v : Value)
    (out : Answer × PathMap) : Prop :=
  match result with
  | .ok h => out.1 = .ok v ∧ Represents h root out.2
  | .error e => out = (.error e, m)

/-- A name is read on the map as the root reads it. -/
theorem nameFor_eq (hrep : Represents h root m) :
    nameFor h root name = (Name.Grammar.composite m.separator).resolve name := by
  rw [nameFor, hrep.separator_eq]

/-- What the map has at the path of a name is what the context above the leaf binds the leaf to. -/
theorem node?_segments (hrep : Represents h root m) {c : Nat}
    (hc : m.node? n.parents = some (.context c)) :
    m.node? n.segments = (h.get? c n.leaf).map Node.ofValue := by
  rw [← Name.parents_append_leaf, hrep.node?_concat hc]

/-- A lookup brings what the map has, and is at the same fault where the map has nothing. -/
theorem lookup_refines (hrep : Represents h root m) :
    (Memory.lookup h root name, m) = m.perform (.lookup name) := by
  rw [Memory.lookup, PathMap.perform, hrep.nameFor_eq]
  cases (Name.Grammar.composite m.separator).resolve name with
  | error e => rfl
  | ok n =>
    simp only [PathMap.reading, PathMap.lookup, bind, Except.bind]
    rcases hrep.parentOf_cases n with ⟨c, hc, hcheck, hnode⟩ | ⟨e, hc, hcheck⟩
    · rw [hc, hcheck, hrep.node?_segments hnode]
      cases hw : h.get? c n.leaf with
      | none => simp only [hw]; rfl
      | some w => simp only [hw, Option.map_some, Node.toValue_ofValue]; rfl
    · rw [hc, hcheck]

/-- What is done at the end of a path of contexts comes out as on the map if it does where the map has such a
path, and where it has none the map is at fault as well. -/
theorem reach_matches (hrep : Represents h root m) {next : Name → Nat → Except Fault Heap}
    {out : Name → Answer × PathMap}
    (hok : ∀ n c, m.node? n.parents = some (.context c) → m.check [] n.parents = .ok () →
      Matches root m (next n c) v (out n))
    (herror : ∀ n e, m.check [] n.parents = .error e → out n = (.error e, m)) :
    Matches root m
      (do let n ← nameFor h root name
          let c ← parentOf h root n
          next n c)
      v (m.reading ((Name.Grammar.composite m.separator).resolve name) out) := by
  rw [hrep.nameFor_eq]
  cases (Name.Grammar.composite m.separator).resolve name with
  | error e => rfl
  | ok n =>
    simp only [PathMap.reading, bind, Except.bind]
    rcases hrep.parentOf_cases n with ⟨c, hc, hcheck, hnode⟩ | ⟨e, hc, hcheck⟩
    · rw [hc]
      exact hok n c hnode hcheck
    · rw [hc]
      exact herror n e hcheck

/-- A rebind sets the path of its name. That no node is bound is what keeps the tree a tree. -/
theorem rebind_matches (hrep : Represents h root m) (hv : v.isNode = false) :
    Matches root m (Memory.rebind h root name v) .null (m.perform (.rebind name v)) := by
  apply hrep.reach_matches
  · intro n c hc hcheck
    rw [PathMap.rebind, hcheck, ← Name.parents_append_leaf]
    exact ⟨rfl, hrep.put hc n.leaf hv⟩
  · intro n e he
    rw [PathMap.rebind, he]

/-- An unbind removes the path of its name, or does nothing if only the leaf is missing. -/
theorem unbind_matches (hrep : Represents h root m) :
    Matches root m (Memory.unbind h root name) .null (m.perform (.unbind name)) := by
  apply hrep.reach_matches
  · intro n c hc hcheck
    rw [PathMap.unbind, hcheck, ← Name.parents_append_leaf]
    exact ⟨rfl, hrep.erase hc n.leaf⟩
  · intro n e he
    rw [PathMap.unbind, he]

/-- A creation adds a context to the map, whose object has the number that the heap gives it. -/
theorem create_matches (hrep : Represents h root m) :
    Matches root m (Memory.create h root name) (.context h.size) (m.perform (.create name)) := by
  apply hrep.reach_matches
  · intro n c hc hcheck
    have hleaf : m.node? n.segments = (h.get? c n.leaf).map Node.ofValue := hrep.node?_segments hc
    rw [PathMap.create, hcheck]
    cases hw : h.get? c n.leaf with
    | some w =>
      rw [hw, Option.map_some] at hleaf
      simp only [hleaf]
      rfl
    | none =>
      rw [hw, Option.map_none] at hleaf
      simp only [hleaf]
      rw [← Name.parents_append_leaf] at hleaf ⊢
      exact ⟨by rw [hrep.next_eq], hrep.grow hc hleaf _⟩
  · intro n e he
    rw [PathMap.create, he]

/-- The walk fills the path and sets its end, if no value is in the way. By induction on the segments ahead,
with the heap and the map both changing under it: a context that the walk creates is one that `fill` adds,
under the same number. -/
theorem plant_clear (hrep : Represents h root m) (hid : m.node? passed = some (.context id))
    (hv : v.isNode = false) (s : Segment) (rest : List Segment)
    (hclear : m.obstacle? passed (Name.initOf s rest) = none) :
    ∃ h', plant name v h id (s :: rest) = (.ok (), h') ∧
      Represents h' root ((m.fill passed (Name.initOf s rest)).set (passed ++ s :: rest) v) := by
  -- Along the segments. Where a context is missing, the heap and the map both get it.
  induction rest generalizing h m id passed s with
  | nil => exact ⟨h.put id s v, plant_single, hrep.put hid s hv⟩
  | cons t rest ih =>
    have hs : m.node? (passed ++ [s]) = (h.get? id s).map Node.ofValue := hrep.node?_concat hid
    have happ : passed ++ s :: t :: rest = passed ++ [s] ++ t :: rest := List.append_cons _ _ _
    rw [Name.initOf, PathMap.obstacle?] at hclear
    rw [Name.initOf, PathMap.fill, happ]
    cases hw : h.get? id s with
    | none =>
      rw [hw, Option.map_none] at hs
      rw [hs] at hclear
      rw [hs, plant_of_unbound hw]
      have hnew : (m.addContext (passed ++ [s])).node? (passed ++ [s]) = some (.context h.size) := by
        rw [PathMap.node?_addContext, if_pos rfl, hrep.next_eq]
      apply ih (hrep.grow hid hs _) hnew
      rw [PathMap.obstacle?_addContext List.prefix_rfl]
      exact hclear
    | some w =>
      rw [hw, Option.map_some] at hs
      rcases w.context_or_ne with ⟨c, rfl⟩ | hne
      · rw [hs] at hclear
        rw [hs, plant_of_context hw]
        exact ih hrep hs t hclear
      · rw [hs, Node.ofValue_of_ne hne] at hclear
        cases hclear

/-- The walk gives up before a value that is in the way. It has created nothing by then, since nothing is
mapped, and so nothing in the way, below a path that is not mapped. -/
theorem plant_obstacle (hrep : Represents h root m) (hid : m.node? passed = some (.context id))
    (s t : Segment) (rest : List Segment) (hvalue : m.obstacle? passed (Name.initOf s rest) = some t) :
    plant name v h id (s :: rest) = (.error (notANode (.text t.text) name), h) := by
  induction rest generalizing id passed s with
  | nil => cases hvalue
  | cons u rest ih =>
    have hs : m.node? (passed ++ [s]) = (h.get? id s).map Node.ofValue := hrep.node?_concat hid
    rw [Name.initOf, PathMap.obstacle?] at hvalue
    cases hw : h.get? id s with
    | none =>
      -- Nothing is mapped from here on, so nothing is in the way.
      rw [hw, Option.map_none] at hs
      rw [hs, hrep.obstacle?_below hs] at hvalue
      cases hvalue
    | some w =>
      rw [hw, Option.map_some] at hs
      rcases w.context_or_ne with ⟨c, rfl⟩ | hne
      · rw [hs] at hvalue
        rw [plant_of_context hw]
        exact ih hs u hvalue
      · rw [hs, Node.ofValue_of_ne hne] at hvalue
        cases hvalue
        exact plant_of_value hw hne

end Represents

/-- A realm after an operation that comes out as one on the map does. Nothing but the heap of the realm is
looked at from here on. -/
theorem Represents.withHeap {r : Realm} {root : Nat} {m : PathMap} (hrep : Represents r.heap root m)
    {result : Except Fault Heap} {v : Value} {out : Answer × PathMap}
    (hmatch : Represents.Matches root m result v out) :
    (r.withHeap result v).1 = out.1 ∧ Represents (r.withHeap result v).2.heap root out.2 := by
  cases result with
  | ok h => exact ⟨hmatch.1.symm, hmatch.2⟩
  | error e =>
    obtain rfl : out = (.error e, m) := hmatch
    exact ⟨rfl, hrep⟩

/-- A bind of the client comes out as the one on the map. The rebind that the client tries first is not seen
here: `run_bind_text` has it that a bind is as good as its walk alone. -/
theorem Represents.attempt_refines {h : Heap} {root : Nat} {m : PathMap} (hrep : Represents h root m)
    (text : String) {v : Value} (hv : v.isNode = false) :
    ((attempt h root text v).1.map fun _ => .null) = (m.perform (.bind text v)).1 ∧
      Represents (attempt h root text v).2 root (m.perform (.bind text v)).2 := by
  have hread : readName h root (.text text) =
      (Name.Grammar.composite m.separator).parse (.text text) := by
    rw [readName, hrep.separator_eq]
  rw [attempt, PathMap.perform, hread]
  cases (Name.Grammar.composite m.separator).parse (.text text) with
  | error e => exact ⟨rfl, hrep⟩
  | ok n =>
    show ((plant (.text text) v h root n.segments).1.map fun _ => .null) = (m.bind text n v).1 ∧
      Represents (plant (.text text) v h root n.segments).2 root (m.bind text n v).2
    rw [PathMap.bind]
    cases hway : m.obstacle? [] n.parents with
    | some s =>
      -- The walk is stopped where the map is, and by the same fault.
      have hplant : plant (.text text) v h root n.segments =
          (.error (notANode (.text s.text) (.text text)), h) :=
        hrep.plant_obstacle hrep.node?_nil n.first s n.rest hway
      rw [hplant]
      exact ⟨rfl, hrep⟩
    | none =>
      -- With nothing in the way the contexts that are missing are added on both sides, and the leaf is set.
      obtain ⟨h', hplant, hrep'⟩ :
          ∃ h', plant (.text text) v h root n.segments = (.ok (), h') ∧
            Represents h' root ((m.fill [] n.parents).set n.segments v) :=
        hrep.plant_clear hrep.node?_nil hv n.first n.rest hway
      have hrebind : (m.fill [] n.parents).rebind n v =
          (.ok .null, (m.fill [] n.parents).set n.segments v) := by
        rw [PathMap.rebind, PathMap.check_fill hway]
      rw [hplant, hrebind]
      exact ⟨rfl, hrep'⟩

/-- One operation on the tree comes out as on the map. -/
theorem Represents.perform_refines {r : Realm} {root : Nat} {m : PathMap}
    (hrep : Represents r.heap root m) (op : Operation) (hop : op.IsPlain) :
    (perform root op r).1 = (m.perform op).1 ∧
      Represents (perform root op r).2.heap root (m.perform op).2 := by
  cases op with
  | lookup name =>
    rw [← hrep.lookup_refines]
    exact ⟨rfl, hrep⟩
  | rebind name v => exact hrep.withHeap (hrep.rebind_matches hop)
  | create name => exact hrep.withHeap hrep.create_matches
  | unbind name => exact hrep.withHeap hrep.unbind_matches
  | bind text v =>
    obtain ⟨log, hbind⟩ := run_bind_text r hrep.holdsContexts root text v
    rw [perform, hbind]
    exact hrep.attempt_refines text hop

/-- A run of operations on the tree comes out as on the map. -/
theorem Represents.inTurn_refines {r : Realm} {root : Nat} {m : PathMap}
    (hrep : Represents r.heap root m) (ops : List Operation) (hops : ∀ op ∈ ops, op.IsPlain) :
    (inTurn (perform root) ops r).1 = (inTurn PathMap.perform ops m).1 ∧
      Represents (inTurn (perform root) ops r).2.heap root (inTurn PathMap.perform ops m).2 :=
  Memory.inTurn_refines (R := fun (r : Realm) m => Represents r.heap root m)
    (fun op hop _ _ h => h.perform_refines op hop) ops hops hrep

/-- A context lists the segments below it that are mapped. -/
theorem Represents.list_eq {r : Realm} {root : Nat} {m : PathMap} (hrep : Represents r.heap root m)
    {p : List Segment} {o : Nat} (hp : m.node? p = some (.context o)) :
    ∃ keys : List String, r.list (.context o) = .ok (.list (keys.map .text)) ∧
      keys.Pairwise (· < ·) ∧
      ∀ t, t ∈ keys ↔ ∃ s : Segment, s.text = t ∧ (m.node? (p ++ [s])).isSome = true := by
  refine ⟨r.heap.keys o, rfl, r.heap.pairwise_keys (hrep.nodup_keys p o hp), ?_⟩
  intro t
  rw [Heap.mem_keys_iff]
  simp only [hrep.node?_concat hp, Option.isSome_map]

/-- Any run of operations on a new root answers as on a path map that starts with the root alone, where no
node of a directory tree is bound as a value. At the end of it, and so at any time, the map has contexts above
every path, no object at two paths, and at each context just what the context lists. A path that stays a
context keeps its object.

The realm is any one, with other contexts, servers and events in it; none of it matters, as nothing of it can
be reached from the new root. -/
theorem run_eq_pathMap (separator : Separator) (r : Realm) (hholds : r.heap.HoldsContexts)
    (ops : List Operation) (hops : ∀ op ∈ ops, op.IsPlain) :
    let root := r.heap.size
    let start := PathMap.fresh separator root
    let run := inTurn (perform root) ops (r.addContext separator).2
    let m := (inTurn PathMap.perform ops start).2
    run.1 = (inTurn PathMap.perform ops start).1 ∧
    m.node? [] = some (.context root) ∧
    (∀ p q, q ≠ [] → (m.node? (p ++ q)).isSome = true → ∃ o, m.node? p = some (.context o)) ∧
    (∀ p q o, m.node? p = some (.context o) → m.node? q = some (.context o) → p = q) ∧
    (∀ p o, m.node? p = some (.context o) →
      ∃ keys : List String, run.2.list (.context o) = .ok (.list (keys.map .text)) ∧
        keys.Pairwise (· < ·) ∧
        ∀ t, t ∈ keys ↔ ∃ s : Segment, s.text = t ∧ (m.node? (p ++ [s])).isSome = true) ∧
    (∀ before after, before ++ after = ops → ∀ p o,
      (inTurn PathMap.perform before start).2.node? p = some (.context o) →
      (∀ between, between <+: after →
        ∃ o', (inTurn PathMap.perform (before ++ between) start).2.node? p = some (.context o')) →
      m.node? p = some (.context o)) := by
  intro root start run m
  have hfresh : Represents (r.addContext separator).2.heap root start := Represents.fresh hholds separator
  obtain ⟨hanswers, hrep⟩ := hfresh.inTurn_refines ops hops
  refine ⟨hanswers, hrep.node?_nil, ?_, hrep.unshared, ?_, ?_⟩
  · intro p q hq hpq
    exact hrep.context_above hq hpq
  · intro p o hp
    exact hrep.list_eq hp
  · -- A path is looked at after each operation from there on, and in between it never stops being a context.
    rintro before after rfl p o ho hstays
    show (inTurn PathMap.perform (before ++ after) start).2.node? p = _
    rw [inTurn_append]
    apply PathMap.node?_inTurn_of_context after ho
    intro between hbetween
    rw [← inTurn_append]
    exact hstays between hbetween

/-- A bind through a missing context, and a value bound over that context. -/
theorem run_eq_pathMap_overwritten :
    let ops : List Operation := [.bind "a.b" (.int 1), .lookup (.text "a"), .rebind (.text "a") .null,
      .lookup (.text "a.b")]
    Realm.empty.heap.HoldsContexts ∧ (∀ op ∈ ops, op.IsPlain) ∧
      (inTurn (perform 0) ops (Realm.empty.addContext ⟨'.', by decide⟩).2).1 =
        [.ok .null, .ok (.context 1), .ok .null,
          .error (notAContext ⟨"a", by decide⟩ [⟨"a", by decide⟩])] := by
  intro ops
  have hholds : Realm.empty.heap.HoldsContexts := by
    intro id s v hv
    cases hv
  have hops : ∀ op ∈ ops, op.IsPlain := by
    simp [ops, Operation.IsPlain, Value.isNode]
  exact ⟨hholds, hops, (run_eq_pathMap ⟨'.', by decide⟩ .empty hholds ops hops).1.trans rfl⟩

end NamingDirectory.Memory
