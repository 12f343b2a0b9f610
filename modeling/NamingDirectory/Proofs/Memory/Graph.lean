import NamingDirectory.Memory.Context

/-!
# Paths through the heap

The contexts of a heap are a graph: each binding of a segment to a context is an edge, and there may be
sharing and cycles. `Heap.at?` follows a path of segments through it, and is what the operations are compared
with:

* `follow_eq_ok_iff` — an operation gets to the context that holds a leaf iff the path above the leaf leads
  there;
* `Heap.at?_outside` and `Heap.at?_within` — if only one path leads to a context, a change of one of its
  bindings is seen on the paths through that binding, and on no others;
* `lookup_eq_ok_iff`, `rebind_eq_ok_iff`, `unbind_eq_ok_iff` and `create_eq_ok_iff` — what each operation does
  when it succeeds, all of it at the place that its name has (`place?`).

Paths are followed from a value and not from the number of a context, so that the induction on a path can go
on from whatever its first segment is bound to.
-/

namespace NamingDirectory.Memory
namespace Heap

/-- What a path of segments leads to from a value. Only contexts lead anywhere. -/
def at? (h : Heap) : Value → List Segment → Option Value
  | v, [] => some v
  | .context id, s :: rest => (h.get? id s).bind fun w => h.at? w rest
  | _, _ :: _ => none

variable {g h : Heap} {v w : Value} {c id : Nat} {s : Segment} {p q : List Segment}

/-! ### Following a path -/

@[simp] theorem at?_nil : h.at? v [] = some v := by
  rw [at?]

@[simp] theorem at?_context_cons :
    h.at? (.context id) (s :: p) = (h.get? id s).bind fun w => h.at? w p := by
  rw [at?]

theorem at?_cons_of_ne (hv : ∀ id, v ≠ .context id) : h.at? v (s :: p) = none := by
  rw [at?]
  intro id hid
  exact hv id hid

theorem at?_append : h.at? v (p ++ q) = (h.at? v p).bind fun w => h.at? w q := by
  induction p generalizing v with
  | nil => simp
  | cons s p ih =>
    rcases v.context_or_ne with ⟨id, rfl⟩ | hv
    · rw [List.cons_append, at?_context_cons, at?_context_cons, Option.bind_assoc]
      congr 1
      funext w
      exact ih
    · rw [List.cons_append, at?_cons_of_ne hv, at?_cons_of_ne hv, Option.bind_none]

theorem at?_append_of_eq_some (hp : h.at? v p = some w) : h.at? v (p ++ q) = h.at? w q := by
  rw [at?_append, hp, Option.bind_some]

/-- One segment below a path that leads to a context is what the context binds it to. -/
theorem at?_concat (hp : h.at? v p = some (.context c)) : h.at? v (p ++ [s]) = h.get? c s := by
  rw [at?_append_of_eq_some hp, at?_context_cons]
  simp

/-- What leads anywhere is a context. -/
theorem eq_context_of_at?_cons (hp : h.at? v (s :: p) = some w) : ∃ id, v = .context id := by
  rcases v.context_or_ne with hv | hv
  · exact hv
  · rw [at?_cons_of_ne hv] at hp
    cases hp

/-- A path to a context starts with a step to a context. -/
theorem step_of_at?_eq_context (hp : h.at? (.context id) (s :: p) = some (.context c)) :
    ∃ child, h.get? id s = some (.context child) ∧ h.at? (.context child) p = some (.context c) := by
  rw [at?_context_cons] at hp
  obtain ⟨w, hw, hp⟩ := Option.bind_eq_some_iff.mp hp
  cases p with
  | nil => cases hp; exact ⟨c, hw, at?_nil⟩
  | cons t p =>
    obtain ⟨child, rfl⟩ := eq_context_of_at?_cons hp
    exact ⟨child, hw, hp⟩

/-- A path that leads somewhere passes contexts only. -/
theorem context_of_at?_append (hq : q ≠ []) (hp : h.at? v (p ++ q) = some w) :
    ∃ id, h.at? v p = some (.context id) := by
  rw [at?_append] at hp
  obtain ⟨u, hu, hw⟩ := Option.bind_eq_some_iff.mp hp
  obtain ⟨t, q', rfl⟩ := List.exists_cons_of_ne_nil hq
  obtain ⟨id, rfl⟩ := eq_context_of_at?_cons hw
  exact ⟨id, hu⟩

/-! ### Changing one binding

`g` is `h` but for what the context `c` binds to `s`. -/

/-- A path that does not take the changed binding leads where it led before. -/
theorem at?_eq_of_avoids (hg : ∀ id t, ¬(id = c ∧ t = s) → g.get? id t = h.get? id t)
    (hq : ∀ q₁ q₂, q = q₁ ++ s :: q₂ → h.at? v q₁ ≠ some (.context c)) :
    g.at? v q = h.at? v q := by
  -- Along the path. The first step is not the changed one, and a prefix of the rest is one of the whole.
  induction q generalizing v with
  | nil => rw [at?_nil, at?_nil]
  | cons t q ih =>
    rcases v.context_or_ne with ⟨id, rfl⟩ | hv
    · have hne : ¬(id = c ∧ t = s) := by
        rintro ⟨rfl, rfl⟩
        exact hq [] q rfl at?_nil
      rw [at?_context_cons, at?_context_cons, hg id t hne]
      cases hw : h.get? id t with
      | none => rfl
      | some w =>
        rw [Option.bind_some, Option.bind_some]
        apply ih
        intro q₁ q₂ heq hq₁
        refine hq (t :: q₁) q₂ (by rw [heq, List.cons_append]) ?_
        rw [at?_context_cons, hw, Option.bind_some, hq₁]
    · rw [at?_cons_of_ne hv, at?_cons_of_ne hv]

/-- If one path alone leads to the changed context, the other paths lead where they led before. -/
theorem at?_outside (hg : ∀ id t, ¬(id = c ∧ t = s) → g.get? id t = h.get? id t)
    (hone : ∀ q, h.at? v q = some (.context c) → q = p) (hq : ¬p ++ [s] <+: q) :
    g.at? v q = h.at? v q := by
  apply at?_eq_of_avoids hg
  -- To take the changed binding is to come by the one path to `c`.
  intro q₁ q₂ heq hq₁
  apply hq
  rw [hone q₁ hq₁] at heq
  exact ⟨q₂, by rw [heq, List.append_assoc, List.singleton_append]⟩

/-- Below the changed binding a path goes on from what is bound there now. -/
theorem at?_within (hg : ∀ id t, ¬(id = c ∧ t = s) → g.get? id t = h.get? id t)
    (hp : h.at? v p = some (.context c)) (hone : ∀ q, h.at? v q = some (.context c) → q = p) :
    g.at? v (p ++ s :: q) = (g.get? c s).bind fun w => g.at? w q := by
  have hout : ¬p ++ [s] <+: p := by
    intro hpre
    have hle := hpre.length_le
    rw [List.length_append, List.length_singleton] at hle
    omega
  rw [at?_append, at?_outside hg hone hout, hp, Option.bind_some, at?_context_cons]

/-- What is seen of a heap in which one binding was changed, to `x`, if one path alone leads to it: on that path
the rest of it from `x`, and on the others what was seen before. -/
theorem at?_changed (hp : h.at? v p = some (.context c))
    (hone : ∀ q, h.at? v q = some (.context c) → q = p) {x : Option Value}
    (hget : ∀ id t, g.get? id t = if c = id ∧ s = t then x else h.get? id t) (q : List Segment) :
    (∃ rest, q = p ++ [s] ++ rest ∧ g.at? v q = x.bind fun w => g.at? w rest) ∨
      (¬p ++ [s] <+: q ∧ g.at? v q = h.at? v q) := by
  have hself : g.get? c s = x := by rw [hget, if_pos ⟨rfl, rfl⟩]
  have hg : ∀ id t, ¬(id = c ∧ t = s) → g.get? id t = h.get? id t := by
    intro id t hoff
    rw [hget, if_neg]
    rintro ⟨rfl, rfl⟩
    exact hoff ⟨rfl, rfl⟩
  by_cases hpre : p ++ [s] <+: q
  · obtain ⟨rest, rfl⟩ := hpre
    left
    refine ⟨rest, rfl, ?_⟩
    rw [← List.append_cons, at?_within hg hp hone, hself]
  · right
    exact ⟨hpre, at?_outside hg hone hpre⟩

/-! ### Kinds of heaps

Two properties that all heaps have that are made by the operations alone, and a heap with a cycle that has
both. -/

/-- All nodes of a directory tree that the contexts of a heap bind are memory contexts. -/
def HoldsContexts (h : Heap) : Prop :=
  ∀ id s v, h.get? id s = some v → v.isNode = true → ∃ c, v = .context c

/-- All contexts that are bound somewhere in a heap are in the heap. -/
def Closed (h : Heap) : Prop := ∀ id s c, h.get? id s = some (.context c) → c < h.size

/-- A write to a context that is not there is lost. -/
theorem put_of_size_le (hid : h.size ≤ id) : h.put id s v = h := by
  rw [put, List.set_eq_of_length_le hid]

/-- What is bound after a write was written or was bound before. -/
theorem eq_or_of_get?_put {t : Segment} (hw : (h.put c s v).get? id t = some w) :
    w = v ∨ h.get? id t = some w := by
  by_cases hc : c < h.size
  · rw [get?_put h hc] at hw
    split at hw
    · left; cases hw; rfl
    · right; exact hw
  · rw [put_of_size_le (Nat.le_of_not_lt hc)] at hw
    right
    exact hw

/-- A new context below an old one keeps the nodes of a heap to contexts. -/
theorem HoldsContexts.grow (hh : h.HoldsContexts) (separator : Separator) (c : Nat) (s : Segment) :
    ((h.push separator).put c s (.context h.size)).HoldsContexts := by
  intro id t w hw hnode
  rcases eq_or_of_get?_put hw with rfl | hw
  · exact ⟨h.size, rfl⟩
  · rw [get?_push] at hw
    exact hh id t w hw hnode

/-- In a closed heap every path from a context of the heap to a context ends in the heap. -/
theorem Closed.lt_size_of_at? (hh : h.Closed) (hid : id < h.size)
    (hp : h.at? (.context id) p = some (.context c)) : c < h.size := by
  induction p generalizing id with
  | nil => cases hp; exact hid
  | cons s p ih =>
    obtain ⟨child, hchild, hp⟩ := step_of_at?_eq_context hp
    exact ih (hh id s child hchild) hp

/-- A root that leads to a context with another separator, which leads back to the root. -/
def looped : Heap :=
  ⟨[⟨.slash, [(⟨"a", by decide⟩, .context 1)]⟩,
    ⟨⟨'.', by decide⟩, [(⟨"up", by decide⟩, .context 0), (⟨"x", by decide⟩, .int 3)]⟩]⟩

/-- All that this heap binds, which is little enough to be gone through. -/
theorem get?_looped (hv : looped.get? id s = some v) :
    v = .context 1 ∨ v = .context 0 ∨ v = .int 3 := by
  obtain ⟨c, hc, hmem⟩ := mem_of_get? hv
  simp only [looped, List.mem_cons, List.not_mem_nil, or_false] at hc
  rcases hc with rfl | rfl <;>
    simp only [List.mem_cons, List.not_mem_nil, or_false, Prod.mk.injEq] at hmem
  · exact .inl hmem.2
  · exact .inr (hmem.imp And.right And.right)

theorem holdsContexts_looped : looped.HoldsContexts := by
  intro id s v hv hnode
  rcases get?_looped hv with rfl | rfl | rfl
  · exact ⟨1, rfl⟩
  · exact ⟨0, rfl⟩
  · cases hnode

theorem closed_looped : looped.Closed := by
  intro id s c hv
  rcases get?_looped hv with heq | heq | heq <;> cases heq <;> decide

end Heap

/-! ### Operations

What `at?` says about paths, said about the operations. They name a segment when they fail, and so are told
what was passed before; whether they succeed does not depend on it. -/

variable {h : Heap} {c id : Nat} {s : Segment} {passed p : List Segment}

/-- An operation gets to a context iff the path leads there. -/
theorem follow_eq_ok_iff :
    follow h passed id p = .ok c ↔ h.at? (.context id) p = some (.context c) := by
  induction p generalizing passed id with
  | nil => simp [follow]
  | cons s p ih =>
    rw [follow, Heap.at?_context_cons]
    cases hw : h.get? id s with
    | none => simp
    | some w =>
      rw [Option.bind_some]
      split
      · next heq => cases heq
      · next child heq =>
        cases heq
        exact ih
      · next v hne heq =>
        -- A value is a fault, and leads nowhere.
        cases heq
        refine iff_of_false (by simp) ?_
        intro hp
        cases p with
        | nil => cases hp; exact hne c rfl
        | cons t p =>
          obtain ⟨id', rfl⟩ := Heap.eq_context_of_at?_cons hp
          exact hne id' rfl

/-- An operation fails before it does anything, or gets to the context that holds the leaf of the name. All
the operations on a heap begin like this, so their effects are read off from here. -/
theorem reach_cases (h : Heap) (id : Nat) (name : Value) :
    (∃ e, ∀ {α : Type} (next : Name → Nat → Except Fault α),
      (do let n ← nameFor h id name
          let c ← parentOf h id n
          next n c) = .error e) ∨
    ∃ n c, nameFor h id name = .ok n ∧ h.at? (.context id) n.parents = some (.context c) ∧
      ∀ {α : Type} (next : Name → Nat → Except Fault α),
        (do let n ← nameFor h id name
            let c ← parentOf h id n
            next n c) = next n c := by
  cases hn : nameFor h id name with
  | error e => exact .inl ⟨e, fun _ => rfl⟩
  | ok n =>
    cases hc : parentOf h id n with
    | error e =>
      left
      refine ⟨e, ?_⟩
      intro α next
      simp only [bind, Except.bind, hc]
    | ok c =>
      right
      refine ⟨n, c, rfl, follow_eq_ok_iff.mp hc, ?_⟩
      intro α next
      simp only [bind, Except.bind, hc]

/-- The place of a name: the context that the path above the leaf leads to, and the leaf. -/
theorem place?_eq_some_iff {name : Value} :
    place? h id name = some (c, s) ↔
      ∃ n, nameFor h id name = .ok n ∧ h.at? (.context id) n.parents = some (.context c) ∧ n.leaf = s := by
  rw [place?]
  cases nameFor h id name with
  | error e => exact iff_of_false nofun fun ⟨_, hn, _⟩ => nomatch hn
  | ok n =>
    simp only [bind, Except.bind, Except.ok.injEq, exists_eq_left']
    rw [← follow_eq_ok_iff, ← parentOf]
    cases parentOf h id n with
    | error e => exact iff_of_false nofun fun hc => nomatch hc.1
    | ok c' => simp [Except.toOption, pure, Except.pure]

/-- An operation that goes to the place of a name and does something there succeeds iff there is such a place
and what it does there succeeds. -/
theorem reach_eq_ok_iff {name : Value} {α : Type} {next : Name → Nat → Except Fault α} {a : α}
    {Does : Nat → Segment → Prop} (hnext : ∀ n c, next n c = .ok a ↔ Does c n.leaf) :
    (do let n ← nameFor h id name
        let c ← parentOf h id n
        next n c) = .ok a ↔ ∃ c s, place? h id name = some (c, s) ∧ Does c s := by
  rcases reach_cases h id name with ⟨e, he⟩ | ⟨n, c, hn, hc, hreach⟩
  · have hplace : place? h id name = none := congrArg Except.toOption (he fun n c => pure (c, n.leaf))
    rw [he, hplace]
    simp
  · have hplace : place? h id name = some (c, n.leaf) := place?_eq_some_iff.mpr ⟨n, hn, hc, rfl⟩
    rw [hreach, hnext]
    constructor
    · intro hdoes
      exact ⟨c, n.leaf, hplace, hdoes⟩
    · rintro ⟨c', s, hplace', hdoes⟩
      cases hplace.symm.trans hplace'
      exact hdoes

/-! What each operation does when it succeeds, all of it at the place of its name. -/

section Succeeds

variable {name v : Value} {h' : Heap}

/-- A lookup needs something to be bound at its place. -/
theorem lookup_eq_ok_iff :
    lookup h id name = .ok v ↔ ∃ c s, place? h id name = some (c, s) ∧ h.get? c s = some v := by
  apply reach_eq_ok_iff
  intro n c
  cases h.get? c n.leaf with
  | none => exact iff_of_false nofun nofun
  | some w => simp [pure, Except.pure]

/-- A rebind writes at its place, whatever is there. -/
theorem rebind_eq_ok_iff :
    rebind h id name v = .ok h' ↔ ∃ c s, place? h id name = some (c, s) ∧ h.put c s v = h' :=
  reach_eq_ok_iff fun _ _ => ⟨Except.ok.inj, congrArg Except.ok⟩

theorem unbind_eq_ok_iff :
    unbind h id name = .ok h' ↔ ∃ c s, place? h id name = some (c, s) ∧ h.erase c s = h' :=
  reach_eq_ok_iff fun _ _ => ⟨Except.ok.inj, congrArg Except.ok⟩

/-- A creation needs its place to be free. -/
theorem create_eq_ok_iff :
    create h id name = .ok h' ↔ ∃ c s, place? h id name = some (c, s) ∧ h.get? c s = none ∧
      (h.push (h.context id).separator).put c s (.context h.size) = h' := by
  apply reach_eq_ok_iff
  intro n c
  cases h.get? c n.leaf with
  | none => simp [pure, Except.pure]
  | some w => exact iff_of_false nofun nofun

end Succeeds

/-- A lookup brings what the path of the name leads to. -/
theorem lookup_of_at? {name v : Value} {n : Name} (hn : nameFor h id name = .ok n)
    (hv : h.at? (.context id) n.segments = some v) : lookup h id name = .ok v := by
  rw [← Name.parents_append_leaf] at hv
  obtain ⟨c, hc⟩ := Heap.context_of_at?_append (List.cons_ne_nil _ _) hv
  have hplace : place? h id name = some (c, n.leaf) := place?_eq_some_iff.mpr ⟨n, hn, hc, rfl⟩
  exact lookup_eq_ok_iff.mpr ⟨c, n.leaf, hplace, (Heap.at?_concat hc).symm.trans hv⟩

theorem at?_of_lookup {name v : Value} (hv : lookup h id name = .ok v) :
    ∃ n, nameFor h id name = .ok n ∧ h.at? (.context id) n.segments = some v := by
  obtain ⟨c, s, hplace, hleaf⟩ := lookup_eq_ok_iff.mp hv
  obtain ⟨n, hn, hc, rfl⟩ := place?_eq_some_iff.mp hplace
  refine ⟨n, hn, ?_⟩
  rw [← Name.parents_append_leaf, Heap.at?_concat hc, hleaf]

end NamingDirectory.Memory
