import NamingDirectory.Proofs.Memory.Graph

/-!
# Trees of memory contexts

What can be reached from a root is a tree if one path alone leads to each context. Then a change of one
binding is a change at one path, and the two changes that a bind makes keep the tree: a value is bound at the
end of a path, whatever was there (`IsTree.put`), or a new context where nothing was (`IsTree.grow`).

Only what can be reached counts: contexts that no path from the root leads to may be shared, or bind each
other in a circle, and unbinding leaves such contexts behind. A tree is what makes an image of a heap by its
paths faithful, because each binding is then seen on the paths through one path only.
-/

namespace NamingDirectory.Memory.Heap

/-- Whether the contexts that paths from a root lead to are a tree: one path alone leads to each of them, and
nothing else on these paths is a node. -/
structure IsTree (h : Heap) (root : Nat) : Prop where
  unshared : ∀ p q c, h.at? (.context root) p = some (.context c) →
    h.at? (.context root) q = some (.context c) → p = q
  lt_size : ∀ p c, h.at? (.context root) p = some (.context c) → c < h.size
  holdsContexts : ∀ p v, h.at? (.context root) p = some v → v.isNode = true → ∃ c, v = .context c

namespace IsTree

variable {h g : Heap} {root c : Nat} {d : List Segment} {s : Segment} {v : Value}

theorem root_lt_size (hh : h.IsTree root) : root < h.size := hh.lt_size [] root at?_nil

/-- What is seen after a value is bound: it at its path, and nothing below it. -/
theorem at?_put (hh : h.IsTree root) (hd : h.at? (.context root) d = some (.context c)) (s : Segment)
    (hv : v.isNode = false) (q : List Segment) :
    (h.put c s v).at? (.context root) q =
      if q = d ++ [s] then some v else if d ++ [s] <+: q then none else h.at? (.context root) q := by
  have hc : c < h.size := hh.lt_size d c hd
  have hne : ∀ id, v ≠ .context id := by
    rintro id rfl
    cases hv
  rcases at?_changed hd (fun q hq => hh.unshared q d c hq hd) (h.get?_put hc s v) q with
    ⟨rest, rfl, hat⟩ | ⟨hpre, hat⟩
  · rw [hat, Option.bind_some]
    cases rest with
    | nil => simp
    | cons t rest => simp [at?_cons_of_ne hne]
  · have hq : q ≠ d ++ [s] := fun heq => hpre (heq ▸ List.prefix_rfl)
    rw [hat, if_neg hq, if_neg hpre]

/-- What is seen after a new context is bound where nothing was: it at its path. -/
theorem at?_grow (hh : h.IsTree root) (hd : h.at? (.context root) d = some (.context c))
    (hs : h.get? c s = none) (separator : Separator) (q : List Segment) :
    ((h.push separator).put c s (.context h.size)).at? (.context root) q =
      if q = d ++ [s] then some (.context h.size) else h.at? (.context root) q := by
  have hc : c < h.size := hh.lt_size d c hd
  have hc' : c < (h.push separator).size := by rw [size_push]; omega
  have hget : ∀ id t, ((h.push separator).put c s (.context h.size)).get? id t =
      if c = id ∧ s = t then some (.context h.size) else h.get? id t := by
    intro id t
    rw [get?_put _ hc', get?_push]
  rcases at?_changed hd (fun q hq => hh.unshared q d c hq hd) hget q with
    ⟨rest, rfl, hat⟩ | ⟨hpre, hat⟩
  · rw [hat, Option.bind_some]
    -- A new context binds nothing yet, and nothing was there before.
    cases rest with
    | nil => simp
    | cons t rest =>
      have hnew : h.get? h.size t = none := h.get?_of_size_le (Nat.le_refl _) t
      have hne : ¬(c = h.size ∧ s = t) := fun heq => Nat.ne_of_lt hc heq.1
      have hbefore : h.at? (.context root) (d ++ [s] ++ t :: rest) = none := by
        rw [at?_append, at?_concat hd, hs, Option.bind_none]
      rw [at?_context_cons, hget, if_neg hne, hnew, hbefore]
      simp
  · have hq : q ≠ d ++ [s] := fun heq => hpre (heq ▸ List.prefix_rfl)
    rw [hat, if_neg hq]

theorem put (hh : h.IsTree root) (hd : h.at? (.context root) d = some (.context c)) (s : Segment)
    (hv : v.isNode = false) : (h.put c s v).IsTree root := by
  have hseen := hh.at?_put hd s hv
  -- A value adds no node, so what is said of nodes stays true of those that are left.
  have hold : ∀ q w, (h.put c s v).at? (.context root) q = some w → w.isNode = true →
      h.at? (.context root) q = some w := by
    intro q w hw hnode
    rw [hseen] at hw
    split at hw
    · cases hw
      rw [hv] at hnode
      cases hnode
    · split at hw
      · cases hw
      · exact hw
  constructor
  case unshared =>
    intro p q id hp hq
    exact hh.unshared p q id (hold p _ hp rfl) (hold q _ hq rfl)
  case lt_size =>
    intro p id hp
    rw [size_put]
    exact hh.lt_size p id (hold p _ hp rfl)
  case holdsContexts =>
    intro p w hw hnode
    exact hh.holdsContexts p w (hold p w hw hnode) hnode

/-- Hanging a new context where nothing was leaves a tree, with one more path. -/
theorem grow (hh : h.IsTree root) (hd : h.at? (.context root) d = some (.context c))
    (hs : h.get? c s = none) (separator : Separator) :
    ((h.push separator).put c s (.context h.size)).IsTree root := by
  have hold : ∀ q w, ((h.push separator).put c s (.context h.size)).at? (.context root) q = some w →
      (q = d ++ [s] ∧ w = .context h.size) ∨ h.at? (.context root) q = some w := by
    intro q w hw
    rw [hh.at?_grow hd hs] at hw
    split at hw
    · next hq => cases hw; exact .inl ⟨hq, rfl⟩
    · exact .inr hw
  constructor
  case unshared =>
    intro p q id hp hq
    -- The new number is none of those that were there before.
    rcases hold p _ hp with ⟨rfl, hid⟩ | hp <;> rcases hold q _ hq with ⟨rfl, hid'⟩ | hq
    · rfl
    · cases hid
      exact absurd (hh.lt_size q _ hq) (Nat.lt_irrefl _)
    · cases hid'
      exact absurd (hh.lt_size p _ hp) (Nat.lt_irrefl _)
    · exact hh.unshared p q id hp hq
  case lt_size =>
    intro p id hp
    rw [size_put, size_push]
    rcases hold p _ hp with ⟨-, hid⟩ | hp
    · cases hid
      exact Nat.lt_succ_self _
    · exact Nat.lt_succ_of_lt (hh.lt_size p id hp)
  case holdsContexts =>
    intro p w hw hnode
    rcases hold p w hw with ⟨-, rfl⟩ | hw
    · exact ⟨h.size, rfl⟩
    · exact hh.holdsContexts p w hw hnode

end IsTree
end NamingDirectory.Memory.Heap
