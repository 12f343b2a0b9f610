import NamingDirectory.Proofs.Ldap.Storage

/-!
# Binding in a store

What a bind makes of a store of entries, without realms, dialogues and the wire: `Store.rebind?` writes the
text of a value at a name, `Store.plant?` goes down the segments of a name first, and `Store.bind?` does the
one or else the other. Each gives the store afterwards, or nothing if it fails.

`Bound` says what a bind that succeeds leaves. The text is at the name, in an entry that is a context iff it
was one before. Nothing else changes if that could be done at once; and if not, there is a context at each
path above.

A walk addresses entries by names that compose, so each of its entries is the one at a path from where it
started. That is how `Planted` speaks of them, and the induction on the path need only know that different
paths below one another have different names (`pathDn_ne_append`). For a walk to succeed more is needed: that
a server looks for the entry above where the client has put it (`Store.hasParent_pathDn`), which is so of
composite names.

What a bind does is decided by the entries that are there on the way to its name:

    one at the name, or one right above it           one write, and nothing else changes
    neither, and nothing but contexts on the way     a context at each path above, then the write
    neither, and something else on the way           nothing, the bind fails
-/

namespace NamingDirectory

/-- Whether one name is above another. -/
def Name.IsAbove (m n : Name) : Prop := ∃ below, below ≠ [] ∧ n.segments = m.segments ++ below

theorem Name.isAbove_iff {m n : Name} :
    m.IsAbove n ↔ m.segments <+: n.segments ∧ m.segments ≠ n.segments := by
  constructor
  · rintro ⟨below, hbelow, hsegments⟩
    refine ⟨⟨below, hsegments.symm⟩, fun heq => hbelow ?_⟩
    exact List.append_right_eq_self.mp (hsegments.symm.trans heq.symm)
  · rintro ⟨⟨below, hsegments⟩, hne⟩
    refine ⟨below, ?_, hsegments.symm⟩
    rintro rfl
    exact hne ((List.append_nil _).symm.trans hsegments)

instance (m n : Name) : Decidable (m.IsAbove n) := decidable_of_iff _ Name.isAbove_iff.symm

namespace Ldap

/-! ### Bindings as functions on stores

The recursion is that of the client, one segment at a time, with the entry that it has come to. A segment is
entered if its entry is a context, or if there is no entry and one can be added. -/

namespace Store

variable (s : Store) (d : Directory) (own : Value)

/-- One step down from an entry: the context that is there, or a new one. -/
def enter? (seg : Segment) : Option (String × Store) :=
  match entryDn d own (.single seg) with
  | .error _ => none
  | .ok dn =>
    if s.hasContext dn then some (dn, s)
    else if !s.has dn && s.hasParent dn then some (dn, s.put dn (Entry.context seg))
    else none

/-- Goes down the segments from an entry, and binds a value at the last. -/
def plant? (v : Value) (s : Store) (own : Value) : Segment → List Segment → Option Store
  | seg, [] => s.rebind? d own (.single seg) v
  | seg, t :: rest =>
    (s.enter? d own seg).bind fun entered => plant? v entered.2 (.text entered.1) t rest

/-- Binds a value: at once if that can be done, and otherwise by going down. -/
def bind? (name v : Value) : Option Store :=
  ((d.grammar.resolve name).toOption.bind fun n => s.rebind? d own n v).or
    ((d.grammar.parse name).toOption.bind fun n => plant? d v s own n.first n.rest)

end Store

/-! ### What a bind leaves in the store

First of single writes, then of a walk, by induction on its segments, and in the end of either way to bind. A
walk writes below where it starts only, so entries that it has passed are not written to again. -/

section Effects

variable {d : Directory} {own v : Value} {n : Name} {s s' s₁ : Store} {dn dn' text : String}
  {seg leaf : Segment} {tail : List String} {p rest : List Segment}

/-- What a walk down a path leaves: contexts above the leaf, the text at the leaf, and all else as it
was. -/
structure Planted (d : Directory) (tail : List String) (p : List Segment) (leaf : Segment)
    (text : String) (s s' : Store) : Prop where
  context : ∀ q below, q ≠ [] → below ≠ [] → p = q ++ below → s'.hasContext (pathDn d tail q)
  leaf : s'.get? (pathDn d tail p) = some (Entry.rewritten (s.get? (pathDn d tail p)) leaf text)
  other : ∀ dn, (∀ q below, q ≠ [] → p = q ++ below → dn ≠ pathDn d tail q) → s'.get? dn = s.get? dn
  nodup : (OrderedMap.keys s).Nodup → (OrderedMap.keys s').Nodup

theorem get?_put_self (s : Store) (dn : String) (e : Entry) : (s.put dn e).get? dn = some e := by
  rw [OrderedMap.get?_put, if_pos BEq.rfl]

theorem get?_put_of_ne (s : Store) (e : Entry) (h : dn' ≠ dn) : (s.put dn e).get? dn' = s.get? dn' := by
  rw [OrderedMap.get?_put, if_neg]
  exact fun heq => h (eq_of_beq heq).symm

theorem hasContext_congr (h : s'.get? dn = s.get? dn) : s'.hasContext dn = s.hasContext dn := by
  rw [Store.hasContext, h, Store.hasContext]

theorem Store.has_of_hasContext (h : s.hasContext dn) : s.has dn := by
  obtain ⟨e, he, -⟩ := (Option.any_eq_true _ _).mp h
  exact has_of_some he

/-- After a walk there are entries where there were some, and all along the path. -/
theorem Planted.has_iff (h : Planted d tail p leaf text s s') (dn : String) :
    s'.has dn ↔ s.has dn ∨ ∃ q, q ≠ [] ∧ q <+: p ∧ dn = pathDn d tail q := by
  by_cases hon : ∃ q, q ≠ [] ∧ q <+: p ∧ dn = pathDn d tail q
  · refine iff_of_true ?_ (.inr hon)
    obtain ⟨q, hq, ⟨below, rfl⟩, rfl⟩ := hon
    by_cases hend : below = []
    · subst hend
      have hleaf := h.leaf
      rw [List.append_nil] at hleaf
      exact Store.has_of_some hleaf
    · exact Store.has_of_hasContext (h.context q below hq hend rfl)
  · have hkept : s'.get? dn = s.get? dn :=
      h.other dn fun q below hq hp hdn => hon ⟨q, hq, ⟨below, hp.symm⟩, hdn⟩
    rw [OrderedMap.has, hkept, ← OrderedMap.has]
    exact (or_iff_left hon).symm

/-- A text can be written where there is an entry, and where there is one above. -/
theorem Store.write?_eq_some_iff :
    s.write? dn seg text = some s' ↔
      (s.has dn ∨ s.hasParent dn) ∧ s' = s.put dn (Entry.rewritten (s.get? dn) seg text) := by
  rw [write?]
  split
  · next h =>
    rw [Bool.or_eq_true] at h
    rw [Option.some.injEq, eq_comm]
    exact ⟨fun heq => ⟨h, heq⟩, And.right⟩
  · next h =>
    rw [Bool.or_eq_true] at h
    exact iff_of_false (Option.some_ne_none s').symm fun hwritten => h hwritten.1

theorem Store.exists_write (h : s.has dn ∨ s.hasParent dn) (seg : Segment) (text : String) :
    ∃ s', s.write? dn seg text = some s' :=
  ⟨_, write?_eq_some_iff.mpr ⟨h, rfl⟩⟩

/-- A rebind writes the text of the value, if it has one and the entry has a name. -/
theorem Store.rebind?_eq_some_iff :
    s.rebind? d own n v = some s' ↔ ∃ dn text, entryDn d own n = .ok dn ∧ Json.text v = .ok text ∧
      s.write? dn n.leaf text = some s' := by
  unfold rebind?
  split
  · next dn text hdn htext =>
    constructor
    · exact fun h => ⟨dn, text, hdn, htext, h⟩
    · rintro ⟨dn', text', hdn', htext', h⟩
      cases hdn.symm.trans hdn'
      cases htext.symm.trans htext'
      exact h
  · next h =>
    refine iff_of_false nofun ?_
    rintro ⟨dn, text, hdn, htext, -⟩
    exact h dn text hdn htext

/-- A step down ends at a context, and changes nothing elsewhere. -/
theorem Store.enter?_eq_some (htail : tail? own = some tail) (h : s.enter? d own seg = some (dn, s₁)) :
    dn = pathDn d tail [seg] ∧ s₁.hasContext dn ∧ (∀ dn', dn' ≠ dn → s₁.get? dn' = s.get? dn') ∧
      ((OrderedMap.keys s).Nodup → (OrderedMap.keys s₁).Nodup) := by
  rw [enter?, entryDn_of_tail? htail] at h
  dsimp only at h
  split at h
  · next hcontext =>
    cases h
    exact ⟨rfl, hcontext, fun _ _ => rfl, id⟩
  · split at h
    · cases h
      refine ⟨rfl, ?_, fun dn' hne => get?_put_of_ne s _ hne, fun hs => OrderedMap.nodup_keys_put hs _ _⟩
      rw [Store.hasContext_of_some (get?_put_self s _ _), Entry.isContext_context]
    · cases h

/-- A walk that succeeds leaves what `Planted` says. -/
theorem Store.planted_of_plant (htail : tail? own = some tail)
    (h : s.plant? d v own seg rest = some s') :
    ∃ text, Json.text v = .ok text ∧
      Planted d tail (seg :: rest) (Name.lastOf seg rest) text s s' := by
  -- Along the segments, where the names below the entry reached are those below the root.
  induction rest generalizing own tail seg s with
  | nil =>
    obtain ⟨dn, text, hdn, htext, hwrite⟩ := rebind?_eq_some_iff.mp h
    obtain ⟨-, rfl⟩ := write?_eq_some_iff.mp hwrite
    cases (entryDn_of_tail? htail (.single seg)).symm.trans hdn
    refine ⟨text, htext, ?_, get?_put_self s _ _, ?_, fun hs => OrderedMap.nodup_keys_put hs _ _⟩
    · intro q below hq hbelow hp
      cases q with
      | nil => exact absurd rfl hq
      | cons t q =>
        obtain ⟨-, hnil⟩ := List.cons_eq_cons.mp hp
        exact absurd (List.append_eq_nil_iff.mp hnil.symm).2 hbelow
    · intro dn hother
      exact get?_put_of_ne s _ (hother [seg] [] (List.cons_ne_nil seg []) rfl)
  | cons t rest ih =>
    obtain ⟨⟨dn, s₁⟩, hentered, hplant⟩ := Option.bind_eq_some_iff.mp h
    obtain ⟨rfl, hcontext, hsame, hnodup⟩ := enter?_eq_some htail hentered
    have hseg : [seg] ≠ [] := List.cons_ne_nil seg []
    obtain ⟨text, htext, hplanted⟩ := ih (tail?_text (pathDn_ne_empty hseg)) hplant
    have hdown : ∀ q, pathDn d [pathDn d tail [seg]] q = pathDn d tail (seg :: q) :=
      fun q => pathDn_append hseg
    have hlonger : ∀ q, q ≠ [] → pathDn d tail (seg :: q) ≠ pathDn d tail [seg] :=
      fun q hq heq => pathDn_ne_append (p := [seg]) hq heq.symm
    refine ⟨text, htext, ?_, ?_, ?_, hplanted.nodup ∘ hnodup⟩
    · intro q below hq hbelow hp
      cases q with
      | nil => exact absurd rfl hq
      | cons t' q =>
        obtain ⟨rfl, hrest⟩ := List.cons_eq_cons.mp hp
        by_cases hnil : q = []
        · subst hnil
          have hkept := hplanted.other (pathDn d tail [seg]) fun q' _ hq' _ => by
            rw [hdown]
            exact (hlonger q' hq').symm
          rw [hasContext_congr hkept]
          exact hcontext
        · rw [← hdown]
          exact hplanted.context q below hnil hbelow hrest
    · have hleaf := hplanted.leaf
      rw [hdown, hsame _ (hlonger _ (List.cons_ne_nil t rest))] at hleaf
      exact hleaf
    · intro dn hother
      have hdn : dn ≠ pathDn d tail [seg] := hother [seg] (t :: rest) hseg rfl
      rw [← hsame dn hdn]
      refine hplanted.other dn fun q below hq hp => ?_
      rw [hdown]
      exact hother (seg :: q) below (List.cons_ne_nil seg q) (congrArg _ hp)

/-- A server looks for the entry above a path at the path above. -/
theorem Store.hasParent_pathDn (hd : d.IsComposite) (s : Store) (htail : tail ≠ []) (q : List Segment)
    (seg : Segment) : s.hasParent (pathDn d tail (q ++ [seg])) = s.has (pathDn d tail q) := by
  rw [hasParent, hd.parentDn?_pathDn, if_neg fun h => htail h.2]
  exact congrArg s.has String.ofList_toList

/-- A step down succeeds if there is an entry above and no value in the way. -/
theorem Store.exists_enter (htail : tail? own = some tail) (hparent : s.hasParent (pathDn d tail [seg]))
    (hclear : s.has (pathDn d tail [seg]) → s.hasContext (pathDn d tail [seg])) :
    ∃ s₁, s.enter? d own seg = some (pathDn d tail [seg], s₁) := by
  rw [enter?, entryDn_of_tail? htail]
  dsimp only [Name.segments_single]
  by_cases hcontext : s.hasContext (pathDn d tail [seg])
  · exact ⟨s, if_pos hcontext⟩
  · have habsent : s.has (pathDn d tail [seg]) = false := by
      rw [Bool.eq_false_iff]
      exact fun hhas => hcontext (hclear hhas)
    rw [if_neg hcontext, habsent, hparent]
    exact ⟨_, rfl⟩

/-- A walk below an entry that is there succeeds if every entry on the way is a context. -/
theorem Store.exists_plant (hd : d.IsComposite) (htail : tail? own = some tail) (hne : tail ≠ [])
    (hroot : s.has (pathDn d tail [])) (htext : Json.text v = .ok text)
    (hclear : ∀ q below, q ≠ [] → below ≠ [] → seg :: rest = q ++ below → s.has (pathDn d tail q) →
      s.hasContext (pathDn d tail q)) : ∃ s', s.plant? d v own seg rest = some s' := by
  -- Along the segments; the entry that is reached takes the place of the one to start from.
  induction rest generalizing own tail seg s with
  | nil =>
    have hparent : s.hasParent (pathDn d tail [seg]) := (hasParent_pathDn hd s hne [] seg).trans hroot
    obtain ⟨s', hwrite⟩ := exists_write (.inr hparent) seg text
    exact ⟨s', rebind?_eq_some_iff.mpr ⟨_, text, entryDn_of_tail? htail (.single seg), htext, hwrite⟩⟩
  | cons t rest ih =>
    have hseg : [seg] ≠ [] := List.cons_ne_nil seg []
    have hparent : s.hasParent (pathDn d tail [seg]) := (hasParent_pathDn hd s hne [] seg).trans hroot
    have hnode := hclear [seg] (t :: rest) hseg (List.cons_ne_nil _ _) rfl
    obtain ⟨s₁, hentered⟩ := exists_enter htail hparent hnode
    obtain ⟨-, hcontext, hsame, -⟩ := enter?_eq_some htail hentered
    have hdown : ∀ q, pathDn d [pathDn d tail [seg]] q = pathDn d tail (seg :: q) :=
      fun q => pathDn_append hseg
    have hroot₁ : s₁.has (pathDn d [pathDn d tail [seg]] []) := by
      rw [hdown]
      exact has_of_hasContext hcontext
    obtain ⟨s', hplant⟩ := ih (tail?_text (pathDn_ne_empty hseg)) (List.cons_ne_nil _ _) hroot₁
      fun q below hq hbelow hrest hhas => by
        have hkept : s₁.get? (pathDn d tail (seg :: q)) = s.get? (pathDn d tail (seg :: q)) :=
          hsame _ (pathDn_ne_append (p := [seg]) hq).symm
        rw [hdown, OrderedMap.has, hkept] at hhas
        rw [hdown, hasContext_congr hkept]
        exact hclear (seg :: q) below (List.cons_ne_nil seg q) hbelow (congrArg _ hrest) hhas
    exact ⟨s', by rw [plant?, hentered]; exact hplant⟩

/-- What a walk starts from has a name, or names nothing. -/
theorem Store.exists_tail_of_plant (h : s.plant? d v own seg rest = some s') :
    ∃ tail, tail? own = some tail := by
  have hdn : ∃ dn, entryDn d own (.single seg) = .ok dn := by
    cases rest with
    | nil =>
      obtain ⟨dn, _, hdn, -⟩ := rebind?_eq_some_iff.mp h
      exact ⟨dn, hdn⟩
    | cons t rest =>
      obtain ⟨⟨dn, s₁⟩, hentered, -⟩ := Option.bind_eq_some_iff.mp h
      rw [enter?] at hentered
      split at hentered
      · cases hentered
      · next dn hdn => exact ⟨dn, hdn⟩
  obtain ⟨dn, hdn⟩ := hdn
  obtain ⟨tail, htail, -⟩ := entryDn_eq_ok_iff.mp hdn
  exact ⟨tail, htail⟩

theorem toOption_eq_some_iff {ε α : Type} {result : Except ε α} {a : α} :
    result.toOption = some a ↔ result = .ok a := by
  cases result with
  | error e => exact iff_of_false nofun nofun
  | ok b => exact ⟨fun h => congrArg _ (Option.some.inj h), fun h => congrArg _ (Except.ok.inj h)⟩

/-- What a bind that succeeds leaves in the store: the text at its name, written at once where that can be
done, and otherwise by a walk. -/
inductive Bound (d : Directory) (tail : List String) (n : Name) (text : String) (s : Store) :
    Store → Prop
  | directly {dn : String} : dn = pathDn d tail n.segments → s.has dn ∨ s.hasParent dn →
      Bound d tail n text s (s.put dn (Entry.rewritten (s.get? dn) n.leaf text))
  | byWalk {dn : String} {s' : Store} : dn = pathDn d tail n.segments → ¬ s.has dn → ¬ s.hasParent dn →
      Planted d tail n.segments n.leaf text s s' → Bound d tail n text s s'

/-- A bind that succeeds has written at once or walked, and walked only if it could not write at once. -/
theorem Store.bound_of_bind {name : Value} (h : s.bind? d own name v = some s') :
    ∃ n tail text, d.grammar.resolve name = .ok n ∧ tail? own = some tail ∧ Json.text v = .ok text ∧
      Bound d tail n text s s' := by
  rw [bind?, Option.or_eq_some_iff] at h
  rcases h with hdirect | ⟨hnone, hwalk⟩
  · obtain ⟨n, hn, hrebind⟩ := Option.bind_eq_some_iff.mp hdirect
    obtain ⟨dn, text, hdn, htext, hwrite⟩ := rebind?_eq_some_iff.mp hrebind
    obtain ⟨tail, htail, rfl⟩ := entryDn_eq_ok_iff.mp hdn
    obtain ⟨hwritable, rfl⟩ := write?_eq_some_iff.mp hwrite
    exact ⟨n, tail, text, toOption_eq_some_iff.mp hn, htail, htext, .directly rfl hwritable⟩
  · obtain ⟨n, hparse, hplant⟩ := Option.bind_eq_some_iff.mp hwalk
    have hn := Name.Grammar.resolve_of_parse (toOption_eq_some_iff.mp hparse)
    obtain ⟨tail, htail⟩ := exists_tail_of_plant hplant
    obtain ⟨text, htext, hplanted⟩ := planted_of_plant htail hplant
    -- The direct rebind failed, but not for the sake of the name or of the value.
    have hunwritten : s.write? (pathDn d tail n.segments) n.leaf text = none := by
      rw [hn, Except.toOption, Option.bind_some, rebind?, entryDn_of_tail? htail, htext] at hnone
      exact hnone
    rw [write?, ite_eq_right_iff, Bool.or_eq_true] at hunwritten
    refine ⟨n, tail, text, hn, htail, htext, .byWalk rfl ?_ ?_ hplanted⟩
    · exact fun hhas => Option.some_ne_none _ (hunwritten (.inl hhas))
    · exact fun hparent => Option.some_ne_none _ (hunwritten (.inr hparent))

section Bound

variable {r : Realm} {k : Nat} {name : Value} (hbound : Bound d tail n text s s')

include hbound

theorem Bound.get?_leaf :
    s'.get? (pathDn d tail n.segments) =
      some (Entry.rewritten (s.get? (pathDn d tail n.segments)) n.leaf text) := by
  cases hbound with
  | directly hdn _ =>
    subst hdn
    exact get?_put_self s _ _
  | byWalk hdn _ _ hplanted => exact hplanted.leaf

/-- A bind leaves a context at its name iff there was one. -/
theorem Bound.hasContext_leaf :
    s'.hasContext (pathDn d tail n.segments) = s.hasContext (pathDn d tail n.segments) := by
  rw [Store.hasContext_of_some hbound.get?_leaf, Entry.isContext_rewritten, Store.hasContext]

/-- Above its name, a bind leaves the contexts that were there. There are others only where it had to
walk. -/
theorem Bound.hasContext_above_iff {q below : List Segment} (hq : q ≠ []) (hbelow : below ≠ [])
    (hn : n.segments = q ++ below) :
    s'.hasContext (pathDn d tail q) ↔ s.hasContext (pathDn d tail q) ∨
      ¬ s.has (pathDn d tail n.segments) ∧ ¬ s.hasParent (pathDn d tail n.segments) := by
  cases hbound with
  | directly hdn hwritable =>
    subst hdn
    have hne : pathDn d tail q ≠ pathDn d tail n.segments := by
      rw [hn]
      exact pathDn_ne_append hbelow
    rw [hasContext_congr (get?_put_of_ne s _ hne)]
    refine ⟨.inl, ?_⟩
    rintro (hcontext | ⟨hhas, hparent⟩)
    · exact hcontext
    · exact absurd hwritable (not_or.mpr ⟨hhas, hparent⟩)
  | byWalk hdn hhas hparent hplanted =>
    subst hdn
    exact iff_of_true (hplanted.context q below hq hbelow hn) (.inr ⟨hhas, hparent⟩)

end Bound

end Effects

end Ldap
end NamingDirectory
