import NamingDirectory.Proofs.Json.Data
import NamingDirectory.Proofs.Ldap.Serving

/-!
# Binds read back

Binds one after the other on a server whose store has a single entry at first, with names of which none is
above another. `HoldsBindings` is what holds of the store between two binds: one entry for each name that was
bound, with the text of the value that was bound last, and one context for each path above a name. A bind
keeps it (`HoldsBindings.bind`), whether it writes at once or walks, and so does a run of binds
(`Realm.Serves.bindEach`).

`binds_read_back` says what that comes to: all binds succeed, lookups bring back the values and the contexts,
and the store has grown by just the names and what is above them. The values are JSON data, since other values
are read back as something else, or cannot be written.

The two ways to bind come to the same here. A name that can be written at once has entries all the way, since
nothing is in the store that was not reached (`has_of_writable`), and these are contexts, since no name is
above another (`hasContext_of_has`). So what is written at once is planted too (`planted_put`), and one proof
of what is kept serves for both (`HoldsBindings.plant`).

After binds at `disk/size` and at `disk/kind` below `dc=x`, for example, the store has four entries:

    dc=x                     where the binds start
    cn=disk,dc=x             a context, above both names
    cn=size,cn=disk,dc=x     the text of the first value
    cn=kind,cn=disk,dc=x     the text of the second value
-/

namespace NamingDirectory

namespace Ldap

/-- A value to be bound at a name: the text of the name can be read, and the value is JSON data. -/
structure Binding (d : Directory) where
  text : String
  name : Name
  value : Value
  parse_eq : d.grammar.parse (.text text) = .ok name
  isData : Json.IsData value

/-- Whether no name is above another one. -/
def IsFree {d : Directory} (bindings : List (Binding d)) : Prop :=
  ∀ b ∈ bindings, ∀ c ∈ bindings, ¬ b.name.IsAbove c.name

instance {d : Directory} (bindings : List (Binding d)) : Decidable (IsFree bindings) :=
  inferInstanceAs (Decidable (∀ b ∈ bindings, ∀ c ∈ bindings, ¬ b.name.IsAbove c.name))

/-- Whether a path leads to the root, to a bound name or to what is above one. -/
def IsReached {d : Directory} (bindings : List (Binding d)) (q : List Segment) : Prop :=
  q = [] ∨ ∃ b ∈ bindings, q <+: b.name.segments

/-- What a store holds after some binds below an entry: that entry, one entry for each bound name with the
text that was bound last, and one context for each path above a bound name. -/
structure HoldsBindings (d : Directory) (base : String) (e : Entry) (bound : List (Binding d))
    (s : Store) : Prop where
  nodup : (OrderedMap.keys s).Nodup
  root : s.get? base = some e
  has_iff : ∀ dn, s.has dn ↔ ∃ q, IsReached bound q ∧ dn = pathDn d [base] q
  context : ∀ b ∈ bound, ∀ q below, q ≠ [] → below ≠ [] → b.name.segments = q ++ below →
    s.hasContext (pathDn d [base] q)
  plain : ∀ b ∈ bound, ¬ s.hasContext (pathDn d [base] b.name.segments)
  text : ∀ before b after, bound = before ++ b :: after → (∀ c ∈ after, c.name ≠ b.name) →
    ∃ e text, s.get? (pathDn d [base] b.name.segments) = some e ∧
      e.get? Entry.description = some [.text text] ∧ Json.text b.value = .ok text

/-! ### Paths to bound names

Which paths lead to entries, after each bind. All of them consist of segments that were read, and so without
blanks around them: that is what tells them apart by their distinguished names. -/

/-- What comes after an element of a list with one more at the end. -/
theorem append_singleton_eq_append_cons {α : Type} {l before after : List α} {a b : α}
    (h : l ++ [b] = before ++ a :: after) :
    (l = before ∧ b = a ∧ after = []) ∨ ∃ after', after = after' ++ [b] ∧ l = before ++ a :: after' := by
  rcases List.eq_nil_or_concat after with rfl | ⟨after, c, rfl⟩
  · obtain ⟨rfl, hlast⟩ := List.append_inj' h rfl
    exact .inl ⟨rfl, (List.cons_eq_cons.mp hlast).1, rfl⟩
  · rw [List.concat_eq_append, ← List.cons_append, ← List.append_assoc] at h
    obtain ⟨rfl, hlast⟩ := List.append_inj' h rfl
    cases hlast
    exact .inr ⟨after, List.concat_eq_append, rfl⟩

section Paths

variable {d : Directory} {base : String} {bound : List (Binding d)} {b c : Binding d}
  {p q below : List Segment} {s s' : Store} {text : String}

theorem IsTrimmed.of_isPrefix (h : IsTrimmed p) (hq : q <+: p) : IsTrimmed q :=
  fun seg hseg => h seg (hq.subset hseg)

theorem Binding.isTrimmed (hd : d.IsUsual) (b : Binding d) : IsTrimmed b.name.segments := by
  have hparse := b.parse_eq
  rw [Directory.grammar, hd.nameStyle] at hparse
  have hread : Name.Grammar.read .slashes b.text = .ok b.name := hparse
  simp only [Name.Grammar.read, Name.Grammar.slashes] at hread
  split at hread
  · next n hn =>
    cases hread
    exact isTrimmed_of_parse hn
  · cases hread

theorem IsReached.isTrimmed (hd : d.IsUsual) (h : IsReached bound q) : IsTrimmed q := by
  rcases h with rfl | ⟨b, -, hq⟩
  · exact fun seg hseg => absurd hseg List.not_mem_nil
  · exact (b.isTrimmed hd).of_isPrefix hq

/-- What is on the way to something that was reached was reached. -/
theorem IsReached.of_isPrefix (h : IsReached bound p) (hq : q <+: p) : IsReached bound q := by
  rcases h with rfl | ⟨b, hb, hp⟩
  · exact .inl (List.prefix_nil.mp hq)
  · exact .inr ⟨b, hb, hq.trans hp⟩

/-- One more binding reaches its name and what is above. -/
theorem isReached_concat_iff :
    IsReached (bound ++ [b]) q ↔ IsReached bound q ∨ q <+: b.name.segments := by
  constructor
  · rintro (rfl | ⟨c, hc, hq⟩)
    · exact .inl (.inl rfl)
    · rcases List.mem_append.mp hc with hc | hc
      · exact .inl (.inr ⟨c, hc, hq⟩)
      · cases List.mem_singleton.mp hc
        exact .inr hq
  · rintro ((rfl | ⟨c, hc, hq⟩) | hq)
    · exact .inl rfl
    · exact .inr ⟨c, List.mem_append_left [b] hc, hq⟩
    · exact .inr ⟨b, List.mem_append_right bound List.mem_cons_self, hq⟩

/-- Only paths on the way to a name, and the name itself, are touched when it is planted. -/
theorem Planted.get?_of_not_isPrefix (h : Planted d [base] b.name.segments b.name.leaf text s s')
    (hd : d.IsUsual) (hq : IsTrimmed q) (hstart : ¬ q <+: b.name.segments) :
    s'.get? (pathDn d [base] q) = s.get? (pathDn d [base] q) := by
  refine h.other _ fun q' below _ hb hdn => hstart ?_
  have htrimmed : IsTrimmed q' := (b.isTrimmed hd).of_isPrefix ⟨below, hb.symm⟩
  rw [hd.isComposite.pathDn_inj hq htrimmed hdn]
  exact ⟨below, hb.symm⟩

/-- What is written at a name without a look at the way to it is planted there, if the way leads through
contexts. -/
theorem planted_put (leaf : Segment) (text : String) (hp : p ≠ [])
    (hcontext : ∀ q below, q ≠ [] → below ≠ [] → p = q ++ below → s.hasContext (pathDn d [base] q)) :
    Planted d [base] p leaf text s
      (s.put (pathDn d [base] p) (Entry.rewritten (s.get? (pathDn d [base] p)) leaf text)) where
  context := by
    intro q below hq hbelow hpq
    have hne : pathDn d [base] q ≠ pathDn d [base] p := by
      rw [hpq]
      exact pathDn_ne_append hbelow
    rw [hasContext_congr (get?_put_of_ne s _ hne)]
    exact hcontext q below hq hbelow hpq
  leaf := get?_put_self s _ _
  other := fun dn hother => get?_put_of_ne s _ (hother p [] hp (List.append_nil p).symm)
  nodup := fun hs => OrderedMap.nodup_keys_put hs _ _

end Paths

/-! ### Binding in a store

What one bind keeps, and that it succeeds. A new name may share the start of its path with names that were
bound. There the walk finds contexts, as no name is above another, and from where it leaves them nothing is in
the store yet. -/

namespace HoldsBindings

variable {d : Directory} {base text : String} {e : Entry} {bound : List (Binding d)} {b : Binding d}
  {q below : List Segment} {s s' : Store} (h : HoldsBindings d base e bound s) (hd : d.IsUsual)

include h hd

/-- An entry of the store is at a path that was reached, and at no other. -/
theorem isReached_of_has (hq : IsTrimmed q) (hhas : s.has (pathDn d [base] q)) : IsReached bound q := by
  obtain ⟨q', hreached, hdn⟩ := (h.has_iff _).mp hhas
  cases hd.isComposite.pathDn_inj hq (hreached.isTrimmed hd) hdn
  exact hreached

/-- An entry on the way to a new name, which no other name is above, is a context. -/
theorem hasContext_of_has (hfree : ∀ c ∈ bound, ¬ c.name.IsAbove b.name) (hq : q ≠ [])
    (hbelow : below ≠ []) (hb : b.name.segments = q ++ below) (hhas : s.has (pathDn d [base] q)) :
    s.hasContext (pathDn d [base] q) := by
  have htrimmed : IsTrimmed q := (b.isTrimmed hd).of_isPrefix ⟨below, hb.symm⟩
  rcases h.isReached_of_has hd htrimmed hhas with rfl | ⟨c, hc, below', hc'⟩
  · exact absurd rfl hq
  · refine h.context c hc q below' hq ?_ hc'.symm
    rintro rfl
    rw [List.append_nil] at hc'
    exact hfree c hc ⟨below, hbelow, by rw [hb, hc']⟩

/-- At a new name, which is above no other, there is no context. -/
theorem not_hasContext_name (hfree : ∀ c ∈ bound, ¬ b.name.IsAbove c.name) :
    ¬ s.hasContext (pathDn d [base] b.name.segments) := by
  intro hcontext
  rcases h.isReached_of_has hd (b.isTrimmed hd) (Store.has_of_hasContext hcontext) with
    hnil | ⟨c, hc, hstart⟩
  · cases hnil
  · by_cases heq : b.name.segments = c.name.segments
    · exact h.plain c hc (heq ▸ hcontext)
    · exact hfree c hc (Name.isAbove_iff.mpr ⟨hstart, heq⟩)

/-- If a name can be written at once, there are entries all the way. -/
theorem has_of_writable (hwritable : s.has (pathDn d [base] b.name.segments) ∨
    s.hasParent (pathDn d [base] b.name.segments)) (hbelow : below ≠ [])
    (hb : b.name.segments = q ++ below) : s.has (pathDn d [base] q) := by
  have htrimmed := b.isTrimmed hd
  refine (h.has_iff _).mpr ⟨q, ?_, rfl⟩
  rcases hwritable with hhas | hparent
  · exact (h.isReached_of_has hd htrimmed hhas).of_isPrefix ⟨below, hb.symm⟩
  · rw [← b.name.parents_append_leaf] at hparent htrimmed hb
    rw [Store.hasParent_pathDn hd.isComposite s (List.cons_ne_nil base [])] at hparent
    have hreached := h.isReached_of_has hd (htrimmed.of_isPrefix (List.prefix_append _ _)) hparent
    refine hreached.of_isPrefix ?_
    rcases List.prefix_concat_iff.mp ⟨below, hb.symm⟩ with rfl | hstart
    · exact absurd (List.append_right_eq_self.mp hb.symm) hbelow
    · exact hstart

omit h in
/-- What is bound at another name is left alone. -/
theorem get?_name_of_planted {c : Binding d}
    (hplanted : Planted d [base] b.name.segments b.name.leaf text s s')
    (habove : ¬ c.name.IsAbove b.name) (hne : c.name ≠ b.name) :
    s'.get? (pathDn d [base] c.name.segments) = s.get? (pathDn d [base] c.name.segments) := by
  refine hplanted.get?_of_not_isPrefix hd (c.isTrimmed hd) fun hstart => habove ?_
  exact Name.isAbove_iff.mpr ⟨hstart, fun heq => hne (Name.segments_injective heq)⟩

/-- After one more binding was planted, the store holds it with the others. -/
theorem plant (hfree : IsFree (bound ++ [b])) (htext : Json.text b.value = .ok text)
    (hplanted : Planted d [base] b.name.segments b.name.leaf text s s') :
    HoldsBindings d base e (bound ++ [b]) s' := by
  have hb : b ∈ bound ++ [b] := List.mem_append_right bound List.mem_cons_self
  have hold : ∀ c ∈ bound, c ∈ bound ++ [b] := fun c hc => List.mem_append_left [b] hc
  have hleaf := hplanted.leaf
  have hplain : ¬ s'.hasContext (pathDn d [base] b.name.segments) := by
    rw [Store.hasContext_of_some hleaf, Entry.isContext_rewritten]
    exact h.not_hasContext_name hd fun c hc => hfree b hb c (hold c hc)
  constructor
  case nodup => exact hplanted.nodup h.nodup
  case root =>
    -- The walk writes below the base, so the base is what it was.
    refine (hplanted.other base fun q below hq _ hdn => ?_).trans h.root
    exact pathDn_ne_append hq ((pathDn_nil d base).trans hdn)
  case has_iff =>
    intro dn
    rw [hplanted.has_iff, h.has_iff dn]
    constructor
    · rintro (⟨q, hq, hdn⟩ | ⟨q, -, hq, hdn⟩)
      · exact ⟨q, isReached_concat_iff.mpr (.inl hq), hdn⟩
      · exact ⟨q, isReached_concat_iff.mpr (.inr hq), hdn⟩
    · rintro ⟨q, hreached, hdn⟩
      rcases isReached_concat_iff.mp hreached with hq | hq
      · exact .inl ⟨q, hq, hdn⟩
      · by_cases hnil : q = []
        · exact .inl ⟨q, .inl hnil, hdn⟩
        · exact .inr ⟨q, hnil, hq, hdn⟩
  case context =>
    intro c hc q below hq hbelow hcq
    by_cases hstart : q <+: b.name.segments
    · -- On the way to the new name: the walk came through here, so this is a context.
      obtain ⟨below', hbelow'⟩ := hstart
      refine hplanted.context q below' hq ?_ hbelow'.symm
      rintro rfl
      rw [List.append_nil] at hbelow'
      exact hfree b hb c hc ⟨below, hbelow, by rw [hcq, hbelow']⟩
    · -- Off this way nothing was written.
      have htrimmed : IsTrimmed q := (c.isTrimmed hd).of_isPrefix ⟨below, hcq.symm⟩
      rw [hasContext_congr (hplanted.get?_of_not_isPrefix hd htrimmed hstart)]
      rcases List.mem_append.mp hc with hc | hc
      · exact h.context c hc q below hq hbelow hcq
      · cases List.mem_singleton.mp hc
        exact absurd ⟨below, hcq.symm⟩ hstart
  case plain =>
    intro c hc
    by_cases hname : c.name = b.name
    · rw [hname]
      exact hplain
    · rcases List.mem_append.mp hc with hc | hc
      · rw [hasContext_congr (get?_name_of_planted hd hplanted (hfree c (hold c hc) b hb) hname)]
        exact h.plain c hc
      · cases List.mem_singleton.mp hc
        exact absurd rfl hname
  case text =>
    intro before c after hbound hlast
    rcases append_singleton_eq_append_cons hbound with ⟨-, rfl, -⟩ | ⟨after, rfl, rfl⟩
    · exact ⟨_, text, hleaf, Entry.get?_description_rewritten _ _ _, htext⟩
    · have hne : c.name ≠ b.name := (hlast b (by simp)).symm
      have hc : c ∈ before ++ c :: after := by simp
      rw [get?_name_of_planted hd hplanted (hfree c (hold c hc) b hb) hne]
      exact h.text before c after rfl fun x hx => hlast x (by simp [hx])

/-- A bind of one more binding succeeds, and the store then holds it with the others. -/
theorem bind (b : Binding d) (hbase : base ≠ "") (hfree : IsFree (bound ++ [b])) :
    ∃ s', s.bind? d (.text base) (.text b.text) b.value = some s' ∧
      HoldsBindings d base e (bound ++ [b]) s' := by
  have hclear : ∀ q below, q ≠ [] → below ≠ [] → b.name.segments = q ++ below →
      s.has (pathDn d [base] q) → s.hasContext (pathDn d [base] q) := by
    intro q below hq hbelow hb
    refine h.hasContext_of_has hd (fun c hc => ?_) hq hbelow hb
    exact hfree c (List.mem_append_left _ hc) b (List.mem_append_right _ List.mem_cons_self)
  have hresolve := Name.Grammar.resolve_of_parse b.parse_eq
  have htail := tail?_text hbase
  have hbind : ∃ s', s.bind? d (.text base) (.text b.text) b.value = some s' := by
    rw [Store.bind?, hresolve, b.parse_eq, Except.toOption, Option.bind_some, Option.bind_some]
    cases s.rebind? d (.text base) b.name b.value with
    | some s' => exact ⟨s', rfl⟩
    | none =>
      obtain ⟨text, htext⟩ := b.isData.exists_text
      have hroot : s.has (pathDn d [base] []) := (h.has_iff _).mpr ⟨[], .inl rfl, rfl⟩
      exact Store.exists_plant hd.isComposite htail (List.cons_ne_nil base []) hroot htext hclear
  obtain ⟨s', hs'⟩ := hbind
  obtain ⟨n, tail, text, hn, htail', htext, hbound⟩ := Store.bound_of_bind hs'
  cases hresolve.symm.trans hn
  cases htail.symm.trans htail'
  refine ⟨s', hs', ?_⟩
  -- Both ways to write come down to `plant`, the direct one as a walk with nothing left to create.
  cases hbound with
  | directly hdn hwritable =>
    subst hdn
    refine h.plant hd hfree htext (planted_put _ _ (List.cons_ne_nil _ _) ?_)
    intro q below hq hbelow hb
    exact hclear q below hq hbelow hb (h.has_of_writable hd hwritable hbelow hb)
  | byWalk _ _ _ hplanted => exact h.plant hd hfree htext hplanted

end HoldsBindings

/-- The entry to start from holds no bindings yet. -/
theorem holdsBindings_nil (d : Directory) (base : String) (e : Entry) :
    HoldsBindings d base e [] [(base, e)] where
  nodup := by simp [OrderedMap.keys]
  root := by simp [OrderedMap.get?]
  has_iff := by
    intro dn
    have hhas : OrderedMap.has ([(base, e)] : Store) dn ↔ base = dn := by
      by_cases hdn : base = dn
      · simp [OrderedMap.has, OrderedMap.get?, hdn]
      · simp [OrderedMap.has, OrderedMap.get?, hdn]
    rw [hhas]
    constructor
    · intro hdn
      exact ⟨[], .inl rfl, hdn.symm.trans (pathDn_nil d base).symm⟩
    · rintro ⟨q, hq | ⟨b, hb, -⟩, hdn⟩
      · rw [hdn, hq, pathDn_nil]
      · cases hb
  context := nofun
  plain := nofun
  text := by
    intro before b after hnil
    simp at hnil

end Ldap

/-! ### Binding in a realm

From the store to the realm that serves it, and from one bind to many. The binds are carried out one after the
other, so each finds the store that the ones before it have left. -/

section Runs

open Ldap

variable {d : Directory} {base : String} {e : Entry} {bound bindings : List (Binding d)} {r : Realm}
  {k : Nat} {s : Store}

/-- Binds one after the other below a node, and collects what comes of each. -/
def Realm.bindEach (root : Value) : List (Binding d) → Realm → List (Except Fault Unit) × Realm
  | [], r => ([], r)
  | b :: rest, r =>
    let (result, r) := r.bind (.text b.text) b.value root
    let (results, r) := r.bindEach root rest
    (result :: results, r)

/-- A run of binds succeeds, and the store then holds what was bound before and in the run. By induction on
the run, with the names that are still to come among those of which none is above another. -/
theorem Realm.Serves.bindEach (hr : r.Serves k d s) (hd : d.IsUsual) (hbase : base ≠ "")
    (h : HoldsBindings d base e bound s) (hfree : IsFree (bound ++ bindings)) (serial : Nat) :
    ∃ s', (r.bindEach (.entry k serial (.text base)) bindings).1 = bindings.map (fun _ => .ok ()) ∧
      (r.bindEach (.entry k serial (.text base)) bindings).2.Serves k d s' ∧
      HoldsBindings d base e (bound ++ bindings) s' := by
  -- Along the bindings; those that are behind are among the bound ones.
  induction bindings generalizing r s bound with
  | nil => exact ⟨s, rfl, hr, by rwa [List.append_nil]⟩
  | cons b rest ih =>
    rw [List.append_cons] at hfree ⊢
    have hfree' : IsFree (bound ++ [b]) := fun c hc c' hc' =>
      hfree c (List.mem_append_left rest hc) c' (List.mem_append_left rest hc')
    obtain ⟨s₁, hs₁, h₁⟩ := h.bind hd b hbase hfree'
    have hends := hr.bind hd (.text b.text) b.value (.text base) serial
    rw [hs₁] at hends
    obtain ⟨hok, hr₁⟩ := hends
    obtain ⟨s', hresults, hr', h'⟩ := ih hr₁ h₁ hfree
    refine ⟨s', ?_, hr', h'⟩
    rw [List.map_cons, ← hresults]
    exact congrArg (· :: _) hok

end Runs

/-! ### What is read back

By lookups through the realm, and by the keys of the store itself. The keys are compared as a whole with the
paths of the bindings, so that nothing else can have got into the store. -/

namespace Ldap

variable {d : Directory} {base : String} {e : Entry} {bound bindings : List (Binding d)} {r : Realm}
  {k : Nat} {s : Store} {b : Binding d} {name : Value} {m : Name}

/-- A name is found with the value that was bound there last. The value is JSON data, so it is its own normal
form. -/
theorem HoldsBindings.lookup_name (h : HoldsBindings d base e bound s) (hd : d.IsUsual)
    (hbase : base ≠ "") (hr : r.Serves k d s) {before after : List (Binding d)}
    (hbound : bound = before ++ b :: after) (hlast : ∀ c ∈ after, c.name ≠ b.name)
    (hname : d.grammar.resolve name = .ok b.name) (serial : Nat) :
    (r.lookup name (.entry k serial (.text base))).1 = .ok b.value := by
  obtain ⟨e, text, he, htext, hwritten⟩ := h.text before b after hbound hlast
  have hplain := h.plain b (by simp [hbound])
  rw [Store.hasContext_of_some he] at hplain
  have hread := Json.read_text hwritten
  rw [b.isData.normal] at hread
  exact hr.lookup_of_text hd hname (entryDn_of_tail? (tail?_text hbase) _) he hplain htext hread serial

/-- What is above a name is found as a context. -/
theorem HoldsBindings.lookup_above (h : HoldsBindings d base e bound s) (hd : d.IsUsual)
    (hbase : base ≠ "") (hr : r.Serves k d s) (hb : b ∈ bound) (hm : m.IsAbove b.name)
    (hname : d.grammar.resolve name = .ok m) (serial : Nat) :
    ∃ serial', (r.lookup name (.entry k serial (.text base))).1 =
      .ok (.entry k serial' (.text (pathDn d [base] m.segments))) := by
  obtain ⟨below, hbelow, hsegments⟩ := hm
  have hcontext := h.context b hb m.segments below (List.cons_ne_nil _ _) hbelow hsegments
  exact hr.lookup_of_hasContext hd hname (entryDn_of_tail? (tail?_text hbase) m) hcontext serial

/-- A list of images is the image of a list. -/
theorem exists_map_eq {α β : Type} {P : α → Prop} (f : α → β) (l : List β)
    (h : ∀ b ∈ l, ∃ a, P a ∧ b = f a) : ∃ as : List α, l = as.map f ∧ ∀ a ∈ as, P a := by
  induction l with
  | nil => exact ⟨[], rfl, nofun⟩
  | cons b l ih =>
    obtain ⟨⟨a, ha, rfl⟩, hl⟩ := List.forall_mem_cons.mp h
    obtain ⟨as, rfl, has⟩ := ih hl
    exact ⟨a :: as, rfl, List.forall_mem_cons.mpr ⟨ha, has⟩⟩

/-- The entries of the store are the one to start from, and one for each path to a bound name or to what is
above one. -/
theorem HoldsBindings.keys_perm (h : HoldsBindings d base e bound s) (hd : d.IsUsual) :
    ∃ paths : List (List Segment), paths.Nodup ∧
      (∀ q, q ∈ paths ↔ q ≠ [] ∧ ∃ b ∈ bound, q <+: b.name.segments) ∧
      (OrderedMap.keys s).Perm (base :: paths.map (pathDn d [base])) := by
  have hmem : ∀ dn, dn ∈ OrderedMap.keys s ↔ ∃ q, IsReached bound q ∧ dn = pathDn d [base] q :=
    fun dn => (OrderedMap.mem_keys_iff s dn).trans (h.has_iff dn)
  have hbase : base ∈ OrderedMap.keys s := (hmem base).mpr ⟨[], .inl rfl, (pathDn_nil d base).symm⟩
  have hrest : ∀ dn, dn ∈ (OrderedMap.keys s).erase base ↔ dn ≠ base ∧ dn ∈ OrderedMap.keys s :=
    fun dn => h.nodup.mem_erase_iff
  -- One path for each key: the base is the only one that stands for no path of a binding.
  obtain ⟨paths, hpaths, hreached⟩ :
      ∃ paths : List (List Segment), (OrderedMap.keys s).erase base = paths.map (pathDn d [base]) ∧
        ∀ q ∈ paths, q ≠ [] ∧ IsReached bound q := by
    refine exists_map_eq _ _ fun dn hdn => ?_
    obtain ⟨hne, hkey⟩ := (hrest dn).mp hdn
    obtain ⟨q, hq, rfl⟩ := (hmem dn).mp hkey
    refine ⟨q, ⟨?_, hq⟩, rfl⟩
    rintro rfl
    exact hne (pathDn_nil d base)
  refine ⟨paths, ?_, fun q => ⟨fun hq => ?_, fun hq => ?_⟩, ?_⟩
  · have hnodup := h.nodup.erase base
    rw [hpaths] at hnodup
    exact List.Pairwise.of_map (pathDn d [base]) (fun p q hne heq => hne (congrArg _ heq)) hnodup
  · obtain ⟨hne, hnil | hb⟩ := hreached q hq
    · exact absurd hnil hne
    · exact ⟨hne, hb⟩
  · obtain ⟨hne, hb⟩ := hq
    have hdn : pathDn d [base] q ∈ (OrderedMap.keys s).erase base := by
      refine (hrest _).mpr ⟨fun heq => ?_, (hmem _).mpr ⟨q, .inr hb, rfl⟩⟩
      exact pathDn_ne_append hne ((pathDn_nil d base).trans heq.symm)
    rw [hpaths] at hdn
    obtain ⟨q', hq', heq⟩ := List.mem_map.mp hdn
    have htrimmed : IsTrimmed q := IsReached.isTrimmed hd (.inr hb)
    cases hd.isComposite.pathDn_inj ((hreached q' hq').2.isTrimmed hd) htrimmed heq
    exact hq'
  · rw [← hpaths]
    exact List.perm_cons_erase hbase

/-- Binds below an entry that is alone in the store, none at a name above that of another, read back. All
succeed, each name has the value that was bound there last, each name above is a context, and besides the
entry itself the store holds one entry for each of these names. -/
theorem binds_read_back (r : Realm) (k : Nat) (d : Directory) (hd : d.IsUsual) (base : String)
    (hbase : base ≠ "") (e : Entry) (hr : r.Serves k d [(base, e)]) (serial : Nat)
    (bindings : List (Binding d)) (hfree : IsFree bindings) :
    let root := Value.entry k serial (.text base)
    let out := r.bindEach root bindings
    out.1 = bindings.map (fun _ => .ok ()) ∧
    (∀ before b after name, bindings = before ++ b :: after → (∀ c ∈ after, c.name ≠ b.name) →
      d.grammar.resolve name = .ok b.name → (out.2.lookup name root).1 = .ok b.value) ∧
    (∀ b ∈ bindings, ∀ m name, m.IsAbove b.name → d.grammar.resolve name = .ok m →
      ∃ serial', (out.2.lookup name root).1 =
        .ok (.entry k serial' (.text (pathDn d [base] m.segments)))) ∧
    ∃ (s : Store) (paths : List (List Segment)), out.2.Serves k d s ∧ s.get? base = some e ∧
      (OrderedMap.keys s).Nodup ∧ (OrderedMap.keys s).Perm (base :: paths.map (pathDn d [base])) ∧
      paths.Nodup ∧ ∀ q, q ∈ paths ↔ q ≠ [] ∧ ∃ b ∈ bindings, q <+: b.name.segments := by
  intro root out
  obtain ⟨s, hresults, hserves, h⟩ := hr.bindEach hd hbase (holdsBindings_nil d base e) hfree serial
  rw [List.nil_append] at h
  obtain ⟨paths, hnodup, hpaths, hperm⟩ := h.keys_perm hd
  refine ⟨hresults, ?_, ?_, s, paths, hserves, h.root, h.nodup, hperm, hnodup, hpaths⟩
  · intro before b after name hbindings hlast hname
    exact h.lookup_name hd hbase hserves hbindings hlast hname serial
  · intro b hb m name hm hname
    exact h.lookup_above hd hbase hserves hb hm hname serial

/-- Three bindings, the last at the name of the first again. -/
def sampleBindings : List (Binding plainDirectory) :=
  [{ text := "disk/size"
     name := ⟨⟨"disk", by decide⟩, [⟨"size", by decide⟩]⟩
     value := .int 1
     parse_eq := rfl
     isData := .int (by decide) },
   { text := "disk/kind"
     name := ⟨⟨"disk", by decide⟩, [⟨"kind", by decide⟩]⟩
     value := .list [.null, .bool true]
     parse_eq := rfl
     isData := .list (by simp [Json.IsData.null, Json.IsData.bool]) },
   { text := " disk / size"
     name := ⟨⟨"disk", by decide⟩, [⟨"size", by decide⟩]⟩
     value := .dict (OrderedMap.texts [("x", .int (-5))])
     parse_eq := rfl
     isData := .dict (by decide) (by simpa using .int (by decide)) }]

/-- The second value at a name is read back, next to another name below the same context. -/
theorem binds_read_back_again :
    let r := plainRealm [("dc=x", [])]
    let root := Value.entry 0 0 (.text "dc=x")
    let out := r.bindEach root sampleBindings
    plainDirectory.IsUsual ∧ r.Serves 0 plainDirectory [("dc=x", [])] ∧ IsFree sampleBindings ∧
      out.1 = [.ok (), .ok (), .ok ()] ∧
      (out.2.lookup (.text "disk/size") root).1 = .ok (.dict [(.text "x", .int (-5))]) ∧
      (out.2.lookup (.text "disk/kind") root).1 = .ok (.list [.null, .bool true]) ∧
      ∃ serial, (out.2.lookup (.text "disk") root).1 = .ok (.entry 0 serial (.text "cn=disk,dc=x")) := by
  intro r root out
  have hr : r.Serves 0 plainDirectory [("dc=x", [])] := serves_plainRealm _
  have hfree : IsFree sampleBindings := by decide
  obtain ⟨hresults, hnames, habove, -⟩ := binds_read_back r 0 plainDirectory isUsual_plainDirectory
    "dc=x" (by decide) [] hr 0 sampleBindings hfree
  have hdn : pathDn plainDirectory ["dc=x"] [⟨"disk", by decide⟩] = "cn=disk,dc=x" := by
    decide +kernel
  refine ⟨isUsual_plainDirectory, hr, hfree, hresults, ?_, ?_, ?_⟩
  · exact hnames (sampleBindings.take 2) sampleBindings[2] [] (.text "disk/size") rfl nofun rfl
  · exact hnames (sampleBindings.take 1) sampleBindings[1] (sampleBindings.drop 2) (.text "disk/kind")
      rfl (by decide) rfl
  · rw [← hdn]
    exact habove sampleBindings[0] (List.getElem_mem _) ⟨⟨"disk", by decide⟩, []⟩ (.text "disk")
      (by decide) rfl

end Ldap
end NamingDirectory
