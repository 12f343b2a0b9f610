import Mathlib.Data.List.Basic
import NamingDirectory.Properties
import NamingDirectory.Proofs.OrderedMap

/-!
# The properties of a configuration

`Becomes` says which property an entry of a configuration becomes, and `LeavesBehind` what a whole
configuration comes to, entry by entry. Different keys can be one property. The properties are then what is
left of the configuration, merged: each stands where the first entry for it stood and has the value of the
last (`ofConfiguration_lastWins`). An entry that becomes nothing has no say in this, so a class or a URL
that holds nothing does not take back an earlier one; a property that passes through does, with nothing for
a value.

The function goes by the text of a key, tries two texts first and then the stem, so there is one lemma for
each of the ways that it can take, and their hypotheses are those of the constructors of `Becomes`. From one
entry to all of them it is a matter of lists: `LeavesBehind` is a filtered map (`leavesBehind_iff`), and
merging is the law of ordered maps.
-/

namespace NamingDirectory.Properties

/-- Whether an entry of a configuration becomes a property. -/
inductive Becomes : Value × Value → String × Value → Prop
  /-- The kind of directory, if there is one. -/
  | kind {v : Value} : v ≠ .null → Becomes (.text classKey, v) (contextFactory, v)
  /-- The URL of the provider, if there is one. -/
  | url {v : Value} : v ≠ .null → Becomes (.text urlKey, v) (providerUrl, v)
  /-- Any other entry for the directory loses the stem of its key, whatever it holds. -/
  | passed {key : String} {v : Value} : stem ++ key ≠ classKey → stem ++ key ≠ urlKey →
      Becomes (.text (stem ++ key), v) (key, v)

/-- Whether a key is of no concern to the directory: one that is no text, or does not start with the stem. -/
def IsForeign (key : Value) : Prop := ∀ rest, key ≠ .text (stem ++ rest)

/-- Whether an entry holds nothing where the kind of directory or the URL is expected. -/
def IsDropped (e : Value × Value) : Prop := (e.1 = .text classKey ∨ e.1 = .text urlKey) ∧ e.2 = .null

/-- Whether properties are what the entries of a configuration become, in their order. -/
inductive LeavesBehind : List (Value × Value) → List (String × Value) → Prop
  | nil : LeavesBehind [] []
  | kept {e : Value × Value} {p : String × Value} {es : List (Value × Value)} {ps : List (String × Value)} :
      Becomes e p → LeavesBehind es ps → LeavesBehind (e :: es) (p :: ps)
  | vanished {e : Value × Value} {es : List (Value × Value)} {ps : List (String × Value)} :
      (∀ p, ¬ Becomes e p) → LeavesBehind es ps → LeavesBehind (e :: es) ps

variable {e : Value × Value} {es : List (Value × Value)} {p : String × Value} {ps : List (String × Value)}

/-! ### One entry

A key that starts with the stem is one with a rest behind it, so the cases are told by texts and not by
prefixes. -/

/-- A key starts with the stem just if it is the stem and something more. -/
theorem stem_isPrefixOf_iff (key : String) :
    stem.toList.isPrefixOf key.toList = true ↔ ∃ rest, key = stem ++ rest := by
  rw [List.isPrefixOf_iff_prefix]
  constructor
  · rintro ⟨rest, hrest⟩
    refine ⟨String.ofList rest, String.toList_injective ?_⟩
    rw [String.toList_append, String.toList_ofList, hrest]
  · rintro ⟨rest, rfl⟩
    rw [String.toList_append]
    exact List.prefix_append _ _

theorem ofList_drop_stem (rest : String) :
    String.ofList ((stem ++ rest).toList.drop stem.length) = rest := by
  rw [String.toList_append, ← String.length_toList, List.drop_left, String.ofList_toList]

theorem rename_kind (v : Value) :
    rename (.text classKey, v) = some p ↔ v ≠ .null ∧ p = (contextFactory, v) := by
  cases v <;> simp [rename, eq_comm]

theorem rename_url (v : Value) :
    rename (.text urlKey, v) = some p ↔ v ≠ .null ∧ p = (providerUrl, v) := by
  have hne : (urlKey == classKey) = false := by decide
  cases v <;> simp [rename, hne, eq_comm]

theorem rename_passed {rest : String} (v : Value) (hclass : stem ++ rest ≠ classKey)
    (hurl : stem ++ rest ≠ urlKey) : rename (.text (stem ++ rest), v) = some (rest, v) := by
  have hstem := (stem_isPrefixOf_iff (stem ++ rest)).mpr ⟨rest, rfl⟩
  simp only [rename, beq_iff_eq, if_neg hclass, if_neg hurl, if_pos hstem, ofList_drop_stem]

theorem rename_foreign {key : Value} (h : IsForeign key) (v : Value) : rename (key, v) = none := by
  cases key with
  | text key =>
    have hstem : ¬ stem.toList.isPrefixOf key.toList = true := by
      rw [stem_isPrefixOf_iff]
      rintro ⟨rest, rfl⟩
      exact h rest rfl
    have hclass : key ≠ classKey := by
      rintro rfl
      exact h "class" rfl
    have hurl : key ≠ urlKey := by
      rintro rfl
      exact h "url" rfl
    simp only [rename, beq_iff_eq, if_neg hclass, if_neg hurl, if_neg hstem]
  | _ => rfl

/-- The function finds the property that an entry becomes. -/
theorem rename_eq_some_iff : rename e = some p ↔ Becomes e p := by
  constructor
  · intro h
    obtain ⟨key, v⟩ := e
    by_cases hforeign : IsForeign key
    · rw [rename_foreign hforeign] at h
      cases h
    · obtain ⟨rest, rfl⟩ := not_forall_not.mp hforeign
      -- Of the keys with the stem two have an entry of their own, and the others are passed on without it.
      by_cases hclass : stem ++ rest = classKey
      · rw [hclass] at h ⊢
        obtain ⟨hv, rfl⟩ := (rename_kind v).mp h
        exact .kind hv
      by_cases hurl : stem ++ rest = urlKey
      · rw [hurl] at h ⊢
        obtain ⟨hv, rfl⟩ := (rename_url v).mp h
        exact .url hv
      rw [rename_passed v hclass hurl] at h
      cases h
      exact .passed hclass hurl
  · intro h
    cases h with
    | kind hv => exact (rename_kind _).mpr ⟨hv, rfl⟩
    | url hv => exact (rename_url _).mpr ⟨hv, rfl⟩
    | passed hclass hurl => exact rename_passed _ hclass hurl

theorem rename_eq_none_of_isDropped (h : IsDropped e) : rename e = none := by
  obtain ⟨key, v⟩ := e
  obtain ⟨rfl | rfl, rfl⟩ := h
  · rfl
  · rfl

/-! ### All entries

In their order, of which nothing is lost until they are merged. -/

theorem leavesBehind_iff : LeavesBehind es ps ↔ es.filterMap rename = ps := by
  constructor
  · intro h
    induction h with
    | nil => rfl
    | kept he _ ih => rw [List.filterMap_cons_some (rename_eq_some_iff.mpr he), ih]
    | vanished he _ ih =>
      have hnone : rename _ = none := Option.eq_none_iff_forall_ne_some.mpr fun p hp =>
        he p (rename_eq_some_iff.mp hp)
      rw [List.filterMap_cons_none hnone, ih]
  · rintro rfl
    induction es with
    | nil => exact .nil
    | cons e es ih =>
      cases he : rename e with
      | none =>
        rw [List.filterMap_cons_none he]
        refine .vanished (fun p hp => ?_) ih
        rw [rename_eq_some_iff.mpr hp] at he
        cases he
      | some p =>
        rw [List.filterMap_cons_some he]
        exact .kept (rename_eq_some_iff.mp he) ih

/-- A configuration has the properties that its entries leave behind, merged. -/
theorem ofConfiguration_eq_ok_iff :
    ofConfiguration (.dict es) = .ok ps ↔ ∃ left, LeavesBehind es left ∧ OrderedMap.Merges left ps := by
  simp only [leavesBehind_iff, exists_eq_left', OrderedMap.merges_iff]
  show Except.ok (ofEntries es) = Except.ok ps ↔ _
  rw [Except.ok.injEq, eq_comm]
  rfl

/-- Properties in two parts are merged in two parts. -/
theorem ofEntries_append (es es' : List (Value × Value)) :
    ofEntries (es ++ es') = (ofEntries es).update (ofEntries es') := by
  rw [ofEntries, List.filterMap_append]
  exact OrderedMap.ofEntries_append _ _

/-- Entries that become nothing may be left out, or put in, wherever they stand. -/
theorem ofEntries_filter {kept : Value × Value → Bool}
    (h : ∀ e ∈ es, kept e = false → IsForeign e.1 ∨ IsDropped e) :
    ofEntries (es.filter kept) = ofEntries es := by
  have hleft : (es.filter kept).filterMap rename = es.filterMap rename := by
    rw [List.filterMap_filter]
    apply List.filterMap_congr
    intro e he
    cases hkept : kept e with
    | true => rfl
    | false =>
      rcases h e he hkept with hforeign | hdropped
      · exact (rename_foreign hforeign e.2).symm
      · exact (rename_eq_none_of_isDropped hdropped).symm
  rw [ofEntries, hleft, ofEntries]

/-- The properties of a configuration are what is left of its entries, each at the place of the first entry
for it and with the value of the last. So a configuration in two parts has the properties of the first,
updated with those of the second; entries that are foreign or dropped make no difference, wherever they
stand; and an entry that passes through is written over what was there, also if it holds nothing. -/
theorem ofConfiguration_lastWins (entries : List (Value × Value)) :
    (∀ props, ofConfiguration (.dict entries) = .ok props ↔
      ∃ left, LeavesBehind entries left ∧ OrderedMap.Merges left props) ∧
    (∀ more, ofConfiguration (.dict (entries ++ more)) = do
      return (← ofConfiguration (.dict entries)).update (← ofConfiguration (.dict more))) ∧
    (∀ kept : Value × Value → Bool, (∀ e ∈ entries, kept e = false → IsForeign e.1 ∨ IsDropped e) →
      ofConfiguration (.dict (entries.filter kept)) = ofConfiguration (.dict entries)) ∧
    (∀ key v, stem ++ key ≠ classKey → stem ++ key ≠ urlKey →
      ofConfiguration (.dict (entries ++ [(.text (stem ++ key), v)])) =
        (ofConfiguration (.dict entries)).map (OrderedMap.put · key v)) := by
  refine ⟨fun _ => ofConfiguration_eq_ok_iff, fun more => ?_, fun kept h => ?_, fun key v hclass hurl => ?_⟩
  · exact congrArg Except.ok (ofEntries_append entries more)
  · exact congrArg Except.ok (ofEntries_filter h)
  · have hlast : ofEntries [(.text (stem ++ key), v)] = [(key, v)] := by
      rw [ofEntries, List.filterMap_cons_some (rename_passed v hclass hurl)]
      rfl
    show Except.ok _ = Except.ok _
    rw [ofEntries_append, hlast]
    rfl

/-- A configuration with two entries for one property, a URL that holds nothing, and a foreign entry. -/
def colliding : List (Value × Value) := [
  (.text "dirbind.directory.class", .text "ldap"),
  (.int 1, .text "ldap"),
  (.text "dirbind.directory.naming.factory.initial", .null),
  (.text "dirbind.directory.url", .null)]

/-- The property that passes through takes the class back, and the entries that become nothing can go. -/
theorem ofConfiguration_lastWins_colliding :
    (∃ left, LeavesBehind colliding left ∧ OrderedMap.Merges left [("naming.factory.initial", .null)]) ∧
    ofConfiguration (.dict [
        (.text "dirbind.directory.class", .text "ldap"),
        (.text "dirbind.directory.naming.factory.initial", .null)]) =
      ofConfiguration (.dict colliding) := by
  obtain ⟨hmerged, -, hfilter, -⟩ := ofConfiguration_lastWins colliding
  refine ⟨(hmerged _).mp rfl, hfilter (fun e => !(e.1 == .int 1) && !(e.1 == .text urlKey)) ?_⟩
  rintro e he hkept
  simp only [colliding, List.mem_cons, List.not_mem_nil, or_false] at he
  rcases he with rfl | rfl | rfl | rfl
  · cases hkept
  · exact .inl fun rest h => by cases h
  · cases hkept
  · exact .inr ⟨.inr rfl, rfl⟩

/-- A class that holds nothing leaves an earlier property alone. -/
example : ofConfiguration (.dict [
    (.text "dirbind.directory.naming.factory.initial", .text "ldap"),
    (.text "dirbind.directory.class", .null)]) = .ok [("naming.factory.initial", .text "ldap")] := rfl

end NamingDirectory.Properties
