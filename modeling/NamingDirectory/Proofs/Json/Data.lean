import NamingDirectory.Proofs.Json.NormalForm

/-!
# JSON data

The values that come back from JSON as they are: nothing, truth values, integers that are not too long, texts,
and lists and dictionaries of such values, with texts as keys. They can all be written (`IsData.exists_text`),
and each is its own normal form (`IsData.normal`).

Both are said of values of all depths, so the inductions are on what makes a value one of these, and not on
the value: a dictionary of data comes with its keys apart, which is why merging its entries changes nothing.
-/

namespace NamingDirectory.Json

/-- Whether a value is made of nothing, truth values, integers of up to 4300 digits, texts, lists, and
dictionaries with texts as keys. -/
inductive IsData : Value → Prop
  | null : IsData .null
  | bool (b : Bool) : IsData (.bool b)
  | int {i : Int} : (Nat.toDigits 10 i.natAbs).length ≤ 4300 → IsData (.int i)
  | text (s : String) : IsData (.text s)
  | list {items : List Value} : (∀ v ∈ items, IsData v) → IsData (.list items)
  | dict {entries : List (String × Value)} : (entries.map (·.1)).Nodup → (∀ e ∈ entries, IsData e.2) →
      IsData (.dict (OrderedMap.texts entries))

/-! ### Data can be written

Every constructor is one of `HasForm`. -/

theorem IsData.hasForm {v : Value} (h : IsData v) : HasForm v := by
  induction h with
  | null => exact .null
  | bool b => exact .bool b
  | int hdigits => exact .int hdigits
  | text s => exact .text s
  | list _ ih => exact .list ih
  | dict _ _ ih =>
    constructor
    · intro e he
      obtain ⟨field, -, rfl⟩ := List.mem_map.mp he
      exact .text field.1
    · intro e he
      obtain ⟨field, hfield, rfl⟩ := List.mem_map.mp he
      exact ih field hfield

/-- Whatever has a form has a text. -/
theorem IsData.exists_text {v : Value} (h : IsData v) : ∃ text, Json.text v = .ok text :=
  exists_text_iff.mpr h.hasForm

/-! ### Data are normal

Nothing in them is a tuple, a number with a fraction, or a key that is no text. -/

theorem normalItems_eq_self {items : List Value} (h : ∀ v ∈ items, normal v = v) :
    normalItems items = items := by
  induction items with
  | nil => rfl
  | cons v items ih =>
    obtain ⟨hv, hitems⟩ := List.forall_mem_cons.mp h
    rw [normalItems, hv, ih hitems]

/-- Keys that are texts stay as they are, so the entries do if their values do. -/
theorem normalEntries_texts {entries : List (String × Value)} (h : ∀ e ∈ entries, normal e.2 = e.2) :
    normalEntries (OrderedMap.texts entries) = OrderedMap.texts entries := by
  induction entries with
  | nil => rfl
  | cons e entries ih =>
    obtain ⟨he, hentries⟩ := List.forall_mem_cons.mp h
    have hkey : normalKey (.text e.1) = .text e.1 := by
      rw [normalKey_of_keyText rfl, String.ofList_toList]
    rw [OrderedMap.texts, List.map_cons, normalEntries, hkey, he]
    exact congrArg _ (ih hentries)

theorem IsData.normal {v : Value} (h : IsData v) : normal v = v := by
  induction h with
  | null => rfl
  | bool b => rfl
  | int _ => rfl
  | text s => rfl
  | list _ ih => rw [Json.normal, normalItems_eq_self ih]
  | dict hkeys _ ih =>
    rw [Json.normal, normalEntries_texts ih, OrderedMap.ofEntries_texts,
      OrderedMap.ofEntries_of_nodup hkeys]

end NamingDirectory.Json
