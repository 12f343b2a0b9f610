import NamingDirectory.Value

/-!
# Texts as keys

Keys are compared by what they stand for, so that different values can be the same key. Texts are the same
key only as themselves. Hence a map reads back what was written at a text (`get?_put_text`), and entries at
texts make the map that they make with texts for keys (`ofEntries_texts`).
-/

namespace NamingDirectory

namespace Value

variable {v : Value} {s t : String}

/-- Nothing but the text itself counts as the same key as a text. -/
theorem beq_text_iff : (v == .text s) = true ↔ v = .text s := by
  cases v with
  | text t =>
    have hsame : (t == s) = true ↔ t = s := beq_iff_eq
    rw [Value.text.injEq]
    exact hsame
  | _ => exact iff_of_false Bool.false_ne_true nofun

end Value

/-- A map reads back what was written at a text, and nothing else at other texts. -/
theorem OrderedMap.get?_put_text {α : Type} (m : OrderedMap Value α) (k k' : String) (v : α) :
    (m.put (.text k) v).get? (.text k') = if k = k' then some v else m.get? (.text k') := by
  induction m with
  | nil => simp only [put, get?, Value.beq_text_iff, Value.text.injEq]
  | cons e m ih =>
    obtain ⟨k₀, v₀⟩ := e
    rw [put]
    split
    · next h =>
      cases Value.beq_text_iff.mp h
      simp only [get?, Value.beq_text_iff, Value.text.injEq]
      split
      · rfl
      · rfl
    · next h =>
      simp only [get?, ih]
      split
      · next h' =>
        cases Value.beq_text_iff.mp h'
        rw [if_neg fun heq => h (Value.beq_text_iff.mpr (congrArg Value.text heq.symm))]
      · rfl

/-- Entries with texts as keys. -/
def OrderedMap.texts {α : Type} (entries : List (String × α)) : List (Value × α) :=
  entries.map fun e => (.text e.1, e.2)

namespace OrderedMap

variable {α : Type}

theorem put_texts (m : OrderedMap String α) (k : String) (v : α) :
    put (texts m) (.text k) v = texts (m.put k v) := by
  induction m with
  | nil => rfl
  | cons e m ih =>
    have hsame : (Value.text e.1 == .text k) = true ↔ (e.1 == k) = true := by
      simp only [Value.beq_text_iff, Value.text.injEq, beq_iff_eq]
    rw [texts, List.map_cons, put, put]
    by_cases hk : (e.1 == k) = true
    · rw [if_pos (hsame.mpr hk), if_pos hk]
      rfl
    · rw [if_neg (mt hsame.mp hk), if_neg hk]
      exact congrArg _ ih

theorem update_texts (m : OrderedMap String α) (entries : List (String × α)) :
    update (texts m) (texts entries) = texts (m.update entries) := by
  induction entries generalizing m with
  | nil => rfl
  | cons e entries ih =>
    show update (put (texts m) (.text e.1) e.2) (texts entries) = _
    rw [put_texts, ih]
    rfl

/-- A map that is made of entries with texts as keys is made as if the keys were just texts. -/
theorem ofEntries_texts (entries : List (String × α)) :
    ofEntries (texts entries) = texts (ofEntries entries) :=
  update_texts [] entries

end OrderedMap
end NamingDirectory
