import Mathlib.Data.List.Forall2
import NamingDirectory.Proofs.Json.RoundTrip
import NamingDirectory.Proofs.OrderedMap
import NamingDirectory.Proofs.TextKey

/-!
# What can be written, and what comes back

Which values have a JSON form, and what a value is turned into on its way through JSON, both said by what
the value is made of and without the writer and the reader. `exists_text_iff` says that the values with a
form are just those that can be written. `normalises_normal` says what comes back of a value without
floating-point numbers: a tuple comes back as a list, a key as a text, and of the entries that then have
one key only the last one, at the place of the first.
-/

namespace NamingDirectory.Json

/-! ### Values with a form

Integers that are too long have none, as the reader would refuse them, nor do values of other kinds, wherever
in a value they are. A floating-point number always has one. The writer gives up at the first part that it
cannot write, so a value can be written just if all of its parts can. -/

/-- Whether an integer has at most 4300 digits. -/
def IsShort (i : Int) : Prop := (Nat.toDigits 10 i.natAbs).length ≤ 4300

instance (i : Int) : Decidable (IsShort i) :=
  inferInstanceAs (Decidable ((Nat.toDigits 10 i.natAbs).length ≤ 4300))

/-- Whether a value can be the key of an entry. -/
inductive IsKey : Value → Prop
  | null : IsKey .null
  | bool (b : Bool) : IsKey (.bool b)
  | int {i : Int} : IsShort i → IsKey (.int i)
  | float (x : Binary64) : IsKey (.float x)
  | text (s : String) : IsKey (.text s)

/-- Whether a value is made of what JSON has a form for. -/
inductive HasForm : Value → Prop
  | null : HasForm .null
  | bool (b : Bool) : HasForm (.bool b)
  | int {i : Int} : IsShort i → HasForm (.int i)
  | float (x : Binary64) : HasForm (.float x)
  | text (s : String) : HasForm (.text s)
  | list {items : List Value} : (∀ v ∈ items, HasForm v) → HasForm (.list items)
  | tuple {items : List Value} : (∀ v ∈ items, HasForm v) → HasForm (.tuple items)
  | dict {entries : List (Value × Value)} : (∀ e ∈ entries, IsKey e.1) → (∀ e ∈ entries, HasForm e.2) →
      HasForm (.dict entries)

section Written

variable {i : Int} {k v : Value} {items : List Value} {entries : List (Value × Value)}

/-- An integer can be written just if it is not too long. -/
theorem exists_writeInt_iff : (∃ cs, writeInt i = .ok cs) ↔ IsShort i := by
  unfold writeInt
  split
  · next h => exact iff_of_true ⟨_, rfl⟩ h
  · next h => exact iff_of_false nofun h

/-- A key can be written just if it may be one. -/
theorem exists_keyText_iff : (∃ cs, keyText k = .ok cs) ↔ IsKey k := by
  cases k with
  | null => exact iff_of_true ⟨_, rfl⟩ .null
  | bool b => exact iff_of_true ⟨_, rfl⟩ (.bool b)
  | float x => exact iff_of_true ⟨_, rfl⟩ (.float x)
  | text s => exact iff_of_true ⟨_, rfl⟩ (.text s)
  | int i =>
    rw [keyText, exists_writeInt_iff]
    constructor
    · intro h
      exact .int h
    · intro h
      cases h with
      | int h => exact h
  | _ => exact iff_of_false nofun nofun

/-- A step can be taken after another one iff both can be taken. -/
theorem exists_bind_iff {α β : Type} {result : Except Unwritable α} {f : α → β} :
    (∃ b, (result >>= fun a => pure (f a)) = .ok b) ↔ ∃ a, result = .ok a := by
  cases result with
  | error e => exact iff_of_false nofun nofun
  | ok a => exact iff_of_true ⟨_, rfl⟩ ⟨a, rfl⟩

/-- Two steps whose results are put together can be taken just if each of them can. -/
theorem exists_bind₂_iff {α β γ : Type} {result : Except Unwritable α} {next : Except Unwritable β}
    {f : α → β → γ} :
    (∃ c, (result >>= fun a => next >>= fun b => pure (f a b)) = .ok c) ↔
      (∃ a, result = .ok a) ∧ ∃ b, next = .ok b := by
  cases result with
  | error e => exact iff_of_false nofun (by simp)
  | ok a =>
    refine Iff.trans exists_bind_iff ?_
    simp

/-- Items can be written iff each of them can. -/
theorem exists_writeItems_iff :
    (∃ cs, writeItems items = .ok cs) ↔ ∀ v ∈ items, ∃ cs, write v = .ok cs := by
  induction items with
  | nil => exact iff_of_true ⟨_, rfl⟩ nofun
  | cons v items ih =>
    rw [List.forall_mem_cons, ← ih]
    -- After the last item comes a bracket, after any other a comma.
    cases items with
    | nil =>
      have hone : writeItems [v] = write v >>= fun cs => pure (cs ++ [']']) := rfl
      rw [hone, exists_bind_iff]
      simp [writeItems]
    | cons w items =>
      rw [writeItems, exists_bind₂_iff]
      exact List.cons_ne_nil w items

/-- Entries can be written iff each key and each value can. -/
theorem exists_writeEntries_iff :
    (∃ cs, writeEntries entries = .ok cs) ↔
      ∀ e ∈ entries, (∃ cs, keyText e.1 = .ok cs) ∧ ∃ cs, write e.2 = .ok cs := by
  induction entries with
  | nil => exact iff_of_true ⟨_, rfl⟩ nofun
  | cons e entries ih =>
    obtain ⟨k, v⟩ := e
    rw [List.forall_mem_cons, ← ih]
    cases entries with
    | nil =>
      have hone : writeEntries [(k, v)] = keyText k >>= fun key => write v >>= fun cs =>
          pure (writeText key ++ ':' :: ' ' :: cs ++ ['\x7d']) := rfl
      rw [hone, exists_bind₂_iff]
      simp [writeEntries]
    | cons e entries =>
      rw [writeEntries]
      · cases keyText k with
        | error p => exact iff_of_false nofun (by simp)
        | ok key =>
          refine Iff.trans exists_bind₂_iff ?_
          simp
      · exact List.cons_ne_nil e entries

/-- What has a form can be written, by induction on the form. -/
theorem HasForm.exists_write (h : HasForm v) : ∃ cs, write v = .ok cs := by
  induction h with
  | null => exact ⟨_, rfl⟩
  | bool b => exact ⟨_, rfl⟩
  | int h => exact exists_writeInt_iff.mpr h
  | float x => exact ⟨_, rfl⟩
  | text s => exact ⟨_, rfl⟩
  | list _ ih | tuple _ ih =>
    rw [write, exists_bind_iff, exists_writeItems_iff]
    exact ih
  | dict hkeys _ ih =>
    rw [write, exists_bind_iff, exists_writeEntries_iff]
    intro e he
    exact ⟨exists_keyText_iff.mpr (hkeys e he), ih e he⟩

/-- What can be written has a form, by induction on the value. -/
theorem hasForm_of_write {v : Value} (h : ∃ cs, write v = .ok cs) : HasForm v := by
  match v with
  | .null => exact .null
  | .bool b => exact .bool b
  | .int i => exact .int (exists_writeInt_iff.mp h)
  | .float x => exact .float x
  | .text s => exact .text s
  | .list items =>
    rw [write, exists_bind_iff, exists_writeItems_iff] at h
    exact .list fun v hv => hasForm_of_write (h v hv)
  | .tuple items =>
    rw [write, exists_bind_iff, exists_writeItems_iff] at h
    exact .tuple fun v hv => hasForm_of_write (h v hv)
  | .dict entries =>
    rw [write, exists_bind_iff, exists_writeEntries_iff] at h
    refine .dict (fun e he => exists_keyText_iff.mp (h e he).1) ?_
    intro (k, w) he
    -- The recursion is on the size of the value, and a value of an entry is two steps down.
    have hsmaller : sizeOf w < 1 + sizeOf entries := by
      have hentry := List.sizeOf_lt_of_mem he
      rw [Prod.mk.sizeOf_spec] at hentry
      omega
    exact hasForm_of_write (h _ he).2
  | .bytes _ | .name _ | .emptySet | .object | .circular | .context _ | .entry .. | .scripted .. =>
    exact absurd h nofun

/-- A value can be written iff it has a form. -/
theorem exists_text_iff : (∃ text, Json.text v = .ok text) ↔ HasForm v := by
  rw [Json.text]
  constructor
  · intro h
    apply hasForm_of_write
    cases hwrite : write v with
    | error e => simp [hwrite, Except.map] at h
    | ok cs => exact ⟨cs, rfl⟩
  · intro h
    obtain ⟨cs, hcs⟩ := h.exists_write
    rw [hcs]
    exact ⟨_, rfl⟩

end Written

/-! ### Normal forms

A relation and not a function, in which nothing is left to an implementation: how entries with one key become
one is said of the list of them (`OrderedMap.Merges`). -/

/-- Whether a value is made of nothing, truth values, integers, texts, lists, tuples and dictionaries. -/
inductive IsPlain : Value → Prop
  | null : IsPlain .null
  | bool (b : Bool) : IsPlain (.bool b)
  | int (i : Int) : IsPlain (.int i)
  | text (s : String) : IsPlain (.text s)
  | list {items : List Value} : (∀ v ∈ items, IsPlain v) → IsPlain (.list items)
  | tuple {items : List Value} : (∀ v ∈ items, IsPlain v) → IsPlain (.tuple items)
  | dict {entries : List (Value × Value)} : (∀ e ∈ entries, IsPlain e.1) → (∀ e ∈ entries, IsPlain e.2) →
      IsPlain (.dict entries)

/-- The text that stands for a key. -/
inductive KeyWord : Value → String → Prop
  | null : KeyWord .null "null"
  | true : KeyWord (.bool true) "true"
  | false : KeyWord (.bool false) "false"
  | int (i : Int) : KeyWord (.int i) (toString i)
  | text (s : String) : KeyWord (.text s) s

/-- What a value without floating-point numbers is turned into. Tuples become lists, keys become texts,
and the entries of a dictionary that have one key then become one. -/
inductive Normalises : Value → Value → Prop
  | null : Normalises .null .null
  | bool (b : Bool) : Normalises (.bool b) (.bool b)
  | int (i : Int) : Normalises (.int i) (.int i)
  | text (s : String) : Normalises (.text s) (.text s)
  | list {items items' : List Value} : List.Forall₂ Normalises items items' →
      Normalises (.list items) (.list items')
  | tuple {items items' : List Value} : List.Forall₂ Normalises items items' →
      Normalises (.tuple items) (.list items')
  | dict {entries : List (Value × Value)} {fields merged : List (String × Value)} :
      List.Forall₂ KeyWord (entries.map Prod.fst) (fields.map Prod.fst) →
      List.Forall₂ Normalises (entries.map Prod.snd) (fields.map Prod.snd) →
      OrderedMap.Merges fields merged →
      Normalises (.dict entries) (.dict (OrderedMap.texts merged))

section Normal

variable {k v : Value} {items : List Value} {entries : List (Value × Value)}

/-- Items are turned into something one by one. -/
theorem forall₂_normalItems (h : ∀ v ∈ items, Normalises v (normal v)) :
    List.Forall₂ Normalises items (normalItems items) := by
  induction items with
  | nil => exact .nil
  | cons v items ih =>
    obtain ⟨hv, hitems⟩ := List.forall_mem_cons.mp h
    exact .cons hv (ih hitems)

/-- The text of a key without a fraction is the one that it stands for. -/
theorem exists_keyWord (hk : IsKey k) (hplain : IsPlain k) :
    ∃ word, KeyWord k word ∧ normalKey k = .text word := by
  cases hk with
  | null => exact ⟨_, .null, rfl⟩
  | bool b =>
    cases b with
    | true => exact ⟨_, .true, rfl⟩
    | false => exact ⟨_, .false, rfl⟩
  | @int i hshort =>
    refine ⟨_, .int i, ?_⟩
    have hkey : keyText (.int i) = .ok (toString i).toList := if_pos hshort
    rw [normalKey_of_keyText hkey, String.ofList_toList]
  | float x => cases hplain
  | text s =>
    refine ⟨_, .text s, ?_⟩
    rw [normalKey_of_keyText rfl, String.ofList_toList]

/-- The entries of a dictionary become fields with texts as keys, one by one. -/
theorem exists_fields (hkeys : ∀ e ∈ entries, ∃ word, KeyWord e.1 word ∧ normalKey e.1 = .text word)
    (hvalues : ∀ e ∈ entries, Normalises e.2 (normal e.2)) :
    ∃ fields, normalEntries entries = OrderedMap.texts fields ∧
      List.Forall₂ KeyWord (entries.map Prod.fst) (fields.map Prod.fst) ∧
      List.Forall₂ Normalises (entries.map Prod.snd) (fields.map Prod.snd) := by
  induction entries with
  | nil => exact ⟨[], rfl, .nil, .nil⟩
  | cons e entries ih =>
    obtain ⟨⟨word, hword, hkey⟩, hkeys⟩ := List.forall_mem_cons.mp hkeys
    obtain ⟨hvalue, hvalues⟩ := List.forall_mem_cons.mp hvalues
    obtain ⟨fields, hfields, hwords, hnormal⟩ := ih hkeys hvalues
    refine ⟨(word, normal e.2) :: fields, ?_, .cons hword hwords, .cons hvalue hnormal⟩
    rw [normalEntries, hkey, hfields]
    rfl

/-- The normal form of a value without floating-point numbers is what the value is turned into. -/
theorem normalises_normal (h : HasForm v) (hplain : IsPlain v) : Normalises v (normal v) := by
  induction h with
  | null => exact .null
  | bool b => exact .bool b
  | int _ => exact .int _
  | float x => cases hplain
  | text s => exact .text s
  | list _ ih =>
    cases hplain with
    | list hitems => exact .list (forall₂_normalItems fun v hv => ih v hv (hitems v hv))
  | tuple _ ih =>
    cases hplain with
    | tuple hitems => exact .tuple (forall₂_normalItems fun v hv => ih v hv (hitems v hv))
  | dict hkeys _ ih =>
    cases hplain with
    | dict hplainKeys hvalues =>
      obtain ⟨fields, hfields, hwords, hnormal⟩ := exists_fields
        (fun e he => exists_keyWord (hkeys e he) (hplainKeys e he)) fun e he => ih e he (hvalues e he)
      rw [normal, hfields, OrderedMap.ofEntries_texts]
      exact .dict hwords hnormal (OrderedMap.merges_ofEntries fields)

end Normal

end NamingDirectory.Json
