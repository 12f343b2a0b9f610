import NamingDirectory.Proofs.Fault
import NamingDirectory.Proofs.Json.Numeral

/-!
# Values through JSON

What the writer wrote, the reader reads. A value comes back as its normal form: a tuple as a list, the keys of
a dictionary as texts, and of two keys with one text the later value, at the place of the earlier.

A value's text is followed by whatever surrounds it, so reading is stated for the text with any rest that
cannot lengthen a number; lists and dictionaries add their own signs between the values. The fuel of the
reader is counted against the length of the text:

    write v = cs,  2 * cs.length ≤ fuel,  isEnd rest   →   readValue fuel (cs ++ rest) = (normal v, rest).

The proof goes by recursion on the value together with the two for items and entries (`readValue_write`,
`readItems_write`, `readEntries_write`). One lemma for each kind of value says what a single step of the
reader does when what is inside has been read, so the recursion only has to see to the fuel.

The order of these steps matters for dictionaries. Two keys may be written as one text, and both entries are
in the JSON text. It is the reader that makes one of them, so the normal form makes them one after the keys
have become texts.
-/

namespace NamingDirectory.Json

/-! ### Texts

Character by character. A text is read as codes first, because an escape may give half of a character, and the
codes are joined to characters at the end. What was written has no such halves. -/

theorem not_surrogate (c : Char) : c.toNat < 0xd800 ∨ 0xdfff < c.toNat := by
  rcases c.valid with h | ⟨h, -⟩
  · exact .inl h
  · exact .inr h

theorem character_toNat (c : Char) : character c.toNat = c := by
  rw [character, if_neg, Char.ofNat_toNat]
  have hc := not_surrogate c
  simp only [Bool.and_eq_true, decide_eq_true_eq]
  omega

/-- The codes of characters are joined to the characters, since none of them is half of a pair. -/
theorem joinPairs_map_toNat (cs : List Char) : joinPairs (cs.map Char.toNat) = cs := by
  induction cs with
  | nil => rfl
  | cons c cs ih =>
    cases cs with
    | nil => rw [List.map_cons, List.map_nil, joinPairs, character_toNat]
    | cons d cs =>
      have hhigh : isHighSurrogate c.toNat = false := by
        have hc := not_surrogate c
        rw [isHighSurrogate, Bool.and_eq_false_iff, decide_eq_false_iff_not, decide_eq_false_iff_not]
        omega
      rw [List.map_cons, List.map_cons, joinPairs, hhigh, Bool.false_and, if_neg Bool.false_ne_true,
        character_toNat]
      rw [List.map_cons] at ih
      rw [ih]

/-- A character that needs no escape is read as its code. -/
theorem readCodes_plain (start : Nat) {c : Char} (hquote : c ≠ '\x22') (hslash : c ≠ '\\')
    (hcontrol : ¬ c.toNat < 0x20) (cs : List Char) :
    readCodes start (c :: cs) = onto c.toNat (readCodes start cs) := by
  rw [readCodes]
  · rw [if_neg hcontrol]
  · exact hquote
  · exact fun h _ => hslash h
  · exact fun _ _ _ _ _ h _ => hslash h
  · exact fun _ _ h _ => hslash h

/-- A letter after a backslash is read as the character that it stands for. -/
theorem readCodes_letter (start : Nat) {letter c : Char} (h : unescape? letter = some c) (cs : List Char) :
    readCodes start ('\\' :: letter :: cs) = onto c.toNat (readCodes start cs) := by
  have hu : letter ≠ 'u' := by
    rintro rfl
    cases h
  rw [readCodes]
  · rw [if_neg (by simpa using hu), h]
  · rintro _ _ _ _ _ rfl
    exact absurd rfl hu

/-- The four digits of the code of a control character are read as the code. -/
theorem readCodes_control (start : Nat) {n : Nat} (hn : n < 0x20) {cs : List Char} (hcs : cs ≠ []) :
    readCodes start ('\\' :: 'u' :: (Text.hex 4 n ++ cs)) = onto n (readCodes start cs) := by
  have hhex : ∀ n < 0x20, ∃ a b c d, Text.hex 4 n = [a, b, c, d] ∧ hexFour? a b c d = some n := by
    intro n _
    refine ⟨_, _, _, _, rfl, ?_⟩
    revert n
    decide
  obtain ⟨a, b, c, d, hdigits, hvalue⟩ := hhex n hn
  rw [hdigits]
  show readCodes start ('\\' :: 'u' :: a :: b :: c :: d :: cs) = _
  rw [readCodes, hvalue, List.isEmpty_eq_false_iff.mpr hcs]

theorem eq_ofNat_of_toNat {c : Char} {n : Nat} (h : (c.toNat == n) = true) : c = Char.ofNat n := by
  rw [← beq_iff_eq.mp h, Char.ofNat_toNat]

/-- A character is escaped by a letter or by its code, or stands for itself. -/
theorem escape_cases (c : Char) :
    (∃ letter, escape c = ['\\', letter] ∧ unescape? letter = some c) ∨
      (c.toNat < 0x20 ∧ escape c = '\\' :: 'u' :: Text.hex 4 c.toNat) ∨
        (escape c = [c] ∧ c ≠ '\x22' ∧ c ≠ '\\' ∧ ¬ c.toNat < 0x20) := by
  -- Test by test, as the writer makes them: seven characters have an escape of their own.
  unfold escape
  split
  · next h => exact .inl ⟨'\x22', rfl, by rw [beq_iff_eq.mp h]; rfl⟩
  next hquote =>
  split
  · next h => exact .inl ⟨'\\', rfl, by rw [beq_iff_eq.mp h]; rfl⟩
  next hslash =>
  split
  · next h => exact .inl ⟨'n', rfl, by rw [beq_iff_eq.mp h]; rfl⟩
  split
  · next h => exact .inl ⟨'r', rfl, by rw [beq_iff_eq.mp h]; rfl⟩
  split
  · next h => exact .inl ⟨'t', rfl, by rw [beq_iff_eq.mp h]; rfl⟩
  split
  · next h => exact .inl ⟨'b', rfl, by rw [eq_ofNat_of_toNat h]; rfl⟩
  split
  · next h => exact .inl ⟨'f', rfl, by rw [eq_ofNat_of_toNat h]; rfl⟩
  split
  · next h => exact .inr (.inl ⟨h, rfl⟩)
  next hcontrol =>
  exact .inr (.inr ⟨rfl, by simpa using hquote, by simpa using hslash, hcontrol⟩)

/-- A character that was escaped is read back, if more text follows. -/
theorem readCodes_escape (start : Nat) (c : Char) {cs : List Char} (hcs : cs ≠ []) :
    readCodes start (escape c ++ cs) = onto c.toNat (readCodes start cs) := by
  rcases escape_cases c with ⟨letter, heq, hletter⟩ | ⟨hcontrol, heq⟩ | ⟨heq, hquote, hslash, hplain⟩
  · rw [heq]
    exact readCodes_letter start hletter cs
  · rw [heq]
    exact readCodes_control start hcontrol hcs
  · rw [heq]
    exact readCodes_plain start hquote hslash hplain cs

/-- All characters of a text are read back, up to the quotation mark. -/
theorem readCodes_flatMap (start : Nat) (cs rest : List Char) :
    readCodes start (cs.flatMap escape ++ '\x22' :: rest) = .ok (cs.map Char.toNat, rest) := by
  induction cs with
  | nil => rfl
  | cons c cs ih =>
    rw [List.flatMap_cons, List.append_assoc,
      readCodes_escape start c (List.append_ne_nil_of_right_ne_nil _ (List.cons_ne_nil _ _)), ih]
    rfl

/-- A text that was written is read back. -/
theorem readText_flatMap (start : Nat) (cs rest : List Char) :
    readText start (cs.flatMap escape ++ '\x22' :: rest) = .ok (cs, rest) := by
  rw [readText, readCodes_flatMap]
  show Except.ok (joinPairs (cs.map Char.toNat), rest) = _
  rw [joinPairs_map_toNat]

/-! ### What is read back

By recursion on the value, as the writer goes through it. The number that a floating-point number comes back
as is left to `reread`. -/

/-- The key that a key is read back as. -/
def normalKey (k : Value) : Value :=
  match keyText k with
  | .ok cs => .text (String.ofList cs)
  | .error _ => k

mutual

/-- The value that a value is read back as: tuples become lists, and keys become texts. -/
def normal : Value → Value
  | .float x => .float (reread x)
  | .list items => .list (normalItems items)
  | .tuple items => .list (normalItems items)
  | .dict entries => .dict (OrderedMap.ofEntries (normalEntries entries))
  | v => v

def normalItems : List Value → List Value
  | [] => []
  | v :: items => normal v :: normalItems items

def normalEntries : List (Value × Value) → List (Value × Value)
  | [] => []
  | (k, v) :: entries => (normalKey k, normal v) :: normalEntries entries

end

/-! ### Words and numbers

What is written without quotation marks or brackets. The reader tries the signs that begin a text, a list or a
dictionary first. No word and no number begins with one of them, so they come to the reader of words and
numbers in the end (`readValue_of_readScalar`). -/

/-- Whether a text starts like a value: not with a blank, a closing bracket or a byte order mark. -/
def startsValue : List Char → Bool
  | [] => false
  | c :: _ => !isSpace c && c != ']' && c != Char.ofNat 0xfeff

/-- Whether a word or a number can start with a character. -/
def startsScalar (c : Char) : Bool := words.any (fun w => w.1.head? == some c) || c.isDigit

theorem startsScalar_of_readScalar {c : Char} {cs : List Char} {out : Value × List Char}
    (h : readScalar (c :: cs) = .ok out) : startsScalar c := by
  refine Decidable.byContradiction fun hstart => ?_
  rw [startsScalar, Bool.or_eq_true, List.any_eq_true, not_or] at hstart
  obtain ⟨hletter, hdigit⟩ := hstart
  have hnil : ∀ w ∈ words, w.1 ≠ [] := by decide
  have hword : (words.find? fun w => w.1.isPrefixOf (c :: cs)) = none := by
    rw [List.find?_eq_none]
    intro w hw hprefix
    cases hchars : w.1 with
    | nil => exact hnil w hw hchars
    | cons d ds =>
      rw [hchars, List.isPrefixOf, Bool.and_eq_true, beq_iff_eq] at hprefix
      exact hletter ⟨w, hw, by rw [hchars, hprefix.1, List.head?_cons, beq_self_eq_true]⟩
  have hwhole : wholeDigits (c :: cs) = [] := by
    unfold wholeDigits
    split
    · next heq =>
      cases heq
      exact absurd rfl hdigit
    · exact List.takeWhile_cons_of_neg hdigit
  unfold readScalar at h
  rw [hword] at h
  dsimp only at h
  split at h
  · next heq =>
    -- A minus sign starts a word.
    cases heq
    exact hletter (by decide)
  · rw [readNumber_eq, hwhole] at h
    cases h

/-- What is read as a word or a number starts like one, so it is taken for nothing else. -/
theorem head_of_readScalar {cs : List Char} {out : Value × List Char} (h : readScalar cs = .ok out) :
    startsValue cs ∧ cs.head? ≠ some '\x22' ∧ cs.head? ≠ some '[' ∧ cs.head? ≠ some '\x7b' := by
  cases cs with
  | nil => exact absurd h (by simp [readScalar, words, readNumber_eq, wholeDigits])
  | cons c cs =>
    have hne : ∀ d, startsScalar d = false → c ≠ d := by
      rintro d hd rfl
      exact absurd (startsScalar_of_readScalar h) (Bool.eq_false_iff.mp hd)
    have hspace : ¬ isSpace c := by
      simp only [isSpace, Bool.or_eq_true, beq_iff_eq, not_or]
      exact ⟨⟨⟨hne _ (by decide), hne _ (by decide)⟩, hne _ (by decide)⟩, hne _ (by decide)⟩
    have hclose : c ≠ ']' := hne _ (by decide)
    have hmark : c ≠ Char.ofNat 0xfeff := hne _ (by decide)
    refine ⟨by simp [startsValue, hspace, hclose, hmark], ?_, ?_, ?_⟩
    · simpa using hne '\x22' (by decide)
    · simpa using hne '[' (by decide)
    · simpa using hne '\x7b' (by decide)

/-- The reader of values leaves it to the reader of words and numbers. -/
theorem readValue_of_readScalar {cs : List Char} {out : Value × List Char} (h : readScalar cs = .ok out)
    (fuel : Nat) : readValue (fuel + 1) cs = readScalar cs := by
  obtain ⟨-, hquote, hlist, hdict⟩ := head_of_readScalar h
  rw [readValue]
  · rintro rest rfl
    exact hquote rfl
  · rintro rest rfl
    exact hlist rfl
  · rintro rest rfl
    exact hdict rfl

/-- Nothing, truth values and numbers are written as what is read as their normal forms. -/
theorem readsScalar_write {v : Value} {cs : List Char} (hwrite : write v = .ok cs)
    (hv : v = .null ∨ (∃ b, v = .bool b) ∨ (∃ i, v = .int i) ∨ ∃ x, v = .float x) :
    ReadsScalar cs (normal v) := by
  rcases hv with rfl | ⟨b, rfl⟩ | ⟨i, rfl⟩ | ⟨x, rfl⟩
  · cases hwrite
    exact readsScalar_word fun rest => rfl
  · cases hwrite
    cases b with
    | true => exact readsScalar_word fun rest => rfl
    | false => exact readsScalar_word fun rest => rfl
  · exact fun rest hrest => readScalar_writeInt hwrite hrest
  · cases hwrite
    exact fun rest hrest => readScalar_float x hrest

/-! ### Values

A value starts with neither a blank nor a closing bracket, so the reader, which passes over blanks and looks
for the end of a list, finds the value at once. -/

theorem startsValue_append {cs : List Char} (h : startsValue cs) (rest : List Char) :
    startsValue (cs ++ rest) := by
  cases cs with
  | nil => cases h
  | cons c cs => exact h

/-- A value is written so that it starts like one. -/
theorem startsValue_write {v : Value} {cs : List Char} (h : write v = .ok cs) : startsValue cs := by
  have hscalar : ReadsScalar cs (normal v) → startsValue cs := by
    intro hreads
    have hread := hreads [] rfl
    rw [List.append_nil] at hread
    exact (head_of_readScalar hread).1
  cases v with
  | null => exact hscalar (readsScalar_write h (.inl rfl))
  | bool b => exact hscalar (readsScalar_write h (.inr (.inl ⟨b, rfl⟩)))
  | int i => exact hscalar (readsScalar_write h (.inr (.inr (.inl ⟨i, rfl⟩))))
  | float x => exact hscalar (readsScalar_write h (.inr (.inr (.inr ⟨x, rfl⟩))))
  | text s =>
    cases h
    rfl
  | list items | tuple items | dict entries =>
    obtain ⟨_, -, hcs⟩ := bind_eq_ok_iff.mp h
    cases hcs
    rfl
  | _ => cases h

theorem ne_nil_of_startsValue {cs : List Char} (h : startsValue cs) : cs ≠ [] := by
  rintro rfl
  cases h

/-- There are no blanks to pass over before a value. -/
theorem skip_eq_self {cs : List Char} (h : startsValue cs) : skip cs = cs := by
  cases cs with
  | nil => cases h
  | cons c cs =>
    rw [startsValue, Bool.and_eq_true, Bool.and_eq_true, Bool.not_eq_true'] at h
    exact List.dropWhile_cons_of_neg (by simp [h.1.1])

/-! ### One step of the reader

What the reader does with a list or a dictionary, or with one member of it, when what is inside has been read.
Each lemma is one step, so it takes one from the fuel and hands the rest on; that the insides are read is its
hypothesis. -/

section Steps

variable {fuel : Nat} {cs rest : List Char} {v : Value} {items : List Value} {entries : List (Value × Value)}

theorem readItems_last (h : readValue fuel cs = .ok (v, ']' :: rest)) :
    readItems (fuel + 1) cs = .ok ([v], rest) := by
  rw [readItems, h]
  rfl

theorem readItems_more (h : readValue fuel cs = .ok (v, ',' :: ' ' :: rest)) (hrest : startsValue rest)
    {rest' : List Char} (hmore : readItems fuel rest = .ok (items, rest')) :
    readItems (fuel + 1) cs = .ok (v :: items, rest') := by
  have hskip : skip (' ' :: rest) = rest := skip_eq_self hrest
  rw [readItems, h]
  show (readItems fuel (skip (' ' :: rest)) >>= fun read => _) = _
  rw [hskip, hmore]
  rfl

/-- After its key an entry goes on with its value, and what follows the value decides whether there are more
entries. Both of the next two lemmas are this one with a sign put in. -/
theorem readEntries_key (key : List Char) (hcs : startsValue cs) (h : readValue fuel cs = .ok (v, rest)) :
    readEntries (fuel + 1) (writeText key ++ ':' :: ' ' :: cs) =
      match skip rest with
      | '\x7d' :: rest => .ok ([(.text (String.ofList key), v)], rest)
      | ',' :: rest => do
        let (entries, rest) ← readEntries fuel (skip rest)
        return ((.text (String.ofList key), v) :: entries, rest)
      | rest => .error (.stopped .comma rest.length) := by
  have hskip : skip (' ' :: cs) = cs := skip_eq_self hcs
  have htext : writeText key ++ ':' :: ' ' :: cs =
      '\x22' :: (key.flatMap escape ++ '\x22' :: ':' :: ' ' :: cs) := by
    simp [writeText]
  rw [htext, readEntries, readText_flatMap]
  show Except.bind (readValue fuel (skip (' ' :: cs))) _ = _
  rw [hskip, h]
  rfl

theorem readEntries_last (key : List Char) (hcs : startsValue cs)
    (h : readValue fuel cs = .ok (v, '\x7d' :: rest)) :
    readEntries (fuel + 1) (writeText key ++ ':' :: ' ' :: cs) =
      .ok ([(.text (String.ofList key), v)], rest) :=
  readEntries_key key hcs h

theorem readEntries_more (key : List Char) (hcs : startsValue cs)
    (h : readValue fuel cs = .ok (v, ',' :: ' ' :: '\x22' :: rest)) {rest' : List Char}
    (hmore : readEntries fuel ('\x22' :: rest) = .ok (entries, rest')) :
    readEntries (fuel + 1) (writeText key ++ ':' :: ' ' :: cs) =
      .ok ((.text (String.ofList key), v) :: entries, rest') := by
  rw [readEntries_key key hcs h]
  show (readEntries fuel ('\x22' :: rest) >>= fun read => _) = _
  rw [hmore]
  rfl

/-- A key is read back as the text that it is written as. -/
theorem normalKey_of_keyText {k : Value} {key : List Char} (h : keyText k = .ok key) :
    normalKey k = .text (String.ofList key) := by
  rw [normalKey, h]

theorem startsValue_writeItems (hne : items ≠ []) (h : writeItems items = .ok cs) : startsValue cs := by
  match items with
  | [v] =>
    obtain ⟨vs, hv, hcs⟩ := bind_eq_ok_iff.mp h
    cases hcs
    exact startsValue_append (startsValue_write hv) _
  | v :: w :: items =>
    obtain ⟨vs, hv, hrest⟩ := bind_eq_ok_iff.mp h
    obtain ⟨more, -, hcs⟩ := bind_eq_ok_iff.mp hrest
    cases hcs
    exact startsValue_append (startsValue_write hv) _

theorem head_writeEntries (hne : entries ≠ []) (h : writeEntries entries = .ok cs) :
    ∃ cs', cs = '\x22' :: cs' := by
  match entries with
  | [(k, v)] =>
    obtain ⟨key, -, hrest⟩ := bind_eq_ok_iff.mp h
    obtain ⟨vs, -, hcs⟩ := bind_eq_ok_iff.mp hrest
    cases hcs
    exact ⟨_, rfl⟩
  | (k, v) :: e :: entries =>
    obtain ⟨key, -, hrest⟩ := bind_eq_ok_iff.mp h
    obtain ⟨vs, -, hrest⟩ := bind_eq_ok_iff.mp hrest
    obtain ⟨more, -, hcs⟩ := bind_eq_ok_iff.mp hrest
    cases hcs
    exact ⟨_, rfl⟩

theorem readValue_list (hcs : startsValue cs) (h : readItems fuel cs = .ok (items, rest)) :
    readValue (fuel + 1) ('[' :: cs) = .ok (.list items, rest) := by
  rw [readValue, skip_eq_self hcs]
  split
  · next heq => cases hcs
  · rw [h]
    rfl

theorem readValue_dict (h : readEntries fuel ('\x22' :: cs) = .ok (entries, rest)) :
    readValue (fuel + 1) ('\x7b' :: '\x22' :: cs) =
      .ok (.dict (OrderedMap.ofEntries entries), rest) := by
  have hskip : skip ('\x22' :: cs) = '\x22' :: cs := skip_eq_self rfl
  rw [readValue, hskip]
  show Except.map _ (readEntries fuel ('\x22' :: cs)) = _
  rw [h]
  rfl

theorem readValue_text (fuel : Nat) (cs rest : List Char) :
    readValue (fuel + 1) (writeText cs ++ rest) = .ok (.text (String.ofList cs), rest) := by
  have htext : writeText cs ++ rest = '\x22' :: (cs.flatMap escape ++ '\x22' :: rest) := by
    simp [writeText]
  rw [htext, readValue, readText_flatMap]
  rfl

end Steps

/-! ### The recursion

The three readers call each other on what is inside, which has a shorter text, with less fuel. There may be
two steps of the reader from one character to the next, one for the list and one for its member, but no more.
So fuel for twice the length of a text is left over for its parts. -/

mutual

/-- A value that was written is read as its normal form. -/
theorem readValue_write {v : Value} {cs : List Char} (h : write v = .ok cs) {fuel : Nat}
    (hfuel : 2 * cs.length ≤ fuel) {rest : List Char} (hrest : isEnd rest) :
    readValue fuel (cs ++ rest) = .ok (normal v, rest) := by
  -- No text is empty, so there is fuel for one step, and each part of a text is shorter than the whole.
  obtain ⟨fuel, rfl⟩ : ∃ f, fuel = f + 1 := by
    have hpos : 0 < cs.length := List.length_pos_iff.mpr (ne_nil_of_startsValue (startsValue_write h))
    exact ⟨fuel - 1, by omega⟩
  have hscalar : ReadsScalar cs (normal v) → readValue (fuel + 1) (cs ++ rest) = .ok (normal v, rest) :=
    fun hreads => (readValue_of_readScalar (hreads rest hrest) fuel).trans (hreads rest hrest)
  match v with
  | .null => exact hscalar (readsScalar_write h (.inl rfl))
  | .bool b => exact hscalar (readsScalar_write h (.inr (.inl ⟨b, rfl⟩)))
  | .int i => exact hscalar (readsScalar_write h (.inr (.inr (.inl ⟨i, rfl⟩))))
  | .float x => exact hscalar (readsScalar_write h (.inr (.inr (.inr ⟨x, rfl⟩))))
  | .text s =>
    cases h
    rw [readValue_text, String.ofList_toList]
    rfl
  | .list [] | .tuple [] | .dict [] =>
    cases h
    rfl
  | .list (w :: items) | .tuple (w :: items) =>
    obtain ⟨more, hmore, hcs⟩ := bind_eq_ok_iff.mp h
    cases hcs
    rw [List.length_cons] at hfuel
    exact readValue_list (startsValue_append (startsValue_writeItems (List.cons_ne_nil w items) hmore) rest)
      (readItems_write (List.cons_ne_nil w items) hmore (by omega) rest)
  | .dict (e :: entries) =>
    obtain ⟨more, hmore, hcs⟩ := bind_eq_ok_iff.mp h
    cases hcs
    rw [List.length_cons] at hfuel
    have hread : readEntries fuel (more ++ rest) = .ok (normalEntries (e :: entries), rest) :=
      readEntries_write (List.cons_ne_nil e entries) hmore (by omega) rest
    obtain ⟨more, rfl⟩ := head_writeEntries (List.cons_ne_nil e entries) hmore
    exact readValue_dict hread

theorem readItems_write {items : List Value} (hne : items ≠ []) {cs : List Char}
    (h : writeItems items = .ok cs) {fuel : Nat} (hfuel : 2 * cs.length ≤ fuel) (rest : List Char) :
    readItems fuel (cs ++ rest) = .ok (normalItems items, rest) := by
  match items with
  | [v] =>
    obtain ⟨vs, hv, hcs⟩ := bind_eq_ok_iff.mp h
    cases hcs
    rw [List.length_append, List.length_singleton] at hfuel
    obtain ⟨fuel, rfl⟩ : ∃ f, fuel = f + 1 := ⟨fuel - 1, by omega⟩
    rw [List.append_assoc]
    exact readItems_last (readValue_write hv (by omega) rfl)
  | v :: w :: items =>
    obtain ⟨vs, hv, hrest⟩ := bind_eq_ok_iff.mp h
    obtain ⟨more, hmore, hcs⟩ := bind_eq_ok_iff.mp hrest
    cases hcs
    rw [List.length_append, List.length_cons, List.length_cons] at hfuel
    obtain ⟨fuel, rfl⟩ : ∃ f, fuel = f + 1 := ⟨fuel - 1, by omega⟩
    rw [List.append_assoc]
    refine readItems_more (readValue_write hv (by omega) rfl) ?_
      (readItems_write (List.cons_ne_nil w items) hmore (by omega) rest)
    exact startsValue_append (startsValue_writeItems (List.cons_ne_nil w items) hmore) rest

theorem readEntries_write {entries : List (Value × Value)} (hne : entries ≠ []) {cs : List Char}
    (h : writeEntries entries = .ok cs) {fuel : Nat} (hfuel : 2 * cs.length ≤ fuel) (rest : List Char) :
    readEntries fuel (cs ++ rest) = .ok (normalEntries entries, rest) := by
  match entries with
  | [(k, v)] =>
    obtain ⟨key, hkey, hrest⟩ := bind_eq_ok_iff.mp h
    obtain ⟨vs, hv, hcs⟩ := bind_eq_ok_iff.mp hrest
    cases hcs
    simp only [List.length_append, List.length_cons, List.length_nil] at hfuel
    obtain ⟨fuel, rfl⟩ : ∃ f, fuel = f + 1 := ⟨fuel - 1, by omega⟩
    rw [normalEntries, normalKey_of_keyText hkey, normalEntries]
    have hentry : (writeText key ++ ':' :: ' ' :: vs ++ ['\x7d']) ++ rest =
        writeText key ++ ':' :: ' ' :: (vs ++ '\x7d' :: rest) := by simp
    rw [hentry]
    exact readEntries_last key (startsValue_append (startsValue_write hv) _)
      (readValue_write hv (by omega) rfl)
  | (k, v) :: e :: entries =>
    obtain ⟨key, hkey, hrest⟩ := bind_eq_ok_iff.mp h
    obtain ⟨vs, hv, hrest⟩ := bind_eq_ok_iff.mp hrest
    obtain ⟨more, hmore, hcs⟩ := bind_eq_ok_iff.mp hrest
    cases hcs
    simp only [List.length_append, List.length_cons] at hfuel
    obtain ⟨fuel, rfl⟩ : ∃ f, fuel = f + 1 := ⟨fuel - 1, by omega⟩
    have hread : readEntries fuel (more ++ rest) = .ok (normalEntries (e :: entries), rest) :=
      readEntries_write (List.cons_ne_nil e entries) hmore (by omega) rest
    obtain ⟨more, rfl⟩ := head_writeEntries (List.cons_ne_nil e entries) hmore
    rw [normalEntries, normalKey_of_keyText hkey]
    have hentry : (writeText key ++ ':' :: ' ' :: vs ++ ',' :: ' ' :: '\x22' :: more) ++ rest =
        writeText key ++ ':' :: ' ' :: (vs ++ ',' :: ' ' :: '\x22' :: (more ++ rest)) := by simp
    rw [hentry]
    exact readEntries_more key (startsValue_append (startsValue_write hv) _)
      (readValue_write hv (by omega) rfl) hread

end

/-- What was written is read back as its normal form. -/
theorem read_text {v : Value} {text : String} (h : Json.text v = .ok text) :
    read text = .ok (normal v) := by
  rw [Json.text] at h
  cases hcs : write v with
  | error e =>
    rw [hcs] at h
    cases h
  | ok cs =>
    rw [hcs] at h
    cases h
    have hstart := startsValue_write hcs
    have hall : readAll cs = .ok (normal v) := by
      refine readAll_eq_ok_iff.mpr ⟨?_, [], ?_, rfl⟩
      · intro hmark
        cases cs with
        | nil => cases hmark
        | cons c cs =>
          cases hmark
          cases hstart
      · have hread : readValue (2 * cs.length + 2) (cs ++ []) = .ok (normal v, []) :=
          readValue_write hcs (by omega) rfl
        rw [skip_eq_self hstart]
        rwa [List.append_nil] at hread
    simp only [read, String.toList_ofList, hall]

end NamingDirectory.Json
