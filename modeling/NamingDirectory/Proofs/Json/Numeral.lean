import NamingDirectory.Proofs.Decimal.Shortest
import NamingDirectory.Proofs.Json.Reading

/-!
# Numbers in JSON

A number that was written is read again, whatever follows it: an integer as itself (`readScalar_writeInt`) and
any other number as some number (`readScalar_float`), which no law here says more of.

What follows a value in a text is a comma, a closing bracket or nothing (`isEnd`), and none of these makes a
number any longer. So each part of a number is read in two steps: the digits of the part are taken, and what
comes next is none of them.

A floating-point number is written in one of three forms (`IsNumeral`): with a point, with a power of ten, or
with both. The reader takes each of them for a number that is no integer, because there are digits after the
point, or a power, and there is no fourth form, since the digits of a number that is not zero do not start
with a zero (`isNumeral_write`).

In the three forms the texts are like `12.5`, `1e-07` and `1.5e+16`.
-/

namespace NamingDirectory.Json

/-! ### Rows of digits

The digits of a number as the core library writes them, read as the reader does. -/

theorem digitsValue_eq (ds : List Char) : Numeral.digitsValue ds = Nat.ofDigitChars 10 ds 0 := by
  rw [Numeral.digitsValue, Nat.ofDigitChars_eq_foldl]
  simp only [Nat.mul_comm 10]
  rfl

@[simp] theorem digitsValue_toDigits (n : Nat) : Numeral.digitsValue (Nat.toDigits 10 n) = n := by
  rw [digitsValue_eq, Nat.ofDigitChars_ten_toDigits]

theorem isDigit_of_mem_toDigits {n : Nat} {c : Char} (h : c ∈ Nat.toDigits 10 n) : c.isDigit :=
  Nat.isDigit_of_mem_toDigits (by decide) (by decide) h

theorem digitChar_ne_zero {n : Nat} (hn : n ≠ 0) (h : n < 10) : n.digitChar ≠ '0' := by
  have hdigits : ∀ n < 10, n ≠ 0 → n.digitChar ≠ '0' := by decide
  exact hdigits n h hn

/-- The digits of a number that is not zero do not start with a zero. -/
theorem head?_toDigits {n : Nat} (hn : n ≠ 0) : (Nat.toDigits 10 n).head? ≠ some '0' := by
  induction n using Nat.strongRecOn with
  | _ n ih =>
    rw [Nat.toDigits_eq_if (by decide)]
    split
    · next hlt => simpa using digitChar_ne_zero hn hlt
    · next hge =>
      have hdiv : n / 10 ≠ 0 := by omega
      obtain ⟨c, cs, hcs⟩ := List.exists_cons_of_ne_nil (Nat.toDigits_ne_nil (n := n / 10) (b := 10))
      have hhead := ih (n / 10) (by omega) hdiv
      rw [hcs] at hhead ⊢
      exact hhead

/-- Digits as they stand before the point: at least one, and no zero before another one. -/
structure IsWhole (ds : List Char) : Prop where
  ne_nil : ds ≠ []
  digits : ∀ c ∈ ds, c.isDigit
  leading : ds = ['0'] ∨ ds.head? ≠ some '0'

/-- The digits of any number may stand before the point. -/
theorem isWhole_toDigits (n : Nat) : IsWhole (Nat.toDigits 10 n) := by
  refine ⟨Nat.toDigits_ne_nil, fun c => isDigit_of_mem_toDigits, ?_⟩
  by_cases hn : n = 0
  · subst hn
    exact .inl (Nat.toDigits_zero 10)
  · exact .inr (head?_toDigits hn)

/-- Digits are taken to the last one, if what comes next is none. -/
theorem takeWhile_append {ds rest : List Char} (hds : ∀ c ∈ ds, c.isDigit)
    (hrest : ∀ c, rest.head? = some c → ¬ c.isDigit) : (ds ++ rest).takeWhile Char.isDigit = ds := by
  rw [List.takeWhile_append_of_pos hds]
  cases rest with
  | nil => simp
  | cons c rest => rw [List.takeWhile_cons_of_neg (hrest c rfl), List.append_nil]

theorem dropWhile_append {ds rest : List Char} (hds : ∀ c ∈ ds, c.isDigit)
    (hrest : ∀ c, rest.head? = some c → ¬ c.isDigit) : (ds ++ rest).dropWhile Char.isDigit = rest := by
  rw [List.dropWhile_append_of_pos hds]
  cases rest with
  | nil => rfl
  | cons c rest => exact List.dropWhile_cons_of_neg (hrest c rfl)

theorem IsWhole.wholeDigits_append {ds rest : List Char} (h : IsWhole ds)
    (hrest : ∀ c, rest.head? = some c → ¬ c.isDigit) : wholeDigits (ds ++ rest) = ds := by
  rcases h.leading with rfl | hhead
  · rfl
  · unfold wholeDigits
    split
    · next heq =>
      obtain ⟨d, ds, rfl⟩ := List.exists_cons_of_ne_nil h.ne_nil
      cases heq
      exact absurd rfl hhead
    · exact takeWhile_append h.digits hrest

/-! ### Parts of a number

A part that is not there is recognized by what comes next, and one that is there is read to its end. -/

/-- Whether a value that was written may end before a text: at a comma, a closing bracket, or the end. -/
def isEnd (rest : List Char) : Bool :=
  match rest with
  | [] => true
  | c :: _ => c == ',' || c == ']' || c == '\x7d'

theorem isEnd_head {rest : List Char} (h : isEnd rest) {c : Char} (hc : rest.head? = some c) :
    c = ',' ∨ c = ']' ∨ c = '\x7d' := by
  cases rest with
  | nil => cases hc
  | cons d rest =>
    cases hc
    simpa [isEnd, or_assoc] using h

theorem isEnd_not_isDigit {rest : List Char} (h : isEnd rest) {c : Char} (hc : rest.head? = some c) :
    ¬ c.isDigit := by
  rcases isEnd_head h hc with rfl | rfl | rfl <;> decide

theorem isEnd_head_ne {rest : List Char} (h : isEnd rest) {c : Char}
    (hc : ¬ (c = ',' ∨ c = ']' ∨ c = '\x7d')) : rest.head? ≠ some c :=
  fun hhead => hc (isEnd_head h hhead)

theorem readFraction_of_head {cs : List Char} (h : cs.head? ≠ some '.') : readFraction cs = ([], cs) := by
  unfold readFraction
  split
  · exact absurd rfl h
  · rfl

theorem readFraction_append {fs rest : List Char} (hne : fs ≠ []) (hfs : ∀ c ∈ fs, c.isDigit)
    (hrest : ∀ c, rest.head? = some c → ¬ c.isDigit) :
    readFraction ('.' :: (fs ++ rest)) = (fs, rest) := by
  simp only [readFraction, takeWhile_append hfs hrest, dropWhile_append hfs hrest]
  rw [if_neg (by simpa using hne)]

theorem readExponent_of_head {cs : List Char} (he : cs.head? ≠ some 'e') (hE : cs.head? ≠ some 'E') :
    readExponent cs = (none, cs) := by
  cases cs with
  | nil => rfl
  | cons c cs =>
    have hc : ¬ (c == 'e' || c == 'E') = true := by
      simpa using ⟨fun h => he (by simp [h]), fun h => hE (by simp [h])⟩
    simp only [readExponent, if_neg hc]

/-- The power of ten that a sign and digits stand for. -/
def powerOf (sign : Char) (xs : List Char) : Int :=
  if sign = '-' then -(Numeral.digitsValue xs : Int) else Numeral.digitsValue xs

theorem readExponent_append {xs rest : List Char} {sign : Char} (hsign : sign = '-' ∨ sign = '+')
    (hne : xs ≠ []) (hxs : ∀ c ∈ xs, c.isDigit) (hrest : ∀ c, rest.head? = some c → ¬ c.isDigit) :
    readExponent ('e' :: sign :: (xs ++ rest)) = (some (powerOf sign xs), rest) := by
  have hnil : xs.isEmpty = false := List.isEmpty_eq_false_iff.mpr hne
  rcases hsign with rfl | rfl
  · simp only [readExponent, takeWhile_append hxs hrest, dropWhile_append hxs hrest, hnil]
    rfl
  · simp only [readExponent, takeWhile_append hxs hrest, dropWhile_append hxs hrest, hnil]
    rfl

/-! ### Whole numbers

Digits, after a minus sign perhaps, and then an end. With neither a fraction nor a power behind them the
digits are an integer, and the limit on digits is the one that the writer keeps. -/

/-- Neither a fraction nor a power can follow, so the digits make an integer. -/
theorem readNumber_toDigits (start n : Nat) (negative : Bool) {rest : List Char}
    (hn : Binary64.decimalLength n ≤ Numeral.digitLimit) (hrest : isEnd rest) :
    readNumber start negative (Nat.toDigits 10 n ++ rest) =
      .ok (.int (if negative then -n else n), rest) := by
  have hwhole : wholeDigits (Nat.toDigits 10 n ++ rest) = Nat.toDigits 10 n :=
    (isWhole_toDigits n).wholeDigits_append fun c => isEnd_not_isDigit hrest
  have hpoint : rest.head? ≠ some '.' := isEnd_head_ne hrest (by decide)
  have he : rest.head? ≠ some 'e' := isEnd_head_ne hrest (by decide)
  have hE : rest.head? ≠ some 'E' := isEnd_head_ne hrest (by decide)
  rw [Binary64.decimalLength] at hn
  rw [readNumber_eq]
  simp only [hwhole, List.isEmpty_eq_false_iff.mpr Nat.toDigits_ne_nil, List.drop_left,
    readFraction_of_head hpoint, readExponent_of_head he hE, hn, digitsValue_toDigits]
  rfl

theorem ne_of_isDigit {c d : Char} (hc : c.isDigit) (hd : ¬ d.isDigit) : (d == c) = false := by
  rw [beq_eq_false_iff_ne]
  rintro rfl
  exact hd hc

/-- No word stands where digits start. -/
theorem find?_words_of_isDigit {c : Char} (hc : c.isDigit) (cs : List Char) :
    (words.find? fun w => w.1.isPrefixOf (c :: cs)) = none := by
  have hn := ne_of_isDigit hc (d := 'n') (by decide)
  have ht := ne_of_isDigit hc (d := 't') (by decide)
  have hf := ne_of_isDigit hc (d := 'f') (by decide)
  have hN := ne_of_isDigit hc (d := 'N') (by decide)
  have hI := ne_of_isDigit hc (d := 'I') (by decide)
  have hminus := ne_of_isDigit hc (d := '-') (by decide)
  simp [words, List.isPrefixOf, hn, ht, hf, hN, hI, hminus]

theorem find?_words_of_minus {c : Char} (hc : c.isDigit) (cs : List Char) :
    (words.find? fun w => w.1.isPrefixOf ('-' :: c :: cs)) = none := by
  have hI := ne_of_isDigit hc (d := 'I') (by decide)
  simp [words, List.isPrefixOf, hI]

/-- A number is read from its first digit on. -/
theorem readScalar_digits {ds : List Char} (h : IsWhole ds) (rest : List Char) :
    readScalar (ds ++ rest) = readNumber (ds ++ rest).length false (ds ++ rest) := by
  obtain ⟨c, ds, rfl⟩ := List.exists_cons_of_ne_nil h.ne_nil
  have hc : c.isDigit := h.digits c List.mem_cons_self
  rw [List.cons_append]
  unfold readScalar
  rw [find?_words_of_isDigit hc]
  dsimp only
  split
  · next heq =>
    cases heq
    exact absurd hc (by decide)
  · rfl

theorem readScalar_minus {ds : List Char} (h : IsWhole ds) (rest : List Char) :
    readScalar ('-' :: ds ++ rest) = readNumber ('-' :: ds ++ rest).length true (ds ++ rest) := by
  obtain ⟨c, ds, rfl⟩ := List.exists_cons_of_ne_nil h.ne_nil
  have hc : c.isDigit := h.digits c List.mem_cons_self
  rw [List.cons_append, List.cons_append, readScalar, find?_words_of_minus hc]

/-- An integer that was written is read back. -/
theorem readScalar_writeInt {i : Int} {cs rest : List Char} (h : writeInt i = .ok cs)
    (hrest : isEnd rest) : readScalar (cs ++ rest) = .ok (.int i, rest) := by
  rw [writeInt] at h
  split at h
  · next hlimit =>
    cases h
    rw [Int.toString_eq_repr, Int.repr_eq_if]
    split
    · next hpos =>
      rw [Nat.toList_repr, readScalar_digits (isWhole_toDigits _)]
      have habs : i.toNat = i.natAbs := by omega
      rw [habs, readNumber_toDigits _ _ _ hlimit hrest]
      simp only [Bool.false_eq_true, if_false]
      rw [Int.natAbs_of_nonneg hpos]
    · next hneg =>
      -- A minus sign and the digits of the absolute value, read apart in the same way.
      rw [String.toList_append, Nat.toList_repr]
      have habs : (-i).toNat = i.natAbs := by omega
      have hminus : "-".toList ++ Nat.toDigits 10 i.natAbs = '-' :: Nat.toDigits 10 i.natAbs := rfl
      rw [habs, hminus, readScalar_minus (isWhole_toDigits _), readNumber_toDigits _ _ _ hlimit hrest]
      have hi : -(i.natAbs : Int) = i := by omega
      simp only [if_true, hi]
  · cases h

/-! ### Other numbers

The reader knows nothing of the three forms. It reads a fraction and a power, and each of them may be missing.
So there is one lemma for a number in parts, to be used with the parts that a form has. -/

/-- The forms of a number that is not written as an integer. -/
inductive IsNumeral : List Char → Prop
  | point {ds fs : List Char} : IsWhole ds → fs ≠ [] → (∀ c ∈ fs, c.isDigit) →
      IsNumeral (ds ++ '.' :: fs)
  | power {ds xs : List Char} {sign : Char} : IsWhole ds → (sign = '-' ∨ sign = '+') → xs ≠ [] →
      (∀ c ∈ xs, c.isDigit) → IsNumeral (ds ++ 'e' :: sign :: xs)
  | pointPower {ds fs xs : List Char} {sign : Char} : IsWhole ds → fs ≠ [] → (∀ c ∈ fs, c.isDigit) →
      (sign = '-' ∨ sign = '+') → xs ≠ [] → (∀ c ∈ xs, c.isDigit) →
      IsNumeral (ds ++ '.' :: (fs ++ 'e' :: sign :: xs))

/-- A number in parts: digits, what is read of a fraction, and what is read of a power. If one of the last two
is there, the number is no integer, and its value is that of all digits with the power made up for the
fraction. -/
theorem readNumber_of_parts {ds cs rest fs : List Char} {exponent : Option Int} (hds : IsWhole ds)
    (hcs : ∀ c, cs.head? = some c → ¬ c.isDigit)
    (hfraction : ∃ between, readFraction cs = (fs, between) ∧ readExponent between = (exponent, rest))
    (hparts : fs ≠ [] ∨ exponent ≠ none) (start : Nat) (negative : Bool) :
    readNumber start negative (ds ++ cs) =
      .ok (.float (Binary64.ofDecimal negative (Numeral.digitsValue (ds ++ fs))
        (exponent.getD 0 - fs.length)), rest) := by
  obtain ⟨between, hfraction, hexponent⟩ := hfraction
  have hparts : ¬ (fs.isEmpty && exponent.isNone) = true := by
    rw [Bool.and_eq_true, List.isEmpty_iff, Option.isNone_iff_eq_none]
    rintro ⟨hfs, hexponent⟩
    exact hparts.elim (absurd hfs) (absurd hexponent)
  rw [readNumber_eq]
  simp only [hds.wholeDigits_append hcs, List.isEmpty_eq_false_iff.mpr hds.ne_nil, List.drop_left,
    hfraction, hexponent, hparts]
  rfl

theorem not_isDigit_point {cs : List Char} (c : Char) (h : ('.' :: cs).head? = some c) : ¬ c.isDigit := by
  cases h
  decide

theorem not_isDigit_power {cs : List Char} (c : Char) (h : ('e' :: cs).head? = some c) : ¬ c.isDigit := by
  cases h
  decide

/-- A numeral is read as one number, whatever comes after it. -/
theorem IsNumeral.readNumber {cs : List Char} (h : IsNumeral cs) :
    ∃ x : Bool → Binary64, ∀ start negative rest, isEnd rest →
      readNumber start negative (cs ++ rest) = .ok (.float (x negative), rest) := by
  cases h with
  | @point ds fs hds hne hfs =>
    -- Each form says which digits there are and what power of ten belongs to them.
    refine ⟨fun negative =>
      Binary64.ofDecimal negative (Numeral.digitsValue (ds ++ fs)) (0 - fs.length), ?_⟩
    intro start negative rest hrest
    have hexponent : readExponent rest = (none, rest) :=
      readExponent_of_head (isEnd_head_ne hrest (by decide)) (isEnd_head_ne hrest (by decide))
    rw [List.append_assoc]
    exact readNumber_of_parts hds not_isDigit_point
      ⟨rest, readFraction_append hne hfs fun c => isEnd_not_isDigit hrest, hexponent⟩ (.inl hne) _ _
  | @power ds xs sign hds hsign hne hxs =>
    refine ⟨fun negative =>
      Binary64.ofDecimal negative (Numeral.digitsValue (ds ++ [])) (powerOf sign xs - 0), ?_⟩
    intro start negative rest hrest
    rw [List.append_assoc]
    exact readNumber_of_parts hds not_isDigit_power
      ⟨_, readFraction_of_head (by simp), readExponent_append hsign hne hxs fun c =>
        isEnd_not_isDigit hrest⟩ (.inr nofun) _ _
  | @pointPower ds fs xs sign hds hne hfs hsign hxne hxs =>
    refine ⟨fun negative =>
      Binary64.ofDecimal negative (Numeral.digitsValue (ds ++ fs)) (powerOf sign xs - fs.length), ?_⟩
    intro start negative rest hrest
    rw [List.append_assoc, List.cons_append, List.append_assoc]
    exact readNumber_of_parts hds not_isDigit_point
      ⟨_, readFraction_append hne hfs not_isDigit_power, readExponent_append hsign hxne hxs fun c =>
        isEnd_not_isDigit hrest⟩ (.inl hne) _ _

/-! ### Floating-point numbers

The two ways to put digits and an exponent down, each of which gives one of the forms. Zeros are put in to
reach the point where the digits do not, before them or behind them. -/

theorem IsWhole.append {ds zs : List Char} (h : IsWhole ds) (hhead : ds.head? ≠ some '0')
    (hzs : ∀ c ∈ zs, c.isDigit) : IsWhole (ds ++ zs) := by
  obtain ⟨d, ds, rfl⟩ := List.exists_cons_of_ne_nil h.ne_nil
  refine ⟨List.cons_ne_nil _ _, ?_, .inr hhead⟩
  intro c hc
  rcases List.mem_append.mp hc with hc | hc
  · exact h.digits c hc
  · exact hzs c hc

theorem IsWhole.take {ds : List Char} (h : IsWhole ds) (hhead : ds.head? ≠ some '0') {n : Nat}
    (hn : n ≠ 0) : IsWhole (ds.take n) := by
  obtain ⟨d, ds, rfl⟩ := List.exists_cons_of_ne_nil h.ne_nil
  obtain ⟨n, rfl⟩ := Nat.exists_eq_succ_of_ne_zero hn
  exact ⟨List.cons_ne_nil _ _, fun c hc => h.digits c (List.mem_of_mem_take hc), .inr hhead⟩

theorem isDigit_of_mem_replicate {n : Nat} {c : Char} (h : c ∈ List.replicate n '0') : c.isDigit := by
  rw [List.eq_of_mem_replicate h]
  decide

/-- Digits with the point in its place, which is counted from the first of them. -/
def positional (ds : List Char) (point : Int) : List Char :=
  if point ≤ 0 then '0' :: '.' :: (List.replicate (-point).toNat '0' ++ ds)
  else if (ds.length : Int) ≤ point then
    ds ++ List.replicate (point - ds.length).toNat '0' ++ ['.', '0']
  else ds.take point.toNat ++ '.' :: ds.drop point.toNat

/-- The digits of an exponent, two at least. -/
def exponentDigits (n : Nat) : List Char :=
  if (Nat.toDigits 10 n).length < 2 then '0' :: Nat.toDigits 10 n else Nat.toDigits 10 n

/-- Digits with the point after the first of them, and the exponent that makes up for it. -/
def scientific (ds : List Char) (e : Int) : List Char :=
  let front := match ds with
    | [] => []
    | [c] => [c]
    | c :: cs => c :: '.' :: cs
  front ++ 'e' :: (if e < 0 then '-' else '+') :: exponentDigits e.natAbs

/-- A decimal number is written in one of the two ways, by where its point would be. -/
theorem write_eq (s : Decimal.Spelling) (d : Decimal) :
    d.write s =
      let ds := Nat.toDigits 10 d.digits
      let point : Int := ds.length + d.exponent
      if s.least < point ∧ point ≤ s.most then positional ds point else scientific ds (point - 1) :=
  rfl

theorem isWhole_zero : IsWhole ['0'] := ⟨by simp, by simp, .inl rfl⟩

/-- With the point in its place there are digits on both sides of it, zeros if need be. -/
theorem isNumeral_positional {ds : List Char} (h : IsWhole ds) (hhead : ds.head? ≠ some '0')
    (point : Int) : IsNumeral (positional ds point) := by
  rw [positional]
  split
  · refine @IsNumeral.point ['0'] _ isWhole_zero ?_ fun c hc => ?_
    · exact List.append_ne_nil_of_right_ne_nil _ h.ne_nil
    · exact (List.mem_append.mp hc).elim isDigit_of_mem_replicate (h.digits c)
  · split
    · exact .point (h.append hhead fun c => isDigit_of_mem_replicate) (by simp) (by simp)
    · refine .point (h.take hhead (by omega)) ?_ fun c hc => h.digits c (List.mem_of_mem_drop hc)
      rw [Ne, List.drop_eq_nil_iff]
      omega

theorem exponentDigits_ne_nil (n : Nat) : exponentDigits n ≠ [] := by
  rw [exponentDigits]
  split
  · exact List.cons_ne_nil _ _
  · exact Nat.toDigits_ne_nil

theorem isDigit_of_mem_exponentDigits {n : Nat} {c : Char} (h : c ∈ exponentDigits n) : c.isDigit := by
  rw [exponentDigits] at h
  split at h
  · rcases List.mem_cons.mp h with rfl | h
    · decide
    · exact isDigit_of_mem_toDigits h
  · exact isDigit_of_mem_toDigits h

/-- With an exponent there is a point only if there is more than one digit. -/
theorem isNumeral_scientific {ds : List Char} (h : IsWhole ds) (hhead : ds.head? ≠ some '0') (e : Int) :
    IsNumeral (scientific ds e) := by
  have hsign : (if e < 0 then '-' else '+') = '-' ∨ (if e < 0 then '-' else '+') = '+' := by
    split
    · exact .inl rfl
    · exact .inr rfl
  have hxs : ∀ c ∈ exponentDigits e.natAbs, c.isDigit := fun c => isDigit_of_mem_exponentDigits
  obtain ⟨c, ds, rfl⟩ := List.exists_cons_of_ne_nil h.ne_nil
  have hc : IsWhole [c] := h.take hhead Nat.one_ne_zero
  cases ds with
  | nil => exact .power hc hsign (exponentDigits_ne_nil _) hxs
  | cons d ds =>
    exact .pointPower hc (List.cons_ne_nil d ds) (fun x hx => h.digits x (List.mem_cons_of_mem c hx))
      hsign (exponentDigits_ne_nil _) hxs

/-- The text of a decimal number that is not zero is a numeral. -/
theorem isNumeral_write {d : Decimal} (h : d.digits ≠ 0) (s : Decimal.Spelling) :
    IsNumeral (d.write s) := by
  rw [write_eq]
  dsimp only
  split
  · exact isNumeral_positional (isWhole_toDigits _) (head?_toDigits h) _
  · exact isNumeral_scientific (isWhole_toDigits _) (head?_toDigits h) _

theorem IsNumeral.exists_isWhole {cs : List Char} (h : IsNumeral cs) :
    ∃ ds rest, IsWhole ds ∧ cs = ds ++ rest := by
  cases h with
  | point hds _ _ => exact ⟨_, _, hds, rfl⟩
  | power hds _ _ _ => exact ⟨_, _, hds, rfl⟩
  | pointPower hds _ _ _ _ _ => exact ⟨_, _, hds, rfl⟩

/-- A text that is read as one word or number, whatever comes after it. -/
def ReadsScalar (cs : List Char) (v : Value) : Prop :=
  ∀ rest, isEnd rest → readScalar (cs ++ rest) = .ok (v, rest)

/-- A text that is read as one floating-point number, whatever comes after it. -/
def ReadsFloat (cs : List Char) : Prop := ∃ x, ReadsScalar cs (.float x)

/-- A numeral is read as a number with or without a minus sign before it. -/
theorem IsNumeral.readsFloat {cs : List Char} (h : IsNumeral cs) :
    ReadsFloat cs ∧ ReadsFloat ('-' :: cs) := by
  obtain ⟨x, hx⟩ := h.readNumber
  obtain ⟨ds, more, hds, rfl⟩ := h.exists_isWhole
  constructor
  · refine ⟨x false, fun rest hrest => ?_⟩
    rw [List.append_assoc, readScalar_digits hds, ← List.append_assoc]
    exact hx _ _ rest hrest
  · refine ⟨x true, fun rest hrest => ?_⟩
    rw [List.cons_append, List.append_assoc, ← List.cons_append, readScalar_minus hds]
    have hread := hx ('-' :: ds ++ (more ++ rest)).length true rest hrest
    rwa [List.append_assoc] at hread

/-- A word is read before anything else is tried. -/
theorem readsScalar_word {cs : List Char} {v : Value}
    (h : ∀ rest, (words.find? fun w => w.1.isPrefixOf (cs ++ rest)) = some (cs, v)) :
    ReadsScalar cs v := by
  intro rest _
  unfold readScalar
  rw [h rest]
  simp

/-- A number that is finite and not zero has a significand. -/
theorem significand_ne_zero {x : Binary64} (hnan : ¬ x.isNaN) (hinf : ¬ x.isInfinite) (hzero : ¬ x.isZero) :
    x.significand ≠ 0 := by
  intro hsignificand
  refine hzero ?_
  simp only [Binary64.isNaN, Binary64.isInfinite, Bool.and_eq_true, beq_iff_eq, bne_iff_ne] at hnan hinf
  simp only [Binary64.isZero, Binary64.isFinite, Bool.and_eq_true, bne_iff_ne, beq_iff_eq]
  refine ⟨fun hfield => ?_, hsignificand⟩
  by_cases hfraction : x.fraction = 0
  · exact hinf ⟨hfield, hfraction⟩
  · exact hnan ⟨hfield, hfraction⟩

/-- Every floating-point number has a text that is read as one. -/
theorem readsFloat_text (x : Binary64) : ReadsFloat (x.text spelling).toList := by
  have hsign : ∀ size : String, ReadsFloat size.toList ∧ ReadsFloat ('-' :: size.toList) →
      ReadsFloat (if x.isNegative then "-" ++ size else size).toList := by
    intro size h
    split
    · rw [String.toList_append]
      exact h.2
    · exact h.1
  rw [Binary64.text]
  split
  · exact ⟨.nan, readsScalar_word fun rest => rfl⟩
  · next hnan =>
    refine hsign _ ?_
    split
    · exact ⟨⟨.infinity false, readsScalar_word fun rest => rfl⟩,
        ⟨.infinity true, readsScalar_word fun rest => rfl⟩⟩
    · next hinf =>
      split
      · exact (@IsNumeral.point ['0'] ['0'] isWhole_zero (by simp) (by simp)).readsFloat
      · next hzero =>
        rw [String.toList_ofList]
        exact (isNumeral_write (Decimal.digits_shortest_ne_zero
          (significand_ne_zero hnan hinf hzero)) spelling).readsFloat

/-- The number that the text of a floating-point number is read as. -/
def reread (x : Binary64) : Binary64 :=
  match readScalar (x.text spelling).toList with
  | .ok (.float y, _) => y
  | _ => x

/-- The text of a floating-point number is read as the same number in front of any end as by itself. -/
theorem readScalar_float (x : Binary64) {rest : List Char} (hrest : isEnd rest) :
    readScalar ((x.text spelling).toList ++ rest) = .ok (.float (reread x), rest) := by
  obtain ⟨y, hy⟩ := readsFloat_text x
  have halone := hy [] rfl
  rw [List.append_nil] at halone
  rw [hy rest hrest, reread, halone]

end NamingDirectory.Json
