import NamingDirectory.Dn
import NamingDirectory.Proofs.Text.Ascii

/-!
# Reading assignments

`assertions` looks for separators from both ends of a text and checks what it has cut out. `IsWritten` says
what it accepts without any search: sound assignments with a comma or a plus sign between each two. The two
agree (`assertions_eq_ok_iff`), so a text that is accepted has been taken apart in the only possible way.

A value is checked forwards, with the state of an escape, while the search counts the backslashes before a
place. In a sound value the two never differ on a character that needs an escape (`cutFirst_value`): the
backslashes before it are an odd number just if the check is inside an escape.

The two directions need different things.

* That sound assignments are found again (`assertions_written`) is a matter of where cuts fall. What was
  passed is kept backwards by the search, so each lemma about it speaks of a text behind an arbitrary one:
  cutting goes through a type, a value, a whole assignment, without a cut. Then a separator is where it cuts
  first.
* That nothing else is found (`isWritten_of_assertions`) is a matter of what is lost, whatever was cut:
  cutting takes away one separator at a time (`unsplit_split`), a piece that is attached comes with the
  separator before it (`unsplit_foldl_attach`), and each piece is checked in the end.

For example,

    cn=a+sn=b\,c,ou=d    ──split──▶    (cn=a, plus)   (sn=b\,c, comma)   (ou=d, nothing)

is three assignments. The plus sign comes before the first comma that no backslash escapes, so it is the first
place to cut at. The other comma belongs to a value.
-/

namespace NamingDirectory.Dn

/-! ### Soundness

What is checked of an assignment, and the form in which assignments stand in a text. The text is taken as it
is: a blank before a type is refused like any other character that a type cannot have. -/

/-- Whether a text passes the check of a value. -/
def IsValue (cs : List Char) : Prop := ∀ whole, checkValue whole cs = .ok ()

structure Assertion.IsSound (a : Assertion) : Prop where
  type : checkType a.type.toList = .ok ()
  value : IsValue a.value.toList

/-- An assignment in the form in which it is read. -/
def Assertion.written (a : Assertion) : List Char := a.type.toList ++ '=' :: a.value.toList

/-- Assignments with their separators. -/
def written (as : List Assertion) : List Char := as.flatMap fun a => a.written ++ a.separator.toList

def IsSeparator (sep : Option Char) : Prop := sep = some ',' ∨ sep = some '+'

/-- Whether there is a separator after each item but the last. -/
def SeparatorsFit : List (Option Char) → Prop
  | [] => True
  | [sep] => sep = none
  | sep :: seps => IsSeparator sep ∧ SeparatorsFit seps

/-- What is read: one assignment or more, each sound, with a separator between each two. -/
structure IsWritten (as : List Assertion) : Prop where
  nonempty : as ≠ []
  sound : ∀ a ∈ as, a.IsSound
  separators : SeparatorsFit (as.map (·.separator))

section Soundness

variable {c : Char} {cs whole : List Char} {sep : Option Char} {seps : List (Option Char)}

theorem isSeparator_some_iff : IsSeparator (some c) ↔ c = ',' ∨ c = '+' := by
  simp [IsSeparator]

theorem separatorsFit_cons_iff (h : seps ≠ []) :
    SeparatorsFit (sep :: seps) ↔ IsSeparator sep ∧ SeparatorsFit seps := by
  cases seps with
  | nil => exact absurd rfl h
  | cons _ _ => rfl

theorem separatorsFit_append_singleton_iff (front : List (Option Char)) (last : Option Char) :
    SeparatorsFit (front ++ [last]) ↔ (∀ sep ∈ front, IsSeparator sep) ∧ last = none := by
  induction front with
  | nil => simp [SeparatorsFit]
  | cons sep front ih =>
    rw [List.cons_append, separatorsFit_cons_iff (by simp), ih, List.forall_mem_cons, and_assoc]

/-- The type of a directory's own identifiers is exempt from the check, and has one character more. -/
theorem isTypeCharacter_of_checkType (h : checkType cs = .ok ()) :
    cs ≠ [] ∧ ∀ c ∈ cs, isTypeCharacter c ∨ c = '<' := by
  unfold checkType at h
  split at h
  · cases h
  · split at h
    · next hguid =>
      rw [eq_of_beq hguid]
      have hall : "<GUID".toList.all fun c => isTypeCharacter c || c == '<' := by decide
      exact ⟨by decide, fun c hc => by simpa using List.all_eq_true.mp hall c hc⟩
    · split at h
      · cases h
      · next hnone =>
        refine ⟨List.cons_ne_nil _ _, fun c hc => .inl ?_⟩
        simpa using List.find?_eq_none.mp hnone c hc

theorem toNat_of_isTypeCharacter (h : isTypeCharacter c) :
    c.toNat = 0x2d ∨ 0x30 ≤ c.toNat ∧ c.toNat ≤ 0x39 ∨ 0x41 ≤ c.toNat ∧ c.toNat ≤ 0x5a ∨
      0x61 ≤ c.toNat ∧ c.toNat ≤ 0x7a := by
  rcases Bool.or_eq_true_iff.mp h with halphanum | hhyphen
  · exact .inr (Text.toNat_of_isAlphanum halphanum)
  · exact .inl (congrArg Char.toNat (eq_of_beq hhyphen))

theorem not_isBlank_of_isTypeCharacter (h : isTypeCharacter c) : ¬ Text.isBlank c := by
  have hc := toNat_of_isTypeCharacter h
  simp only [Text.isBlank, Bool.or_eq_true, Bool.and_eq_true, decide_eq_true_eq, beq_iff_eq]
  omega

/-- The characters of a type: none that cuts or escapes, and no blank. -/
structure IsTypeText (cs : List Char) : Prop where
  nonempty : cs ≠ []
  plain : ∀ c ∈ cs, c ≠ '\\' ∧ c ≠ '=' ∧ c ≠ ',' ∧ c ≠ '+'
  unblank : ∀ c ∈ cs, ¬ Text.isBlank c

/-- What passes the check of a type is a type, the exempt one included. -/
theorem isTypeText_of_checkType (h : checkType cs = .ok ()) : IsTypeText cs := by
  obtain ⟨hne, hall⟩ := isTypeCharacter_of_checkType h
  refine ⟨hne, fun c hc => ?_, fun c hc => ?_⟩
  · rcases hall c hc with htype | rfl
    · refine ⟨?_, ?_, ?_, ?_⟩ <;> (rintro rfl; exact absurd htype (by decide))
    · decide
  · rcases hall c hc with htype | rfl
    · exact not_isBlank_of_isTypeCharacter htype
    · decide

end Soundness

/-! ### One step of the check

The state of the check goes from one character to the next as `Passes` says. What a value is, apart from its
ends, is then said by its steps. The way into an escape is a backslash, and the way out is one character that
may be escaped or the second of two digits; outside of an escape nothing special may stand. -/

/-- The steps that the check of a value takes over single characters. -/
inductive Passes : Escape → Char → Escape → Prop
  | backslash : Passes .none '\\' .started
  | plain {c : Char} : c ≠ '\\' → ¬ isSpecial c → Passes .none c .none
  | digit {c : Char} : Text.isHexDigit c → Passes .started c .half
  | escaped {c : Char} : c = ' ' ∨ c = '\\' ∨ isSpecial c → Passes .started c .none
  | second {c : Char} : Text.isHexDigit c → Passes .half c .none

section Check

variable {c : Char} {cs : List Char} {state next : Escape}

/-- A check that succeeds on a text takes one of the steps of `Passes` at its first character, and succeeds on
the rest. -/
theorem checkEscapes_cons (h : checkEscapes state (c :: cs) = .ok ()) :
    ∃ next, Passes state c next ∧ checkEscapes next cs = .ok () := by
  cases state with
  | none =>
    rw [checkEscapes] at h
    split at h
    · next hc => exact ⟨.started, eq_of_beq hc ▸ .backslash, h⟩
    · next hc =>
      split at h
      · cases h
      · next hspecial => exact ⟨.none, .plain (by simpa using hc) hspecial, h⟩
  | started =>
    rw [checkEscapes] at h
    split at h
    · next hdigit => exact ⟨.half, .digit hdigit, h⟩
    · split at h
      · next hescaped => exact ⟨.none, .escaped (by simpa [or_assoc] using hescaped), h⟩
      · cases h
  | half =>
    rw [checkEscapes] at h
    split at h
    · next hdigit => exact ⟨.none, .second hdigit, h⟩
    · cases h

/-- A check that succeeds does not end inside an escape. -/
theorem eq_none_of_checkEscapes_nil (h : checkEscapes state [] = .ok ()) : state = .none := by
  cases state with
  | none => rfl
  | started => cases h
  | half => cases h

theorem toNat_of_isHexDigit (h : Text.isHexDigit c) :
    0x30 ≤ c.toNat ∧ c.toNat ≤ 0x39 ∨ 0x61 ≤ c.toNat ∧ c.toNat ≤ 0x66 ∨
      0x41 ≤ c.toNat ∧ c.toNat ≤ 0x46 := by
  unfold Text.isHexDigit Text.hexValue? at h
  split at h
  · next hc => exact .inl hc
  · split at h
    · next hc => exact .inr (.inl hc)
    · split at h
      · next hc => exact .inr (.inr hc)
      · cases h

theorem ne_of_isHexDigit (h : Text.isHexDigit c) : c ≠ '\\' ∧ c ≠ ' ' ∧ ¬ isSpecial c := by
  have hc := toNat_of_isHexDigit h
  refine ⟨?_, ?_, ?_⟩
  · rintro rfl
    revert hc
    decide
  · rintro rfl
    revert hc
    decide
  · intro hspecial
    simp only [isSpecial, Bool.or_eq_true, List.contains_iff_mem, beq_iff_eq] at hspecial
    rcases hspecial with hmem | hzero
    · have hnone : "\x22#+,;<=>".toList.all fun d => !Text.isHexDigit d := by decide
      simpa [h] using List.all_eq_true.mp hnone c hmem
    · omega

/-- A special character is passed only after a backslash. -/
theorem Passes.started_of_isSpecial (h : Passes state c next) (hc : isSpecial c) : state = .started := by
  cases h with
  | backslash => exact absurd hc (by decide)
  | plain _ hplain => exact absurd hc hplain
  | digit _ => rfl
  | escaped _ => rfl
  | second hdigit => exact absurd hc (ne_of_isHexDigit hdigit).2.2

/-- What passes the check of a value: a text that neither starts with a number sign or a space nor ends
with a space that no backslash precedes, with sound escapes. -/
theorem checkValue_eq_ok_iff (whole : List Char) :
    checkValue whole cs = .ok () ↔
      cs ≠ [] ∧ cs.head? ≠ some '#' ∧ cs.head? ≠ some ' ' ∧
        (∀ before, cs.reverse = ' ' :: before → before.head? = some '\\') ∧
        checkEscapes .none cs = .ok () := by
  cases cs with
  | nil => simp [checkValue]
  | cons first cs =>
    have hhead : ∀ d, (first :: cs).head? ≠ some d ↔ ¬ (first == d) := fun d => by simp
    rw [checkValue, hhead, hhead]
    by_cases hsign : first == '#'
    · simp [hsign]
    by_cases hspace : first == ' '
    · simp [hsign, hspace]
    simp only [hsign, hspace, Bool.false_eq_true, if_false, not_false_eq_true, true_and, ne_eq,
      reduceCtorEq]
    split
    · next before hreverse =>
      by_cases hbackslash : before.head? = some '\\'
      · simp [hreverse, hbackslash]
      · simp [hreverse, hbackslash]
    · next hother =>
      have hend : ∀ before, (first :: cs).reverse = ' ' :: before → before.head? = some '\\' :=
        fun before hbefore => absurd hbefore (hother before)
      exact (and_iff_right hend).symm

end Check

/-! ### Escapes from both sides

`Tracks` is the invariant between the two counts, and a step of the check keeps it (`Passes.tracks`). It is
kept along a value from the equals sign on, which is no backslash. So the exception that the count makes for a
run at the very start of a text never applies. -/

section Escapes

variable {c d : Char} {before cs rest : List Char}

theorem escaped_cons_of_ne (hc : c ≠ '\\') (before : List Char) : escaped (c :: before) = false := by
  simp [escaped, hc]

/-- One more backslash turns the escape, if the run has something else before it. -/
theorem escaped_backslash (h : ∃ c ∈ before, c ≠ '\\') :
    escaped ('\\' :: before) = !escaped before := by
  obtain ⟨c, hc, hne⟩ := h
  -- The run stops short of the start, so the exception for a text of backslashes alone does not apply.
  have hrun : (before.takeWhile (· == '\\')).length ≠ before.length := by
    intro hlength
    have hself := (List.takeWhile_prefix (p := (· == '\\')) (l := before)).eq_of_length hlength
    have hall := List.all_takeWhile (p := (· == '\\')) (l := before)
    rw [hself] at hall
    exact hne (by simpa using List.all_eq_true.mp hall c hc)
  have hrun' : ((before.takeWhile (· == '\\')).length + 1 == before.length + 1) = false :=
    beq_eq_false_iff_ne.mpr (by omega)
  simp only [escaped, List.takeWhile_cons, beq_self_eq_true, if_true, List.length_cons, hrun',
    beq_eq_false_iff_ne.mpr hrun, Bool.false_and, Bool.false_eq_true, if_false]
  generalize (before.takeWhile (· == '\\')).length = run
  rcases Nat.mod_two_eq_zero_or_one run with heven | hodd
  · have hsucc : (run + 1) % 2 = 1 := by omega
    rw [heven, hsucc]
    rfl
  · have hsucc : (run + 1) % 2 = 0 := by omega
    rw [hodd, hsucc]
    rfl

theorem cutFirst_cons (c d : Char) (before cs : List Char) :
    cutFirst c before (d :: cs) =
      if d == c && !before.isEmpty && !escaped before then some (before, cs)
      else cutFirst c (d :: before) cs := rfl

/-- A cut never falls among other characters. -/
theorem cutFirst_append (h : c ∉ cs) (before rest : List Char) :
    cutFirst c before (cs ++ rest) = cutFirst c (cs.reverse ++ before) rest := by
  induction cs generalizing before with
  | nil => rfl
  | cons d cs ih =>
    obtain ⟨hd, hcs⟩ := not_or.mp (mt List.mem_cons.mpr h)
    have hne : (d == c) = false := beq_eq_false_iff_ne.mpr (Ne.symm hd)
    rw [List.cons_append, cutFirst_cons, hne, ih hcs]
    simp

/-- A cut falls at a character that nothing escapes. -/
theorem cutFirst_here (hbefore : before ≠ []) (hopen : escaped before = false) (rest : List Char) :
    cutFirst c before (c :: rest) = some (before, rest) := by
  rw [cutFirst_cons]
  simp [hbefore, hopen]

/-- What was passed before stays a part of what is cut off. -/
theorem length_le_of_cutFirst {front back : List Char} (h : cutFirst c before cs = some (front, back)) :
    before.length ≤ front.length := by
  induction cs generalizing before with
  | nil => cases h
  | cons d cs ih =>
    rw [cutFirst_cons] at h
    split at h
    · cases h
      exact Nat.le_refl _
    · exact Nat.le_of_succ_le (ih h)

theorem isSpecial_of_isSeparator (h : IsSeparator (some c)) : isSpecial c := by
  rcases isSeparator_some_iff.mp h with rfl | rfl <;> decide

/-- The check is inside an escape just if the backslashes before the place are an odd number. -/
structure Tracks (before : List Char) (state : Escape) : Prop where
  escaped : escaped before = (state == .started)
  bounded : ∃ c ∈ before, c ≠ '\\'

/-- Both counts are at rest after a character that is no backslash, unless it is the first digit of a pair. -/
theorem Tracks.cons (hd : d ≠ '\\') {state : Escape} (hstate : state ≠ .started) (before : List Char) :
    Tracks (d :: before) state where
  escaped := by
    rw [escaped_cons_of_ne hd]
    exact (beq_eq_false_iff_ne.mpr hstate).symm
  bounded := ⟨d, List.mem_cons_self, hd⟩

/-- Both counts turn at a backslash. -/
theorem Tracks.backslash {state next : Escape} (h : Tracks before state)
    (hnext : (next == .started) = !(state == .started)) : Tracks ('\\' :: before) next where
  escaped := by rw [escaped_backslash h.bounded, h.escaped, hnext]
  bounded := by
    obtain ⟨c, hc, hne⟩ := h.bounded
    exact ⟨c, List.mem_cons_of_mem _ hc, hne⟩

/-- Each step of the check keeps the counts in agreement. -/
theorem Passes.tracks {state next : Escape} (h : Passes state d next) (hbefore : Tracks before state) :
    Tracks (d :: before) next := by
  cases h with
  | backslash => exact hbefore.backslash rfl
  | plain hd _ => exact .cons hd (by decide) before
  | digit hd => exact .cons ((ne_of_isHexDigit hd).1) (by decide) before
  | escaped hd =>
    by_cases hbackslash : d = '\\'
    · subst hbackslash
      exact hbefore.backslash rfl
    · exact .cons hbackslash (by decide) before
  | second hd => exact .cons ((ne_of_isHexDigit hd).1) (by decide) before

/-- In a sound value no separator is cut at, and the value ends outside an escape. -/
theorem cutFirst_value (hsep : IsSeparator (some c)) {state : Escape}
    (h : checkEscapes state cs = .ok ()) (hbefore : Tracks before state) (rest : List Char) :
    cutFirst c before (cs ++ rest) = cutFirst c (cs.reverse ++ before) rest ∧
      escaped (cs.reverse ++ before) = false := by
  induction cs generalizing before state with
  | nil =>
    cases eq_none_of_checkEscapes_nil h
    exact ⟨rfl, hbefore.escaped⟩
  | cons d cs ih =>
    obtain ⟨next, hpasses, hnext⟩ := checkEscapes_cons h
    -- A separator is passed inside an escape only, and there the search does not cut.
    have hpass : (d == c && !before.isEmpty && !escaped before) = false := by
      by_cases hd : d = c
      · have hstarted := hpasses.started_of_isSpecial (hd ▸ isSpecial_of_isSeparator hsep)
        rw [hbefore.escaped, hstarted]
        simp
      · simp [hd]
    obtain ⟨hcut, hend⟩ := ih hnext (hpasses.tracks hbefore)
    rw [List.cons_append, cutFirst_cons, hpass, List.reverse_cons, List.append_assoc]
    exact ⟨hcut, hend⟩

/-- A type holds nothing that a search looks for. -/
theorem IsTypeText.not_mem {cs : List Char} (h : IsTypeText cs) (hsep : IsSeparator (some c) ∨ c = '=') :
    c ∉ cs := by
  intro hmem
  obtain ⟨-, hequals, hcomma, hplus⟩ := h.plain c hmem
  rcases hsep with hsep | rfl
  · rcases isSeparator_some_iff.mp hsep with rfl | rfl
    · exact hcomma rfl
    · exact hplus rfl
  · exact hequals rfl

/-- No separator is cut at inside a type, and the equals sign after it escapes nothing. -/
theorem IsTypeText.cutFirst {type : List Char} (h : IsTypeText type) (hsep : IsSeparator (some c))
    (before rest : List Char) :
    Dn.cutFirst c before (type ++ '=' :: rest) = Dn.cutFirst c ('=' :: (type.reverse ++ before)) rest := by
  have hequals : c ∉ type ++ ['='] := by
    have hne : c ≠ '=' := by
      rcases isSeparator_some_iff.mp hsep with rfl | rfl <;> decide
    simp [h.not_mem (.inl hsep), hne]
  have happend : type ++ '=' :: rest = type ++ ['='] ++ rest := by simp
  rw [happend, cutFirst_append hequals]
  simp

/-- No separator is cut at inside a sound assignment, and the next one may be. -/
theorem cutFirst_written {a : Assertion} (ha : a.IsSound) (hsep : IsSeparator (some c))
    (before rest : List Char) :
    cutFirst c before (a.written ++ rest) = cutFirst c (a.written.reverse ++ before) rest ∧
      escaped (a.written.reverse ++ before) = false := by
  have htype := isTypeText_of_checkType ha.type
  obtain ⟨-, -, -, -, hvalue⟩ := (checkValue_eq_ok_iff []).mp (ha.value [])
  have htracks : Tracks ('=' :: (a.type.toList.reverse ++ before)) .none :=
    .cons (by decide) (by decide) _
  have happend : a.written ++ rest = a.type.toList ++ '=' :: (a.value.toList ++ rest) := by
    simp [Assertion.written]
  have hreverse : a.written.reverse ++ before =
      a.value.toList.reverse ++ '=' :: (a.type.toList.reverse ++ before) := by
    simp [Assertion.written]
  rw [happend, htype.cutFirst hsep, hreverse]
  exact cutFirst_value hsep hvalue htracks rest

/-- The equals sign of an assignment is found behind its type. -/
theorem cutFirst_equals {cs : List Char} (h : IsTypeText cs) (before rest : List Char) :
    cutFirst '=' before (cs ++ '=' :: rest) = some (cs.reverse ++ before, rest) := by
  rw [cutFirst_append (h.not_mem (.inr rfl))]
  obtain ⟨front, last, rfl⟩ := (List.eq_nil_or_concat cs).resolve_left h.nonempty
  rw [List.concat_eq_append] at h ⊢
  rw [List.reverse_append, List.reverse_singleton, List.singleton_append, List.cons_append]
  refine cutFirst_here (List.cons_ne_nil _ _) (escaped_cons_of_ne ?_ _) rest
  exact (h.plain last (by simp)).1

end Escapes

/-! ### Completeness

What is written is read. The texts to cut are written assignments with a rest behind them, so that each lemma
can be used for the first assignment of many. Two searches run over such a text, one for each kind of
separator, and the one that finds its separator earlier decides (`length_lt_of_cutFirst`). -/

section Completeness

variable {c sep : Char} {a b : Assertion} {as : List Assertion} {cs rest before : List Char}

/-- Cutting from the end falls at the first place that it comes to. -/
theorem cutLast_append (h : c ∉ cs) (hbefore : before ≠ []) (hopen : escaped before = false) :
    cutLast c (cs ++ c :: before) = before := by
  induction cs with
  | nil => simp [cutLast, hbefore, hopen]
  | cons d cs ih =>
    obtain ⟨hd, hcs⟩ := not_or.mp (mt List.mem_cons.mpr h)
    simp [cutLast, Ne.symm hd, ih hcs]

theorem Assertion.written_ne_nil (a : Assertion) : a.written ≠ [] := by
  simp [Assertion.written]

theorem Assertion.written_append (a : Assertion) (rest : List Char) :
    a.written ++ rest = a.type.toList ++ '=' :: (a.value.toList ++ rest) := by
  simp [Assertion.written]

/-- A separator behind a sound assignment is the first of its kind. -/
theorem cutFirst_written_separator (ha : a.IsSound) (hsep : IsSeparator (some sep)) (rest : List Char) :
    cutFirst sep [] (a.written ++ sep :: rest) = some (a.written.reverse, rest) := by
  obtain ⟨hcut, hopen⟩ := cutFirst_written ha hsep [] (sep :: rest)
  rw [List.append_nil] at hcut hopen
  rw [hcut, cutFirst_here (by simpa using a.written_ne_nil) hopen]

/-- A separator before another assignment ends the first one. -/
theorem upTo?_written (ha : a.IsSound) (hb : b.IsSound) (hsep : IsSeparator (some sep))
    (rest : List Char) : upTo? sep (a.written ++ sep :: (b.written ++ rest)) = some a.written := by
  have htype := isTypeText_of_checkType hb.type
  have hfront : cutFirst '=' (sep :: a.written.reverse) (b.written ++ rest) =
      some (b.type.toList.reverse ++ sep :: a.written.reverse, b.value.toList ++ rest) := by
    rw [b.written_append, cutFirst_equals htype]
  have hopen := (cutFirst_written ha hsep [] []).2
  rw [List.append_nil] at hopen
  -- Back from the equals sign of the second assignment, the first separator is the one before its type.
  have hlast : cutLast sep (b.type.toList.reverse ++ sep :: a.written.reverse) = a.written.reverse :=
    cutLast_append (by simpa using htype.not_mem (.inl hsep)) (by simpa using a.written_ne_nil) hopen
  have hlength : 0 < b.type.toList.length := List.length_pos_iff.mpr htype.nonempty
  simp only [upTo?, cutFirst_written_separator ha hsep, Option.bind_some, beforeSeparator?, hfront]
  rw [hlast, if_pos, List.reverse_reverse]
  simp only [List.length_append, List.length_reverse, List.length_cons]
  omega

/-- The first separator of one kind does not come before the first one of the other kind if that ends the
first assignment. -/
theorem length_lt_of_cutFirst {front back : List Char} (ha : a.IsSound) (hc : IsSeparator (some c))
    (hne : sep ≠ c) (h : cutFirst c [] (a.written ++ sep :: rest) = some (front, back)) :
    a.written.length < front.length := by
  rw [(cutFirst_written ha hc [] (sep :: rest)).1, List.append_nil, cutFirst_cons] at h
  simp only [beq_eq_false_iff_ne.mpr hne, Bool.false_and, Bool.false_eq_true, if_false] at h
  have hle := length_le_of_cutFirst h
  rwa [List.length_cons, List.length_reverse] at hle

/-- What comes first of two sound assignments or more is the first one, whichever kind the separator is of. -/
theorem nextAssertion_written_cons (ha : a.IsSound) (hb : b.IsSound) (hsep : IsSeparator (some sep))
    (rest : List Char) :
    nextAssertion (a.written ++ sep :: (b.written ++ rest)) = (a.written, some sep) := by
  have hupTo := upTo?_written ha hb hsep rest
  have hcut := cutFirst_written_separator ha hsep (b.written ++ rest)
  rcases isSeparator_some_iff.mp hsep with rfl | rfl
  · -- A plus sign comes later, if there is one.
    have hplus : plusFirst (a.written ++ ',' :: (b.written ++ rest)) = false := by
      rw [plusFirst, hcut]
      split
      · next p _ hp hcomma =>
        cases hcomma
        have := length_lt_of_cutFirst ha (.inr rfl) (by decide) hp
        simp only [List.length_reverse, decide_eq_false_iff_not]
        omega
      · next hcomma => cases hcomma
      · rfl
    rw [nextAssertion, hplus, if_neg Bool.false_ne_true]
    dsimp only
    rw [hupTo]
  · -- It ends the first assignment itself, so a comma comes later.
    have hplus : plusFirst (a.written ++ '+' :: (b.written ++ rest)) = true := by
      rw [plusFirst, hcut]
      split
      · next _ hp hcomma =>
        cases hp
        have := length_lt_of_cutFirst ha (.inl rfl) (by decide) hcomma
        simpa using this
      · rfl
      · next hp => cases hp
    rw [nextAssertion, hplus, if_pos rfl, hupTo]

/-- Without a place to cut at, all of a text comes first. -/
theorem nextAssertion_of_uncut (h : ∀ c, IsSeparator (some c) → cutFirst c [] cs = none) :
    nextAssertion cs = (cs, none) := by
  have hplus := h '+' (.inr rfl)
  have hcomma := h ',' (.inl rfl)
  rw [nextAssertion, plusFirst, hplus, hcomma]
  dsimp only
  rw [if_neg Bool.false_ne_true, upTo?, hcomma]
  rfl

theorem cutFirst_written_eq_none (ha : a.IsSound) (hsep : IsSeparator (some c)) :
    cutFirst c [] a.written = none := by
  have hcut := (cutFirst_written ha hsep [] []).1
  rwa [List.append_nil] at hcut

theorem written_cons (a : Assertion) (as : List Assertion) :
    written (a :: as) = a.written ++ (a.separator.toList ++ written as) := by
  rw [written, List.flatMap_cons, List.append_assoc, written]

/-- What is written of two assignments or more: the first one, its separator, and the others. -/
theorem isWritten_cons_cons_iff :
    IsWritten (a :: b :: as) ↔ a.IsSound ∧ IsSeparator a.separator ∧ IsWritten (b :: as) := by
  constructor
  · rintro ⟨-, hsound, hseparators⟩
    obtain ⟨ha, hsound⟩ := List.forall_mem_cons.mp hsound
    obtain ⟨hsep, hseparators⟩ := hseparators
    exact ⟨ha, hsep, List.cons_ne_nil _ _, hsound, hseparators⟩
  · rintro ⟨ha, hsep, -, hsound, hseparators⟩
    exact ⟨List.cons_ne_nil _ _, List.forall_mem_cons.mpr ⟨ha, hsound⟩, hsep, hseparators⟩

theorem isWritten_singleton_iff : IsWritten [a] ↔ a.IsSound ∧ a.separator = none := by
  constructor
  · rintro ⟨-, hsound, hnone⟩
    exact ⟨hsound a List.mem_cons_self, hnone⟩
  · rintro ⟨ha, hnone⟩
    exact ⟨List.cons_ne_nil _ _, by simpa using ha, hnone⟩

theorem split_ne_nil (h : cs ≠ []) :
    split cs = nextAssertion cs :: split (cs.drop ((nextAssertion cs).1.length + 1)) := by
  rw [split, if_neg (by simpa using h)]

theorem split_of_uncut (hne : cs ≠ []) (h : ∀ c, IsSeparator (some c) → cutFirst c [] cs = none) :
    split cs = [(cs, none)] := by
  rw [split_ne_nil hne, nextAssertion_of_uncut h, List.drop_eq_nil_of_le (Nat.le_succ _), split]
  rfl

/-- Splitting finds the assignments, by induction on them. -/
theorem split_written (h : IsWritten as) : split (written as) = as.map fun a => (a.written, a.separator) := by
  induction as with
  | nil => exact absurd rfl h.nonempty
  | cons a as ih =>
    cases as with
    | nil =>
      obtain ⟨ha, hnone⟩ := isWritten_singleton_iff.mp h
      have hwritten : written [a] = a.written := by simp [written, hnone]
      rw [hwritten, split_of_uncut a.written_ne_nil fun c => cutFirst_written_eq_none ha, List.map_singleton,
        hnone]
    | cons b as =>
      obtain ⟨ha, hsep, hrest⟩ := isWritten_cons_cons_iff.mp h
      obtain ⟨sep, hsome⟩ : ∃ sep, a.separator = some sep := by
        rcases hsep with hsep | hsep
        · exact ⟨_, hsep⟩
        · exact ⟨_, hsep⟩
      have hwritten : written (a :: b :: as) =
          a.written ++ sep :: (b.written ++ (b.separator.toList ++ written as)) := by
        rw [written_cons, hsome, written_cons]
        rfl
      have hne : written (a :: b :: as) ≠ [] := by
        rw [written_cons]
        exact List.append_ne_nil_of_left_ne_nil a.written_ne_nil _
      have hb : b.IsSound := hrest.sound b List.mem_cons_self
      -- The first assignment and its separator are dropped, which leaves what is written of the others.
      have hdrop : (written (a :: b :: as)).drop (a.written.length + 1) = written (b :: as) := by
        rw [hwritten, written_cons]
        simp
      rw [split_ne_nil hne, hwritten, nextAssertion_written_cons ha hb (hsome ▸ hsep), ← hwritten, hdrop,
        ih hrest, ← hsome]
      rfl

/-- A text without a separator to cut at is one assignment. -/
theorem assertions_of_uncut (hne : cs ≠ []) (h : ∀ c, IsSeparator (some c) → cutFirst c [] cs = none) :
    assertions (String.ofList cs) = (assertion (cs, none)).map fun a => [a] := by
  rw [assertions, String.toList_ofList, split_of_uncut hne h]
  show ([(cs, none)].mapM assertion >>= _) = _
  rw [List.mapM_cons]
  cases assertion (cs, none) with
  | error e => rfl
  | ok a => rfl

theorem foldl_attach {pieces done : List (List Char × Option Char)}
    (h : ∀ piece ∈ pieces, (cutFirst '=' [] piece.1).isSome) :
    pieces.foldl attach done = pieces.reverse ++ done := by
  induction pieces generalizing done with
  | nil => rfl
  | cons piece pieces ih =>
    obtain ⟨hpiece, hpieces⟩ := List.forall_mem_cons.mp h
    have hattach : attach done piece = piece :: done := by
      cases done with
      | nil => rfl
      | cons last done => simp [attach, hpiece]
    rw [List.foldl_cons, hattach, ih hpieces]
    simp

theorem typeAndValue_append {whole : List Char} (h : ∀ c ∈ cs, c ≠ '\\' ∧ c ≠ '=') (hc : c ≠ '\\')
    (before value : List Char) :
    typeAndValue whole (c :: before) (cs ++ '=' :: value) = ((c :: before).reverse ++ cs, value) := by
  induction cs generalizing c before with
  | nil => simp [typeAndValue, hc]
  | cons d cs ih =>
    obtain ⟨⟨hd, hequals⟩, hcs⟩ := List.forall_mem_cons.mp h
    have hne : (d == '=') = false := beq_eq_false_iff_ne.mpr hequals
    rw [List.cons_append, typeAndValue, hne, if_neg Bool.false_ne_true, ih hcs hd]
    simp

theorem IsTypeText.typeAndValue_eq {type : List Char} (h : IsTypeText type) (whole value : List Char) :
    typeAndValue whole [] (type ++ '=' :: value) = (type, value) := by
  obtain ⟨c, cs, rfl⟩ := List.exists_cons_of_ne_nil h.nonempty
  obtain ⟨⟨hc, hequals, -⟩, hcs⟩ := List.forall_mem_cons.mp h.plain
  have hne : (c == '=') = false := beq_eq_false_iff_ne.mpr hequals
  rw [List.cons_append, typeAndValue, hne, if_neg Bool.false_ne_true]
  exact typeAndValue_append (fun d hd => ⟨(hcs d hd).1, (hcs d hd).2.1⟩) hc [] value

/-- What is cut out of a text of sound assignments is checked with success. -/
theorem assertion_written (ha : a.IsSound) : assertion (a.written, a.separator) = .ok a := by
  have hcut := (isTypeText_of_checkType ha.type).typeAndValue_eq a.written a.value.toList
  rw [← Assertion.written] at hcut
  simp only [assertion, hcut]
  rw [ha.type, ha.value a.written]
  show Except.ok (⟨_, _, _⟩ : Assertion) = _
  rw [String.ofList_toList, String.ofList_toList]

theorem mapM_assertion_written (h : ∀ a ∈ as, a.IsSound) :
    (as.map fun a => (a.written, a.separator)).mapM assertion = .ok as := by
  induction as with
  | nil => rfl
  | cons a as ih =>
    obtain ⟨ha, has⟩ := List.forall_mem_cons.mp h
    rw [List.map_cons, List.mapM_cons, assertion_written ha, ih has]
    rfl

/-- Whatever may be read is read. -/
theorem assertions_written (h : IsWritten as) : assertions (String.ofList (written as)) = .ok as := by
  have hequals : ∀ piece ∈ as.map (fun a => (a.written, a.separator)), (cutFirst '=' [] piece.1).isSome := by
    intro piece hpiece
    obtain ⟨a, ha, rfl⟩ := List.mem_map.mp hpiece
    have hcut := cutFirst_equals (isTypeText_of_checkType (h.sound a ha).type) [] a.value.toList
    rw [← Assertion.written] at hcut
    exact hcut ▸ rfl
  rw [assertions, String.toList_ofList, split_written h, foldl_attach hequals, List.append_nil,
    List.reverse_reverse, mapM_assertion_written h.sound]
  obtain ⟨a, as, rfl⟩ := List.exists_cons_of_ne_nil h.nonempty
  rfl

end Completeness

/-! ### Soundness of what is read

What is read was written. Whether a piece is right is not known before the last step, so what is said of the
cuts holds of any text: a cut takes a separator out and leaves what is before and behind it. Pieces that have
no equals sign are put back to the piece before them, again with the separator that was taken out. -/

section Accepted

variable {c sep : Char} {a : Assertion} {as : List Assertion} {cs before piece : List Char}
  {pieces done : List (List Char × Option Char)}

/-- A cut takes away the character at which it falls, and nothing else. -/
theorem append_of_cutFirst {front back : List Char} (h : cutFirst c before cs = some (front, back)) :
    front ≠ [] ∧ escaped front = false ∧
      ∃ passed, front = passed ++ before ∧ cs = passed.reverse ++ c :: back := by
  induction cs generalizing before with
  | nil => cases h
  | cons d cs ih =>
    rw [cutFirst_cons] at h
    split at h
    · next hcut =>
      cases h
      simp only [Bool.and_eq_true, beq_iff_eq, Bool.not_eq_true', List.isEmpty_eq_false_iff] at hcut
      obtain ⟨⟨rfl, hne⟩, hopen⟩ := hcut
      exact ⟨hne, hopen, [], rfl, rfl⟩
    · obtain ⟨hne, hopen, passed, rfl, rfl⟩ := ih h
      exact ⟨by simp, by simpa using hopen, passed ++ [d], by simp, by simp⟩

/-- The last cut falls at a separator too, if there is one to cut at. -/
theorem append_cutLast (hbefore : before ≠ []) (hopen : escaped before = false) (passed : List Char) :
    ∃ back, passed ++ c :: before = back ++ c :: cutLast c (passed ++ c :: before) := by
  induction passed with
  | nil => exact ⟨[], by simp [cutLast, hbefore, hopen]⟩
  | cons d passed ih =>
    rw [List.cons_append, cutLast]
    split
    · next hcut =>
      simp only [Bool.and_eq_true, beq_iff_eq] at hcut
      exact ⟨[], by rw [hcut.1.1]; rfl⟩
    · obtain ⟨back, hback⟩ := ih
      exact ⟨d :: back, by rw [List.cons_append, ← hback]⟩

/-- An assignment that ends at a separator is followed by one, and by something more. -/
theorem append_of_upTo? (h : upTo? sep cs = some piece) : ∃ rest, rest ≠ [] ∧ cs = piece ++ sep :: rest := by
  obtain ⟨⟨before, after⟩, hfirst, hpiece⟩ := Option.bind_eq_some_iff.mp h
  obtain ⟨hne, hopen, passed, hpassed, hcs⟩ := append_of_cutFirst hfirst
  rw [List.append_nil] at hpassed
  subst hpassed
  dsimp only [beforeSeparator?] at hpiece
  split at hpiece
  · next front back hequals =>
    split at hpiece
    · obtain rfl := Option.some.inj hpiece
      obtain ⟨-, -, passed', rfl, rfl⟩ := append_of_cutFirst hequals
      obtain ⟨skipped, hskipped⟩ := append_cutLast (c := sep) hne hopen passed'
      refine ⟨skipped.reverse ++ '=' :: back, by simp, ?_⟩
      have hreverse := congrArg List.reverse hskipped
      calc cs = (passed' ++ sep :: before).reverse ++ '=' :: back := by simp [hcs]
        _ = _ := by
          rw [hreverse]
          simp
    · cases hpiece
  · cases hpiece

/-- What comes first of a text: all of it, or what stands before a separator that something follows. -/
theorem append_of_nextAssertion (cs : List Char) :
    nextAssertion cs = (cs, none) ∨ ∃ piece sep rest, nextAssertion cs = (piece, some sep) ∧
      IsSeparator (some sep) ∧ rest ≠ [] ∧ cs = piece ++ sep :: rest := by
  unfold nextAssertion
  split
  · next piece hplus =>
    split at hplus
    · obtain ⟨rest, hne, hcs⟩ := append_of_upTo? hplus
      exact .inr ⟨piece, '+', rest, rfl, .inr rfl, hne, hcs⟩
    · cases hplus
  · split
    · next piece hcomma =>
      obtain ⟨rest, hne, hcs⟩ := append_of_upTo? hcomma
      exact .inr ⟨piece, ',', rest, rfl, .inl rfl, hne, hcs⟩
    · exact .inl rfl

/-- Pieces with the separators after them. -/
def unsplit (pieces : List (List Char × Option Char)) : List Char :=
  pieces.flatMap fun piece => piece.1 ++ piece.2.toList

theorem unsplit_cons (piece : List Char) (sep : Option Char) (pieces : List (List Char × Option Char)) :
    unsplit ((piece, sep) :: pieces) = piece ++ (sep.toList ++ unsplit pieces) := by
  rw [unsplit, List.flatMap_cons, List.append_assoc, unsplit]

/-- Splitting loses nothing, and leaves a separator between each two pieces. -/
theorem unsplit_split (cs : List Char) :
    unsplit (split cs) = cs ∧ SeparatorsFit ((split cs).map Prod.snd) := by
  fun_induction split cs with
  | case1 cs hempty =>
    rw [List.isEmpty_iff] at hempty
    subst hempty
    exact ⟨rfl, trivial⟩
  | case2 cs hempty next ih =>
    obtain ⟨happend, hfit⟩ := ih
    rcases append_of_nextAssertion cs with hnext | ⟨piece, sep, rest, hnext, hsep, hrest, hcs⟩
    -- All of the text came first, and nothing is left to split.
    · have hnone : split (cs.drop (next.1.length + 1)) = [] := by
        simp only [next, hnext]
        rw [List.drop_eq_nil_of_le (Nat.le_succ _), split]
        rfl
      rw [hnone]
      simp only [next, hnext, unsplit_cons]
      exact ⟨by simp [unsplit], rfl⟩
    · have hdrop : cs.drop (next.1.length + 1) = rest := by
        simp only [next, hnext, hcs]
        simp
      rw [hdrop] at happend hfit ⊢
      have hne : (split rest).map Prod.snd ≠ [] := by
        rw [split_ne_nil hrest]
        exact List.cons_ne_nil _ _
      simp only [next, hnext, unsplit_cons, happend, List.map_cons]
      exact ⟨by simp [hcs], (separatorsFit_cons_iff hne).mpr ⟨hsep, hfit⟩⟩

theorem unsplit_append (pieces pieces' : List (List Char × Option Char)) :
    unsplit (pieces ++ pieces') = unsplit pieces ++ unsplit pieces' :=
  List.flatMap_append

/-- A piece that is attached comes first, or is part of what comes first then. -/
theorem attach_eq_cons (done : List (List Char × Option Char)) (next : List Char × Option Char) :
    ∃ first rest, attach done next = first :: rest ∧ first.2 = next.2 ∧ (∀ d ∈ rest, d ∈ done) ∧
      unsplit (first :: rest).reverse = unsplit done.reverse ++ unsplit [next] := by
  cases done with
  | nil => exact ⟨next, [], rfl, rfl, nofun, by simp [unsplit]⟩
  | cons last done =>
    rw [attach]
    split
    · exact ⟨next, last :: done, rfl, rfl, fun d hd => hd, by simp [unsplit]⟩
    · exact ⟨_, done, rfl, rfl, fun d hd => List.mem_cons_of_mem _ hd, by simp [unsplit]⟩

/-- Attaching pieces keeps what they hold, and leaves a separator between each two. -/
theorem unsplit_foldl_attach (hpieces : pieces ≠ []) (hdone : ∀ d ∈ done, IsSeparator d.2)
    (hfit : SeparatorsFit (pieces.map Prod.snd)) :
    unsplit (pieces.foldl attach done).reverse = unsplit done.reverse ++ unsplit pieces ∧
      SeparatorsFit ((pieces.foldl attach done).reverse.map Prod.snd) := by
  induction pieces generalizing done with
  | nil => exact absurd rfl hpieces
  | cons next pieces ih =>
    -- One piece at a time: whether it is attached or comes by itself, the text so far grows by it.
    obtain ⟨first, rest, hattach, hsep, hrest, hunsplit⟩ := attach_eq_cons done next
    rw [List.foldl_cons, hattach]
    by_cases hlast : pieces = []
    · subst hlast
      refine ⟨hunsplit, ?_⟩
      rw [List.foldl_nil, List.reverse_cons, List.map_append, List.map_singleton,
        separatorsFit_append_singleton_iff]
      refine ⟨?_, hsep.trans hfit⟩
      intro sep hmem
      obtain ⟨d, hd, rfl⟩ := List.mem_map.mp hmem
      exact hdone d (hrest d (List.mem_reverse.mp hd))
    · rw [List.map_cons, separatorsFit_cons_iff (by simpa using hlast)] at hfit
      have hfirst : ∀ d ∈ first :: rest, IsSeparator d.2 :=
        List.forall_mem_cons.mpr ⟨hsep ▸ hfit.1, fun d hd => hdone d (hrest d hd)⟩
      obtain ⟨hfold, hseparators⟩ := ih hlast hfirst hfit.2
      refine ⟨?_, hseparators⟩
      rw [hfold, hunsplit, List.append_assoc, ← unsplit_append, List.singleton_append]

/-- A type and a value that were found make up the text, with an equals sign between them. -/
theorem append_of_typeAndValue {whole type value : List Char}
    (h : typeAndValue whole before cs = (type, value)) (htype : type ≠ []) :
    before.reverse ++ cs = type ++ '=' :: value := by
  induction cs generalizing before with
  | nil =>
    cases h
    exact absurd rfl htype
  | cons c cs ih =>
    unfold typeAndValue at h
    split at h
    · next hequals =>
      obtain rfl := eq_of_beq hequals
      split at h
      · cases h
        exact absurd rfl htype
      · next d _ =>
        split at h
        · simpa using ih h
        · cases h
          rfl
    · simpa using ih h

/-- What is checked with success is sound, and is all of its piece. -/
theorem assertion_ok {piece : List Char × Option Char} (h : assertion piece = .ok a) :
    a.IsSound ∧ piece = (a.written, a.separator) := by
  obtain ⟨cs, sep⟩ := piece
  rcases hcut : typeAndValue cs [] cs with ⟨type, value⟩
  simp only [assertion, hcut] at h
  cases htype : checkType type with
  | error e =>
    rw [htype] at h
    cases h
  | ok _ =>
    rw [htype] at h
    cases hvalue : checkValue cs value with
    | error e =>
      rw [hvalue] at h
      cases h
    | ok _ =>
      rw [hvalue] at h
      cases h
      -- Both checks have passed, and the search for the equals sign took nothing away.
      have hcs : cs = type ++ '=' :: value :=
        append_of_typeAndValue hcut (isTypeText_of_checkType htype).nonempty
      refine ⟨⟨?type, ?value⟩, ?written⟩
      case type => simpa using htype
      case value =>
        intro whole
        rw [String.toList_ofList]
        exact (checkValue_eq_ok_iff whole).mpr ((checkValue_eq_ok_iff cs).mp hvalue)
      case written => simp [Assertion.written, hcs]

/-- Where all checks succeed, all pieces are sound and nothing of them is lost. -/
theorem mapM_assertion_ok (h : pieces.mapM assertion = .ok as) :
    (∀ a ∈ as, a.IsSound) ∧ pieces = as.map fun a => (a.written, a.separator) := by
  induction pieces generalizing as with
  | nil =>
    cases h
    exact ⟨nofun, rfl⟩
  | cons piece pieces ih =>
    rw [List.mapM_cons] at h
    cases hpiece : assertion piece with
    | error e =>
      rw [hpiece] at h
      cases h
    | ok a =>
      rw [hpiece] at h
      cases hpieces : pieces.mapM assertion with
      | error e =>
        rw [hpieces] at h
        cases h
      | ok as =>
        rw [hpieces] at h
        cases h
        obtain ⟨ha, rfl⟩ := assertion_ok hpiece
        obtain ⟨has, rfl⟩ := ih hpieces
        exact ⟨List.forall_mem_cons.mpr ⟨ha, has⟩, rfl⟩

/-- Whatever is read may be. -/
theorem isWritten_of_assertions {text : String} (h : assertions text = .ok as) :
    text.toList = written as ∧ IsWritten as := by
  rw [assertions] at h
  cases hread : ((split text.toList).foldl attach []).reverse.mapM assertion with
  | error e =>
    rw [hread] at h
    cases h
  | ok as' =>
    rw [hread] at h
    cases as' with
    | nil => cases h
    | cons a as' =>
      cases h
      obtain ⟨hsound, hpieces⟩ := mapM_assertion_ok hread
      obtain ⟨hsplit, hfit⟩ := unsplit_split text.toList
      have hne : split text.toList ≠ [] := by
        intro hnil
        rw [hnil] at hpieces
        cases hpieces
      have hnone : ∀ d ∈ ([] : List (List Char × Option Char)), IsSeparator d.2 := nofun
      obtain ⟨hunsplit, hseparators⟩ := unsplit_foldl_attach hne hnone hfit
      rw [hpieces] at hunsplit hseparators
      refine ⟨?_, List.cons_ne_nil _ _, hsound, by simpa [Function.comp_def] using hseparators⟩
      rw [hsplit] at hunsplit
      calc text.toList = unsplit ((a :: as').map fun a => (a.written, a.separator)) := hunsplit.symm
        _ = written (a :: as') := List.flatMap_map _ _ _

end Accepted

/-- Reading takes apart exactly the texts in which sound assignments stand between separators. -/
theorem assertions_eq_ok_iff {text : String} {as : List Assertion} :
    assertions text = .ok as ↔ text.toList = written as ∧ IsWritten as := by
  constructor
  · exact isWritten_of_assertions
  · rintro ⟨htext, has⟩
    rw [← assertions_written has, ← htext, String.ofList_toList]

end NamingDirectory.Dn
