import NamingDirectory.Name.Reading
import NamingDirectory.Proofs.Dn.Assertions
import NamingDirectory.Proofs.Ldap.Cutting

/-!
# Relative names and segments

Two readers take a distinguished name apart. `assertions` checks it, and the assignments that it finds make up
the relative names of the text: a comma ends a relative name, and a plus sign does not (`relativeNames`). The
segments come from the other reader, `components`, which goes through the text once more with a single flag
for escapes, and takes blanks away.

The flag goes down only at a character other than a backslash or a space. So after an escaped backslash or an
escaped space it is still up, and a comma that comes then is passed over: the relative name runs into the next
one (`fuse`). `read_dn_iff` says what the segments are in every case, and `segments_eq_relativeNames_iff` when
they are the relative names.

From a text to its segments there are two steps, and what each of them may change is said by itself:

    relative names  ──fuse──▶  what the search for commas finds  ──tidy──▶  segments

Relative names that run together are the same text still, with commas between them (`fuse_spec`), while
tidying that changes anything makes the text shorter (`map_tidy_eq_self`). So neither makes up for the other,
and the segments are the relative names only if both change nothing (`map_tidy_fuse_eq_self_iff`).

In the text `cn=a\\,ou=b` the comma ends a relative name, since the backslash before it is itself escaped. The
flag is still up there, so there is one segment and not two (`escaped_backslash_hides_comma`):

    assertions:    cn=a\\   ou=b
    components:    cn=a\\,ou=b

With a blank before the comma, other than a space, the flag goes down in time. Then the blank is lost.
-/

namespace NamingDirectory.Dn

/-! ### Relative names

The relative names of checked assignments. A relative name is readable by itself, and no comma in it is
without a backslash before it. Both hold of one sound assignment, and go over to several with plus signs in
between. -/

/-- The relative names of assignments: those that a plus sign separates belong together. -/
def relativeNames : List Assertion → List (List Char)
  | [] => []
  | a :: as =>
    match a.separator, relativeNames as with
    | some '+', r :: rs => (a.written ++ '+' :: r) :: rs
    | _, rs => a.written :: rs

/-- Whether a text may be read as a distinguished name. -/
def IsReadable (cs : List Char) : Prop := ∃ as, IsWritten as ∧ written as = cs

structure IsRelativeName (cs : List Char) : Prop where
  readable : IsReadable cs
  closed : isClosed cs

section Relative

variable {a b : Assertion} {as : List Assertion} {c : Char} {cs ds : List Char}

/-- A plus sign after an assignment joins it to the relative name that comes next. -/
theorem relativeNames_plus (ha : a.separator = some '+') {r : List Char} {rs : List (List Char)}
    (h : relativeNames as = r :: rs) : relativeNames (a :: as) = (a.written ++ '+' :: r) :: rs := by
  rw [relativeNames, ha, h]
  rfl

/-- A comma after an assignment, or the end of the text, ends a relative name. -/
theorem relativeNames_comma (ha : a.separator ≠ some '+') :
    relativeNames (a :: as) = a.written :: relativeNames as := by
  rw [relativeNames]
  split
  · next hplus _ => exact absurd hplus ha
  · rfl

theorem isReadable_written (ha : a.IsSound) : IsReadable a.written :=
  ⟨[{ a with separator := none }], isWritten_singleton_iff.mpr ⟨⟨ha.type, ha.value⟩, rfl⟩, by
    simp [written, Assertion.written]⟩

/-- A separator between readable texts makes a readable text. -/
theorem IsReadable.append (hcs : IsReadable cs) (hds : IsReadable ds) {sep : Char}
    (hsep : IsSeparator (some sep)) : IsReadable (cs ++ sep :: ds) := by
  obtain ⟨as, has, rfl⟩ := hcs
  obtain ⟨bs, hbs, rfl⟩ := hds
  induction as with
  | nil => exact absurd rfl has.nonempty
  | cons a as ih =>
    cases as with
    | nil =>
      obtain ⟨ha, hnone⟩ := isWritten_singleton_iff.mp has
      obtain ⟨b, bs, rfl⟩ := List.exists_cons_of_ne_nil hbs.nonempty
      refine ⟨{ a with separator := some sep } :: b :: bs, ?_, ?_⟩
      · exact isWritten_cons_cons_iff.mpr ⟨⟨ha.type, ha.value⟩, hsep, hbs⟩
      · rw [written_cons, written_cons a, hnone]
        simp [written, Assertion.written]
    | cons b as =>
      obtain ⟨ha, hsep', hrest⟩ := isWritten_cons_cons_iff.mp has
      obtain ⟨ds, hds, happend⟩ := ih hrest
      obtain ⟨d, ds, rfl⟩ := List.exists_cons_of_ne_nil hds.nonempty
      refine ⟨a :: d :: ds, isWritten_cons_cons_iff.mpr ⟨ha, hsep', hds⟩, ?_⟩
      rw [written_cons, happend, written_cons a]
      simp only [List.append_assoc]

/-- A readable text starts with a type and an equals sign. -/
theorem IsReadable.type_value (h : IsReadable cs) :
    ∃ type value, cs = type ++ '=' :: value ∧ IsTypeText type := by
  obtain ⟨as, has, rfl⟩ := h
  obtain ⟨a, as, rfl⟩ := List.exists_cons_of_ne_nil has.nonempty
  refine ⟨a.type.toList, a.value.toList ++ (a.separator.toList ++ written as), ?_, ?_⟩
  · rw [written_cons, Assertion.written_append]
  · exact isTypeText_of_checkType (has.sound a List.mem_cons_self).type

/-- A value that passes the check is closed, and so is the rest of one after a backslash. -/
theorem isClosed_of_checkEscapes {state : Escape} (h : checkEscapes state cs = .ok ()) :
    isClosed (if state = .started then '\\' :: cs else cs) := by
  -- Inside an escape its backslash is put back in front, since a closed text passes over the two together.
  induction cs generalizing state with
  | nil =>
    cases eq_none_of_checkEscapes_nil h
    rfl
  | cons c cs ih =>
    obtain ⟨next, hpasses, hnext⟩ := checkEscapes_cons h
    have hcs := ih hnext
    have hplain : c ≠ '\\' → ¬ isSpecial c → isClosed cs → isClosed (c :: cs) := by
      intro hc hspecial hclosed
      have hcomma : c ≠ ',' := by
        rintro rfl
        exact hspecial (by decide)
      rw [isClosed_cons hc, hclosed, Bool.and_true]
      exact bne_iff_ne.mpr hcomma
    cases hpasses with
    | backslash => exact hcs
    | plain hc hspecial => exact hplain hc hspecial hcs
    | digit _ => exact hcs
    | escaped _ => exact hcs
    | second hdigit => exact hplain (ne_of_isHexDigit hdigit).1 (ne_of_isHexDigit hdigit).2.2 hcs

theorem isClosed_written (ha : a.IsSound) : isClosed a.written := by
  have htype : isClosed (a.type.toList ++ ['=']) := by
    refine isClosed_of_forall fun c hc => ?_
    rcases List.mem_append.mp hc with hc | hc
    · obtain ⟨hbackslash, -, hcomma, -⟩ := (isTypeText_of_checkType ha.type).plain c hc
      exact ⟨hbackslash, hcomma⟩
    · rw [List.mem_singleton.mp hc]
      decide
  obtain ⟨-, -, -, -, hvalue⟩ := (checkValue_eq_ok_iff []).mp (ha.value [])
  have hwritten : a.written = a.type.toList ++ ['='] ++ a.value.toList := by simp [Assertion.written]
  rw [hwritten, isClosed_append htype]
  exact isClosed_of_checkEscapes hvalue

theorem isRelativeName_written (ha : a.IsSound) : IsRelativeName a.written :=
  ⟨isReadable_written ha, isClosed_written ha⟩

theorem IsRelativeName.plus (hcs : IsRelativeName cs) (hds : IsRelativeName ds) :
    IsRelativeName (cs ++ '+' :: ds) := by
  refine ⟨hcs.readable.append hds.readable (.inr rfl), ?_⟩
  rw [isClosed_append hcs.closed, isClosed_cons (by decide), hds.closed]
  rfl

/-- What stands before the first of joined texts stands before all of them. -/
theorem joined_append_cons (cs : List Char) (c : Char) (r : List Char) (rs : List (List Char)) :
    joined ((cs ++ c :: r) :: rs) = cs ++ c :: joined (r :: rs) := by
  cases rs with
  | nil => simp [joined]
  | cons r' rs => simp [joined_cons (List.cons_ne_nil r' rs)]

/-- The relative names of what is read make up the text, with commas between them. -/
theorem relativeNames_spec (h : IsWritten as) :
    relativeNames as ≠ [] ∧ joined (relativeNames as) = written as ∧
      ∀ r ∈ relativeNames as, IsRelativeName r := by
  induction as with
  | nil => exact absurd rfl h.nonempty
  | cons a as ih =>
    cases as with
    | nil =>
      obtain ⟨ha, hnone⟩ := isWritten_singleton_iff.mp h
      have hplus : a.separator ≠ some '+' := by simp [hnone]
      rw [relativeNames_comma hplus, relativeNames, List.forall_mem_singleton]
      exact ⟨List.cons_ne_nil _ _, by simp [joined, written, hnone], isRelativeName_written ha⟩
    | cons b as =>
      obtain ⟨ha, hsep, hrest⟩ := isWritten_cons_cons_iff.mp h
      obtain ⟨hne, hjoined, hall⟩ := ih hrest
      rcases hsep with hcomma | hplus
      · rw [relativeNames_comma (by simp [hcomma]), joined_cons hne, hjoined, written_cons a, hcomma]
        exact ⟨List.cons_ne_nil _ _, rfl, List.forall_mem_cons.mpr ⟨isRelativeName_written ha, hall⟩⟩
      · obtain ⟨r, rs, hrs⟩ := List.exists_cons_of_ne_nil hne
        rw [hrs] at hjoined hall
        obtain ⟨hr, hrest'⟩ := List.forall_mem_cons.mp hall
        rw [relativeNames_plus hplus hrs, written_cons a, hplus, ← hjoined]
        refine ⟨List.cons_ne_nil _ _, ?_, ?_⟩
        · exact joined_append_cons a.written '+' r rs
        · exact List.forall_mem_cons.mpr ⟨(isRelativeName_written ha).plus hr, hrest'⟩

end Relative

/-! ### The search for commas

The search goes through a text with its flag, and `pending` is the flag at the end. As long as every comma is
met with the flag up (`Guarded`), nothing is cut, and an equals sign in each piece makes sure that the next
comma is one to cut at. -/

/-- Whether the flag of the search is up after a character. -/
def stillEscaped (escape : Bool) (c : Char) : Bool := c == '\\' || escape && c == ' '

/-- Whether the flag of the search is up after a text: then a comma that comes next is passed over. -/
def pending (escape : Bool) (cs : List Char) : Bool := cs.foldl stillEscaped escape

/-- Whether the search passes over every comma of a text. -/
def Guarded : Bool → List Char → Prop
  | _, [] => True
  | escape, c :: cs => (c = ',' → escape) ∧ Guarded (stillEscaped escape c) cs

section Search

variable {c : Char} {cs ds : List Char} {escape : Bool} {ps : List (List Char)}

/-- One step of the search, with the equals sign that it wants before a comma. -/
theorem cutComponents_cons (escape : Bool) (piece : List Char) (c : Char) (cs : List Char) :
    cutComponents escape piece (c :: cs) =
      if c = ',' ∧ escape = false ∧ '=' ∈ piece then piece.reverse :: cutComponents false [] cs
      else cutComponents (stillEscaped escape c) (c :: piece) cs := by
  rw [cutComponents]
  by_cases hbackslash : c = '\\'
  · simp [hbackslash, stillEscaped]
  cases escape with
  | true =>
    by_cases hspace : c = ' '
    · simp [hspace, stillEscaped]
    · have hdown : stillEscaped true c = false := by simp [hbackslash, hspace, stillEscaped]
      simp [hbackslash, hspace, hdown]
  | false =>
    by_cases hcomma : c = ','
    · simp [hcomma, stillEscaped]
    · have hdown : stillEscaped false c = false := by simp [hbackslash, stillEscaped]
      simp [hbackslash, hcomma, hdown]

theorem pending_append (escape : Bool) (cs ds : List Char) :
    pending escape (cs ++ ds) = pending (pending escape cs) ds :=
  List.foldl_append

/-- A comma takes the flag down, so that what comes after it does not depend on what came before. -/
theorem pending_comma (escape : Bool) (cs ds : List Char) :
    pending escape (cs ++ ',' :: ds) = pending false ds := by
  rw [pending_append]
  cases h : pending escape cs <;> rfl

/-- Every comma of two texts is passed over just if those of the first are, and those of the second with the
flag that the first one leaves. -/
theorem guarded_append_iff :
    Guarded escape (cs ++ ds) ↔ Guarded escape cs ∧ Guarded (pending escape cs) ds := by
  induction cs generalizing escape with
  | nil => exact (and_iff_right trivial).symm
  | cons c cs ih =>
    rw [List.cons_append, Guarded, ih, Guarded, and_assoc]
    rfl

/-- The flag is up wherever a comma is escaped. -/
theorem guarded_of_isClosed (h : isClosed cs) (escape : Bool) : Guarded escape cs := by
  fun_induction isClosed cs generalizing escape with
  | case1 => trivial
  | case2 => cases h
  | case3 c cs ih =>
    exact ⟨fun hcomma => absurd hcomma (by decide), fun _ => by simp [stillEscaped], ih h _⟩
  | case4 c cs _ _ ih =>
    rw [Bool.and_eq_true, bne_iff_ne] at h
    exact ⟨fun hcomma => absurd hcomma h.1, ih h.2 _⟩

/-- The search goes through a guarded text without a cut. -/
theorem cutComponents_append (h : Guarded escape cs) (piece ds : List Char) :
    cutComponents escape piece (cs ++ ds) = cutComponents (pending escape cs) (cs.reverse ++ piece) ds := by
  induction cs generalizing escape piece with
  | nil => rfl
  | cons c cs ih =>
    obtain ⟨hc, hcs⟩ := h
    have hpassed : ¬ (c = ',' ∧ escape = false ∧ '=' ∈ piece) := by
      rintro ⟨hcomma, hdown, -⟩
      rw [hc hcomma] at hdown
      cases hdown
    rw [List.cons_append, cutComponents_cons, if_neg hpassed, ih hcs, List.reverse_cons, List.append_assoc]
    rfl

/-- A text that the search goes through in one piece. -/
structure IsPiece (cs : List Char) : Prop where
  readable : IsReadable cs
  guarded : Guarded false cs

/-- In a relative name each comma comes right after a backslash. -/
theorem IsRelativeName.isPiece (h : IsRelativeName cs) : IsPiece cs :=
  ⟨h.readable, guarded_of_isClosed h.closed false⟩

theorem IsPiece.mem_equals (h : IsPiece cs) : '=' ∈ cs := by
  obtain ⟨type, value, rfl, -⟩ := h.readable.type_value
  simp

/-- Two pieces make one if the first of them leaves the flag up. -/
theorem IsPiece.comma (hcs : IsPiece cs) (hds : IsPiece ds) (h : pending false cs) :
    IsPiece (cs ++ ',' :: ds) where
  readable := hcs.readable.append hds.readable (.inl rfl)
  guarded := by
    rw [guarded_append_iff, Guarded]
    exact ⟨hcs.guarded, fun _ => h, by rw [h]; exact hds.guarded⟩

/-- Pieces that leave no flag up are found again. -/
theorem cutComponents_joined (hne : ps ≠ []) (hps : ∀ p ∈ ps, IsPiece p)
    (hdone : ∀ p ∈ ps.dropLast, pending false p = false) : cutComponents false [] (joined ps) = ps := by
  induction ps with
  | nil => exact absurd rfl hne
  | cons p ps ih =>
    obtain ⟨hp, hps⟩ := List.forall_mem_cons.mp hps
    by_cases hlast : ps = []
    · subst hlast
      have hcut := cutComponents_append hp.guarded [] []
      simpa [joined, cutComponents] using hcut
    · rw [List.dropLast_cons_of_ne_nil hlast] at hdone
      obtain ⟨hopen, hdone⟩ := List.forall_mem_cons.mp hdone
      rw [joined_cons hlast, cutComponents_append hp.guarded, hopen, cutComponents_cons, List.append_nil,
        if_pos ⟨rfl, rfl, List.mem_reverse.mpr hp.mem_equals⟩, List.reverse_reverse, ih hlast hps hdone]

end Search

/-! ### Relative names that run together

`fuse` is the effect of the flag on relative names, said without a search: a text that leaves the flag up
takes the comma and the next text with it. What comes of it is the same text when it is joined again. -/

/-- Runs each text that leaves the flag up together with what comes next. -/
def fuse : List (List Char) → List (List Char)
  | [] => []
  | r :: rs =>
    match fuse rs with
    | f :: fs => if pending false r then (r ++ ',' :: f) :: fs else r :: f :: fs
    | [] => [r]

section Fusing

variable {r f : List Char} {rs fs : List (List Char)}

theorem fuse_cons (h : fuse rs = f :: fs) :
    fuse (r :: rs) = if pending false r then (r ++ ',' :: f) :: fs else r :: f :: fs := by
  rw [fuse, h]

theorem fuse_ne_nil (h : rs ≠ []) : fuse rs ≠ [] := by
  obtain ⟨r, rs, rfl⟩ := List.exists_cons_of_ne_nil h
  rw [fuse]
  split
  · split <;> exact List.cons_ne_nil _ _
  · exact List.cons_ne_nil _ _

/-- Texts that run together are the same text with commas between them, in pieces that leave no flag up. -/
theorem fuse_spec (h : ∀ r ∈ rs, IsPiece r) :
    joined (fuse rs) = joined rs ∧ (∀ f ∈ fuse rs, IsPiece f) ∧
      ∀ f ∈ (fuse rs).dropLast, pending false f = false := by
  induction rs with
  | nil => exact ⟨rfl, nofun, nofun⟩
  | cons r rs ih =>
    obtain ⟨hr, hrs⟩ := List.forall_mem_cons.mp h
    by_cases hlast : rs = []
    · subst hlast
      exact ⟨rfl, List.forall_mem_singleton.mpr hr, nofun⟩
    · obtain ⟨hjoined, hpieces, hdone⟩ := ih hrs
      obtain ⟨f, fs, hfuse⟩ := List.exists_cons_of_ne_nil (fuse_ne_nil hlast)
      rw [hfuse] at hjoined hpieces hdone
      obtain ⟨hf, hfs⟩ := List.forall_mem_cons.mp hpieces
      rw [fuse_cons hfuse, joined_cons hlast, ← hjoined]
      split
      · next hpending =>
        -- The flag is up, so the comma is passed over and the text runs together with the next one.
        refine ⟨joined_append_cons r ',' f fs, List.forall_mem_cons.mpr ⟨hr.comma hf hpending, hfs⟩, ?_⟩
        by_cases hnil : fs = []
        · simp [hnil]
        · rw [List.dropLast_cons_of_ne_nil hnil, List.forall_mem_cons] at hdone ⊢
          exact ⟨(pending_comma false r f).trans hdone.1, hdone.2⟩
      · next hpending =>
        -- The flag is down, so there is a cut.
        refine ⟨joined_cons (List.cons_ne_nil f fs), List.forall_mem_cons.mpr ⟨hr, hpieces⟩, ?_⟩
        rw [List.dropLast_cons_of_ne_nil (List.cons_ne_nil f fs), List.forall_mem_cons]
        exact ⟨by simpa using hpending, hdone⟩

theorem fuse_eq_self (h : ∀ r ∈ rs.dropLast, pending false r = false) : fuse rs = rs := by
  induction rs with
  | nil => rfl
  | cons r rs ih =>
    cases rs with
    | nil => rfl
    | cons r' rs =>
      obtain ⟨hr, hrs⟩ := List.forall_mem_cons.mp h
      rw [fuse_cons (ih hrs), hr, if_neg Bool.false_ne_true]

/-- Nothing runs together just if no text but the last leaves the flag up, as is so of what `fuse` gives. -/
theorem fuse_eq_self_iff (h : ∀ r ∈ rs, IsPiece r) :
    fuse rs = rs ↔ ∀ r ∈ rs.dropLast, pending false r = false := by
  constructor
  · intro hself
    have hdone := (fuse_spec h).2.2
    rwa [hself] at hdone
  · exact fuse_eq_self

end Fusing

/-! ### Blanks

Tidying takes blanks away after the first equals sign and at the end, and nowhere else, as a type has none. A
readable text that is tidied is readable still, and what tidying takes away makes it shorter; that is all that
has to be known to tell when nothing is taken away from many texts. -/

/-- Whether no blank comes right after the first equals sign of a text, nor at its end. -/
def IsBare (cs : List Char) : Prop :=
  Text.trim ((cs.dropWhile (· != '=')).drop 1) = (cs.dropWhile (· != '=')).drop 1

section Blanks

variable {c : Char} {cs type value : List Char} {ps : List (List Char)}

theorem dropWhile_type (h : IsTypeText type) (value : List Char) :
    (type ++ '=' :: value).dropWhile (· != '=') = '=' :: value := by
  rw [List.dropWhile_append_of_pos fun c hc => bne_iff_ne.mpr (h.plain c hc).2.1]
  rfl

theorem isBare_iff (h : IsTypeText type) (value : List Char) :
    IsBare (type ++ '=' :: value) ↔ Text.trim value = value := by
  rw [IsBare, dropWhile_type h]
  rfl

theorem IsTypeText.trim_eq (h : IsTypeText type) : Text.trim type = type :=
  Text.trim_eq_self (fun c hc => h.unblank c (List.mem_of_mem_head? hc)) fun c hc =>
    h.unblank c (List.mem_of_getLast? hc)

theorem tidy_append (h : IsTypeText type) (value : List Char) :
    tidy (type ++ '=' :: value) = type ++ '=' :: Text.trim value := by
  have htake : (type ++ '=' :: value).takeWhile (· != '=') = type := by
    rw [List.takeWhile_append_of_pos fun c hc => bne_iff_ne.mpr (h.plain c hc).2.1]
    simp
  have hempty : (type ++ '=' :: value).isEmpty = false := by simp
  simp only [tidy, htake, hempty, h.trim_eq, Bool.false_eq_true, if_false]
  simp

/-- A readable text is left as it is just if there is nothing to trim. -/
theorem tidy_eq_self_iff (h : IsReadable cs) : tidy cs = cs ↔ IsBare cs := by
  obtain ⟨type, value, rfl, htype⟩ := h.type_value
  rw [tidy_append htype, isBare_iff htype]
  simp

theorem length_tidy_le (h : IsReadable cs) : tidy cs = cs ∨ (tidy cs).length < cs.length := by
  obtain ⟨type, value, rfl, htype⟩ := h.type_value
  obtain ⟨front, back, -, -, happend⟩ := Text.trim_append value
  have hlength := congrArg List.length happend
  rw [tidy_append htype]
  by_cases hlt : (Text.trim value).length < value.length
  · exact .inr (by simpa using hlt)
  · left
    simp only [List.length_append] at hlength
    have hfront : front = [] := List.length_eq_zero_iff.mp (by omega)
    have hback : back = [] := List.length_eq_zero_iff.mp (by omega)
    subst hfront hback
    rw [List.nil_append, List.append_nil] at happend
    rw [happend]

/-- Tidying that does not make a text shorter changes nothing. -/
theorem map_tidy_eq_self (h : ∀ p ∈ ps, IsReadable p) :
    ps.map tidy = ps ∨ (joined (ps.map tidy)).length < (joined ps).length := by
  induction ps with
  | nil => exact .inl rfl
  | cons p ps ih =>
    obtain ⟨hp, hps⟩ := List.forall_mem_cons.mp h
    rw [List.map_cons]
    by_cases hlast : ps = []
    · subst hlast
      simpa [joined] using length_tidy_le hp
    · rw [joined_cons hlast, joined_cons (by simpa using hlast)]
      simp only [List.length_append, List.length_cons]
      rcases length_tidy_le hp with hself | hlt
      · rw [hself]
        rcases ih hps with hself' | hlt'
        · exact .inl (by rw [hself'])
        · exact .inr (by omega)
      · rcases ih hps with hself' | hlt'
        · exact .inr (by rw [hself']; omega)
        · exact .inr (by omega)

/-- A piece that was tidied: it has no blank at its ends. -/
structure IsTidy (cs : List Char) : Prop where
  bare : IsBare cs
  typed : ∃ type value, cs = type ++ '=' :: value ∧ IsTypeText type

theorem isTidy_tidy (h : IsReadable cs) : IsTidy (tidy cs) := by
  obtain ⟨type, value, rfl, htype⟩ := h.type_value
  rw [tidy_append htype]
  exact ⟨(isBare_iff htype _).mpr (Text.trim_trim value), type, _, rfl, htype⟩

theorem IsTidy.ne_nil (h : IsTidy cs) : cs ≠ [] := by
  obtain ⟨-, type, value, rfl, -⟩ := h
  simp

theorem IsTidy.head? (h : IsTidy cs) (hc : cs.head? = some c) : ¬ Text.isBlank c := by
  obtain ⟨-, type, value, rfl, htype⟩ := h
  obtain ⟨d, type, rfl⟩ := List.exists_cons_of_ne_nil htype.nonempty
  obtain rfl := Option.some.inj hc
  exact htype.unblank d List.mem_cons_self

theorem IsTidy.getLast? (h : IsTidy cs) (hc : cs.getLast? = some c) : ¬ Text.isBlank c := by
  obtain ⟨hbare, type, value, rfl, htype⟩ := h
  rw [isBare_iff htype] at hbare
  rw [List.getLast?_append, List.getLast?_cons] at hc
  cases hvalue : value.getLast? with
  | none =>
    rw [hvalue] at hc
    obtain rfl := Option.some.inj hc
    decide
  | some d =>
    rw [hvalue] at hc
    obtain rfl := Option.some.inj hc
    rw [← hbare] at hvalue
    exact Text.not_isBlank_of_getLast?_trim value hvalue

/-- Where the flag is up at the end of a text, a backslash or a space was the last character. -/
theorem getLast?_of_pending {escape : Bool} (h : pending escape cs) (hne : cs ≠ []) :
    cs.getLast? = some '\\' ∨ cs.getLast? = some ' ' := by
  obtain ⟨front, last, rfl⟩ := (List.eq_nil_or_concat cs).resolve_left hne
  rw [List.concat_eq_append] at h ⊢
  rw [pending_append] at h
  have hlast : stillEscaped (pending escape front) last := h
  simp only [stillEscaped, Bool.or_eq_true, Bool.and_eq_true, beq_iff_eq] at hlast
  rw [List.getLast?_concat, Option.some.injEq, Option.some.injEq]
  exact hlast.imp_right And.right

theorem pending_of_getLast? (h : cs.getLast? = some '\\') (escape : Bool) : pending escape cs := by
  obtain ⟨front, rfl⟩ := List.getLast?_eq_some_iff.mp h
  rw [pending_append]
  rfl

/-- Without blanks at its end, a text leaves the flag up just if it ends with a backslash. -/
theorem IsTidy.pending_eq_false_iff (h : IsTidy cs) :
    pending false cs = false ↔ cs.getLast? ≠ some '\\' := by
  constructor
  · intro hdown hlast
    rw [pending_of_getLast? hlast] at hdown
    cases hdown
  · intro hlast
    rw [← Bool.not_eq_true]
    intro hup
    rcases getLast?_of_pending hup h.ne_nil with hbackslash | hspace
    · exact hlast hbackslash
    · exact h.getLast? hspace (by decide)

/-- Tidied texts have no blanks at their ends, so the text that they are joined to has none. -/
theorem trim_joined (hne : ps ≠ []) (h : ∀ p ∈ ps, IsTidy p) : Text.trim (joined ps) = joined ps := by
  apply Text.trim_eq_self
  · intro c hc
    obtain ⟨p, ps, rfl⟩ := List.exists_cons_of_ne_nil hne
    have hp := h p List.mem_cons_self
    by_cases hlast : ps = []
    · subst hlast
      exact hp.head? (by simpa [joined] using hc)
    · obtain ⟨d, p, rfl⟩ := List.exists_cons_of_ne_nil hp.ne_nil
      rw [joined_cons hlast] at hc
      exact hp.head? hc
  · intro c hc
    induction ps with
    | nil => exact absurd rfl hne
    | cons p ps ih =>
      obtain ⟨hp, hps⟩ := List.forall_mem_cons.mp h
      by_cases hlast : ps = []
      · subst hlast
        exact hp.getLast? (by simpa [joined] using hc)
      · have hrest : joined ps ≠ [] := by
          obtain ⟨p', ps, rfl⟩ := List.exists_cons_of_ne_nil hlast
          have hp' := (hps p' List.mem_cons_self).ne_nil
          cases ps with
          | nil => simpa [joined] using hp'
          | cons p'' ps => simp [joined_cons (List.cons_ne_nil p'' ps)]
        refine ih hlast hps ?_
        rw [joined_cons hlast, List.getLast?_append, List.getLast?_cons_of_ne_nil hrest] at hc
        rw [List.getLast?_eq_some_getLast hrest] at hc ⊢
        exact hc

end Blanks

/-! ### Segments

A name has the entry itself last, and a text has it first, so segments are compared from the leaf upwards. The
texts that are found are never empty, so each of them makes a segment and none is dropped. -/

/-- The segments of a name, the last one first. -/
def leafFirst (n : Name) : List (List Char) := n.segments.reverse.map fun s => s.text.toList

/-- Relative names that the search for commas finds, and that have no blanks to lose. -/
structure IsCutCleanly (rs : List (List Char)) : Prop where
  bare : ∀ r ∈ rs, IsBare r
  ends : ∀ r ∈ rs.dropLast, r.getLast? ≠ some '\\'

section Segments

variable {as : List Assertion} {text : String} {texts : List String} {n m : Name}
  {rs ps : List (List Char)}

/-- Texts that are not empty are kept as segments, all of them. -/
theorem map_text_ofText? (h : ∀ t ∈ texts, t ≠ "") :
    (texts.filterMap Segment.ofText?).map (·.text) = texts := by
  induction texts with
  | nil => rfl
  | cons t texts ih =>
    obtain ⟨ht, htexts⟩ := List.forall_mem_cons.mp h
    rw [List.filterMap_cons, Segment.ofText?, dif_pos ht]
    exact congrArg (t :: ·) (ih htexts)

theorem map_text_injective {ss ts : List Segment} (h : ss.map (·.text) = ts.map (·.text)) : ss = ts :=
  (List.map_inj_right fun _ _ => Segment.ext).mp h

theorem ofSegments?_eq_some_iff {ss : List Segment} :
    Name.ofSegments? ss = some n ↔ ss = n.segments := by
  constructor
  · intro h
    cases ss with
    | nil => cases h
    | cons s rest =>
      cases h
      rfl
  · rintro rfl
    rfl

/-- The name with given texts for segments, the last one first. -/
theorem orRefuse_ofSegments?_iff (h : ∀ t ∈ texts, t ≠ "") :
    Name.orRefuse (Name.ofSegments? (texts.reverse.filterMap Segment.ofText?)) = .ok n ↔
      leafFirst n = texts.map String.toList := by
  have htexts : (texts.reverse.filterMap Segment.ofText?).map (·.text) = texts.reverse :=
    map_text_ofText? fun t ht => h t (List.mem_reverse.mp ht)
  have hrefuse : Name.orRefuse (Name.ofSegments? (texts.reverse.filterMap Segment.ofText?)) = .ok n ↔
      Name.ofSegments? (texts.reverse.filterMap Segment.ofText?) = some n := by
    cases Name.ofSegments? (texts.reverse.filterMap Segment.ofText?) with
    | none => simp [Name.orRefuse]
    | some m => simp [Name.orRefuse]
  have hleaf : leafFirst n = (n.segments.map (·.text)).reverse.map String.toList := by
    simp [leafFirst, Function.comp_def]
  rw [hrefuse, ofSegments?_eq_some_iff, hleaf]
  constructor
  · intro hsegments
    rw [← hsegments, htexts, List.reverse_reverse]
  · intro hmap
    apply map_text_injective
    have hreverse := (List.map_inj_right fun _ _ => String.toList_inj.mp).mp hmap
    rw [htexts, ← hreverse, List.reverse_reverse]

/-- The search for commas finds the relative names, run together where the flag is left up. -/
theorem components_eq (h : IsWritten as) (htext : text.toList = written as) :
    components text = (fuse (relativeNames as)).map fun f => String.ofList (tidy f) := by
  obtain ⟨hne, hjoined, hall⟩ := relativeNames_spec h
  have hpieces : ∀ r ∈ relativeNames as, IsPiece r := fun r hr => (hall r hr).isPiece
  obtain ⟨hfused, hfpieces, hdone⟩ := fuse_spec hpieces
  rw [components, htext, ← hjoined, ← hfused, cutComponents_joined (fuse_ne_nil hne) hfpieces hdone]

/-- A text is read just if its assignments are, and then its segments are the relative names, run together
where the flag is left up, and without the blanks around them. -/
theorem read_dn_iff : Name.Grammar.dn.read text = .ok n ↔
    ∃ as, assertions (Text.trimmed text) = .ok as ∧
      leafFirst n = (fuse (relativeNames as)).map tidy := by
  have hread : ∀ as, assertions (Text.trimmed text) = .ok as →
      (Name.Grammar.dn.read text = .ok n ↔ leafFirst n = (fuse (relativeNames as)).map tidy) := by
    intro as has
    obtain ⟨htext, hwritten⟩ := assertions_eq_ok_iff.mp has
    obtain ⟨hne, hjoined, hall⟩ := relativeNames_spec hwritten
    have hpieces := (fuse_spec fun r hr => (hall r hr).isPiece).2.1
    -- There is an assignment, so there is text, and none of the components is empty.
    have hempty : (Text.trimmed text).isEmpty = false := by
      obtain ⟨a, as, rfl⟩ := List.exists_cons_of_ne_nil hwritten.nonempty
      rw [← Bool.not_eq_true, String.isEmpty_iff]
      intro hnil
      rw [hnil, written_cons] at htext
      exact a.written_ne_nil (List.append_eq_nil_iff.mp htext.symm).1
    have htexts : ∀ t ∈ components (Text.trimmed text), t ≠ "" := by
      rw [components_eq hwritten htext]
      intro t ht hnil
      obtain ⟨f, hf, rfl⟩ := List.mem_map.mp ht
      have htidy := (isTidy_tidy (hpieces f hf).readable).ne_nil
      exact htidy (by simpa using congrArg String.toList hnil)
    have hparse : Dn.parse (Text.trimmed text) =
        .ok (Name.ofSegments? ((components (Text.trimmed text)).reverse.filterMap Segment.ofText?)) := by
      rw [Dn.parse, has]
      rfl
    rw [Name.Grammar.read]
    simp only [hempty, Bool.false_eq_true, if_false, hparse]
    rw [orRefuse_ofSegments?_iff htexts, components_eq hwritten htext, List.map_map]
    simp [Function.comp_def]
  constructor
  · intro h
    cases has : assertions (Text.trimmed text) with
    | ok as => exact ⟨as, rfl, (hread as has).mp h⟩
    | error p =>
      -- Both ways in which reading can end, an empty text included, are refusals.
      have hparse : Dn.parse (Text.trimmed text) = .error p := by
        rw [Dn.parse, has]
        rfl
      simp only [Name.Grammar.read, hparse] at h
      split at h <;> cases h
  · rintro ⟨as, has, hn⟩
    exact (hread as has).mpr hn

/-- Tidying changes nothing just if there is nothing to trim anywhere. -/
theorem map_tidy_eq_self_iff (h : ∀ p ∈ ps, IsReadable p) : ps.map tidy = ps ↔ ∀ p ∈ ps, IsBare p := by
  have hmap : ps.map tidy = ps.map id ↔ ∀ p ∈ ps, tidy p = p := List.map_inj_left
  rw [List.map_id] at hmap
  rw [hmap]
  exact forall₂_congr fun p hp => tidy_eq_self_iff (h p hp)

/-- Relative names go over to segments as they are just if nothing is lost between them and around. -/
theorem map_tidy_fuse_eq_self_iff (h : ∀ r ∈ rs, IsPiece r) :
    (fuse rs).map tidy = rs ↔ IsCutCleanly rs := by
  have hreadable : ∀ r ∈ rs, IsReadable r := fun r hr => (h r hr).readable
  have hends : (∀ r ∈ rs, IsBare r) →
      (fuse rs = rs ↔ ∀ r ∈ rs.dropLast, r.getLast? ≠ some '\\') := by
    intro hbare
    rw [fuse_eq_self_iff h]
    refine forall₂_congr fun r hr => ?_
    have hmem := List.dropLast_subset rs hr
    exact IsTidy.pending_eq_false_iff ⟨hbare r hmem, (hreadable r hmem).type_value⟩
  constructor
  · intro hself
    obtain ⟨hjoined, hpieces, -⟩ := fuse_spec h
    -- Fusing keeps the whole as long as it was, so tidying that gives `rs` back has taken nothing away.
    have hfuse : fuse rs = rs := by
      rcases map_tidy_eq_self fun f hf => (hpieces f hf).readable with htidy | hlt
      · rwa [htidy] at hself
      · rw [hself, hjoined] at hlt
        exact absurd hlt (Nat.lt_irrefl _)
    rw [hfuse, map_tidy_eq_self_iff hreadable] at hself
    exact ⟨hself, (hends hself).mp hfuse⟩
  · rintro ⟨hbare, hlast⟩
    rw [(hends hbare).mpr hlast]
    exact (map_tidy_eq_self_iff hreadable).mpr hbare

/-! ### Reading segments again

Segments that are joined with commas may be read as another name, or not at all. What comes of it is decided
by the same two steps: a segment that is to stay whole must be readable by itself, and the ones before the end
must leave the flag down. -/

theorem isReadable_iff : IsReadable text.toList ↔ ∃ as, assertions text = .ok as := by
  constructor
  · rintro ⟨as, has, htext⟩
    exact ⟨as, assertions_eq_ok_iff.mpr ⟨htext.symm, has⟩⟩
  · rintro ⟨as, has⟩
    obtain ⟨htext, hwritten⟩ := assertions_eq_ok_iff.mp has
    exact ⟨as, hwritten, htext.symm⟩

theorem isReadable_joined (hne : ps ≠ []) (h : ∀ p ∈ ps, IsReadable p) : IsReadable (joined ps) := by
  induction ps with
  | nil => exact absurd rfl hne
  | cons p ps ih =>
    obtain ⟨hp, hps⟩ := List.forall_mem_cons.mp h
    by_cases hlast : ps = []
    · subst hlast
      simpa [joined] using hp
    · rw [joined_cons hlast]
      exact hp.append (ih hlast hps) (.inl rfl)

/-- Blanks that are trimmed leave no flag up: the space is one of them, but it does not put a flag up. -/
theorem pending_blanks {blanks : List Char} (h : blanks.all Text.isBlank) :
    pending false blanks = false := by
  induction blanks with
  | nil => rfl
  | cons c blanks ih =>
    rw [List.all_cons, Bool.and_eq_true] at h
    have hc : stillEscaped false c = false := by
      by_cases hbackslash : c = '\\'
      · rw [hbackslash] at h
        exact absurd h.1 (by decide)
      · simp [stillEscaped, hbackslash]
    rw [pending, List.foldl_cons, hc]
    exact ih h.2

/-- The blanks that tidying takes away leave the flag as it is. -/
theorem IsPiece.guarded_tidy {cs : List Char} (h : IsPiece cs) : Guarded false (tidy cs) := by
  obtain ⟨type, value, rfl, htype⟩ := h.readable.type_value
  obtain ⟨front, back, hfront, -, happend⟩ := Text.trim_append value
  have hequals : pending false (type ++ ['=']) = false := by
    rw [pending_append]
    cases pending false type <;> rfl
  have hsplit : type ++ '=' :: value = type ++ ['='] ++ (front ++ (Text.trim value ++ back)) := by
    rw [← List.append_assoc front, happend]
    simp
  have hguarded := h.guarded
  rw [hsplit] at hguarded
  obtain ⟨htype', hvalue⟩ := guarded_append_iff.mp hguarded
  obtain ⟨-, hrest⟩ := guarded_append_iff.mp hvalue
  rw [hequals, pending_blanks hfront] at hrest
  have htidy : tidy (type ++ '=' :: value) = type ++ ['='] ++ Text.trim value := by
    rw [tidy_append htype]
    simp
  rw [htidy, guarded_append_iff, hequals]
  exact ⟨htype', (guarded_append_iff.mp hrest).1⟩

/-- Segments read back from what they are joined to just if each may be read alone and none but the last
one written ends with a backslash. -/
theorem read_joined_iff (h : Name.Grammar.dn.read text = .ok n) :
    Name.Grammar.dn.read (String.ofList (joined (leafFirst n))) = .ok n ↔
      (∀ p ∈ leafFirst n, IsReadable p) ∧ ∀ p ∈ (leafFirst n).dropLast, p.getLast? ≠ some '\\' := by
  obtain ⟨as, has, hn⟩ := read_dn_iff.mp h
  obtain ⟨hne, -, hall⟩ := relativeNames_spec (assertions_eq_ok_iff.mp has).2
  obtain ⟨-, hpieces, -⟩ := fuse_spec fun r hr => (hall r hr).isPiece
  have hleaf : leafFirst n ≠ [] := by
    rw [hn]
    exact mt List.map_eq_nil_iff.mp (fuse_ne_nil hne)
  have htidy : ∀ p ∈ leafFirst n, IsTidy p ∧ Guarded false p := by
    rw [hn]
    intro p hp
    obtain ⟨f, hf, rfl⟩ := List.mem_map.mp hp
    exact ⟨isTidy_tidy (hpieces f hf).readable, (hpieces f hf).guarded_tidy⟩
  have hbare : ∀ p ∈ leafFirst n, IsBare p := fun p hp => (htidy p hp).1.bare
  have htrim : Text.trimmed (String.ofList (joined (leafFirst n))) =
      String.ofList (joined (leafFirst n)) := by
    rw [Text.trimmed, String.toList_ofList, trim_joined hleaf fun p hp => (htidy p hp).1]
  have hends : (∀ p ∈ (leafFirst n).dropLast, pending false p = false) ↔
      ∀ p ∈ (leafFirst n).dropLast, p.getLast? ≠ some '\\' :=
    forall₂_congr fun p hp => (htidy p (List.dropLast_subset _ hp)).1.pending_eq_false_iff
  rw [read_dn_iff, htrim, ← hends]
  constructor
  · -- A segment that was cut or tidied once more would make the text shorter than it is.
    rintro ⟨as', has', hn'⟩
    obtain ⟨htext, hwritten⟩ := assertions_eq_ok_iff.mp has'
    obtain ⟨-, hjoined, hall'⟩ := relativeNames_spec hwritten
    obtain ⟨hfused, hpieces', hdone⟩ := fuse_spec fun r hr => (hall' r hr).isPiece
    rw [String.toList_ofList, ← hjoined, ← hfused] at htext
    have hself : leafFirst n = fuse (relativeNames as') := by
      rcases map_tidy_eq_self fun f hf => (hpieces' f hf).readable with hself | hlt
      · rw [hn', hself]
      · rw [← hn', htext] at hlt
        exact absurd hlt (Nat.lt_irrefl _)
    rw [hself]
    exact ⟨fun p hp => (hpieces' p hp).readable, hdone⟩
  · rintro ⟨hreadable, hdone⟩
    obtain ⟨as', hwritten, htext⟩ := isReadable_joined hleaf hreadable
    have htext' : (String.ofList (joined (leafFirst n))).toList = written as' := by
      rw [String.toList_ofList, htext]
    -- What is joined is cut again where it was joined, as each part is a piece that leaves no flag up.
    refine ⟨as', assertions_eq_ok_iff.mpr ⟨htext', hwritten⟩, ?_⟩
    obtain ⟨hne', hjoined, hall'⟩ := relativeNames_spec hwritten
    obtain ⟨hfused, hpieces', hdone'⟩ := fuse_spec fun r hr => (hall' r hr).isPiece
    have hcut : fuse (relativeNames as') = leafFirst n := by
      rw [← cutComponents_joined (fuse_ne_nil hne') hpieces' hdone', hfused, hjoined, htext]
      exact cutComponents_joined hleaf (fun p hp => ⟨hreadable p hp, (htidy p hp).2⟩) hdone
    rw [hcut, (map_tidy_eq_self_iff hreadable).mpr hbare]

theorem leafFirst_dropLast (n : Name) :
    (leafFirst n).dropLast = n.rest.reverse.map fun s => s.text.toList := by
  simp [leafFirst, Name.segments]

/-- The assignments of a text that is read make up relative names without unescaped commas, and the text is
what they are joined to. The segments are these relative names, the last one first, just if none has blanks
to lose and none but the last ends with a backslash, and then the segments, joined again, read back. In
every case they read back just if each may be read alone and none but the first, which is written last,
ends with a backslash. -/
theorem segments_eq_relativeNames_iff (text : String) (n : Name) (h : Name.Grammar.dn.read text = .ok n) :
    ∃ as, assertions (Text.trimmed text) = .ok as ∧
      joined (relativeNames as) = Text.trim text.toList ∧
      (∀ r ∈ relativeNames as, isClosed r) ∧
      (leafFirst n = relativeNames as ↔ IsCutCleanly (relativeNames as)) ∧
      (IsCutCleanly (relativeNames as) →
        Name.Grammar.dn.read (String.ofList (joined (leafFirst n))) = .ok n) ∧
      (Name.Grammar.dn.read (String.ofList (joined (leafFirst n))) = .ok n ↔
        (∀ s ∈ n.segments, ∃ as, assertions s.text = .ok as) ∧
          ∀ s ∈ n.rest, s.text.toList.getLast? ≠ some '\\') := by
  obtain ⟨as, has, hn⟩ := read_dn_iff.mp h
  obtain ⟨htext, hwritten⟩ := assertions_eq_ok_iff.mp has
  obtain ⟨-, hjoined, hall⟩ := relativeNames_spec hwritten
  have hclean := map_tidy_fuse_eq_self_iff fun r hr => (hall r hr).isPiece
  rw [← hn] at hclean
  refine ⟨as, has, ?joined, fun r hr => (hall r hr).closed, hclean, ?clean, ?stable⟩
  case joined => rw [hjoined, ← htext, Text.trimmed_toList]
  case clean =>
    intro hcut
    have hself := hclean.mpr hcut
    rw [read_joined_iff h, hself]
    exact ⟨fun r hr => (hall r hr).readable, hcut.ends⟩
  case stable =>
    rw [read_joined_iff h, leafFirst_dropLast]
    simp [leafFirst, isReadable_iff]

/-- An escaped comma, a plus sign and an escaped space inside a value end no segment. -/
theorem segments_eq_relativeNames_escaped :
    let text := " cn=a\\,b+sn=c\\ d,ou=e "
    let n : Name := ⟨⟨"ou=e", by decide⟩, [⟨"cn=a\\,b+sn=c\\ d", by decide⟩]⟩
    Name.Grammar.dn.read text = .ok n ∧
      ∃ as, assertions (Text.trimmed text) = .ok as ∧ IsCutCleanly (relativeNames as) ∧
        leafFirst n = relativeNames as ∧
        Name.Grammar.dn.read (String.ofList (joined (leafFirst n))) = .ok n := by
  intro text n
  have hvalues : IsValue "a\\,b".toList ∧ IsValue "c\\ d".toList ∧ IsValue "e".toList :=
    ⟨fun _ => rfl, fun _ => rfl, fun _ => rfl⟩
  let as : List Assertion := [⟨"cn", "a\\,b", some '+'⟩, ⟨"sn", "c\\ d", some ','⟩, ⟨"ou", "e", none⟩]
  have hwritten : IsWritten as := by
    refine isWritten_cons_cons_iff.mpr ⟨⟨rfl, hvalues.1⟩, .inr rfl, ?_⟩
    refine isWritten_cons_cons_iff.mpr ⟨⟨rfl, hvalues.2.1⟩, .inl rfl, ?_⟩
    exact isWritten_singleton_iff.mpr ⟨⟨rfl, hvalues.2.2⟩, rfl⟩
  have has : assertions (Text.trimmed text) = .ok as :=
    assertions_eq_ok_iff.mpr ⟨by decide +kernel, hwritten⟩
  have hread : Name.Grammar.dn.read text = .ok n := read_dn_iff.mpr ⟨as, has, by decide +kernel⟩
  have hcut : IsCutCleanly (relativeNames as) := ⟨by unfold IsBare; decide +kernel, by decide +kernel⟩
  obtain ⟨as', has', -, -, hself, hstable, -⟩ := segments_eq_relativeNames_iff text n hread
  cases has.symm.trans has'
  exact ⟨hread, as, has, hcut, hself.mpr hcut, hstable hcut⟩

/-- After an escaped backslash a comma is passed over, and two relative names make one segment. A blank
before that comma keeps them apart, but it is lost from the segments, and they do not read back. -/
theorem escaped_backslash_hides_comma :
    let as (value : String) : List Assertion := [⟨"cn", value, some ','⟩, ⟨"ou", "b", none⟩]
    let n : Name := ⟨⟨"cn=a\\\\,ou=b", by decide⟩, []⟩
    let m : Name := ⟨⟨"ou=b", by decide⟩, [⟨"cn=a\\\\", by decide⟩]⟩
    Name.Grammar.dn.read "cn=a\\\\,ou=b" = .ok n ∧
      assertions (Text.trimmed "cn=a\\\\,ou=b") = .ok (as "a\\\\") ∧
      leafFirst n ≠ relativeNames (as "a\\\\") ∧ ¬ isClosed n.leaf.text.toList ∧
      Name.Grammar.dn.read "cn=a\\\\\t,ou=b" = .ok m ∧
      Name.Grammar.dn.read (String.ofList (joined (leafFirst m))) ≠ .ok m := by
  intro as n m
  have hwritten : ∀ value : String, IsValue value.toList → IsWritten (as value) := by
    intro value hvalue
    have htype : checkType "cn".toList = .ok () := rfl
    refine isWritten_cons_cons_iff.mpr ⟨⟨htype, hvalue⟩, .inl rfl, ?_⟩
    exact isWritten_singleton_iff.mpr ⟨⟨rfl, fun _ => rfl⟩, rfl⟩
  have has : assertions (Text.trimmed "cn=a\\\\,ou=b") = .ok (as "a\\\\") :=
    assertions_eq_ok_iff.mpr ⟨by decide +kernel, hwritten _ fun _ => rfl⟩
  have has' : assertions (Text.trimmed "cn=a\\\\\t,ou=b") = .ok (as "a\\\\\t") :=
    assertions_eq_ok_iff.mpr ⟨by decide +kernel, hwritten _ fun _ => rfl⟩
  have hn : Name.Grammar.dn.read "cn=a\\\\,ou=b" = .ok n := read_dn_iff.mpr ⟨_, has, by decide +kernel⟩
  have hm : Name.Grammar.dn.read "cn=a\\\\\t,ou=b" = .ok m :=
    read_dn_iff.mpr ⟨_, has', by decide +kernel⟩
  refine ⟨hn, has, by decide +kernel, by decide +kernel, hm, ?_⟩
  intro hback
  obtain ⟨-, hends⟩ := (read_joined_iff hm).mp hback
  exact hends "cn=a\\\\".toList (by decide +kernel) (by decide +kernel)

end Segments

end NamingDirectory.Dn
