import NamingDirectory.Proofs.Composite.Spelling
import NamingDirectory.Proofs.Ldap.DistinguishedName

/-!
# The notation of composite names

`write` puts a backslash before each backslash and each separator of a segment, and what it writes reads back
as the same name (`parse_write`). The blanks that reading takes away are no obstacle, because a name that is
written has none at the ends of its segments, and so none at the ends of its text (`head?_written`,
`getLast?_written`).

The text that shows a name puts a backslash before slashes only. Reading spends a backslash for each slash and
for each backslash that it keeps, and a shown name has just enough of them for its slashes. So it reads back
exactly if none of its segments has a backslash (`shown_reads_back_iff`). The proof counts characters, since
the pieces that a shown name with backslashes is cut into need not be like its segments at all: with b
backslashes and s slashes in the segments,

    a shown name has b + s backslashes, and reading them back takes 2 * b + s.
-/

namespace NamingDirectory

namespace Composite

open Ldap (IsTrimmed isTrimmed_of_parse)

/-! ### Pieces

What `escape` writes spells the text that it is given, so reading finds the text again, one piece after
another. -/

section Pieces

variable {sep : Char} {cs : List Char} {ps : List (List Char)}

theorem flatten_consFirst (c : Char) (ps : List (List Char)) :
    (consFirst c ps).flatten = c :: ps.flatten := by
  cases ps with
  | nil => rfl
  | cons piece ps => rfl

theorem escape_cons (sep c : Char) (cs : List Char) :
    escape sep (c :: cs) = (if c = '\\' ∨ c = sep then ['\\', c] else [c]) ++ escape sep cs := by
  rw [escape, List.flatMap_cons, escape]

/-- An escaped text spells the text. -/
theorem spells_escape (sep : Char) (cs : List Char) : Spells sep (escape sep cs) cs := by
  induction cs with
  | nil => exact .nil
  | cons c cs ih =>
    rw [escape_cons]
    split
    · exact .escaped ih
    · next hc =>
      obtain ⟨hbackslash, hsep⟩ := not_or.mp hc
      exact .plain hbackslash hsep ih

/-- The pieces of escaped texts between separators are the texts. -/
theorem pieces_intercalate_escape (hsep : sep ≠ '\\') (h : ps ≠ []) :
    pieces sep (List.intercalate [sep] (ps.map (escape sep))) = some ps := by
  have hspells : List.Forall₂ (Spells sep) (ps.map (escape sep)) ps :=
    List.forall₂_map_left_iff.mpr (List.forall₂_same.mpr fun piece _ => spells_escape sep piece)
  exact pieces_of_isCutInto hsep ⟨_, by simpa using h, rfl, hspells⟩

/-- Each backslash and each separator in a piece was written with a backslash before it. -/
theorem count_pieces_le (hsep : sep ≠ '\\') (h : pieces sep cs = some ps) :
    2 * ps.flatten.count '\\' + ps.flatten.count sep ≤ cs.count '\\' := by
  fun_induction pieces sep cs generalizing ps with
  | case1 =>
    cases h
    simp
  | case2 c cs ih =>
    obtain ⟨ps, hps, rfl⟩ := Option.map_eq_some_iff.mp h
    have hrest := ih hps
    rw [flatten_consFirst]
    simp only [List.count_cons]
    -- The escaped character is not both, and the backslash before it pays for it.
    by_cases hc : c = '\\'
    · subst hc
      simp [hsep.symm]
      omega
    · simp [hc]
      split <;> omega
  | case3 cs => cases h
  | case4 cs _ _ ih =>
    obtain ⟨ps, hps, rfl⟩ := Option.map_eq_some_iff.mp h
    rw [List.flatten_cons, List.nil_append]
    exact Nat.le_trans (ih hps) List.count_le_count_cons
  | case5 c cs _ hc hne ih =>
    obtain ⟨ps, hps, rfl⟩ := Option.map_eq_some_iff.mp h
    rw [flatten_consFirst, List.count_cons_of_ne hc, List.count_cons_of_ne hne]
    exact Nat.le_trans (ih hps) List.count_le_count_cons

end Pieces

/-! ### Writing and reading

From pieces to segments, which are pieces without the blanks around them. A segment that was read has no
blanks at its ends, so what is written for it is trimmed to itself, in the middle of a name as well as at its
ends. -/

section Names

variable {sep : Separator} {path : List Segment} {ps : List (List Char)} {n m : Name}

/-- The characters of the segments of a path. -/
def characters (path : List Segment) : List Char := path.flatMap fun s => s.text.toList

theorem mapM_segment? (h : IsTrimmed path) :
    (path.map fun s => s.text.toList).mapM segment? = some path := by
  rw [mapM_segment?_eq_some_iff, List.map_map]
  exact List.map_congr_left fun s hs => (h s hs).symm

/-- Reading drops no character of a piece but blanks. -/
theorem count_characters {c : Char} (hc : ¬ Text.isBlank c) (h : ps.mapM segment? = some path) :
    (characters path).count c = ps.flatten.count c := by
  have htrim : characters path = (ps.map Text.trim).flatten := by
    rw [← mapM_segment?_eq_some_iff.mp h, characters, List.flatMap_def]
  rw [htrim]
  clear h htrim
  induction ps with
  | nil => rfl
  | cons piece ps ih =>
    rw [List.map_cons, List.flatten_cons, List.flatten_cons, List.count_append, List.count_append, ih,
      Text.count_trim hc]

/-- An escaped text starts with what it stands for, or with a backslash. -/
theorem head?_escape (sep c : Char) (cs : List Char) :
    (escape sep (c :: cs)).head? = some '\\' ∨ (escape sep (c :: cs)).head? = some c := by
  rw [escape_cons]
  split
  · exact .inl rfl
  · exact .inr rfl

theorem getLast?_escape (sep : Char) (cs : List Char) : (escape sep cs).getLast? = cs.getLast? := by
  rcases List.eq_nil_or_concat cs with rfl | ⟨cs, c, rfl⟩
  · rfl
  · rw [List.concat_eq_append, escape, List.flatMap_append, List.getLast?_append,
      List.getLast?_append, List.flatMap_singleton]
    split <;> rfl

/-- The characters of a written path. -/
def written (sep : Separator) (path : List Segment) : List Char :=
  List.intercalate [sep.char] (path.map fun s => escape sep.char s.text.toList)

theorem written_cons (sep : Separator) (s : Segment) (h : path ≠ []) :
    written sep (s :: path) = escape sep.char s.text.toList ++ sep.char :: written sep path := by
  rw [written, List.map_cons, List.intercalate_cons_of_ne_nil (by simpa using h), List.append_assoc]
  rfl

theorem exists_written_eq (sep : Separator) (s : Segment) (path : List Segment) :
    ∃ rest, written sep (s :: path) = escape sep.char s.text.toList ++ rest := by
  by_cases h : path = []
  · subst h
    exact ⟨[], by simp [written]⟩
  · exact ⟨_, written_cons sep s h⟩

theorem exists_toList_eq_cons (s : Segment) : ∃ c cs, s.text.toList = c :: cs :=
  List.exists_cons_of_ne_nil (mt String.toList_eq_nil_iff.mp s.nonempty)

theorem written_ne_nil (sep : Separator) (s : Segment) (path : List Segment) :
    written sep (s :: path) ≠ [] := by
  obtain ⟨rest, hrest⟩ := exists_written_eq sep s path
  obtain ⟨c, cs, hcs⟩ := exists_toList_eq_cons s
  rw [hrest, hcs, escape_cons]
  split <;> exact List.cons_ne_nil _ _

theorem head?_written {s : Segment} (hs : Text.trim s.text.toList = s.text.toList) {c : Char}
    (h : (written sep (s :: path)).head? = some c) : ¬ Text.isBlank c := by
  obtain ⟨rest, hrest⟩ := exists_written_eq sep s path
  obtain ⟨first, cs, hcs⟩ := exists_toList_eq_cons s
  have hfirst : ¬ Text.isBlank first :=
    Text.not_isBlank_of_head?_trim s.text.toList (by rw [hs, hcs]; rfl)
  rw [hrest, hcs, List.head?_append] at h
  rcases head?_escape sep.char first cs with hescape | hescape
  · rw [hescape, Option.some_or, Option.some.injEq] at h
    subst h
    decide
  · rw [hescape, Option.some_or, Option.some.injEq] at h
    exact h ▸ hfirst

theorem getLast?_written (hp : IsTrimmed path) {c : Char} (h : (written sep path).getLast? = some c) :
    ¬ Text.isBlank c := by
  induction path with
  | nil => cases h
  | cons s path ih =>
    obtain ⟨hs, hp⟩ := List.forall_mem_cons.mp hp
    cases path with
    | nil =>
      have hsingle : written sep [s] = escape sep.char s.text.toList := by simp [written]
      rw [hsingle, getLast?_escape, ← hs] at h
      exact Text.not_isBlank_of_getLast?_trim _ h
    | cons t path =>
      -- What follows the first segment is not empty, so it has the last character.
      obtain ⟨d, hd⟩ : ∃ d, (written sep (t :: path)).getLast? = some d :=
        Option.isSome_iff_exists.mp (List.getLast?_isSome.mpr (written_ne_nil sep t path))
      rw [written_cons sep s (List.cons_ne_nil t path), List.getLast?_append, List.getLast?_cons, hd,
        Option.getD_some, Option.some_or] at h
      exact ih hp (hd.trans h)

/-- What was written is read back. -/
theorem parse_write (sep : Separator) (hn : IsTrimmed n.segments) : parse sep (write sep n) = .ok n := by
  have hwritten : (write sep n).toList = written sep n.segments := String.toList_ofList
  have hfirst := (List.forall_mem_cons.mp hn).1
  have htrim : Text.trim (written sep n.segments) = written sep n.segments :=
    Text.trim_eq_self (fun c => head?_written hfirst) (fun c => getLast?_written hn)
  have hne : written sep n.segments ≠ [] := written_ne_nil sep n.first n.rest
  have hpieces : pieces sep.char (written sep n.segments) =
      some (n.segments.map fun s => s.text.toList) := by
    have hmap : n.segments.map (fun s => s.text.toList) ≠ [] := List.cons_ne_nil _ _
    have hread := pieces_intercalate_escape sep.ne_backslash hmap
    rwa [List.map_map] at hread
  simp only [parse, hwritten, htrim, hpieces, mapM_segment? hn, Option.bind_some,
    Name.ofSegments?_segments, List.isEmpty_iff, hne, if_false]

/-! ### Shown names

`Name.shown` as a notation. It agrees with `write` on names without backslashes, and on no others. -/

/-- Whether no segment of a name has a backslash. -/
def HasNoBackslash (n : Name) : Prop := ∀ s ∈ n.segments, '\\' ∉ s.text.toList

theorem escapeSlashes_cons (c : Char) (cs : List Char) :
    Name.escapeSlashes (c :: cs) = (if c = '/' then ['\\', c] else [c]) ++ Name.escapeSlashes cs := by
  rw [Name.escapeSlashes, List.flatMap_cons, ← Name.escapeSlashes]
  by_cases hc : c = '/'
  · simp [hc]
  · simp [hc]

theorem escapeSlashes_eq_escape {cs : List Char} (h : '\\' ∉ cs) :
    Name.escapeSlashes cs = escape '/' cs := by
  induction cs with
  | nil => rfl
  | cons c cs ih =>
    obtain ⟨hc, hcs⟩ := not_or.mp (mt List.mem_cons.mpr h)
    rw [escapeSlashes_cons, escape_cons, ih hcs]
    simp [Ne.symm hc]

/-- A name without backslashes is shown in the notation. -/
theorem shown_eq_write (h : HasNoBackslash n) : n.shown = write .slash n := by
  have hmap : (n.segments.map fun s => Name.escapeSlashes s.text.toList) =
      n.segments.map fun s => escape '/' s.text.toList :=
    List.map_congr_left fun s hs => escapeSlashes_eq_escape (h s hs)
  rw [Name.shown, Name.joined, hmap, write]
  rfl

theorem count_escapeSlashes (cs : List Char) :
    (Name.escapeSlashes cs).count '\\' = cs.count '\\' + cs.count '/' := by
  induction cs with
  | nil => rfl
  | cons c cs ih =>
    rw [escapeSlashes_cons, List.count_append, ih]
    by_cases hc : c = '/'
    · subst hc
      simp
      omega
    · rw [if_neg hc, List.count_cons_of_ne hc, List.count_cons, List.count_cons, List.count_nil]
      omega

/-- A shown name has a backslash for each slash of its segments, and those of the segments. -/
theorem count_joined (path : List Segment) :
    (Name.joined path).count '\\' = (characters path).count '\\' + (characters path).count '/' := by
  induction path with
  | nil => rfl
  | cons s path ih =>
    have hcharacters : characters (s :: path) = s.text.toList ++ characters path := List.flatMap_cons
    have hjoined : (Name.joined (s :: path)).count '\\' =
        (Name.escapeSlashes s.text.toList).count '\\' + (Name.joined path).count '\\' := by
      by_cases hpath : path = []
      · subst hpath
        simp [Name.joined]
      · rw [Name.joined, List.map_cons, List.intercalate_cons_of_ne_nil (by simpa using hpath),
          ← Name.joined]
        simp [List.count_append]
    rw [hjoined, ih, count_escapeSlashes, hcharacters, List.count_append, List.count_append]
    omega

/-- Reading back would take a second backslash for each one in a segment. -/
theorem hasNoBackslash_of_parse (h : parse .slash n.shown = .ok n) : HasNoBackslash n := by
  obtain ⟨ps, hps, hpath⟩ := parse_ok h
  have hshown : n.shown.toList = Name.joined n.segments := String.toList_ofList
  have hbackslash : (characters n.segments).count '\\' = ps.flatten.count '\\' :=
    count_characters (by decide) hpath
  have hslash : (characters n.segments).count '/' = ps.flatten.count '/' :=
    count_characters (by decide) hpath
  -- The shown text has a backslash for each slash and each backslash of the segments. Reading spends two on
  -- a backslash that it keeps.
  have hspent := count_pieces_le Separator.slash.ne_backslash hps
  rw [hshown, Text.count_trim (by decide), count_joined] at hspent
  have hnone : (characters n.segments).count '\\' = 0 := by
    have hspent' : 2 * ps.flatten.count '\\' + ps.flatten.count '/' ≤
        (characters n.segments).count '\\' + (characters n.segments).count '/' := hspent
    omega
  intro s hs hmem
  exact List.count_eq_zero.mp hnone (List.mem_flatMap.mpr ⟨s, hs, hmem⟩)

/-- The text that shows a name that was read. It reads back as the same name exactly if none of its
segments has a backslash, and of the names without one no two are shown by the same text. -/
theorem shown_reads_back_iff (text : String) (n : Name) (h : parse .slash text = .ok n) :
    (parse .slash n.shown = .ok n ↔ HasNoBackslash n) ∧
      ∀ text' m, parse .slash text' = .ok m → HasNoBackslash n → HasNoBackslash m →
        m.shown = n.shown → m = n := by
  have hreads : ∀ text m, parse .slash text = .ok m → HasNoBackslash m → parse .slash m.shown = .ok m := by
    intro text m hm hnone
    rw [shown_eq_write hnone]
    exact parse_write .slash (isTrimmed_of_parse hm)
  refine ⟨⟨hasNoBackslash_of_parse, hreads text n h⟩, ?_⟩
  intro text' m hm hn hm' hshown
  have hread := hreads text' m hm hm'
  rw [hshown, hreads text n h hn] at hread
  cases hread
  rfl

/-- A name with a slash in a segment reads back, and so does one that was written with blanks. -/
theorem shown_reads_back_iff_blanks :
    let n : Name := ⟨⟨"a/b", by decide⟩, [⟨"c", by decide⟩]⟩
    parse .slash "a\\/b/c" = .ok n ∧ HasNoBackslash n ∧ n.shown = "a\\/b/c" ∧
      parse .slash n.shown = .ok n ∧
      ∀ m, parse .slash " a\\/b / c " = .ok m → HasNoBackslash m → m.shown = n.shown → m = n := by
  intro n
  have hread : parse .slash "a\\/b/c" = .ok n := by rfl
  have hn : HasNoBackslash n := by
    unfold HasNoBackslash
    decide
  obtain ⟨hback, hunique⟩ := shown_reads_back_iff "a\\/b/c" n hread
  exact ⟨hread, hn, by decide +kernel, hback.mpr hn, fun m hm => hunique " a\\/b / c " m hm hn⟩

/-- A backslash at the end of a segment takes the slash after it when the shown name is read, so that two
names are shown by one text, or it takes nothing. -/
theorem shown_ambiguous :
    let single : Name := ⟨⟨"a\\", by decide⟩, []⟩
    let n : Name := ⟨⟨"a\\", by decide⟩, [⟨"b", by decide⟩]⟩
    let m : Name := ⟨⟨"a/b", by decide⟩, []⟩
    parse .slash "a\\\\" = .ok single ∧ parse .slash single.shown = .error .danglingEscape ∧
      parse .slash "a\\\\/b" = .ok n ∧ parse .slash "a\\/b" = .ok m ∧ n ≠ m ∧ n.shown = m.shown ∧
      parse .slash n.shown = .ok m := by
  intro single n m
  have hsingle : single.shown = "a\\" := by decide +kernel
  have hn : n.shown = "a\\/b" := by decide +kernel
  have hm : m.shown = "a\\/b" := by decide +kernel
  rw [hsingle, hn, hm]
  exact ⟨by rfl, by rfl, by rfl, by rfl, by decide, rfl, by rfl⟩

end Names

end Composite
end NamingDirectory
