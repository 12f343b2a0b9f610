import Mathlib.Data.List.Forall2
import Mathlib.Data.List.TakeWhile
import NamingDirectory.Composite

/-!
# How pieces are spelled

The notation of composite names as a grammar, without any scanning. A piece is spelled character by
character, each as it is or after a backslash (`Spells`), and a text is cut into pieces by the separators
between their spellings (`IsCutInto`). `EndsInEscape` says of a text that its last backslash takes nothing:
the run of backslashes at its end is odd.

`pieces` finds the pieces that the grammar gives (`pieces_eq_some_iff`), and fails on the texts that end
inside an escape and on no others (`pieces_eq_none_iff`). The segments that come of pieces are these without
the blanks around them (`mapM_segment?_eq_some_iff`), and a blank piece makes none
(`mapM_segment?_eq_none_iff`).
-/

namespace NamingDirectory

namespace Text

/-- Nothing is left of a text after trimming just if it is blank. -/
theorem trim_eq_nil_iff {cs : List Char} : trim cs = [] ↔ cs.all isBlank := by
  constructor
  · intro h
    obtain ⟨front, back, hfront, hback, happend⟩ := trim_append cs
    rw [← happend, h, List.all_append, List.all_append, hfront, hback]
    rfl
  · intro h
    have hstart : trimStart cs = [] := by
      rw [trimStart, List.dropWhile_eq_nil_iff]
      exact List.all_eq_true.mp h
    rw [trim, hstart]
    rfl

end Text

namespace Composite

/-- Whether a text spells a piece. -/
inductive Spells (sep : Char) : List Char → List Char → Prop
  | nil : Spells sep [] []
  | plain {c : Char} {spelling piece : List Char} : c ≠ '\\' → c ≠ sep → Spells sep spelling piece →
      Spells sep (c :: spelling) (c :: piece)
  | escaped {c : Char} {spelling piece : List Char} : Spells sep spelling piece →
      Spells sep ('\\' :: c :: spelling) (c :: piece)

/-- Whether a text consists of spellings of given pieces, one at least, with separators between them. -/
def IsCutInto (sep : Char) (cs : List Char) (ps : List (List Char)) : Prop :=
  ∃ spellings, spellings ≠ [] ∧ cs = List.intercalate [sep] spellings ∧
    List.Forall₂ (Spells sep) spellings ps

/-- The backslashes at the end of a text. -/
def backslashesAtEnd (cs : List Char) : Nat := (cs.reverse.takeWhile (· == '\\')).length

/-- Whether the last backslash of a text takes nothing. -/
def EndsInEscape (cs : List Char) : Prop := backslashesAtEnd cs % 2 = 1

instance : DecidablePred EndsInEscape := fun cs => inferInstanceAs (Decidable (backslashesAtEnd cs % 2 = 1))

variable {sep c : Char} {cs spelling piece : List Char} {ps : List (List Char)}

/-! ### Reading spellings

A spelling is read to its end, character by character, before the piece after it is begun. -/

/-- Reading a character that is no backslash: a separator starts a new piece, anything else goes to the first
one. -/
theorem pieces_cons (hc : c ≠ '\\') (cs : List Char) :
    pieces sep (c :: cs) =
      if c = sep then (pieces sep cs).map ([] :: ·) else (pieces sep cs).map (consFirst c) := by
  rw [pieces, if_neg hc]
  rintro _ _ rfl
  exact absurd rfl hc

theorem foldr_consFirst (cs piece : List Char) (ps : List (List Char)) :
    cs.foldr consFirst (piece :: ps) = (cs ++ piece) :: ps := by
  induction cs with
  | nil => rfl
  | cons c cs ih => rw [List.foldr_cons, ih, consFirst, List.cons_append]

/-- All of a spelling goes to one piece, whatever comes after it. -/
theorem Spells.pieces_append (h : Spells sep spelling piece) (rest : List Char) :
    pieces sep (spelling ++ rest) = (pieces sep rest).map fun ps => piece.foldr consFirst ps := by
  induction h with
  | nil => simp
  | plain hbackslash hsep _ ih =>
    rw [List.cons_append, pieces_cons hbackslash, if_neg hsep, ih, Option.map_map]
    rfl
  | escaped _ ih =>
    rw [List.cons_append, List.cons_append, pieces, ih, Option.map_map]
    rfl

/-- Reading finds the pieces that a text is cut into, by induction on the spellings. -/
theorem pieces_of_isCutInto (hsep : sep ≠ '\\') (h : IsCutInto sep cs ps) : pieces sep cs = some ps := by
  obtain ⟨spellings, hne, rfl, hspells⟩ := h
  induction hspells with
  | nil => exact absurd rfl hne
  | @cons spelling piece spellings ps hspell hspells ih =>
    cases hspells with
    | nil =>
      have hlast := hspell.pieces_append []
      rw [List.append_nil] at hlast
      simp [hlast, pieces, foldr_consFirst]
    | cons hnext hrest =>
      rw [List.intercalate_cons_cons, List.append_assoc, hspell.pieces_append, List.singleton_append,
        pieces_cons hsep, if_pos rfl, ih (List.cons_ne_nil _ _)]
      simp [foldr_consFirst]

/-! ### Finding spellings

The other direction is by the recursion of `pieces`: what it does with a character is a way to spell it. -/

theorem isCutInto_nil : IsCutInto sep [] [[]] := ⟨[[]], List.cons_ne_nil _ _, rfl, .cons .nil .nil⟩

/-- A separator ends an empty piece. -/
theorem IsCutInto.separator (h : IsCutInto sep cs ps) : IsCutInto sep (sep :: cs) ([] :: ps) := by
  obtain ⟨spellings, hne, rfl, hspells⟩ := h
  refine ⟨[] :: spellings, List.cons_ne_nil _ _, ?_, .cons .nil hspells⟩
  rw [List.intercalate_cons_of_ne_nil hne]
  rfl

/-- What spells one character more in front of every piece, spells it in front of the first one. -/
theorem IsCutInto.consFirst (h : IsCutInto sep cs ps) (front : List Char)
    (hfront : ∀ spelling piece, Spells sep spelling piece → Spells sep (front ++ spelling) (c :: piece)) :
    IsCutInto sep (front ++ cs) (consFirst c ps) := by
  obtain ⟨spellings, hne, rfl, hspells⟩ := h
  cases hspells with
  | nil => exact absurd rfl hne
  | @cons spelling piece spellings ps hspell hspells =>
    refine ⟨(front ++ spelling) :: spellings, List.cons_ne_nil _ _, ?_, .cons (hfront _ _ hspell) hspells⟩
    cases spellings with
    | nil => simp
    | cons next spellings => simp [List.intercalate_cons_cons]

/-- The pieces that are found are spelled by the text. -/
theorem isCutInto_of_pieces (h : pieces sep cs = some ps) : IsCutInto sep cs ps := by
  fun_induction pieces sep cs generalizing ps with
  | case1 =>
    cases h
    exact isCutInto_nil
  | case2 c cs ih =>
    obtain ⟨ps, hps, rfl⟩ := Option.map_eq_some_iff.mp h
    exact (ih hps).consFirst ['\\', c] fun _ _ => .escaped
  | case3 cs => cases h
  | case4 cs _ _ ih =>
    obtain ⟨ps, hps, rfl⟩ := Option.map_eq_some_iff.mp h
    exact (ih hps).separator
  | case5 c cs _ hbackslash hsep ih =>
    obtain ⟨ps, hps, rfl⟩ := Option.map_eq_some_iff.mp h
    exact (ih hps).consFirst [c] fun _ _ => .plain hbackslash hsep

/-- Reading finds the pieces that a text is cut into. -/
theorem pieces_eq_some_iff (hsep : sep ≠ '\\') : pieces sep cs = some ps ↔ IsCutInto sep cs ps :=
  ⟨isCutInto_of_pieces, pieces_of_isCutInto hsep⟩

/-! ### Escapes at the end

Of the backslashes before a character every second one is taken by the one before it. So it is the parity of
their number that says whether the last one has something to take. -/

/-- What stands before a character that is no backslash has no part in the run at the end. -/
theorem backslashesAtEnd_cons (hc : c ≠ '\\') (cs : List Char) :
    backslashesAtEnd (c :: cs) = backslashesAtEnd cs := by
  rw [backslashesAtEnd, backslashesAtEnd, List.reverse_cons, List.takeWhile_append]
  split
  · next hall =>
    have hnone : List.takeWhile (· == '\\') [c] = [] := by simp [hc]
    rw [hnone, List.append_nil, hall]
  · rfl

/-- A pair of characters of which the first is a backslash makes the run at the end longer by itself or not
at all. -/
theorem backslashesAtEnd_pair (c : Char) (cs : List Char) :
    backslashesAtEnd ('\\' :: c :: cs) % 2 = backslashesAtEnd cs % 2 := by
  have hreverse : ('\\' :: c :: cs).reverse = cs.reverse ++ [c, '\\'] := by simp
  rw [backslashesAtEnd, backslashesAtEnd, hreverse, List.takeWhile_append]
  split
  · next hall =>
    by_cases hc : c = '\\'
    · subst hc
      have hboth : List.takeWhile (· == '\\') ['\\', '\\'] = ['\\', '\\'] := rfl
      rw [hboth, List.length_append, hall, List.length_cons, List.length_singleton]
      omega
    · have hnone : List.takeWhile (· == '\\') [c, '\\'] = [] := by simp [hc]
      rw [hnone, List.append_nil, hall]
  · rfl

/-- Reading fails on a text that ends inside an escape, and on no other. -/
theorem pieces_eq_none_iff : pieces sep cs = none ↔ EndsInEscape cs := by
  fun_induction pieces sep cs with
  | case1 => exact iff_of_false nofun (by decide)
  | case2 c cs ih => rw [Option.map_eq_none_iff, ih, EndsInEscape, EndsInEscape, backslashesAtEnd_pair]
  | case3 cs hnone =>
    -- A backslash with something after it is another case.
    cases cs with
    | nil => exact iff_of_true rfl (by decide)
    | cons c cs => exact absurd rfl (hnone c cs rfl)
  | case4 cs _ hbackslash ih =>
    rw [Option.map_eq_none_iff, ih, EndsInEscape, EndsInEscape, backslashesAtEnd_cons hbackslash]
  | case5 c cs _ hbackslash hsep ih =>
    rw [Option.map_eq_none_iff, ih, EndsInEscape, EndsInEscape, backslashesAtEnd_cons hbackslash]

/-! ### Segments of pieces

A piece makes a segment of what is left of it after trimming, unless nothing is left. -/

section Segments

variable {s : Segment} {path : List Segment}

theorem segment?_eq_some_iff : segment? piece = some s ↔ s.text.toList = Text.trim piece := by
  rw [segment?, Segment.ofText?]
  split
  · rw [Option.some.injEq]
    constructor
    · rintro rfl
      exact String.toList_ofList
    · intro h
      apply Segment.ext
      exact (congrArg String.ofList h).symm.trans String.ofList_toList
  · next hempty =>
    refine iff_of_false nofun fun h => s.nonempty ?_
    rw [← String.ofList_toList (s := s.text), h]
    exact not_not.mp hempty

theorem segment?_eq_none_iff : segment? piece = none ↔ piece.all Text.isBlank := by
  rw [← Text.trim_eq_nil_iff, segment?, Segment.ofText?]
  split
  · next hne =>
    refine iff_of_false nofun fun h => hne ?_
    rw [h]
  · next hempty =>
    refine iff_of_true rfl ?_
    rw [← String.toList_ofList (l := Text.trim piece), not_not.mp hempty]
    rfl

theorem mapM_segment?_eq_some_iff :
    ps.mapM segment? = some path ↔ path.map (fun s => s.text.toList) = ps.map Text.trim := by
  induction ps generalizing path with
  | nil => simp
  | cons piece ps ih =>
    rw [List.mapM_cons]
    constructor
    · intro h
      obtain ⟨s, hs, hothers⟩ := Option.bind_eq_some_iff.mp h
      obtain ⟨rest, hrest, hpath⟩ := Option.bind_eq_some_iff.mp hothers
      cases hpath
      rw [List.map_cons, List.map_cons, segment?_eq_some_iff.mp hs, ih.mp hrest]
    · intro h
      cases path with
      | nil => cases h
      | cons s path =>
        obtain ⟨hs, hrest⟩ := List.cons_eq_cons.mp h
        rw [segment?_eq_some_iff.mpr hs, ih.mpr hrest]
        rfl

theorem mapM_segment?_eq_none_iff :
    ps.mapM segment? = none ↔ ∃ piece ∈ ps, piece.all Text.isBlank := by
  induction ps with
  | nil => simp
  | cons piece ps ih =>
    rw [List.mapM_cons, List.exists_mem_cons_iff, ← segment?_eq_none_iff, ← ih]
    cases segment? piece with
    | none => simp
    | some s => cases ps.mapM segment? <;> simp

end Segments

end Composite
end NamingDirectory
