import NamingDirectory.Name.Reading
import NamingDirectory.Proofs.Composite.Notation

/-!
# What composite names can be read

A text is read if it is not blank, does not end inside an escape, and has no blank piece; otherwise it is
refused (`read_cases`). The names that come of it are those without blanks around their segments, and each of
them is read from the text in which `write` puts it (`reads_every_name`).

The three reasons for a refusal are told by the grammar (`IsCutInto`, `EndsInEscape`) and not by the scanner.
They are the three ways in which the reading of a text can fail, in the order in which it looks for them, and
the message says which one it was.
-/

namespace NamingDirectory

namespace Composite

open Ldap (IsTrimmed isTrimmed_of_parse)

variable {sep : Separator}

/-! ### Texts

A separator is no backslash, so a text is cut into pieces in one way at most. -/

/-- Whether a text without blanks around it is no composite name: it is empty, it ends inside an escape, or
one of its pieces is blank. -/
def IsFaulty (sep : Char) (cs : List Char) : Prop :=
  cs = [] ∨ EndsInEscape cs ∨ ∃ ps, IsCutInto sep cs ps ∧ ∃ piece ∈ ps, piece.all Text.isBlank

/-- A text that is no composite name is refused. Any other is read as the name whose segments are its pieces
without the blanks around them. -/
theorem read_cases (sep : Separator) (text : String) :
    (∃ n ps, (Name.Grammar.composite sep).read text = .ok n ∧
      IsCutInto sep.char (Text.trim text.toList) ps ∧
      n.segments.map (fun s => s.text.toList) = ps.map Text.trim ∧
      ¬ IsFaulty sep.char (Text.trim text.toList)) ∨
    ∃ message, (Name.Grammar.composite sep).read text = .error (.refuse .invalidName message .null) ∧
      IsFaulty sep.char (Text.trim text.toList) := by
  have hread : ∀ p, parse sep text = .error p →
      (Name.Grammar.composite sep).read text = .error (.refuse .invalidName (p.message text) .null) := by
    intro p hp
    simp only [Name.Grammar.read, hp]
  by_cases hempty : Text.trim text.toList = []
  · right
    exact ⟨_, hread .empty (by simp [parse, hempty]), .inl hempty⟩
  cases hps : pieces sep.char (Text.trim text.toList) with
  | none =>
    right
    exact ⟨_, hread .danglingEscape (by simp [parse, hempty, hps]), .inr (.inl (pieces_eq_none_iff.mp hps))⟩
  | some ps =>
    have hcut := (pieces_eq_some_iff sep.ne_backslash).mp hps
    cases hpath : ps.mapM segment? with
    | none =>
      right
      exact ⟨_, hread .emptySegment (by simp [parse, hempty, hps, hpath]),
        .inr (.inr ⟨ps, hcut, mapM_segment?_eq_none_iff.mp hpath⟩)⟩
    | some path =>
      left
      have hmap := mapM_segment?_eq_some_iff.mp hpath
      -- A text is cut into one piece at least, so there is a segment.
      have hne : path ≠ [] := by
        rintro rfl
        obtain ⟨spellings, hspellings, -, hspells⟩ := hcut
        have hnil : ps = [] := List.map_eq_nil_iff.mp hmap.symm
        rw [hnil, List.forall₂_nil_right_iff] at hspells
        exact hspellings hspells
      obtain ⟨first, rest, rfl⟩ := List.exists_cons_of_ne_nil hne
      refine ⟨⟨first, rest⟩, ps, ?_, hcut, hmap, ?_⟩
      · have hparse : parse sep text = .ok ⟨first, rest⟩ := by
          simp [parse, hempty, hps, hpath, Name.ofSegments?]
        simp only [Name.Grammar.read, hparse]
      · rintro (hnil | hescape | ⟨ps', hcut', hblank⟩)
        · exact hempty hnil
        · rw [pieces_eq_none_iff.mpr hescape] at hps
          cases hps
        · -- A text has no other pieces than those that reading finds.
          rw [pieces_of_isCutInto sep.ne_backslash hcut'] at hps
          cases hps
          rw [mapM_segment?_eq_none_iff.mpr hblank] at hpath
          cases hpath

/-! ### Names

Which separators there are, and which names can be read with each of them. -/

/-- A separator is read from the text of its one character. -/
theorem ofText?_eq_some_iff {s : String} : Separator.ofText? s = some sep ↔ s.toList = [sep.char] := by
  rw [Separator.ofText?]
  split
  · next hlist =>
    rw [hlist, Option.dite_none_right_eq_some]
    constructor
    · rintro ⟨_, hsep⟩
      cases hsep
      rfl
    · intro h
      obtain ⟨rfl, -⟩ := List.cons_eq_cons.mp h
      exact ⟨sep.ne_backslash, rfl⟩
  · next hlong =>
    refine iff_of_false nofun fun h => ?_
    exact hlong _ h

/-- A separator is made of the text of one character. -/
theorem ofText_eq_ok_iff {s : String} : Separator.ofText s = .ok sep ↔ s = String.singleton sep.char := by
  have hsingle : s.toList = [sep.char] ↔ s = String.singleton sep.char := by
    rw [← String.toList_inj, String.toList_singleton]
  rw [← hsingle, ← ofText?_eq_some_iff, Separator.ofText]
  cases Separator.ofText? s <;> simp

/-- Whatever the separator, which may be any character but the backslash, the names that can be read are those
without blanks around their segments, and each of them is read from the text in which it is written. A text is
read as a name that its pieces make, or refused as no name if it is empty, ends inside an escape or has a
blank piece. -/
theorem reads_every_name (sep : Separator) :
    (∀ s, Separator.ofText s = .ok sep ↔ s = String.singleton sep.char) ∧
    (∀ n, ((Name.Grammar.composite sep).parse (.text (write sep n)) = .ok n ↔ IsTrimmed n.segments) ∧
      ((∃ text : String, (Name.Grammar.composite sep).parse (.text text) = .ok n) ↔
        IsTrimmed n.segments)) ∧
    ∀ text : String,
      (∃ n ps, (Name.Grammar.composite sep).parse (.text text) = .ok n ∧ IsTrimmed n.segments ∧
        IsCutInto sep.char (Text.trim text.toList) ps ∧
        n.segments.map (fun s => s.text.toList) = ps.map Text.trim ∧
        ¬ IsFaulty sep.char (Text.trim text.toList)) ∨
      ∃ message, (Name.Grammar.composite sep).parse (.text text) =
          .error (.refuse .invalidName message .null) ∧
        IsFaulty sep.char (Text.trim text.toList) := by
  simp only [Name.Grammar.parse_text]
  have htrimmed : ∀ text n, (Name.Grammar.composite sep).read text = .ok n → IsTrimmed n.segments := by
    intro text n h
    simp only [Name.Grammar.read] at h
    split at h
    · next m hm =>
      cases h
      exact isTrimmed_of_parse hm
    · cases h
  have hwritten : ∀ n, IsTrimmed n.segments →
      (Name.Grammar.composite sep).read (write sep n) = .ok n := by
    intro n hn
    simp only [Name.Grammar.read, parse_write sep hn]
  refine ⟨fun s => ofText_eq_ok_iff, fun n => ⟨⟨htrimmed _ n, hwritten n⟩, ?_, ?_⟩, fun text => ?_⟩
  · rintro ⟨text, htext⟩
    exact htrimmed text n htext
  · intro hn
    exact ⟨write sep n, hwritten n hn⟩
  · rcases read_cases sep text with ⟨n, ps, hn, hcut⟩ | hrefused
    · exact .inl ⟨n, ps, hn, htrimmed text n hn, hcut⟩
    · exact .inr hrefused

/-- A blank can be the separator, and then stands in a segment after a backslash. -/
example : parse ⟨' ', by decide⟩ " a\\ b c" = .ok ⟨⟨"a b", by decide⟩, [⟨"c", by decide⟩]⟩ := by rfl

end Composite
end NamingDirectory
