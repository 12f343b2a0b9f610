import NamingDirectory.Name
import NamingDirectory.Text.Blank
import NamingDirectory.Text.Quoted

/-!
# Composite names

Names written as segments with a separator between them, such as `a/b/c`. A backslash takes the next
character as it is. Blanks around the whole text and around each segment do not count, and no segment
is empty.

`parse` reads a text, and `write` puts a name into this notation.
-/

namespace NamingDirectory

/-- The character between the segments of a composite name. -/
structure Separator where
  char : Char
  ne_backslash : char ≠ '\\'
deriving DecidableEq

namespace Separator

def slash : Separator := ⟨'/', by decide⟩

/-- The separator that consists of a text: one character that is no backslash. -/
def ofText? (s : String) : Option Separator :=
  match s.toList with
  | [c] => if h : c ≠ '\\' then some ⟨c, h⟩ else none
  | _ => none

end Separator

namespace Composite

/-- Why a text is no composite name. -/
inductive Problem where
  | empty
  /-- The text ends after a backslash that takes nothing. -/
  | danglingEscape
  | emptySegment
deriving DecidableEq

/-- What is said of a text that is no composite name. -/
def Problem.message (text : String) : Problem → String
  | .empty => "Empty name"
  | .danglingEscape => "Dangling escape in name: " ++ Text.quoted text
  | .emptySegment => "Empty segment in name: " ++ Text.quoted text

/-- Puts a character in front of the first piece. -/
def consFirst (c : Char) : List (List Char) → List (List Char)
  | [] => [[c]]
  | piece :: pieces => (c :: piece) :: pieces

/-- The pieces between the separators that no backslash precedes, with the backslashes taken away. There
are none if the text ends after a backslash that takes nothing. -/
def pieces (sep : Char) : List Char → Option (List (List Char))
  | [] => some [[]]
  | '\\' :: c :: cs => (pieces sep cs).map (consFirst c)
  | c :: cs =>
    if c = '\\' then none
    else if c = sep then (pieces sep cs).map ([] :: ·)
    else (pieces sep cs).map (consFirst c)

/-- The segment that a piece stands for, if it holds more than blanks. -/
def segment? (piece : List Char) : Option Segment :=
  Segment.ofText? (String.ofList (Text.trim piece))

def parse (sep : Separator) (text : String) : Except Problem Name :=
  let cs := Text.trim text.toList
  if cs.isEmpty then .error .empty
  else match pieces sep.char cs with
    | none => .error .danglingEscape
    | some pieces =>
      match (pieces.mapM segment?).bind Name.ofSegments? with
      | none => .error .emptySegment
      | some n => .ok n

/-- One segment in the notation: a backslash before each backslash and each separator. -/
def escape (sep : Char) (cs : List Char) : List Char :=
  cs.flatMap fun c => if c = '\\' ∨ c = sep then ['\\', c] else [c]

def write (sep : Separator) (n : Name) : String :=
  String.ofList (List.intercalate [sep.char] (n.segments.map fun s => escape sep.char s.text.toList))

/-- A name that was read has the segments that the pieces of the text stand for. -/
theorem parse_ok {sep : Separator} {text : String} {n : Name} (h : parse sep text = .ok n) :
    ∃ ps, pieces sep.char (Text.trim text.toList) = some ps ∧ ps.mapM segment? = some n.segments := by
  simp only [parse] at h
  split at h
  · cases h
  · split at h
    · cases h
    · next ps hps =>
      split at h
      · cases h
      · next n' hn =>
        cases h
        obtain ⟨path, hpath, hname⟩ := Option.bind_eq_some_iff.mp hn
        cases path with
        | nil => cases hname
        | cons s path =>
          cases hname
          exact ⟨ps, hps, hpath⟩

end Composite
end NamingDirectory
