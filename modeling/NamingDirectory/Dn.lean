import NamingDirectory.Name
import NamingDirectory.Text.Blank
import NamingDirectory.Text.Digit
import NamingDirectory.Text.Quoted

/-!
# Distinguished names

A distinguished name lists the relative names of an entry and of the entries above it, the entry
itself first: `cn=c,ou=b,ou=a`. A relative name assigns values to one or more attributes, with plus
signs between them, and a backslash escapes what would otherwise mean something.

`assertions` reads and checks the single assignments, `components` cuts a text into relative names,
and `escape` writes a text as the value of an assignment. `parse` reads a distinguished name as a
hierarchical name, which has the entry itself last.
-/

namespace NamingDirectory.Dn

inductive Problem where
  | noType
  | typeCharacter (c : Char)
  | typeStart (c : Char)
  | noValue (assertion : String)
  | hexCharacter (c : Char)
  | leadingSpace
  | trailingSpace
  | unescaped (c : Char)
  | badEscape (c : Char)
  | unfinishedEscape
  | empty
deriving DecidableEq

def Problem.message : Problem → String
  | .noType => "attribute type not present"
  | .typeCharacter c => "character '" ++ c.toString ++ "' not allowed in attribute type"
  | .typeStart c =>
    "character '" ++ c.toString ++ "' not allowed as first character of attribute type"
  | .noValue a => "unable to validate attribute value in " ++ a
  | .hexCharacter c =>
    "character " ++ c.toString ++ " not allowed in hex representation of attribute value"
  | .leadingSpace => "SPACE must be escaped as leading character of attribute value"
  | .trailingSpace => "SPACE must be escaped as trailing character of attribute value"
  | .unescaped c => "special character " ++ c.toString ++ " must be escaped"
  | .badEscape c => "invalid escaped character " ++ c.toString
  | .unfinishedEscape => "invalid final character"
  | .empty => "empty dn"

/-! ### Cutting at unescaped characters -/

/-- Whether the place after `before`, which is read backwards, is escaped: an odd number of backslashes
comes right before it. In a run that reaches the start of the text the first character does not count,
unless it is the only one. -/
def escaped (before : List Char) : Bool :=
  let run := (before.takeWhile (· == '\\')).length
  (if run == before.length && 1 < run then run - 1 else run) % 2 == 1

/-- Cuts a text at the first unescaped `c` that is not its first character, into the part before it,
backwards, and the part after it. -/
def cutFirst (c : Char) (before : List Char) : List Char → Option (List Char × List Char)
  | [] => none
  | d :: after =>
    if d == c && !before.isEmpty && !escaped before then some (before, after)
    else cutFirst c (d :: before) after

/-- Cuts a text that is read backwards at its last unescaped `c`, and keeps what is before it. -/
def cutLast (c : Char) : List Char → List Char
  | [] => []
  | d :: before => if d == c && !before.isEmpty && !escaped before then before else cutLast c before

/-- The assignment that ends at a separator, which was found after `before`. A separator counts only if
an equals sign follows it, and not at once. It then gives way to the last one before that sign: what
stands between the two belongs to the value. -/
def beforeSeparator? (sep : Char) (before after : List Char) : Option (List Char) :=
  match cutFirst '=' (sep :: before) after with
  | some (front, _) =>
    if before.length + 1 < front.length then some (cutLast sep front).reverse else none
  | none => none

/-- The assignment that ends at the first separator of one kind. -/
def upTo? (sep : Char) (cs : List Char) : Option (List Char) :=
  (cutFirst sep [] cs).bind fun (before, after) => beforeSeparator? sep before after

/-- Whether the first unescaped plus sign of a text comes before its first unescaped comma. -/
def plusFirst (cs : List Char) : Bool :=
  match cutFirst '+' [] cs, cutFirst ',' [] cs with
  | some (p, _), some (c, _) => p.length < c.length
  | some _, none => true
  | none, _ => false

/-- The first assignment of a text, and the separator after it. A plus sign separates only before the
first comma. -/
def nextAssertion (cs : List Char) : List Char × Option Char :=
  match if plusFirst cs then upTo? '+' cs else none with
  | some piece => (piece, some '+')
  | none =>
    match upTo? ',' cs with
    | some piece => (piece, some ',')
    | none => (cs, none)

def split (cs : List Char) : List (List Char × Option Char) :=
  if cs.isEmpty then []
  else
    let next := nextAssertion cs
    next :: split (cs.drop (next.1.length + 1))
termination_by cs.length
decreasing_by
  rw [List.length_drop]
  have : cs.length ≠ 0 := by simpa using ‹¬cs.isEmpty = true›
  omega

/-- Adds a piece to those before it, the latest first: one without an equals sign belongs to the piece
before it. -/
def attach (done : List (List Char × Option Char)) (next : List Char × Option Char) :
    List (List Char × Option Char) :=
  match done with
  | [] => [next]
  | (piece, sep) :: rest =>
    if (cutFirst '=' [] next.1).isSome then next :: done
    else (piece ++ sep.toList ++ next.1, next.2) :: rest

/-! ### Checking -/

/-- The type and the value of an assignment: it is cut at the first equals sign that no backslash
precedes. A text that starts with an equals sign has no type. `before` is the part that was passed,
backwards. -/
def typeAndValue (whole before : List Char) : List Char → List Char × List Char
  | [] => ([], whole)
  | c :: cs =>
    if c == '=' then
      match before with
      | [] => ([], whole)
      | d :: _ => if d == '\\' then typeAndValue whole (c :: before) cs else (before.reverse, cs)
    else typeAndValue whole (c :: before) cs

def isTypeCharacter (c : Char) : Bool := c.isAlphanum || c == '-'

/-- Checks the type of an attribute: letters, digits and hyphens, a letter first. The type of a directory's own
identifiers is exempt. -/
def checkType (cs : List Char) : Except Problem Unit :=
  match cs with
  | [] => .error .noType
  | first :: _ =>
    if cs == "<GUID".toList then .ok ()
    else match cs.find? (!isTypeCharacter ·) with
      | some c => .error (.typeCharacter c)
      | none => if first.isAlpha then .ok () else .error (.typeStart first)

/-- The characters that a value holds only after a backslash. -/
def isSpecial (c : Char) : Bool := "\x22#+,;<=>".toList.contains c || c.toNat == 0

/-- Where the check of a value stands. -/
inductive Escape where
  | none
  /-- After a backslash. -/
  | started
  /-- After a backslash and the first of two digits in base 16. -/
  | half
deriving DecidableEq

/-- Checks the escapes of a value. -/
def checkEscapes : Escape → List Char → Except Problem Unit
  | .none, [] => .ok ()
  | _, [] => .error .unfinishedEscape
  | .none, c :: cs =>
    if c == '\\' then checkEscapes .started cs
    else if isSpecial c then .error (.unescaped c)
    else checkEscapes .none cs
  | .started, c :: cs =>
    if Text.isHexDigit c then checkEscapes .half cs
    else if c == ' ' || c == '\\' || isSpecial c then checkEscapes .none cs
    else .error (.badEscape c)
  | .half, c :: cs =>
    if Text.isHexDigit c then checkEscapes .none cs else .error (.badEscape c)

/-- Checks the value of an assignment. No value starts with a number sign: it would have to hold digits
in base 16 only, and the sign is none. -/
def checkValue (assertion cs : List Char) : Except Problem Unit :=
  match cs with
  | [] => .error (.noValue (String.ofList assertion))
  | first :: _ =>
    if first == '#' then .error (.hexCharacter '#')
    else if first == ' ' then .error .leadingSpace
    else match cs.reverse with
      | ' ' :: before => if before.head? == some '\\' then checkEscapes .none cs
        else .error .trailingSpace
      | _ => checkEscapes .none cs

/-- One assignment: an attribute type, a value as it was written, and the separator after it. -/
structure Assertion where
  type : String
  value : String
  separator : Option Char
deriving DecidableEq

/-- Reads one assignment. -/
def assertion (piece : List Char × Option Char) : Except Problem Assertion := do
  let (type, value) := typeAndValue piece.1 [] piece.1
  checkType type
  checkValue piece.1 value
  return ⟨String.ofList type, String.ofList value, piece.2⟩

def assertions (text : String) : Except Problem (List Assertion) := do
  match ← ((split text.toList).foldl attach []).reverse.mapM assertion with
  | [] => throw .empty
  | as => return as

/-! ### Relative names -/

/-- Cuts a text at the commas that end a relative name: those that no backslash escapes, after an equals
sign. `piece` is what was read since the last of them, backwards. A space does not end an escape. -/
def cutComponents (escape : Bool) (piece : List Char) : List Char → List (List Char)
  | [] => [piece.reverse]
  | c :: cs =>
    if c == '\\' then cutComponents true (c :: piece) cs
    else if escape && c != ' ' then cutComponents false (c :: piece) cs
    else if c == ',' && piece.contains '=' then piece.reverse :: cutComponents escape [] cs
    else cutComponents escape (c :: piece) cs

/-- A relative name without blanks around its first equals sign and at its ends. -/
def tidy (cs : List Char) : List Char :=
  if cs.isEmpty then []
  else
    let type := cs.takeWhile (· != '=')
    Text.trim type ++ '=' :: Text.trim ((cs.drop type.length).drop 1)

def components (text : String) : List String :=
  (cutComponents false [] text.toList).map fun cs => String.ofList (tidy cs)

/-- Reads a distinguished name. Its relative names are the segments, the entry itself last. -/
def parse (text : String) : Except Problem (Option Name) := do
  let _ ← assertions text
  return Name.ofSegments? ((components text).reverse.filterMap Segment.ofText?)

/-! ### Escaping -/

/-- The characters that get a backslash wherever they stand. -/
def needsEscape (c : Char) : Bool := "\\,+\x22<>;=".toList.contains c || c.toNat == 0

/-- A text as the value of an assignment. A number sign and a space at the start get a backslash too, and
so does a space at the end. -/
def escape (cs : List Char) : List Char :=
  let body := cs.flatMap fun c => if needsEscape c then ['\\', c] else [c]
  let body := match body with
    | '#' :: _ | ' ' :: _ => '\\' :: body
    | _ => body
  match body.reverse with
  | ' ' :: before => before.reverse ++ ['\\', ' ']
  | _ => body

end NamingDirectory.Dn
