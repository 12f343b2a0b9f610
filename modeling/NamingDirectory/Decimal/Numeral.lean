import NamingDirectory.Decimal.Binary64
import NamingDirectory.Text.Blank
import NamingDirectory.Text.Case
import NamingDirectory.Text.Digit

/-!
# Reading numerals

Texts that stand for integers and for floating-point numbers. Blanks at the ends do not count, and
single underscores may stand between digits. Integers and the wider kind of floating-point numerals
accept the decimal digits of every script. An integer has a limited number of digits.
-/

namespace NamingDirectory.Numeral

/-- The number of digits that an integer may have in a text. -/
def digitLimit : Nat := 4300

def tooManyDigits (digits : Nat) : String :=
  "Exceeds the limit (4300 digits) for integer string conversion: value has " ++ toString digits ++
    " digits; use sys.set_int_max_str_digits() to increase the limit"

inductive Problem where
  | malformed
  | tooLong (digits : Nat)
deriving DecidableEq

/-- What is said of a text that stands for no integer; two hundred characters of its quoted form are
shown. -/
def Problem.message (quoted : String) : Problem → String
  | .malformed =>
    "invalid literal for int() with base 10: " ++ String.ofList (quoted.toList.take 200)
  | .tooLong digits => tooManyDigits digits

/-- Drops the blanks around a numeral. -/
def bare (cs : List Char) : List Char :=
  ((cs.dropWhile Text.isOuterBlank).reverse.dropWhile Text.isOuterBlank).reverse

/-- A text with every decimal digit replaced by the ASCII digit of its value. -/
def asciiDigits (cs : List Char) : List Char :=
  cs.map fun c => match Text.digitValue? c with
    | some d => Char.ofNat (48 + d)
    | none => c

/-- Takes away the underscores, if each stands between two digits. `after` says whether a digit came just
before. -/
def joinDigits? (after : Bool) : List Char → Option (List Char)
  | [] => some []
  | '_' :: d :: cs => if after && d.isDigit then joinDigits? false (d :: cs) else none
  | ['_'] => none
  | c :: cs => (joinDigits? c.isDigit cs).map (c :: ·)

/-- A sign in front of a text, and the rest of it. -/
def sign (cs : List Char) : Bool × List Char :=
  match cs with
  | '-' :: rest => (true, rest)
  | '+' :: rest => (false, rest)
  | rest => (false, rest)

/-- The number that a row of ASCII digits stands for. -/
def digitsValue (ds : List Char) : Nat := ds.foldl (fun n c => n * 10 + (c.toNat - 48)) 0

/-- Whether two underscores follow each other. -/
def hasDouble : List Char → Bool
  | '_' :: '_' :: _ => true
  | _ :: cs => hasDouble cs
  | [] => false

/-- Whether no underscore is at an end of a text or follows another. -/
def isWellJoined (cs : List Char) : Bool :=
  cs.head? != some '_' && cs.getLast? != some '_' && !hasDouble cs

/-- The integer that a text stands for. Its digits are counted before a look at what follows them. -/
def integer (s : String) : Except Problem Int := do
  let (negative, cs) := sign (asciiDigits (s.toList.dropWhile Text.isOuterBlank))
  let isPart (c : Char) : Bool := c.isDigit || c == '_'
  let row := cs.takeWhile isPart
  if row.isEmpty || !isWellJoined row then throw .malformed
  let ds := row.filter (· != '_')
  if digitLimit < ds.length then throw (.tooLong ds.length)
  if !(cs.dropWhile isPart).all Text.isOuterBlank then throw .malformed
  let n : Int := digitsValue ds
  return if negative then -n else n

/-- The power of ten in an exponent part; a missing one is zero. -/
def exponent? (cs : List Char) : Option Int :=
  match cs with
  | [] => some 0
  | c :: rest =>
    let (negative, ds) := sign rest
    if (c == 'e' || c == 'E') && !ds.isEmpty && ds.all Char.isDigit then
      let n : Int := digitsValue ds
      some (if negative then -n else n)
    else none

def unsigned? (negative : Bool) (cs : List Char) : Option Binary64 :=
  let word := cs.map Char.toLower
  if word == "inf".toList || word == "infinity".toList then some (.infinity negative)
  else if word == "nan".toList then some .nan
  else
    let whole := cs.takeWhile Char.isDigit
    let rest := cs.dropWhile Char.isDigit
    let (fraction, rest) := match rest with
      | '.' :: rest => (rest.takeWhile Char.isDigit, rest.dropWhile Char.isDigit)
      | rest => ([], rest)
    if whole.isEmpty && fraction.isEmpty then none
    else (exponent? rest).map fun e =>
      Binary64.ofDecimal negative (digitsValue (whole ++ fraction)) (e - fraction.length)

/-- The floating-point number of a text without blanks and underscores. -/
def signed? (cs : List Char) : Option Binary64 :=
  let (negative, cs) := sign cs
  unsigned? negative cs

/-- The floating-point number that a text stands for, digits of every script included. -/
def float? (s : String) : Option Binary64 := do
  signed? (← joinDigits? false (asciiDigits (bare s.toList)))

/-- The floating-point number that a plain numeral stands for, with ASCII digits only. Underscores are
passed over, unless one is at an end of the text or follows another; a text that has some may have no
blanks around it. -/
def plainFloat? (s : String) : Option Binary64 :=
  let cs := s.toList
  match signed? (bare cs) with
  | some x => some x
  | none =>
    if isWellJoined cs then signed? (cs.filter (· != '_')) else none

end NamingDirectory.Numeral
