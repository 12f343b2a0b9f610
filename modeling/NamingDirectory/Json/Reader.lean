import NamingDirectory.Json.Writer

/-!
# Reading JSON

Reads the value of a JSON text. The words NaN and Infinity are numbers, integers have any size, and of
two entries with one key the later gives the value. A text that is not JSON is refused with the place
where reading stopped.
-/

namespace NamingDirectory.Json

/-- What was expected where reading stopped. -/
inductive Expectation where
  | value
  | noMore
  | comma
  | colon
  | propertyName
  | closingQuote
  | noControl
  | escape
  | unicodeEscape
  | noMark
deriving DecidableEq

def Expectation.message : Expectation → String
  | .value => "Expecting value"
  | .noMore => "Extra data"
  | .comma => "Expecting ',' delimiter"
  | .colon => "Expecting ':' delimiter"
  | .propertyName => "Expecting property name enclosed in double quotes"
  | .closingQuote => "Unterminated string starting at"
  | .noControl => "Invalid control character at"
  | .escape => "Invalid \\escape"
  | .unicodeEscape => "Invalid \\uXXXX escape"
  | .noMark => "Unexpected UTF-8 BOM (decode using utf-8-sig)"

inductive Unreadable where
  /-- Reading stopped when `remaining` characters were left. -/
  | stopped (expected : Expectation) (remaining : Nat)
  /-- An integer has too many digits. -/
  | tooLong (digits : Nat)
deriving DecidableEq

/-- What a step of reading gives: a result and the characters that are left. -/
abbrev Step (α : Type) := Except Unreadable (α × List Char)

def isSpace (c : Char) : Bool := c == ' ' || c == '\t' || c == '\n' || c == '\r'

def skip (cs : List Char) : List Char := cs.dropWhile isSpace

/-! ### Texts -/

/-- The character that stands for a letter after a backslash. -/
def unescape? (c : Char) : Option Char :=
  match c with
  | '\x22' | '\\' | '/' => some c
  | 'b' => some (Char.ofNat 8)
  | 'f' => some (Char.ofNat 12)
  | 'n' => some '\n'
  | 'r' => some '\r'
  | 't' => some '\t'
  | _ => none

/-- The number that four digits in base 16 stand for. -/
def hexFour? (a b c d : Char) : Option Nat := do
  return (((← Text.hexValue? a) * 16 + (← Text.hexValue? b)) * 16 + (← Text.hexValue? c)) * 16 +
    (← Text.hexValue? d)

def isHighSurrogate (n : Nat) : Bool := 0xd800 ≤ n && n ≤ 0xdbff

def isLowSurrogate (n : Nat) : Bool := 0xdc00 ≤ n && n ≤ 0xdfff

/-- The character with a given code; half of a surrogate pair is replaced. -/
def character (n : Nat) : Char :=
  if 0xd800 ≤ n && n ≤ 0xdfff then Char.ofNat 0xfffd else Char.ofNat n

/-- Joins surrogate pairs. -/
def joinPairs : List Nat → List Char
  | [] => []
  | [n] => [character n]
  | n :: m :: rest =>
    if isHighSurrogate n && isLowSurrogate m then
      Char.ofNat (0x10000 + (n - 0xd800) * 0x400 + (m - 0xdc00)) :: joinPairs rest
    else character n :: joinPairs (m :: rest)

/-- Adds a code to a text that has been read. -/
def onto (n : Nat) (result : Step (List Nat)) : Step (List Nat) :=
  result.map fun (ns, rest) => (n :: ns, rest)

/-- The codes of the rest of a text after its opening quote, when `start` characters were left before
that quote. An escape by a number must not be the end of everything. -/
def readCodes (start : Nat) : List Char → Step (List Nat)
  | [] => .error (.stopped .closingQuote start)
  | '\x22' :: cs => .ok ([], cs)
  | ['\\'] => .error (.stopped .closingQuote start)
  | '\\' :: 'u' :: a :: b :: c :: d :: cs =>
    match cs.isEmpty, hexFour? a b c d with
    | false, some n => onto n (readCodes start cs)
    | _, _ => .error (.stopped .unicodeEscape (cs.length + 5))
  | '\\' :: c :: cs =>
    if c == 'u' then .error (.stopped .unicodeEscape (cs.length + 1))
    else match unescape? c with
    | some c => onto c.toNat (readCodes start cs)
    | none => .error (.stopped .escape (cs.length + 2))
  | c :: cs =>
    if c.toNat < 0x20 then .error (.stopped .noControl (cs.length + 1))
    else onto c.toNat (readCodes start cs)

/-- The rest of a text after its opening quote. -/
def readText (start : Nat) (cs : List Char) : Step (List Char) :=
  (readCodes start cs).map fun (ns, rest) => (joinPairs ns, rest)

/-! ### Numbers -/

/-- The digits after a point, if a point with digits comes next. -/
def readFraction (cs : List Char) : List Char × List Char :=
  match cs with
  | '.' :: rest =>
    let ds := rest.takeWhile Char.isDigit
    if ds.isEmpty then ([], cs) else (ds, rest.dropWhile Char.isDigit)
  | _ => ([], cs)

/-- The power of ten, if an exponent comes next. -/
def readExponent (cs : List Char) : Option Int × List Char :=
  match cs with
  | c :: rest =>
    if c == 'e' || c == 'E' then
      let (negative, rest) := match rest with
        | '-' :: rest => (true, rest)
        | '+' :: rest => (false, rest)
        | rest => (false, rest)
      let ds := rest.takeWhile Char.isDigit
      if ds.isEmpty then (none, cs)
      else
        let n : Int := Numeral.digitsValue ds
        (some (if negative then -n else n), rest.dropWhile Char.isDigit)
    else (none, cs)
  | [] => (none, cs)

/-- A number after its sign. `start` characters were left before the sign. -/
def readNumber (start : Nat) (negative : Bool) (cs : List Char) : Step Value :=
  let digits := match cs with
    | '0' :: _ => ['0']
    | _ => cs.takeWhile Char.isDigit
  if digits.isEmpty then .error (.stopped .value start)
  else
    let rest := cs.drop digits.length
    let (fraction, rest) := readFraction rest
    let (exponent, rest) := readExponent rest
    if fraction.isEmpty && exponent.isNone then
      if digits.length ≤ Numeral.digitLimit then
        let n : Int := Numeral.digitsValue digits
        .ok (.int (if negative then -n else n), rest)
      else .error (.tooLong digits.length)
    else
      let e := exponent.getD 0 - fraction.length
      .ok (.float (Binary64.ofDecimal negative (Numeral.digitsValue (digits ++ fraction)) e), rest)

/-! ### Values -/

/-- The words that stand for values. -/
def words : List (List Char × Value) := [
  ("null".toList, .null), ("true".toList, .bool true), ("false".toList, .bool false),
  ("NaN".toList, .float .nan), ("Infinity".toList, .float (.infinity false)),
  ("-Infinity".toList, .float (.infinity true))]

/-- A word or a number. -/
def readScalar (cs : List Char) : Step Value :=
  match words.find? fun w => w.1.isPrefixOf cs with
  | some (word, v) => .ok (v, cs.drop word.length)
  | none =>
    match cs with
    | '-' :: rest => readNumber cs.length true rest
    | _ => readNumber cs.length false cs

mutual

/-- A value. `fuel` bounds the number of nested steps. -/
def readValue : (fuel : Nat) → List Char → Step Value
  | 0, cs => .error (.stopped .value cs.length)
  | fuel + 1, cs =>
    match cs with
    | '\x22' :: rest =>
      (readText cs.length rest).map fun (s, rest) => (.text (String.ofList s), rest)
    | '[' :: rest =>
      match skip rest with
      | ']' :: rest => .ok (.list [], rest)
      | rest => (readItems fuel rest).map fun (items, rest) => (.list items, rest)
    | '\x7b' :: rest =>
      match skip rest with
      | '\x7d' :: rest => .ok (.dict [], rest)
      | rest =>
        (readEntries fuel rest).map fun (entries, rest) => (.dict (OrderedMap.ofEntries entries), rest)
    | cs => readScalar cs

def readItems : (fuel : Nat) → List Char → Except Unreadable (List Value × List Char)
  | 0, cs => .error (.stopped .value cs.length)
  | fuel + 1, cs => do
    let (v, rest) ← readValue fuel cs
    match skip rest with
    | ']' :: rest => return ([v], rest)
    | ',' :: rest =>
      let (items, rest) ← readItems fuel (skip rest)
      return (v :: items, rest)
    | rest => throw (.stopped .comma rest.length)

def readEntries :
    (fuel : Nat) → List Char → Except Unreadable (List (Value × Value) × List Char)
  | 0, cs => .error (.stopped .value cs.length)
  | fuel + 1, cs =>
    match cs with
    | '\x22' :: rest => do
      let (key, rest) ← readText cs.length rest
      match skip rest with
      | ':' :: rest =>
        let (v, rest) ← readValue fuel (skip rest)
        let entry := (Value.text (String.ofList key), v)
        match skip rest with
        | '\x7d' :: rest => return ([entry], rest)
        | ',' :: rest =>
          let (entries, rest) ← readEntries fuel (skip rest)
          return (entry :: entries, rest)
        | rest => throw (.stopped .comma rest.length)
      | rest => throw (.stopped .colon rest.length)
    | cs => .error (.stopped .propertyName cs.length)

end

/-- The value of a JSON text. Every second step takes a character, so twice the length is fuel
enough. -/
def readAll (cs : List Char) : Except Unreadable Value := do
  if cs.head? == some (Char.ofNat 0xfeff) then throw (.stopped .noMark cs.length)
  let (v, rest) ← readValue (2 * cs.length + 2) (skip cs)
  match skip rest with
  | [] => return v
  | rest => throw (.stopped .noMore rest.length)

/-- The place of a character: its line, its column and its number, the last from zero. -/
def place (passed : List Char) : String :=
  let line := passed.count '\n' + 1
  let column := (passed.reverse.takeWhile (· != '\n')).length + 1
  "line " ++ toString line ++ " column " ++ toString column ++
    " (char " ++ toString passed.length ++ ")"

/-- The fault that a text cannot be read. -/
def Unreadable.fault (cs : List Char) : Unreadable → Fault
  | .stopped expected remaining =>
    .defect .undecodable (expected.message ++ ": " ++ place (cs.take (cs.length - remaining)))
  | .tooLong digits =>
    .defect .badValue (Numeral.tooManyDigits digits)

def read (text : String) : Except Fault Value :=
  let cs := text.toList
  match readAll cs with
  | .ok v => .ok v
  | .error p => .error (p.fault cs)

end NamingDirectory.Json
