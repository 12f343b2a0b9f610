import NamingDirectory.Decimal.Numeral
import NamingDirectory.Fault
import NamingDirectory.Text.Digit

/-!
# Writing JSON

The JSON text of a value: on one line, a space after every comma and colon, and characters outside
ASCII as they are. A tuple is written as an array, and a key that is a number, a truth value or nothing
as the text of it.
-/

namespace NamingDirectory.Json

inductive Unwritable where
  /-- A part is of a kind, given by its word, that JSON does not have. -/
  | kind (word : String)
  /-- A key is of a kind, given by its word, that no key can have. -/
  | key (word : String)
  | circular
  | tooLong
deriving DecidableEq

namespace Unwritable

def message : Unwritable → String
  | .kind word => "Object of type " ++ word ++ " is not JSON serializable"
  | .key word => "keys must be str, int, float, bool or None, not " ++ word
  | .circular => "Circular reference detected"
  | .tooLong =>
    "Exceeds the limit (4300 digits) for integer string conversion; " ++
      "use sys.set_int_max_str_digits() to increase the limit"

def defect : Unwritable → Defect
  | .kind _ | .key _ => .wrongKind
  | .circular | .tooLong => .badValue

def fault (p : Unwritable) : Fault := .defect p.defect p.message

end Unwritable

/-- The texts of infinity and of what is no number. -/
def spelling : Decimal.Spelling := { Decimal.plain with infinity := "Infinity", nan := "NaN" }

def escape (c : Char) : List Char :=
  if c == '\x22' then ['\\', '\x22']
  else if c == '\\' then ['\\', '\\']
  else if c == '\n' then ['\\', 'n']
  else if c == '\r' then ['\\', 'r']
  else if c == '\t' then ['\\', 't']
  else if c.toNat == 8 then ['\\', 'b']
  else if c.toNat == 12 then ['\\', 'f']
  else if c.toNat < 0x20 then '\\' :: 'u' :: Text.hex 4 c.toNat
  else [c]

def writeText (cs : List Char) : List Char := '\x22' :: (cs.flatMap escape ++ ['\x22'])

def writeInt (i : Int) : Except Unwritable (List Char) :=
  if Binary64.decimalLength i.natAbs ≤ Numeral.digitLimit then .ok (toString i).toList else .error .tooLong

/-- The text that stands for a value as a key. -/
def keyText : Value → Except Unwritable (List Char)
  | .text s => .ok s.toList
  | .null => .ok "null".toList
  | .bool b => .ok (if b then "true" else "false").toList
  | .int i => writeInt i
  | .float x => .ok (x.text spelling).toList
  | v => .error (.key v.kind)

mutual

/-- The JSON text of a value. Its parts are visited in order, and the first that has no text decides. -/
def write : Value → Except Unwritable (List Char)
  | .null => .ok "null".toList
  | .bool b => .ok (if b then "true" else "false").toList
  | .int i => writeInt i
  | .float x => .ok (x.text spelling).toList
  | .text s => .ok (writeText s.toList)
  | .list items => return '[' :: (← writeItems items)
  | .tuple items => return '[' :: (← writeItems items)
  | .dict entries => return '\x7b' :: (← writeEntries entries)
  | .circular => .error .circular
  | v => .error (.kind v.kind)

def writeItems : List Value → Except Unwritable (List Char)
  | [] => .ok [']']
  | [v] => return (← write v) ++ [']']
  | v :: items => return (← write v) ++ ',' :: ' ' :: (← writeItems items)

def writeEntries : List (Value × Value) → Except Unwritable (List Char)
  | [] => .ok ['\x7d']
  | [(k, v)] => return writeText (← keyText k) ++ ':' :: ' ' :: (← write v) ++ ['\x7d']
  | (k, v) :: entries =>
    return writeText (← keyText k) ++ ':' :: ' ' :: (← write v) ++ ',' :: ' ' :: (← writeEntries entries)

end

def text (v : Value) : Except Unwritable String := (write v).map String.ofList

end NamingDirectory.Json
