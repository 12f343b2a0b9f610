import NamingDirectory.Text.Digit
import NamingDirectory.Text.Printable

/-!
# Quoted text

A text between quotes in which every character that cannot be seen is escaped. Apostrophes are the
quotes, unless the text holds an apostrophe and no double quote.
-/

namespace NamingDirectory.Text

/-- The quote that needs the fewest escapes, an apostrophe if either would do. -/
def quoteFor (cs : List Char) : Char :=
  if cs.contains '\x27' && !cs.contains '\x22' then '\x22' else '\x27'

/-- One character between quotes. -/
def escapeQuoted (quote c : Char) : List Char :=
  if c == quote || c == '\\' then ['\\', c]
  else if c == '\n' then ['\\', 'n']
  else if c == '\r' then ['\\', 'r']
  else if c == '\t' then ['\\', 't']
  else if isPrintable c then [c]
  else if c.toNat < 0x100 then '\\' :: 'x' :: hex 2 c.toNat
  else if c.toNat < 0x10000 then '\\' :: 'u' :: hex 4 c.toNat
  else '\\' :: 'U' :: hex 8 c.toNat

def quoted (s : String) : String :=
  let cs := s.toList
  let quote := quoteFor cs
  String.ofList (quote :: cs.flatMap (escapeQuoted quote) ++ [quote])

/-- One byte between quotes: only the visible ASCII characters stand for themselves. -/
def escapeByte (quote : Char) (b : UInt8) : List Char :=
  let c := Char.ofNat b.toNat
  if b.toNat < 0x7f then escapeQuoted quote c else '\\' :: 'x' :: hex 2 b.toNat

/-- Bytes between quotes, marked by the letter b. -/
def quotedBytes (bs : List UInt8) : String :=
  let quote := quoteFor (bs.map fun b => Char.ofNat b.toNat)
  String.ofList ('b' :: quote :: bs.flatMap (escapeByte quote) ++ [quote])

end NamingDirectory.Text
