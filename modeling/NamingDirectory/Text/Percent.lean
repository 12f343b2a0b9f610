import NamingDirectory.Text.Digit
import NamingDirectory.Text.Utf8

/-!
# Percent decoding

A percent sign and two digits in base 16 stand for a byte. The bytes of each stretch of ASCII are read
as UTF-8; a percent sign without its digits stands for itself.
-/

namespace NamingDirectory.Text

/-- The bytes of a stretch of ASCII. -/
def percentBytes : List Char → List UInt8
  | [] => []
  | '%' :: a :: b :: cs =>
    match hexValue? a, hexValue? b with
    | some x, some y => UInt8.ofNat (x * 16 + y) :: percentBytes cs
    | _, _ => 0x25 :: percentBytes (a :: b :: cs)
  | c :: cs => UInt8.ofNat c.toNat :: percentBytes cs

/-- Decodes a text after a stretch of ASCII, which is given backwards. -/
def percentDecodeFrom (stretch : List Char) : List Char → List Char
  | [] => decodeUtf8 (percentBytes stretch.reverse)
  | c :: cs =>
    if c.toNat < 0x80 then percentDecodeFrom (c :: stretch) cs
    else decodeUtf8 (percentBytes stretch.reverse) ++ c :: percentDecodeFrom [] cs

/-- Decodes a text. -/
def percentDecode (cs : List Char) : List Char := percentDecodeFrom [] cs

end NamingDirectory.Text
