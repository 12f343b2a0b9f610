/-!
# Reading UTF-8

Bytes are read as UTF-8 text. Every maximal start of a sequence that is not completed becomes one
replacement character, and so does every byte that starts no sequence.
-/

namespace NamingDirectory.Text

/-- The character that stands for what cannot be read. -/
def replacement : Char := Char.ofNat 0xfffd

/-- A started sequence: the code read so far, how many bytes are missing, and the range in which the next
one lies. -/
structure Pending where
  code : Nat
  missing : Nat
  low : Nat
  high : Nat

/-- The sequence that a byte above 127 starts, if it starts one. -/
def start? (b : Nat) : Option Pending :=
  if 0xc2 ≤ b && b ≤ 0xdf then some ⟨b - 0xc0, 1, 0x80, 0xbf⟩
  else if b == 0xe0 then some ⟨0, 2, 0xa0, 0xbf⟩
  else if b == 0xed then some ⟨0xd, 2, 0x80, 0x9f⟩
  else if 0xe1 ≤ b && b ≤ 0xef then some ⟨b - 0xe0, 2, 0x80, 0xbf⟩
  else if b == 0xf0 then some ⟨0, 3, 0x90, 0xbf⟩
  else if 0xf1 ≤ b && b ≤ 0xf3 then some ⟨b - 0xf0, 3, 0x80, 0xbf⟩
  else if b == 0xf4 then some ⟨4, 3, 0x80, 0x8f⟩
  else none

/-- What a byte gives outside a sequence: characters, and the sequence that it starts. -/
def fresh (b : Nat) : List Char × Option Pending :=
  if b < 0x80 then ([Char.ofNat b], none)
  else match start? b with
    | some p => ([], some p)
    | none => ([replacement], none)

/-- What a byte gives after a started sequence. -/
def continued (p : Pending) (b : Nat) : List Char × Option Pending :=
  if p.low ≤ b && b ≤ p.high then
    let code := p.code * 0x40 + (b - 0x80)
    if p.missing ≤ 1 then ([Char.ofNat code], none)
    else ([], some ⟨code, p.missing - 1, 0x80, 0xbf⟩)
  else
    let (cs, next) := fresh b
    (replacement :: cs, next)

/-- Reads bytes after a sequence that may have been started. -/
def decodeFrom : Option Pending → List UInt8 → List Char
  | none, [] => []
  | some _, [] => [replacement]
  | pending, b :: bs =>
    let (cs, next) := match pending with
      | none => fresh b.toNat
      | some p => continued p b.toNat
    cs ++ decodeFrom next bs

/-- Reads bytes as UTF-8 text. -/
def decodeUtf8 (bs : List UInt8) : List Char := decodeFrom none bs

end NamingDirectory.Text
