import NamingDirectory.Text.Digit

/-!
# Internet addresses

Whether a text is an address of version 4 or 6 of the Internet protocol.
-/

namespace NamingDirectory.Url

/-- The parts of a text between the copies of a character. -/
def splitAt (c : Char) : List Char → List (List Char)
  | [] => [[]]
  | d :: cs =>
    if d == c then [] :: splitAt c cs
    else match splitAt c cs with
      | [] => [[d]]
      | part :: parts => (d :: part) :: parts

/-- One of the four numbers of an address: up to 255, without zeros in front. -/
def isOctet (cs : List Char) : Bool :=
  !cs.isEmpty && cs.length ≤ 3 && cs.all Char.isDigit && (cs.length == 1 || cs.head? != some '0') &&
    cs.foldl (fun n c => n * 10 + (c.toNat - 48)) 0 ≤ 255

def isIpv4 (cs : List Char) : Bool :=
  let parts := splitAt '.' cs
  parts.length == 4 && parts.all isOctet

/-- One of the eight numbers of an address of version 6: up to four digits in base 16. -/
def isHextet (cs : List Char) : Bool := !cs.isEmpty && cs.length ≤ 4 && cs.all Text.isHexDigit

/-- The parts between the colons, with an address of version 4 at the end counted as two. -/
def hextets? (cs : List Char) : Option (List (List Char)) :=
  let parts := splitAt ':' cs
  if parts.length < 3 then none
  else match parts.reverse with
    | last :: before =>
      if last.contains '.' then
        if isIpv4 last then some (before.reverse ++ [['0'], ['0']]) else none
      else some parts
    | [] => none

/-- The places of the empty parts that are not at an end. -/
def gaps (parts : List (List Char)) : List Nat :=
  (List.range parts.length).filter fun i =>
    0 < i && i + 1 < parts.length && (parts[i]?.map (·.isEmpty)) == some true

/-- Whether a text is an address of version 6 without a zone: eight numbers, or fewer with one gap. An
empty part at an end belongs to a gap right beside it. -/
def isIpv6 (cs : List Char) : Bool :=
  match hextets? cs with
  | none => false
  | some parts =>
    match gaps parts with
    | [] => parts.length == 8 && parts.all isHextet
    | [gap] =>
      let front := parts.take gap
      let back := parts.drop (gap + 1)
      let front' := if front.head? == some [] then front.drop 1 else front
      let back' := if back.getLast? == some [] then back.dropLast else back
      (front'.length == front.length || front'.isEmpty) &&
        (back'.length == back.length || back'.isEmpty) &&
        front'.length + back'.length ≤ 7 && (front' ++ back').all isHextet
    | _ => false

/-- Whether a text is an address of version 6, with or without a zone. -/
def isIpv6WithZone (cs : List Char) : Bool :=
  match splitAt '%' cs with
  | [address] => isIpv6 address
  | [address, zone] => !zone.isEmpty && isIpv6 address
  | _ => false

end NamingDirectory.Url
