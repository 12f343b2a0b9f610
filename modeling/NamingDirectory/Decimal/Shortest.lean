import NamingDirectory.Decimal.Binary64

/-!
# Shortest decimal text

A floating-point number is written with the fewest decimal digits that read back as the same number,
and with the nearest of those. `Spelling` holds what the written form leaves open.
-/

namespace NamingDirectory

/-- The decimal number `digits * 10 ^ exponent`. -/
structure Decimal where
  digits : Nat
  exponent : Int
deriving DecidableEq

namespace Decimal

/-- A positive number between the two ends of the interval that rounds to it, all three times the
same denominator `den`; the ends belong to the interval when `closed` holds. -/
structure Neighbourhood where
  low : Nat
  mid : Nat
  high : Nat
  den : Nat
  closed : Bool

/-- The interval of reals that round to a positive finite number. Below a power of two the numbers
lie twice as close. -/
def neighbourhood (x : Binary64) : Neighbourhood :=
  let m := x.significand
  let e := x.exponent - 2
  let scale := twoTo e.toNat
  let atPower := m == twoTo 52 && x.exponent != -1074
  { low := (if atPower then 4 * m - 1 else 4 * m - 2) * scale
    mid := 4 * m * scale
    high := (4 * m + 2) * scale
    den := twoTo (-e).toNat
    closed := m % 2 == 0 }

namespace Neighbourhood

/-- The same interval, times a power of ten. -/
def shift (nb : Neighbourhood) (e : Int) : Neighbourhood :=
  let up := tenTo e.toNat
  { nb with low := nb.low * up, mid := nb.mid * up, high := nb.high * up,
            den := nb.den * tenTo (-e).toNat }

/-- Whether an integer lies in the interval. -/
def holds (nb : Neighbourhood) (d : Nat) : Bool :=
  if nb.closed then nb.low ≤ d * nb.den && d * nb.den ≤ nb.high
  else nb.low < d * nb.den && d * nb.den < nb.high

/-- The integer of the interval nearest to its number, out of its two neighbours; of two that are
equally near the even one. -/
def integer? (nb : Neighbourhood) : Option Nat :=
  let d := nb.mid / nb.den
  match nb.holds d, nb.holds (d + 1) with
  | true, true => some (Binary64.divHalfEven nb.mid nb.den)
  | true, false => some d
  | false, true => some (d + 1)
  | false, false => none

end Neighbourhood

/-- The least `j` with `den ≤ num * 10 ^ j`, among those up to the bound. -/
def leadingZeros (num den : Nat) : Nat → Nat
  | 0 => 0
  | bound + 1 => if den ≤ num then 0 else leadingZeros (num * 10) den bound + 1

/-- The exponent `p` for which the ratio lies between `10 ^ (p - 1)` and `10 ^ p`. -/
def magnitude (num den : Nat) : Int :=
  if den ≤ num then Binary64.decimalLength (num / den) else 1 - (leadingZeros num den 400 : Int)

/-- The digits of the first grid, from `count` digits on, that has a point in the interval. -/
def shortestFrom (nb : Neighbourhood) (p : Int) (count : Nat) : Nat → Decimal
  | 0 => ⟨Binary64.divHalfEven (nb.shift (count - p)).mid (nb.shift (count - p)).den, p - count⟩
  | more + 1 =>
    match (nb.shift (count - p)).integer? with
    | some d => ⟨d, p - count⟩
    | none => shortestFrom nb p (count + 1) more

/-- Drops the zeros at the end of the digits. -/
def normal (d : Decimal) : Nat → Decimal
  | 0 => d
  | bound + 1 =>
    if d.digits ≠ 0 ∧ d.digits % 10 = 0 then normal ⟨d.digits / 10, d.exponent + 1⟩ bound else d

/-- The decimal number with the fewest digits that reads back as the positive finite `x`, the nearest
of those. Seventeen digits always suffice. -/
def shortest (x : Binary64) : Decimal :=
  let nb := neighbourhood x
  (shortestFrom nb (magnitude nb.mid nb.den) 1 16).normal 20

def digitsOf (n : Nat) : List Char := Nat.toDigits 10 n

/-- What the written form of a decimal number leaves open: the powers of ten between which the point
is written in its place, and the texts of what is no finite number. -/
structure Spelling where
  least : Int
  most : Int
  infinity : String
  nan : String

/-- Positional from a ten-thousandth up to ten to the power 16; beyond, an exponent with a sign and
two digits or more. -/
def plain : Spelling := ⟨-4, 16, "inf", "nan"⟩

/-- Writes a positive decimal number. `point` is the place of the point, counted from the first
digit. -/
def write (spelling : Spelling) (d : Decimal) : List Char :=
  let ds := digitsOf d.digits
  let point : Int := ds.length + d.exponent
  if spelling.least < point ∧ point ≤ spelling.most then
    if point ≤ 0 then '0' :: '.' :: (List.replicate (-point).toNat '0' ++ ds)
    else if (ds.length : Int) ≤ point then
      ds ++ List.replicate (point - ds.length).toNat '0' ++ ['.', '0']
    else ds.take point.toNat ++ '.' :: ds.drop point.toNat
  else
    let e := point - 1
    let exponent := digitsOf e.natAbs
    let exponent := if exponent.length < 2 then '0' :: exponent else exponent
    let head := match ds with
      | [] => []
      | [c] => [c]
      | c :: cs => c :: '.' :: cs
    head ++ 'e' :: (if e < 0 then '-' else '+') :: exponent

end Decimal

/-- The shortest text of a floating-point number. -/
def Binary64.text (spelling : Decimal.Spelling) (x : Binary64) : String :=
  if x.isNaN then spelling.nan
  else
    let size :=
      if x.isInfinite then spelling.infinity
      else if x.isZero then "0.0"
      else String.ofList ((Decimal.shortest x).write spelling)
    if x.isNegative then "-" ++ size else size

end NamingDirectory
