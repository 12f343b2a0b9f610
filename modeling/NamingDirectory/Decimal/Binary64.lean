/-!
# Binary floating-point numbers

Numbers in the format binary64, held as their bit patterns, with exact conversions to and from
ratios of integers. `nearest` rounds a ratio to the closest number, a tie to the even one.
-/

namespace NamingDirectory

def twoTo (n : Nat) : Nat := Nat.pow 2 n

def tenTo (n : Nat) : Nat := Nat.pow 10 n

/-- A floating-point number in the format binary64. -/
structure Binary64 where
  bits : UInt64
deriving DecidableEq

namespace Binary64

/-- The number with the given sign bit and the other 63 bits. -/
def ofParts (negative : Bool) (rest : Nat) : Binary64 :=
  ⟨UInt64.ofNat ((if negative then twoTo 63 else 0) + rest)⟩

def isNegative (x : Binary64) : Bool := twoTo 63 ≤ x.bits.toNat

/-- The eleven bits of the exponent. -/
def exponentField (x : Binary64) : Nat := x.bits.toNat / twoTo 52 % 2048

/-- The 52 stored bits of the significand. -/
def fraction (x : Binary64) : Nat := x.bits.toNat % twoTo 52

def isNaN (x : Binary64) : Bool := x.exponentField == 2047 && x.fraction != 0

def isInfinite (x : Binary64) : Bool := x.exponentField == 2047 && x.fraction == 0

def isFinite (x : Binary64) : Bool := x.exponentField != 2047

/-- The size of a finite number is `significand * 2 ^ exponent`. -/
def significand (x : Binary64) : Nat :=
  if x.exponentField = 0 then x.fraction else twoTo 52 + x.fraction

/-- The size of a finite number is `significand * 2 ^ exponent`. -/
def exponent (x : Binary64) : Int :=
  if x.exponentField = 0 then -1074 else (x.exponentField : Int) - 1075

def isZero (x : Binary64) : Bool := x.isFinite && x.significand == 0

def infinityBits : Nat := 2047 * twoTo 52

def infinity (negative : Bool) : Binary64 := ofParts negative infinityBits

def nan : Binary64 := ofParts false (infinityBits + twoTo 51)

/-- The quotient rounded to the nearest integer, a half to the even one. -/
def divHalfEven (num den : Nat) : Nat :=
  let floor := num / den
  let twice := 2 * (num % den)
  if twice < den then floor
  else if den < twice then floor + 1
  else floor + floor % 2

/-- The ratio `num / den` times `2 ^ e`, again as a ratio. -/
def scaleTwo (num den : Nat) (e : Int) : Nat × Nat :=
  (num * twoTo e.toNat, den * twoTo (-e).toNat)

/-- The exponent that gives `num / den` a significand of 53 bits, or the least there is. -/
def exponentFor (num den : Nat) : Int :=
  let guess : Int := (num.log2 : Int) - den.log2 - 52
  let (n, d) := scaleTwo num den (-guess)
  max (-1074) (if n / d < twoTo 52 then guess - 1 else guess)

/-- The number nearest to `num / den` with the given sign, a tie going to the even significand; past
the largest number it is an infinity. A carry out of the significand raises the exponent field by
itself. -/
def nearest (negative : Bool) (num den : Nat) : Binary64 :=
  if num = 0 then ofParts negative 0
  else
    let e := exponentFor num den
    let (n, d) := scaleTwo num den (-e)
    ofParts negative (min infinityBits ((e + 1074).toNat * twoTo 52 + divHalfEven n d))

def decimalLength (n : Nat) : Nat := (Nat.toDigits 10 n).length

/-- The number nearest to `digits * 10 ^ e`. Beyond ten to the power 310 all is infinite, and below
ten to the power -330 all is zero. -/
def ofDecimal (negative : Bool) (digits : Nat) (e : Int) : Binary64 :=
  if digits = 0 then ofParts negative 0
  else
    let size := decimalLength digits + e
    if 310 < size then infinity negative
    else if size < -330 then ofParts negative 0
    else nearest negative (digits * tenTo e.toNat) (tenTo (-e).toNat)

/-- The number nearest to an integer, if it is finite. -/
def ofInt? (i : Int) : Option Binary64 :=
  let x := nearest (i < 0) i.natAbs 1
  if x.isFinite then some x else none

/-- The integer part of a finite number. -/
def truncate (x : Binary64) : Int :=
  let (n, d) := scaleTwo x.significand 1 x.exponent
  if x.isNegative then -((n / d : Nat) : Int) else ((n / d : Nat) : Int)

def equalsInt (x : Binary64) (i : Int) : Bool :=
  let (n, d) := scaleTwo x.significand 1 x.exponent
  x.isFinite && n % d == 0 && x.truncate == i

/-- Equality of numbers: the zeros are equal, and what is not a number equals nothing. -/
def equals (x y : Binary64) : Bool :=
  !x.isNaN && !y.isNaN && (x == y || (x.isZero && y.isZero))

end Binary64
end NamingDirectory
