import PageTree.Number.Power

/-!
# Double precision numbers

The numbers of the IEEE format with 64 bits, kept as their bits. Everything is exact: a finite
number is `significand * 2 ^ exponent` up to sign, a ratio of naturals is rounded to the nearest
number with ties to the even significand, and comparison goes by an integer key.

The bits without the sign are called the *magnitude*. They order the numbers without sign by
size, from zero over the subnormal and the normal numbers to infinity, and they are what rounding
computes: with significand `m` and exponent `e` the magnitude is `(e + 1074) * 2 ^ 52 + m`, for
subnormal and for normal numbers alike, also when rounding carries `m` up to `2 ^ 53`.
-/

namespace PageTree

/-- A number of the 64 bit format, given by its bits. -/
structure Binary64 where
  /-- Sign, exponent and fraction, from the highest bit down. -/
  bits : UInt64
  deriving DecidableEq, Repr

namespace Binary64

/-- The magnitude of infinity; a greater magnitude is not a number. -/
def infinity : Nat := 2047 * twoTo 52

/-- The bits without the sign. -/
def magnitude (x : Binary64) : Nat := x.bits.toNat % twoTo 63

/-- The sign bit is set. -/
def isNegative (x : Binary64) : Bool := twoTo 63 ≤ x.bits.toNat

/-- The number is not a number. -/
def isNaN (x : Binary64) : Bool := infinity < x.magnitude

/-- The number is neither infinite nor not a number. -/
def isFinite (x : Binary64) : Bool := x.magnitude < infinity

/-- The number is zero, of either sign. -/
def isZero (x : Binary64) : Bool := x.magnitude = 0

/-- The number with this sign and magnitude. -/
def ofMagnitude (negative : Bool) (magnitude : Nat) : Binary64 :=
  ⟨UInt64.ofNat (if negative then magnitude + twoTo 63 else magnitude)⟩

/-- Positive zero. -/
def zero : Binary64 := ofMagnitude false 0

/-- One. -/
def one : Binary64 := ofMagnitude false (1023 * twoTo 52)

/-- The number that is not a number. -/
def nan : Binary64 := ofMagnitude false (infinity + twoTo 51)

instance : Inhabited Binary64 := ⟨zero⟩

/-- The natural `m` of a finite number `± m * 2 ^ e`. -/
def significand (x : Binary64) : Nat :=
  if x.magnitude < twoTo 52 then x.magnitude else x.magnitude % twoTo 52 + twoTo 52

/-- The integer `e` of a finite number `± m * 2 ^ e`. -/
def exponent (x : Binary64) : Int :=
  if x.magnitude < twoTo 52 then -1074 else (x.magnitude / twoTo 52 : Nat) - 1075

/-- The quotient of two naturals rounded to the nearest natural, a half to the even one. -/
def divideEven (num den : Nat) : Nat :=
  let quotient := num / den
  let rest := 2 * (num % den)
  if rest < den then quotient
  else if den < rest then quotient + 1
  else quotient + quotient % 2

/-- The exponent at which the quotient `num / den` has a significand of 53 bits, or the least
exponent of the format when that is greater. -/
def exponentFor (num den : Nat) : Int :=
  let guess : Int := (num.log2 : Int) - den.log2 - 53
  let fits := if 0 ≤ guess then num < den * twoTo guess.toNat * twoTo 53
    else num * twoTo (-guess).toNat < den * twoTo 53
  max (if fits then guess else guess + 1) (-1074)

/-- The magnitude nearest to the quotient `num / den` of two positive naturals, at most that of
infinity. -/
def roundRatio (num den : Nat) : Nat :=
  if num = 0 then 0
  else
    let e := exponentFor num den
    let m := if 0 ≤ e then divideEven num (den * twoTo e.toNat)
      else divideEven (num * twoTo (-e).toNat) den
    min ((e + 1074).toNat * twoTo 52 + m) infinity

/-- The number nearest to `± digits * 10 ^ power`. Powers beyond the range of the format decide
the answer before a power of ten is formed. -/
def ofDecimal (negative : Bool) (digits : Nat) (power : Int) : Binary64 :=
  let places : Int := (Nat.toDigits 10 digits).length
  ofMagnitude negative <|
    if digits = 0 then 0
    else if 310 < places + power then infinity
    else if places + power < -330 then 0
    else if 0 ≤ power then roundRatio (digits * tenTo power.toNat) 1
    else roundRatio digits (tenTo (-power).toNat)

/-- The number nearest to an integer. -/
def ofInt (i : Int) : Binary64 :=
  ofMagnitude (i < 0) (roundRatio i.natAbs 1)

/-- The number nearest to `± num / den * 2 ^ power`. -/
def ofScaled (negative : Bool) (num den : Nat) (power : Int) : Binary64 :=
  ofMagnitude negative (roundRatio (num * twoTo power.toNat) (den * twoTo (-power).toNat))

/-- The product of two finite numbers, rounded to the nearest number. -/
def times (x y : Binary64) : Binary64 :=
  ofScaled (x.isNegative != y.isNegative) (x.significand * y.significand) 1
    (x.exponent + y.exponent)

/-- The quotient of two finite numbers, the second not zero, rounded to the nearest number. -/
def dividedBy (x y : Binary64) : Binary64 :=
  ofScaled (x.isNegative != y.isNegative) x.significand y.significand (x.exponent - y.exponent)

/-- The number nearest to a power of ten. -/
def powerOfTen (n : Nat) : Binary64 := ofDecimal false 1 n

/-- The integer by which numbers are ordered: both zeros have the key zero. -/
def key (x : Binary64) : Int :=
  if x.isNegative then -(x.magnitude : Int) else x.magnitude

/-- How two numbers compare; nothing compares with what is not a number. -/
def compare? (x y : Binary64) : Option Ordering :=
  if x.isNaN || y.isNaN then none else some (compare x.key y.key)

/-- The numbers are equal as numbers: zeros of either sign are, and nothing equals what is not a
number. -/
def equal (x y : Binary64) : Bool :=
  !x.isNaN && !y.isNaN && x.key == y.key

/-- The whole part of the absolute value of a finite number. -/
def wholePart (x : Binary64) : Nat :=
  if 0 ≤ x.exponent then x.significand * twoTo x.exponent.toNat
  else x.significand / twoTo (-x.exponent).toNat

/-- The number is finite and an integer. -/
def isWhole (x : Binary64) : Bool :=
  x.isFinite && (0 ≤ x.exponent || x.significand % twoTo (-x.exponent).toNat == 0)

end Binary64

end PageTree
