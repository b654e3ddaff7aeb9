import PageTree.Number.Shortest

/-!
# Written forms of numbers

How numbers are written in JSON texts and in texts for readers and style sheets. Both forms use
the shortest decimal; they differ in where an exponent begins, in whether a whole number keeps a
fraction digit, and in which way a tie between two shortest decimals goes.

## Main definitions

* `Binary64.jsonText`: a finite number in a JSON text
* `Binary64.plainText`: any number as a reader sees it, never with an exponent
-/

namespace PageTree

namespace Decimal

/-- The digits as characters. -/
def digitChars (d : Decimal) : List Char := Nat.toDigits 10 d.digits

/-- The power of ten of the first digit. -/
def leadingPower (d : Decimal) : Int := d.digitChars.length - 1 + d.power

/-- Positional notation: whole part, and a point with the fraction if there is one. -/
def positional (d : Decimal) : List Char :=
  let digits := d.digitChars
  if 0 ≤ d.power then digits ++ List.replicate d.power.toNat '0'
  else
    let places := (-d.power).toNat
    if places < digits.length then
      digits.take (digits.length - places) ++ '.' :: digits.drop (digits.length - places)
    else '0' :: '.' :: List.replicate (places - digits.length) '0' ++ digits

/-- One digit, a point with the other digits if there are any, and the exponent with its sign. -/
def scientific (d : Decimal) : List Char :=
  let exponent := d.leadingPower
  let mantissa :=
    match d.digitChars with
    | [] => []
    | [digit] => [digit]
    | digit :: digits => digit :: '.' :: digits
  mantissa ++ 'e' :: (if exponent < 0 then '-' else '+') :: Nat.toDigits 10 exponent.natAbs

end Decimal

namespace Binary64

/-- The sign in front of a number's digits. -/
def signChars (x : Binary64) : List Char := if x.isNegative then ['-'] else []

/-- A finite number in a JSON text: positional with at least one fraction digit from `10 ^ -5`
and below `10 ^ 16`, else with an exponent; of two shortest decimals the even one. -/
def jsonText (x : Binary64) : List Char :=
  let d := x.shortest .even
  x.signChars ++
    if x.isZero then ['0', '.', '0']
    else if d.leadingPower < -5 || 16 ≤ d.leadingPower then d.scientific
    else if 0 ≤ d.power then d.positional ++ ['.', '0']
    else d.positional

/-- A number for readers: positional however large or small it is, without a fraction when it is
whole; of two shortest decimals the greater one. -/
def plainText (x : Binary64) : List Char :=
  if x.isNaN then ['N', 'a', 'N']
  else x.signChars ++ if x.isFinite then (x.shortest .up).positional else ['i', 'n', 'f']

/-- All digits of a whole number. -/
def wholeText (x : Binary64) : List Char :=
  x.signChars ++ Nat.toDigits 10 x.wholePart

end Binary64

end PageTree
