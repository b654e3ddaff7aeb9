import PageTree.Number.Binary64

/-!
# Reading numerals

Two ways from digits to numbers. A JSON number is an integer while its digits fit into 64 bits and
otherwise a 64 bit float that is found by scaling: as many leading digits as fit into 64 bits are
rounded to a float, which is then multiplied or divided by a power of ten, with rounding at each
step. A number typed by a user is rounded once, exactly.

## Main definitions

* `Number`: an integer or a float
* `Numeral`: the parts of a numeral, and `Numeral.number?`, what it stands for in a JSON text
* `Binary64.ofUserText`: what a text typed by a user stands for
-/

namespace PageTree

/-- A number of a JSON text: integers and floats are kept apart, so `1` differs from `1.0`. -/
inductive Number where
  /-- An integer, at least `-2 ^ 63` and below `2 ^ 64` when it was read from a text. -/
  | int (value : Int)
  /-- A float, finite when it was read from a text. -/
  | float (value : Binary64)
  deriving DecidableEq, Repr

namespace Number

/-- The nearest float. -/
def toBinary64 : Number → Binary64
  | .int value => .ofInt value
  | .float value => value

/-- Equality of numbers of one kind; floats are compared as numbers. -/
def same : Number → Number → Bool
  | .int a, .int b => a == b
  | .float a, .float b => a.equal b
  | _, _ => false

end Number

/-- The parts of a numeral. -/
structure Numeral where
  /-- The numeral begins with a minus sign. -/
  negative : Bool
  /-- The digits before the point. -/
  whole : List Nat
  /-- The digits after the point, if there is a point. -/
  fraction : Option (List Nat)
  /-- The exponent, if one is written. -/
  exponent : Option Int
  deriving Repr

/-- The digits taken up so far: a natural below `2 ^ 64` and the power of ten it is short of. -/
structure Taken where
  /-- The digits that fit. -/
  digits : Nat
  /-- The power of ten that they stand in front of. -/
  power : Int
  deriving Repr

namespace Taken

/-- Takes up digits before the point; from the first that does not fit on they only count. -/
def whole (t : Taken) : List Nat → Taken
  | [] => t
  | d :: ds =>
    if t.digits * 10 + d < twoTo 64 then whole { t with digits := t.digits * 10 + d } ds
    else { t with power := t.power + (ds.length + 1) }

/-- Takes up digits after the point; from the first that does not fit on they are ignored. -/
def fraction (t : Taken) : List Nat → Taken
  | [] => t
  | d :: ds =>
    if t.digits * 10 + d < twoTo 64 then
      fraction { digits := t.digits * 10 + d, power := t.power - 1 } ds
    else t

end Taken

namespace Binary64

/-- A finite number without sign times a power of ten, unless the result is too large. A power
below that of the least number is divided out in two steps; below twice that nothing is left. -/
def timesPowerOfTen? (x : Binary64) (power : Int) : Option Binary64 :=
  if 308 < power then
    if x.isZero then some x else none
  else if 0 ≤ power then
    let product := x.times (powerOfTen power.toNat)
    if product.isFinite then some product else none
  else if -308 ≤ power then some (x.dividedBy (powerOfTen (-power).toNat))
  else if -616 ≤ power then
    some ((x.dividedBy (powerOfTen 308)).dividedBy (powerOfTen (-power - 308).toNat))
  else some zero

/-- The number with the sign changed. -/
def negate (x : Binary64) : Binary64 := ofMagnitude (!x.isNegative) x.magnitude

end Binary64

namespace Numeral

/-- What a numeral stands for in a JSON text; nothing when it is too large for a float. Negative
zero is a float, since integers have one zero only. -/
def number? (n : Numeral) : Option Number :=
  let taken := Taken.whole ⟨0, 0⟩ n.whole
  let float (t : Taken) : Option Number :=
    ((Binary64.ofInt t.digits).timesPowerOfTen? t.power).map fun x =>
      .float (if n.negative then x.negate else x)
  match n.fraction, n.exponent with
  | none, none =>
    if taken.power ≠ 0 then float taken
    else if !n.negative then some (.int taken.digits)
    else if taken.digits = 0 ∨ twoTo 63 < taken.digits then float taken
    else some (.int (-taken.digits))
  | fraction, exponent =>
    let t := taken.fraction (fraction.getD [])
    float { t with power := t.power + exponent.getD 0 }

end Numeral

/-- The value of a decimal digit. -/
def digitValue (c : Char) : Nat := c.toNat - '0'.toNat

/-- Digits read as one natural. -/
def naturalOf (digits : List Nat) : Nat :=
  digits.foldl (fun n d => 10 * n + d) 0

/-- Splits a sign off a text: whether it is a minus, and the rest. A missing sign is a plus. -/
def splitSign : List Char → Bool × List Char
  | '-' :: rest => (true, rest)
  | '+' :: rest => (false, rest)
  | text => (false, text)

/-- The digits at the start of a text, and the rest. -/
def splitDigits (text : List Char) : List Nat × List Char :=
  ((text.takeWhile Char.isDigit).map digitValue, text.dropWhile Char.isDigit)

/-- The exponent written by a text that is either empty or a mark `e`, a sign and digits. -/
def exponent? : List Char → Option Int
  | [] => some 0
  | c :: rest =>
    if c = 'e' ∨ c = 'E' then
      let (negative, rest) := splitSign rest
      match splitDigits rest with
      | (d :: ds, []) =>
        let n : Nat := naturalOf (d :: ds)
        some (if negative then -n else n)
      | _ => none
    else none

/-- The number that a text without white space around it stands for when a user typed it: an
optional sign, then digits with an optional point among or around them and an optional exponent,
or one of the words for infinity and not a number in letters of either case. -/
def Binary64.ofUserText (text : List Char) : Option Binary64 :=
  let (negative, rest) := splitSign text
  let word := String.ofList (rest.map Char.toLower)
  if word = "inf" ∨ word = "infinity" then some (.ofMagnitude negative Binary64.infinity)
  else if word = "nan" then some .nan
  else
    let (whole, rest) := splitDigits rest
    let (fraction, rest) :=
      match rest with
      | '.' :: rest => splitDigits rest
      | rest => ([], rest)
    if whole.isEmpty && fraction.isEmpty then none
    else (exponent? rest).map fun exponent =>
      .ofDecimal negative (naturalOf (whole ++ fraction)) (exponent - fraction.length)

end PageTree
