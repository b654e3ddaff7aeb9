import PageTree.Number.Binary64

/-!
# Shortest decimals

The fewest decimal digits that still determine a number of the 64 bit format. The reals that
round to a number form an interval around it; its ends belong to it when the significand is even.
Going down the decimal grids `10 ^ g` from a coarse one, the first grid with a point in the
interval carries the shortest decimals, and of its two points next to the number the nearer one is
taken.

## Main definitions

* `Binary64.shortest`: the digits and the power of ten of the shortest decimal
-/

namespace PageTree

/-- Which of two decimals equally near to a number is taken. -/
inductive TieRule where
  /-- The one whose last digit is even. -/
  | even
  /-- The greater one. -/
  | up
  deriving DecidableEq, Repr

/-- A decimal without sign, `digits * 10 ^ power`. -/
structure Decimal where
  /-- The digits read as one natural. -/
  digits : Nat
  /-- The power of ten that they are multiplied by. -/
  power : Int
  deriving DecidableEq, Repr

namespace Binary64

/-- A number with its rounding interval, all three in units of `1 / unit`. -/
structure Interval where
  /-- The lower end. -/
  low : Nat
  /-- The number itself. -/
  middle : Nat
  /-- The upper end. -/
  high : Nat
  /-- What one is in these units. -/
  unit : Nat
  /-- The ends belong to the interval. -/
  closed : Bool

/-- The reals that round to a finite number without sign. Below a power of two the numbers lie
twice as dense, so the lower half of its interval is half as wide. -/
def interval (x : Binary64) : Interval :=
  let m := x.significand
  let narrow := m = twoTo 52 ∧ -1074 < x.exponent
  let e := x.exponent - 2
  let scale := twoTo e.toNat
  { low := (if narrow then 4 * m - 1 else 4 * m - 2) * scale
    middle := 4 * m * scale
    high := (4 * m + 2) * scale
    unit := twoTo (-e).toNat
    closed := m % 2 = 0 }

namespace Interval

/-- The point `k` of a grid lies in the interval; `step` is the distance of two points and `zoom`
refines the units of the interval. -/
def holds (i : Interval) (zoom step k : Nat) : Bool :=
  if i.closed then i.low * zoom ≤ k * step && k * step ≤ i.high * zoom
  else i.low * zoom < k * step && k * step < i.high * zoom

/-- The point of the grid `10 ^ power` nearest to the middle among those in the interval. -/
def nearest? (i : Interval) (tie : TieRule) (power : Int) : Option Nat :=
  let zoom := tenTo (-power).toNat
  let step := i.unit * tenTo power.toNat
  let below := i.middle * zoom / step
  let above := below + 1
  match 0 < below && i.holds zoom step below, i.holds zoom step above with
  | false, false => none
  | true, false => some below
  | false, true => some above
  | true, true =>
    let rest := 2 * (i.middle * zoom % step)
    some <|
      if rest < step then below
      else if step < rest then above
      else
        match tie with
        | .up => above
        | .even => if below % 2 = 0 then below else above

/-- The first grid with a point in the interval, from the grid `10 ^ power` down. -/
def search (i : Interval) (tie : TieRule) : Nat → Int → Option Decimal
  | 0, _ => none
  | tries + 1, power =>
    match i.nearest? tie power with
    | some digits => some ⟨digits, power⟩
    | none => i.search tie tries (power - 1)

end Interval

/-- A power of ten above a finite number that is not zero. -/
def coarsePower (x : Binary64) : Int :=
  ((x.significand.log2 : Int) + x.exponent + 1) * 30103 / 100000 + 2

/-- The shortest decimal of a finite number without its sign. Seventeen digits determine every
number, so the search ends within its tries. -/
def shortest (x : Binary64) (tie : TieRule) : Decimal :=
  if x.isZero then ⟨0, 0⟩
  else (x.interval.search tie 24 x.coarsePower).getD ⟨0, 0⟩

end Binary64

end PageTree
