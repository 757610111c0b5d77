import FieldQuery.Binary64

/-!
# Shortest decimals

The shortest decimal of a float is the one with the fewest digits that reads
back as the same float, and among those the nearest. The reals that round to
a float `m * 2 ^ q` form an interval, whose ends belong to it exactly when
`m` is even. On the grid of decimals with a given number of digits only the
two neighbours of the float need to be tried, and the first grid with a hit
holds the answer. Seventeen digits always suffice.
-/

namespace FieldQuery

/-- The decimal number `digits * 10 ^ scale`. -/
structure Decimal where
  digits : Nat
  scale : Int
deriving DecidableEq

namespace Decimal

open Binary64 (Fraction)

/-- Whether one fraction is below another. -/
def below
    (a b : Fraction) :
    Bool :=
  a.numerator * b.denominator < b.numerator * a.denominator

/-- The reals that round to one float. -/
structure Interval where
  lower : Fraction
  upper : Fraction
  closed : Bool

/-- Whether a fraction lies in an interval. -/
def Interval.contains
    (interval : Interval)
    (f : Fraction) :
    Bool :=
  if interval.closed then
    !below f interval.lower && !below interval.upper f
  else
    below interval.lower f && below f interval.upper

/--
The interval of a positive finite float. Below a power of two the
neighbouring float is only half as far away as above it.
-/
def roundingInterval
    (x : Binary64) :
    Interval :=
  let m := x.significand
  let q := x.exponent
  let narrow := m = 4503599627370496 && -1074 < q
  { lower := if narrow then .scaled (4 * m - 1) (q - 2) else .scaled (2 * m - 1) (q - 1)
    upper := .scaled (2 * m + 1) (q - 1)
    closed := m % 2 = 0 }

/--
The exponent of the leading decimal digit of a positive fraction that is not
below `10 ^ (-400)`.
-/
def leadingExponent
    (f : Fraction) :
    Int :=
  (Nat.toDigits 10 (f.numerator * Nat.pow 10 400 / f.denominator)).length - 401

/-- The two neighbours of a fraction on the grid of multiples of `10 ^ scale`. -/
def neighbours
    (f : Fraction)
    (scale : Int) :
    Nat × Nat :=
  let unit := Fraction.decimal 1 scale
  let lower := f.numerator * unit.denominator / (f.denominator * unit.numerator)
  (lower, lower + 1)

/-- Whether the upper of two neighbours is the nearer one; `tieUp` settles a tie. -/
def upperIsNearer
    (tieUp : Bool)
    (f : Fraction)
    (scale : Int)
    (lower : Nat) :
    Bool :=
  let middle := (Fraction.decimal (2 * lower + 1) scale).div ⟨2, 1⟩
  below middle f || (tieUp && !below f middle)

/-- The decimal on one grid that reads back as the float, if there is one. -/
def onGrid?
    (tieUp : Bool)
    (f : Fraction)
    (interval : Interval)
    (scale : Int) :
    Option Nat :=
  let (lower, upper) := neighbours f scale
  let lowerFits := interval.contains (.decimal lower scale)
  let upperFits := interval.contains (.decimal upper scale)
  if lowerFits && upperFits then
    some (if upperIsNearer tieUp f scale lower then upper else lower)
  else if lowerFits then
    some lower
  else if upperFits then
    some upper
  else
    none

/-- Tries finer and finer grids, as many as `grids` says. -/
def searchGrids
    (tieUp : Bool)
    (f : Fraction)
    (interval : Interval)
    (scale : Int) :
    Nat → Decimal
  | 0 => ⟨(neighbours f scale).1, scale⟩
  | grids + 1 =>
      match onGrid? tieUp f interval scale with
      | some digits => ⟨digits, scale⟩
      | none => searchGrids tieUp f interval (scale - 1) grids

/-- The shortest decimal of the magnitude of a finite float. -/
def shortest
    (tieUp : Bool)
    (x : Binary64) :
    Decimal :=
  if x.rank = 0 then
    ⟨0, 0⟩
  else
    let f := x.magnitude
    searchGrids tieUp f (roundingInterval x) (leadingExponent f) 17

end Decimal
end FieldQuery
