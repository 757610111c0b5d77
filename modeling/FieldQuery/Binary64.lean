/-!
# Binary floating point

A 64-bit float is a sign and a rank. The rank is the place of its magnitude
in the ascending order of all magnitudes: zero has rank zero, and the next
float away from zero has the next rank. Infinity has the last rank, and there
is no value that is not a number.

The lower 63 bits of the interchange format are exactly this rank, so the
order of floats, their bits and their rounding are all integer arithmetic.
-/

namespace FieldQuery

/-- A 64-bit float other than the ones that are not a number. -/
structure Binary64 where
  negative : Bool
  rank : Nat
  rank_le : rank ≤ 9218868437227405312
deriving DecidableEq

namespace Binary64

/-- The rank of infinity. -/
def infinityRank : Nat :=
  9218868437227405312

/-- The float of a given sign and rank; ranks past infinity are infinity. -/
def ofRank
    (negative : Bool)
    (rank : Nat) :
    Binary64 :=
  ⟨negative, min rank infinityRank, Nat.min_le_right _ _⟩

/-- Whether a float is one of the two infinities. -/
def isInfinite
    (x : Binary64) :
    Bool :=
  x.rank = infinityRank

/-- The sixty-four bits of the interchange format. -/
def bits
    (x : Binary64) :
    Nat :=
  if x.negative then
    9223372036854775808 + x.rank
  else
    x.rank

/-- Position in the numeric order, where the two zeros coincide. -/
def position
    (x : Binary64) :
    Int :=
  if x.negative then
    -(x.rank : Int)
  else
    x.rank

/-- The integer part `m` of a magnitude `m * 2 ^ q`. -/
def significand
    (x : Binary64) :
    Nat :=
  if x.rank < 4503599627370496 then
    x.rank
  else
    4503599627370496 + x.rank % 4503599627370496

/-- The power `q` of a magnitude `m * 2 ^ q`. -/
def exponent
    (x : Binary64) :
    Int :=
  if x.rank < 4503599627370496 then
    -1074
  else
    (x.rank / 4503599627370496 : Nat) - 1075

/-- A magnitude as a fraction. -/
structure Fraction where
  numerator : Nat
  denominator : Nat
deriving DecidableEq

/-- The fraction `m * 2 ^ q`. -/
def Fraction.scaled
    (m : Nat)
    (q : Int) :
    Fraction :=
  if 0 ≤ q then
    ⟨m * Nat.pow 2 q.toNat, 1⟩
  else
    ⟨m, Nat.pow 2 (-q).toNat⟩

/-- The fraction `m * 10 ^ k`. -/
def Fraction.decimal
    (m : Nat)
    (k : Int) :
    Fraction :=
  if 0 ≤ k then
    ⟨m * Nat.pow 10 k.toNat, 1⟩
  else
    ⟨m, Nat.pow 10 (-k).toNat⟩

/-- The product of two fractions. -/
def Fraction.mul
    (a b : Fraction) :
    Fraction :=
  ⟨a.numerator * b.numerator, a.denominator * b.denominator⟩

/-- The quotient of two fractions. -/
def Fraction.div
    (a b : Fraction) :
    Fraction :=
  ⟨a.numerator * b.denominator, a.denominator * b.numerator⟩

/-- The magnitude of a finite float. -/
def magnitude
    (x : Binary64) :
    Fraction :=
  .scaled x.significand x.exponent

/-- A quotient rounded to the nearest integer, where a tie goes to the even one. -/
def roundHalfEven
    (numerator denominator : Nat) :
    Nat :=
  let whole := numerator / denominator
  let twice := 2 * (numerator % denominator)
  if twice < denominator then
    whole
  else if denominator < twice then
    whole + 1
  else
    whole + whole % 2

/-- The integer `e` with `2 ^ e ≤ f < 2 ^ (e + 1)` of a positive fraction. -/
def Fraction.log2
    (f : Fraction) :
    Int :=
  let guess := (f.numerator.log2 : Int) - f.denominator.log2
  let reached :=
    if 0 ≤ guess then
      f.denominator * Nat.pow 2 guess.toNat ≤ f.numerator
    else
      f.denominator ≤ f.numerator * Nat.pow 2 (-guess).toNat
  if reached then
    guess
  else
    guess - 1

/--
The rank of the float nearest to a fraction. The significand has 53 bits, or
fewer where the exponent cannot sink any further, and a significand that
rounds up to the next power of two carries into the next rank by itself.
-/
def nearestRank
    (f : Fraction) :
    Nat :=
  if f.numerator = 0 then
    0
  else
    let q := max (f.log2 - 52) (-1074)
    let unit := Fraction.scaled 1 q
    (q + 1074).toNat * 4503599627370496 +
      roundHalfEven
        (f.numerator * unit.denominator)
        (f.denominator * unit.numerator)

/-- The float nearest to a signed fraction; a tie goes to the even one. -/
def nearest
    (negative : Bool)
    (f : Fraction) :
    Binary64 :=
  ofRank negative (nearestRank f)

/-- The float nearest to an integer. -/
def ofInt
    (i : Int) :
    Binary64 :=
  nearest (i < 0) ⟨i.natAbs, 1⟩

end Binary64
end FieldQuery
