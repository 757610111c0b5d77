import FieldQuery.Json.Lexeme
import FieldQuery.Value.Number

/-!
# The value of a numeral

A numeral without fraction and exponent that fits 64 bits is an integer. All
others are floats, and so is minus zero.

The digits of a float are first taken together as one integer of at most 64
bits; a digit that would exceed that, and those after it, only count for the
scale. The float nearest to this integer is then scaled by the float nearest
to a power of ten, in one rounded operation. A numeral too large for a finite
float has no value.
-/

namespace FieldQuery
namespace Json
namespace Numeral

/-- An integer and the power of ten that it is to be multiplied with. -/
structure Scaled where
  significand : Nat
  scale : Int
deriving DecidableEq

/-- The digit that a character is. -/
def digit
    (c : Char) :
    Nat :=
  c.toNat - 48

/-- Whether a significand has room for another digit. -/
def hasRoom
    (significand : Nat)
    (c : Char) :
    Bool :=
  Integer64.isUnsigned (10 * significand + digit c)

/-- Takes the digits of the whole part as long as there is room for them. -/
def takeWhole
    (significand : Nat) :
    List Char → Scaled
  | [] => ⟨significand, 0⟩
  | c :: rest =>
      if hasRoom significand c then
        takeWhole (10 * significand + digit c) rest
      else
        ⟨significand, (c :: rest).length⟩

/-- Takes the digits of the fraction as long as there is room for them. -/
def takeFraction
    (scaled : Scaled) :
    List Char → Scaled
  | [] => scaled
  | c :: rest =>
      if hasRoom scaled.significand c then
        takeFraction ⟨10 * scaled.significand + digit c, scaled.scale - 1⟩ rest
      else
        scaled

/-- The integer and the scale of a numeral. -/
def scaled
    (numeral : Numeral) :
    Scaled :=
  let digits := takeFraction (takeWhole 0 numeral.whole) numeral.fraction
  match numeral.exponent with
  | none => digits
  | some (negative, exponent) =>
      let size : Int := Integer64.ofDigits exponent
      ⟨digits.significand, digits.scale + if negative then -size else size⟩

/-- The float nearest to a power of ten. -/
def powerOfTen
    (exponent : Nat) :
    Binary64 :=
  .nearest false (.decimal 1 exponent)

/-- The quotient of two floats, rounded, as a positive float. -/
def quotient
    (a b : Binary64) :
    Binary64 :=
  .nearest false (a.magnitude.div b.magnitude)

/-- The product of two floats, rounded, as a positive float. -/
def product
    (a b : Binary64) :
    Binary64 :=
  .nearest false (a.magnitude.mul b.magnitude)

/--
Divides a float by a power of ten, whose exponent may be too large for the
power itself to be a float.
-/
def shrink
    (x : Binary64)
    (exponent : Nat) :
    Binary64 :=
  if exponent ≤ 308 || x.rank = 0 then
    quotient x (powerOfTen (min exponent 308))
  else
    shrink (quotient x (powerOfTen 308)) (exponent - 308)
termination_by exponent
decreasing_by
  simp_all only [Bool.or_eq_true, decide_eq_true_eq, not_or]
  omega

/-- Multiplies a float by a power of ten, unless the product is not finite. -/
def grow?
    (x : Binary64)
    (exponent : Nat) :
    Option Binary64 :=
  if x.rank = 0 then
    some x
  else if exponent ≤ 308 then
    let grown := product x (powerOfTen exponent)
    if grown.isInfinite then
      none
    else
      some grown
  else
    none

/-- The float that a numeral denotes. -/
def float?
    (numeral : Numeral) :
    Option Binary64 :=
  let parts := numeral.scaled
  let start := Binary64.ofInt parts.significand
  let magnitude :=
    if 0 ≤ parts.scale then
      grow? start parts.scale.toNat
    else
      some (shrink start (-parts.scale).toNat)
  magnitude.map fun x => .ofRank numeral.negative x.rank

/-- The integer that a numeral denotes, if it denotes one. -/
def integer?
    (numeral : Numeral) :
    Option Int :=
  if numeral.fraction.isEmpty && numeral.exponent.isNone then
    let magnitude : Int := Integer64.ofDigits numeral.whole
    if numeral.negative then
      if magnitude ≠ 0 && Integer64.isSigned (-magnitude) then
        some (-magnitude)
      else
        none
    else if Integer64.isUnsigned magnitude then
      some magnitude
    else
      none
  else
    none

/-- The number that a numeral denotes. -/
def number?
    (numeral : Numeral) :
    Option Number :=
  match numeral.integer? with
  | some value => some (.int value)
  | none => numeral.float?.map .float

end Numeral
end Json
end FieldQuery
