/-!
# Sixty-four bit integers

Indices and whole numbers are integers that fit a signed 64-bit word, and
document numbers may also fit an unsigned one. This module holds the two
ranges, addition that stays inside the signed range, and the reading of a
signed integer from its decimal text.
-/

namespace FieldQuery
namespace Integer64

/-- Whether an integer fits a signed 64-bit word. -/
def isSigned
    (i : Int) :
    Bool :=
  -9223372036854775808 ≤ i && i ≤ 9223372036854775807

/-- Whether an integer fits an unsigned 64-bit word. -/
def isUnsigned
    (i : Int) :
    Bool :=
  0 ≤ i && i ≤ 18446744073709551615

/-- The sum of two integers, unless it leaves the signed range. -/
def add?
    (a b : Int) :
    Option Int :=
  if isSigned (a + b) then
    some (a + b)
  else
    none

/-- A sum that stays inside the signed range is the sum. -/
theorem eq_add_of_add?
    {a b c : Int}
    (h : add? a b = some c) :
    c = a + b := by
  unfold add? at h
  split at h
  · exact (Option.some.inj h).symm
  · exact nomatch h

/-- The number that a list of decimal digits denotes. -/
def ofDigits
    (digits : List Char) :
    Nat :=
  digits.foldl (fun n c => 10 * n + (c.toNat - 48)) 0

/-- The signed integer of a sign and a list of digits, if it is one. -/
def ofSignedDigits?
    (negative : Bool)
    (digits : List Char) :
    Option Int :=
  if digits.isEmpty || !digits.all Char.isDigit then
    none
  else
    let magnitude : Int := ofDigits digits
    let value := if negative then -magnitude else magnitude
    if isSigned value then
      some value
    else
      none

/--
Reads a signed integer: an optional sign of either kind, then digits, among
which leading zeros are allowed.
-/
def read? :
    List Char → Option Int
  | '+' :: digits => ofSignedDigits? false digits
  | '-' :: digits => ofSignedDigits? true digits
  | digits => ofSignedDigits? false digits

end Integer64
end FieldQuery
