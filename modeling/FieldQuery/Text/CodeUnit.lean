/-!
# Code units in hexadecimal

An escape gives a character by its code unit in hexadecimal digits. A
character beyond the first plane takes two such units, a high and a low
surrogate, neither of which stands for a character by itself.
-/

namespace FieldQuery
namespace Text

/-- The value of a hexadecimal digit. -/
def hexDigit?
    (c : Char) :
    Option Nat :=
  if '0' ≤ c && c ≤ '9' then
    some (c.toNat - 48)
  else if 'a' ≤ c && c ≤ 'f' then
    some (c.toNat - 87)
  else if 'A' ≤ c && c ≤ 'F' then
    some (c.toNat - 55)
  else
    none

/-- The number that hexadecimal digits denote, on top of the ones before. -/
def hexNumber?
    (before : Nat) :
    List Char → Option Nat
  | [] => some before
  | c :: rest => (hexDigit? c).bind fun digit => hexNumber? (16 * before + digit) rest

/-- Whether a code unit is the first half of a surrogate pair. -/
def isHighSurrogate
    (unit : Nat) :
    Bool :=
  0xD800 ≤ unit && unit ≤ 0xDBFF

/-- Whether a code unit is the second half of a surrogate pair. -/
def isLowSurrogate
    (unit : Nat) :
    Bool :=
  0xDC00 ≤ unit && unit ≤ 0xDFFF

/-- The character of a surrogate pair. -/
def pairedSurrogates
    (high low : Nat) :
    Char :=
  Char.ofNat (0x10000 + (high - 0xD800) * 1024 + (low - 0xDC00))

end Text
end FieldQuery
