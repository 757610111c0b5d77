import FieldQuery.Integer64
import FieldQuery.Binary64

/-!
# Numbers of a document

A number is an integer of 64 bits or a float. The two kinds are kept apart:
`1` and `1.0` are different values, but they compare as numbers.
-/

namespace FieldQuery

/-- A number of a document. -/
inductive Number where
  | int (value : Int)
  | float (value : Binary64)
deriving DecidableEq

namespace Number

/-- The float nearest to a number. -/
def toBinary64 :
    Number → Binary64
  | int value => .ofInt value
  | float value => value

/-- The signed 64-bit integer that a number is, if it is one. -/
def signed? :
    Number → Option Int
  | int value =>
      if Integer64.isSigned value then
        some value
      else
        none
  | float _ => none

/--
The order of two numbers. Two signed integers are compared exactly, and all
other pairs as floats.
-/
def compare
    (a b : Number) :
    Ordering :=
  match a.signed?, b.signed? with
  | some i, some j => Ord.compare i j
  | _, _ => Ord.compare a.toBinary64.position b.toBinary64.position

/--
Whether two numbers inside lists or maps are equal: of one kind and of one
value, where the two zeros among the floats are one value.
-/
def same :
    Number → Number → Bool
  | int i, int j => i = j
  | float x, float y => x.position = y.position
  | _, _ => false

end Number
end FieldQuery
