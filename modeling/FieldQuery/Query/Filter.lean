import FieldQuery.Accessor
import FieldQuery.Query.Token

/-!
# Filters

A filter is a predicate on the children of a node. It is built from paths
relative to the child, literals, comparisons and the two connectives. Any
filter may stand as the operand of a comparison, but only paths and literals
have a value there.

A comparison with a missing operand holds only where both are missing and
the comparison is one that equality satisfies. Numbers and texts are ordered
among themselves; other pairs of values are only equal or not.
-/

namespace FieldQuery
namespace Query

/-- A literal of a filter. -/
inductive Literal where
  | text (value : String)
  | float (value : Binary64)
  | integer (value : Int)
  | bool (value : Bool)
  | null
deriving DecidableEq

/-- A predicate on a node. -/
inductive Filter where
  /-- A path from the node; the empty path is the node itself. -/
  | relative (path : List Accessor)
  | literal (value : Literal)
  | compare (left : Filter) (operator : Comparison) (right : Filter)
  | and (left right : Filter)
  | or (left right : Filter)
deriving DecidableEq

/-- The value of a literal. An infinite float has none, and null stands in for it. -/
def Literal.value :
    Literal → Value
  | text value => .text value
  | float value =>
      if value.isInfinite then
        .null
      else
        .number (.float value)
  | integer value => .int value
  | bool value => .bool value
  | null => .null

/-- Whether a literal that stands alone as a predicate holds. -/
def Literal.holds :
    Literal → Bool
  | bool value => value
  | null => false
  | _ => true

/-- Whether two operands are equal, where `none` is a missing one. -/
def equalOperands :
    Option Value → Option Value → Bool
  | none, none => true
  | some (.number a), some (.number b) => a.compare b = .eq
  | some a, some b => a.same b
  | _, _ => false

/-- The order of two operands, if they have one. -/
def operandOrder :
    Option Value → Option Value → Option Ordering
  | some (.number a), some (.number b) => some (a.compare b)
  | some (.text a), some (.text b) => some (Ord.compare a b)
  | _, _ => none

/-- Whether a comparison holds of two operands. -/
def Comparison.holds
    (operator : Comparison)
    (left right : Option Value) :
    Bool :=
  match operator with
  | equal => equalOperands left right
  | notEqual => !equalOperands left right
  | less => operandOrder left right = some .lt
  | greater => operandOrder left right = some .gt
  | lessOrEqual => equalOperands left right || operandOrder left right = some .lt
  | greaterOrEqual => equalOperands left right || operandOrder left right = some .gt

namespace Filter

/-- The value of a filter as an operand, or `none` where it is missing. -/
def operand? :
    Filter → Value → Option Value
  | relative path, node => Accessor.follow? path node
  | literal value, _ => some value.value
  | _, _ => none

/-- Whether a filter holds of a node. -/
def holds :
    Filter → Value → Bool
  | relative path, node => (Accessor.follow? path node).isSome
  | literal value, _ => value.holds
  | compare left operator right, node =>
      operator.holds (left.operand? node) (right.operand? node)
  | and left right, node => left.holds node && right.holds node
  | or left right, node => left.holds node || right.holds node

end Filter
end Query
end FieldQuery
