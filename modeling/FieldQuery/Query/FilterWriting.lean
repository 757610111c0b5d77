import FieldQuery.Query.Grammar

/-!
# Filters in writing

A filter is written with parentheses only where the filter inside them would
otherwise be read apart. Comparisons bind tighter than conjunctions, and these
tighter than disjunctions, so a filter needs parentheses where its place asks
for a tighter one. Both connectives associate to the left: on the left of a
sign the same connective may stand as it is, on the right it may not. The
operands of a comparison are paths and literals; anything else stands in
parentheses there.

Each accessor of a path is written as a bracket, though a name may also be
read behind a dot.
-/

namespace FieldQuery
namespace Query

/-- How tightly a filter binds, and how tightly a place asks for. -/
inductive Binding where
  | disjunction
  | conjunction
  | comparison
  | primary
deriving DecidableEq

/-- The number of bindings that are looser. -/
def Binding.tightness :
    Binding → Nat
  | disjunction => 0
  | conjunction => 1
  | comparison => 2
  | primary => 3

/-- The token of a literal. -/
def Literal.token :
    Literal → Token
  | text value => .text value
  | float value => .float value
  | integer value => .integer value
  | bool value => .bool value
  | null => .null

namespace Filter

/-- The brackets of a path, one for each accessor. -/
def pathTokens
    (path : List Accessor) :
    List Token :=
  path.flatMap fun accessor => [.openBracket, (Choice.access accessor).token, .closeBracket]

/-- Some tokens in parentheses. -/
def enclosed
    (tokens : List Token) :
    List Token :=
  .openParen :: (tokens ++ [.closeParen])

/-- The tokens of a filter that binds in a given way, at a place that may ask for more. -/
def placed
    (binding place : Binding)
    (tokens : List Token) :
    List Token :=
  if binding.tightness < place.tightness then
    enclosed tokens
  else
    tokens

/-- The tokens of a filter at a place. -/
def tokens
    (place : Binding) :
    Filter → List Token
  | relative path => .current :: pathTokens path
  | literal value => [value.token]
  | compare left operator right =>
      placed .comparison place
        (left.tokens .primary ++ .comparison operator :: right.tokens .primary)
  | and left right =>
      placed .conjunction place
        (left.tokens .conjunction ++ .and :: right.tokens .comparison)
  | or left right =>
      placed .disjunction place
        (left.tokens .disjunction ++ .or :: right.tokens .conjunction)

end Filter
end Query
end FieldQuery
