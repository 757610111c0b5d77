import FieldQuery.Value.Basic

/-!
# Outlines

The outline of a value is what it is apart from what it contains. A list is
known by its length and a map by its names; a value that contains nothing is
its own outline.
-/

namespace FieldQuery

/-- A value without what it contains. -/
inductive Outline where
  | scalar (value : Value)
  | list (length : Nat)
  | map (names : List String)
deriving DecidableEq

/-- The outline of a value. -/
def Value.outline :
    Value → Outline
  | .list items => .list items.length
  | .map members => .map (Members.names members)
  | value => .scalar value

/-- Whether an outline is that of a list or a map. -/
def Outline.isContainer :
    Outline → Bool
  | scalar _ => false
  | list _ => true
  | map _ => true

end FieldQuery
