import FieldQuery.Text.Quoted
import FieldQuery.Value.Basic

/-!
# Accessors

An accessor names one child of a value: the value under a key of a map, or
the element at an index of a list, where negative indices count from the end.
Accessors occur in filters, in the selectors of a query, as the steps of a
plain path and as the contexts of a store operation.
-/

namespace FieldQuery

/-- The position that an index denotes in a list of a given length. -/
def position?
    (index : Int)
    (length : Nat) :
    Option Nat :=
  let resolved := if index < 0 then length + index else index
  if 0 ≤ resolved ∧ resolved < length then
    some resolved.toNat
  else
    none

/-- The name of one child of a value. -/
inductive Accessor where
  | key (name : String)
  | index (index : Int)
deriving DecidableEq

namespace Accessor

/-- The child that an accessor names. -/
def get? :
    Accessor → Value → Option Value
  | key name, .map members => Members.get? name members
  | index i, .list items => (position? i items.length).bind (items[·]?)
  | _, _ => none

/-- The node at the end of a chain of accessors. -/
def follow? :
    List Accessor → Value → Option Value
  | [], value => some value
  | accessor :: rest, value => (accessor.get? value).bind (follow? rest)

/-- An accessor as a descent into a collection, for messages. -/
def descent :
    Accessor → String
  | key name => "map[" ++ Text.quoted name ++ "]"
  | index i => "list[" ++ toString i ++ "]"

/-- A chain of descents, for messages. -/
def descents
    (chain : List Accessor) :
    String :=
  " > ".intercalate (chain.map descent)

end Accessor
end FieldQuery
