import FieldQuery.Location.Basic
import FieldQuery.Query.Filter
import FieldQuery.Query.Slice

/-!
# Selectors

A selector leads from one node to the nodes below it that it selects. Each
of them is given with the way from the node to it: one segment for most
selectors, and any number of segments for a descent, which selects the node
itself and everything below it.
-/

namespace FieldQuery
namespace Query

/-- A member of a bracket: one child, or every child. -/
inductive Choice where
  | access (accessor : Accessor)
  | every
deriving DecidableEq

/-- One selector of a query. -/
inductive Selector where
  | choose (choice : Choice)
  | slice (slice : Slice)
  | filter (predicate : Filter)
  | union (choices : List Choice)
  | descent
deriving DecidableEq

end Query

/-- A node and the way that leads to it. -/
abbrev Located :=
  Location × Value

mutual

/-- A value and everything below it, each node before the ones below it. -/
def Value.descendants :
    Value → List Located
  | .list items => ([], .list items) :: itemDescendants 0 items
  | .map members => ([], .map members) :: memberDescendants members
  | .null => [([], .null)]
  | .bool value => [([], .bool value)]
  | .number value => [([], .number value)]
  | .text value => [([], .text value)]

/-- The elements of a list from a position on, and everything below them. -/
def Value.itemDescendants
    (i : Nat) :
    List Value → List Located
  | [] => []
  | item :: rest =>
      (item.descendants.map fun (way, node) => (.index i :: way, node)) ++
        itemDescendants (i + 1) rest

/-- The members of a map, and everything below them. -/
def Value.memberDescendants :
    List (String × Value) → List Located
  | [] => []
  | (name, value) :: rest =>
      (value.descendants.map fun (way, node) => (.member name :: way, node)) ++
        memberDescendants rest

end

namespace Query

/-- A child as a node one segment away. -/
def oneStep
    (child : Segment × Value) :
    Located :=
  ([child.1], child.2)

/-- The children that a choice selects. -/
def Choice.children :
    Choice → Value → List (Segment × Value)
  | access accessor, node => (accessor.locate? node).toList
  | every, node => node.children

/-- The elements that a slice selects from a list. -/
def Slice.children
    (slice : Slice) :
    Value → List (Segment × Value)
  | .list items =>
      (slice.positions items.length).filterMap fun i =>
        items[i]?.map fun item => (.index i, item)
  | _ => []

namespace Selector

/-- The nodes that a selector leads to. -/
def reach :
    Selector → Value → List Located
  | choose choice, node => (choice.children node).map oneStep
  | slice s, node => (s.children node).map oneStep
  | filter predicate, node =>
      (node.children.filter fun child => predicate.holds child.2).map oneStep
  | union choices, node =>
      (choices.flatMap fun choice => choice.children node).map oneStep
  | descent, node => node.descendants

/-- Whether a selector can only ever lead to a single node. -/
def isSingular :
    Selector → Bool
  | choose (.access _) => true
  | _ => false

end Selector
end Query
end FieldQuery
