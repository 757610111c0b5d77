import FieldQuery.Location.Basic

/-!
# Removal of many nodes at once

A set of locations can be taken out of a document in one go: each list keeps
the elements that are not among them, in their order, each map keeps its
other members, and what is kept is itself without the nodes below it that are
among them. The root is kept, since it stands in no list or map.
-/

namespace FieldQuery
namespace Value

/-- The locations of a set that lie below a segment, seen from its child. -/
def beneath
    (segment : Segment)
    (gone : Location → Bool) :
    Location → Bool :=
  fun way => gone (segment :: way)

mutual

/-- A value without the nodes at a set of locations. -/
def without
    (gone : Location → Bool) :
    Value → Value
  | list items => list (itemsWithout gone 0 items)
  | map members => map (membersWithout gone members)
  | value => value

/-- The elements of a list from a position on, without the nodes at a set of locations. -/
def itemsWithout
    (gone : Location → Bool)
    (i : Nat) :
    List Value → List Value
  | [] => []
  | item :: rest =>
      if gone [.index i] then
        itemsWithout gone (i + 1) rest
      else
        item.without (beneath (.index i) gone) :: itemsWithout gone (i + 1) rest

/-- The members of a map, without the nodes at a set of locations. -/
def membersWithout
    (gone : Location → Bool) :
    List (String × Value) → List (String × Value)
  | [] => []
  | (name, value) :: rest =>
      if gone [.member name] then
        membersWithout gone rest
      else
        (name, value.without (beneath (.member name) gone)) :: membersWithout gone rest

end

end Value
end FieldQuery
