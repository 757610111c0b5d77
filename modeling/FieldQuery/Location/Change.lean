import FieldQuery.Location.Basic

/-!
# Changes at a location

A node can be replaced by another value or taken out of its parent. Both
leave everything that is not on the way to the node as it was, and both fail
where the location does not resolve.
-/

namespace FieldQuery

namespace Segment

/-- The value with another child under a segment that it has. -/
def replace
    (child : Value) :
    Segment → Value → Value
  | member name, .map members => .map (Members.replace name child members)
  | index i, .list items => .list (items.set i child)
  | _, value => value

/-- Takes a child out of a value: the child, and the value that is left. -/
def detach? :
    Segment → Value → Option (Value × Value)
  | member name, .map members =>
      (Members.get? name members).map fun child =>
        (child, .map (Members.erase name members))
  | index i, .list items =>
      items[i]?.map fun child => (child, .list (items.eraseIdx i))
  | _, _ => none

end Segment

namespace Location

/-- The document with another value at a location. -/
def replace?
    (new : Value) :
    Location → Value → Option Value
  | [], _ => some new
  | segment :: rest, value =>
      (segment.get? value).bind fun child =>
        (replace? new rest child).map fun changed =>
          segment.replace changed value

/--
Takes the node at a location out of its parent: the node, and the document
that is left. The root has no parent and cannot be taken out.
-/
def remove? :
    Location → Value → Option (Value × Value)
  | [], _ => none
  | [segment], value => segment.detach? value
  | segment :: next :: rest, value =>
      (segment.get? value).bind fun child =>
        (remove? (next :: rest) child).map fun (node, left) =>
          (node, segment.replace left value)

end Location
end FieldQuery
