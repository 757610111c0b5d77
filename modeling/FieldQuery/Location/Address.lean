import FieldQuery.Location.Basic
import FieldQuery.Path.Step

/-!
# Locations as paths

Each segment of a location names its child as an accessor does. So a location
is also a way to go for a plan: all its segments but the last one are the
collections to descend into, and the last one is the step that the store takes
by itself.
-/

namespace FieldQuery

/-- The accessor that names the child of a segment. -/
def Segment.accessor :
    Segment → Accessor
  | member name => .key name
  | index i => .index i

namespace Location

/-- The collections to descend into on the way to a location. -/
def contexts
    (location : Location) :
    List Accessor :=
  location.dropLast.map Segment.accessor

/-- The last step on the way to a location. -/
def last
    (location : Location) :
    Path.Step :=
  match location.getLast? with
  | none => .root
  | some segment => .access segment.accessor

end Location
end FieldQuery
