import FieldQuery.Location.Basic

/-!
# Order of locations

Locations are ordered segment by segment, a location before the ones below
it. Members come before positions, members by their names and positions by
their numbers.
-/

namespace FieldQuery

/-- The order of two segments. -/
def Segment.compare :
    Segment → Segment → Ordering
  | member a, member b => Ord.compare a b
  | member _, index _ => .lt
  | index _, member _ => .gt
  | index i, index j => Ord.compare i j

namespace Location

/-- The order of two locations. -/
def compare :
    Location → Location → Ordering
  | [], [] => .eq
  | [], _ :: _ => .lt
  | _ :: _, [] => .gt
  | a :: as, b :: bs =>
      match a.compare b with
      | .eq => compare as bs
      | order => order

/-- Whether a location comes no later than another. -/
def notAfter
    (a b : Location) :
    Bool :=
  (compare a b).isLE

/-- Locations in ascending order, repetitions kept. -/
def sorted
    (locations : List Location) :
    List Location :=
  locations.mergeSort notAfter

/-- A list in which each run of equal neighbours is reduced to one. -/
def withoutRepeats :
    List Location → List Location
  | [] => []
  | [location] => [location]
  | a :: b :: rest =>
      if a = b then
        withoutRepeats (b :: rest)
      else
        a :: withoutRepeats (b :: rest)

/-- Each location once, in ascending order. -/
def ascending
    (locations : List Location) :
    List Location :=
  withoutRepeats (sorted locations)

/-- Each location once, in descending order. -/
def descending
    (locations : List Location) :
    List Location :=
  withoutRepeats (locations.mergeSort fun a b => notAfter b a)

end Location
end FieldQuery
