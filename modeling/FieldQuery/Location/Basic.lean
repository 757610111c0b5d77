import FieldQuery.Accessor

/-!
# Locations

A location identifies one node of a document by the members and list
positions on the way to it from the root. Unlike an accessor, a segment of a
location is resolved: its index counts from the start. The text of a location
is a query that selects exactly its node.
-/

namespace FieldQuery

/-- One step of a location. -/
inductive Segment where
  | member (name : String)
  | index (position : Nat)
deriving DecidableEq

/-- The way from the root of a document to one node. -/
abbrev Location :=
  List Segment

namespace Segment

/-- The child that a segment identifies. -/
def get? :
    Segment → Value → Option Value
  | member name, .map members => Members.get? name members
  | index i, .list items => items[i]?
  | _, _ => none

/-- The characters of a name between single quotes. -/
def escaped
    (name : List Char) :
    List Char :=
  name.flatMap fun c =>
    if c = '\\' then
      ['\\', '\\']
    else if c = '\'' then
      ['\\', '\'']
    else
      [c]

/-- The text of a segment in bracket notation. -/
def text :
    Segment → String
  | member name => "['" ++ String.ofList (escaped name.toList) ++ "']"
  | index i => "[" ++ toString i ++ "]"

end Segment

/-- The children of a value in document order, with the segments that lead to them. -/
def Value.children :
    Value → List (Segment × Value)
  | .list items => items.zipIdx.map fun (item, i) => (.index i, item)
  | .map members => members.map fun (name, value) => (.member name, value)
  | _ => []

/-- The child that an accessor names, with the segment that leads to it. -/
def Accessor.locate? :
    Accessor → Value → Option (Segment × Value)
  | .key name, .map members =>
      (Members.get? name members).map fun value => (.member name, value)
  | .index i, .list items =>
      (position? i items.length).bind fun position =>
        items[position]?.map fun item => (.index position, item)
  | _, _ => none

namespace Location

/-- The node that a location identifies. -/
def resolve? :
    Location → Value → Option Value
  | [], value => some value
  | segment :: rest, value => (segment.get? value).bind (resolve? rest)

/-- The text of a location. -/
def text
    (location : Location) :
    String :=
  "$" ++ String.join (location.map Segment.text)

end Location
end FieldQuery
