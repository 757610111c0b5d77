import FieldQuery.Json.Numeral
import FieldQuery.Json.Tree
import FieldQuery.Value.Basic

/-!
# Reading JSON

A tree stands for a value if its texts are well formed, its numbers are
finite and it is nested no deeper than 127 levels. Of repeated keys in a map
the last one counts.
-/

namespace FieldQuery
namespace Json

/-- The characters of a list of code units; a surrogate needs its other half. -/
def ofUnits? :
    List Nat → Option (List Char)
  | [] => some []
  | unit :: rest =>
      if Text.isHighSurrogate unit then
        match rest with
        | low :: rest =>
            if Text.isLowSurrogate low then
              (ofUnits? rest).map (Text.pairedSurrogates unit low :: ·)
            else
              none
        | [] => none
      else if Text.isLowSurrogate unit then
        none
      else
        (ofUnits? rest).map (Char.ofNat unit :: ·)

/-- The text of a list of code units. -/
def text?
    (units : List Nat) :
    Option String :=
  (ofUnits? units).map String.ofList

namespace Tree

mutual

/-- The value of a tree that may be nested as many levels deep as `room` says. -/
def value?
    (room : Nat) :
    Tree → Option Value
  | null => some .null
  | bool value => some (.bool value)
  | numeral value => value.number?.map .number
  | text units => (text? units).map .text
  | list items =>
      match room with
      | 0 => none
      | room + 1 => (itemValues? room items).map .list
  | map members =>
      match room with
      | 0 => none
      | room + 1 => (memberValues? room members).map fun pairs => .map (Members.ofList pairs)

/-- The values of the items of a list. -/
def itemValues?
    (room : Nat) :
    List Tree → Option (List Value)
  | [] => some []
  | item :: rest =>
      match value? room item, itemValues? room rest with
      | some value, some values => some (value :: values)
      | _, _ => none

/-- The names and values of the members of a map, as they are written. -/
def memberValues?
    (room : Nat) :
    List (List Nat × Tree) → Option (List (String × Value))
  | [] => some []
  | (key, member) :: rest =>
      match text? key, value? room member, memberValues? room rest with
      | some name, some value, some values => some ((name, value) :: values)
      | _, _, _ => none

end

/-- The number of levels that a value may be nested. -/
def levels : Nat :=
  127

end Tree

/-- The value of a JSON text. -/
def read?
    (text : String) :
    Option Value :=
  (Tree.ofText? text).bind (Tree.value? Tree.levels)

end Json
end FieldQuery
