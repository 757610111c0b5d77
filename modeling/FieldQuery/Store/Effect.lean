import FieldQuery.Location.Basic
import FieldQuery.Store.Operation
import FieldQuery.Value.Outline

/-!
# Effects of actions

What a write does to a field has two parts. In the innermost collection the
action sets, adds or takes away one entry; in the field around it everything
stays where it was, except that the elements behind one that is popped move
up to close the gap.
-/

namespace FieldQuery
namespace Store

/--
What an action makes of a collection, and the segment of the entry that it is
about. An index that is negative counts from the end.
-/
inductive Action.Effect : Action → Segment → Value → Value → Prop where
  | replaced
      {key : String}
      {old value : Value}
      {front rest : Members Value}
      (hfront : key ∉ front.names) :
      Effect (.setByKey key value) (.member key)
        (.map (front ++ (key, old) :: rest)) (.map (front ++ (key, value) :: rest))
  | added
      {key : String}
      {value : Value}
      {front rest : Members Value}
      (hnew : key ∉ Members.names (front ++ rest)) :
      Effect (.setByKey key value) (.member key)
        (.map (front ++ rest)) (.map (front ++ (key, value) :: rest))
  | removed
      {key : String}
      {old : Value}
      {front rest : Members Value}
      (hfront : key ∉ front.names) :
      Effect (.removeByKey key) (.member key)
        (.map (front ++ (key, old) :: rest)) (.map (front ++ rest))
  | unneeded
      {key : String}
      {members : Members Value}
      (hnone : key ∉ members.names) :
      Effect (.removeByKey key) (.member key) (.map members) (.map members)
  | exchanged
      {index : Int}
      {old value : Value}
      {front rest : List Value}
      (hposition : position? index (front ++ old :: rest).length = some front.length) :
      Effect (.setByIndex index value) (.index front.length)
        (.list (front ++ old :: rest)) (.list (front ++ value :: rest))
  | pushed
      {value : Value}
      {items : List Value} :
      Effect (.setByIndex items.length value) (.index items.length)
        (.list items) (.list (items ++ [value]))
  | popped
      {index : Int}
      {old : Value}
      {front rest : List Value}
      (hposition : position? index (front ++ old :: rest).length = some front.length) :
      Effect (.popByIndex index) (.index front.length)
        (.list (front ++ old :: rest)) (.list (front ++ rest))

/-- Whether an action takes an element out of a list. -/
def Action.isPop :
    Action → Bool
  | popByIndex _ => true
  | _ => false

/-- Whether an element stands behind another one in the same list. -/
def Behind :
    Segment → Segment → Prop
  | .index later, .index position => position < later
  | _, _ => False

/--
A field before and after an action on the collection at the end of a way, at
one segment of it.
-/
structure Framed
    (action : Action)
    (way : Location)
    (segment : Segment)
    (before after : Value) : Prop where
  /-- What is neither above the entry nor at it or below stays as it is; so do the other entries
  of the lists and maps around it. -/
  apart :
    ∀ location : Location,
      ¬ way ++ [segment] <+: location →
      ¬ location <+: way ++ [segment] →
      (∀ next rest, action.isPop = true → location = way ++ next :: rest → ¬ Behind next segment) →
      location.resolve? after = location.resolve? before
  /-- The elements behind one that is popped move up by one position. -/
  behind :
    action.isPop = true →
    ∀ position later rest,
      segment = .index position →
      position ≤ later →
      Location.resolve? (way ++ .index later :: rest) after =
        Location.resolve? (way ++ .index (later + 1) :: rest) before
  /-- The lists and maps around the entry stay what they are; all but the innermost keep their
  lengths and names. -/
  above :
    ∀ location : Location,
      location <+: way →
      ∃ container kept,
        location.resolve? before = some container ∧
        location.resolve? after = some kept ∧
        container.outline.isContainer = true ∧
        kept.shape = container.shape ∧
        (location ≠ way → kept.outline = container.outline)

end Store
end FieldQuery
