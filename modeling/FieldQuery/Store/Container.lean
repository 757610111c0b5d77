import FieldQuery.Location.Change
import FieldQuery.Store.Error
import FieldQuery.Store.Operation

/-!
# Acting inside a field

A read descends to the innermost collection and looks there; a write changes
that collection and puts it back on the way up. Without contexts the field
itself is the collection. A missing child on the way down is an error that
names the descent.
-/

namespace FieldQuery
namespace Store

/-- The collection that a chain of contexts leads to. -/
def descend :
    List Accessor → Value → Except StoreError Value
  | [], value => .ok value
  | context :: rest, value =>
      match context.get? value with
      | some child => descend rest child
      | none => .error (.notApplicable (.noCollection context))

/-- Changes the collection that a chain of contexts leads to. -/
def changeAt
    (change : Value → Except StoreError Value) :
    List Accessor → Value → Except StoreError Value
  | [], value => change value
  | context :: rest, value =>
      match context.locate? value with
      | some (segment, child) =>
          (changeAt change rest child).map fun changed => segment.replace changed value
      | none => .error (.notApplicable (.noCollection context))

/-- The value of a field, where there has to be one. -/
def present
    (field : Option Value) :
    Except StoreError Value :=
  match field with
  | some value => .ok value
  | none => .error (.notApplicable .noField)

/--
The collection in a field that a read looks into. Without contexts the field
may be absent.
-/
def collection
    (field : Option Value)
    (contexts : List Accessor) :
    Except StoreError (Option Value) :=
  if contexts.isEmpty then
    .ok field
  else
    match present field with
    | .ok value => (descend contexts value).map some
    | .error error => .error error

/-- The position of an index in a list, where there has to be one. -/
def boundedPosition
    (index : Int)
    (length : Nat) :
    Except StoreError Nat :=
  match position? index length with
  | some position => .ok position
  | none => .error (.notApplicable (.outOfBounds index length))

/-- Looks a key up in a collection that may be absent. -/
def lookKey
    (key : String) :
    Option Value → Except StoreError (Option Value)
  | none => .ok none
  | some (.map members) => .ok (Members.get? key members)
  | some other => .error (.typeMismatch (.keyReadFrom key other.shape))

/-- Looks an index up in a collection that must not be absent. -/
def lookIndex
    (field : String)
    (index : Int) :
    Option Value → Except StoreError (Option Value)
  | none => .error (.notApplicable (.noFieldNamed field))
  | some (.list items) =>
      (boundedPosition index items.length).map fun position => items[position]?
  | some other => .error (.invalidAccessShape (.indexReadFrom index other.shape))

/-- Sets a key of a collection. -/
def setKey
    (key : String)
    (value : Value) :
    Value → Except StoreError Value
  | .map members => .ok (.map (Members.insert key value members))
  | other => .error (.notApplicable (.keyPutInto key other.shape))

/-- Sets an index of a collection; the index after the last one adds an element. -/
def setIndex
    (index : Int)
    (value : Value) :
    Value → Except StoreError Value
  | .list items =>
      if index = items.length then
        .ok (.list (items ++ [value]))
      else
        (boundedPosition index items.length).map fun position =>
          .list (items.set position value)
  | other => .error (.notApplicable (.indexSetIn index other.shape))

/-- Removes a key of a collection, which need not be there. -/
def removeKey
    (key : String) :
    Value → Except StoreError Value
  | .map members => .ok (.map (Members.erase key members))
  | other => .error (.invalidAccessShape (.keyRemovedFrom key other.shape))

/-- Removes the element at an index of a collection. -/
def popIndex
    (index : Int) :
    Value → Except StoreError Value
  | .list items =>
      (boundedPosition index items.length).map fun position =>
        .list (items.eraseIdx position)
  | other => .error (.invalidAccessShape (.indexPoppedFrom index other.shape))

/-- What an operation reads from the field that it is about. -/
def Operation.read
    (operation : Operation)
    (field : Option Value) :
    Except StoreError (Option Value) :=
  match operation with
  | .readField _ => .ok field
  | .act _ contexts (.getByKey key) => do
      lookKey key (← collection field contexts)
  | .act name contexts (.getByIndex index) => do
      lookIndex name index (← collection field contexts)
  | _ => .error (.notApplicable (.notARead operation.name))

/-- The field after an operation that writes to it. -/
def Operation.write
    (operation : Operation)
    (field : Option Value) :
    Except StoreError Value :=
  match operation with
  | .writeField _ value => .ok value
  | .act _ [] (.setByKey key value) => setKey key value (field.getD (.map []))
  | .act _ contexts (.setByKey key value) => do
      changeAt (setKey key value) contexts (← present field)
  | .act _ contexts (.setByIndex index value) => do
      changeAt (setIndex index value) contexts (← present field)
  | .act _ contexts (.removeByKey key) => do
      changeAt (removeKey key) contexts (← present field)
  | .act _ contexts (.popByIndex index) => do
      changeAt (popIndex index) contexts (← present field)
  | _ => .error (.notApplicable (.notAWrite operation.name))

end Store
end FieldQuery
