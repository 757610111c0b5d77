import FieldQuery.Accessor
import FieldQuery.Path.Step

/-!
# Store operations

A store reads or writes a whole field, or acts at one place inside it: it
descends through some collections and acts on the innermost one. The last
step of a plain path decides which operation reads, writes or deletes what
the path names.
-/

namespace FieldQuery
namespace Store

/-- What is done in the innermost collection. -/
inductive Action where
  | getByKey (key : String)
  | getByIndex (index : Int)
  | setByKey (key : String) (value : Value)
  | setByIndex (index : Int) (value : Value)
  | removeByKey (key : String)
  | popByIndex (index : Int)
deriving DecidableEq

/-- One operation of a store on a field of a record. -/
inductive Operation where
  | readField (field : String)
  | writeField (field : String) (value : Value)
  | act (field : String) (contexts : List Accessor) (action : Action)
deriving DecidableEq

namespace Action

/-- The name of an action. -/
def name :
    Action → String
  | getByKey _ => "get_by_key"
  | getByIndex _ => "get_by_index"
  | setByKey .. => "set_by_key"
  | setByIndex .. => "set_by_index"
  | removeByKey _ => "remove_by_key"
  | popByIndex _ => "pop_by_index"

/-- Whether an action only reads. -/
def isRead :
    Action → Bool
  | getByKey _ => true
  | getByIndex _ => true
  | _ => false

/-- The value that an action writes, if it writes one. -/
def value? :
    Action → Option Value
  | setByKey _ value => some value
  | setByIndex _ value => some value
  | _ => none

/-- The place in the collection, for messages. -/
def place :
    Action → String
  | getByKey key => "key=" ++ Text.quoted key
  | setByKey key _ => "key=" ++ Text.quoted key
  | removeByKey key => "key=" ++ Text.quoted key
  | getByIndex index => "index=" ++ toString index
  | setByIndex index _ => "index=" ++ toString index
  | popByIndex index => "index=" ++ toString index

end Action

namespace Operation

/-- The field that an operation is about. -/
def field :
    Operation → String
  | readField field => field
  | writeField field _ => field
  | act field _ _ => field

/-- The collections that an operation descends through. -/
def contexts :
    Operation → List Accessor
  | act _ contexts _ => contexts
  | _ => []

/-- The name of an operation. -/
def name :
    Operation → String
  | readField _ => "read_whole_field"
  | writeField .. => "write_whole_field"
  | act _ _ action => action.name

/-- Whether an operation only reads. -/
def isRead :
    Operation → Bool
  | readField _ => true
  | writeField .. => false
  | act _ _ action => action.isRead

/-- The value that an operation writes, if it writes one. -/
def value? :
    Operation → Option Value
  | readField _ => none
  | writeField _ value => some value
  | act _ _ action => action.value?

/--
Whether an operation may create its record and field: one that writes the
whole field, or one that sets a key of the field itself.
-/
def creates :
    Operation → Bool
  | writeField .. => true
  | act _ [] (.setByKey ..) => true
  | _ => false

/-- An operation in one line. -/
def text
    (operation : Operation) :
    String :=
  let contexts :=
    if operation.contexts.isEmpty then
      ""
    else
      ", ctx=" ++ Accessor.descents operation.contexts
  let place :=
    match operation with
    | act _ _ action => ", " ++ action.place
    | _ => ""
  operation.name ++ "(" ++ operation.field ++ contexts ++ place ++ ")"

/-- The operation that reads what a plain path names. -/
def get
    (field : String)
    (contexts : List Accessor) :
    Path.Step → Operation
  | .root => readField field
  | .access (.key key) => act field contexts (.getByKey key)
  | .access (.index index) => act field contexts (.getByIndex index)

/-- The operation that writes a value to what a plain path names. -/
def put
    (field : String)
    (contexts : List Accessor)
    (value : Value) :
    Path.Step → Operation
  | .root => writeField field value
  | .access (.key key) => act field contexts (.setByKey key value)
  | .access (.index index) => act field contexts (.setByIndex index value)

/--
The operation that deletes what a plain path names. Of the root, an empty map
is left.
-/
def delete
    (field : String)
    (contexts : List Accessor) :
    Path.Step → Operation
  | .root => writeField field (.map [])
  | .access (.key key) => act field contexts (.removeByKey key)
  | .access (.index index) => act field contexts (.popByIndex index)

end Operation
end Store
end FieldQuery
