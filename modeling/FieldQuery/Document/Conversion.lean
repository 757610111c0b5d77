import FieldQuery.Value.Basic

/-!
# Conversions from document values

Ways to take a document value for a value of a given form. Only integers
convert to integers, and only where they fit.
-/

namespace FieldQuery
namespace Document

/-- A form that a document value can be taken for: it converts, or it does not. -/
abbrev Form
    (α : Type) :=
  Value → Option α

/-- Unsigned integers of 32 bits. -/
def word32 : Form Int
  | .number (.int value) =>
      if 0 ≤ value && value ≤ 4294967295 then
        some value
      else
        none
  | _ => none

/-- Signed integers of 64 bits. -/
def integer : Form Int
  | .number (.int value) =>
      if Integer64.isSigned value then
        some value
      else
        none
  | _ => none

/-- Booleans. -/
def boolean : Form Bool
  | .bool value => some value
  | _ => none

/-- Texts. -/
def text : Form String
  | .text value => some value
  | _ => none

/-- Null, or a value of another form. -/
def optional
    {α : Type}
    (form : Form α) :
    Form (Option α)
  | .null => some none
  | value => (form value).map some

/-- Lists whose items all have one form. -/
def listOf
    {α : Type}
    (form : Form α) :
    Form (List α)
  | .list items => items.mapM form
  | _ => none

/-- Something to be done. -/
structure ToDo where
  name : String
  done : Bool
deriving DecidableEq

/-- A thing to be done: a map with its two members, or the list of the two. -/
def toDo : Form ToDo
  | .map members =>
      match (Members.get? "name" members).bind text, (Members.get? "done" members).bind boolean with
      | some name, some done => some ⟨name, done⟩
      | _, _ => none
  | .list [first, second] =>
      match text first, boolean second with
      | some name, some done => some ⟨name, done⟩
      | _, _ => none
  | _ => none

end Document
end FieldQuery
