import FieldQuery.Location.Change
import FieldQuery.Location.Order
import FieldQuery.Query.Matching

/-!
# Edits

An edit changes a document at every node that a query matches. Replacement
goes from the root downwards, so that a node below a replaced one is left
out. Removal goes from the last location to the first, so that no removal
moves a node that is still to be removed. A visit applies a function to each
node once and stops at the first failure; what was changed until then stays
changed.
-/

namespace FieldQuery
namespace Query

/-- Puts a value at each of the locations that resolves when its turn comes. -/
def replaceAt
    (new : Value) :
    List Location → Value → Value × Nat
  | [], document => (document, 0)
  | location :: rest, document =>
      match location.replace? new document with
      | some changed =>
          let (last, count) := replaceAt new rest changed
          (last, count + 1)
      | none => replaceAt new rest document

/-- Puts a value at every node that a query matches. -/
def update
    (query : Query)
    (document : Value)
    (new : Value) :
    Except QueryError (Value × Nat) :=
  (query.locate document).map fun locations =>
    replaceAt new (Location.sorted locations) document

/-- The document that the removal of its root leaves. -/
def emptyDocument : Value :=
  .map []

/-- Removes the node at each of the locations that resolves when its turn comes. -/
def removeAt :
    List Location → Value → Value × Nat
  | [], document => (document, 0)
  | [] :: rest, _ =>
      let (last, count) := removeAt rest emptyDocument
      (last, count + 1)
  | location :: rest, document =>
      match location.remove? document with
      | some (_, left) =>
          let (last, count) := removeAt rest left
          (last, count + 1)
      | none => removeAt rest document

/-- Removes every node that a query matches. -/
def removeAll
    (query : Query)
    (document : Value) :
    Except QueryError (Value × Nat) :=
  (query.locate document).map fun locations =>
    removeAt (Location.descending locations) document

/--
Applies a function to the node at each of the locations. The function is
given the number of nodes visited before.
-/
def visitAt
    (visit : Nat → Value → Except QueryError Value)
    (visited : Nat) :
    List Location → Value → Value × Except QueryError Nat
  | [], document => (document, .ok visited)
  | location :: rest, document =>
      match location.resolve? document with
      | none => (document, .error (.vanished location))
      | some node =>
          match visit visited node with
          | .error error => (document, .error error)
          | .ok changed =>
              visitAt visit (visited + 1) rest
                ((location.replace? changed document).getD document)

/-- Applies a function once to every node that a query matches. -/
def forEach
    (query : Query)
    (document : Value)
    (visit : Nat → Value → Except QueryError Value) :
    Value × Except QueryError Nat :=
  match query.locate document with
  | .error error => (document, .error error)
  | .ok locations => visitAt visit 0 (Location.ascending locations) document

/-- Adds a value at the end of a list; other nodes refuse it. -/
def appendTo
    (new : Value) :
    Value → Except QueryError Value
  | .list items => .ok (.list (items ++ [new]))
  | _ => .error (.refused "append target is not a list")

/-- Adds a value at the end of every list that a query matches. -/
def append
    (query : Query)
    (document : Value)
    (new : Value) :
    Value × Except QueryError Nat :=
  query.forEach document fun _ node => appendTo new node

end Query
end FieldQuery
