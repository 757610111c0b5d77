import FieldQuery.Query.Compiled

/-!
# Matching

A query is matched against a document by applying its selectors one after
another to all nodes reached so far, in order. A node that is reached in
several ways is reached several times. A function at the end of the query
replaces the nodes by the values it computes from them.
-/

namespace FieldQuery

/-- The number of elements, members or characters of a value that has any. -/
def Value.length? :
    Value → Option Nat
  | .list items => some items.length
  | .map members => some members.length
  | .text value => some value.length
  | _ => none

namespace Query

/-- The value of a function on a node, if it is defined there. -/
def Function.apply? :
    Function → Value → Option Value
  | length, node => node.length?.map fun n => .int n

/-- The nodes that one selector leads to from all nodes reached so far. -/
def advance
    (reached : List Located)
    (selector : Selector) :
    List Located :=
  reached.flatMap fun (way, node) =>
    (selector.reach node).map fun (further, target) => (way ++ further, target)

/-- The nodes that a chain of selectors leads to from the root of a document. -/
def select
    (selectors : List Selector)
    (document : Value) :
    List Located :=
  selectors.foldl advance [([], document)]

/-- The values that a query yields, in order and with repetitions. -/
def find
    (query : Query)
    (document : Value) :
    List Value :=
  let nodes := (select query.selectors document).map Prod.snd
  match query.function with
  | none => nodes
  | some function => nodes.filterMap function.apply?

/-- The locations of the nodes that a query matches, in order and with repetitions. -/
def locate
    (query : Query)
    (document : Value) :
    Except QueryError (List Location) :=
  match query.function with
  | none => .ok ((select query.selectors document).map Prod.fst)
  | some _ => .error (.computesValue query.source)

end Query
end FieldQuery
