import FieldQuery.Store.InPlace

/-!
# Histories of records

What was done to a store can be told record by record: an access writes one
record, drops one, or changes none. The history of some accesses lists these
changes, the last one first, as the accesses themselves are listed.
-/

namespace FieldQuery
namespace Store

/-- What an access can do to a record. -/
inductive Change where
  | written
  | dropped
deriving DecidableEq

namespace MemoryStore

/-- The record that an access changes, if it changes any, and what it does to it. -/
def change?
    (store : MemoryStore) :
    Access → Option (RecordKey × Change)
  | .call (.fetch ..) => none
  | .call (.apply key operation options) =>
      match (store.apply key operation options).1 with
      | .ok _ => some (key, .written)
      | .error _ => none
  | .insert key _ _ => some (key, .written)
  | .remove key =>
      match store.record? key with
      | some _ => some (key, .dropped)
      | none => none

/-- What some accesses change after some others, the last change first. -/
def history
    (before : List Access) :
    List Access → List (RecordKey × Change)
  | [] => []
  | access :: earlier =>
      ((reached (earlier ++ before)).change? access).toList ++ history before earlier

end MemoryStore

/-- What is done to one record in a history. -/
def changesOf
    (key : RecordKey)
    (history : List (RecordKey × Change)) :
    List Change :=
  (history.filter fun entry => entry.1 = key).map Prod.snd

/-- The number of writes in a history. -/
def writesIn
    (history : List (RecordKey × Change)) :
    Nat :=
  history.countP fun entry => entry.2 = .written

/-- The number of writes of a record since it was dropped, or else in all. -/
def writesSinceDrop
    (changes : List Change) :
    Nat :=
  (changes.takeWhile fun change => change = .written).length

end Store
end FieldQuery
