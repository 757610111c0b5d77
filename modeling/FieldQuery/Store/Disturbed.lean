import FieldQuery.Store.Backend

/-!
# Disturbed stores

A memory store can be disturbed in two ways. During an outage every call
fails and the records are out of reach. An intrusion is a write by someone
else that happens once, right after the next successful read.
-/

namespace FieldQuery
namespace Store

/-- A write by someone else. -/
structure Intrusion where
  key : RecordKey
  field : String
  value : Value
deriving DecidableEq

/-- A memory store with the disturbances that are in force. -/
structure Disturbed where
  store : MemoryStore
  /-- What every call fails with, while there is an outage. -/
  outage : Option String
  /-- The write that waits for the next successful read. -/
  intrusion : Option Intrusion
deriving DecidableEq

namespace Disturbed

/-- A store that nothing disturbs yet. -/
def calm
    (store : MemoryStore) :
    Disturbed :=
  ⟨store, none, none⟩

/-- Lets the write that waits happen. -/
def intrude
    (disturbed : Disturbed) :
    Disturbed :=
  match disturbed.intrusion with
  | none => disturbed
  | some write =>
      { disturbed with
        store := disturbed.store.insert write.key write.field write.value
        intrusion := none }

/-- Serves a read, unless there is an outage. -/
def fetch
    (disturbed : Disturbed)
    (key : RecordKey)
    (operation : Operation)
    (policy : Option Policy) :
    Except StoreError Fetched × Disturbed :=
  match disturbed.outage with
  | some detail => (.error (.unavailable detail), disturbed)
  | none =>
      match disturbed.store.fetch key operation policy with
      | (.ok fetched, store) => (.ok fetched, { disturbed with store := store }.intrude)
      | (.error error, store) => (.error error, { disturbed with store := store })

/-- Serves a write, unless there is an outage. -/
def apply
    (disturbed : Disturbed)
    (key : RecordKey)
    (operation : Operation)
    (options : WriteOptions) :
    Except StoreError Nat × Disturbed :=
  match disturbed.outage with
  | some detail => (.error (.unavailable detail), disturbed)
  | none =>
      let (result, store) := disturbed.store.apply key operation options
      (result, { disturbed with store := store })

/-- A disturbed store as a backend. -/
def backend : Backend Disturbed :=
  ⟨fetch, apply⟩

end Disturbed
end Store
end FieldQuery
