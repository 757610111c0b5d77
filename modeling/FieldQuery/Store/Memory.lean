import FieldQuery.Policy
import FieldQuery.Store.Container
import FieldQuery.Store.Key

/-!
# The memory store

The store keeps records in memory. A record has named fields and a
generation, which each successful write raises by one; the first write of a
record makes it one. Generations are counted in 32 bits: the counter starts
again with one, since zero is left to records that were never written. A
failed write changes no record.

The store counts the calls it serves and keeps a journal with one line for
each of them. Direct access to the records, which is not part of the store
interface, is neither counted nor noted.
-/

namespace FieldQuery
namespace Store

/-- The generation after one more write. -/
def nextGeneration
    (generation : Nat) :
    Nat :=
  max ((generation + 1) % UInt32.size) 1

/-- The fields of a record and its generation, a counter of its writes. -/
structure Record where
  fields : Members Value
  generation : Nat
deriving DecidableEq

/-- The record that a creating write starts from. -/
def Record.blank : Record :=
  ⟨[], 0⟩

/-- A record with another field, a generation later. -/
def Record.withField
    (record : Record)
    (field : String)
    (value : Value) :
    Record :=
  ⟨Members.insert field value record.fields, nextGeneration record.generation⟩

/-- The calls that a store has served. -/
structure Counters where
  fetches : Nat
  applies : Nat
  failures : Nat
deriving DecidableEq

/-- The calls of either kind. -/
def Counters.roundTrips
    (counters : Counters) :
    Nat :=
  counters.fetches + counters.applies

/-- What a read returns: the value, unless it is absent, and the record's generation. -/
structure Fetched where
  value : Option Value
  generation : Nat
deriving DecidableEq

/-- The options of a write: a policy, and the generation that the record must have. -/
structure WriteOptions where
  policy : Option Policy
  expected : Option Nat
deriving DecidableEq

/-- Records by their keys. -/
abbrev Records :=
  List (RecordKey × Record)

namespace Records

/-- The record under a key. -/
def get?
    (key : RecordKey) :
    Records → Option Record
  | [] => none
  | (other, record) :: rest =>
      if other = key then
        some record
      else
        get? key rest

/-- Puts a record under a key, in place of any record it had. -/
def put
    (key : RecordKey)
    (record : Record) :
    Records → Records
  | [] => [(key, record)]
  | (other, old) :: rest =>
      if other = key then
        (key, record) :: rest
      else
        (other, old) :: put key record rest

/-- Takes the record under a key out. -/
def erase
    (key : RecordKey) :
    Records → Records
  | [] => []
  | (other, record) :: rest =>
      if other = key then
        rest
      else
        (other, record) :: erase key rest

end Records

/-- A store in memory. -/
structure MemoryStore where
  records : Records
  counters : Counters
  /-- The lines noted so far, last first. -/
  journal : List String
deriving DecidableEq

namespace MemoryStore

/-- A store without records. -/
def empty : MemoryStore :=
  ⟨[], ⟨0, 0, 0⟩, []⟩

/-- Notes a line in the journal. -/
def note
    (line : String)
    (store : MemoryStore) :
    MemoryStore :=
  { store with journal := line :: store.journal }

/-- The record under a key. -/
def record?
    (store : MemoryStore)
    (key : RecordKey) :
    Option Record :=
  Records.get? key store.records

/-- One field of a record. -/
def field?
    (store : MemoryStore)
    (key : RecordKey)
    (field : String) :
    Option Value :=
  (store.record? key).bind fun record => Members.get? field record.fields

/-- The generation of a record. -/
def generation?
    (store : MemoryStore)
    (key : RecordKey) :
    Option Nat :=
  (store.record? key).map Record.generation

/-- Writes a whole field directly. -/
def insert
    (store : MemoryStore)
    (key : RecordKey)
    (field : String)
    (value : Value) :
    MemoryStore :=
  let record := (store.record? key).getD .blank
  { store with records := Records.put key (record.withField field value) store.records }

/-- Drops a record. -/
def remove
    (store : MemoryStore)
    (key : RecordKey) :
    MemoryStore :=
  { store with records := Records.erase key store.records }

/-- What an operation reads from a record. -/
def read
    (store : MemoryStore)
    (key : RecordKey)
    (operation : Operation) :
    Except StoreError Fetched :=
  match store.record? key with
  | none => .error .recordNotFound
  | some record =>
      (operation.read (Members.get? operation.field record.fields)).map fun value =>
        ⟨value, record.generation⟩

/-- Whether a record of a generation may be written. -/
def checkGeneration
    (expected : Option Nat)
    (generation : Nat) :
    Except StoreError Unit :=
  match expected with
  | none => .ok ()
  | some wanted =>
      if generation = wanted then
        .ok ()
      else
        .error (.generationMismatch wanted generation)

/-- The record that a write starts from, which some writes may create. -/
def target
    (store : MemoryStore)
    (key : RecordKey)
    (operation : Operation) :
    Except StoreError Record :=
  match store.record? key with
  | some record => .ok record
  | none =>
      if operation.creates then
        .ok .blank
      else
        .error .recordNotFound

/-- The record after a write. -/
def write
    (store : MemoryStore)
    (key : RecordKey)
    (operation : Operation)
    (expected : Option Nat) :
    Except StoreError Record := do
  let record ← store.target key operation
  checkGeneration expected record.generation
  let value ← operation.write (Members.get? operation.field record.fields)
  return record.withField operation.field value

/-- The journal line of a read. -/
def fetchLine
    (key : RecordKey)
    (operation : Operation)
    (policy : Option Policy) :
    Except StoreError Fetched → String
  | .ok fetched =>
      "TRACE fetch " ++ operation.text ++ " on " ++ key.render ++
        " (policy options: " ++ toString (policy.getD []).length ++ "): found=" ++
        toString fetched.value.isSome ++ " generation=" ++ toString fetched.generation
  | .error error =>
      "TRACE fetch " ++ operation.text ++ " on " ++ key.render ++ " failed: " ++ error.message

/-- The journal line of a write. -/
def applyLine
    (key : RecordKey)
    (operation : Operation) :
    Except StoreError Record → String
  | .ok record =>
      "TRACE apply " ++ operation.text ++ " on " ++ key.render ++
        ": generation=" ++ toString record.generation
  | .error error =>
      "TRACE apply " ++ operation.text ++ " on " ++ key.render ++ " failed: " ++ error.message

/-- One if a call failed, and zero if it did not. -/
def failureCount
    {α : Type} :
    Except StoreError α → Nat
  | .ok _ => 0
  | .error _ => 1

/-- Serves a read. -/
def fetch
    (store : MemoryStore)
    (key : RecordKey)
    (operation : Operation)
    (policy : Option Policy) :
    Except StoreError Fetched × MemoryStore :=
  let result := store.read key operation
  let counters :=
    { store.counters with
      fetches := store.counters.fetches + 1
      failures := store.counters.failures + failureCount result }
  (result, { store with counters := counters }.note (fetchLine key operation policy result))

/-- Serves a write; it returns the new generation of the record. -/
def apply
    (store : MemoryStore)
    (key : RecordKey)
    (operation : Operation)
    (options : WriteOptions) :
    Except StoreError Nat × MemoryStore :=
  let result := store.write key operation options.expected
  let counters :=
    { store.counters with
      applies := store.counters.applies + 1
      failures := store.counters.failures + failureCount result }
  let records :=
    match result with
    | .ok record => Records.put key record store.records
    | .error _ => store.records
  (result.map Record.generation,
    { store with records := records, counters := counters }.note
      (applyLine key operation result))

end MemoryStore
end Store
end FieldQuery
