import FieldQuery.Store.Scripted

/-!
# Writes in place

A write of the memory store can be taken apart into what happens to the
records on the way. An operation that may create its record puts a blank one
there before anything is checked, and a key that is set in a missing field puts
an empty map there first. A guard that fails takes the blank record out again.
A failure further on takes nothing back: whatever was changed by then stays.
-/

namespace FieldQuery
namespace Store

namespace Operation

/-- The fields of a record with the map that an operation sets a key in. -/
def openIn
    (operation : Operation)
    (fields : Members Value) :
    Members Value :=
  match operation with
  | act field [] (.setByKey ..) =>
      match fields.get? field with
      | some _ => fields
      | none => fields.insert field (.map [])
  | _ => fields

/-- What an operation comes to in the fields of a record, and the fields as it leaves them. -/
def writeIn
    (operation : Operation)
    (fields : Members Value) :
    Except StoreError Unit × Members Value :=
  let opened := operation.openIn fields
  match operation.write (opened.get? operation.field) with
  | .ok value => (.ok (), opened.insert operation.field value)
  | .error error => (.error error, opened)

end Operation

namespace Records

/-- The records with the one that an operation writes to, if it may create it. -/
def openFor
    (key : RecordKey)
    (operation : Operation)
    (records : Records) :
    Records :=
  match records.get? key with
  | some _ => records
  | none =>
      if operation.creates then
        records.put key .blank
      else
        records

/-- Takes a record out if it was never written. -/
def discardBlank
    (key : RecordKey)
    (records : Records) :
    Records :=
  match records.get? key with
  | none => records
  | some record =>
      if record.generation = 0 then
        records.erase key
      else
        records

/-- What a write comes to, and the records as it leaves them. -/
def applyInPlace
    (key : RecordKey)
    (operation : Operation)
    (expected : Option Nat)
    (records : Records) :
    Except StoreError Nat × Records :=
  let opened := records.openFor key operation
  match opened.get? key with
  | none => (.error .recordNotFound, opened)
  | some record =>
      match MemoryStore.checkGeneration expected record.generation with
      | .error error => (.error error, opened.discardBlank key)
      | .ok () =>
          match operation.writeIn record.fields with
          | (.error error, fields) =>
              (.error error, opened.put key ⟨fields, record.generation⟩)
          | (.ok (), fields) =>
              let generation := nextGeneration record.generation
              (.ok generation, opened.put key ⟨fields, generation⟩)

/-- The records after a whole field was written directly. -/
def insertInPlace
    (key : RecordKey)
    (field : String)
    (value : Value)
    (records : Records) :
    Records :=
  let record := (records.get? key).getD .blank
  records.put key ⟨record.fields.insert field value, nextGeneration record.generation⟩

/-- Whether every record was written at least once, and so has a field. -/
def Written
    (records : Records) : Prop :=
  ∀ entry ∈ records, 0 < entry.2.generation ∧ entry.2.fields ≠ []

end Records

/-- What is done to a memory store from outside. -/
inductive Access where
  | call (call : Call)
  | insert (key : RecordKey) (field : String) (value : Value)
  | remove (key : RecordKey)

/-- The records after an access. -/
def Records.accessed
    (records : Records) :
    Access → Records
  | .call (.fetch ..) => records
  | .call (.apply key operation options) =>
      (records.applyInPlace key operation options.expected).2
  | .insert key field value => records.insertInPlace key field value
  | .remove key => records.erase key

/-- The records that some accesses lead to, the last of which comes first in the list. -/
def Records.reached :
    List Access → Records
  | [] => []
  | access :: before => (reached before).accessed access

/-- The memory store after an access. -/
def MemoryStore.accessed
    (store : MemoryStore) :
    Access → MemoryStore
  | .call call => (store.serve call).2
  | .insert key field value => store.insert key field value
  | .remove key => store.remove key

/-- The memory store that some accesses lead to, the last of which comes first in the list. -/
def MemoryStore.reached :
    List Access → MemoryStore
  | [] => .empty
  | access :: before => (reached before).accessed access

end Store
end FieldQuery
