import FieldQuery.Client.Read
import FieldQuery.Client.Write
import FieldQuery.Document.Conversion

/-!
# Document references

A reference binds a client of a memory store to one field of one record, so
that paths can be read and written without naming them again. It may have a
policy of its own, and it may note its operations in the store's journal.

A value that is read can be taken for a form; a value that is written may
turn out to have no document form. Both failures are conversion failures.
-/

namespace FieldQuery
namespace Document

open Client (Session Request Task)
open Store (MemoryStore RecordKey)

/-- One field of one record, seen by a client. -/
structure Reference where
  client : Client MemoryStore
  key : RecordKey
  field : String
  policy : Option Policy
  /-- Whether operations are noted in the journal. -/
  noted : Bool

/-- How an operation of a reference can fail. -/
inductive ReferenceError where
  | document (error : DocumentError)
  /-- The value at a path has not the form asked for, or none at all. -/
  | conversion (path : String)
deriving DecidableEq

/-- What a reference does in a session of its client. -/
abbrev Work :=
  ExceptT ReferenceError (StateM (Session MemoryStore))

namespace Reference

/-- A reference to a field, without a policy. -/
def ofField
    (client : Client MemoryStore)
    (key : RecordKey)
    (field : String) :
    Reference :=
  ⟨client, key, field, none, false⟩

/-- The request that a reference makes of its client. -/
def request
    (reference : Reference)
    (path : String) :
    Request :=
  ⟨reference.key, reference.field, path, reference.policy⟩

/-- Notes an operation in the journal, if the reference does so. -/
def note
    (reference : Reference)
    (verb : String)
    (path : String) :
    Work Unit :=
  if reference.noted then
    modify fun session =>
      { session with
        store := session.store.note
          ("DEBUG Docpath Builder: " ++ verb ++ " " ++ path ++ " on " ++
            reference.key.render ++ "/" ++ reference.field) }
  else
    return ()

/-- Carries out an operation of the client. -/
def perform
    {α : Type}
    (task : Task MemoryStore α) :
    Work α :=
  task.adapt .document

/-- A value, unless it is none. -/
def converted
    {α : Type}
    (path : String) :
    Option α → Except ReferenceError α
  | some value => .ok value
  | none => .error (.conversion path)

/-- Reads what a path selects as one value. -/
def get
    (reference : Reference)
    (path : String) :
    Work Value := do
  reference.note "GET" path
  perform (reference.client.get (reference.request path))

/-- Reads what a path selects as a list of values. -/
def getAll
    (reference : Reference)
    (path : String) :
    Work (List Value) := do
  reference.note "GET ALL" path
  perform (reference.client.getAll (reference.request path))

/-- Reads what a path selects and takes it for a form. -/
def getAs
    {α : Type}
    (reference : Reference)
    (form : Form α)
    (path : String) :
    Work α := do
  let value ← reference.get path
  converted path (form value)

/-- Puts a value, if it has a document form, at every place that a path names. -/
def put
    (reference : Reference)
    (path : String)
    (value : Option Value) :
    Work Unit := do
  reference.note "PUT" path
  let value ← converted path value
  perform (reference.client.put (reference.request path) value)

/-- Adds a value, if it has a document form, to every list that a path names. -/
def append
    (reference : Reference)
    (path : String)
    (value : Option Value) :
    Work Unit := do
  reference.note "APPEND" path
  let value ← converted path value
  perform (reference.client.append (reference.request path) value)

/-- Deletes every place that a path names. -/
def delete
    (reference : Reference)
    (path : String) :
    Work Unit := do
  reference.note "DELETE" path
  perform (reference.client.delete (reference.request path))

end Reference
end Document
end FieldQuery
