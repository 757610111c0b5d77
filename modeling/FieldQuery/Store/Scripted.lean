import FieldQuery.Store.Recorded

/-!
# Scripted stores

A scripted store repeats the answers of a script one after another. The first
call for which the script has no answer left is noted, and fails like every
call after it. So a script shows which call a client would make next if the
calls before were answered in a certain way.
-/

namespace FieldQuery
namespace Store

/-- What a call is answered with. -/
inductive Answer where
  | fetched (result : Except StoreError Fetched)
  | applied (result : Except StoreError Nat)

/-- The number of writes that a call with such an answer came to. -/
def Answer.writes :
    Answer → Nat
  | applied (.ok _) => 1
  | _ => 0

theorem Answer.writes_le_one
    (answer : Answer) :
    answer.writes ≤ 1 := by
  unfold writes
  split <;> decide

/-- The answers that are left, and the first call that got none. -/
structure Script where
  answers : List Answer
  asked : Option Call

namespace Script

/-- A script that nobody has asked for more than it has. -/
def start
    (answers : List Answer) :
    Script :=
  ⟨answers, none⟩

/-- Notes a call that has no answer. -/
def await
    (script : Script)
    (call : Call) :
    Script :=
  ⟨[], script.asked <|> some call⟩

/-- What a call without an answer fails with. -/
def silence : StoreError :=
  .unavailable "no answer"

/-- A script as a backend. -/
def backend : Backend Script where
  fetch script key operation policy :=
    match script.answers with
    | .fetched result :: rest => (result, { script with answers := rest })
    | _ => (.error silence, script.await (.fetch key operation policy))
  apply script key operation options :=
    match script.answers with
    | .applied result :: rest => (result, { script with answers := rest })
    | _ => (.error silence, script.await (.apply key operation options))

end Script

/-- Serves a call by the memory store. -/
def MemoryStore.serve
    (store : MemoryStore) :
    Call → Answer × MemoryStore
  | .fetch key operation policy =>
      let (result, after) := store.fetch key operation policy
      (.fetched result, after)
  | .apply key operation options =>
      let (result, after) := store.apply key operation options
      (.applied result, after)

end Store
end FieldQuery
