import FieldQuery.Store.Backend

/-!
# Faltering stores

A memory store can be out of reach for some of the calls that come to it. Such
a call fails, and the store does not hear of it; the calls before and after it
are served.
-/

namespace FieldQuery
namespace Store

/-- A memory store that is out of reach for some calls. -/
structure Faltering where
  store : MemoryStore
  /-- For each of the calls to come, what it fails with if the store is out of reach. -/
  outages : List (Option String)

namespace Faltering

variable {α : Type}

/-- Serves a call, unless the store is out of reach. -/
def serve
    (call : MemoryStore → Except StoreError α × MemoryStore)
    (faltering : Faltering) :
    Except StoreError α × Faltering :=
  match faltering.outages.head?.join with
  | some detail =>
      (.error (.unavailable detail), { faltering with outages := faltering.outages.tail })
  | none =>
      let (result, store) := call faltering.store
      (result, ⟨store, faltering.outages.tail⟩)

/-- A faltering store as a backend. -/
def backend : Backend Faltering where
  fetch faltering key operation policy :=
    faltering.serve fun store => store.fetch key operation policy
  apply faltering key operation options :=
    faltering.serve fun store => store.apply key operation options

end Faltering
end Store
end FieldQuery
