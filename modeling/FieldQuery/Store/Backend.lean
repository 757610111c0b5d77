import FieldQuery.Store.Memory

/-!
# Store backends

A client needs two calls of a store: one native read and one native write.
A backend is any pair of such calls on a state of any type.
-/

namespace FieldQuery
namespace Store

/-- The two calls that a client makes, on a store whose state is `σ`. -/
structure Backend (σ : Type) where
  fetch : σ → RecordKey → Operation → Option Policy → Except StoreError Fetched × σ
  apply : σ → RecordKey → Operation → WriteOptions → Except StoreError Nat × σ

/-- The memory store as a backend. -/
def MemoryStore.backend : Backend MemoryStore :=
  ⟨MemoryStore.fetch, MemoryStore.apply⟩

end Store
end FieldQuery
