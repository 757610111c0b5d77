import FieldQuery.Store.Backend

/-!
# Recorded stores

Any backend can be given a record of the calls that reach it. The calls are
answered by the backend as before.
-/

namespace FieldQuery
namespace Store

/-- One call of a backend. -/
inductive Call where
  | fetch (key : RecordKey) (operation : Operation) (policy : Option Policy)
  | apply (key : RecordKey) (operation : Operation) (options : WriteOptions)
deriving DecidableEq

/-- The operation of a call. -/
def Call.operation :
    Call → Operation
  | fetch _ operation _ => operation
  | apply _ operation _ => operation

/-- The policy of a call. -/
def Call.policy :
    Call → Option Policy
  | fetch _ _ policy => policy
  | apply _ _ options => options.policy

/-- The generation that a call expects of its record. -/
def Call.expected :
    Call → Option Nat
  | fetch .. => none
  | apply _ _ options => options.expected

/-- A store and the calls that reached it, last first. -/
structure Recorded (σ : Type) where
  store : σ
  calls : List Call

variable {σ : Type}

/-- A store that no call has reached yet. -/
def Recorded.start
    (store : σ) :
    Recorded σ :=
  ⟨store, []⟩

/-- A backend that keeps a record of its calls. -/
def Backend.recorded
    (backend : Backend σ) :
    Backend (Recorded σ) where
  fetch recorded key operation policy :=
    let (result, store) := backend.fetch recorded.store key operation policy
    (result, ⟨store, .fetch key operation policy :: recorded.calls⟩)
  apply recorded key operation options :=
    let (result, store) := backend.apply recorded.store key operation options
    (result, ⟨store, .apply key operation options :: recorded.calls⟩)

end Store
end FieldQuery
