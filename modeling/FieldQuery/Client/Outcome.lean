import FieldQuery.Client.Calls

/-!
# Conditions of writes

A write that its store can be reached for succeeds or fails by the shape of the
field alone. A value can be put where the collection at the end of the contexts
has a place for it, which may be the one behind its last element, and deleted
where the collection can do without it. Every other write needs the node that
the plain part of its path addresses, and matches in it that it can change.
-/

namespace FieldQuery

/-- Whether a collection has a place for a child that an accessor names. -/
def Accessor.FitsIn :
    Accessor → Value → Prop
  | key _, .map _ => True
  | index i, .list items => -(items.length : Int) ≤ i ∧ i ≤ items.length
  | _, _ => False

/-- Whether a collection has no objection to the removal of a child that an accessor names. -/
def Accessor.ComesOff :
    Accessor → Value → Prop
  | key _, .map _ => True
  | index i, .list items => -(items.length : Int) ≤ i ∧ i < items.length
  | _, _ => False

namespace Path.Plan

/-- The collection that the contexts of a plan lead to in a field. -/
def container?
    (plan : Plan)
    (field : Option Value) :
    Option Value :=
  field.bind (Accessor.follow? plan.contexts)

/-- The node that the plain part of a path addresses in a field. -/
def node?
    (plan : Plan)
    (field : Option Value) :
    Option Value :=
  match plan.last with
  | .root => field
  | .access accessor => (plan.container? field).bind accessor.get?

/--
Whether a value can be put to what a plain path names. A key is also put into a
field that is not there yet.
-/
def Settable
    (plan : Plan)
    (field : Option Value) : Prop :=
  match plan.last with
  | .root => True
  | .access accessor =>
      (∃ container, plan.container? field = some container ∧ accessor.FitsIn container) ∨
      ((∃ name, accessor = .key name) ∧ plan.contexts = [] ∧ field = none)

/-- Whether what a plain path names can be deleted. -/
def Removable
    (plan : Plan)
    (field : Option Value) : Prop :=
  match plan.last with
  | .root => True
  | .access accessor =>
      ∃ container, plan.container? field = some container ∧ accessor.ComesOff container

end Path.Plan

namespace Client

/--
Whether a job cannot change the node that its path addresses: the advanced part
computes lengths, or an element is to be appended to what is no list.
-/
def Job.Refuses
    (job : Job)
    (plan : Path.Plan)
    (node : Value) : Prop :=
  match plan.advanced with
  | none => (∃ value, job.work = .append value) ∧ ¬ ∃ items, node = .list items
  | some advanced =>
      ∃ query,
        job.evaluator.compile advanced = .ok query ∧
        (query.function = some .length ∨
          (∃ value, job.work = .append value) ∧
            ∃ found ∈ query.find node, ¬ ∃ items, found = .list items)

/-- An outcome that is a success if a condition holds, and fails with an error if not. -/
def Settles
    (outcome : Except DocumentError Unit)
    (condition : Prop)
    (error : DocumentError) : Prop :=
  (condition → outcome = .ok ()) ∧ (¬ condition → outcome = .error error)

end Client
end FieldQuery
