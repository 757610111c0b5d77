import FieldQuery.Client.Outcome
import FieldQuery.Proofs.Appending
import FieldQuery.Proofs.Calls
import FieldQuery.Proofs.GetPut
import FieldQuery.Proofs.Refusals
import FieldQuery.Proofs.Scripts
import FieldQuery.Proofs.StoredDocuments

/-!
# Outcomes of writes

With the store to itself, a client knows what a write comes to from the field
alone. A plain put or delete is one native write, which fails only where the
collection it is made in has no place for it. Any other write fails if the node
that it addresses is missing or refuses the change, and in no other way: where
a node could be read, a changed one can be written back, for nobody else has
written the record in between.
-/

namespace FieldQuery

theorem exists_position?_iff
    {index : Int}
    {length : Nat} :
    (∃ position, position? index length = some position) ↔
      -(length : Int) ≤ index ∧ index < length := by
  rw [← Option.isSome_iff_exists]
  grind [position?]

namespace Store

open Accessor (follow? trace?)

section Children

variable {accessor : Accessor}
variable {node value : Value}

theorem exists_boundedPosition_iff
    {index : Int}
    {length : Nat} :
    (∃ position, boundedPosition index length = .ok position) ↔
      -(length : Int) ≤ index ∧ index < length := by
  rw [← exists_position?_iff, boundedPosition]
  cases position? index length with
  | none => simp
  | some position => simp

/-- A child is set in a collection that has a place for it. -/
theorem exists_setChild_iff :
    (∃ changed, setChild value accessor node = .ok changed) ↔ accessor.FitsIn node := by
  cases accessor with
  | key name =>
      cases node with
      | map members => exact ⟨fun _ => trivial, fun _ => ⟨_, rfl⟩⟩
      | _ => simp [setChild, setKey, Accessor.FitsIn]
  | index index =>
      cases node with
      | list items =>
          rw [setChild, setIndex, Accessor.FitsIn]
          by_cases hend : index = items.length
          · rw [if_pos hend]
            exact ⟨fun _ => by omega, fun _ => ⟨_, rfl⟩⟩
          · have hrange : (-(items.length : Int) ≤ index ∧ index ≤ items.length) ↔
                -(items.length : Int) ≤ index ∧ index < items.length := by
              omega
            rw [if_neg hend, hrange, ← exists_boundedPosition_iff]
            cases boundedPosition index items.length <;> simp [Except.map]
      | _ => simp [setChild, setIndex, Accessor.FitsIn]

/-- A child is removed from a collection that can do without it. -/
theorem exists_removeChild_iff :
    (∃ left, removeChild accessor node = .ok left) ↔ accessor.ComesOff node := by
  cases accessor with
  | key name =>
      cases node with
      | map members => exact ⟨fun _ => trivial, fun _ => ⟨_, rfl⟩⟩
      | _ => simp [removeChild, removeKey, Accessor.ComesOff]
  | index index =>
      cases node with
      | list items =>
          rw [removeChild, popIndex, Accessor.ComesOff, ← exists_boundedPosition_iff]
          cases boundedPosition index items.length <;> simp [Except.map]
      | _ => simp [removeChild, popIndex, Accessor.ComesOff]

/-- A change at the end of some contexts succeeds if it does so there. -/
theorem exists_changeAt_iff
    {change : Value → Except StoreError Value}
    {contexts : List Accessor}
    {document : Value} :
    (∃ result, changeAt change contexts document = .ok result) ↔
      ∃ container changed,
        follow? contexts document = some container ∧ change container = .ok changed := by
  rw [Accessor.follow?_eq_trace?]
  constructor
  · rintro ⟨result, hresult⟩
    obtain ⟨way, container, changed, htrace, hchanged, -⟩ := trace?_of_changeAt hresult
    exact ⟨container, changed, by rw [htrace]; rfl, hchanged⟩
  · rintro ⟨container, changed, hfollow, hchanged⟩
    obtain ⟨⟨way, node⟩, htrace, rfl⟩ := Option.map_eq_some_iff.1 hfollow
    exact ⟨_, by rw [changeAt_of_trace? change htrace, hchanged]; rfl⟩

end Children

section Plans

variable {plan : Path.Plan}
variable {field : Option Value}

/-- What a plain path names can be written if and only if its plan says so. -/
theorem exists_write_put_iff
    (name : String)
    (value : Value) :
    (∃ result, (Operation.put name plan.contexts value plan.last).write field = .ok result) ↔
      plan.Settable field := by
  rw [Path.Plan.Settable, Path.Plan.container?]
  cases plan.last with
  | root => exact ⟨fun _ => trivial, fun _ => ⟨value, rfl⟩⟩
  | access accessor =>
      cases field with
      | some document =>
          rw [write_put_access, exists_changeAt_iff, Option.bind_some]
          simp only [← @exists_setChild_iff accessor _ value, reduceCtorEq, and_false, or_false,
            exists_and_left]
      | none =>
          cases accessor with
          | key key =>
              cases plan.contexts <;>
                simp [Operation.put, Operation.write, present, setKey, bind, Except.bind]
          | index index =>
              cases plan.contexts <;>
                simp [Operation.put, Operation.write, present, bind, Except.bind]

/-- What a plain path names can be deleted if and only if its plan says so. -/
theorem exists_write_delete_iff
    (name : String) :
    (∃ result, (Operation.delete name plan.contexts plan.last).write field = .ok result) ↔
      plan.Removable field := by
  rw [Path.Plan.Removable, Path.Plan.container?]
  cases plan.last with
  | root => exact ⟨fun _ => trivial, fun _ => ⟨.map [], rfl⟩⟩
  | access accessor =>
      cases field with
      | some document =>
          rw [write_delete_access, exists_changeAt_iff, Option.bind_some]
          simp only [← exists_removeChild_iff, exists_and_left]
      | none =>
          cases accessor with
          | key key => simp [Operation.delete, Operation.write, present, bind, Except.bind]
          | index index => simp [Operation.delete, Operation.write, present, bind, Except.bind]

/-- A read finds the node that a plan addresses. -/
theorem finds_node?
    (name : String)
    (plan : Path.Plan)
    (field : Option Value) :
    Finds (plan.node? field) ((Operation.get name plan.contexts plan.last).read field) := by
  rw [Path.Plan.node?, Path.Plan.container?]
  cases plan.last with
  | root => rfl
  | access accessor =>
      have hfinds := finds_read_access name plan.contexts accessor field
      have hconcat : ∀ document, follow? (plan.contexts ++ [accessor]) document =
          (follow? plan.contexts document).bind accessor.get? := fun document =>
        Accessor.follow?_concat plan.contexts accessor document
      simp only [hconcat, ← Option.bind_assoc] at hfinds
      exact hfinds

end Plans

/-- Whether an error is about the place that an operation addresses. -/
def Misfit
    (error : StoreError) : Prop :=
  ∀ path phase, Client.translate path phase error = Client.translate path phase .recordNotFound

/-- Whether a change fails with such errors only. -/
def FailsByMisfit
    (change : Value → Except StoreError Value) : Prop :=
  ∀ value error, change value = .error error → Misfit error

theorem misfit_of_map
    {index : Int}
    {length : Nat}
    {further : Nat → Value}
    {error : StoreError}
    (h : (boundedPosition index length).map further = .error error) :
    Misfit error := by
  rw [boundedPosition] at h
  cases hposition : position? index length with
  | none =>
      rw [hposition] at h
      rw [← Except.error.inj h]
      exact fun _ _ => rfl
  | some position =>
      rw [hposition] at h
      cases h

theorem failsByMisfit_setKey
    (key : String)
    (value : Value) :
    FailsByMisfit (setKey key value) := by
  intro container error h
  cases container with
  | map members => cases h
  | _ => exact Except.error.inj h ▸ fun _ _ => rfl

theorem failsByMisfit_setIndex
    (index : Int)
    (value : Value) :
    FailsByMisfit (setIndex index value) := by
  intro container error h
  cases container with
  | list items =>
      rw [setIndex] at h
      split at h
      · cases h
      · exact misfit_of_map h
  | _ => exact Except.error.inj h ▸ fun _ _ => rfl

theorem failsByMisfit_removeKey
    (key : String) :
    FailsByMisfit (removeKey key) := by
  intro container error h
  cases container with
  | map members => cases h
  | _ => exact Except.error.inj h ▸ fun _ _ => rfl

theorem failsByMisfit_popIndex
    (index : Int) :
    FailsByMisfit (popIndex index) := by
  intro container error h
  cases container with
  | list items => exact misfit_of_map h
  | _ => exact Except.error.inj h ▸ fun _ _ => rfl

theorem FailsByMisfit.changeAt
    {change : Value → Except StoreError Value}
    (h : FailsByMisfit change)
    (contexts : List Accessor) :
    FailsByMisfit (changeAt change contexts) := by
  intro document error herror
  cases htrace : trace? contexts document with
  | none =>
      obtain ⟨reason, hreason⟩ := changeAt_of_trace?_eq_none change htrace
      rw [hreason] at herror
      exact Except.error.inj herror ▸ fun _ _ => rfl
  | some traced =>
      obtain ⟨way, node⟩ := traced
      rw [changeAt_of_trace? change htrace] at herror
      cases hchange : change node with
      | ok changed =>
          rw [hchange] at herror
          cases herror
      | error fault =>
          rw [hchange] at herror
          exact Except.error.inj herror ▸ h node fault hchange

/-- Whatever an operation that writes fails with is about the place that it addresses. -/
theorem Operation.misfit_of_write
    {operation : Operation}
    {field : Option Value}
    {error : StoreError}
    (h : operation.write field = .error error) :
    Misfit error := by
  have misfit
      {change : Value → Except StoreError Value}
      {contexts : List Accessor}
      (hchange : FailsByMisfit change)
      (hwrite : (do changeAt change contexts (← present field)) = .error error) :
      Misfit error := by
    cases field with
    | none => exact Except.error.inj hwrite ▸ fun _ _ => rfl
    | some document => exact hchange.changeAt contexts document error hwrite
  unfold Operation.write at h
  split at h
  · cases h
  · exact failsByMisfit_setKey _ _ _ _ h
  · exact misfit (failsByMisfit_setKey _ _) h
  · exact misfit (failsByMisfit_setIndex _ _) h
  · exact misfit (failsByMisfit_removeKey _) h
  · exact misfit (failsByMisfit_popIndex _) h
  · exact Except.error.inj h ▸ fun _ _ => rfl

/-- An unguarded write fails with such an error, too, if its record is missing or not. -/
theorem MemoryStore.misfit_of_apply
    {store : MemoryStore}
    {key : RecordKey}
    {operation : Operation}
    {policy : Option Policy}
    {error : StoreError}
    (h : (store.apply key operation ⟨policy, none⟩).1 = .error error) :
    Misfit error := by
  have hwrite : store.write key operation none = .error error := by
    cases hresult : store.write key operation none with
    | ok record =>
        simp only [apply, hresult] at h
        cases h
    | error fault =>
        simp only [apply, hresult] at h
        exact congrArg Except.error (Except.error.inj h)
  rcases write_eq_error hwrite with htarget | ⟨record, -, hcheck | ⟨-, hfails⟩⟩
  · rw [target] at htarget
    split at htarget
    · cases htarget
    · split at htarget
      · cases htarget
      · exact Except.error.inj htarget ▸ fun _ _ => rfl
  · cases hcheck
  · exact Operation.misfit_of_write hfails

end Store

namespace Client

open Store (MemoryStore Operation Misfit)

variable {request : Request}
variable {plan : Path.Plan}
variable {store : MemoryStore}

/-- An unguarded write succeeds if its operation fits the field, and fails by misfit if not. -/
theorem settles_sending
    {operation : Operation}
    {policy : Option Policy}
    {phase : Phase}
    (hname : operation.field = request.field) :
    Settles
      ((Course.sending request operation ⟨policy, none⟩ phase).run MemoryStore.backend store).1
      (∃ result, operation.write (store.field? request.key request.field) = .ok result)
      (translate request.path phase .recordNotFound) := by
  have hrun : ((Course.sending request operation ⟨policy, none⟩ phase).run
      MemoryStore.backend store).1 =
        written request.path phase (store.apply request.key operation ⟨policy, none⟩).1 :=
    rfl
  rw [hrun]
  constructor
  · rintro ⟨result, hresult⟩
    rw [← hname] at hresult
    obtain ⟨generation, after, happly⟩ := MemoryStore.exists_apply_eq_ok policy hresult
    rw [happly]
    rfl
  · intro hfails
    cases happly : (store.apply request.key operation ⟨policy, none⟩).1 with
    | ok generation =>
        obtain ⟨result, hresult, -⟩ := MemoryStore.fieldChange_of_apply (Prod.ext happly rfl)
        rw [hname] at hresult
        exact absurd ⟨result, hresult⟩ hfails
    | error error => exact congrArg Except.error (MemoryStore.misfit_of_apply happly _ _)

/-- Where a node can be read, any value can be put. -/
theorem exists_write_put_of_node?
    {field : Option Value}
    {part : Value}
    (name : String)
    (changed : Value)
    (h : plan.node? field = some part) :
    ∃ result, (Operation.put name plan.contexts changed plan.last).write field = .ok result := by
  have hfinds := Store.finds_node? name plan field
  rw [h] at hfinds
  obtain ⟨document, rfl, hput⟩ := Store.write_put_of_read hfinds.eq_ok
  obtain ⟨again, -, hchanged⟩ := Store.write_put_put changed hput
  exact ⟨again, hchanged⟩

/-- What was read at a generation is written back, while the record is still at it. -/
theorem run_sending_writeBack
    (client : Client MemoryStore)
    {part : Value}
    (changed : Value)
    {before : MemoryStore}
    (policy : Option Policy)
    (hrecord : before.record? request.key = store.record? request.key)
    (hpart : plan.node? (store.field? request.key request.field) = some part) :
    ((Course.sending request (Operation.put request.field plan.contexts changed plan.last)
      (client.writeBackOptions policy ((store.generation? request.key).getD 0))
      .writeBack).run MemoryStore.backend before).1 = .ok () := by
  obtain ⟨result, hwrite⟩ := exists_write_put_of_node? request.field changed hpart
  have hfield : before.field? request.key request.field =
      store.field? request.key request.field := by
    rw [MemoryStore.field?, MemoryStore.field?, hrecord]
  have hfits : (Operation.put request.field plan.contexts changed plan.last).write
      (before.field? request.key
        (Operation.put request.field plan.contexts changed plan.last).field) = .ok result := by
    rw [field_put, hfield]
    exact hwrite
  have hguard : ∀ record,
      before.target request.key (Operation.put request.field plan.contexts changed plan.last) =
        .ok record →
      MemoryStore.checkGeneration
        (client.writeBackOptions policy ((store.generation? request.key).getD 0)).expected
        record.generation = .ok () := by
    intro record htarget
    have hfound := MemoryStore.eq_getD_of_target htarget
    have hgeneration : (store.generation? request.key).getD 0 = record.generation := by
      rw [hfound, hrecord, MemoryStore.generation?]
      cases store.record? request.key <;> rfl
    rw [writeBackOptions, hgeneration]
    cases client.config.generationCheck with
    | false => rfl
    | true => exact if_pos rfl
  obtain ⟨generation, after, happly⟩ := MemoryStore.exists_apply_eq_ok_of_guard hguard hfits
  simp only [Course.sending, Course.run, MemoryStore.backend, happly]
  rfl

/-- A write-back comes to what its edit comes to on the node that the plan addresses. -/
theorem outcome_rewriting
    (client : Client MemoryStore)
    (edit : Value → Except DocumentError Value) :
    ((client.rewriting request plan edit).run MemoryStore.backend store).1 =
      match plan.node? (store.field? request.key request.field) with
      | none => .error (.objectNotFound request.path)
      | some part => (edit part).map fun _ => () := by
  have hread := received_read_of_finds store request
    (field_get request.field plan.contexts plan.last)
    (Store.finds_node? request.field plan)
    (by rw [Path.Plan.node?]; cases plan.last <;> rfl)
  rw [rewriting, run_fetching, hread]
  cases hpart : plan.node? (store.field? request.key request.field) with
  | none => rfl
  | some part =>
      simp only [received, Course.bind]
      cases edit part with
      | error error => rfl
      | ok changed => exact run_sending_writeBack client changed _ rfl hpart

/-- An outcome that is settled fails with one error only. -/
theorem Settles.error_eq
    {outcome : Except DocumentError Unit}
    {condition : Prop}
    {expected error : DocumentError}
    (h : Settles outcome condition expected)
    (herror : outcome = .error error) :
    error = expected := by
  by_cases hcondition : condition
  · cases (h.1 hcondition).symm.trans herror
  · exact Except.error.inj (herror.symm.trans (h.2 hcondition))

section Edits

variable {client : Client MemoryStore}
variable {node : Value}
variable {value : Value}
variable {source : String}
variable {query : Query}

/-- An edit fails with one error only. -/
theorem settles_edited
    {path : String}
    {outcome : Except QueryError Value}
    {condition : Prop}
    (h : (∃ changed, outcome = .ok changed) ↔ condition) :
    Settles ((edited path outcome).map fun _ => ()) condition (.writeNotApplicable path) := by
  constructor
  · intro hholds
    obtain ⟨changed, rfl⟩ := h.2 hholds
    rfl
  · intro hfails
    cases outcome with
    | ok changed => exact absurd (h.1 ⟨changed, rfl⟩) hfails
    | error error => rfl

/-- A query locates nodes unless it computes lengths. -/
theorem exists_locate_eq_ok_iff :
    (∃ locations, query.locate node = .ok locations) ↔ query.function ≠ some .length := by
  rw [Query.locate]
  cases hfunction : query.function with
  | none => simp
  | some function =>
      cases function with
      | length => simp

theorem exists_map_eq_ok_iff
    {α β : Type}
    {outcome : Except QueryError α}
    {further : α → β} :
    (∃ result, outcome.map further = .ok result) ↔ ∃ value, outcome = .ok value := by
  cases outcome <;> simp [Except.map]

theorem exists_append_eq_ok_iff_lists
    (hnode : node.WellFormed) :
    (∃ count, (query.append node value).2 = .ok count) ↔
      query.function ≠ some .length ∧ ∀ found ∈ query.find node, ∃ items, found = .list items := by
  cases hfunction : query.function with
  | none =>
      rw [Query.exists_append_eq_ok_iff hnode hfunction]
      simp
  | some function =>
      cases function with
      | length =>
          rw [Query.append, Query.forEach, Query.locate, hfunction]
          simp

end Edits

namespace Job

variable {job : Job}
variable {node : Value}

theorem refuses_iff
    {source : String}
    {query : Query}
    (hadvanced : plan.advanced = some source)
    (hcompile : job.evaluator.compile source = .ok query) :
    job.Refuses plan node ↔
      query.function = some .length ∨
        (∃ value, job.work = .append value) ∧
          ∃ found ∈ query.find node, ¬ ∃ items, found = .list items := by
  rw [Refuses, hadvanced]
  constructor
  · rintro ⟨other, hother, hrefuses⟩
    obtain rfl := Except.ok.inj (hother.symm.trans hcompile)
    exact hrefuses
  · exact fun hrefuses => ⟨query, hcompile, hrefuses⟩

/-- The advanced part of a path that has a plan is a query. -/
theorem exists_compile_eq_ok
    {source : String}
    (hfull : job.evaluator = .full)
    (hplan : Path.Plan.compile job.evaluator job.request.path = .ok plan)
    (hadvanced : plan.advanced = some source) :
    ∃ query, job.evaluator.compile source = .ok query := by
  obtain ⟨query, hquery⟩ := @compiled_advanced _ (job.client MemoryStore.backend) job.request
    plan source hfull hplan hadvanced
  cases hcompile : (job.client MemoryStore.backend).evaluator.compile source with
  | ok query => exact ⟨query, hcompile⟩
  | error error =>
      rw [hcompile] at hquery
      cases hquery

section Advanced

variable {source : String}
variable {query : Query}
variable {value : Value}
variable (hadvanced : plan.advanced = some source)
variable (hcompile : job.evaluator.compile source = .ok query)

include hadvanced hcompile

/-- A job whose edit fails for lengths alone is refused for lengths alone. -/
theorem settles_changedBy
    (edit : Query → Value → Except QueryError (Value × Nat))
    (hedit : (∃ result, edit query node = .ok result) ↔ query.function ≠ some .length)
    (hwork : ¬ ∃ value, job.work = .append value) :
    Settles
      (((job.client MemoryStore.backend).changedBy job.request edit source node).map fun _ => ())
      (¬ job.Refuses plan node)
      (.writeNotApplicable job.request.path) := by
  rw [changedBy_eq_edited edit hcompile, refuses_iff hadvanced hcompile]
  refine settles_edited ?_
  rw [exists_map_eq_ok_iff, hedit]
  simp only [hwork, false_and, or_false]

/-- A query that is to be appended to also refuses a node if it finds more than lists in it. -/
theorem settles_extended
    (hwork : job.work = .append value)
    (hnode : node.WellFormed) :
    Settles
      (((job.client MemoryStore.backend).extended job.request value (some source) node).map
        fun _ => ())
      (¬ job.Refuses plan node)
      (.writeNotApplicable job.request.path) := by
  rw [extended_eq_edited hcompile, refuses_iff hadvanced hcompile, hwork]
  refine settles_edited ?_
  rw [exists_map_eq_ok_iff, exists_append_eq_ok_iff_lists hnode]
  simp

end Advanced

/-- Without a query the node itself is appended to, which must be a list. -/
theorem settles_extended_none
    {value : Value}
    (hadvanced : plan.advanced = none)
    (hwork : job.work = .append value)
    (node : Value) :
    Settles
      (((job.client MemoryStore.backend).extended job.request value none node).map fun _ => ())
      (¬ job.Refuses plan node)
      (.writeNotApplicable job.request.path) := by
  rw [Refuses, hadvanced, hwork, extended]
  refine settles_edited ?_
  rw [Query.exists_appendTo_eq_ok_iff]
  simp

/-- A job that is no native write changes the node that its path addresses, if it may. -/
theorem exists_edit
    (hfull : job.evaluator = .full)
    (hplan : Path.Plan.compile job.evaluator job.request.path = .ok plan)
    (hwrites : job.work.reads = false)
    (hdirect : job.direct? plan = none) :
    ∃ edit,
      job.course = (job.client MemoryStore.backend).rewriting job.request plan edit ∧
      ∀ node : Value, node.WellFormed →
        Settles ((edit node).map fun _ => ()) (¬ job.Refuses plan node)
          (.writeNotApplicable job.request.path) := by
  have hclient : (job.client MemoryStore.backend).plan job.request.path = .ok plan := hplan
  rw [course]
  cases hadvanced : plan.advanced with
  | none =>
      rw [direct?, hadvanced] at hdirect
      cases hwork : job.work with
      | append value =>
          refine ⟨_, by simp only [appending, hclient, Course.bind, hadvanced]; rfl, ?_⟩
          exact fun node _ => settles_extended_none hadvanced hwork node
      | put value =>
          rw [hwork] at hdirect
          cases hdirect
      | delete =>
          rw [hwork] at hdirect
          cases hdirect
      | _ =>
          rw [hwork] at hwrites
          cases hwrites
  | some source =>
      obtain ⟨query, hcompile⟩ := exists_compile_eq_ok hfull hplan hadvanced
      cases hwork : job.work with
      | put value =>
          refine ⟨_, by simp only [putting, changing, hclient, Course.bind, hadvanced]; rfl, ?_⟩
          refine fun node _ => settles_changedBy hadvanced hcompile _ ?_ (by simp [hwork])
          rw [Query.update, exists_map_eq_ok_iff, exists_locate_eq_ok_iff]
      | append value =>
          refine ⟨_, by simp only [appending, hclient, Course.bind, hadvanced]; rfl, ?_⟩
          exact fun node hnode => settles_extended hadvanced hcompile hwork hnode
      | delete =>
          refine ⟨_, by simp only [deleting, changing, hclient, Course.bind, hadvanced]; rfl, ?_⟩
          refine fun node _ => settles_changedBy hadvanced hcompile _ ?_ (by simp [hwork])
          rw [Query.removeAll, exists_map_eq_ok_iff, exists_locate_eq_ok_iff]
      | _ =>
          rw [hwork] at hwrites
          cases hwrites

/-- The node that a path addresses in a well-formed field is well formed. -/
theorem wellFormed_node?
    {field : Option Value}
    (hfield : ∀ document, field = some document → document.WellFormed)
    (h : plan.node? field = some node) :
    node.WellFormed := by
  have follow {chain : List Accessor} {value found : Value}
      (hvalue : value.WellFormed)
      (hfound : Accessor.follow? chain value = some found) :
      found.WellFormed := by
    rw [Accessor.follow?_eq_trace?] at hfound
    obtain ⟨⟨way, target⟩, htrace, rfl⟩ := Option.map_eq_some_iff.1 hfound
    exact Query.wellFormed_of_resolve? hvalue (Accessor.resolve?_of_trace? htrace)
  rw [Path.Plan.node?, Path.Plan.container?] at h
  cases hlast : plan.last with
  | root =>
      rw [hlast] at h
      exact hfield node h
  | access accessor =>
      rw [hlast] at h
      obtain ⟨container, hcontainer, hget⟩ := Option.bind_eq_some_iff.1 h
      obtain ⟨document, hdocument, hfollow⟩ := Option.bind_eq_some_iff.1 hcontainer
      have hlast : Accessor.follow? [accessor] container = some node := by
        rw [Accessor.follow?, hget]
        rfl
      exact follow (follow (hfield document hdocument) hfollow) hlast

/-- A job that is one native write puts or deletes what a plain path names. -/
theorem work_of_direct?
    {operation : Operation}
    (h : job.direct? plan = some operation) :
    plan.advanced = none ∧ ((∃ value, job.work = .put value) ∨ job.work = .delete) := by
  cases hadvanced : plan.advanced with
  | some source =>
      rw [direct?, hadvanced] at h
      cases h
  | none =>
      rw [direct?, hadvanced] at h
      cases hwork : job.work with
      | put value => exact ⟨rfl, Or.inl ⟨value, rfl⟩⟩
      | delete => exact ⟨rfl, Or.inr rfl⟩
      | _ =>
          rw [hwork] at h
          cases h

theorem course_of_put
    {value : Value}
    (hplan : Path.Plan.compile job.evaluator job.request.path = .ok plan)
    (hwork : job.work = .put value)
    (hplain : plan.advanced = none) :
    job.course =
      .sending job.request (job.writing plan value)
        ⟨(job.client MemoryStore.backend).policyForWrite job.request, none⟩ .writeBack := by
  have hclient : (job.client MemoryStore.backend).plan job.request.path = .ok plan := hplan
  rw [course, hwork]
  simp only [putting, changing, hclient, Course.bind, hplain]
  rfl

theorem course_of_delete
    (hplan : Path.Plan.compile job.evaluator job.request.path = .ok plan)
    (hwork : job.work = .delete)
    (hplain : plan.advanced = none) :
    job.course =
      .sending job.request (Operation.delete job.request.field plan.contexts plan.last)
        ⟨(job.client MemoryStore.backend).policyForWrite job.request, none⟩ .delete := by
  have hclient : (job.client MemoryStore.backend).plan job.request.path = .ok plan := hplan
  rw [course, hwork]
  simp only [deleting, changing, hclient, Course.bind, hplain]

section Alone

variable {value : Value}
variable (hplan : Path.Plan.compile job.evaluator job.request.path = .ok plan)

include hplan

/-- A plain put needs a place in the field. -/
theorem settles_put
    (hwork : job.work = .put value)
    (hplain : plan.advanced = none) :
    Settles (job.alone store).1
      (plan.Settable (store.field? job.request.key job.request.field))
      (.writeNotApplicable job.request.path) := by
  rw [job.alone_eq, job.course_of_put hplan hwork hplain,
    ← Store.exists_write_put_iff job.request.field value]
  exact settles_sending (field_put _ _ _ _)

/-- A plain delete needs a collection that can do without the child. -/
theorem settles_delete
    (hwork : job.work = .delete)
    (hplain : plan.advanced = none) :
    Settles (job.alone store).1
      (plan.Removable (store.field? job.request.key job.request.field))
      (.objectNotFound job.request.path) := by
  rw [job.alone_eq, job.course_of_delete hplan hwork hplain,
    ← Store.exists_write_delete_iff job.request.field]
  exact settles_sending (field_delete _ _ _)

/-- Any other write needs the node that its path addresses, and one that does not refuse it. -/
theorem settles_rewriting
    (hfull : job.evaluator = .full)
    (hstore : store.records.WellFormed)
    (hwrites : job.work.reads = false)
    (hdirect : job.direct? plan = none) :
    (plan.node? (store.field? job.request.key job.request.field) = none →
      (job.alone store).1 = .error (.objectNotFound job.request.path)) ∧
    ∀ node, plan.node? (store.field? job.request.key job.request.field) = some node →
      Settles (job.alone store).1 (¬ job.Refuses plan node)
        (.writeNotApplicable job.request.path) := by
  obtain ⟨edit, hcourse, hedit⟩ := job.exists_edit hfull hplan hwrites hdirect
  rw [job.alone_eq, hcourse, outcome_rewriting]
  constructor
  · intro hmissing
    rw [hmissing]
  · intro node hnode
    rw [hnode]
    refine hedit node (Job.wellFormed_node? ?_ hnode)
    exact fun document hdocument => MemoryStore.wellFormed_of_field? hstore hdocument

end Alone

end Job

/--
What a write comes to on a store that holds well-formed documents and that
nobody else works on, by the field that it is about. A plain put and a plain
delete need a place in the collection that the contexts lead to. Every other
write does not find its object if the addressed node is missing, is not
applicable if the node refuses it, and succeeds otherwise. There are no other
errors, whatever the configuration.
-/
theorem writes_classified
    {job : Job}
    {plan : Path.Plan}
    {store : MemoryStore}
    (hfull : job.evaluator = .full)
    (hplan : Path.Plan.compile job.evaluator job.request.path = .ok plan)
    (hstore : store.records.WellFormed) :
    (∀ value, job.work = .put value → plan.advanced = none →
      Settles (job.alone store).1
        (plan.Settable (store.field? job.request.key job.request.field))
        (.writeNotApplicable job.request.path)) ∧
    (job.work = .delete → plan.advanced = none →
      Settles (job.alone store).1
        (plan.Removable (store.field? job.request.key job.request.field))
        (.objectNotFound job.request.path)) ∧
    (job.work.reads = false → job.direct? plan = none →
      (plan.node? (store.field? job.request.key job.request.field) = none →
        (job.alone store).1 = .error (.objectNotFound job.request.path)) ∧
      ∀ node, plan.node? (store.field? job.request.key job.request.field) = some node →
        Settles (job.alone store).1 (¬ job.Refuses plan node)
          (.writeNotApplicable job.request.path)) ∧
    (job.work.reads = false → ∀ error, (job.alone store).1 = .error error →
      error = .objectNotFound job.request.path ∨
      error = .writeNotApplicable job.request.path) := by
  refine ⟨fun value => Job.settles_put hplan, Job.settles_delete hplan,
    Job.settles_rewriting hplan hfull hstore, ?_⟩
  intro hwrites error herror
  cases hdirect : job.direct? plan with
  | some operation =>
      obtain ⟨hplain, ⟨value, hwork⟩ | hwork⟩ := job.work_of_direct? hdirect
      · exact Or.inr ((Job.settles_put hplan hwork hplain).error_eq herror)
      · exact Or.inl ((Job.settles_delete hplan hwork hplain).error_eq herror)
  | none =>
      obtain ⟨hmissing, hfound⟩ := Job.settles_rewriting hplan hfull hstore hwrites hdirect
      cases hnode : plan.node? (store.field? job.request.key job.request.field) with
      | none => exact Or.inl (Except.error.inj (herror.symm.trans (hmissing hnode)))
      | some node => exact Or.inr ((hfound node hnode).error_eq herror)

/-- A job on the books. -/
def bookJob
    (path : String)
    (work : Work) :
    Job :=
  ⟨.full, .default, ⟨bookRequest.key, bookRequest.field, path, none⟩, work⟩

/-- There are two books: a third one can be put on the shelf but not taken from it. -/
theorem writes_classified_books :
    ((bookJob "$.shelf[2]" (.put .null)).alone bookStore).1 = .ok () ∧
    ((bookJob "$.shelf[2]" .delete).alone bookStore).1 = .error (.objectNotFound "$.shelf[2]") ∧
    ((bookJob "$.shelf" (.append .null)).alone bookStore).1 = .ok () ∧
    ((bookJob "$..title" (.append .null)).alone bookStore).1 =
      .error (.writeNotApplicable "$..title") := by
  have hstore : bookStore.records.WellFormed := by
    refine @MemoryStore.wellFormed_reached
      [.insert bookRequest.key bookRequest.field books] fun access haccess => ?_
    obtain rfl := List.mem_singleton.1 haccess
    simp [Store.Access.WellFormed, books, lastBook, Members.names]
  obtain ⟨hthird, hshelf, htitles, hquery⟩ :
      Path.Plan.compile .full "$.shelf[2]" =
        .ok ⟨"$.shelf[2]", ⟨"$.shelf[2]", none⟩, [.key "shelf"], .access (.index 2)⟩ ∧
      Path.Plan.compile .full "$.shelf" =
        .ok ⟨"$.shelf", ⟨"$.shelf", none⟩, [], .access (.key "shelf")⟩ ∧
      Path.Plan.compile .full "$..title" =
        .ok ⟨"$..title", ⟨"$", some "$..title"⟩, [], .root⟩ ∧
      Query.compile "$..title" = .ok ⟨⟨[.descent, .named "title"], none⟩, "$..title"⟩ :=
    ⟨by decide +kernel, by decide +kernel, by decide +kernel, by decide +kernel⟩
  obtain ⟨hput, -, -, -⟩ :=
    @writes_classified (bookJob "$.shelf[2]" (.put .null)) _ bookStore rfl hthird hstore
  obtain ⟨-, hdelete, -, -⟩ :=
    @writes_classified (bookJob "$.shelf[2]" .delete) _ bookStore rfl hthird hstore
  obtain ⟨-, -, happend, -⟩ :=
    @writes_classified (bookJob "$.shelf" (.append .null)) _ bookStore rfl hshelf hstore
  obtain ⟨-, -, hspread, -⟩ :=
    @writes_classified (bookJob "$..title" (.append .null)) _ bookStore rfl htitles hstore
  refine ⟨?_, ?_, ?_, ?_⟩
  · exact (hput .null rfl rfl).1 (Or.inl ⟨_, rfl, by simp [Accessor.FitsIn]⟩)
  · refine (hdelete rfl rfl).2 ?_
    rintro ⟨container, hcontainer, hcomes⟩
    obtain rfl := Option.some.inj hcontainer
    exact absurd hcomes.2 (by decide)
  · refine ((happend rfl rfl).2 _ rfl).1 ?_
    rintro ⟨-, hrefused⟩
    exact hrefused ⟨_, rfl⟩
  · refine ((hspread rfl rfl).2 _ rfl).2 (not_not_intro ?_)
    refine ⟨_, hquery, Or.inr ⟨⟨_, rfl⟩, .text "Dune", ?_, ?_⟩⟩
    · decide +kernel
    · rintro ⟨items, hitems⟩
      cases hitems

end Client
end FieldQuery
