import FieldQuery.Proofs.AllOrNothing
import FieldQuery.Proofs.Outcomes

/-!
# What deletes leave

A delete takes something away from a field that is there. Where the field is
missing it fails, and where it succeeds the store has the same records and
fields as before. There is one exception, and it is meant: a plain path that
names the root has no collection to take anything from. Its delete writes an
empty map as the whole field, and a write of a whole field may create the field
and its record.
-/

namespace FieldQuery

namespace Store

namespace MemoryStore

variable {store after : MemoryStore}
variable {key : RecordKey}
variable {field : String}
variable {value : Value}

/-- Two stores with the same records and fields, whatever the fields hold. -/
structure SameNames
    (before after : MemoryStore) : Prop where
  records : ∀ key, (after.record? key).isSome = (before.record? key).isSome
  fields : ∀ key field, (after.field? key field).isSome = (before.field? key field).isSome

theorem isSome_record?_of_field?
    (h : (store.field? key field).isSome = true) :
    (store.record? key).isSome = true := by
  rw [field?] at h
  cases hrecord : store.record? key with
  | none =>
      rw [hrecord] at h
      cases h
  | some record => rfl

/-- A change of a field that is there creates nothing. -/
theorem FieldChange.sameNames
    (h : store.FieldChange after key field value)
    (hfield : (store.field? key field).isSome = true) :
    store.SameNames after := by
  constructor
  · intro other
    by_cases hother : other = key
    · subst hother
      have hchanged : (after.field? other field).isSome = true := by
        rw [h.changed]
        rfl
      rw [isSome_record?_of_field? hchanged, isSome_record?_of_field? hfield]
    · rw [h.records other hother]
  · intro other name
    rw [h.field?_eq]
    by_cases hsame : other = key ∧ name = field
    · rw [if_pos hsame, hsame.1, hsame.2, hfield]
      rfl
    · rw [if_neg hsame]

end MemoryStore
end Store

namespace Client

open Store (MemoryStore Operation Faltering)

/-- A store that is never out of reach is a memory store. -/
theorem Course.run_faltering
    {α : Type}
    (course : Course α)
    (store : MemoryStore) :
    course.run Faltering.backend ⟨store, []⟩ =
      ((course.run MemoryStore.backend store).1,
        ⟨(course.run MemoryStore.backend store).2, []⟩) := by
  induction course generalizing store with
  | done outcome => rfl
  | fetch key operation policy next ih => exact ih _ _
  | apply key operation options next ih => exact ih _ _

/-- A write-back that succeeds has changed the field, and nothing else in the store. -/
theorem exists_fieldChange_of_rewriting
    {client : Client MemoryStore}
    {request : Request}
    {plan : Path.Plan}
    {edit : Value → Except DocumentError Value}
    {store after : MemoryStore}
    (h : (client.rewriting request plan edit).run MemoryStore.backend store = (.ok (), after)) :
    ∃ value, store.FieldChange after request.key request.field value := by
  rw [rewriting, run_fetching] at h
  cases hreceived : received request.path
      (store.read request.key (Operation.get request.field plan.contexts plan.last)) with
  | error error =>
      rw [hreceived] at h
      cases (Prod.mk.inj h).1
  | ok fragment =>
      cases hedit : edit fragment.value with
      | error error =>
          simp only [hreceived, Course.bind, hedit] at h
          cases (Prod.mk.inj h).1
      | ok changed =>
          simp only [hreceived, Course.bind, hedit] at h
          obtain ⟨value, -, hchange⟩ :=
            @fieldChange_of_sending _ store _ _ _ _ _ _ (field_put _ _ _ _) rfl h rfl
          exact ⟨value, hchange⟩

namespace Job

variable {job : Job}
variable {plan : Path.Plan}
variable {store after : MemoryStore}

/-- Whether the path of a job is plain and names the root, so that it is about a whole field. -/
def NamesRoot
    (job : Job) : Prop :=
  ∃ plan,
    Path.Plan.compile job.evaluator job.request.path = .ok plan ∧
    plan.advanced = none ∧
    plan.last = .root

/-- A write that fails leaves all records as they are. -/
theorem records_of_error
    {error : DocumentError}
    (hwrites : job.work.reads = false)
    (h : job.alone store = (.error error, after)) :
    after.records = store.records := by
  have hrun := job.course.run_faltering store
  rw [← job.alone_eq, h] at hrun
  have hfailed := ((job.committing_course hwrites).run ⟨store, []⟩).1 error
  rw [hrun] at hfailed
  exact hfailed rfl

theorem course_of_delete_advanced
    {advanced : String}
    (hplan : Path.Plan.compile job.evaluator job.request.path = .ok plan)
    (hwork : job.work = .delete)
    (hadvanced : plan.advanced = some advanced) :
    job.course =
      (job.client MemoryStore.backend).rewriting job.request plan
        ((job.client MemoryStore.backend).changedBy job.request Query.removeAll advanced) := by
  have hclient : (job.client MemoryStore.backend).plan job.request.path = .ok plan := hplan
  rw [course, hwork]
  simp only [deleting, changing, hclient, Course.bind, hadvanced]

/-- A delete that succeeds has changed the field, and nothing else in the store. -/
theorem exists_fieldChange_of_delete
    (hwork : job.work = .delete)
    (h : job.alone store = (.ok (), after)) :
    ∃ value, store.FieldChange after job.request.key job.request.field value := by
  rw [job.alone_eq] at h
  cases hplan : Path.Plan.compile job.evaluator job.request.path with
  | error error =>
      rw [job.course_of_refused hplan] at h
      cases (Prod.mk.inj h).1
  | ok plan =>
      cases hadvanced : plan.advanced with
      | none =>
          rw [job.course_of_delete hplan hwork hadvanced] at h
          obtain ⟨value, -, hchange⟩ := fieldChange_of_sending (field_delete _ _ _) rfl h rfl
          exact ⟨value, hchange⟩
      | some advanced =>
          rw [job.course_of_delete_advanced hplan hwork hadvanced] at h
          exact exists_fieldChange_of_rewriting h

/-- In a field that is missing there is nothing to delete. -/
theorem delete_of_missing
    (hwork : job.work = .delete)
    (hroot : ¬ job.NamesRoot)
    (hmissing : store.field? job.request.key job.request.field = none) :
    ∃ error, (job.alone store).1 = .error error := by
  cases hplan : Path.Plan.compile job.evaluator job.request.path with
  | error error =>
      rw [job.alone_eq, job.course_of_refused hplan]
      exact ⟨error, rfl⟩
  | ok plan =>
      refine ⟨.objectNotFound job.request.path, ?_⟩
      cases hadvanced : plan.advanced with
      | none =>
          refine (job.settles_delete hplan hwork hadvanced).2 ?_
          rw [hmissing, Path.Plan.Removable, Path.Plan.container?]
          cases hlast : plan.last with
          | root => exact absurd ⟨plan, hplan, hadvanced, hlast⟩ hroot
          | access accessor =>
              rintro ⟨container, hcontainer, -⟩
              cases hcontainer
      | some advanced =>
          have hnode : plan.node? none = none := by
            rw [Path.Plan.node?, Path.Plan.container?]
            cases plan.last <;> rfl
          rw [job.alone_eq, job.course_of_delete_advanced hplan hwork hadvanced,
            outcome_rewriting, hmissing, hnode]

/-- The delete of a whole field writes an empty map in its place, whether it was there or not. -/
theorem delete_of_namesRoot
    (hwork : job.work = .delete)
    (hroot : job.NamesRoot) :
    (job.alone store).1 = .ok () ∧
      store.FieldChange (job.alone store).2 job.request.key job.request.field (.map []) := by
  obtain ⟨plan, hplan, hplain, hlast⟩ := hroot
  have hdone : (job.alone store).1 = .ok () := by
    refine (job.settles_delete hplan hwork hplain).1 ?_
    rw [Path.Plan.Removable, hlast]
    trivial
  refine ⟨hdone, ?_⟩
  have hrun : job.alone store = (.ok (), (job.alone store).2) := Prod.ext hdone rfl
  rw [job.alone_eq, job.course_of_delete hplan hwork hplain] at hrun
  obtain ⟨value, hvalue, hchange⟩ := fieldChange_of_sending (field_delete _ _ _) rfl hrun rfl
  rw [hlast] at hvalue
  obtain rfl : Value.map [] = value := Except.ok.inj hvalue
  rw [job.alone_eq, job.course_of_delete hplan hwork hplain]
  exact hchange

end Job

/--
A delete creates nothing, unless its path is plain and names the root: where the
record or the field is missing it fails and leaves all records as they are, and
where it succeeds there are the same records and fields as before. The delete of
a whole field succeeds always. It writes an empty map to the field, which is
created if it is missing, and changes nothing else.
-/
theorem delete_creates_nothing
    {job : Job}
    {store after : MemoryStore}
    {outcome : Except DocumentError Unit}
    (hwork : job.work = .delete)
    (h : job.alone store = (outcome, after)) :
    (¬ job.NamesRoot →
      (store.field? job.request.key job.request.field = none →
        (∃ error, outcome = .error error) ∧ after.records = store.records) ∧
      (outcome = .ok () → store.SameNames after)) ∧
    (job.NamesRoot →
      outcome = .ok () ∧
      store.FieldChange after job.request.key job.request.field (.map []) ∧
      ((store.field? job.request.key job.request.field).isSome = true →
        store.SameNames after)) := by
  have hmissing (hroot : ¬ job.NamesRoot)
      (hnone : store.field? job.request.key job.request.field = none) :
      ∃ error, outcome = .error error := by
    have hfails := Job.delete_of_missing hwork hroot hnone
    rw [h] at hfails
    exact hfails
  constructor
  · refine fun hroot => ⟨fun hnone => ?_, ?_⟩
    · obtain ⟨error, rfl⟩ := hmissing hroot hnone
      exact ⟨⟨error, rfl⟩, Job.records_of_error (by rw [hwork]; rfl) h⟩
    · rintro rfl
      obtain ⟨value, hchange⟩ := Job.exists_fieldChange_of_delete hwork h
      refine hchange.sameNames ?_
      rw [Option.isSome_iff_ne_none]
      intro hnone
      obtain ⟨error, herror⟩ := hmissing hroot hnone
      cases herror
  · intro hroot
    obtain ⟨hdone, hchange⟩ := @Job.delete_of_namesRoot _ store hwork hroot
    rw [h] at hdone hchange
    exact ⟨hdone, hchange, hchange.sameNames⟩

/-- Nothing is deleted from an empty store, and a shelf with one book less is still a shelf. -/
theorem delete_creates_nothing_books :
    (∃ error, ((bookJob "$.shelf[0]" .delete).alone .empty).1 = .error error) ∧
    ((bookJob "$.shelf[0]" .delete).alone bookStore).1 = .ok () ∧
    bookStore.SameNames ((bookJob "$.shelf[0]" .delete).alone bookStore).2 := by
  have hplan : Path.Plan.compile .full "$.shelf[0]" =
      .ok ⟨"$.shelf[0]", ⟨"$.shelf[0]", none⟩, [.key "shelf"], .access (.index 0)⟩ := by
    decide +kernel
  have hroot : ¬ (bookJob "$.shelf[0]" .delete).NamesRoot := by
    rintro ⟨plan, hcompile, -, hlast⟩
    obtain rfl := Except.ok.inj (hplan.symm.trans hcompile)
    cases hlast
  have hdone : ((bookJob "$.shelf[0]" .delete).alone bookStore).1 = .ok () := by
    refine (Job.settles_delete hplan rfl rfl).1 ?_
    exact ⟨_, rfl, by simp [Accessor.ComesOff]⟩
  obtain ⟨hempty, -⟩ := @delete_creates_nothing (bookJob "$.shelf[0]" .delete) .empty _ _ rfl rfl
  obtain ⟨hbooks, -⟩ := @delete_creates_nothing (bookJob "$.shelf[0]" .delete) bookStore _ _ rfl rfl
  exact ⟨((hempty hroot).1 rfl).1, hdone, (hbooks hroot).2 hdone⟩

/-- The delete of the root of a document that is not there succeeds and creates the document. -/
theorem delete_root_creates :
    ((bookJob "$" .delete).alone .empty).1 = .ok () ∧
    MemoryStore.empty.record? bookRequest.key = none ∧
    ((bookJob "$" .delete).alone .empty).2.field? bookRequest.key bookRequest.field =
      some (.map []) := by
  have hplan : Path.Plan.compile .full "$" = .ok ⟨"$", ⟨"$", none⟩, [], .root⟩ := by
    decide +kernel
  obtain ⟨hdone, hchange⟩ :=
    @Job.delete_of_namesRoot (bookJob "$" .delete) .empty rfl ⟨_, hplan, rfl, rfl⟩
  exact ⟨hdone, rfl, hchange.changed⟩

end Client
end FieldQuery
