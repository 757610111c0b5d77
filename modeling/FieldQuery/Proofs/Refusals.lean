import Mathlib.Control.Monad.Basic
import FieldQuery.Proofs.AdvancedParts
import FieldQuery.Proofs.Scripts
import FieldQuery.Store.Recorded

/-!
# Refused paths

A path that is no query is refused before any call of the store. The advanced
part of a path is compiled only after the first call, on what the store
returned, but where the whole path was accepted the advanced part is a query,
too: no path is refused that late.
-/

namespace FieldQuery
namespace Client

open Store (Backend StoreError Fetched)

variable {α β : Type}

/-- Whether an outcome is no refusal of the path. -/
def Admits
    (outcome : Except DocumentError α) : Prop :=
  ∀ error, outcome = .error error → error.isMalformed = false

theorem admits_ok
    (value : α) :
    Admits (.ok value : Except DocumentError α) := by
  intro error h
  cases h

theorem admits_error
    {error : DocumentError}
    (h : error.isMalformed = false) :
    Admits (.error error : Except DocumentError α) := by
  intro other hother
  rw [← Except.error.inj hother]
  exact h

namespace Course

/-- Whether a course admits the path at whatever end it comes to. -/
def Admitting :
    Course α → Prop
  | done outcome => Admits outcome
  | fetch _ _ _ next => ∀ result, Admitting (next result)
  | apply _ _ _ next => ∀ result, Admitting (next result)

theorem Admitting.run
    {σ : Type}
    {course : Course α}
    (h : course.Admitting)
    (backend : Backend σ)
    (store : σ) :
    Admits (course.run backend store).1 := by
  induction course generalizing store with
  | done outcome => exact h
  | fetch key operation policy next ih => exact ih _ (h _) _
  | apply key operation options next ih => exact ih _ (h _) _

theorem Admitting.bind
    {course : Course α}
    {further : α → Course β}
    (h : course.Admitting)
    (hfurther : ∀ value, (further value).Admitting) :
    (course.bind further).Admitting := by
  induction course with
  | done outcome =>
      cases outcome with
      | ok value => exact hfurther value
      | error error => exact admits_error (h error rfl)
  | fetch key operation policy next ih => exact fun result => ih result (h result)
  | apply key operation options next ih => exact fun result => ih result (h result)

end Course

/-- Whatever a store fails with, it is no refusal of the path. -/
theorem isMalformed_translate
    (path : String)
    (phase : Phase)
    (error : StoreError) :
    (translate path phase error).isMalformed = false := by
  cases error <;> cases phase <;> rfl

theorem admitting_fetching
    (request : Request)
    (operation : Store.Operation)
    (policy : Option Policy) :
    (Course.fetching request operation policy).Admitting := by
  intro result
  cases result with
  | error error => exact admits_error (isMalformed_translate _ _ _)
  | ok fetched =>
      obtain ⟨value, generation⟩ := fetched
      cases value with
      | none => exact admits_error rfl
      | some value => exact admits_ok _

theorem admitting_sending
    (request : Request)
    (operation : Store.Operation)
    (options : Store.WriteOptions)
    (phase : Phase) :
    (Course.sending request operation options phase).Admitting := by
  intro result
  cases result with
  | error error => exact admits_error (isMalformed_translate _ _ _)
  | ok generation => exact admits_ok _

theorem admits_edited
    (path : String)
    (outcome : Except QueryError α) :
    Admits (edited path outcome) := by
  cases outcome with
  | ok result => exact admits_ok _
  | error error => exact admits_error rfl

theorem admits_collapse
    (path : String)
    (lengthOnly : Bool)
    (selection : Selection) :
    Admits (collapse path lengthOnly selection) := by
  unfold collapse
  repeat' split
  all_goals first | exact admits_ok _ | exact admits_error rfl

/-- A path that has a plan was accepted, and is divided as it is written. -/
theorem plan_eq_ok
    {evaluator : Query.Evaluator}
    {path : String}
    {plan : Path.Plan}
    (h : Path.Plan.compile evaluator path = .ok plan) :
    (∃ query, evaluator.compile path = .ok query) ∧
      plan.division = Path.Division.ofText path := by
  unfold Path.Plan.compile at h
  split at h
  · cases h
  · next hvalid =>
      dsimp only at h
      split at h
      · cases h
      · refine ⟨?_, by rw [← Except.ok.inj h]⟩
        unfold Path.validate at hvalid
        split at hvalid
        · split at hvalid
          · next query hquery => exact ⟨query, hquery⟩
          · cases hvalid
        · cases hvalid

section Operations

variable {σ : Type}
variable {client : Client σ}
variable {request : Request}
variable {plan : Path.Plan}

/-- The advanced part of a plan is a query for the client that made the plan. -/
theorem compiled_advanced
    {advanced : String}
    (hfull : client.evaluator = .full)
    (hplan : client.plan request.path = .ok plan)
    (hadvanced : plan.advanced = some advanced) :
    ∃ query, compiled request.path (client.evaluator.compile advanced) = .ok query := by
  obtain ⟨⟨query, hquery⟩, hdivision⟩ := plan_eq_ok hplan
  rw [Path.Plan.advanced, hdivision] at hadvanced
  rw [hfull] at hquery ⊢
  obtain ⟨suffix, hsuffix, -, -⟩ := Path.compile_advanced hquery hadvanced
  have hcompile : Query.Evaluator.full.compile advanced = .ok suffix := hsuffix
  exact ⟨suffix, by rw [hcompile]; rfl⟩

theorem admits_selectIn
    (hfull : client.evaluator = .full)
    (hplan : client.plan request.path = .ok plan)
    (part : Value) :
    Admits (client.selectIn request plan part) := by
  rw [selectIn]
  cases hadvanced : plan.advanced with
  | none => exact admits_ok _
  | some advanced =>
      obtain ⟨query, hquery⟩ := compiled_advanced hfull hplan hadvanced
      simp only [hquery]
      exact admits_ok _

theorem admitting_selecting
    (hfull : client.evaluator = .full)
    (hplan : client.plan request.path = .ok plan) :
    (client.selecting request).Admitting := by
  rw [selecting, hplan, Course.bind]
  refine (admitting_fetching _ _ _).bind ?_
  intro fragment
  have hselected := admits_selectIn hfull hplan fragment.value
  rw [Course.Admitting]
  cases hselect : client.selectIn request plan fragment.value with
  | ok selection => exact admits_ok _
  | error error => exact admits_error (hselected error hselect)

/-- A write-back admits the path if its edit does. -/
theorem admitting_rewriting
    {edit : Value → Except DocumentError Value}
    (hedit : ∀ part, Admits (edit part)) :
    (client.rewriting request plan edit).Admitting := by
  refine (admitting_fetching _ _ _).bind ?_
  intro fragment
  have hchanged : (Course.done (edit fragment.value)).Admitting := hedit fragment.value
  exact hchanged.bind fun _ => admitting_sending _ _ _ _

/-- An edit that compiles an advanced part and goes on with the query. -/
theorem admits_compiled_bind
    {advanced : String}
    {further : Query → Except DocumentError α}
    (hfull : client.evaluator = .full)
    (hplan : client.plan request.path = .ok plan)
    (hadvanced : plan.advanced = some advanced)
    (hfurther : ∀ query, Admits (further query)) :
    Admits (compiled request.path (client.evaluator.compile advanced) >>= further) := by
  obtain ⟨query, hquery⟩ := compiled_advanced hfull hplan hadvanced
  rw [hquery]
  exact hfurther query

theorem admits_edited_bind
    (path : String)
    (outcome : Except QueryError β)
    (further : β → α) :
    Admits (edited path outcome >>= fun result => .ok (further result)) := by
  cases outcome with
  | ok result => exact admits_ok _
  | error error => exact admits_error rfl

theorem admitting_changing
    (hfull : client.evaluator = .full)
    (hplan : client.plan request.path = .ok plan)
    (operation : Path.Plan → Store.Operation)
    (phase : Phase)
    (edit : Query → Value → Except QueryError (Value × Nat)) :
    (client.changing request operation phase edit).Admitting := by
  simp only [changing, hplan, Course.bind]
  cases hadvanced : plan.advanced with
  | none => exact admitting_sending _ _ _ _
  | some advanced =>
      refine admitting_rewriting fun part => ?_
      exact admits_compiled_bind hfull hplan hadvanced fun _ => admits_edited_bind _ _ _

end Operations

namespace Job

/-- Without a plan a job makes no call. -/
theorem course_of_refused
    (job : Job)
    {error : DocumentError}
    (hplan : Path.Plan.compile job.evaluator job.request.path = .error error) :
    job.course = .done (.error error) := by
  replace hplan : (job.client Store.MemoryStore.backend).plan job.request.path = .error error :=
    hplan
  rw [course]
  cases job.work <;>
    simp only [getting, gettingAll, selecting, putting, appending, deleting, changing, hplan,
      Course.bind]

/-- A job whose client accepts every query refuses the path at once or not at all. -/
theorem course_refuses_or_admits
    (job : Job)
    (hfull : job.evaluator = .full) :
    (∃ error, job.course = .done (.error error)) ∨ job.course.Admitting := by
  have hclient : (job.client Store.MemoryStore.backend).evaluator = .full := hfull
  cases hplan : (job.client Store.MemoryStore.backend).plan job.request.path with
  | error error => exact Or.inl ⟨error, job.course_of_refused hplan⟩
  | ok plan =>
      have hselecting := admitting_selecting hclient hplan
      refine Or.inr ?_
      rw [course]
      cases job.work with
      | get =>
          refine Course.Admitting.bind (hselecting.bind fun _ => ?_) fun _ => admits_ok ()
          exact admits_collapse _ _ _
      | getAll =>
          exact Course.Admitting.bind (hselecting.bind fun _ => admits_ok _) fun _ => admits_ok ()
      | put value => exact admitting_changing hclient hplan _ _ _
      | append value =>
          simp only [appending, hplan, Course.bind]
          refine admitting_rewriting fun part => ?_
          cases hadvanced : plan.advanced with
          | none => exact admits_edited _ _
          | some advanced =>
              exact admits_compiled_bind hclient hplan hadvanced fun _ =>
                admits_edited_bind _ _ _
      | delete => exact admitting_changing hclient hplan _ _ _

end Job

/--
The advanced part of a path is a query of its own: it ends with the function
of the path, and its selectors are the last ones of the path. So a client
refuses a path without any call of the store, whatever the store is like.
-/
theorem refuses_before_calls :
    (∀ path advanced query,
      Query.compile path = .ok query →
      (Path.Division.ofText path).advanced = some advanced →
      ∃ suffix,
        Query.compile advanced = .ok suffix ∧
        suffix.function = query.function ∧
        suffix.selectors <:+ query.selectors) ∧
    ∀ (σ : Type) (backend : Backend σ) (store : σ) (job : Job) (error : DocumentError),
      job.evaluator = .full →
      (job.perform backend.recorded (.start store)).1 = .error error →
      error.isMalformed = true →
      (job.perform backend.recorded (.start store)).2 = .start store := by
  constructor
  · intro path advanced query hcompile hadvanced
    exact Path.compile_advanced hcompile hadvanced
  · intro σ backend store job error hfull herror hmalformed
    rw [job.perform_eq] at herror ⊢
    rcases job.course_refuses_or_admits hfull with ⟨refusal, hcourse⟩ | hadmitting
    · rw [hcourse]
      rfl
    · have hadmits := hadmitting.run backend.recorded (.start store) error herror
      rw [hadmits] at hmalformed
      cases hmalformed

/-- A job on a path that does not start at the root. -/
def rootlessJob : Job :=
  ⟨.full, .default, ⟨⟨"library", "books", .text "fiction"⟩, "doc", "shelf[-1]", none⟩, .delete⟩

/-- A path with blanks and an escaped key, and a path that is no query. -/
theorem refuses_before_calls_escaped :
    (Path.Division.ofText "$ [ '\\u0061' ] .b..c").advanced = some "$..c" ∧
    (∃ suffix,
      Query.compile "$..c" = .ok suffix ∧
      suffix.function = none ∧
      suffix.selectors <:+ [.named "a", .named "b", .descent, .named "c"]) ∧
    rootlessJob.perform Store.MemoryStore.backend.recorded (.start .empty) =
      (.error (.missingRoot "shelf[-1]"), .start .empty) := by
  have hcompile : Query.compile "$ [ '\\u0061' ] .b..c" =
      .ok ⟨⟨[.named "a", .named "b", .descent, .named "c"], none⟩,
        "$ [ '\\u0061' ] .b..c"⟩ := by
    decide +kernel
  have hadvanced : (Path.Division.ofText "$ [ '\\u0061' ] .b..c").advanced = some "$..c" := by
    decide +kernel
  have hrefused : (rootlessJob.perform Store.MemoryStore.backend.recorded (.start .empty)).1 =
      .error (.missingRoot "shelf[-1]") := by
    have hcourse : rootlessJob.course = .done (.error (.missingRoot "shelf[-1]")) :=
      rootlessJob.course_of_refused rfl
    rw [rootlessJob.perform_eq, hcourse]
    rfl
  have hstart := refuses_before_calls.2 _ _ _ _ _ rfl hrefused rfl
  exact ⟨hadvanced, refuses_before_calls.1 _ _ _ hcompile hadvanced,
    Prod.ext hrefused hstart⟩

end Client
end FieldQuery
