import FieldQuery.Proofs.Calls
import FieldQuery.Proofs.Outlines

/-!
# The root of a document

A query that compiles and has a segment leads at least one step below the
root: a descent may stay where it is, but there is always a selector behind it
that goes on to a child. So no edit with such a query replaces or removes the
document itself. What a client puts or deletes by an advanced path is edited in
this way, since an advanced part starts with an operator and so has a segment.
-/

namespace FieldQuery

namespace Location

/-- What a removal leaves is of the kind that it was. -/
theorem shape_of_remove?
    {location : Location}
    {document node left : Value}
    (h : location.remove? document = some (node, left)) :
    left.shape = document.shape := by
  cases location with
  | nil => cases h
  | cons segment rest =>
      cases rest with
      | nil =>
          cases segment with
          | member name =>
              cases document with
              | map members =>
                  obtain ⟨child, -, heq⟩ := Option.map_eq_some_iff.1 h
                  rw [← (Prod.mk.inj heq).2]
                  rfl
              | _ => cases h
          | index i =>
              cases document with
              | list items =>
                  obtain ⟨child, -, heq⟩ := Option.map_eq_some_iff.1 h
                  rw [← (Prod.mk.inj heq).2]
                  rfl
              | _ => cases h
      | cons next more =>
          obtain ⟨child, -, hmap⟩ := Option.bind_eq_some_iff.1 h
          obtain ⟨inner, -, heq⟩ := Option.map_eq_some_iff.1 hmap
          rw [← (Prod.mk.inj heq).2]
          exact Value.shape_eq_of_outline (Segment.outline_replace inner.2)

end Location

namespace Query

variable {query : Query}
variable {document : Value}
variable {locations : List Location}

/-- Removals below the root leave a document of the kind that it was. -/
theorem shape_removeAt
    (document : Value)
    (h : [] ∉ locations) :
    (removeAt locations document).1.shape = document.shape := by
  induction locations generalizing document with
  | nil => rfl
  | cons location rest ih =>
      obtain ⟨hfirst, hrest⟩ := not_or.1 (mt List.mem_cons.2 h)
      rw [removeAt_cons rest document fun hnil => hfirst hnil.symm]
      cases hremove : location.remove? document with
      | none => exact ih document hrest
      | some removed =>
          obtain ⟨node, left⟩ := removed
          exact (ih left hrest).trans (Location.shape_of_remove? hremove)

/-- In a value that contains nothing there is nothing below the root. -/
theorem eq_nil_of_scalar
    (hscalar : document.outline.isContainer = false)
    (hlocate : query.locate document = .ok locations)
    (hroot : [] ∉ locations) :
    locations = [] := by
  have hdocument : document.WellFormed := by
    cases document with
    | list items => cases hscalar
    | map members => cases hscalar
    | _ => constructor
  rw [List.eq_nil_iff_forall_not_mem]
  intro location hmem
  obtain ⟨node, hnode⟩ := exists_resolve?_of_locate hdocument hlocate hmem
  have hne : location ≠ [] := by
    rintro rfl
    exact hroot hmem
  rw [Location.isContainer_of_resolve? hne hnode] at hscalar
  cases hscalar

/-- Whether a query leaves a document in place as a whole, whatever it changes inside it. -/
structure SparesRoot
    (query : Query)
    (document : Value) : Prop where
  /-- The root is not located. -/
  locate :
    ∃ locations, query.locate document = .ok locations ∧ [] ∉ locations
  /-- An update keeps the length of a list and the names of a map, and any other value as it is. -/
  update :
    ∀ new, ∃ changed count,
      query.update document new = .ok (changed, count) ∧
      changed.outline = document.outline ∧
      (document.outline.isContainer = false → changed = document ∧ count = 0)
  /-- A removal leaves a list of a list and a map of a map, and any other value as it is. -/
  removeAll :
    ∃ left count,
      query.removeAll document = .ok (left, count) ∧
      left.shape = document.shape ∧
      (document.outline.isContainer = false → left = document ∧ count = 0)

theorem sparesRoot_of_locate
    (hlocate : query.locate document = .ok locations)
    (hroot : [] ∉ locations) :
    query.SparesRoot document := by
  refine ⟨⟨locations, hlocate, hroot⟩,
    fun new => ⟨_, _, by rw [Query.update, hlocate]; rfl, ?_, ?_⟩,
    ⟨_, _, by rw [Query.removeAll, hlocate]; rfl, ?_, ?_⟩⟩
  · have hbelow : ∀ location ∈ Location.sorted locations, ¬ location <+: [] := by
      intro location hmem hfront
      rw [List.prefix_nil.1 hfront] at hmem
      exact hroot (List.mem_mergeSort.1 hmem)
    exact Option.some.inj (outline_replaceAt new document hbelow)
  · intro hscalar
    rw [eq_nil_of_scalar hscalar hlocate hroot]
    simp [Location.sorted, replaceAt]
  · exact shape_removeAt document fun hmem => hroot (Location.mem_descending.1 hmem)
  · intro hscalar
    rw [eq_nil_of_scalar hscalar hlocate hroot]
    simp [Location.descending, Location.withoutRepeats, removeAt]

/-- A query with a segment spares the root of every document. -/
theorem sparesRoot_of_compile
    {text : String}
    (hcompile : Query.compile text = .ok query)
    (hfunction : query.function = none)
    (hselectors : query.selectors ≠ [])
    (document : Value) :
    query.SparesRoot document := by
  obtain ⟨_, _, -, -, -, -, hreads⟩ := Path.reads_of_compile hcompile
  exact sparesRoot_of_locate (locate_eq_ok document hfunction)
    (nil_not_mem_select hselectors (Chain.getLast?_ne_descent hreads) document)

end Query

namespace Path

/-- No advanced part starts with a blank. -/
theorem AdvancedStart.not_blank
    {text : List Char}
    (h : AdvancedStart text) :
    ¬ Blank text := by
  intro hblank
  cases h with
  | descent => exact absurd (hblank '.' List.mem_cons_self) (by decide)
  | star => exact absurd (hblank '.' List.mem_cons_self) (by decide)
  | length => exact absurd (hblank '.' (List.mem_append_left _ (by decide))) (by decide)
  | bracket => exact absurd (hblank '[' List.mem_cons_self) (by decide)

/-- An advanced part that is no call of a function alone has a segment. -/
theorem selectors_ne_nil_of_advanced
    {path advanced : String}
    {query rest : Query}
    (hcompile : Query.compile path = .ok query)
    (hadvanced : (Division.ofText path).advanced = some advanced)
    (hrest : Query.compile advanced = .ok rest)
    (hfunction : rest.function = none) :
    rest.selectors ≠ [] := by
  obtain ⟨ending, _, hending, hstart, -, -, -⟩ := exists_ending_of_advanced hcompile hadvanced
  obtain ⟨body, _, hbody, -, -, hlex, hreads⟩ := reads_of_compile hrest
  rw [hending, String.toList_ofList] at hbody
  obtain rfl := (List.cons.inj hbody).2
  intro hselectors
  have hchain : rest.chain = ⟨[], none⟩ :=
    congrArg₂ Query.Chain.mk hselectors hfunction
  rcases Query.Chain.first_of_reads hreads with ⟨hend, -⟩ | ⟨_, _, -, -, hne⟩
  · exact hstart.not_blank (Query.Lexeme.blank_of_isAtEnd hlex hend)
  · exact hne hchain

end Path

namespace Query

/-- Only a query without a function locates anything that could be made something of. -/
theorem function_eq_none_of_map
    {α : Type}
    {query : Query}
    {document : Value}
    {further : List Location → α}
    {result : α}
    (h : (query.locate document).map further = .ok result) :
    query.function = none := by
  cases hfunction : query.function with
  | none => rfl
  | some function =>
      rw [locate, hfunction] at h
      cases h

/-- What is accepted without a bracket in front is accepted as it is. -/
theorem Evaluator.compile_of_noLeadingBracket
    (text : String)
    (query : Query)
    (h : Evaluator.noLeadingBracket.compile text = .ok query) :
    Query.compile text = .ok query := by
  unfold Evaluator.noLeadingBracket at h
  dsimp only at h
  split at h
  · cases h
  · exact h

end Query

namespace Client

open Store (Operation StoreError Fetched Call Backend)

theorem eq_ok_of_toOption
    {ε α : Type}
    {outcome : Except ε α}
    {value : α}
    (h : outcome.toOption = some value) :
    outcome = .ok value := by
  cases outcome with
  | error error => cases h
  | ok found => exact congrArg Except.ok (Option.some.inj h)

namespace Job

variable {job : Job}
variable {plan : Path.Plan}
variable {advanced : String}
variable {part changed : Value}

/-- What a put or a delete with an advanced path makes of a part, and with which query. -/
theorem exists_edit_of_changed
    (hadvanced : plan.advanced = some advanced)
    (hwork : job.work = .delete ∨ ∃ value, job.work = .put value)
    (h : job.changed? plan part = some changed) :
    ∃ query,
      job.evaluator.compile advanced = .ok query ∧
      query.function = none ∧
      ((∃ new count, query.update part new = .ok (changed, count)) ∨
        ∃ count, query.removeAll part = .ok (changed, count)) := by
  rw [changed?, hadvanced] at h
  obtain ⟨query, hquery, hedit⟩ := Option.bind_eq_some_iff.1 h
  refine ⟨query, eq_ok_of_toOption hquery, ?_⟩
  rcases hwork with hwork | ⟨value, hwork⟩
  · simp only [hwork] at hedit
    obtain ⟨⟨_, count⟩, hresult, rfl⟩ := Option.map_eq_some_iff.1 hedit
    have hremove := eq_ok_of_toOption hresult
    exact ⟨Query.function_eq_none_of_map hremove, Or.inr ⟨count, hremove⟩⟩
  · simp only [hwork] at hedit
    obtain ⟨⟨_, count⟩, hresult, rfl⟩ := Option.map_eq_some_iff.1 hedit
    have hupdate := eq_ok_of_toOption hresult
    exact ⟨Query.function_eq_none_of_map hupdate, Or.inl ⟨value, count, hupdate⟩⟩

/-- A put or a delete with an advanced path spares the root of the part that it changes. -/
theorem sparesRoot_of_changed
    (hcore : ∀ text query, job.evaluator.compile text = .ok query → Query.compile text = .ok query)
    (hplan : Path.Plan.compile job.evaluator job.request.path = .ok plan)
    (hadvanced : plan.advanced = some advanced)
    (hwork : job.work = .delete ∨ ∃ value, job.work = .put value)
    (h : job.changed? plan part = some changed) :
    ∃ query,
      job.evaluator.compile advanced = .ok query ∧
      query.SparesRoot part ∧
      changed.shape = part.shape ∧
      (part.outline.isContainer = false → changed = part) := by
  obtain ⟨query, hcompile, hfunction, hedit⟩ := exists_edit_of_changed hadvanced hwork h
  obtain ⟨⟨path, hpath⟩, hdivision⟩ := plan_eq_ok hplan
  rw [Path.Plan.advanced, hdivision] at hadvanced
  have hselectors := Path.selectors_ne_nil_of_advanced (hcore _ _ hpath) hadvanced
    (hcore _ _ hcompile) hfunction
  have hspares := Query.sparesRoot_of_compile (hcore _ _ hcompile) hfunction hselectors part
  refine ⟨query, hcompile, hspares, ?_⟩
  rcases hedit with ⟨new, count, hupdate⟩ | ⟨count, hremove⟩
  · obtain ⟨_, _, hresult, houtline, hscalar⟩ := hspares.update new
    obtain ⟨rfl, -⟩ := Prod.mk.inj (Except.ok.inj (hupdate.symm.trans hresult))
    exact ⟨Value.shape_eq_of_outline houtline, fun h => (hscalar h).1⟩
  · obtain ⟨_, _, hresult, hshape, hscalar⟩ := hspares.removeAll
    obtain ⟨rfl, -⟩ := Prod.mk.inj (Except.ok.inj (hremove.symm.trans hresult))
    exact ⟨hshape, fun h => (hscalar h).1⟩

end Job

/--
No query but the bare root sign reaches the root: it does not locate it, and so
neither an update nor a removal replaces the document. A map stays a map, a
list stays a list, and of a value that contains nothing nothing is changed.
Whatever its path, a put or a delete that has an advanced part writes back the
part that it fetched, changed in this way only.
-/
theorem root_spared :
    (∀ text query,
      Query.compile text = .ok query →
      query.function = none →
      query.selectors ≠ [] →
      ∀ document, query.SparesRoot document) ∧
    ∀ {σ : Type} (job : Job) (backend : Backend σ) (store : σ) (plan : Path.Plan)
      (advanced : String),
      (∀ text query, job.evaluator.compile text = .ok query → Query.compile text = .ok query) →
      Path.Plan.compile job.evaluator job.request.path = .ok plan →
      plan.advanced = some advanced →
      (job.work = .delete ∨ ∃ value, job.work = .put value) →
      ∀ key operation options,
        Call.apply key operation options ∈ job.calls backend store →
        ∃ part generation changed query,
          (backend.fetch store job.request.key (job.fetching plan) job.policy).1 =
            .ok ⟨some part, generation⟩ ∧
          key = job.request.key ∧
          operation = job.writing plan changed ∧
          job.changed? plan part = some changed ∧
          job.evaluator.compile advanced = .ok query ∧
          query.SparesRoot part ∧
          changed.shape = part.shape ∧
          (part.outline.isContainer = false → changed = part) := by
  refine ⟨fun _ _ => Query.sparesRoot_of_compile, ?_⟩
  intro σ job backend store plan advanced hcore hplan hadvanced hwork key operation options hcall
  have hwrites : job.work.reads = false := by
    rcases hwork with hwork | ⟨value, hwork⟩ <;> rw [hwork] <;> rfl
  have hdirect : job.direct? plan = none := by
    rw [Job.direct?, hadvanced]
  rw [job.calls_of_rewriting backend store hplan hwrites hdirect] at hcall
  rcases List.mem_cons.1 hcall with hfetch | hwrite
  · cases hfetch
  · obtain ⟨part, generation, changed, hfetched, hchanged, hwritten⟩ :=
      job.exists_changed_of_writeBack (Option.mem_toList.1 hwrite)
    obtain ⟨rfl, rfl, -⟩ := Call.apply.inj hwritten
    obtain ⟨query, hcompile, hspares, hshape, hscalar⟩ :=
      Job.sparesRoot_of_changed hcore hplan hadvanced hwork hchanged
    exact ⟨part, generation, changed, query, hfetched, rfl, rfl, hchanged, hcompile, hspares,
      hshape, hscalar⟩

/-- Everything of one name, wherever it is. -/
def everyA : Query where
  chain := ⟨[.descent, .named "a"], none⟩
  source := "$..a"

/-- A delete of everything of one name below a place. -/
def sweepingJob : Job :=
  ⟨.noLeadingBracket, ⟨false, none, none⟩,
    ⟨⟨"test", "docs", .text "k1"⟩, "doc", "$.b..a", none⟩, .delete⟩

/-- A text has nothing to remove, and a map of which everything is deleted is still a map. -/
theorem root_spared_sweeping :
    everyA.SparesRoot (.text "x") ∧
      ∃ changed options,
        .apply sweepingJob.request.key
            (Operation.put "doc" [] changed (.access (.key "b"))) options ∈
          sweepingJob.calls elusiveBackend () ∧
        changed.shape = "map" := by
  have hcompile : Query.compile "$..a" = .ok everyA := by
    decide +kernel
  have hplan : Path.Plan.compile sweepingJob.evaluator sweepingJob.request.path =
      .ok ⟨"$.b..a", ⟨"$.b", some "$..a"⟩, [], .access (.key "b")⟩ := by
    decide +kernel
  have hquery : sweepingJob.evaluator.compile "$..a" = .ok everyA := by
    simp [sweepingJob, Query.Evaluator.noLeadingBracket, hcompile]
  have hlocate : everyA.locate (.map [("a", .list [.null])]) = .ok [[.member "a"]] := by
    rfl
  have hremove : everyA.removeAll (.map [("a", .list [.null])]) = .ok (.map [], 1) := by
    rw [Query.removeAll, hlocate]
    simp [Except.map, Location.descending, Location.withoutRepeats, Query.removeAt,
      Location.remove?, Segment.detach?, Members.get?, Members.erase]
  have hchanged : sweepingJob.changed? ⟨"$.b..a", ⟨"$.b", some "$..a"⟩, [], .access (.key "b")⟩
      (.map [("a", .list [.null])]) = some (.map []) := by
    simp only [Job.changed?, Path.Plan.advanced, hquery]
    exact congrArg (fun result => result.toOption.map Prod.fst) hremove
  have hcall : .apply sweepingJob.request.key
      (Operation.put "doc" [] (.map []) (.access (.key "b"))) ⟨sweepingJob.policy, none⟩ ∈
        sweepingJob.calls elusiveBackend () := by
    rw [sweepingJob.calls_of_rewriting elusiveBackend () hplan rfl rfl, elusiveBackend,
      Job.writeBack?, hchanged]
    exact List.mem_cons_of_mem _ List.mem_cons_self
  obtain ⟨hroot, hjob⟩ := root_spared
  obtain ⟨part, generation, changed, query, hfetched, -, hoperation, -, -, -, hshape, -⟩ :=
    hjob sweepingJob elusiveBackend () _ _ Query.Evaluator.compile_of_noLeadingBracket hplan rfl
      (Or.inl rfl) _ _ _ hcall
  obtain ⟨hpart, -⟩ := Fetched.mk.inj (Except.ok.inj hfetched)
  rw [← Option.some.inj hpart] at hshape
  rw [hoperation] at hcall
  exact ⟨hroot "$..a" everyA hcompile rfl (List.cons_ne_nil _ _) (.text "x"), changed, _, hcall,
    hshape⟩

end Client
end FieldQuery
