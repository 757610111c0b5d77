import Mathlib.Control.Monad.Basic
import FieldQuery.Path.Plan
import FieldQuery.Proofs.Division
import FieldQuery.Proofs.Parting

/-!
# Plans of well-spelled paths

The plan of a well-spelled path takes exactly the leading run of the query
for its steps and leaves to the evaluator exactly what lies beyond the run. A
star that ends the path right behind the run is left to nobody: it names the
same node as the run.
-/

namespace FieldQuery
namespace Path

open Query (Chain)

/-- The last step of a run is its last child, after those that lead there. -/
theorem endpoints_concat
    (front : List Accessor)
    (last : Accessor) :
    Plan.endpoints (.root :: (front ++ [last]).map .access) = (front, .access last) := by
  have hfront : Step.accessors (.root :: front.map .access) = front := by
    rw [Step.accessors, List.filterMap_cons_none rfl, List.filterMap_map]
    exact List.filterMap_some
  rw [Plan.endpoints, List.map_append, List.map_singleton, ← List.cons_append,
    List.dropLast_concat, List.getLast?_concat, hfront]
  rfl

/-- The steps of a plan, with the root counting for nothing, are the children of the run. -/
theorem accessors_endpoints
    (accessors : List Accessor) :
    (Plan.endpoints (.root :: accessors.map .access)).1 ++
      Step.accessors [(Plan.endpoints (.root :: accessors.map .access)).2] = accessors := by
  rcases List.eq_nil_or_concat accessors with rfl | ⟨front, last, rfl⟩
  · rfl
  · rw [List.concat_eq_append, endpoints_concat]
    rfl

/-- What the evaluator is left with after a well-spelled path was planned. -/
inductive Remainder
    (query : Query) :
    Option String → Prop where
  /-- Nothing, or a star that changes nothing. -/
  | nothing
      (hquery : query.IsRun ∨ query.IsStarredRun) :
      Remainder query none
  /-- The chain beyond the run, with a source of its own. -/
  | beyond
      {source : String}
      (hquery : ¬ (query.IsRun ∨ query.IsStarredRun))
      (hcompile : Query.compile source = .ok ⟨query.beyondRun, source⟩) :
      Remainder query (some source)

/-- Nothing is left exactly behind a run with at most a final star. -/
theorem Remainder.eq_none_iff
    {query : Query}
    {advanced : Option String}
    (h : Remainder query advanced) :
    advanced = none ↔ query.IsRun ∨ query.IsStarredRun := by
  cases h with
  | nothing hquery => exact iff_of_true rfl hquery
  | beyond hquery _ => exact iff_of_false (Option.some_ne_none _) hquery

/-- Where a well-spelled path is divided, and into what. -/
theorem division_of_takenApart
    {path : String}
    {query : Query}
    {body : List Char}
    (hpath : path.toList = '$' :: body)
    (hsource : query.source = path)
    (h : TakenApart body query.chain) :
    Step.ofText? (Division.ofText path).plain =
        some (.root :: query.leadingRun.map .access) ∧
      Remainder query (Division.ofText path).advanced := by
  obtain ⟨spelled, ending, accessors, rest, rfl, hspelled, hchain, hending, hcompile⟩ := h
  have idle (hidle : Step.Idle ending) (hrest : Query.leadingAccessors rest.selectors = [])
      (hquery : query.IsRun ∨ query.IsStarredRun) :
      Step.ofText? (Division.ofText path).plain =
          some (.root :: query.leadingRun.map .access) ∧
        Remainder query (Division.ofText path).advanced := by
    have hstart : Division.start? path.toList = none := by
      have hgoes : Division.GoesOn ending := by
        rcases hidle with rfl | rfl <;> simp [Division.GoesOn]
      have hspelledIdle : Division.Overlooked spelled ending := .of_spelled hspelled hgoes
      rw [← List.append_nil ending] at hspelledIdle
      rw [hpath]
      exact Division.start?_eq_none (hspelledIdle.append (.of_idle hidle))
    have hdivision : Division.ofText path = ⟨path, none⟩ := by
      rw [Division.ofText, hstart]
    rw [hdivision, Query.leadingRun_of_prepend hchain hrest]
    exact ⟨Step.ofText?_spelled hpath hspelled hidle, .nothing hquery⟩
  cases hending with
  | nothing =>
      exact idle (Or.inl rfl) rfl (Or.inl (Query.beyondRun_of_prepend hchain rfl))
  | star =>
      refine idle (Or.inr rfl) rfl (Or.inr ⟨Query.beyondRun_of_prepend hchain rfl, ?_⟩)
      rw [hsource, hpath]
      exact ⟨'$' :: spelled, by simp⟩
  | advanced hstart hrun hne hstar =>
      have hbeyond := Query.beyondRun_of_prepend hchain hrun
      have hposition : Division.start? path.toList = some ('$' :: spelled).length := by
        rw [hpath]
        exact Division.start?_advanced (.of_spelled hspelled (Division.goesOn_advancedStart hstart)) hstart
      have hdivision : Division.ofText path =
          ⟨String.ofList ('$' :: spelled), some (String.ofList ('$' :: ending))⟩ := by
        have hsplit : path.toList = '$' :: spelled ++ ending := hpath
        rw [Division.ofText, hposition]
        simp only [hsplit, List.take_left, List.drop_left]
      rw [hdivision, Query.leadingRun_of_prepend hchain hrun]
      refine ⟨?_, .beyond ?_ (hbeyond ▸ hcompile)⟩
      · exact @Step.ofText?_spelled _ spelled [] _ (by simp) hspelled (Or.inl rfl)
      · rintro (hisRun | ⟨hisStar, hsuffix⟩)
        · exact hne (hbeyond.symm.trans hisRun)
        · rw [hbeyond] at hisStar
          rw [hsource, hpath] at hsuffix
          refine hstar hisStar (List.suffix_of_suffix_length_le hsuffix ?_ ?_)
          · exact List.suffix_append ('$' :: spelled) ending
          · exact hstart.two_le_length

/-- A path that compiles to a query is planned by the steps of its plain part. -/
theorem compile_of_ok
    {path : String}
    {query : Query}
    (h : Query.compile path = .ok query) :
    Plan.compile .full path =
      match Step.ofText? (Division.ofText path).plain with
      | none => .error (.malformedPath (Division.ofText path).plain)
      | some steps =>
          .ok ⟨path, Division.ofText path, (Plan.endpoints steps).1, (Plan.endpoints steps).2⟩ := by
  obtain ⟨body, _, hpath, -⟩ := reads_of_compile h
  have hvalid : validate .full path = .ok () := by
    have hcompile : Query.Evaluator.full.compile path = .ok query := h
    rw [validate, hpath, hcompile]
    rfl
  cases hsteps : Step.ofText? (Division.ofText path).plain with
  | none => simp only [Plan.compile, hvalid, hsteps]
  | some steps => simp only [Plan.compile, hvalid, hsteps]

/-- A well-spelled path has a plan, whose steps are the leading run of the query. -/
theorem exists_plan
    {path : String}
    {query : Query}
    (h : WellSpelled path query) :
    ∃ plan,
      Plan.compile .full path = .ok plan ∧
      plan.path = path ∧
      plan.contexts = (Plan.endpoints (.root :: query.leadingRun.map .access)).1 ∧
      plan.last = (Plan.endpoints (.root :: query.leadingRun.map .access)).2 ∧
      Remainder query plan.advanced := by
  obtain ⟨body, hpath, hsource, happart⟩ := h.takenApart
  obtain ⟨hsteps, hremainder⟩ := division_of_takenApart hpath hsource happart
  refine ⟨⟨path, Division.ofText path, _, _⟩, ?_, rfl, rfl, rfl, hremainder⟩
  rw [compile_of_ok h.compiles, hsteps]

/-- Whether a plan is a length is decided by the query. -/
theorem isLengthOnly_of_remainder
    {plan : Plan}
    {query : Query}
    (h : Remainder query plan.advanced) :
    plan.isLengthOnly = query.isPlainLength := by
  have hdivision : plan.division.advanced = plan.advanced := rfl
  rw [Plan.isLengthOnly, Division.isLengthOnly, hdivision]
  cases hadvanced : plan.advanced with
  | none =>
      rw [hadvanced] at h
      cases h with
      | nothing hquery =>
          have hfunction : query.function = none := by
            rcases hquery with hrun | ⟨hstar, -⟩
            · exact congrArg Chain.function hrun
            · exact congrArg Chain.function hstar
          simp [Query.isPlainLength, hfunction]
  | some source =>
      rw [hadvanced] at h
      cases h with
      | beyond _ hcompile =>
          simp only [hcompile]
          exact query.isPlainLength_beyondRun source

/--
A plan is the longest plain prefix of its query: its steps are the leading run
one by one, it leaves nothing to evaluate exactly if the query is that run with
at most a final star, and it is a length exactly if the query is one.
-/
theorem plan_eq_leadingRun
    {path : String}
    {query : Query}
    (h : WellSpelled path query) :
    ∃ plan,
      Plan.compile .full path = .ok plan ∧
      plan.contexts ++ Step.accessors [plan.last] = query.leadingRun ∧
      (plan.advanced = none ↔ query.IsRun ∨ query.IsStarredRun) ∧
      (plan.isLengthOnly = true ↔ query.isPlainLength = true) := by
  obtain ⟨plan, hplan, -, hcontexts, hlast, hremainder⟩ := exists_plan h
  refine ⟨plan, hplan, ?_, ?_, ?_⟩
  · rw [hcontexts, hlast]
    exact accessors_endpoints query.leadingRun
  · exact hremainder.eq_none_iff
  · rw [isLengthOnly_of_remainder hremainder]

/-- A path with a padded bracket in its run and a descent beyond it. -/
theorem plan_eq_leadingRun_descent :
    WellSpelled "$.a[ 'b.c' ][-1]..d"
        ⟨⟨[.choose (.access (.key "a")), .choose (.access (.key "b.c")),
          .choose (.access (.index (-1))), .descent, .choose (.access (.key "d"))], none⟩,
          "$.a[ 'b.c' ][-1]..d"⟩ ∧
      ∃ plan,
        Plan.compile .full "$.a[ 'b.c' ][-1]..d" = .ok plan ∧
        plan.contexts ++ Step.accessors [plan.last] = [.key "a", .key "b.c", .index (-1)] ∧
        plan.advanced ≠ none := by
  have h : WellSpelled "$.a[ 'b.c' ][-1]..d"
      ⟨⟨[.choose (.access (.key "a")), .choose (.access (.key "b.c")),
        .choose (.access (.index (-1))), .descent, .choose (.access (.key "d"))], none⟩,
        "$.a[ 'b.c' ][-1]..d"⟩ :=
    ⟨by decide +kernel, by decide +kernel, by decide +kernel⟩
  obtain ⟨plan, hplan, hsteps, hadvanced, -⟩ := plan_eq_leadingRun h
  refine ⟨h, plan, hplan, hsteps, ?_⟩
  intro hnone
  rcases hadvanced.1 hnone with hrun | ⟨hstar, -⟩
  · exact absurd hrun (by simp [Query.IsRun, Query.beyondRun, Query.afterAccessors, Query.selectors])
  · exact absurd hstar (by simp [Query.beyondRun, Query.afterAccessors, Query.selectors])

end Path
end FieldQuery
