import FieldQuery.Proofs.Thinning

/-!
# Matches without repetitions

A location is matched once for each way to cut it into pieces. Every selector
but a descent takes pieces of one segment, so where a location is cut depends
on the descents alone. With a single descent the pieces in front of it and
behind it have known lengths, which leaves one length for its own. Unions are
left out because their members may take the same piece.
-/

namespace FieldQuery
namespace Query

variable {node other : Value}
variable {selectors : List Selector}
variable {cut first second : Cut}

/-- A selector that is no descent takes pieces of one segment. -/
theorem Selector.Takes.exists_singleton
    {selector : Selector}
    {piece : Location}
    {member : Nat}
    (h : selector.Takes node piece member)
    (hdescent : selector ≠ .descent) :
    ∃ segment, piece = [segment] := by
  cases h with
  | descent => exact absurd rfl hdescent
  | _ => exact ⟨_, rfl⟩

/-- Only the pieces that a union takes have a member other than the first. -/
theorem Selector.Takes.member_eq_zero
    {selector : Selector}
    {piece : Location}
    {member : Nat}
    (h : selector.Takes node piece member)
    (hunion : ∀ choices, selector ≠ .union choices) :
    member = 0 := by
  cases h with
  | union => exact absurd rfl (hunion _)
  | _ => rfl

/-- Without descents, everything that is walked to is equally deep. -/
theorem Walks.length_location
    (h : Walks node selectors cut)
    (hdescent : .descent ∉ selectors) :
    cut.location.length = selectors.length := by
  induction h with
  | done => rfl
  | @step node next selector rest piece member cut htakes hexists hrest ih =>
      obtain ⟨hfirst, hothers⟩ := not_or.1 (mt List.mem_cons.2 hdescent)
      obtain ⟨segment, rfl⟩ := htakes.exists_singleton fun heq => hfirst heq.symm
      have hlocation : Cut.location (([segment], member) :: cut) = segment :: cut.location := rfl
      rw [hlocation, List.length_cons, List.length_cons, ih hothers]

/-- Without unions and with one descent at most, a location can be cut in one way only. -/
theorem Walks.cut_eq
    (hfirst : Walks node selectors first)
    (hsecond : Walks other selectors second)
    (hunion : ∀ choices, .union choices ∉ selectors)
    (hdescent : selectors.count .descent ≤ 1)
    (hlocation : first.location = second.location) :
    first = second := by
  induction hfirst generalizing other second with
  | done =>
      cases hsecond
      rfl
  | @step node next selector rest piece member cut htakes hexists hrest ih =>
      cases hsecond with
      | @step _ next' _ _ piece' member' cut' htakes' hexists' hrest' =>
          have hselector : ∀ choices, selector ≠ .union choices := by
            rintro choices rfl
            exact hunion choices List.mem_cons_self
          have hothers : ∀ choices, .union choices ∉ rest := fun choices hmem =>
            hunion choices (List.mem_cons_of_mem _ hmem)
          have hmember := htakes.member_eq_zero hselector
          have hmember' := htakes'.member_eq_zero hselector
          have hparts : piece ++ cut.location = piece' ++ cut'.location := hlocation
          have hlengths : piece.length = piece'.length ∧ rest.count .descent ≤ 1 := by
            by_cases heq : selector = .descent
            · subst heq
              rw [List.count_cons_self] at hdescent
              -- what follows is equally long on both sides, so the descents are, too
              have hnone : .descent ∉ rest := List.count_eq_zero.1 (by omega)
              have hlength := congrArg List.length hparts
              rw [List.length_append, List.length_append, hrest.length_location hnone,
                hrest'.length_location hnone] at hlength
              omega
            · obtain ⟨segment, rfl⟩ := htakes.exists_singleton heq
              obtain ⟨segment', rfl⟩ := htakes'.exists_singleton heq
              rw [List.count_cons_of_ne heq] at hdescent
              exact ⟨rfl, hdescent⟩
          obtain ⟨hpiece, hcut⟩ := List.append_inj hparts hlengths.1
          rw [hpiece, hmember, hmember', ih hrest' hothers hlengths.2 hcut]

/-- Without unions and with one descent at most, a chain of selectors repeats no location. -/
theorem nodup_select
    (h : node.WellFormed)
    (hunion : ∀ choices, .union choices ∉ selectors)
    (hdescent : selectors.count .descent ≤ 1) :
    ((select selectors node).map Prod.fst).Nodup := by
  have hlocations : (select selectors node).map Prod.fst =
      ((cuts selectors node).map Prod.fst).map Cut.location := by
    rw [select_eq_map_cuts, List.map_map, List.map_map]
    rfl
  rw [hlocations]
  refine (nodup_cuts selectors h).map_on ?_
  intro first hfirst second hsecond hlocation
  exact ((mem_cuts_iff h).1 hfirst).cut_eq ((mem_cuts_iff h).1 hsecond) hunion hdescent hlocation

/--
A query without unions and with one descent at most locates no node twice. So
it finds each node that it matches once, and as many as it can remove.
-/
theorem locate_without_repeats
    {text : String}
    {query : Query}
    {document : Value}
    (hcompile : Query.compile text = .ok query)
    (hfunction : query.function = none)
    (hunion : ∀ choices, .union choices ∉ query.selectors)
    (hdescent : query.selectors.count .descent ≤ 1)
    (hdocument : document.WellFormed) :
    ∃ locations changed,
      query.locate document = .ok locations ∧
      locations.Nodup ∧
      (∀ location : Location,
        location ∈ locations ↔
          ∃ cut, Walks document query.selectors cut ∧ cut.location = location) ∧
      (query.find document).map some =
        (locations.map fun location => location.resolve? document) ∧
      query.removeAll document = .ok (changed, (query.find document).length) := by
  have hlocate := locate_eq_ok document hfunction
  have hnodup := nodup_select hdocument hunion hdescent
  have hfind : (query.find document).map some =
      ((select query.selectors document).map Prod.fst).map fun location =>
        location.resolve? document := by
    rw [find, hfunction, List.map_map, List.map_map]
    exact List.map_congr_left fun located hmem => (resolve?_of_mem_select hdocument hmem).symm
  have hlength : (query.find document).length =
      ((select query.selectors document).map Prod.fst).length := by
    rw [← List.length_map some, hfind, List.length_map]
  have hremove : ∃ changed,
      query.removeAll document = .ok (changed, (query.find document).length) := by
    rw [removeAll, hlocate, hlength]
    by_cases hselectors : query.selectors = []
    · rw [hselectors]
      refine ⟨emptyDocument, ?_⟩
      simp [Except.map, select, Location.descending, Location.withoutRepeats, removeAt]
    · obtain ⟨_, _, -, -, -, -, hreads⟩ := Path.reads_of_compile hcompile
      have hlast := Chain.getLast?_ne_descent hreads
      rw [Except.map, removeAt_descending hdocument, List.toFinset_card_of_nodup hnodup]
      · exact ⟨_, rfl⟩
      · intro location hmem
        constructor
        · rintro rfl
          exact nil_not_mem_select hselectors hlast document hmem
        · rw [Option.isSome_iff_exists]
          exact exists_resolve?_of_locate hdocument hlocate hmem
  obtain ⟨changed, hremove⟩ := hremove
  exact ⟨_, changed, hlocate, hnodup, fun location => mem_map_select_iff hdocument, hfind, hremove⟩

/-- Every other element of the rows and of the lists in them, the last one first. -/
def everyOther : Query where
  chain := ⟨[.named "rows", .descent, .slice ⟨none, none, some (-2)⟩], none⟩
  source := "$.rows..[::-2]"

/-- Elements of a list and of lists inside it are found and removed once each. -/
theorem locate_without_repeats_rows :
    Query.compile "$.rows..[::-2]" = .ok everyOther ∧
      everyOther.function = none ∧
      (∀ choices, .union choices ∉ everyOther.selectors) ∧
      everyOther.selectors.count .descent ≤ 1 ∧
      nestedRows.WellFormed ∧
      everyOther.find nestedRows =
        [.int 5, .list [.int 1], .int 1, .int 4, .int 2] ∧
      ∃ locations changed,
        everyOther.locate nestedRows = .ok locations ∧
        locations.Nodup ∧
        everyOther.removeAll nestedRows = .ok (changed, 5) := by
  have hcompile : Query.compile "$.rows..[::-2]" = .ok everyOther := by
    decide +kernel
  have hunion : ∀ choices, .union choices ∉ everyOther.selectors := by
    intro choices
    simp [everyOther, Query.selectors, Selector.named]
  have hdescent : everyOther.selectors.count .descent ≤ 1 := by
    decide
  have hdocument : nestedRows.WellFormed := by
    simp [nestedRows, Members.names]
  have hfind : everyOther.find nestedRows =
      [.int 5, .list [.int 1], .int 1, .int 4, .int 2] := by
    decide +kernel
  obtain ⟨locations, changed, hlocate, hnodup, -, -, hremove⟩ :=
    locate_without_repeats hcompile rfl hunion hdescent hdocument
  rw [hfind] at hremove
  exact ⟨hcompile, rfl, hunion, hdescent, hdocument, hfind, locations, changed, hlocate, hnodup,
    hremove⟩

end Query
end FieldQuery
