import FieldQuery.Query.Compiled

/-!
# Leading runs

Up to the first selector that can lead to several nodes, a query names one
child after another. This leading run is what a store can follow by itself;
what lies beyond it is a query of its own on the node that the run leads to.
-/

namespace FieldQuery
namespace Query

/-- The children that selectors name one by one from the front. -/
def leadingAccessors :
    List Selector → List Accessor
  | .choose (.access accessor) :: rest => accessor :: leadingAccessors rest
  | _ => []

/-- The selectors that follow the leading run. -/
def afterAccessors :
    List Selector → List Selector
  | .choose (.access _) :: rest => afterAccessors rest
  | selectors => selectors

theorem leadingAccessors_append
    (accessors : List Accessor)
    (rest : List Selector) :
    leadingAccessors (accessors.map (fun accessor => .choose (.access accessor)) ++ rest) =
      accessors ++ leadingAccessors rest := by
  induction accessors with
  | nil => rfl
  | cons accessor accessors ih => rw [List.map_cons, List.cons_append, leadingAccessors, ih]; rfl

theorem afterAccessors_append
    (accessors : List Accessor)
    (rest : List Selector) :
    afterAccessors (accessors.map (fun accessor => .choose (.access accessor)) ++ rest) =
      afterAccessors rest := by
  induction accessors with
  | nil => rfl
  | cons accessor accessors ih => rw [List.map_cons, List.cons_append, afterAccessors, ih]

/-- Without a leading run, all selectors are beyond it. -/
theorem afterAccessors_of_leadingAccessors
    {selectors : List Selector}
    (h : leadingAccessors selectors = []) :
    afterAccessors selectors = selectors := by
  unfold leadingAccessors at h
  unfold afterAccessors
  split
  · exact nomatch h
  · rfl

/-- Any selectors are those of the leading run and the ones beyond it. -/
theorem leadingAccessors_append_afterAccessors
    (selectors : List Selector) :
    (leadingAccessors selectors).map (fun accessor => .choose (.access accessor)) ++
      afterAccessors selectors = selectors := by
  fun_induction leadingAccessors selectors with
  | case1 accessor rest ih => rw [List.map_cons, List.cons_append, afterAccessors, ih]
  | case2 selectors hother =>
      rw [afterAccessors_of_leadingAccessors]
      · rfl
      · unfold leadingAccessors
        split
        · next accessor rest => exact absurd rfl (hother accessor rest)
        · rfl

/-- A chain with some accessors in front. -/
def Chain.prepend
    (accessors : List Accessor)
    (chain : Chain) :
    Chain :=
  ⟨accessors.map (fun accessor => .choose (.access accessor)) ++ chain.selectors, chain.function⟩

/-- The leading run of a query. -/
def leadingRun
    (query : Query) :
    List Accessor :=
  leadingAccessors query.selectors

/-- The chain beyond the leading run of a query. -/
def beyondRun
    (query : Query) :
    Chain :=
  ⟨afterAccessors query.selectors, query.function⟩

/-- Whether a query is nothing but its leading run. -/
def IsRun
    (query : Query) : Prop :=
  query.beyondRun = ⟨[], none⟩

/-- Whether a query is its leading run followed by a final `.*`. -/
def IsStarredRun
    (query : Query) : Prop :=
  query.beyondRun = ⟨[.choose .every], none⟩ ∧
    ['.', '*'] <:+ query.source.toList

/-- A query is its leading run and the chain beyond it. -/
theorem prepend_leadingRun
    (query : Query) :
    query.beyondRun.prepend query.leadingRun = query.chain := by
  rw [Chain.prepend, beyondRun, leadingRun, leadingAccessors_append_afterAccessors]
  rfl

section Prepend

variable {query : Query}
variable {accessors : List Accessor}
variable {rest : Chain}

/-- The leading run of a query whose other selectors start with none of it. -/
theorem leadingRun_of_prepend
    (hchain : query.chain = rest.prepend accessors)
    (hrest : leadingAccessors rest.selectors = []) :
    query.leadingRun = accessors := by
  rw [leadingRun, selectors, hchain, Chain.prepend, leadingAccessors_append, hrest,
    List.append_nil]

theorem beyondRun_of_prepend
    (hchain : query.chain = rest.prepend accessors)
    (hrest : leadingAccessors rest.selectors = []) :
    query.beyondRun = rest := by
  rw [beyondRun, selectors, function, hchain, Chain.prepend, afterAccessors_append,
    afterAccessors_of_leadingAccessors hrest]

end Prepend

/-- Whether a query is a plain length is decided beyond its leading run. -/
theorem isPlainLength_beyondRun
    (query : Query)
    (source : String) :
    isPlainLength ⟨query.beyondRun, source⟩ = query.isPlainLength := by
  have hall : query.isSingular = query.beyondRun.selectors.all Selector.isSingular := by
    have hselectors : query.selectors = (query.beyondRun.prepend query.leadingRun).selectors := by
      rw [prepend_leadingRun]
      rfl
    rw [isSingular, hselectors, Chain.prepend, List.all_append, List.all_map]
    simp [Function.comp_def, Selector.isSingular]
  rw [isPlainLength, isPlainLength, hall]
  rfl

end Query
end FieldQuery
