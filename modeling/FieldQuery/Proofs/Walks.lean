import Mathlib.Data.Set.Card
import FieldQuery.Proofs.Matching
import FieldQuery.Proofs.Slices

/-!
# Evaluation follows the walks

The nodes that a query matches are listed together with the cuts that lead to
them. In a well-formed document each selector lists the pieces that it takes,
each piece once, and so a chain lists the cuts that it walks along, each cut
once. A location is therefore matched as often as it can be cut for a walk.
-/

namespace FieldQuery
namespace Query

variable {node child : Value}
variable {segment : Segment}

theorem position?_eq_some_iff
    {i : Int}
    {length position : Nat} :
    position? i length = some position ↔
      position < length ∧ (position : Int) = if i < 0 then length + i else i := by
  grind [position?]

/-- An accessor locates the child behind the segment that it admits. -/
theorem locate?_eq_some_iff
    {accessor : Accessor} :
    accessor.locate? node = some (segment, child) ↔
      Choice.Admits node (.access accessor) segment ∧ segment.get? node = some child := by
  constructor
  · intro h
    refine ⟨?_, Accessor.segment_get?_of_locate? h⟩
    cases accessor with
    | key name =>
        cases node with
        | map members =>
            obtain ⟨value, -, heq⟩ := Option.map_eq_some_iff.1 h
            obtain ⟨rfl, -⟩ := Prod.mk.inj heq
            exact .name name
        | _ => cases h
    | index i =>
        cases node with
        | list items =>
            obtain ⟨position, hposition, hitem⟩ := Option.bind_eq_some_iff.1 h
            obtain ⟨item, -, heq⟩ := Option.map_eq_some_iff.1 hitem
            obtain ⟨rfl, -⟩ := Prod.mk.inj heq
            obtain ⟨-, hresolved⟩ := position?_eq_some_iff.1 hposition
            split at hresolved
            · next hnegative => exact .fromEnd rfl hnegative hresolved
            · next hstart =>
                subst hresolved
                exact .fromStart position
        | _ => cases h
  · rintro ⟨hadmits, hget⟩
    cases hadmits with
    | name name =>
        cases node with
        | map members => exact Option.map_eq_some_iff.2 ⟨child, hget, rfl⟩
        | _ => cases hget
    | fromStart position =>
        cases node with
        | list items =>
            have hitem : items[position]? = some child := hget
            have hposition : position? position items.length = some position :=
              position?_eq_some_iff.2 ⟨(List.getElem?_eq_some_iff.1 hitem).1, by grind⟩
            simp [Accessor.locate?, hposition, hitem]
        | _ => cases hget
    | @fromEnd items i position hnode hnegative hresolved =>
        subst hnode
        have hitem : items[position]? = some child := hget
        have hposition : position? i items.length = some position :=
          position?_eq_some_iff.2 ⟨(List.getElem?_eq_some_iff.1 hitem).1, by grind⟩
        simp [Accessor.locate?, hposition, hitem]

/-- A choice selects the child behind each segment that it admits. -/
theorem Choice.mem_children_iff
    {choice : Choice}
    (h : node.WellFormed) :
    (segment, child) ∈ choice.children node ↔
      choice.Admits node segment ∧ segment.get? node = some child := by
  cases choice with
  | every =>
      rw [children, h.mem_children_iff]
      exact (and_iff_right (.every segment)).symm
  | access accessor =>
      rw [children, Option.mem_toList]
      exact locate?_eq_some_iff

theorem Choice.nodup_children
    (choice : Choice)
    (h : node.WellFormed) :
    ((choice.children node).map Prod.fst).Nodup := by
  cases choice with
  | every => exact h.nodup_children
  | access accessor =>
      rw [children]
      cases accessor.locate? node <;> simp

/-- A slice selects the element at each position that it admits. -/
theorem Slice.mem_children_iff
    {slice : Slice} :
    (segment, child) ∈ slice.children node ↔
      ∃ items position,
        node = .list items ∧
        segment = .index position ∧
        slice.Admits items.length position ∧
        items[position]? = some child := by
  cases node with
  | list items =>
      simp only [children, List.mem_filterMap, Option.map_eq_some_iff, mem_positions,
        Prod.mk.injEq]
      constructor
      · rintro ⟨position, hadmits, item, hitem, rfl, rfl⟩
        exact ⟨items, position, rfl, rfl, hadmits, hitem⟩
      · rintro ⟨_, position, ⟨⟩, rfl, hadmits, hitem⟩
        exact ⟨position, hadmits, child, hitem, rfl, rfl⟩
  | _ => simp [children]

theorem Slice.nodup_children
    (slice : Slice)
    (node : Value) :
    ((slice.children node).map Prod.fst).Nodup := by
  cases node with
  | list items =>
      rw [children, List.map_filterMap]
      refine (slice.nodup_positions items.length).filterMap ?_
      intro i j found hi hj
      simp only [Option.map_map, Option.mem_def, Option.map_eq_some_iff, Function.comp_apply] at hi hj
      obtain ⟨_, -, rfl⟩ := hi
      obtain ⟨_, -, heq⟩ := hj
      exact (Segment.index.inj heq).symm
  | _ => exact List.nodup_nil

/-- A child with the piece that leads to it and the member that admits it. -/
def taken
    (member : Nat)
    (child : Segment × Value) :
    (Location × Nat) × Value :=
  (([child.1], member), child.2)

/-- The nodes that a selector leads to, with the pieces and the members that lead there. -/
def Selector.pieces :
    Selector → Value → List ((Location × Nat) × Value)
  | choose choice, node => (choice.children node).map (taken 0)
  | slice s, node => (s.children node).map (taken 0)
  | filter predicate, node =>
      (node.children.filter fun child => predicate.holds child.2).map (taken 0)
  | union choices, node =>
      choices.zipIdx.flatMap fun (choice, member) => (choice.children node).map (taken member)
  | descent, node => node.descendants.map fun (way, target) => ((way, 0), target)

/-- A selector reaches its pieces. -/
theorem Selector.reach_eq_map_pieces
    (selector : Selector)
    (node : Value) :
    selector.reach node = (selector.pieces node).map fun (taken, target) => (taken.1, target) := by
  cases selector with
  | union choices =>
      have hchoices : choices = choices.zipIdx.map Prod.fst := (List.zipIdx_map_fst 0 choices).symm
      conv_lhs => rw [reach, hchoices, List.flatMap_map, List.map_flatMap]
      simp only [pieces, List.map_flatMap, List.map_map]
      rfl
  | _ => simp [reach, pieces, Function.comp_def, taken, oneStep]

section Taken

variable {children : List (Segment × Value)}
variable {piece : Location}
variable {member other : Nat}

theorem mem_map_taken :
    ((piece, member), child) ∈ children.map (taken other) ↔
      ∃ segment, piece = [segment] ∧ member = other ∧ (segment, child) ∈ children := by
  simp only [taken, List.mem_map, Prod.mk.injEq, Prod.exists]
  constructor
  · rintro ⟨segment, _, hmem, ⟨rfl, rfl⟩, rfl⟩
    exact ⟨segment, rfl, rfl, hmem⟩
  · rintro ⟨segment, rfl, rfl, hmem⟩
    exact ⟨segment, child, hmem, ⟨rfl, rfl⟩, rfl⟩

theorem nodup_map_taken
    (member : Nat)
    (h : (children.map Prod.fst).Nodup) :
    ((children.map (taken member)).map Prod.fst).Nodup := by
  have hpieces : (children.map (taken member)).map Prod.fst =
      (children.map Prod.fst).map fun segment => ([segment], member) := by
    simp [taken, Function.comp_def]
  rw [hpieces]
  exact h.map fun a b hab => (List.cons.inj (Prod.mk.inj hab).1).1

end Taken

theorem resolve?_singleton
    (segment : Segment)
    (node : Value) :
    Location.resolve? [segment] node = segment.get? node := by
  rw [Location.resolve?]
  exact Option.bind_fun_some _

/-- A selector lists the pieces that it takes. -/
theorem Selector.mem_pieces_iff
    {selector : Selector}
    {piece : Location}
    {member : Nat}
    (h : node.WellFormed) :
    ((piece, member), child) ∈ selector.pieces node ↔
      selector.Takes node piece member ∧ piece.resolve? node = some child := by
  cases selector with
  | choose choice =>
      rw [pieces, mem_map_taken]
      constructor
      · rintro ⟨segment, rfl, rfl, hmem⟩
        obtain ⟨hadmits, hget⟩ := (choice.mem_children_iff h).1 hmem
        exact ⟨.choose hadmits, by rwa [resolve?_singleton]⟩
      · rintro ⟨htakes, hexists⟩
        cases htakes with
        | choose hadmits =>
            rw [resolve?_singleton] at hexists
            exact ⟨_, rfl, rfl, (choice.mem_children_iff h).2 ⟨hadmits, hexists⟩⟩
  | slice s =>
      rw [pieces, mem_map_taken]
      constructor
      · rintro ⟨segment, rfl, rfl, hmem⟩
        obtain ⟨items, position, hnode, rfl, hadmits, hitem⟩ := s.mem_children_iff.1 hmem
        refine ⟨.slice hnode hadmits, ?_⟩
        rw [resolve?_singleton, hnode]
        exact hitem
      · rintro ⟨htakes, hexists⟩
        cases htakes with
        | slice hnode hadmits =>
            rw [resolve?_singleton, hnode] at hexists
            exact ⟨_, rfl, rfl, s.mem_children_iff.2 ⟨_, _, hnode, rfl, hadmits, hexists⟩⟩
  | filter predicate =>
      rw [pieces, mem_map_taken]
      constructor
      · rintro ⟨segment, rfl, rfl, hmem⟩
        obtain ⟨hchild, hholds⟩ := List.mem_filter.1 hmem
        have hget := h.mem_children_iff.1 hchild
        exact ⟨.filter hget hholds, by rwa [resolve?_singleton]⟩
      · rintro ⟨htakes, hexists⟩
        cases htakes with
        | filter hget hholds =>
            rw [resolve?_singleton] at hexists
            obtain rfl := Option.some.inj (hget.symm.trans hexists)
            exact ⟨_, rfl, rfl, List.mem_filter.2 ⟨h.mem_children_iff.2 hget, hholds⟩⟩
  | union choices =>
      simp only [pieces, List.mem_flatMap, mem_map_taken]
      constructor
      · rintro ⟨⟨choice, k⟩, hchoice, segment, rfl, rfl, hmem⟩
        obtain ⟨hadmits, hget⟩ := (choice.mem_children_iff h).1 hmem
        exact ⟨.union (List.mem_zipIdx_iff_getElem?.1 hchoice) hadmits,
          by rwa [resolve?_singleton]⟩
      · rintro ⟨htakes, hexists⟩
        cases htakes with
        | union hmember hadmits =>
            rw [resolve?_singleton] at hexists
            exact ⟨(_, member), List.mem_zipIdx_iff_getElem?.2 hmember, _, rfl, rfl,
              (Choice.mem_children_iff h).2 ⟨hadmits, hexists⟩⟩
  | descent =>
      simp only [pieces, List.mem_map, Prod.mk.injEq, Prod.exists]
      constructor
      · rintro ⟨way, target, hmem, ⟨rfl, rfl⟩, rfl⟩
        exact ⟨.descent way, h.mem_descendants_iff.1 hmem⟩
      · rintro ⟨htakes, hexists⟩
        cases htakes with
        | descent piece => exact ⟨piece, child, h.mem_descendants_iff.2 hexists, ⟨rfl, rfl⟩, rfl⟩

/-- A selector lists no piece twice for the same member. -/
theorem Selector.nodup_pieces
    (selector : Selector)
    (h : node.WellFormed) :
    ((selector.pieces node).map Prod.fst).Nodup := by
  cases selector with
  | choose choice => exact nodup_map_taken 0 (choice.nodup_children h)
  | slice s => exact nodup_map_taken 0 (s.nodup_children node)
  | filter predicate =>
      exact nodup_map_taken 0 (h.nodup_children.sublist (List.filter_sublist.map Prod.fst))
  | union choices =>
      have hindices : choices.zipIdx.Pairwise fun a b => a.2 ≠ b.2 := by
        rw [← List.pairwise_map, List.zipIdx_map_snd]
        exact List.nodup_range' 1
      rw [pieces, List.map_flatMap, List.nodup_flatMap]
      refine ⟨fun choice _ => nodup_map_taken choice.2 (choice.1.nodup_children h), ?_⟩
      refine hindices.imp ?_
      intro first second hne taken hfirst hsecond
      obtain ⟨⟨⟨piece, member⟩, target⟩, hmem, rfl⟩ := List.mem_map.1 hfirst
      obtain ⟨⟨_, target'⟩, hmem', rfl⟩ := List.mem_map.1 hsecond
      obtain ⟨-, -, hmember, -⟩ := mem_map_taken.1 hmem
      obtain ⟨-, -, hmember', -⟩ := mem_map_taken.1 hmem'
      exact hne (hmember.symm.trans hmember')
  | descent =>
      have hpieces : (Selector.descent.pieces node).map Prod.fst =
          (node.descendants.map Prod.fst).map fun way => (way, 0) := by
        simp [pieces, Function.comp_def]
      rw [hpieces]
      exact h.nodup_descendants.map fun a b hab => (Prod.mk.inj hab).1

/-- The nodes that a chain of selectors leads to, with the cuts that lead there. -/
def cuts :
    List Selector → Value → List (Cut × Value)
  | [], node => [([], node)]
  | selector :: rest, node =>
      (selector.pieces node).flatMap fun (taken, next) =>
        (cuts rest next).map fun (cut, target) => (taken :: cut, target)

/-- A chain of selectors matches the locations of its cuts. -/
theorem select_eq_map_cuts
    (selectors : List Selector)
    (node : Value) :
    select selectors node = (cuts selectors node).map fun (cut, target) => (cut.location, target) := by
  induction selectors generalizing node with
  | nil =>
      rfl
  | cons selector rest ih =>
      rw [select_cons, cuts, selector.reach_eq_map_pieces, List.flatMap_map, List.map_flatMap]
      congr 1
      funext ⟨taken, next⟩
      simp [ih, below, Cut.location, Function.comp_def]

/-- A chain of selectors lists the cuts that it walks along. -/
theorem mem_cuts_iff
    {selectors : List Selector}
    {cut : Cut}
    (h : node.WellFormed) :
    cut ∈ (cuts selectors node).map Prod.fst ↔ Walks node selectors cut := by
  induction selectors generalizing node cut with
  | nil =>
      simp only [cuts, List.map_cons, List.map_nil, List.mem_singleton]
      constructor
      · rintro rfl
        exact .done
      · intro hwalks
        cases hwalks
        rfl
  | cons selector rest ih =>
      simp only [cuts, List.map_flatMap, List.map_map, List.mem_flatMap, List.mem_map]
      constructor
      · rintro ⟨⟨⟨piece, member⟩, next⟩, hpiece, ⟨further, target⟩, hfurther, rfl⟩
        obtain ⟨htakes, hexists⟩ := (Selector.mem_pieces_iff h).1 hpiece
        have hnext := wellFormed_of_resolve? h hexists
        exact .step htakes hexists ((ih hnext).1 (List.mem_map_of_mem hfurther))
      · intro hwalks
        cases hwalks with
        | step htakes hexists hrest =>
            have hnext := wellFormed_of_resolve? h hexists
            obtain ⟨⟨further, target⟩, hfurther, rfl⟩ := List.mem_map.1 ((ih hnext).2 hrest)
            exact ⟨_, (Selector.mem_pieces_iff h).2 ⟨htakes, hexists⟩, _, hfurther, rfl⟩

/-- A chain of selectors lists no cut twice. -/
theorem nodup_cuts
    (selectors : List Selector)
    (h : node.WellFormed) :
    ((cuts selectors node).map Prod.fst).Nodup := by
  induction selectors generalizing node with
  | nil =>
      exact List.nodup_singleton _
  | cons selector rest ih =>
      have hcuts : (cuts (selector :: rest) node).map Prod.fst =
          (selector.pieces node).flatMap fun (taken, next) =>
            ((cuts rest next).map Prod.fst).map (taken :: ·) := by
        simp [cuts, List.map_flatMap, Function.comp_def]
      rw [hcuts, List.nodup_flatMap]
      constructor
      · rintro ⟨⟨piece, member⟩, next⟩ hpiece
        have hexists := ((Selector.mem_pieces_iff h).1 hpiece).2
        exact (ih (wellFormed_of_resolve? h hexists)).map fun a b hab => (List.cons.inj hab).2
      · refine (List.pairwise_map.1 (selector.nodup_pieces h)).imp ?_
        intro first second hne cut hfirst hsecond
        obtain ⟨_, -, rfl⟩ := List.mem_map.1 hfirst
        obtain ⟨_, -, heq⟩ := List.mem_map.1 hsecond
        exact hne (List.cons.inj heq).1.symm

/-- A chain of selectors matches a location once for each cut of it that it walks along. -/
theorem encard_walks
    {document : Value}
    (selectors : List Selector)
    (location : Location)
    (h : document.WellFormed) :
    {cut : Cut | Walks document selectors cut ∧ cut.location = location}.encard =
      ((select selectors document).map Prod.fst).count location := by
  let found := ((cuts selectors document).map Prod.fst).filter fun cut => cut.location == location
  have hfound : {cut : Cut | Walks document selectors cut ∧ cut.location = location} =
      (found.toFinset : Set Cut) := by
    ext cut
    simp [found, ← mem_cuts_iff h]
  have hnodup : found.Nodup := (nodup_cuts selectors h).filter _
  have hlength : found.length = ((select selectors document).map Prod.fst).count location := by
    rw [select_eq_map_cuts, List.count_eq_countP, List.countP_map, List.countP_map,
      ← List.countP_eq_length_filter, List.countP_map]
    rfl
  rw [hfound, Set.encard_coe_eq_coe_finsetCard, List.toFinset_card_of_nodup hnodup, hlength]

/--
Evaluation follows the walks: a location is listed once for each way to cut it
into pieces that the selectors take one after the other, every location leads
to a node, and these nodes are what is found, in the same order.
-/
theorem locate_eq_walks
    {query : Query}
    {document : Value}
    (hfunction : query.function = none)
    (hdocument : document.WellFormed) :
    ∃ locations,
      query.locate document = .ok locations ∧
      (∀ location : Location,
        {cut : Cut | Walks document query.selectors cut ∧ cut.location = location}.encard =
          locations.count location) ∧
      (∀ location ∈ locations, (location.resolve? document).isSome) ∧
      (query.find document).map some = locations.map fun location => location.resolve? document := by
  have hresolve : ∀ located ∈ select query.selectors document,
      located.1.resolve? document = some located.2 :=
    fun _ hmem => resolve?_of_mem_select hdocument hmem
  refine ⟨(select query.selectors document).map Prod.fst, by rw [locate, hfunction],
    fun location => encard_walks query.selectors location hdocument, ?_, ?_⟩
  · intro location hmem
    obtain ⟨located, hlocated, rfl⟩ := List.mem_map.1 hmem
    rw [hresolve located hlocated]
    rfl
  · rw [find, hfunction, List.map_map, List.map_map]
    exact List.map_congr_left fun located hlocated => (hresolve located hlocated).symm

/-- Everything at an end of a list that is below a child of some node. -/
def endsBelow : Query where
  chain := ⟨[.descent, .choose .every, .descent, .union [.access (.index 0), .access (.index (-1))]],
    none⟩
  source := "$..*..[0,-1]"

/-- A list in a list in a list. -/
def threeLists : Value :=
  .list [.list [.list [.int 1]]]

/-- The innermost element is cut off in two ways and is both the first and the last one. -/
theorem locate_eq_walks_innermost :
    Query.compile "$..*..[0,-1]" = .ok endsBelow ∧
      endsBelow.function = none ∧
      threeLists.WellFormed ∧
      {cut : Cut | Walks threeLists endsBelow.selectors cut ∧
        cut.location = [.index 0, .index 0, .index 0]}.encard = 4 ∧
      endsBelow.find threeLists =
        [.list [.int 1], .list [.int 1], .int 1, .int 1, .int 1, .int 1] := by
  have hdocument : threeLists.WellFormed := by
    simp [threeLists]
  obtain ⟨locations, hlocate, hcount, -, -⟩ := @locate_eq_walks endsBelow threeLists rfl hdocument
  have hlocations : (endsBelow.locate threeLists).map
      (List.count [.index 0, .index 0, .index 0]) = .ok 4 := by
    decide +kernel
  rw [hlocate] at hlocations
  refine ⟨by decide +kernel, rfl, hdocument, ?_, by decide +kernel⟩
  rw [hcount, Except.ok.inj hlocations]
  rfl

end Query
end FieldQuery
