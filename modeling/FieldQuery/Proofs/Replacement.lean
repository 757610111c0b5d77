import Mathlib.Data.List.Basic
import FieldQuery.Proofs.Edits
import FieldQuery.Proofs.Matching

/-!
# What is left of a replaced node

Nodes are replaced in ascending order of their locations, so a node is
replaced before all that is located below it. What is located below it is then
looked for again, in the value that was put there: a location that this value
does not have is left out, but one that it has is replaced in turn. A value
that was put somewhere stays what it is only if it has none of the locations
that follow below.
-/

namespace FieldQuery

namespace Segment

variable {segment other : Segment}
variable {value child : Value}

/-- To replace a child leaves the other children as they are. -/
theorem get?_replace_of_ne
    (new : Value)
    (h : other ≠ segment) :
    other.get? (segment.replace new value) = other.get? value := by
  cases segment with
  | member name =>
      cases value with
      | map members =>
          cases other with
          | member otherName =>
              exact Members.get?_replace_of_ne new fun heq => h (congrArg member heq)
          | index j => rfl
      | _ => rfl
  | index i =>
      cases value with
      | list items =>
          cases other with
          | member name => rfl
          | index j =>
              have hne : i ≠ j := fun heq => h (congrArg index heq.symm)
              simp [replace, get?, hne]
      | _ => rfl

/-- A child is smaller than the value it is a child of. -/
theorem sizeOf_lt_of_get?
    (h : segment.get? value = some child) :
    sizeOf child < sizeOf value := by
  cases segment with
  | member name =>
      cases value with
      | map members =>
          obtain ⟨front, rest, rfl, -⟩ := Members.exists_split_of_get? h
          have hmem : (name, child) ∈ front ++ (name, child) :: rest := by simp
          have hmember := List.sizeOf_lt_of_mem hmem
          simp only [Prod.mk.sizeOf_spec, Value.map.sizeOf_spec] at hmember ⊢
          omega
      | _ => cases h
  | index i =>
      cases value with
      | list items =>
          have hitem := List.sizeOf_lt_of_mem (List.mem_of_getElem? h)
          rw [Value.list.sizeOf_spec]
          omega
      | _ => cases h

end Segment

namespace Location

/-- The locations of a list that are at a way or below it, seen from its end. -/
def under
    (way : Location)
    (locations : List Location) :
    List Location :=
  locations.filterMap fun location => location.dropPrefix? way

variable {way location : Location}
variable {locations : List Location}
variable {document node changed new : Value}

theorem dropPrefix?_eq_some_iff
    {further : Location} :
    location.dropPrefix? way = some further ↔ location = way ++ further := by
  rw [List.dropPrefix?_eq_some_iff]
  constructor
  · rintro ⟨front, rfl, hfront⟩
    rw [eq_of_beq hfront]
  · rintro rfl
    exact ⟨way, rfl, BEq.rfl⟩

theorem mem_under
    {further : Location} :
    further ∈ under way locations ↔ way ++ further ∈ locations := by
  rw [under, List.mem_filterMap]
  constructor
  · rintro ⟨location, hmem, hfurther⟩
    rw [← dropPrefix?_eq_some_iff.1 hfurther]
    exact hmem
  · intro hmem
    exact ⟨_, hmem, dropPrefix?_eq_some_iff.2 rfl⟩

/-- The locations under a way keep their order. -/
theorem pairwise_under
    (way : Location)
    (h : locations.Pairwise fun a b => notAfter a b = true) :
    (under way locations).Pairwise fun a b => notAfter a b = true := by
  refine List.Pairwise.filterMap _ ?_ h
  intro a b hle x hx y hy
  rw [dropPrefix?_eq_some_iff.1 hx, dropPrefix?_eq_some_iff.1 hy, notAfter, compare_append] at hle
  exact hle

/-- A location comes before all that are below it. -/
theorem eq_of_prefix
    (h : notAfter way location = true)
    (hfront : location <+: way) :
    location = way := by
  obtain ⟨further, rfl⟩ := hfront
  have hcompare := compare_append location further []
  rw [List.append_nil] at hcompare
  rw [notAfter, hcompare] at h
  cases further with
  | nil => exact (List.append_nil location).symm
  | cons segment rest => cases h

/-- A change off a way leaves the node at its end as it was. -/
theorem resolve?_of_replace?
    (habove : ¬ way <+: location)
    (hbelow : ¬ location <+: way)
    (h : location.replace? new document = some changed) :
    way.resolve? changed = way.resolve? document := by
  induction way generalizing location document changed with
  | nil => exact absurd List.nil_prefix habove
  | cons segment way ih =>
      cases location with
      | nil => exact absurd List.nil_prefix hbelow
      | cons other location =>
          obtain ⟨child, hchild, hmap⟩ := Option.bind_eq_some_iff.1 h
          obtain ⟨inner, hinner, rfl⟩ := Option.map_eq_some_iff.1 hmap
          by_cases heq : segment = other
          · subst heq
            rw [resolve?, resolve?, Segment.get?_replace _ hchild, hchild]
            refine ih ?_ ?_ hinner
            · exact fun hfront => habove (List.cons_prefix_cons.2 ⟨rfl, hfront⟩)
            · exact fun hfront => hbelow (List.cons_prefix_cons.2 ⟨rfl, hfront⟩)
          · rw [resolve?, resolve?, Segment.get?_replace_of_ne _ heq]

/-- A node is smaller than the document it is found in, except at its root. -/
theorem sizeOf_le_of_resolve?
    (h : way.resolve? document = some node) :
    sizeOf node ≤ sizeOf document := by
  induction way generalizing document with
  | nil =>
      obtain rfl := Option.some.inj h
      exact Nat.le_refl _
  | cons segment way ih =>
      obtain ⟨child, hchild, hnode⟩ := Option.bind_eq_some_iff.1 h
      exact (ih hnode).trans (Segment.sizeOf_lt_of_get? hchild).le

theorem sizeOf_lt_of_resolve?
    (hne : way ≠ [])
    (h : way.resolve? document = some node) :
    sizeOf node < sizeOf document := by
  cases way with
  | nil => exact absurd rfl hne
  | cons segment way =>
      obtain ⟨child, hchild, hnode⟩ := Option.bind_eq_some_iff.1 h
      exact (sizeOf_le_of_resolve? hnode).trans_lt (Segment.sizeOf_lt_of_get? hchild)

end Location

namespace Query

open Location (under)

variable {way : Location}
variable {locations : List Location}
variable {document node : Value}

/--
The node at the end of a way, after a replacement at locations none of which
is above the way, is what is made of it by those of them that lead there or
below.
-/
theorem resolve?_replaceAt
    (new : Value)
    (h : way.resolve? document = some node)
    (hlocations : ∀ location ∈ locations, location <+: way → location = way) :
    way.resolve? (replaceAt new locations document).1 =
      some (replaceAt new (under way locations) node).1 := by
  induction locations generalizing document node with
  | nil => exact h
  | cons location rest ih =>
      have hrest := fun other hmem => hlocations other (List.mem_cons_of_mem _ hmem)
      by_cases hfront : way <+: location
      · obtain ⟨further, rfl⟩ := hfront
        have hunder : under way ((way ++ further) :: rest) = further :: under way rest :=
          List.filterMap_cons_some (Location.dropPrefix?_eq_some_iff.2 rfl)
        rw [hunder, replaceAt, replaceAt, Location.replace?_append new h]
        cases Location.replace? new further node with
        | none => exact ih h hrest
        | some changed => exact ih (Location.resolve?_within changed h) hrest
      · have hunder : under way (location :: rest) = under way rest := by
          refine List.filterMap_cons_none ?_
          rw [Option.eq_none_iff_forall_ne_some]
          intro further hfurther
          exact hfront ⟨further, (Location.dropPrefix?_eq_some_iff.1 hfurther).symm⟩
        rw [hunder, replaceAt]
        cases hreplace : location.replace? new document with
        | none => exact ih h hrest
        | some changed =>
            have hbelow : ¬ location <+: way := fun hlocation =>
              hfront (hlocations location List.mem_cons_self hlocation ▸ List.prefix_rfl)
            refine ih ?_ hrest
            rw [Location.resolve?_of_replace? hfront hbelow hreplace]
            exact h

/-- A value that has none of some locations stays as it is when they are replaced in it. -/
theorem replaceAt_self
    {new : Value}
    (h : ∀ further ∈ locations, further ≠ [] → further.resolve? new = none) :
    (replaceAt new locations new).1 = new := by
  induction locations with
  | nil => rfl
  | cons location rest ih =>
      have hrest := ih fun further hmem => h further (List.mem_cons_of_mem _ hmem)
      rw [replaceAt]
      cases location with
      | nil => exact hrest
      | cons segment more =>
          rw [Location.replace?_of_resolve?_eq_none new
            (h _ List.mem_cons_self (List.cons_ne_nil _ _))]
          exact hrest

/--
A value that has one of some locations grows when they are replaced by the
value itself, from the root downwards.
-/
theorem absent_or_sizeOf_lt
    (new : Value)
    (h : locations.Pairwise fun a b => Location.notAfter a b = true) :
    (∀ further ∈ locations, further ≠ [] → further.resolve? new = none) ∨
      sizeOf new < sizeOf (replaceAt new locations new).1 := by
  induction hlength : locations.length using Nat.strong_induction_on generalizing locations with
  | _ n ih =>
      cases locations with
      | nil =>
          refine Or.inl ?_
          rintro further ⟨⟩
      | cons location rest =>
          obtain ⟨hfirst, hrest⟩ := List.pairwise_cons.1 h
          rw [List.length_cons] at hlength
          have hskip (hlocation : location ≠ [] → location.resolve? new = none)
              (hresult : (replaceAt new (location :: rest) new).1 = (replaceAt new rest new).1) :
              (∀ further ∈ location :: rest, further ≠ [] → further.resolve? new = none) ∨
                sizeOf new < sizeOf (replaceAt new (location :: rest) new).1 := by
            rw [hresult]
            refine (ih rest.length (by omega) hrest rfl).imp_left fun habsent => ?_
            intro further hmem
            rcases List.mem_cons.1 hmem with rfl | hmem
            · exact hlocation
            · exact habsent further hmem
          by_cases hroot : location = []
          · subst hroot
            exact hskip (fun hne => absurd rfl hne) rfl
          · cases hresolve : location.resolve? new with
            | none =>
                refine hskip (fun _ => hresolve) ?_
                rw [replaceAt, Location.replace?_of_resolve?_eq_none new hresolve]
            | some node =>
                have hplaced := resolve?_replaceAt new (Location.resolve?_within new hresolve)
                  fun other hmem => Location.eq_of_prefix (hfirst other hmem)
                have hshorter : (under location rest).length < n := by
                  have hle := List.length_filterMap_le
                    (fun other : Location => other.dropPrefix? location) rest
                  rw [← hlength, Nat.lt_succ_iff]
                  exact hle
                have hkept : sizeOf new ≤ sizeOf (replaceAt new (under location rest) new).1 := by
                  rcases ih _ hshorter (Location.pairwise_under location hrest) rfl with
                    habsent | hlt
                  · rw [replaceAt_self habsent]
                  · exact hlt.le
                refine Or.inr ?_
                rw [replaceAt, Location.replace?_of_resolve? new hresolve]
                exact hkept.trans_lt (Location.sizeOf_lt_of_resolve? hroot hplaced)

/-- A value stays as it is only if it has none of the locations that are replaced by it. -/
theorem replaceAt_eq_self_iff
    (new : Value)
    (h : locations.Pairwise fun a b => Location.notAfter a b = true) :
    (replaceAt new locations new).1 = new ↔
      ∀ further ∈ locations, further ≠ [] → further.resolve? new = none := by
  constructor
  · intro hself
    refine (absent_or_sizeOf_lt new h).resolve_right ?_
    rw [hself]
    exact Nat.lt_irrefl _
  · exact replaceAt_self

/-- What stands at the root before does not matter if the root is replaced. -/
theorem replaceAt_of_root
    (new : Value)
    (node : Value)
    (h : locations.Pairwise fun a b => Location.notAfter a b = true)
    (hroot : [] ∈ locations) :
    (replaceAt new locations node).1 = (replaceAt new locations new).1 := by
  cases locations with
  | nil => cases hroot
  | cons location rest =>
      have hfirst : location = [] := by
        rcases List.mem_cons.1 hroot with heq | hmem
        · exact heq.symm
        · have hle := (List.pairwise_cons.1 h).1 [] hmem
          exact (Location.eq_of_prefix hle List.nil_prefix).symm
      rw [hfirst]
      rfl

/--
A query puts a value at every outermost match, and then puts it once more at
each location further below at which this value in turn has something. So a
match keeps the value that was put there if, and only if, the value has none
of the locations at which the query matched further below.
-/
theorem update_outermost
    {query : Query}
    {document : Value}
    (hfunction : query.function = none)
    (hdocument : document.WellFormed)
    (new : Value) :
    ∃ locations changed count,
      query.locate document = .ok locations ∧
      query.update document new = .ok (changed, count) ∧
      ∀ way ∈ locations, (∀ front ∈ locations, front <+: way → front = way) →
        way.resolve? changed =
            some (replaceAt new (under way (Location.sorted locations)) new).1 ∧
          (way.resolve? changed = some new ↔
            ∀ further : Location, further ≠ [] → way ++ further ∈ locations →
              further.resolve? new = none) := by
  have hlocate : query.locate document = .ok ((select query.selectors document).map Prod.fst) := by
    rw [locate, hfunction]
  refine ⟨_, _, _, hlocate, by rw [update, hlocate]; rfl, ?_⟩
  intro way hway houtermost
  generalize hlocations : (select query.selectors document).map Prod.fst = locations at *
  obtain ⟨node, hnode⟩ : ∃ node, way.resolve? document = some node := by
    rw [← hlocations] at hway
    obtain ⟨⟨_, node⟩, hselect, rfl⟩ := List.mem_map.1 hway
    exact ⟨node, resolve?_of_mem_select hdocument hselect⟩
  have hmem {location : Location} : location ∈ Location.sorted locations ↔ location ∈ locations :=
    List.mem_mergeSort
  have hsorted := Location.pairwise_under way (Location.pairwise_sorted locations)
  have hroot : [] ∈ under way (Location.sorted locations) := by
    rw [Location.mem_under, List.append_nil, hmem]
    exact hway
  have hresult := resolve?_replaceAt new hnode fun location hlocation =>
    houtermost location (hmem.1 hlocation)
  rw [replaceAt_of_root new node hsorted hroot] at hresult
  refine ⟨hresult, ?_⟩
  rw [hresult, Option.some.injEq, replaceAt_eq_self_iff new hsorted]
  constructor
  · intro habsent further hne hfurther
    exact habsent further (Location.mem_under.2 (hmem.2 hfurther)) hne
  · intro habsent further hfurther hne
    exact habsent further hne (hmem.1 (Location.mem_under.1 hfurther))

/-- A member that has a member of the same name. -/
def sameNamed : Value :=
  .map [("a", .map [("a", .int 1)])]

/-- The members of one name everywhere. -/
def everyNamed : Query where
  chain := ⟨[.descent, .choose (.access (.key "a"))], none⟩
  source := "$..a"

/-- A value without that member stays what it is where it was put. -/
theorem update_outermost_absent :
    Query.compile "$..a" = .ok everyNamed ∧
      sameNamed.WellFormed ∧
      ∃ changed count,
        everyNamed.update sameNamed (.map [("b", .int 2)]) = .ok (changed, count) ∧
        Location.resolve? [.member "a"] changed = some (.map [("b", .int 2)]) := by
  have hcompile : Query.compile "$..a" = .ok everyNamed := by
    decide +kernel
  have hdocument : sameNamed.WellFormed := by
    simp [sameNamed, Members.names]
  obtain ⟨locations, changed, count, hlocate, hupdate, hmatches⟩ :=
    @update_outermost everyNamed sameNamed rfl hdocument (.map [("b", .int 2)])
  have hfound : everyNamed.locate sameNamed =
      .ok [[.member "a"], [.member "a", .member "a"]] := by
    rfl
  obtain rfl := Except.ok.inj (hfound.symm.trans hlocate)
  refine ⟨hcompile, hdocument, changed, count, hupdate, ?_⟩
  refine (hmatches _ List.mem_cons_self ?_).2.2 ?_
  · decide
  · intro further hne hfurther
    obtain rfl : further = [.member "a"] := by simpa [hne] using hfurther
    rfl

/-- A value with that member is put into itself, below the outermost match. -/
theorem update_ne_outermost :
    ∃ locations changed,
      Query.compile "$..a" = .ok everyNamed ∧
      everyNamed.locate sameNamed = .ok locations ∧
      everyNamed.update sameNamed (.map [("a", .int 2)]) = .ok (changed, 2) ∧
      changed = .map [("a", .map [("a", .map [("a", .int 2)])])] ∧
      ¬ ∀ way ∈ locations, (∀ front ∈ locations, front <+: way → front = way) →
        way.resolve? changed = some (.map [("a", .int 2)]) := by
  have hcompile : Query.compile "$..a" = .ok everyNamed := by
    decide +kernel
  have hlocate : everyNamed.locate sameNamed =
      .ok [[.member "a"], [.member "a", .member "a"]] := by
    rfl
  refine ⟨_, _, hcompile, hlocate, ?_, rfl, ?_⟩
  · rw [update, hlocate, Except.map, Location.sorted, List.mergeSort_of_pairwise (by decide)]
    rfl
  · intro hall
    have hput := hall [.member "a"] List.mem_cons_self (by decide)
    have hnested : Location.resolve? [.member "a"]
        (.map [("a", .map [("a", .map [("a", .int 2)])])]) =
          some (.map [("a", .map [("a", .int 2)])]) := by
      rfl
    rw [hnested] at hput
    simp at hput

end Query
end FieldQuery
