import FieldQuery.Proofs.Replacement
import FieldQuery.Value.Outline

/-!
# What replacement leaves alone

A replacement changes what is at its location or below it. Above it, lists
keep their lengths and maps their names, and everywhere else nothing changes
at all. The same holds of many replacements one after the other, whether or
not some of them take place inside values that others have put: what is
inside is at or below a location, too.
-/

namespace FieldQuery

theorem Members.names_replace
    {α : Type}
    (name : String)
    (value : α)
    (members : Members α) :
    Members.names (members.replace name value) = members.names := by
  induction members with
  | nil => rfl
  | cons entry rest ih =>
      obtain ⟨key, old⟩ := entry
      rw [replace]
      split
      · rfl
      · exact congrArg (List.cons key) ih

namespace Value

/-- Values of one outline are of one kind. -/
theorem shape_eq_of_outline
    {value other : Value}
    (h : value.outline = other.outline) :
    value.shape = other.shape := by
  cases value <;> cases other <;> first | rfl | cases h

end Value

namespace Segment

variable {segment : Segment}
variable {value child : Value}

/-- Another child leaves the outline as it is. -/
theorem outline_replace
    (new : Value) :
    (segment.replace new value).outline = value.outline := by
  cases segment with
  | member name =>
      cases value with
      | map members => exact congrArg Outline.map (Members.names_replace name new members)
      | _ => rfl
  | index i =>
      cases value with
      | list items => exact congrArg Outline.list List.length_set
      | _ => rfl

/-- Only lists and maps have children. -/
theorem isContainer_of_get?
    (h : segment.get? value = some child) :
    value.outline.isContainer = true := by
  cases segment with
  | member name =>
      cases value with
      | map members => rfl
      | _ => cases h
  | index i =>
      cases value with
      | list items => rfl
      | _ => cases h

end Segment

namespace Location

variable {way location : Location}
variable {document changed node new : Value}

/-- Whether a value has another node further below. -/
theorem isContainer_of_resolve?
    {found : Value}
    (hne : way ≠ [])
    (h : way.resolve? node = some found) :
    node.outline.isContainer = true := by
  cases way with
  | nil => exact absurd rfl hne
  | cons segment rest =>
      obtain ⟨child, hchild, -⟩ := Option.bind_eq_some_iff.1 h
      exact Segment.isContainer_of_get? hchild

/-- A replacement keeps the outline of every node that is not at its location or below it. -/
theorem outline_of_replace?
    (hbelow : ¬ location <+: way)
    (h : location.replace? new document = some changed) :
    (way.resolve? changed).map Value.outline = (way.resolve? document).map Value.outline := by
  induction way generalizing location document changed with
  | nil =>
      cases location with
      | nil => exact absurd List.nil_prefix hbelow
      | cons segment location =>
          obtain ⟨child, -, hmap⟩ := Option.bind_eq_some_iff.1 h
          obtain ⟨inner, -, rfl⟩ := Option.map_eq_some_iff.1 hmap
          exact congrArg some (Segment.outline_replace inner)
  | cons segment way ih =>
      cases location with
      | nil => exact absurd List.nil_prefix hbelow
      | cons other location =>
          obtain ⟨child, hchild, hmap⟩ := Option.bind_eq_some_iff.1 h
          obtain ⟨inner, hinner, rfl⟩ := Option.map_eq_some_iff.1 hmap
          rw [resolve?, resolve?]
          by_cases heq : segment = other
          · subst heq
            rw [Segment.get?_replace _ hchild, hchild]
            exact ih (fun hfront => hbelow (List.cons_prefix_cons.2 ⟨rfl, hfront⟩)) hinner
          · rw [Segment.get?_replace_of_ne _ heq]

end Location

namespace Query

variable {way : Location}
variable {locations : List Location}

/-- Replacements keep the outline of every node that is at none of their locations or below. -/
theorem outline_replaceAt
    (new document : Value)
    (hbelow : ∀ location ∈ locations, ¬ location <+: way) :
    (way.resolve? (replaceAt new locations document).1).map Value.outline =
      (way.resolve? document).map Value.outline := by
  induction locations generalizing document with
  | nil => rfl
  | cons location rest ih =>
      obtain ⟨hfirst, hrest⟩ := List.forall_mem_cons.1 hbelow
      rw [replaceAt]
      cases hreplace : location.replace? new document with
      | none => exact ih document hrest
      | some changed => exact (ih changed hrest).trans (Location.outline_of_replace? hfirst hreplace)

/-- Replacements leave a node as it is if all of them are apart from it. -/
theorem resolve?_replaceAt_of_apart
    (new document : Value)
    (hbelow : ∀ location ∈ locations, ¬ location <+: way)
    (habove : ∀ location ∈ locations, ¬ way <+: location) :
    way.resolve? (replaceAt new locations document).1 = way.resolve? document := by
  induction locations generalizing document with
  | nil => rfl
  | cons location rest ih =>
      obtain ⟨hbelowFirst, hbelowRest⟩ := List.forall_mem_cons.1 hbelow
      obtain ⟨haboveFirst, haboveRest⟩ := List.forall_mem_cons.1 habove
      rw [replaceAt]
      cases hreplace : location.replace? new document with
      | none => exact ih document hbelowRest haboveRest
      | some changed =>
          refine (ih changed hbelowRest haboveRest).trans ?_
          exact Location.resolve?_of_replace? haboveFirst hbelowFirst hreplace

/--
An update changes nothing outside its matches. What is neither above a match
nor at one or below stays as it is; what is above a match stays a list of the
same length or a map with the same names; and no node comes about that is not
at a match or below.
-/
theorem update_outside
    {query : Query}
    {document : Value}
    (hfunction : query.function = none)
    (hdocument : document.WellFormed)
    (new : Value) :
    ∃ locations changed count,
      query.locate document = .ok locations ∧
      query.update document new = .ok (changed, count) ∧
      ∀ way : Location, (∀ location ∈ locations, ¬ location <+: way) →
        (∀ node, way.resolve? document = some node →
          ∃ kept,
            way.resolve? changed = some kept ∧
            ((∀ location ∈ locations, ¬ way <+: location) → kept = node) ∧
            ((∃ location ∈ locations, way <+: location) →
              kept.outline = node.outline ∧ node.outline.isContainer = true)) ∧
        ((way.resolve? changed).isSome = true → (way.resolve? document).isSome = true) := by
  obtain ⟨locations, hlocate⟩ : ∃ locations, query.locate document = .ok locations :=
    ⟨_, locate_eq_ok document hfunction⟩
  refine ⟨locations, _, _, hlocate, by rw [update, hlocate]; rfl, ?_⟩
  intro way hway
  have hbelow : ∀ location ∈ Location.sorted locations, ¬ location <+: way := by
    intro location hmem
    exact hway location (List.mem_mergeSort.1 hmem)
  have houtline := outline_replaceAt new document hbelow
  constructor
  · intro node hnode
    rw [hnode, Option.map_some] at houtline
    obtain ⟨kept, hkept, hsame⟩ := Option.map_eq_some_iff.1 houtline
    refine ⟨kept, hkept, ?_, ?_⟩
    · intro hapart
      have habove : ∀ location ∈ Location.sorted locations, ¬ way <+: location := by
        intro location hmem
        exact hapart location (List.mem_mergeSort.1 hmem)
      rw [resolve?_replaceAt_of_apart new document hbelow habove, hnode] at hkept
      exact (Option.some.inj hkept).symm
    · rintro ⟨location, hmem, further, rfl⟩
      have hne : further ≠ [] := by
        rintro rfl
        exact hway _ hmem (by rw [List.append_nil])
      obtain ⟨found, hfound⟩ := exists_resolve?_of_locate hdocument hlocate hmem
      rw [Location.resolve?_append, hnode] at hfound
      exact ⟨hsame, Location.isContainer_of_resolve? hne hfound⟩
  · intro hchanged
    rw [← Option.isSome_map, ← houtline, Option.isSome_map]
    exact hchanged

/-- A list with an element that has matches inside each other, and one that has none. -/
def nestedMatches : Value :=
  .map [("rows", .list [.map [("a", .map [("a", .int 1)])], .int 5])]

/-- The value that is put brings a match of its own: the list is as long as before, and its other
element is the same. -/
theorem update_outside_rows :
    everyNamed.function = none ∧
      nestedMatches.WellFormed ∧
      (∀ location ∈ [[Segment.member "rows", .index 0, .member "a"],
          [.member "rows", .index 0, .member "a", .member "a"]],
        ¬ location <+: [Segment.member "rows"] ∧
        ¬ location <+: [Segment.member "rows", .index 1]) ∧
      ∃ changed count kept,
        everyNamed.update nestedMatches (.map [("a", .list [])]) = .ok (changed, count) ∧
        Location.resolve? [.member "rows"] changed = some kept ∧
        kept.outline = .list 2 ∧
        Location.resolve? [.member "rows", .index 1] changed = some (.int 5) := by
  have hdocument : nestedMatches.WellFormed := by
    simp [nestedMatches, Members.names]
  obtain ⟨locations, changed, count, hlocate, hupdate, houtside⟩ :=
    @update_outside everyNamed nestedMatches rfl hdocument (.map [("a", .list [])])
  have hfound : everyNamed.locate nestedMatches =
      .ok [[.member "rows", .index 0, .member "a"],
        [.member "rows", .index 0, .member "a", .member "a"]] := by
    rfl
  obtain rfl := Except.ok.inj (hfound.symm.trans hlocate)
  obtain ⟨rows, hrows, -, hlist⟩ := (houtside [.member "rows"] (by decide)).1 _ rfl
  obtain ⟨other, hother, hsame, -⟩ := (houtside [.member "rows", .index 1] (by decide)).1 _ rfl
  refine ⟨rfl, hdocument, by decide, changed, count, rows, hupdate, hrows, ?_, ?_⟩
  · exact (hlist ⟨_, List.mem_cons_self, by decide⟩).1
  · rw [hother, hsame (by decide)]

end Query
end FieldQuery
