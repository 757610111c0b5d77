import FieldQuery.Location.Change
import FieldQuery.Proofs.LocationOrder
import FieldQuery.Proofs.Members

/-!
# Changes below a location

A location may be followed in two parts. What a change does below the node
that the first part leads to is what it does to that node alone, put back
where the node was. Locations keep their order when the same way is put in
front of all of them.
-/

namespace FieldQuery

namespace Segment

variable {segment : Segment}
variable {value child : Value}

theorem get?_replace
    (new : Value)
    (h : segment.get? value = some child) :
    segment.get? (segment.replace new value) = some new := by
  cases segment with
  | member name =>
      cases value with
      | map members => exact Members.get?_replace_self new h
      | _ => cases h
  | index i =>
      cases value with
      | list items =>
          obtain ⟨hi, -⟩ := List.getElem?_eq_some_iff.1 h
          simp [replace, get?, hi]
      | _ => cases h

theorem replace_replace
    (first second : Value) :
    segment.replace second (segment.replace first value) = segment.replace second value := by
  cases segment with
  | member name =>
      cases value with
      | map members => simp [replace, Members.replace_replace]
      | _ => rfl
  | index i =>
      cases value with
      | list items => simp [replace]
      | _ => rfl

/-- To put back the child that a segment identifies changes nothing. -/
theorem replace_self
    (h : segment.get? value = some child) :
    segment.replace child value = value := by
  cases segment with
  | member name =>
      cases value with
      | map members => exact congrArg Value.map (Members.replace_self h)
      | _ => rfl
  | index i =>
      cases value with
      | list items =>
          obtain ⟨hi, hget⟩ := List.getElem?_eq_some_iff.1 h
          rw [replace, ← hget, List.set_getElem_self]
      | _ => rfl

end Segment

namespace Location

/-- The document with another node at a location, or as it was if there is no such node. -/
def within
    (way : Location)
    (document node : Value) :
    Value :=
  (way.replace? node document).getD document

variable {way rest : Location}
variable {document node : Value}

/-- A node that is there can be replaced. -/
theorem replace?_of_resolve?
    (new : Value)
    (h : way.resolve? document = some node) :
    way.replace? new document = some (way.within document new) := by
  have hsome : ∃ changed, way.replace? new document = some changed := by
    induction way generalizing document with
    | nil =>
        exact ⟨new, rfl⟩
    | cons segment way ih =>
        obtain ⟨child, hchild, hnode⟩ := Option.bind_eq_some_iff.1 h
        obtain ⟨changed, hchanged⟩ := ih hnode
        exact ⟨segment.replace changed document, by simp [replace?, hchild, hchanged]⟩
  obtain ⟨changed, hchanged⟩ := hsome
  rw [within, hchanged]
  rfl

/-- A node that is not there cannot be replaced. -/
theorem replace?_of_resolve?_eq_none
    (new : Value)
    (h : way.resolve? document = none) :
    way.replace? new document = none := by
  induction way generalizing document with
  | nil =>
      cases h
  | cons segment way ih =>
      rw [resolve?] at h
      rw [replace?]
      cases hchild : segment.get? document with
      | none => rfl
      | some child =>
          rw [hchild, Option.bind_some] at h
          rw [Option.bind_some, ih h]
          rfl

/-- A change below the first segment of a way is a change of the child that it identifies. -/
theorem within_cons
    {segment : Segment}
    {child : Value}
    (new : Value)
    (hchild : segment.get? document = some child)
    (h : way.resolve? child = some node) :
    within (segment :: way) document new = segment.replace (way.within child new) document := by
  rw [within, replace?, hchild, Option.bind_some, replace?_of_resolve? new h]
  rfl

theorem resolve?_within
    (new : Value)
    (h : way.resolve? document = some node) :
    way.resolve? (way.within document new) = some new := by
  induction way generalizing document with
  | nil =>
      rfl
  | cons segment way ih =>
      obtain ⟨child, hchild, hnode⟩ := Option.bind_eq_some_iff.1 h
      rw [within_cons new hchild hnode, resolve?, Segment.get?_replace _ hchild,
        Option.bind_some, ih hnode]

theorem within_within
    (first second : Value)
    (h : way.resolve? document = some node) :
    way.within (way.within document first) second = way.within document second := by
  induction way generalizing document with
  | nil =>
      rfl
  | cons segment way ih =>
      obtain ⟨child, hchild, hnode⟩ := Option.bind_eq_some_iff.1 h
      rw [within_cons first hchild hnode, within_cons second hchild hnode,
        within_cons second (Segment.get?_replace _ hchild) (resolve?_within first hnode),
        Segment.replace_replace, ih hnode]

/-- To put back the node that a way leads to changes nothing. -/
theorem within_self
    (h : way.resolve? document = some node) :
    way.within document node = document := by
  induction way generalizing document with
  | nil =>
      exact (Option.some.inj h).symm
  | cons segment way ih =>
      obtain ⟨child, hchild, hnode⟩ := Option.bind_eq_some_iff.1 h
      rw [within_cons node hchild hnode, ih hnode, Segment.replace_self hchild]

theorem resolve?_append
    (way rest : Location)
    (document : Value) :
    (way ++ rest).resolve? document = (way.resolve? document).bind rest.resolve? := by
  induction way generalizing document with
  | nil =>
      rfl
  | cons segment way ih =>
      rw [List.cons_append, resolve?, resolve?]
      cases segment.get? document with
      | none => rfl
      | some child => exact ih child

/-- Replacement below a way is replacement in the node that it leads to. -/
theorem replace?_append
    (new : Value)
    (h : way.resolve? document = some node) :
    (way ++ rest).replace? new document =
      (rest.replace? new node).map (way.within document) := by
  induction way generalizing document with
  | nil =>
      obtain rfl := Option.some.inj h
      exact Option.map_id'.symm
  | cons segment way ih =>
      obtain ⟨child, hchild, hnode⟩ := Option.bind_eq_some_iff.1 h
      rw [List.cons_append, replace?, hchild, Option.bind_some, ih hnode, Option.map_map]
      congr 1
      funext changed
      exact (within_cons changed hchild hnode).symm

/-- A change below a way in two parts is a change below the second part, put back below the first. -/
theorem within_append
    {found : Value}
    (new : Value)
    (h : way.resolve? document = some node)
    (hrest : rest.resolve? node = some found) :
    (way ++ rest).within document new = way.within document (rest.within node new) := by
  rw [within, replace?_append new h, replace?_of_resolve? new hrest]
  rfl

/-- Removal below a way is removal from the node that it leads to. -/
theorem remove?_append
    (hrest : rest ≠ [])
    (h : way.resolve? document = some node) :
    (way ++ rest).remove? document =
      (rest.remove? node).map fun (removed, left) => (removed, way.within document left) := by
  induction way generalizing document with
  | nil =>
      obtain rfl := Option.some.inj h
      exact Option.map_id'.symm
  | cons segment way ih =>
      obtain ⟨child, hchild, hnode⟩ := Option.bind_eq_some_iff.1 h
      have hne : way ++ rest ≠ [] := by simp [hrest]
      obtain ⟨next, more, hcons⟩ := List.exists_cons_of_ne_nil hne
      have hremove : remove? (segment :: (way ++ rest)) document =
          (remove? (way ++ rest) child).map fun (removed, left) =>
            (removed, segment.replace left document) := by
        rw [hcons, remove?, hchild, Option.bind_some]
      rw [List.cons_append, hremove, ih hnode, Option.map_map]
      congr 1
      funext removed
      exact congrArg (Prod.mk removed.1) (within_cons removed.2 hchild hnode).symm

theorem compare_append
    (way a b : Location) :
    compare (way ++ a) (way ++ b) = compare a b := by
  induction way with
  | nil =>
      rfl
  | cons segment way ih =>
      rw [List.cons_append, List.cons_append, compare_cons_self]
      exact ih

theorem withoutRepeats_map
    {f : Location → Location}
    (hf : ∀ a b, f a = f b → a = b)
    (locations : List Location) :
    withoutRepeats (locations.map f) = (withoutRepeats locations).map f := by
  fun_induction withoutRepeats locations with
  | case1 => rfl
  | case2 => rfl
  | case3 a rest ih =>
      rw [List.map_cons, List.map_cons, withoutRepeats, if_pos rfl]
      exact ih
  | case4 a b rest hne ih =>
      have hmapped : f a ≠ f b := fun heq => hne (hf a b heq)
      rw [List.map_cons, List.map_cons, withoutRepeats, if_neg hmapped, List.map_cons]
      exact congrArg _ ih

variable {way : Location}

theorem sorted_map_append
    (way : Location)
    (locations : List Location) :
    sorted (locations.map (way ++ ·)) = (sorted locations).map (way ++ ·) := by
  have horder : ∀ a ∈ locations, ∀ b ∈ locations,
      notAfter a b = notAfter (way ++ a) (way ++ b) := fun a _ b _ => by
    rw [notAfter, notAfter, compare_append]
  exact (List.map_mergeSort horder).symm

theorem ascending_map_append
    (way : Location)
    (locations : List Location) :
    ascending (locations.map (way ++ ·)) = (ascending locations).map (way ++ ·) := by
  rw [ascending, sorted_map_append, withoutRepeats_map fun _ _ => List.append_cancel_left]
  rfl

theorem descending_map_append
    (way : Location)
    (locations : List Location) :
    descending (locations.map (way ++ ·)) = (descending locations).map (way ++ ·) := by
  have horder : ∀ a ∈ locations, ∀ b ∈ locations,
      notAfter b a = notAfter (way ++ b) (way ++ a) := fun a _ b _ => by
    rw [notAfter, notAfter, compare_append]
  rw [descending, ← List.map_mergeSort horder,
    withoutRepeats_map fun _ _ => List.append_cancel_left]
  rfl

end Location
end FieldQuery
