import Mathlib.Data.List.Nodup
import FieldQuery.Proofs.Members
import FieldQuery.Query.Selector
import FieldQuery.Value.WellFormed

/-!
# Children and descendants

In a well-formed value, a segment identifies a child exactly if the child is
listed with it, and no segment is listed twice. From this the same follows
for everything below the value: a location leads to a node exactly if the
node is among the descendants with that location, and it is there only once.
-/

namespace FieldQuery

namespace Members

variable {α : Type}
variable {name : String}
variable {value : α}

/-- Among members of different names, a name has the value that it is listed with. -/
theorem mem_iff_get?
    {members : Members α}
    (h : members.names.Nodup) :
    (name, value) ∈ members ↔ members.get? name = some value := by
  induction members with
  | nil =>
      simp [get?]
  | cons entry rest ih =>
      obtain ⟨key, old⟩ := entry
      obtain ⟨hkey, hrest⟩ := List.nodup_cons.1 h
      by_cases heq : key = name
      · subst heq
        have hnot : (key, value) ∉ rest := fun hmem => hkey (List.mem_map.2 ⟨_, hmem, rfl⟩)
        simp [get?, hnot, eq_comm]
      · have hne : name ≠ key := fun hname => heq hname.symm
        simp [get?, heq, hne, ih hrest]

end Members

namespace Value

variable {value child : Value}
variable {segment : Segment}

/-- The children of a well-formed value are what its segments identify. -/
theorem WellFormed.mem_children_iff
    (h : value.WellFormed) :
    (segment, child) ∈ value.children ↔ segment.get? value = some child := by
  cases h with
  | list hitems =>
      cases segment with
      | member name => simp [children, Segment.get?]
      | index i => simp [children, Segment.get?, List.mem_zipIdx_iff_getElem?]
  | map hnames hmembers =>
      cases segment with
      | member name => simp [children, Segment.get?, ← Members.mem_iff_get? hnames]
      | index i => simp [children, Segment.get?]
  | _ => cases segment <;> simp [children, Segment.get?]

/-- No segment leads to two children of a well-formed value. -/
theorem WellFormed.nodup_children
    (h : value.WellFormed) :
    (value.children.map Prod.fst).Nodup := by
  cases h with
  | list hitems =>
      rename_i items
      have hsegments : (Value.list items).children.map Prod.fst =
          (List.range' 0 items.length).map Segment.index := by
        rw [← List.zipIdx_map_snd 0 items, children, List.map_map, List.map_map]
        rfl
      rw [hsegments]
      exact (List.nodup_range' 1).map fun i j hij => Segment.index.inj hij
  | map hnames hmembers =>
      rename_i members
      have hsegments : (Value.map members).children.map Prod.fst =
          (Members.names members).map Segment.member := by
        simp [children, Members.names, Function.comp_def]
      rw [hsegments]
      exact hnames.map fun a b hab => Segment.member.inj hab
  | _ => exact List.nodup_nil

theorem WellFormed.of_mem_children
    (h : value.WellFormed)
    (hchild : (segment, child) ∈ value.children) :
    child.WellFormed := by
  cases h with
  | list hitems =>
      obtain ⟨⟨item, i⟩, hitem, heq⟩ := List.mem_map.1 hchild
      obtain ⟨-, rfl⟩ := Prod.mk.inj heq
      exact hitems item (List.fst_mem_of_mem_zipIdx hitem)
  | map hnames hmembers =>
      obtain ⟨member, hmember, heq⟩ := List.mem_map.1 hchild
      obtain ⟨-, rfl⟩ := Prod.mk.inj heq
      exact hmembers member hmember
  | _ => cases hchild

/-- What holds of a value whose children it holds of holds of every well-formed value. -/
@[elab_as_elim]
theorem WellFormed.ofChildren
    {motive : Value → Prop}
    (h : value.WellFormed)
    (step : ∀ value : Value,
      value.WellFormed →
      (∀ child ∈ value.children, motive child.2) →
      motive value) :
    motive value := by
  induction h with
  | list hitems ih =>
      refine step _ (.list hitems) ?_
      intro child hchild
      obtain ⟨⟨item, i⟩, hitem, rfl⟩ := List.mem_map.1 hchild
      exact ih item (List.fst_mem_of_mem_zipIdx hitem)
  | map hnames hmembers ih =>
      refine step _ (.map hnames hmembers) ?_
      intro child hchild
      obtain ⟨member, hmember, rfl⟩ := List.mem_map.1 hchild
      exact ih member hmember
  | null => exact step _ .null (by simp [children])
  | bool => exact step _ .bool (by simp [children])
  | number => exact step _ .number (by simp [children])
  | text => exact step _ .text (by simp [children])

/-- What lies below the items of a list. -/
theorem itemDescendants_eq
    (i : Nat)
    (items : List Value) :
    itemDescendants i items =
      (items.zipIdx i).flatMap fun (item, j) =>
        item.descendants.map fun (way, node) => (.index j :: way, node) := by
  induction items generalizing i with
  | nil =>
      rfl
  | cons item rest ih =>
      rw [itemDescendants, ih, List.zipIdx_cons, List.flatMap_cons]

theorem memberDescendants_eq
    (members : List (String × Value)) :
    memberDescendants members =
      members.flatMap fun (name, value) =>
        value.descendants.map fun (way, node) => (.member name :: way, node) := by
  induction members with
  | nil =>
      rfl
  | cons member rest ih =>
      rw [memberDescendants, ih, List.flatMap_cons]

/-- The descendants of a value are the value and the descendants of its children. -/
theorem descendants_eq
    (value : Value) :
    value.descendants =
      ([], value) :: value.children.flatMap fun (segment, child) =>
        child.descendants.map fun (way, node) => (segment :: way, node) := by
  cases value with
  | list items =>
      rw [descendants, itemDescendants_eq, children, List.flatMap_map]
  | map members =>
      rw [descendants, memberDescendants_eq, children, List.flatMap_map]
  | _ => rfl

/-- The descendants of a well-formed value are what its locations lead to. -/
theorem WellFormed.mem_descendants_iff
    {node : Value}
    {way : Location}
    (h : value.WellFormed) :
    (way, node) ∈ value.descendants ↔ way.resolve? value = some node := by
  induction way generalizing value with
  | nil =>
      rw [descendants_eq, Location.resolve?]
      simp [eq_comm]
  | cons segment way ih =>
      have hbelow : (segment :: way, node) ∈ value.descendants ↔
          ∃ child, (segment, child) ∈ value.children ∧ (way, node) ∈ child.descendants := by
        rw [descendants_eq]
        simp
      rw [hbelow, Location.resolve?, Option.bind_eq_some_iff]
      constructor
      · rintro ⟨child, hchild, hnode⟩
        exact ⟨child, h.mem_children_iff.1 hchild, (ih (h.of_mem_children hchild)).1 hnode⟩
      · rintro ⟨child, hget, hnode⟩
        have hchild := h.mem_children_iff.2 hget
        exact ⟨child, hchild, (ih (h.of_mem_children hchild)).2 hnode⟩

/-- Every location leads to only one of the descendants of a well-formed value. -/
theorem WellFormed.nodup_descendants
    (h : value.WellFormed) :
    (value.descendants.map Prod.fst).Nodup := by
  refine h.ofChildren ?_
  intro value hvalue ih
  have hlocations : value.descendants.map Prod.fst =
      [] :: value.children.flatMap fun child =>
        (child.2.descendants.map Prod.fst).map (child.1 :: ·) := by
    rw [descendants_eq, List.map_cons, List.map_flatMap]
    simp [Function.comp_def]
  rw [hlocations, List.nodup_cons, List.nodup_flatMap]
  refine ⟨by simp, ?_, ?_⟩
  · intro child hchild
    exact (ih child hchild).map fun a b hab => (List.cons.inj hab).2
  · refine (List.pairwise_map.1 hvalue.nodup_children).imp ?_
    intro first second hne location hfirst hsecond
    obtain ⟨a, -, rfl⟩ := List.mem_map.1 hfirst
    obtain ⟨b, -, heq⟩ := List.mem_map.1 hsecond
    exact hne (List.cons.inj heq).1.symm

end Value
end FieldQuery
