import FieldQuery.Location.Removal
import FieldQuery.Proofs.Children
import FieldQuery.Proofs.Edits
import FieldQuery.Proofs.LocationOrder
import FieldQuery.Proofs.Matching
import FieldQuery.Proofs.Parting

/-!
# Removal one by one is removal at once

Nodes are removed one after another from a document that changes under way.
Since the last location comes first, what is removed stands neither in front
of a later target nor above one: the document is at every moment the original
one without the nodes removed so far, and each target is still where it was.
-/

namespace FieldQuery

namespace Value

section Around

variable {gone other : Location → Bool}

mutual

theorem without_nothing :
    (value : Value) →
    value.without (fun _ => false) = value
  | list items => by rw [without, itemsWithout_nothing 0 items]
  | map members => by rw [without, membersWithout_nothing members]
  | null => rfl
  | bool _ => rfl
  | number _ => rfl
  | text _ => rfl

theorem itemsWithout_nothing
    (i : Nat) :
    (items : List Value) →
    itemsWithout (fun _ => false) i items = items
  | [] => rfl
  | item :: rest => by
      have hitem : item.without (beneath (.index i) fun _ => false) = item := without_nothing item
      rw [itemsWithout, if_neg Bool.false_ne_true, hitem, itemsWithout_nothing (i + 1) rest]

theorem membersWithout_nothing :
    (members : List (String × Value)) →
    membersWithout (fun _ => false) members = members
  | [] => rfl
  | (name, value) :: rest => by
      have hvalue : value.without (beneath (.member name) fun _ => false) = value :=
        without_nothing value
      rw [membersWithout, if_neg Bool.false_ne_true, hvalue, membersWithout_nothing rest]

end

theorem itemsWithout_append
    (i : Nat)
    (front rest : List Value) :
    itemsWithout gone i (front ++ rest) =
      itemsWithout gone i front ++ itemsWithout gone (i + front.length) rest := by
  induction front generalizing i with
  | nil => rfl
  | cons item front ih =>
      have hlength : i + (item :: front).length = i + 1 + front.length := by
        rw [List.length_cons]
        omega
      rw [List.cons_append, itemsWithout, itemsWithout, ih, hlength]
      split <;> rfl

/-- Only what is gone from the elements themselves matters. -/
theorem itemsWithout_congr
    {i : Nat}
    {items : List Value}
    (h : ∀ j way, i ≤ j → j < i + items.length →
      gone (.index j :: way) = other (.index j :: way)) :
    itemsWithout gone i items = itemsWithout other i items := by
  induction items generalizing i with
  | nil => rfl
  | cons item rest ih =>
      have hfirst : beneath (.index i) gone = beneath (.index i) other := by
        funext way
        exact h i way (Nat.le_refl i) (by simp)
      have hrest : itemsWithout gone (i + 1) rest = itemsWithout other (i + 1) rest := by
        refine ih fun j way hle hlt => h j way (by omega) ?_
        rw [List.length_cons]
        omega
      rw [itemsWithout, itemsWithout, h i [] (Nat.le_refl i) (by simp), hfirst, hrest]

theorem membersWithout_append
    (front rest : List (String × Value)) :
    membersWithout gone (front ++ rest) =
      membersWithout gone front ++ membersWithout gone rest := by
  induction front with
  | nil => rfl
  | cons member front ih =>
      rw [List.cons_append, membersWithout, membersWithout, ih]
      split <;> rfl

/-- Only what is gone from the members themselves matters. -/
theorem membersWithout_congr
    {members : List (String × Value)}
    (h : ∀ member ∈ members, ∀ way,
      gone (.member member.1 :: way) = other (.member member.1 :: way)) :
    membersWithout gone members = membersWithout other members := by
  induction members with
  | nil => rfl
  | cons member rest ih =>
      have hmember := h member List.mem_cons_self
      have hfirst : beneath (.member member.1) gone = beneath (.member member.1) other := by
        funext way
        exact hmember way
      rw [membersWithout, membersWithout, hmember [], hfirst,
        ih fun member hmem => h member (List.mem_cons_of_mem _ hmem)]

theorem names_membersWithout_subset
    {name : String}
    {members : List (String × Value)}
    (h : name ∈ Members.names (membersWithout gone members)) :
    name ∈ Members.names members := by
  induction members with
  | nil => exact h
  | cons member rest ih =>
      rw [membersWithout] at h
      split at h
      · exact List.mem_cons_of_mem _ (ih h)
      · rcases List.mem_cons.1 h with rfl | hrest
        · exact List.mem_cons_self
        · exact List.mem_cons_of_mem _ (ih hrest)

/-- A list around one of its elements, in front of which nothing is gone. -/
theorem without_list_around
    {front : List Value}
    (item : Value)
    (rest : List Value)
    (hfront : ∀ j way, j < front.length → gone (.index j :: way) = false) :
    (list (front ++ item :: rest)).without gone =
      list (front ++ ((if gone [.index front.length] then [] else
        [item.without (beneath (.index front.length) gone)]) ++
          itemsWithout gone (front.length + 1) rest)) := by
  have hkept : itemsWithout gone 0 front = front :=
    calc
      itemsWithout gone 0 front = itemsWithout (fun _ => false) 0 front :=
        itemsWithout_congr fun j way _ hj => hfront j way (by omega)
      _ = front := itemsWithout_nothing 0 front
  rw [without, itemsWithout_append, hkept, itemsWithout, Nat.zero_add]
  split <;> rfl

/-- A map around one of its members. -/
theorem without_map_around
    (front rest : List (String × Value))
    (name : String)
    (value : Value) :
    (map (front ++ (name, value) :: rest)).without gone =
      map (membersWithout gone front ++ ((if gone [.member name] then [] else
        [(name, value.without (beneath (.member name) gone))]) ++
          membersWithout gone rest)) := by
  rw [without, membersWithout_append, membersWithout]
  split <;> rfl

/-- A value with a hole under a segment, to be filled with a child or left empty. -/
structure Hole
    (segment : Segment)
    (fill : Option Value → Value) : Prop where
  get? : ∀ child, segment.get? (fill (some child)) = some child
  replace : ∀ child new, segment.replace new (fill (some child)) = fill (some new)
  detach? : ∀ child, segment.detach? (fill (some child)) = some (child, fill none)

theorem hole_list
    (front rest : List Value) :
    Hole (.index front.length) fun child => list (front ++ (child.toList ++ rest)) where
  get? child := by simp [Segment.get?]
  replace child new := by simp [Segment.replace]
  detach? child := by simp [Segment.detach?, List.eraseIdx_append_of_length_le]

theorem hole_map
    {name : String}
    {front : List (String × Value)}
    (rest : List (String × Value))
    (h : name ∉ Members.names front) :
    Hole (.member name) fun child =>
      map (front ++ ((child.map (Prod.mk name)).toList ++ rest)) where
  get? child := Members.get?_behind h
  replace child new := congrArg map (Members.replace_behind new h)
  detach? child := by
    have hget := @Members.get?_behind _ _ _ rest child h
    have herase := @Members.erase_behind _ _ _ rest child h
    simp [Segment.detach?, hget, herase]

/--
Around the child of a segment, a value is the same without several sets of
locations that differ below the segment only, if none of them comes before it.
-/
theorem exists_hole
    {value child : Value}
    {segment : Segment}
    (h : value.WellFormed)
    (hchild : segment.get? value = some child)
    (hbefore : ∀ way, gone way = true → (Location.compare [segment] way).isLE = true) :
    ∃ fill,
      Hole segment fill ∧
      ∀ other : Location → Bool, (∀ way, way.head? ≠ some segment → other way = gone way) →
        value.without other =
          fill (if other [segment] then none else some (child.without (beneath segment other))) := by
  cases segment with
  | member name =>
      cases h with
      | map hnames hmembers =>
          obtain ⟨front, rest, rfl, hfront⟩ := Members.exists_split_of_get? hchild
          have hdistinct : name ∉ Members.names (membersWithout gone front) :=
            fun hmem => hfront (names_membersWithout_subset hmem)
          have hrest : name ∉ Members.names rest := by
            rw [Members.names, List.map_append, List.map_cons] at hnames
            exact (List.nodup_cons.1 (List.nodup_append.1 hnames).2.1).1
          refine ⟨_, hole_map (membersWithout gone rest) hdistinct, ?_⟩
          intro other hother
          have hsame {members : List (String × Value)} (hname : name ∉ Members.names members) :
              membersWithout other members = membersWithout gone members := by
            refine membersWithout_congr fun member hmem way => hother _ ?_
            rintro ⟨rfl⟩
            exact hname (List.mem_map_of_mem hmem)
          rw [without_map_around, hsame hfront, hsame hrest]
          split <;> rfl
      | _ => cases hchild
  | index i =>
      cases h with
      | list hitems =>
          rename_i items
          obtain ⟨front, rest, rfl, rfl⟩ : ∃ front rest, items = front ++ child :: rest ∧
              front.length = i := by
            obtain ⟨hi, hget⟩ := List.getElem?_eq_some_iff.1 hchild
            refine ⟨items.take i, items.drop (i + 1), ?_, by simp [Nat.le_of_lt hi]⟩
            rw [← hget, ← List.drop_eq_getElem_cons hi, List.take_append_drop]
          refine ⟨_, hole_list front (itemsWithout gone (front.length + 1) rest), ?_⟩
          intro other hother
          have hfront (j : Nat) (way : Location) (hj : j < front.length) :
              other (.index j :: way) = false := by
            have hne : (Segment.index j :: way).head? ≠ some (.index front.length) := by
              rintro ⟨rfl⟩
              exact Nat.lt_irrefl _ hj
            rw [hother _ hne, ← Bool.not_eq_true]
            intro hgone
            have hle := hbefore _ hgone
            have hgt : Segment.compare (.index front.length) (.index j) = .gt :=
              Nat.compare_eq_gt.2 hj
            rw [Location.compare, hgt] at hle
            cases hle
          have hrest : itemsWithout other (front.length + 1) rest =
              itemsWithout gone (front.length + 1) rest := by
            refine itemsWithout_congr fun j way hj _ => hother _ ?_
            rintro ⟨rfl⟩
            exact Nat.lt_irrefl _ hj
          rw [without_list_around child rest hfront, hrest]
          split <;> rfl
      | _ => cases hchild

end Around

end Value

namespace Location

/-- A location comes no later than the ones below it. -/
theorem isLE_compare_singleton
    (segment : Segment)
    (way : Location) :
    (compare [segment] (segment :: way)).isLE = true := by
  rw [compare_cons_self]
  cases way <;> rfl

/--
If all that is gone from a document comes after a location, the node at the
location can still be removed, and then it is gone as well.
-/
theorem remove?_without
    {gone : Location → Bool}
    {way : Location}
    {document node : Value}
    (h : document.WellFormed)
    (hne : way ≠ [])
    (hnode : way.resolve? document = some node)
    (hafter : ∀ other, gone other = true → compare way other = .lt) :
    ∃ removed,
      way.remove? (document.without gone) =
        some (removed, document.without fun other => other = way || gone other) := by
  induction way generalizing document gone with
  | nil => exact absurd rfl hne
  | cons segment rest ih =>
      obtain ⟨child, hchild, hrest⟩ := Option.bind_eq_some_iff.1 hnode
      have hbefore (other : Location) (hgone : gone other = true) :
          (compare [segment] other).isLE = true := by
        have hlt := Std.TransCmp.lt_of_isLE_of_lt (isLE_compare_singleton segment rest)
          (hafter other hgone)
        rw [hlt]
        rfl
      obtain ⟨fill, hhole, hfill⟩ := Value.exists_hole h hchild hbefore
      have hkept : gone [segment] = false := by
        rw [← Bool.not_eq_true]
        intro hgone
        have hlt := hafter _ hgone
        rw [compare_cons_self] at hlt
        cases rest <;> cases hlt
      have hwithout := hfill gone fun _ _ => rfl
      rw [hkept, if_neg Bool.false_ne_true] at hwithout
      have hnew := hfill (fun other => other = segment :: rest || gone other) fun other hhead => by
        have hother : other ≠ segment :: rest := fun heq => hhead (by rw [heq, List.head?_cons])
        simp [hother]
      rw [hwithout, hnew]
      cases rest with
      | nil =>
          refine ⟨child.without (Value.beneath segment gone), ?_⟩
          rw [remove?, hhole.detach?]
          simp
      | cons next more =>
          have hbeneath (other : Location)
              (hgone : Value.beneath segment gone other = true) :
              compare (next :: more) other = .lt := by
            rw [← compare_cons_self segment]
            exact hafter _ hgone
          obtain ⟨removed, hremoved⟩ := ih (h.of_mem_children (h.mem_children_iff.2 hchild))
            (List.cons_ne_nil _ _) hrest hbeneath
          have hsame : (Value.beneath segment fun other =>
              decide (other = segment :: next :: more) || gone other) =
                fun other => decide (other = next :: more) || Value.beneath segment gone other := by
            funext other
            simp [Value.beneath]
          refine ⟨removed, ?_⟩
          rw [remove?, hhole.get?, Option.bind_some, hremoved, Option.map_some, hsame]
          simp [hhole.replace, hkept]

end Location

namespace Query

/--
Removal from the last location to the first: what was removed before is gone,
and so is everything in the end.
-/
theorem removeAt_without
    {gone : Location → Bool}
    {document : Value}
    {locations : List Location}
    (h : document.WellFormed)
    (hdescending : locations.Pairwise fun a b => Location.compare b a = .lt)
    (hnode : ∀ location ∈ locations, location ≠ [] ∧ (location.resolve? document).isSome)
    (hafter : ∀ location ∈ locations, ∀ other, gone other = true →
      Location.compare location other = .lt) :
    removeAt locations (document.without gone) =
      (document.without fun other => other ∈ locations || gone other, locations.length) := by
  induction locations generalizing gone with
  | nil =>
      simp [removeAt]
  | cons location rest ih =>
      obtain ⟨hfirst, hrest⟩ := List.pairwise_cons.1 hdescending
      obtain ⟨hne, hresolve⟩ := hnode location List.mem_cons_self
      obtain ⟨node, hnode'⟩ := Option.isSome_iff_exists.1 hresolve
      obtain ⟨removed, hremoved⟩ :=
        Location.remove?_without h hne hnode' (hafter location List.mem_cons_self)
      have hlater : ∀ other ∈ rest, ∀ earlier,
          (decide (earlier = location) || gone earlier) = true →
            Location.compare other earlier = .lt := by
        intro other hmem earlier hearlier
        rw [Bool.or_eq_true, decide_eq_true_eq] at hearlier
        rcases hearlier with rfl | hgone
        · exact hfirst other hmem
        · exact hafter other (List.mem_cons_of_mem _ hmem) earlier hgone
      have hleft := ih hrest (fun other hmem => hnode other (List.mem_cons_of_mem _ hmem)) hlater
      have hsame : (fun other => decide (other ∈ rest) || (decide (other = location) || gone other)) =
          fun other => decide (other ∈ location :: rest) || gone other := by
        funext other
        rw [← Bool.or_assoc, Bool.or_comm (decide (other ∈ rest))]
        simp
      rw [hsame] at hleft
      rw [removeAt_cons rest _ hne, hremoved]
      simp only [hleft, List.length_cons]

/--
A query other than the bare root removes exactly the nodes that it locates,
each of them once, whatever stands between them and however often they are
located.
-/
theorem removeAll_eq_without
    {text : String}
    {query : Query}
    {document : Value}
    (hcompile : Query.compile text = .ok query)
    (hfunction : query.function = none)
    (hselectors : query.selectors ≠ [])
    (hdocument : document.WellFormed) :
    ∃ locations,
      query.locate document = .ok locations ∧
      query.removeAll document =
        .ok (document.without fun location => location ∈ locations, locations.toFinset.card) := by
  obtain ⟨_, _, -, -, -, -, hreads⟩ := Path.reads_of_compile hcompile
  have hlocate : query.locate document =
      .ok ((select query.selectors document).map Prod.fst) := by
    rw [locate, hfunction]
  refine ⟨_, hlocate, ?_⟩
  generalize hlocations : (select query.selectors document).map Prod.fst = locations at hlocate
  have hnode : ∀ location ∈ Location.descending locations,
      location ≠ [] ∧ (location.resolve? document).isSome := by
    intro location hmem
    rw [Location.mem_descending, ← hlocations] at hmem
    constructor
    · rintro rfl
      exact nil_not_mem_select hselectors (Chain.getLast?_ne_descent hreads) document hmem
    · obtain ⟨⟨way, node⟩, hselect, rfl⟩ := List.mem_map.1 hmem
      rw [resolve?_of_mem_select hdocument hselect]
      rfl
  have hnothing : ∀ location ∈ Location.descending locations, ∀ other : Location,
      (fun _ : Location => false) other = true → Location.compare location other = .lt := by
    rintro _ - _ ⟨⟩
  have hremove := removeAt_without hdocument (Location.pairwise_descending locations) hnode hnothing
  simp only [Value.without_nothing, Bool.or_false, Location.mem_descending,
    Location.length_descending] at hremove
  rw [removeAll, hlocate, Except.map, hremove]

/-- Lists of numbers, among them one that is located as such and by its only element. -/
def nestedRows : Value :=
  .map [("rows", .list [.list [.int 1], .list [.int 2, .int 3, .int 4], .int 5])]

/-- The first and the last element of every list. -/
def everyEnd : Query where
  chain := ⟨[.descent, .union [.access (.index 0), .access (.index (-1))]], none⟩
  source := "$..[0,-1]"

/-- A located list goes with its elements, and an only element goes once. -/
theorem removeAll_eq_without_ends :
    Query.compile "$..[0,-1]" = .ok everyEnd ∧
      nestedRows.WellFormed ∧
      (everyEnd.locate nestedRows).map List.length = .ok 6 ∧
      everyEnd.removeAll nestedRows = .ok (.map [("rows", .list [.list [.int 3]])], 5) := by
  have hcompile : Query.compile "$..[0,-1]" = .ok everyEnd := by
    decide +kernel
  have hdocument : nestedRows.WellFormed := by
    simp [nestedRows, Members.names]
  obtain ⟨locations, hlocate, hremove⟩ :=
    removeAll_eq_without hcompile rfl (List.cons_ne_nil _ _) hdocument
  have hfound : locations =
      [[.member "rows", .index 0], [.member "rows", .index 2],
        [.member "rows", .index 0, .index 0], [.member "rows", .index 0, .index 0],
        [.member "rows", .index 1, .index 0], [.member "rows", .index 1, .index 2]] :=
    Except.ok.inj (hlocate.symm.trans (by decide +kernel))
  rw [hremove, hlocate, hfound]
  exact ⟨hcompile, hdocument, rfl, rfl⟩

end Query
end FieldQuery
