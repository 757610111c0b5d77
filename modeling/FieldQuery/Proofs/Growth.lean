import FieldQuery.Proofs.Appending
import FieldQuery.Proofs.Outlines

/-!
# Lists that grow by one element

When one list grows, it has one more element, and every other node keeps its
place and its outline. The locations of an append are all found before and
visited in ascending order, so this holds of the whole append as well: a list
that was located grows once, whatever grows around it or inside it, and the
elements that are new are not visited.
-/

namespace FieldQuery

namespace Location

variable {way location : Location}
variable {document node value : Value}
variable {items : List Value}

/-- When a list grows, every other node keeps its outline. -/
theorem outline_within_push
    (hlist : way.resolve? document = some (.list items))
    (hne : location ≠ way)
    (hnode : location.resolve? document = some node) :
    ∃ kept,
      location.resolve? (way.within document (.list (items ++ [value]))) = some kept ∧
      kept.outline = node.outline := by
  by_cases hbelow : way <+: location
  · have hapart : ¬ location <+: way := fun hfront =>
      hne (hfront.eq_of_length_le hbelow.length_le)
    exact ⟨node, resolve?_within_push hlist hapart hnode, rfl⟩
  · have houtline := outline_of_replace? hbelow (replace?_of_resolve? (.list (items ++ [value])) hlist)
    rw [hnode, Option.map_some] at houtline
    exact Option.map_eq_some_iff.1 houtline

/-- The element that a list grows by is found behind the other ones. -/
theorem resolve?_pushed
    (value : Value)
    (hlist : way.resolve? document = some (.list items)) :
    (way ++ [Segment.index items.length]).resolve? (way.within document (.list (items ++ [value]))) =
      some value := by
  rw [resolve?_append, resolve?_within _ hlist, Option.bind_some, resolve?, Segment.get?,
    List.getElem?_concat_length]
  rfl

/-- Nothing is found behind the elements of a list. -/
theorem resolve?_behind
    (further : Location)
    (hlist : way.resolve? document = some (.list items)) :
    (way ++ Segment.index items.length :: further).resolve? document = none := by
  rw [resolve?_append, hlist, Option.bind_some, resolve?, Segment.get?, List.getElem?_length]
  rfl

/-- A location of a node before a list grew is not part of the way to the new element. -/
theorem apart_of_pushed
    (hlist : way.resolve? document = some (.list items))
    (hnode : location.resolve? document = some node)
    (hlater : compare way location = .lt) :
    ¬ location <+: way ++ [Segment.index items.length] ∧
      ¬ way ++ [Segment.index items.length] <+: location := by
  constructor
  · intro hfront
    rcases List.prefix_concat_iff.1 hfront with rfl | hbelow
    · rw [resolve?_behind [] hlist] at hnode
      cases hnode
    · exact not_prefix_of_lt hlater hbelow
  · rintro ⟨further, rfl⟩
    rw [List.append_assoc, List.singleton_append, resolve?_behind further hlist] at hnode
    cases hnode

end Location

namespace Query

variable {locations : List Location}
variable {document value : Value}

section Visit

variable {visit : Nat → Value → Except QueryError Value}
variable {visited : Nat}
variable {location : Location}
variable {node : Value}

/-- A visit that changes a node goes on in the document with the changed node. -/
theorem visitAt_cons_of_ok
    {changed : Value}
    (rest : List Location)
    (hnode : location.resolve? document = some node)
    (hvisit : visit visited node = .ok changed) :
    visitAt visit visited (location :: rest) document =
      visitAt visit (visited + 1) rest (location.within document changed) := by
  rw [visitAt, hnode]
  simp only [hvisit]
  rw [Location.within]

/-- A visit that refuses a node ends there. -/
theorem visitAt_cons_of_error
    {error : QueryError}
    (rest : List Location)
    (hnode : location.resolve? document = some node)
    (hvisit : visit visited node = .error error) :
    visitAt visit visited (location :: rest) document = (document, .error error) := by
  rw [visitAt, hnode]
  simp only [hvisit]

/-- A visit leaves a node as it is if all that is visited is apart from it. -/
theorem resolve?_visitAt_of_apart
    {way : Location}
    (visit : Nat → Value → Except QueryError Value)
    (visited : Nat)
    (document : Value)
    (hapart : ∀ location ∈ locations, ¬ location <+: way ∧ ¬ way <+: location) :
    way.resolve? (visitAt visit visited locations document).1 = way.resolve? document := by
  induction locations generalizing document visited with
  | nil => rfl
  | cons location rest ih =>
      obtain ⟨⟨hbelow, habove⟩, hrest⟩ := List.forall_mem_cons.1 hapart
      cases hnode : location.resolve? document with
      | none => rw [visitAt, hnode]
      | some node =>
          cases hvisit : visit visited node with
          | error error => rw [visitAt_cons_of_error rest hnode hvisit]
          | ok changed =>
              have hreplace := Location.replace?_of_resolve? changed hnode
              rw [visitAt_cons_of_ok rest hnode hvisit, ih _ _ hrest]
              exact Location.resolve?_of_replace? habove hbelow hreplace

end Visit

/-- An append is refused where it is not made to a list, and never because a location vanished. -/
theorem error_of_visitAt
    {visited : Nat}
    {error : QueryError}
    (horder : locations.Pairwise fun a b => Location.compare a b = .lt)
    (hnodes : ∀ location ∈ locations, ∃ node, location.resolve? document = some node)
    (h : (visitAt (fun _ node => appendTo value node) visited locations document).2 =
      .error error) :
    error = .refused "append target is not a list" := by
  induction locations generalizing document visited with
  | nil => cases h
  | cons way rest ih =>
      obtain ⟨hlater, horder⟩ := List.pairwise_cons.1 horder
      obtain ⟨⟨node, hnode⟩, hnodes⟩ := List.forall_mem_cons.1 hnodes
      by_cases hlist : ∃ items, node = .list items
      · obtain ⟨items, rfl⟩ := hlist
        rw [visitAt_cons_of_ok rest hnode rfl] at h
        refine ih horder (fun location hlocation => ?_) h
        obtain ⟨other, hother⟩ := hnodes location hlocation
        exact ⟨other, Location.resolve?_within_push hnode
          (Location.not_prefix_of_lt (hlater location hlocation)) hother⟩
      · have hrefused : appendTo value node = .error (.refused "append target is not a list") := by
          cases node with
          | list items => exact absurd ⟨items, rfl⟩ hlist
          | _ => rfl
        rw [visitAt_cons_of_error rest hnode hrefused] at h
        exact (Except.error.inj h).symm

/-- What becomes of a node where the lists at some locations grow by a value. -/
structure Grown
    (value : Value)
    (located : Prop)
    (node kept : Value) : Prop where
  /-- A node that is not located keeps its outline. -/
  outline : ¬ located → kept.outline = node.outline
  /-- A located node is a list, and the value is its new last element. -/
  list : located →
    ∃ items elements,
      node = .list items ∧
      kept = .list (elements ++ [value]) ∧
      elements.length = items.length

/-- A list of which the outline and the last element are known. -/
theorem exists_concat
    {kept : Value}
    {n : Nat}
    (houtline : kept.outline = .list (n + 1))
    (hlast : (Segment.index n).get? kept = some value) :
    ∃ elements, kept = .list (elements ++ [value]) ∧ elements.length = n := by
  cases kept with
  | list items =>
      have hlength : items.length = n + 1 := Outline.list.inj houtline
      have hget : items.getLast? = some value := by
        rw [List.getLast?_eq_getElem?, hlength]
        exact hlast
      obtain ⟨elements, rfl⟩ := List.getLast?_eq_some_iff.1 hget
      refine ⟨elements, rfl, ?_⟩
      rw [List.length_append] at hlength
      exact Nat.succ.inj hlength
  | _ => cases hlast

/-- A list that has grown still ends with the value once the lists at later locations have grown. -/
theorem exists_concat_of_visitAt
    {way : Location}
    {items : List Value}
    {visited : Nat}
    {kept : Value}
    (hlist : way.resolve? document = some (.list items))
    (hlater : ∀ location ∈ locations, Location.compare way location = .lt)
    (hnodes : ∀ location ∈ locations, ∃ node, location.resolve? document = some node)
    (hkept : way.resolve? (visitAt (fun _ node => appendTo value node) visited locations
      (way.within document (.list (items ++ [value])))).1 = some kept)
    (houtline : kept.outline = (Value.list (items ++ [value])).outline) :
    ∃ elements, kept = .list (elements ++ [value]) ∧ elements.length = items.length := by
  -- what is visited later was there before, so it is apart from the new element
  have hapart : ∀ location ∈ locations,
      ¬ location <+: way ++ [Segment.index items.length] ∧
        ¬ way ++ [Segment.index items.length] <+: location := by
    intro location hmem
    obtain ⟨node, hnode⟩ := hnodes location hmem
    exact Location.apart_of_pushed hlist hnode (hlater location hmem)
  have hlast := resolve?_visitAt_of_apart (fun _ node => appendTo value node) visited
    (way.within document (.list (items ++ [value]))) hapart
  rw [Location.resolve?_pushed value hlist, Location.resolve?_append, hkept,
    Option.bind_some] at hlast
  obtain ⟨last, hget, hlast⟩ := Option.bind_eq_some_iff.1 hlast
  obtain rfl := Option.some.inj hlast
  rw [Value.outline, List.length_append] at houtline
  exact exists_concat houtline hget

/--
Appending at ascending locations of lists, one after the other: each list
grows by the value, and every other node keeps its outline.
-/
theorem visitAt_lists
    {visited : Nat}
    (horder : locations.Pairwise fun a b => Location.compare a b = .lt)
    (hlists : ∀ location ∈ locations, ∃ items, location.resolve? document = some (.list items)) :
    ∃ changed,
      visitAt (fun _ node => appendTo value node) visited locations document =
        (changed, .ok (visited + locations.length)) ∧
      ∀ way node, way.resolve? document = some node →
        ∃ kept, way.resolve? changed = some kept ∧ Grown value (way ∈ locations) node kept := by
  induction locations generalizing document visited with
  | nil =>
      refine ⟨document, rfl, fun way node hnode => ⟨node, hnode, ?_, ?_⟩⟩
      · exact fun _ => rfl
      · exact fun hmem => absurd hmem List.not_mem_nil
  | cons first rest ih =>
      have hfirst : first ∉ rest := (List.nodup_cons.1 (Location.nodup_of_pairwise_lt horder)).1
      obtain ⟨hlater, horder⟩ := List.pairwise_cons.1 horder
      obtain ⟨⟨items, hlist⟩, hrest⟩ := List.forall_mem_cons.1 hlists
      have hkept : ∀ location ∈ rest, ∀ node, location.resolve? document = some node →
          location.resolve? (first.within document (.list (items ++ [value]))) = some node :=
        fun location hmem node hnode => Location.resolve?_within_push hlist
          (Location.not_prefix_of_lt (hlater location hmem)) hnode
      obtain ⟨changed, hvisit, hgrown⟩ := @ih (first.within document (.list (items ++ [value])))
        (visited + 1) horder fun location hmem => by
          obtain ⟨elements, helements⟩ := hrest location hmem
          exact ⟨elements, hkept location hmem _ helements⟩
      refine ⟨changed, ?_, fun way node hnode => ?_⟩
      · rw [visitAt_cons_of_ok rest hlist rfl, hvisit, List.length_cons, Nat.add_assoc,
          Nat.add_comm 1]
      by_cases hway : way = first
      · subst hway
        obtain rfl : node = .list items := Option.some.inj (hnode.symm.trans hlist)
        obtain ⟨kept, hresult, hsame⟩ := hgrown way _ (Location.resolve?_within _ hlist)
        have hnodes : ∀ location ∈ rest, ∃ node, location.resolve? document = some node := by
          intro location hmem
          obtain ⟨others, hothers⟩ := hrest location hmem
          exact ⟨_, hothers⟩
        obtain ⟨elements, rfl, hlength⟩ := exists_concat_of_visitAt hlist hlater hnodes
          (by rw [hvisit]; exact hresult) (hsame.outline hfirst)
        refine ⟨_, hresult, fun hother => absurd List.mem_cons_self hother, fun _ => ?_⟩
        exact ⟨items, elements, rfl, rfl, hlength⟩
      · obtain ⟨middle, hmiddle, hsame⟩ := Location.outline_within_push hlist hway hnode
        obtain ⟨kept, hresult, hnext⟩ := hgrown way middle hmiddle
        refine ⟨kept, hresult, ?_, ?_⟩
        · intro hother
          exact (hnext.outline fun hmem => hother (List.mem_cons_of_mem _ hmem)).trans hsame
        · intro hmem
          have hlater := List.mem_of_ne_of_mem hway hmem
          obtain rfl := Option.some.inj ((hkept way hlater node hnode).symm.trans hmiddle)
          exact hnext.list hlater

/--
An append that succeeds makes each list that was matched grow by the value,
and every other node keeps its outline.
-/
theorem grown_of_append
    {query : Query}
    {changed : Value}
    {count : Nat}
    (hdocument : document.WellFormed)
    (h : query.append document value = (changed, .ok count)) :
    ∃ locations,
      query.locate document = .ok locations ∧
      count = locations.toFinset.card ∧
      ∀ way node, way.resolve? document = some node →
        ∃ kept,
          way.resolve? changed = some kept ∧
          Grown value (way ∈ locations) node kept := by
  rw [append, forEach] at h
  cases hlocate : query.locate document with
  | error error =>
      rw [hlocate] at h
      cases (Prod.mk.inj h).2
  | ok locations =>
      simp only [hlocate] at h
      have horder := Location.pairwise_ascending locations
      have hnodes : ∀ location ∈ Location.ascending locations,
          ∃ node, location.resolve? document = some node := by
        intro location hmem
        exact exists_resolve?_of_locate hdocument hlocate (Location.mem_ascending.1 hmem)
      have hlists := (exists_visitAt_eq_ok_iff horder hnodes).1 ⟨count, congrArg Prod.snd h⟩
      obtain ⟨result, hresult, hgrown⟩ := @visitAt_lists _ document value 0 horder hlists
      obtain ⟨rfl, hcount⟩ := Prod.mk.inj (hresult.symm.trans h)
      simp only [Location.mem_ascending] at hgrown
      refine ⟨locations, rfl, ?_, hgrown⟩
      rw [← Except.ok.inj hcount, Nat.zero_add, Location.length_ascending]

/--
An append succeeds exactly if all matches are lists, and otherwise says that
one is not. If it succeeds, every node is where it was: each list that was
matched has the value as one more element at its end, however often it was
matched and whatever it contains, and every other node has kept its outline.
-/
theorem append_grows_matches
    {query : Query}
    {document : Value}
    (hfunction : query.function = none)
    (hdocument : document.WellFormed)
    (value : Value) :
    ∃ locations,
      query.locate document = .ok locations ∧
      ((∃ count, (query.append document value).2 = .ok count) ↔
        ∀ way ∈ locations, ∃ items, way.resolve? document = some (.list items)) ∧
      (∀ error, (query.append document value).2 = .error error →
        error = .refused "append target is not a list") ∧
      ∀ changed count, query.append document value = (changed, .ok count) →
        count = locations.toFinset.card ∧
        ∀ way node, way.resolve? document = some node →
          ∃ kept,
            way.resolve? changed = some kept ∧
            Grown value (way ∈ locations) node kept := by
  obtain ⟨locations, hlocate⟩ : ∃ locations, query.locate document = .ok locations :=
    ⟨_, locate_eq_ok document hfunction⟩
  have hnodes : ∀ location ∈ Location.ascending locations,
      ∃ node, location.resolve? document = some node := by
    intro location hmem
    exact exists_resolve?_of_locate hdocument hlocate (Location.mem_ascending.1 hmem)
  have horder := Location.pairwise_ascending locations
  have hsuccess := @exists_visitAt_eq_ok_iff document value _ 0 horder hnodes
  have happend : query.append document value =
      visitAt (fun _ node => appendTo value node) 0 (Location.ascending locations) document := by
    rw [append, forEach, hlocate]
  refine ⟨locations, hlocate, ?_, ?_, ?_⟩
  · simp only [happend, hsuccess, Location.mem_ascending]
  · intro error hfailure
    rw [happend] at hfailure
    exact error_of_visitAt horder hnodes hfailure
  · intro changed count hchanged
    obtain ⟨found, hfound, hgrown⟩ := grown_of_append hdocument hchanged
    obtain rfl := Except.ok.inj (hlocate.symm.trans hfound)
    exact hgrown

/-- Empty lists, one of them in another one. -/
def emptyRows : Value :=
  .map [("a", .list [.list [.list []], .list []])]

/-- Everything below everything below the root. -/
def twiceBelow : Query where
  chain := ⟨[.descent, .choose .every, .descent, .choose .every], none⟩
  source := "$..*..*"

/-- A list that is matched twice, inside a list that is matched as well, grows by one element, and
the list around them does not grow. -/
theorem append_grows_matches_nested :
    Query.compile "$..*..*" = .ok twiceBelow ∧
      emptyRows.WellFormed ∧
      (twiceBelow.locate emptyRows).map List.length = .ok 4 ∧
      ∃ changed rows row inner,
        twiceBelow.append emptyRows (.list []) = (changed, .ok 3) ∧
        Location.resolve? [.member "a"] changed = some rows ∧
        rows.outline = .list 2 ∧
        Location.resolve? [.member "a", .index 0] changed = some (.list [row, .list []]) ∧
        Location.resolve? [.member "a", .index 0, .index 0] changed = some inner ∧
        inner = .list [.list []] := by
  have hcompile : Query.compile "$..*..*" = .ok twiceBelow := by
    decide +kernel
  have hdocument : emptyRows.WellFormed := by
    simp [emptyRows, Members.names]
  obtain ⟨locations, hlocate, hsuccess, -, hgrown⟩ :=
    @append_grows_matches twiceBelow emptyRows rfl hdocument (.list [])
  have hfound : twiceBelow.locate emptyRows =
      .ok [[.member "a", .index 0], [.member "a", .index 1], [.member "a", .index 0, .index 0],
        [.member "a", .index 0, .index 0]] := by
    rfl
  obtain rfl := Except.ok.inj (hfound.symm.trans hlocate)
  obtain ⟨count, hcount⟩ := hsuccess.2 (by simp [emptyRows, Location.resolve?, Segment.get?, Members.get?])
  obtain ⟨changed, hchanged⟩ : ∃ changed, twiceBelow.append emptyRows (.list []) =
      (changed, .ok count) := ⟨_, Prod.ext rfl hcount⟩
  obtain ⟨hcard, hnodes⟩ := hgrown changed count hchanged
  obtain rfl : count = 3 := hcard
  obtain ⟨rows, hrows, hrowsGrown⟩ := hnodes [.member "a"] _ rfl
  obtain ⟨outer, houter, houterGrown⟩ := hnodes [.member "a", .index 0] _ rfl
  obtain ⟨inner, hinner, hinnerGrown⟩ := hnodes [.member "a", .index 0, .index 0] _ rfl
  obtain ⟨_, front, ⟨rfl⟩, rfl, hfront⟩ := houterGrown.list (by decide)
  obtain ⟨_, none, ⟨rfl⟩, rfl, hnone⟩ := hinnerGrown.list (by decide)
  obtain ⟨row, rfl⟩ := List.length_eq_one_iff.1 hfront
  obtain rfl := List.length_eq_zero_iff.1 hnone
  exact ⟨hcompile, hdocument, by rw [hfound]; rfl, changed, rows, row, _, hchanged, hrows,
    hrowsGrown.outline (by decide), houter, hinner, rfl⟩

end Query
end FieldQuery
