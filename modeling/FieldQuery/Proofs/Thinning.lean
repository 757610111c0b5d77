import FieldQuery.Proofs.Removal
import FieldQuery.Proofs.Walks

/-!
# Removal that leaves no match

A removal of list elements moves the elements behind them, and a query may
then match what it did not match before. This cannot happen if each list
either loses all its elements or keeps all of them. Whatever is left is then
where it was, in a list that is as long as it was, so a chain of selectors
without filters only walks where it could walk before.

Queries that end with a name or a star remove in this way: a name is no list
element, and a star takes all children of a node or none.
-/

namespace FieldQuery

namespace Value

variable {gone : Location → Bool}
variable {segment : Segment}
variable {way : Location}
variable {value kept : Value}

section Kept

variable {items : List Value}
variable {i : Nat}

/-- If no element goes, each one is where it was. -/
theorem getElem?_itemsWithout
    (h : ∀ j, gone [.index j] = false)
    (k : Nat) :
    (itemsWithout gone i items)[k]? =
      items[k]?.map fun item => item.without (beneath (.index (i + k)) gone) := by
  induction items generalizing i k with
  | nil => rfl
  | cons item rest ih =>
      rw [itemsWithout, if_neg (by simp [h])]
      cases k with
      | zero => rfl
      | succ k =>
          rw [List.getElem?_cons_succ, List.getElem?_cons_succ, ih, Nat.add_assoc, Nat.add_comm 1]

theorem length_itemsWithout
    (h : ∀ j, gone [.index j] = false) :
    (itemsWithout gone i items).length = items.length := by
  induction items generalizing i with
  | nil => rfl
  | cons item rest ih =>
      rw [itemsWithout, if_neg (by simp [h]), List.length_cons, List.length_cons, ih]

/-- If all elements go, none is left. -/
theorem itemsWithout_eq_nil
    (h : ∀ j, i ≤ j → j < i + items.length → gone [.index j] = true) :
    itemsWithout gone i items = [] := by
  induction items generalizing i with
  | nil => rfl
  | cons item rest ih =>
      rw [List.length_cons] at h
      rw [itemsWithout, if_pos (h i (Nat.le_refl i) (by omega))]
      exact ih fun j hle hlt => h j (by omega) (by omega)

/-- A member is left under its name unless it goes itself. -/
theorem get?_membersWithout
    (name : String)
    (members : List (String × Value)) :
    Members.get? name (membersWithout gone members) =
      if gone [.member name] then
        none
      else
        (Members.get? name members).map fun value =>
          value.without (beneath (.member name) gone) := by
  induction members with
  | nil => simp [membersWithout, Members.get?]
  | cons member rest ih =>
      obtain ⟨key, value⟩ := member
      by_cases hkey : key = name
      · subst hkey
        by_cases hgone : gone [.member key] = true
        · simp [membersWithout, hgone, ih]
        · simp [membersWithout, hgone, Members.get?]
      · by_cases hgone : gone [.member key] = true
        · simp [membersWithout, hgone, ih, Members.get?, hkey]
        · simp [membersWithout, hgone, ih, Members.get?, hkey]

end Kept

/-- Whether each list inside a value loses all its elements or none. -/
def Clears
    (gone : Location → Bool)
    (value : Value) : Prop :=
  ∀ (way : Location) (items : List Value), way.resolve? value = some (.list items) →
    (∀ i < items.length, gone (way ++ [.index i]) = true) ∨
      ∀ i, gone (way ++ [.index i]) = false

theorem Clears.child
    {child : Value}
    (h : Clears gone value)
    (hchild : segment.get? value = some child) :
    Clears (beneath segment gone) child := by
  intro way items hlist
  refine h (segment :: way) items ?_
  rw [Location.resolve?, hchild]
  exact hlist

/-- A child that is left was a child before, and it did not go itself. -/
theorem Clears.get?
    (h : Clears gone value)
    (hkept : segment.get? (value.without gone) = some kept) :
    gone [segment] = false ∧
      ∃ child, segment.get? value = some child ∧ kept = child.without (beneath segment gone) := by
  cases value with
  | list items =>
      cases segment with
      | member name => cases hkept
      | index i =>
          rw [without] at hkept
          rcases h [] items rfl with hall | hnone
          · rw [itemsWithout_eq_nil fun j _ hlt => hall j (by omega)] at hkept
            cases hkept
          · have hitem : (itemsWithout gone 0 items)[i]? = some kept := hkept
            rw [getElem?_itemsWithout hnone, Nat.zero_add] at hitem
            obtain ⟨item, hget, rfl⟩ := Option.map_eq_some_iff.1 hitem
            exact ⟨hnone i, item, hget, rfl⟩
  | map members =>
      cases segment with
      | index i => cases hkept
      | member name =>
          have hmember : Members.get? name (membersWithout gone members) = some kept := hkept
          rw [get?_membersWithout] at hmember
          split at hmember
          · cases hmember
          · next hgone =>
              obtain ⟨child, hget, rfl⟩ := Option.map_eq_some_iff.1 hmember
              exact ⟨by simpa using hgone, child, hget, rfl⟩
  | _ => cases segment <;> cases hkept

/-- A node that is left was there before, and it did not go itself. -/
theorem Clears.resolve?
    (h : Clears gone value)
    (hkept : way.resolve? (value.without gone) = some kept) :
    (way ≠ [] → gone way = false) ∧
      ∃ node,
        way.resolve? value = some node ∧
        kept = node.without fun further => gone (way ++ further) := by
  induction way generalizing gone value with
  | nil =>
      obtain rfl := Option.some.inj hkept
      exact ⟨fun hne => absurd rfl hne, value, rfl, rfl⟩
  | cons segment way ih =>
      obtain ⟨_, hfirst, hrest⟩ := Option.bind_eq_some_iff.1 hkept
      obtain ⟨hgone, child, hchild, rfl⟩ := h.get? hfirst
      obtain ⟨hbelow, node, hnode, rfl⟩ := ih (h.child hchild) hrest
      refine ⟨fun _ => ?_, node, ?_, rfl⟩
      · cases way with
        | nil => exact hgone
        | cons next more => exact hbelow (List.cons_ne_nil _ _)
      · rw [Location.resolve?, hchild]
        exact hnode

/--
Whether a value is what is left of another one: each node was there before,
and each list that is not empty is as long as before.
-/
def Thinned
    (value left : Value) : Prop :=
  ∀ (way : Location) (kept : Value), way.resolve? left = some kept →
    ∃ node,
      way.resolve? value = some node ∧
      ∀ items, kept = .list items → items ≠ [] →
        ∃ others, node = .list others ∧ others.length = items.length

theorem Clears.thinned
    (h : Clears gone value) :
    Thinned value (value.without gone) := by
  intro way kept hkept
  obtain ⟨-, node, hnode, rfl⟩ := h.resolve? hkept
  refine ⟨node, hnode, fun items hitems hne => ?_⟩
  cases node with
  | list others =>
      refine ⟨others, rfl, ?_⟩
      obtain rfl : itemsWithout _ 0 others = items := Value.list.inj hitems
      rcases h way others hnode with hall | hnone
      · exact absurd (itemsWithout_eq_nil fun j _ hlt => hall j (by omega)) hne
      · exact (length_itemsWithout hnone).symm
  | _ => cases hitems

/-- What is left of a value below a way is what is left of the node there. -/
theorem Thinned.resolve?
    {left next : Value}
    (h : Thinned value left)
    (hnext : way.resolve? left = some next) :
    ∃ node, way.resolve? value = some node ∧ Thinned node next := by
  obtain ⟨node, hnode, -⟩ := h way next hnext
  refine ⟨node, hnode, fun further kept hkept => ?_⟩
  have hfound := h (way ++ further) kept (by rw [Location.resolve?_append, hnext]; exact hkept)
  rw [Location.resolve?_append, hnode] at hfound
  exact hfound

/-- A list that has an element is as long as it was. -/
theorem Thinned.list
    {left next : Value}
    {items : List Value}
    {i : Nat}
    (h : Thinned value left)
    (hleft : left = .list items)
    (hnext : Location.resolve? [.index i] left = some next) :
    ∃ others, value = .list others ∧ others.length = items.length := by
  obtain ⟨_, hvalue, hlist⟩ := h [] left rfl
  obtain rfl := Option.some.inj hvalue
  refine hlist items hleft ?_
  rintro rfl
  rw [hleft] at hnext
  cases hnext

theorem names_membersWithout_sublist
    (members : List (String × Value)) :
    (Members.names (membersWithout gone members)).Sublist (Members.names members) := by
  induction members with
  | nil => exact .slnil
  | cons member rest ih =>
      rw [membersWithout]
      split
      · exact ih.cons member.1
      · exact ih.cons_cons member.1

/-- An element that is left is what is left of an element. -/
theorem exists_of_mem_itemsWithout
    {i : Nat}
    {items : List Value}
    (h : kept ∈ itemsWithout gone i items) :
    ∃ item ∈ items, ∃ further, kept = item.without further := by
  induction items generalizing i with
  | nil => cases h
  | cons item rest ih =>
      rw [itemsWithout] at h
      split at h
      · obtain ⟨other, hmem, hkept⟩ := ih h
        exact ⟨other, List.mem_cons_of_mem _ hmem, hkept⟩
      · rcases List.mem_cons.1 h with rfl | hrest
        · exact ⟨item, List.mem_cons_self, _, rfl⟩
        · obtain ⟨other, hmem, hkept⟩ := ih hrest
          exact ⟨other, List.mem_cons_of_mem _ hmem, hkept⟩

/-- The value of a member that is left is what is left of the value of a member. -/
theorem exists_of_mem_membersWithout
    {member : String × Value}
    {members : List (String × Value)}
    (h : member ∈ membersWithout gone members) :
    ∃ old ∈ members, ∃ further, member.2 = old.2.without further := by
  induction members with
  | nil => cases h
  | cons first rest ih =>
      rw [membersWithout] at h
      split at h
      · obtain ⟨other, hmem, hkept⟩ := ih h
        exact ⟨other, List.mem_cons_of_mem _ hmem, hkept⟩
      · rcases List.mem_cons.1 h with rfl | hrest
        · exact ⟨first, List.mem_cons_self, _, rfl⟩
        · obtain ⟨other, hmem, hkept⟩ := ih hrest
          exact ⟨other, List.mem_cons_of_mem _ hmem, hkept⟩

/-- What is left of a well-formed value is well formed. -/
theorem WellFormed.without
    (h : value.WellFormed)
    (gone : Location → Bool) :
    (value.without gone).WellFormed := by
  induction h generalizing gone with
  | list hitems ih =>
      refine .list fun item hitem => ?_
      obtain ⟨old, hmem, further, rfl⟩ := exists_of_mem_itemsWithout hitem
      exact ih old hmem further
  | map hnames hmembers ih =>
      refine .map (hnames.sublist (names_membersWithout_sublist _)) fun member hmember => ?_
      obtain ⟨old, hmem, further, hkept⟩ := exists_of_mem_membersWithout hmember
      rw [hkept]
      exact ih old hmem further
  | null => exact .null
  | bool => exact .bool
  | number => exact .number
  | text => exact .text

end Value

namespace Query

open Value (Clears Thinned)

variable {value left : Value}

/-- What a choice admits in what is left of a node, it admits in the node. -/
theorem Choice.Admits.of_thinned
    {choice : Choice}
    {segment : Segment}
    {next : Value}
    (h : Thinned value left)
    (hnext : Location.resolve? [segment] left = some next)
    (hadmits : choice.Admits left segment) :
    choice.Admits value segment := by
  cases hadmits with
  | name name => exact .name name
  | fromStart position => exact .fromStart position
  | every segment => exact .every segment
  | fromEnd hnode hnegative hposition =>
      obtain ⟨others, hothers, hlength⟩ := h.list hnode hnext
      exact .fromEnd hothers hnegative (by rw [hlength, hposition])

/-- What a selector takes in what is left of a node, it takes in the node. -/
theorem Selector.Takes.of_thinned
    {selector : Selector}
    {piece : Location}
    {member : Nat}
    {next : Value}
    (hfilter : ∀ predicate, selector ≠ .filter predicate)
    (h : Thinned value left)
    (hnext : piece.resolve? left = some next)
    (htakes : selector.Takes left piece member) :
    selector.Takes value piece member := by
  cases htakes with
  | choose hadmits => exact .choose (hadmits.of_thinned h hnext)
  | slice hnode hadmits =>
      obtain ⟨others, hothers, hlength⟩ := h.list hnode hnext
      exact .slice hothers (by rw [hlength]; exact hadmits)
  | filter hchild hholds => exact absurd rfl (hfilter _)
  | union hmember hadmits => exact .union hmember (hadmits.of_thinned h hnext)
  | descent piece => exact .descent piece

/-- Where a chain without filters walks in what is left, it could walk before. -/
theorem Walks.of_thinned
    {selectors : List Selector}
    {cut : Cut}
    (hfilters : ∀ predicate, .filter predicate ∉ selectors)
    (h : Thinned value left)
    (hwalks : Walks left selectors cut) :
    Walks value selectors cut := by
  induction hwalks generalizing value with
  | done => exact .done
  | @step _ _ selector rest _ _ _ htakes hexists _ ih =>
      obtain ⟨node, hnode, hnext⟩ := h.resolve? hexists
      have hfirst : ∀ predicate, selector ≠ .filter predicate := by
        rintro predicate rfl
        exact hfilters predicate List.mem_cons_self
      refine .step (htakes.of_thinned hfirst h hexists) hnode (ih ?_ hnext)
      exact fun predicate hmem => hfilters predicate (List.mem_cons_of_mem _ hmem)

/-- A chain matches the locations that can be cut for a walk. -/
theorem mem_map_select_iff
    {document : Value}
    {selectors : List Selector}
    {location : Location}
    (h : document.WellFormed) :
    location ∈ (select selectors document).map Prod.fst ↔
      ∃ cut, Walks document selectors cut ∧ cut.location = location := by
  simp only [← mem_cuts_iff h, select_eq_map_cuts, List.map_map, List.mem_map]
  constructor
  · rintro ⟨found, hmem, rfl⟩
    exact ⟨found.1, ⟨found, hmem, rfl⟩, rfl⟩
  · rintro ⟨_, ⟨found, hmem, rfl⟩, rfl⟩
    exact ⟨found, hmem, rfl⟩

section LastChoice

variable {front : List Selector}
variable {choice : Choice}
variable {document : Value}

/-- A chain that ends with a choice matches children of what the selectors before match. -/
theorem mem_map_select_choose_iff
    {location : Location}
    (h : document.WellFormed) :
    location ∈ (select (front ++ [.choose choice]) document).map Prod.fst ↔
      ∃ way target segment,
        (way, target) ∈ select front document ∧
        choice.Admits target segment ∧
        (segment.get? target).isSome ∧
        location = way ++ [segment] := by
  have hchain : select (front ++ [.choose choice]) document =
      advance (select front document) (.choose choice) := by
    rw [select, List.foldl_append]
    rfl
  simp only [hchain, advance, List.map_flatMap, List.mem_flatMap, Selector.reach, List.mem_map]
  constructor
  · rintro ⟨⟨way, target⟩, hselect, _, ⟨_, ⟨⟨segment, child⟩, hchild, rfl⟩, rfl⟩, rfl⟩
    have htarget := wellFormed_of_resolve? h (resolve?_of_mem_select h hselect)
    obtain ⟨hadmits, hget⟩ := (Choice.mem_children_iff htarget).1 hchild
    exact ⟨way, target, segment, hselect, hadmits, by rw [hget]; rfl, rfl⟩
  · rintro ⟨way, target, segment, hselect, hadmits, hsome, rfl⟩
    have htarget := wellFormed_of_resolve? h (resolve?_of_mem_select h hselect)
    obtain ⟨child, hget⟩ := Option.isSome_iff_exists.1 hsome
    have hchild := (Choice.mem_children_iff htarget).2 ⟨hadmits, hget⟩
    exact ⟨_, hselect, _, ⟨_, ⟨_, hchild, rfl⟩, rfl⟩, rfl⟩

/-- A name matches no list element, and a star all elements of a list or none. -/
theorem clears_select
    (hchoice : choice = .every ∨ ∃ name, choice = .access (.key name))
    (h : document.WellFormed) :
    Clears
      (fun location => location ∈ (select (front ++ [.choose choice]) document).map Prod.fst)
      document := by
  intro way items hlist
  simp only [decide_eq_true_eq, decide_eq_false_iff_not, mem_map_select_choose_iff h]
  by_cases hreached : choice = .every ∧ ∃ target, (way, target) ∈ select front document
  · obtain ⟨rfl, target, hselect⟩ := hreached
    obtain rfl := Option.some.inj (hlist.symm.trans (resolve?_of_mem_select h hselect))
    refine .inl fun i hi => ⟨way, _, .index i, hselect, .every _, ?_, rfl⟩
    rw [Segment.get?, List.getElem?_eq_getElem hi]
    rfl
  · refine .inr fun i => ?_
    rintro ⟨_, target, segment, hselect, hadmits, -, heq⟩
    obtain ⟨rfl, hsegment⟩ := List.append_inj' heq rfl
    obtain rfl := List.singleton_inj.1 hsegment
    rcases hchoice with rfl | ⟨name, rfl⟩
    · exact hreached ⟨rfl, target, hselect⟩
    · cases hadmits

/-- What is left without the matches of a chain has none of them. -/
theorem select_without_eq_nil
    (hchoice : choice = .every ∨ ∃ name, choice = .access (.key name))
    (hfilters : ∀ predicate, .filter predicate ∉ front)
    (h : document.WellFormed) :
    select (front ++ [.choose choice]) (document.without fun location =>
      location ∈ (select (front ++ [.choose choice]) document).map Prod.fst) = [] := by
  have hclears := @clears_select front choice document hchoice h
  have hleft := h.without fun location =>
    location ∈ (select (front ++ [.choose choice]) document).map Prod.fst
  rw [List.eq_nil_iff_forall_not_mem]
  rintro ⟨location, kept⟩ hmem
  have hkept := resolve?_of_mem_select hleft hmem
  obtain ⟨cut, hwalks, rfl⟩ := (mem_map_select_iff hleft).1 (List.mem_map_of_mem hmem)
  have hchain : ∀ predicate, .filter predicate ∉ front ++ [.choose choice] := by
    intro predicate hfilter
    rcases List.mem_append.1 hfilter with hfront | hlast
    · exact hfilters predicate hfront
    · cases List.mem_singleton.1 hlast
  -- a match in what is left was a match before, so it went and cannot be left
  have hbefore := (mem_map_select_iff h).2 ⟨cut, hwalks.of_thinned hchain hclears.thinned, rfl⟩
  have hne : cut.location ≠ [] := by
    intro hroot
    rw [hroot] at hbefore
    exact nil_not_mem_select (by simp) (by simp) document hbefore
  exact of_decide_eq_false ((hclears.resolve? hkept).1 hne) hbefore

end LastChoice

/-- Removal from the last location to the first removes all nodes at once. -/
theorem removeAt_descending
    {document : Value}
    {locations : List Location}
    (h : document.WellFormed)
    (hnodes : ∀ location ∈ locations, location ≠ [] ∧ (location.resolve? document).isSome) :
    removeAt (Location.descending locations) document =
      (document.without fun location => location ∈ locations, locations.toFinset.card) := by
  have hremove := @removeAt_without (fun _ => false) document _ h
    (Location.pairwise_descending locations)
    (fun location hmem => hnodes location (Location.mem_descending.1 hmem)) (by simp)
  simpa only [Value.without_nothing, Bool.or_false, Location.mem_descending,
    Location.length_descending] using hremove

/--
A query without filters that ends with a name or a star has no more matches
when all of them were removed, so a second removal changes nothing.
-/
theorem removeAll_removeAll
    {query : Query}
    {front : List Selector}
    {choice : Choice}
    {document : Value}
    (hfunction : query.function = none)
    (hselectors : query.selectors = front ++ [.choose choice])
    (hchoice : choice = .every ∨ ∃ name, choice = .access (.key name))
    (hfilters : ∀ predicate, .filter predicate ∉ front)
    (hdocument : document.WellFormed) :
    ∃ changed count,
      query.removeAll document = .ok (changed, count) ∧
      query.find changed = [] ∧
      query.removeAll changed = .ok (changed, 0) := by
  have hlocate := locate_eq_ok document hfunction
  have hnodes : ∀ location ∈ (select query.selectors document).map Prod.fst,
      location ≠ [] ∧ (location.resolve? document).isSome := by
    intro location hmem
    constructor
    · rintro rfl
      rw [hselectors] at hmem
      exact nil_not_mem_select (by simp) (by simp) document hmem
    · rw [Option.isSome_iff_exists]
      exact exists_resolve?_of_locate hdocument hlocate hmem
  have hremove := removeAt_descending hdocument hnodes
  have hnone := @select_without_eq_nil front choice document hchoice hfilters hdocument
  rw [← hselectors] at hnone
  refine ⟨_, _, by rw [removeAll, hlocate, Except.map, hremove], ?_, ?_⟩
  · rw [find, hfunction, hnone]
    rfl
  · rw [removeAll, locate_eq_ok _ hfunction, hnone]
    simp [Except.map, Location.descending, Location.withoutRepeats, removeAt]

/-- Rows of which the last one ends with a list. -/
def unevenRows : Value :=
  .map [("rows", .list [.list [.int 1], .list [.int 2, .list [.int 3, .int 4]]])]

/-- Everything in the last element of every list. -/
def inLast : Query where
  chain := ⟨[.descent, .choose (.access (.index (-1))), .choose .every], none⟩
  source := "$..[-1].*"

/-- The last row is emptied together with the list at its end, and stays the last row. -/
theorem removeAll_removeAll_inLast :
    Query.compile "$..[-1].*" = .ok inLast ∧
      inLast.function = none ∧
      inLast.selectors = [.descent, .choose (.access (.index (-1)))] ++ [.choose .every] ∧
      (∀ predicate, Selector.filter predicate ∉ [.descent, .choose (.access (.index (-1)))]) ∧
      unevenRows.WellFormed ∧
      ∃ changed,
        changed = .map [("rows", .list [.list [.int 1], .list []])] ∧
        inLast.removeAll unevenRows = .ok (changed, 4) ∧
        inLast.find changed = [] ∧
        inLast.removeAll changed = .ok (changed, 0) := by
  have hcompile : Query.compile "$..[-1].*" = .ok inLast := by
    decide +kernel
  have hdocument : unevenRows.WellFormed := by
    simp [unevenRows, Members.names]
  have hfilters : ∀ predicate,
      Selector.filter predicate ∉ [.descent, .choose (.access (.index (-1)))] := by
    simp
  obtain ⟨changed, count, hremove, hfind, hagain⟩ :=
    @removeAll_removeAll inLast [.descent, .choose (.access (.index (-1)))] .every unevenRows rfl rfl
      (.inl rfl) hfilters hdocument
  have hlocate : inLast.locate unevenRows =
      .ok [[.member "rows", .index 1, .index 0], [.member "rows", .index 1, .index 1],
        [.member "rows", .index 1, .index 1, .index 0],
        [.member "rows", .index 1, .index 1, .index 1]] := by
    rfl
  have hresult : inLast.removeAll unevenRows =
      .ok (.map [("rows", .list [.list [.int 1], .list []])], 4) := by
    rw [removeAll, hlocate, Except.map, removeAt_descending hdocument (by decide)]
    rfl
  obtain ⟨rfl, rfl⟩ := Prod.mk.inj (Except.ok.inj (hresult.symm.trans hremove))
  exact ⟨hcompile, rfl, rfl, hfilters, hdocument, _, rfl, hremove, hfind, hagain⟩

end Query
end FieldQuery
