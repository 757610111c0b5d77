import Mathlib.Data.Finset.Card
import Mathlib.Data.Finset.Dedup
import FieldQuery.Location.Order

/-!
# The order of locations is total

Locations are ordered as words are, by the order of their segments. This is a
total order, so that sorting locations and dropping repeated neighbours
leaves each of them once, in strictly descending order.
-/

namespace FieldQuery

instance : Std.TransCmp Segment.compare where
  eq_swap := by
    intro a b
    cases a with
    | member x =>
        cases b with
        | member y => exact Std.OrientedOrd.eq_swap
        | index j => rfl
    | index i =>
        cases b with
        | member y => rfl
        | index j => exact Std.OrientedOrd.eq_swap
  isLE_trans := by
    intro a b c hab hbc
    cases a with
    | member x =>
        cases c with
        | member z =>
            cases b with
            | member y => exact @Std.TransOrd.isLE_trans String _ _ x y z hab hbc
            | index j => cases hbc
        | index k => rfl
    | index i =>
        cases b with
        | member y => cases hab
        | index j =>
            cases c with
            | member z => cases hbc
            | index k => exact @Std.TransOrd.isLE_trans Nat _ _ i j k hab hbc

instance : Std.LawfulEqCmp Segment.compare where
  compare_self := by
    intro a
    cases a with
    | member name => exact Std.ReflOrd.compare_self
    | index i => exact Std.ReflOrd.compare_self
  eq_of_compare := by
    intro a b h
    cases a with
    | member x =>
        cases b with
        | member y => exact congrArg Segment.member (Std.LawfulEqOrd.eq_of_compare h)
        | index j => cases h
    | index i =>
        cases b with
        | member y => cases h
        | index j => exact congrArg Segment.index (Std.LawfulEqOrd.eq_of_compare h)

namespace Location

theorem compare_cons_self
    (segment : Segment)
    (a b : Location) :
    compare (segment :: a) (segment :: b) = compare a b := by
  have hself : segment.compare segment = .eq := Std.ReflCmp.compare_self
  rw [compare, hself]

/-- Locations are compared as lists of segments. -/
theorem compare_eq_compareLex :
    compare = List.compareLex Segment.compare := by
  funext a b
  induction a generalizing b with
  | nil => cases b <;> rfl
  | cons segment a ih =>
      cases b with
      | nil => rfl
      | cons other b =>
          rw [compare, List.compareLex_cons_cons, ← ih]
          cases segment.compare other <;> rfl

instance : Std.TransCmp compare :=
  compare_eq_compareLex ▸ inferInstance

instance : Std.LawfulEqCmp compare :=
  compare_eq_compareLex ▸ inferInstance

/-- What is left without repeated neighbours is what was there. -/
theorem mem_withoutRepeats
    {location : Location}
    {locations : List Location} :
    location ∈ withoutRepeats locations ↔ location ∈ locations := by
  fun_induction withoutRepeats locations with
  | case1 => rfl
  | case2 => rfl
  | case3 a rest ih => simp [ih]
  | case4 a b rest hne ih => simp [ih]

/-- The ascending locations are the given ones. -/
theorem mem_ascending
    {location : Location}
    {locations : List Location} :
    location ∈ ascending locations ↔ location ∈ locations :=
  mem_withoutRepeats.trans List.mem_mergeSort

/-- The descending locations are the given ones. -/
theorem mem_descending
    {location : Location}
    {locations : List Location} :
    location ∈ descending locations ↔ location ∈ locations :=
  mem_withoutRepeats.trans List.mem_mergeSort

/-- Without repeated neighbours, an ordered list is strictly ordered. -/
theorem pairwise_withoutRepeats
    {order : Location → Location → Ordering}
    [Std.TransCmp order]
    [Std.LawfulEqCmp order]
    {locations : List Location}
    (h : locations.Pairwise fun a b => (order a b).isLE = true) :
    (withoutRepeats locations).Pairwise fun a b => order a b = .lt := by
  fun_induction withoutRepeats locations with
  | case1 => exact .nil
  | case2 location => exact List.pairwise_singleton _ _
  | case3 a rest ih => exact ih h.of_cons
  | case4 a b rest hne ih =>
      obtain ⟨hfirst, hrest⟩ := List.pairwise_cons.1 h
      have hbelow : order a b = .lt := by
        have hle : (order a b).isLE = true := hfirst b List.mem_cons_self
        cases hcompare : order a b with
        | lt => rfl
        | eq => exact absurd (Std.LawfulEqCmp.eq_of_compare hcompare) hne
        | gt => simp [hcompare] at hle
      refine List.pairwise_cons.2 ⟨?_, ih hrest⟩
      intro location hlocation
      rcases List.mem_cons.1 (mem_withoutRepeats.1 hlocation) with rfl | hlater
      · exact hbelow
      · exact Std.TransCmp.lt_of_lt_of_isLE hbelow ((List.pairwise_cons.1 hrest).1 location hlater)

theorem pairwise_sorted
    (locations : List Location) :
    (sorted locations).Pairwise fun a b => notAfter a b = true := by
  refine List.pairwise_mergeSort ?_ ?_ locations
  · intro a b c hab hbc
    exact Std.TransCmp.isLE_trans hab hbc
  · intro a b
    have hswap : compare a b = (compare b a).swap := Std.OrientedCmp.eq_swap
    rw [notAfter, notAfter, hswap]
    cases compare b a <;> rfl

/-- Each of the ascending locations comes before the ones behind it. -/
theorem pairwise_ascending
    (locations : List Location) :
    (ascending locations).Pairwise fun a b => compare a b = .lt :=
  pairwise_withoutRepeats (pairwise_sorted locations)

/-- Each of the descending locations comes after the ones behind it. -/
theorem pairwise_descending
    (locations : List Location) :
    (descending locations).Pairwise fun a b => compare b a = .lt := by
  have hflipped : Std.TransCmp fun a b : Location => compare b a := Std.TransCmp.opposite
  have hlawful : Std.LawfulEqCmp fun a b : Location => compare b a := Std.LawfulEqCmp.opposite
  have hsorted : (locations.mergeSort fun a b => notAfter b a).Pairwise
      fun a b => notAfter b a = true := by
    refine List.pairwise_mergeSort ?_ ?_ locations
    · intro a b c hab hbc
      exact Std.TransCmp.isLE_trans hbc hab
    · intro a b
      have hswap : compare a b = (compare b a).swap := Std.OrientedCmp.eq_swap
      rw [notAfter, notAfter, hswap]
      cases compare b a <;> rfl
  exact pairwise_withoutRepeats hsorted

/-- What is strictly ordered has no repetitions. -/
theorem nodup_of_pairwise_lt
    {order : Location → Location → Ordering}
    [Std.ReflCmp order]
    {locations : List Location}
    (h : locations.Pairwise fun a b => order a b = .lt) :
    locations.Nodup := by
  refine h.imp ?_
  rintro a b hlt rfl
  have hself : order a a = .eq := Std.ReflCmp.compare_self
  rw [hself] at hlt
  cases hlt

/-- Without repetitions there are no repeated neighbours. -/
theorem withoutRepeats_of_nodup
    {locations : List Location}
    (h : locations.Nodup) :
    withoutRepeats locations = locations := by
  fun_induction withoutRepeats locations with
  | case1 => rfl
  | case2 => rfl
  | case3 a rest ih => simp at h
  | case4 a b rest hne ih => rw [ih h.of_cons]

/-- Locations that are in descending order stay as they are. -/
theorem descending_self
    {locations : List Location}
    (h : locations.Pairwise fun a b => compare b a = .lt) :
    descending locations = locations := by
  have hflipped : Std.TransCmp fun a b : Location => compare b a := Std.TransCmp.opposite
  have hsorted : locations.mergeSort (fun a b => notAfter b a) = locations :=
    List.mergeSort_of_pairwise (h.imp fun hlt => congrArg Ordering.isLE hlt)
  rw [descending, hsorted, withoutRepeats_of_nodup (nodup_of_pairwise_lt h)]

/-- Without repetitions, there are as many locations as there are different ones. -/
theorem length_eq_card
    {distinct locations : List Location}
    (hnodup : distinct.Nodup)
    (hmem : ∀ location, location ∈ distinct ↔ location ∈ locations) :
    distinct.length = locations.toFinset.card := by
  rw [← List.toFinset_card_of_nodup hnodup]
  congr 1
  ext location
  rw [List.mem_toFinset, List.mem_toFinset, hmem]

/-- There are as many ascending locations as there are different ones. -/
theorem length_ascending
    (locations : List Location) :
    (ascending locations).length = locations.toFinset.card :=
  length_eq_card (nodup_of_pairwise_lt (pairwise_ascending locations)) fun _ => mem_ascending

/-- There are as many descending locations as there are different ones. -/
theorem length_descending
    (locations : List Location) :
    (descending locations).length = locations.toFinset.card := by
  have hflipped : Std.TransCmp fun a b : Location => compare b a := Std.TransCmp.opposite
  exact length_eq_card (nodup_of_pairwise_lt (pairwise_descending locations)) fun _ => mem_descending

end Location
end FieldQuery
