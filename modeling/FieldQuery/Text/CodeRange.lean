/-!
# Ranges of code points

A character class of the Unicode standard is given as an ascending list of
disjoint ranges of code points. This module holds the range type and the
membership test that the class tables share.
-/

namespace FieldQuery
namespace Text

/-- The code points from `first` to `last`, both ends included. -/
structure CodeRange where
  first : Nat
  last : Nat
deriving DecidableEq

/--
Whether a code point lies in one of the ranges. The search stops at the first
range that starts above it, so it is exact for an ascending list.
-/
def CodeRange.covers
    (code : Nat) :
    List CodeRange → Bool
  | [] => false
  | range :: rest =>
      if code < range.first then
        false
      else if code ≤ range.last then
        true
      else
        covers code rest

/-- Whether the ranges are well formed, disjoint and in ascending order. -/
def CodeRange.ascending :
    List CodeRange → Bool
  | [] => true
  | [range] => range.first ≤ range.last
  | range :: next :: rest =>
      range.first ≤ range.last && range.last < next.first &&
        ascending (next :: rest)

/-- The first range of an ascending list is well formed. -/
theorem CodeRange.first_le_last_of_ascending
    {range : CodeRange}
    {rest : List CodeRange}
    (h : ascending (range :: rest) = true) :
    range.first ≤ range.last := by
  cases rest with
  | nil => simpa [ascending] using h
  | cons next rest =>
      simp only [ascending, Bool.and_eq_true, decide_eq_true_eq] at h
      exact h.1.1

/-- What follows the first range of an ascending list is ascending. -/
theorem CodeRange.ascending_tail
    {range : CodeRange}
    {rest : List CodeRange}
    (h : ascending (range :: rest) = true) :
    ascending rest = true := by
  cases rest with
  | nil => rfl
  | cons next rest =>
      simp only [ascending, Bool.and_eq_true] at h
      exact h.2

/-- In an ascending list every later range starts above the first one. -/
theorem CodeRange.last_lt_first_of_ascending
    {range later : CodeRange}
    {rest : List CodeRange}
    (h : ascending (range :: rest) = true)
    (hmem : later ∈ rest) :
    range.last < later.first := by
  induction rest generalizing range with
  | nil => exact nomatch hmem
  | cons next rest ih =>
      have htail := ascending_tail h
      have hnext := first_le_last_of_ascending htail
      simp only [ascending, Bool.and_eq_true, decide_eq_true_eq] at h
      rcases List.mem_cons.1 hmem with rfl | hmem
      · exact h.1.2
      · have hlater := ih htail hmem
        omega

/-- In an ascending list the search finds exactly the code points of the ranges. -/
theorem CodeRange.covers_eq_true_iff
    {code : Nat}
    {ranges : List CodeRange}
    (h : ascending ranges = true) :
    covers code ranges = true ↔
      ∃ range ∈ ranges, range.first ≤ code ∧ code ≤ range.last := by
  induction ranges with
  | nil => simp [covers]
  | cons range rest ih =>
      have hvalid := first_le_last_of_ascending h
      rw [covers]
      split
      · constructor
        · intro hfound
          exact nomatch hfound
        · rintro ⟨other, hmem, hfirst, hlast⟩
          rcases List.mem_cons.1 hmem with rfl | hmem
          · omega
          · have := last_lt_first_of_ascending h hmem
            omega
      · split
        · exact iff_of_true rfl ⟨range, List.mem_cons_self, by omega, by omega⟩
        · rw [ih (ascending_tail h)]
          constructor
          · rintro ⟨other, hmem, hother⟩
            exact ⟨other, List.mem_cons_of_mem range hmem, hother⟩
          · rintro ⟨other, hmem, hother⟩
            rcases List.mem_cons.1 hmem with rfl | hmem
            · omega
            · exact ⟨other, hmem, hother⟩

end Text
end FieldQuery
