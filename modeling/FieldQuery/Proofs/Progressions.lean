import Mathlib.Data.List.Perm.Subperm
import FieldQuery.Proofs.Slices

/-!
# Slices are arithmetic progressions

Over unbounded integers a slice is an arithmetic progression: its bounds are
counted from the end of the list if they are negative and moved into the list
if they lie outside, and it goes on in equal steps until it comes to the bound
where it stops. The walk that yields the positions stays within the range of
indices and stops where the next one would leave it. The two are the same for
every list that has indices of that range: the walk stops early only where the
progression has come to its end as well.
-/

namespace FieldQuery
namespace Query
namespace Slice

/-- Numbers in equal steps from a first one on, in front of a limit. -/
structure Progression where
  first : Int
  limit : Int
  step : Int

/-- The number that a progression comes to in some steps, unless it is at its limit by then. -/
def Progression.at?
    (progression : Progression)
    (k : Nat) :
    Option Int :=
  let n := progression.first + k * progression.step
  if 0 < progression.step ∧ n < progression.limit ∨
      progression.step < 0 ∧ progression.limit < n then
    some n
  else
    none

/--
The place of a bound: a negative one counts from the end of the list, one
outside two limits is moved to the nearer of them, and one that is left out
has a place of its own.
-/
def place
    (length low high absent : Int) :
    Option Int → Int
  | none => absent
  | some bound => max low (min high (if bound < 0 then length + bound else bound))

/--
The progression of a slice in a list of a given length. Forwards it starts and
stops between the first element and the end of the list, backwards between the
place before the first element and the last element.
-/
def progression
    (slice : Slice)
    (length : Nat) :
    Progression :=
  let n : Int := length
  let step := slice.step.getD 1
  if 0 < step then
    ⟨place n 0 n 0 slice.start, place n 0 n n slice.stop, step⟩
  else
    ⟨place n (-1) (n - 1) (n - 1) slice.start, place n (-1) (n - 1) (-1) slice.stop, step⟩

namespace Progression

variable {first limit step : Int}

theorem at?_succ
    (k : Nat) :
    (mk first limit step).at? (k + 1) = (mk (first + step) limit step).at? k := by
  have hshift : first + ((k + 1 : Nat) : Int) * step = first + step + k * step := by
    push_cast
    ring
  simp only [at?, hshift]

/-- Forwards, a progression that starts at its limit or behind it has no numbers. -/
theorem at?_of_limit_le
    (hstep : 0 < step)
    (h : limit ≤ first)
    (k : Nat) :
    (mk first limit step).at? k = none := by
  have hsteps := mul_nonneg (Int.natCast_nonneg k) hstep.le
  refine if_neg ?_
  dsimp only
  omega

/-- Backwards, the limit is on the other side. -/
theorem at?_of_le_limit
    (hstep : step < 0)
    (h : first ≤ limit)
    (k : Nat) :
    (mk first limit step).at? k = none := by
  have hsteps := mul_nonpos_of_nonneg_of_nonpos (Int.natCast_nonneg k) hstep.le
  refine if_neg ?_
  dsimp only
  omega

/-- Later numbers of a progression are further in the direction of its steps. -/
theorem at?_ordered
    {progression : Progression}
    {i j : Nat}
    {a b : Int}
    (hij : i < j)
    (ha : progression.at? i = some a)
    (hb : progression.at? j = some b) :
    if 0 < progression.step then a < b else b < a := by
  obtain ⟨hgoes, ha⟩ := Option.ite_none_right_eq_some.1 ha
  obtain ⟨-, hb⟩ := Option.ite_none_right_eq_some.1 hb
  rw [← Option.some.inj ha, ← Option.some.inj hb]
  have hlt : (i : Int) < j := Int.ofNat_lt.2 hij
  split
  · next hstep =>
      have := mul_lt_mul_of_pos_right hlt hstep
      omega
  · next hstep =>
      have := mul_lt_mul_of_neg_right hlt (show progression.step < 0 by omega)
      omega

/-- A list with the first number in front has the progression if its rest has what follows. -/
theorem getElem?_cons
    {rest : List Nat}
    (hfirst : 0 ≤ first)
    (hgoes : 0 < step ∧ first < limit ∨ step < 0 ∧ limit < first)
    (hrest : ∀ k, rest[k]?.map Nat.cast = (mk (first + step) limit step).at? k)
    (k : Nat) :
    (first.toNat :: rest)[k]?.map Nat.cast = (mk first limit step).at? k := by
  cases k with
  | zero =>
      rw [at?, if_pos (by simpa using hgoes)]
      simp [hfirst]
  | succ k => rw [List.getElem?_cons_succ, hrest, at?_succ]

end Progression

variable {step bound first : Int}

/-- Upwards, the walk yields the progression: beyond the range of indices it would be at its end. -/
theorem getElem?_upwards
    (hstep : 0 < step)
    (hfirst : 0 ≤ first)
    (hbound : bound ≤ 9223372036854775808)
    (k : Nat) :
    (upwards bound step first)[k]?.map Nat.cast = (Progression.mk first bound step).at? k := by
  induction first using upwards.induct bound step generalizing k with
  | case1 first hgo ih =>
      rw [upwards_eq, if_pos hgo]
      refine Progression.getElem?_cons hfirst (.inl hgo) (fun k => ?_) k
      by_cases hnext : Integer64.isSigned (first + step) = true
      · rw [if_pos hnext]
        exact ih (first + step) (if_pos hnext) (by omega) k
      · rw [if_neg hnext]
        simp only [Integer64.isSigned, Bool.and_eq_true, decide_eq_true_eq] at hnext
        exact (Progression.at?_of_limit_le hstep (by omega) k).symm
  | case2 first hstop =>
      rw [upwards_eq, if_neg hstop]
      exact (Progression.at?_of_limit_le hstep (by omega) k).symm

theorem getElem?_downwards
    (hstep : step < 0)
    (hfirst : first ≤ 9223372036854775807)
    (hbound : -1 ≤ bound)
    (k : Nat) :
    (downwards bound step first)[k]?.map Nat.cast = (Progression.mk first bound step).at? k := by
  induction first using downwards.induct bound step generalizing k with
  | case1 first hgo ih =>
      rw [downwards_eq, if_pos hgo]
      refine Progression.getElem?_cons (by omega) (.inr hgo) (fun k => ?_) k
      by_cases hnext : Integer64.isSigned (first + step) = true
      · rw [if_pos hnext]
        exact ih (first + step) (if_pos hnext) (by omega) k
      · rw [if_neg hnext]
        simp only [Integer64.isSigned, Bool.and_eq_true, decide_eq_true_eq] at hnext
        exact (Progression.at?_of_le_limit hstep (by omega) k).symm
  | case2 first hstop =>
      rw [downwards_eq, if_neg hstop]
      exact (Progression.at?_of_le_limit hstep (by omega) k).symm

section Place

variable {length low high absent : Int}
variable {given : Option Int}

theorem le_place
    (habsent : low ≤ absent) :
    low ≤ place length low high absent given := by
  cases given with
  | none => exact habsent
  | some bound => exact le_max_left _ _

theorem place_le
    (hlimits : low ≤ high)
    (habsent : absent ≤ high) :
    place length low high absent given ≤ high := by
  cases given with
  | none => exact habsent
  | some bound => exact max_le hlimits (min_le_left _ _)

/-- A bound with a value to stand for it is put in its place after it is counted from the end. -/
theorem clamp_getD
    (hlow : low ≤ fromStart length absent)
    (hhigh : fromStart length absent ≤ high) :
    clamp low high (fromStart length (given.getD absent)) =
      place length low high (fromStart length absent) given := by
  cases given with
  | none => rw [Option.getD_none, clamp, min_eq_right hhigh, max_eq_right hlow, place]
  | some bound => rfl

/-- A place that stands for a bound is not counted from the end. -/
theorem clamp_map_getD
    (hlow : low ≤ absent)
    (hhigh : absent ≤ high) :
    clamp low high ((given.map (fromStart length)).getD absent) =
      place length low high absent given := by
  cases given with
  | none => rw [Option.map_none, Option.getD_none, clamp, min_eq_right hhigh, max_eq_right hlow, place]
  | some bound => rfl

end Place

variable {slice : Slice}
variable {length : Nat}

/-- A slice yields its progression. -/
theorem getElem?_positions
    (hlength : length < 9223372036854775808)
    (k : Nat) :
    (slice.positions length)[k]?.map Nat.cast = (slice.progression length).at? k := by
  have hzero : fromStart length 0 = 0 := if_neg (lt_irrefl 0)
  have hend : fromStart length length = length := if_neg (by omega)
  simp only [positions, progression, Bool.or_eq_true, decide_eq_true_eq]
  rcases lt_trichotomy 0 (slice.step.getD 1) with hstep | hstep | hstep
  · rw [if_pos hstep, if_pos hstep]
    by_cases hempty : length = 0
    · have hlimit := @place_le length 0 length length slice.stop (by omega) le_rfl
      have hfirst := @le_place length 0 length 0 slice.start le_rfl
      rw [if_pos (.inr hempty), Progression.at?_of_limit_le hstep (by omega)]
      rfl
    · rw [if_neg (by omega), clamp_getD (by omega) (by omega), clamp_getD (by omega) (by omega),
        hzero, hend]
      exact getElem?_upwards hstep (le_place le_rfl)
        ((place_le (by omega) le_rfl).trans (by omega)) k
  · simp [Progression.at?, ← hstep]
  · have hnot : ¬ 0 < slice.step.getD 1 := by omega
    rw [if_neg hnot, if_neg hnot]
    by_cases hempty : length = 0
    · have hfirst := @place_le length (-1) (length - 1) (length - 1) slice.start (by omega) le_rfl
      have hlimit := @le_place length (-1) (length - 1) (-1) slice.stop le_rfl
      rw [if_pos (.inr hempty), Progression.at?_of_le_limit hstep (by omega)]
      rfl
    · rw [if_neg (by omega), clamp_map_getD (by omega) (by omega),
        clamp_map_getD (by omega) (by omega)]
      exact getElem?_downwards hstep ((place_le (by omega) le_rfl).trans (by omega))
        (le_place le_rfl) k

/-- The positions of a slice are in the order of its steps. -/
theorem pairwise_positions
    (hlength : length < 9223372036854775808) :
    (slice.positions length).Pairwise fun a b =>
      if 0 < slice.step.getD 1 then a < b else b < a := by
  have hstep : (slice.progression length).step = slice.step.getD 1 := by
    rw [progression]
    split <;> rfl
  rw [List.pairwise_iff_getElem]
  intro i j hi hj hij
  have hfirst := @getElem?_positions slice _ hlength i
  have hsecond := @getElem?_positions slice _ hlength j
  rw [List.getElem?_eq_getElem hi, Option.map_some] at hfirst
  rw [List.getElem?_eq_getElem hj, Option.map_some] at hsecond
  have hordered := Progression.at?_ordered hij hfirst.symm hsecond.symm
  rw [hstep] at hordered
  exact_mod_cast hordered

theorem lt_of_mem_positions
    {position : Nat}
    (h : position ∈ slice.positions length) :
    position < length := by
  rcases mem_positions.1 h with ⟨-, hlength, -, -⟩ | ⟨hstep, -, hreaches⟩
  · exact hlength
  · have := hreaches.ge hstep
    omega

/-- A slice selects no more positions than a list has elements. -/
theorem length_positions_le
    (slice : Slice)
    (length : Nat) :
    (slice.positions length).length ≤ length := by
  have hsubset : slice.positions length ⊆ List.range length := fun _ hmem =>
    List.mem_range.2 (lt_of_mem_positions hmem)
  have hle := ((slice.nodup_positions length).subperm hsubset).length_le
  rwa [List.length_range] at hle

/-- A slice selects the element at each of its positions. -/
theorem reach_slice
    (slice : Slice)
    (items : List Value) :
    ((Selector.slice slice).reach (.list items)).map (fun located => (located.1, some located.2)) =
      (slice.positions items.length).map fun position => ([.index position], items[position]?) := by
  have hpositions : ∀ positions : List Nat, (∀ position ∈ positions, position < items.length) →
      (positions.filterMap fun i => items[i]?.map fun item => (Segment.index i, item)).map
          (fun child => ([child.1], some child.2)) =
        positions.map fun position => ([Segment.index position], items[position]?) := by
    intro positions hlt
    induction positions with
    | nil => rfl
    | cons position rest ih =>
        obtain ⟨hfirst, hrest⟩ := List.forall_mem_cons.1 hlt
        have hitem := List.getElem?_eq_getElem hfirst
        rw [List.filterMap_cons_some (by rw [hitem]; rfl), List.map_cons, List.map_cons, ih hrest,
          hitem]
  rw [Selector.reach, children, List.map_map]
  exact hpositions _ fun _ => lt_of_mem_positions

/--
A slice selects the numbers of its progression, in order, for every list whose
positions are integers of 64 bits. None of its bounds leaves the range of
these integers when it is counted from the end. All positions are in the list
and no two are the same, and since each round of the walk yields one of them,
it ends after no more rounds than the list has elements.
-/
theorem positions_eq_progression
    {length : Nat}
    (hlength : length < 9223372036854775808)
    (slice : Slice) :
    (∀ k : Nat, (slice.positions length)[k]?.map Nat.cast = (slice.progression length).at? k) ∧
    (∀ bound : Int, Integer64.isSigned bound = true →
      Integer64.isSigned (fromStart length bound) = true) ∧
    (∀ position ∈ slice.positions length, position < length) ∧
    (slice.positions length).Nodup ∧
    ((slice.positions length).Pairwise fun a b =>
      if 0 < slice.step.getD 1 then a < b else b < a) ∧
    (slice.positions length).length ≤ length ∧
    ∀ items : List Value, items.length = length →
      ((Selector.slice slice).reach (.list items)).map (fun located => (located.1, some located.2)) =
        (slice.positions length).map fun position => ([.index position], items[position]?) := by
  refine ⟨getElem?_positions hlength, ?_, fun _ => lt_of_mem_positions, slice.nodup_positions length,
    pairwise_positions hlength, slice.length_positions_le length, ?_⟩
  · intro bound hbound
    rw [fromStart]
    split
    · next hnegative =>
        simp only [Integer64.isSigned, Bool.and_eq_true, decide_eq_true_eq] at hbound ⊢
        omega
    · exact hbound
  · rintro items rfl
    exact slice.reach_slice items

/-- Every element that is as far from the last one as the least step goes. -/
def leastSteps : Slice :=
  ⟨some (-1), some (-9223372036854775808), some (-9223372036854775808)⟩

/-- In the longest list, the last element is the only one: one step from it leads out of the list
but not out of the range of indices. -/
theorem positions_eq_progression_leastSteps :
    9223372036854775807 < 9223372036854775808 ∧
      Integer64.isSigned (9223372036854775806 + -9223372036854775808) = true ∧
      (leastSteps.positions 9223372036854775807)[0]? = some 9223372036854775806 ∧
      (leastSteps.positions 9223372036854775807)[1]? = none ∧
      Integer64.isSigned (fromStart 9223372036854775807 (-9223372036854775808)) = true := by
  have hlength : 9223372036854775807 < 9223372036854775808 := by decide
  obtain ⟨hat, hbound, -⟩ := positions_eq_progression hlength leastSteps
  have hfirst : (leastSteps.positions 9223372036854775807)[0]?.map Nat.cast =
      some (9223372036854775806 : Int) := hat 0
  have hsecond : (leastSteps.positions 9223372036854775807)[1]?.map (Nat.cast : Nat → Int) = none :=
    hat 1
  refine ⟨hlength, rfl, ?_, Option.map_eq_none_iff.1 hsecond, hbound _ rfl⟩
  obtain ⟨position, hposition, heq⟩ := Option.map_eq_some_iff.1 hfirst
  rw [hposition, Nat.cast_inj.1 (heq.trans (Nat.cast_ofNat).symm)]

end Slice
end Query
end FieldQuery
