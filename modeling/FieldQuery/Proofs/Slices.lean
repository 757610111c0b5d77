import Mathlib.Data.List.Basic
import Mathlib.Tactic.Linarith
import Mathlib.Tactic.Ring
import FieldQuery.Query.Walk

/-!
# The positions of a slice

A slice yields the positions that it admits, each of them once. The walk
upwards or downwards is followed step by step: what it yields from a position
on is what is reached from there before the bound.
-/

namespace FieldQuery
namespace Query
namespace Slice

variable {step bound first target : Int}
variable {position : Nat}

/-- A number is reached in no steps or by way of the next number. -/
theorem reaches_iff :
    Reaches step first target ↔
      target = first ∨
        Integer64.isSigned (first + step) = true ∧ Reaches step (first + step) target := by
  have hshift (j : Nat) : first + step + j * step = first + ((j + 1 : Nat) : Int) * step := by
    push_cast
    ring
  constructor
  · rintro ⟨k, rfl, hrange⟩
    cases k with
    | zero => simp
    | succ k =>
        refine .inr ⟨by simpa using hrange 1 (by omega) (by omega), k, (hshift k).symm, ?_⟩
        intro j hj hjk
        rw [hshift]
        exact hrange (j + 1) (by omega) (by omega)
  · rintro (rfl | ⟨hnext, k, rfl, hrange⟩)
    · exact ⟨0, by simp, fun j hj hj0 => absurd hj0 (by omega)⟩
    · refine ⟨k + 1, hshift k, ?_⟩
      intro j hj hjk
      obtain ⟨j, rfl⟩ := Nat.exists_eq_succ_of_ne_zero hj.ne'
      rw [Nat.succ_eq_add_one, ← hshift]
      rcases Nat.eq_zero_or_pos j with rfl | hpos
      · simpa using hnext
      · exact hrange j hpos (by omega)

theorem Reaches.le
    (hstep : 0 < step)
    (h : Reaches step first target) :
    first ≤ target := by
  obtain ⟨k, rfl, -⟩ := h
  have := mul_nonneg (Int.natCast_nonneg k) hstep.le
  omega

theorem Reaches.ge
    (hstep : step < 0)
    (h : Reaches step first target) :
    target ≤ first := by
  obtain ⟨k, rfl, -⟩ := h
  have := mul_nonpos_of_nonneg_of_nonpos (Int.natCast_nonneg k) hstep.le
  omega

theorem upwards_eq :
    upwards bound step first =
      if 0 < step ∧ first < bound then
        first.toNat ::
          if Integer64.isSigned (first + step) then
            upwards bound step (first + step)
          else
            []
      else
        [] := by
  rw [upwards]
  congr 2
  split <;> grind [Integer64.add?]

theorem downwards_eq :
    downwards bound step first =
      if step < 0 ∧ bound < first then
        first.toNat ::
          if Integer64.isSigned (first + step) then
            downwards bound step (first + step)
          else
            []
      else
        [] := by
  rw [downwards]
  congr 2
  split <;> grind [Integer64.add?]

/-- The walk upwards yields what is reached below the bound. -/
theorem mem_upwards
    (hstep : 0 < step)
    (hfirst : 0 ≤ first) :
    position ∈ upwards bound step first ↔
      (position : Int) < bound ∧ Reaches step first position := by
  induction first using upwards.induct bound step with
  | case1 first hgo ih =>
      have hbelow : first < bound := hgo.2
      have hhead : position = first.toNat ↔ (position : Int) = first := by
        omega
      rw [upwards_eq, if_pos hgo, List.mem_cons, hhead, reaches_iff]
      by_cases hnext : Integer64.isSigned (first + step) = true
      · rw [if_pos hnext, ih (first + step) (if_pos hnext) (by omega)]
        grind
      · rw [if_neg hnext]
        grind
  | case2 first hstop =>
      rw [upwards_eq, if_neg hstop]
      have hreached (h : Reaches step first position) : first ≤ position := h.le hstep
      grind

/-- The walk downwards yields what is reached above the bound. -/
theorem mem_downwards
    (hstep : step < 0)
    (hbound : -1 ≤ bound) :
    position ∈ downwards bound step first ↔
      bound < (position : Int) ∧ Reaches step first position := by
  induction first using downwards.induct bound step with
  | case1 first hgo ih =>
      have habove : bound < first := hgo.2
      have hhead : position = first.toNat ↔ (position : Int) = first := by
        omega
      rw [downwards_eq, if_pos hgo, List.mem_cons, hhead, reaches_iff]
      by_cases hnext : Integer64.isSigned (first + step) = true
      · rw [if_pos hnext, ih (first + step) (if_pos hnext)]
        grind
      · rw [if_neg hnext]
        grind
  | case2 first hstop =>
      rw [downwards_eq, if_neg hstop]
      have hreached (h : Reaches step first position) : (position : Int) ≤ first := h.ge hstep
      grind

theorem nodup_upwards
    (hfirst : 0 ≤ first) :
    (upwards bound step first).Nodup := by
  induction first using upwards.induct bound step with
  | case1 first hgo ih =>
      rw [upwards_eq, if_pos hgo]
      by_cases hnext : Integer64.isSigned (first + step) = true
      · rw [if_pos hnext, List.nodup_cons]
        have hlater : 0 ≤ first + step := by omega
        refine ⟨?_, ih (first + step) (if_pos hnext) hlater⟩
        rw [mem_upwards hgo.1 hlater]
        rintro ⟨-, hreached⟩
        have := hreached.le hgo.1
        omega
      · rw [if_neg hnext]
        simp
  | case2 first hstop =>
      rw [upwards_eq, if_neg hstop]
      exact List.nodup_nil

theorem nodup_downwards
    (hbound : -1 ≤ bound) :
    (downwards bound step first).Nodup := by
  induction first using downwards.induct bound step with
  | case1 first hgo ih =>
      rw [downwards_eq, if_pos hgo]
      by_cases hnext : Integer64.isSigned (first + step) = true
      · rw [if_pos hnext, List.nodup_cons]
        refine ⟨?_, ih (first + step) (if_pos hnext)⟩
        rw [mem_downwards hgo.1 hbound]
        rintro ⟨-, hreached⟩
        have := hreached.ge hgo.1
        omega
      · rw [if_neg hnext]
        simp
  | case2 first hstop =>
      rw [downwards_eq, if_neg hstop]
      exact List.nodup_nil

section Bounds

variable {slice : Slice}
variable {length : Nat}

theorem lt_clamp_stop :
    (position : Int) < clamp 0 length (fromStart length (slice.stop.getD length)) ↔
      position < length ∧ ∀ stop ∈ slice.stop, (position : Int) < fromStart length stop := by
  cases slice.stop with
  | none =>
      simp only [Option.getD_none, Option.not_mem_none, false_implies, implies_true, and_true]
      grind [clamp, fromStart]
  | some stop =>
      simp only [Option.getD_some, Option.mem_some_iff, forall_eq']
      grind [clamp]

theorem clamp_stop_lt
    (hposition : position < length) :
    clamp (-1) (length - 1) ((slice.stop.map (fromStart length)).getD (-1)) < (position : Int) ↔
      ∀ stop ∈ slice.stop, fromStart length stop < (position : Int) := by
  cases slice.stop with
  | none =>
      simp only [Option.map_none, Option.getD_none, Option.not_mem_none, false_implies,
        implies_true, iff_true]
      grind [clamp]
  | some stop =>
      simp only [Option.map_some, Option.getD_some, Option.mem_some_iff, forall_eq']
      grind [clamp]

/-- A start beyond the end reaches nothing within the list, wherever it is moved to. -/
theorem reaches_clamp_iff_max
    (hstep : 0 < step)
    (hposition : position < length) :
    Reaches step (clamp 0 length first) position ↔ Reaches step (max 0 first) position := by
  by_cases hwithin : first ≤ length
  · rw [clamp, min_eq_right hwithin]
  · constructor
    · intro h
      have := h.le hstep
      grind [clamp]
    · intro h
      have := h.le hstep
      grind

theorem reaches_clamp_iff_min
    (hstep : step < 0) :
    Reaches step (clamp (-1) (length - 1) first) position ↔
      Reaches step (min (length - 1) first) position := by
  by_cases hwithin : -1 ≤ min ((length : Int) - 1) first
  · rw [clamp, max_eq_right hwithin]
  · constructor
    · intro h
      have := h.ge hstep
      grind [clamp]
    · intro h
      have := h.ge hstep
      grind

end Bounds

/-- A slice selects exactly the positions that it admits. -/
theorem mem_positions
    {slice : Slice}
    {length : Nat} :
    position ∈ slice.positions length ↔ slice.Admits length position := by
  simp only [positions, Bool.or_eq_true, decide_eq_true_eq]
  split
  · next hnone =>
      rw [iff_false_left List.not_mem_nil]
      rintro (⟨hstep, hlength, -, -⟩ | ⟨hstep, -, hreaches⟩)
      · omega
      · have := hreaches.ge hstep
        omega
  · split
    · next hnone hstep =>
        have hfirst : 0 ≤ clamp 0 length (fromStart length (slice.start.getD 0)) :=
          le_max_left _ _
        rw [mem_upwards hstep hfirst, lt_clamp_stop]
        constructor
        · rintro ⟨⟨hposition, hstop⟩, hreaches⟩
          exact .upwards hstep hposition hstop ((reaches_clamp_iff_max hstep hposition).1 hreaches)
        · rintro (⟨-, hposition, hstop, hreaches⟩ | ⟨hnegative, -, -⟩)
          · exact ⟨⟨hposition, hstop⟩, (reaches_clamp_iff_max hstep hposition).2 hreaches⟩
          · omega
    · next hnone hstep =>
        have hnegative : slice.step.getD 1 < 0 := by omega
        have hbound : -1 ≤ clamp (-1) (length - 1) ((slice.stop.map (fromStart length)).getD (-1)) :=
          le_max_left _ _
        rw [mem_downwards hnegative hbound, reaches_clamp_iff_min hnegative]
        constructor
        · rintro ⟨hstop, hreaches⟩
          have := hreaches.ge hnegative
          exact .downwards hnegative ((clamp_stop_lt (by omega)).1 hstop) hreaches
        · rintro (⟨hpositive, -, -, -⟩ | ⟨-, hstop, hreaches⟩)
          · omega
          · have := hreaches.ge hnegative
            exact ⟨(clamp_stop_lt (by omega)).2 hstop, hreaches⟩

/-- A slice selects no position twice. -/
theorem nodup_positions
    (slice : Slice)
    (length : Nat) :
    (slice.positions length).Nodup := by
  simp only [positions]
  split
  · exact List.nodup_nil
  · split
    · exact nodup_upwards (le_max_left _ _)
    · exact nodup_downwards (le_max_left _ _)

end Slice
end Query
end FieldQuery
