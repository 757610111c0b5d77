import FieldQuery.Integer64

/-!
# Slices

A slice selects the elements of a list from a start to a stop in steps. A
negative bound counts from the end of the list, bounds outside the list are
moved to its ends, and a negative step walks backwards. The walk also ends
where the next position would leave the range of indices.
-/

namespace FieldQuery
namespace Query

/-- The bounds and the step of a slice, each of which may be left out. -/
structure Slice where
  start : Option Int
  stop : Option Int
  step : Option Int
deriving DecidableEq

namespace Slice

/-- A bound counted from the start of a list. -/
def fromStart
    (length : Int)
    (bound : Int) :
    Int :=
  if bound < 0 then
    length + bound
  else
    bound

/-- The nearest number within two limits. -/
def clamp
    (low high : Int)
    (n : Int) :
    Int :=
  max low (min high n)

/-- The positions from `i` upwards in positive steps, below `upper`. -/
def upwards
    (upper step i : Int) :
    List Nat :=
  if 0 < step ∧ i < upper then
    i.toNat ::
      match _h : Integer64.add? i step with
      | some next => upwards upper step next
      | none => []
  else
    []
termination_by (upper - i).toNat
decreasing_by
  have := Integer64.eq_add_of_add? _h
  omega

/-- The positions from `i` downwards in negative steps, above `lower`. -/
def downwards
    (lower step i : Int) :
    List Nat :=
  if step < 0 ∧ lower < i then
    i.toNat ::
      match _h : Integer64.add? i step with
      | some next => downwards lower step next
      | none => []
  else
    []
termination_by (i - lower).toNat
decreasing_by
  have := Integer64.eq_add_of_add? _h
  omega

/-- The positions that a slice selects from a list of a given length, in order. -/
def positions
    (slice : Slice)
    (length : Nat) :
    List Nat :=
  let n : Int := length
  let step := slice.step.getD 1
  if step = 0 || length = 0 then
    []
  else if 0 < step then
    let lower := clamp 0 n (fromStart n (slice.start.getD 0))
    let upper := clamp 0 n (fromStart n (slice.stop.getD n))
    upwards upper step lower
  else
    let upper := clamp (-1) (n - 1) ((slice.start.map (fromStart n)).getD (n - 1))
    let lower := clamp (-1) (n - 1) ((slice.stop.map (fromStart n)).getD (-1))
    downwards lower step upper

end Slice
end Query
end FieldQuery
