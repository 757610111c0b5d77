import FieldQuery.Query.Selector

/-!
# Walks

What a query is meant to match, without reference to how it is evaluated. A
location is walked from the root of a document in pieces, one for each
selector. A piece has to exist at the node reached, and the selector has to
admit it there. A union may admit a segment by several of its members; each
of them makes a walk of its own.
-/

namespace FieldQuery
namespace Query

/-- The segments that a choice admits at a node. -/
inductive Choice.Admits
    (node : Value) :
    Choice → Segment → Prop
  | name
      (name : String) :
      Admits node (.access (.key name)) (.member name)
  | fromStart
      (position : Nat) :
      Admits node (.access (.index position)) (.index position)
  | fromEnd
      {items : List Value}
      {i : Int}
      {position : Nat}
      (hnode : node = .list items)
      (hnegative : i < 0)
      (hposition : (position : Int) = items.length + i) :
      Admits node (.access (.index i)) (.index position)
  | every
      (segment : Segment) :
      Admits node .every segment

/--
Whether a number is reached from another one in steps, none of which leaves
the range of indices.
-/
def Slice.Reaches
    (step first position : Int) :
    Prop :=
  ∃ k : Nat,
    position = first + k * step ∧
    ∀ j : Nat, 0 < j → j ≤ k → Integer64.isSigned (first + j * step)

/-- The positions that a slice admits in a list of a given length. -/
inductive Slice.Admits
    (slice : Slice)
    (length position : Nat) :
    Prop
  | upwards
      (hstep : 0 < slice.step.getD 1)
      (hlength : position < length)
      (hstop : ∀ stop ∈ slice.stop, (position : Int) < Slice.fromStart length stop)
      (hreaches : Slice.Reaches (slice.step.getD 1)
        (max 0 (Slice.fromStart length (slice.start.getD 0))) position)
  | downwards
      (hstep : slice.step.getD 1 < 0)
      (hstop : ∀ stop ∈ slice.stop, Slice.fromStart length stop < (position : Int))
      (hreaches : Slice.Reaches (slice.step.getD 1)
        (min (length - 1) ((slice.start.map (Slice.fromStart length)).getD (length - 1))) position)

/--
The pieces that a selector takes at a node, each with the member of the union
that admits it, which is 0 for all other selectors.
-/
inductive Selector.Takes
    (node : Value) :
    Selector → Location → Nat → Prop
  | choose
      {choice : Choice}
      {segment : Segment}
      (hadmits : choice.Admits node segment) :
      Takes node (.choose choice) [segment] 0
  | slice
      {slice : Slice}
      {items : List Value}
      {position : Nat}
      (hnode : node = .list items)
      (hadmits : slice.Admits items.length position) :
      Takes node (.slice slice) [.index position] 0
  | filter
      {predicate : Filter}
      {segment : Segment}
      {child : Value}
      (hchild : segment.get? node = some child)
      (hholds : predicate.holds child) :
      Takes node (.filter predicate) [segment] 0
  | union
      {choices : List Choice}
      {choice : Choice}
      {segment : Segment}
      {member : Nat}
      (hmember : choices[member]? = some choice)
      (hadmits : choice.Admits node segment) :
      Takes node (.union choices) [segment] member
  | descent
      (piece : Location) :
      Takes node .descent piece 0

/-- A location cut into pieces, each with the member of a union that admits it. -/
abbrev Cut :=
  List (Location × Nat)

/-- The location that is cut. -/
def Cut.location
    (cut : Cut) :
    Location :=
  (cut.map Prod.fst).flatten

/-- Whether a chain of selectors walks from a node along the pieces of a cut. -/
inductive Walks :
    Value → List Selector → Cut → Prop
  | done
      {node : Value} :
      Walks node [] []
  | step
      {node next : Value}
      {selector : Selector}
      {rest : List Selector}
      {piece : Location}
      {member : Nat}
      {cut : Cut}
      (htakes : selector.Takes node piece member)
      (hexists : piece.resolve? node = some next)
      (hrest : Walks next rest cut) :
      Walks node (selector :: rest) ((piece, member) :: cut)

end Query
end FieldQuery
