/-!
# Quoted spans of a path

A path is divided before it is known to be well formed, so the quoted parts
of a text are found on their own: a quoted span runs from a quote to the next
quote of the same kind, where a backslash inside takes the next character
along. A quote that is never closed reaches to the end of the text.
-/

namespace FieldQuery
namespace Path

/-- The characters from position `start` up to, but not including, `stop`. -/
structure Span where
  start : Nat
  stop : Nat
deriving DecidableEq

/-- Whether a position lies in a span. -/
def Span.covers
    (span : Span)
    (position : Nat) :
    Bool :=
  span.start ≤ position && position < span.stop

/-- Whether a position lies in one of the spans. -/
def isCovered
    (spans : List Span)
    (position : Nat) :
    Bool :=
  spans.any (·.covers position)

/-- Where in a text the search for quotes is. -/
inductive QuoteState where
  | outside
  | inside (quote : Char) (start : Nat)
  | escaped (quote : Char) (start : Nat)
deriving DecidableEq

/-- The quoted spans of the rest of a text, which starts at a position. -/
def spansFrom
    (state : QuoteState)
    (position : Nat) :
    List Char → List Span
  | [] =>
      match state with
      | .outside => []
      | .inside _ start => [⟨start, position⟩]
      | .escaped _ start => [⟨start, position⟩]
  | c :: rest =>
      match state with
      | .outside =>
          if c = '\'' || c = '"' then
            spansFrom (.inside c position) (position + 1) rest
          else
            spansFrom .outside (position + 1) rest
      | .inside quote start =>
          if c = '\\' then
            spansFrom (.escaped quote start) (position + 1) rest
          else if c = quote then
            ⟨start, position + 1⟩ :: spansFrom .outside (position + 1) rest
          else
            spansFrom (.inside quote start) (position + 1) rest
      | .escaped quote start =>
          spansFrom (.inside quote start) (position + 1) rest

/-- The quoted spans of a text, quotes included, in order. -/
def quotedSpans
    (text : List Char) :
    List Span :=
  spansFrom .outside 0 text

end Path
end FieldQuery
