import FieldQuery.Query.Compiled

/-!
# The grammar of queries

What the segments of a query are written with, and the selectors that they
stand for. A segment is a dot with a word, a bracket, or a double dot with a
word or a bracket; a word is a name, a keyword that serves as a name, or a
star. A call of `length()` may close the query.

The grammar says what a list of tokens is, not how it is found out: segments
are put one after another, and none depends on what is around it.
-/

namespace FieldQuery
namespace Query

/-- The token that a choice is written with. -/
def Choice.token :
    Choice → Token
  | access (.key name) => .text name
  | access (.index i) => .integer i
  | every => .star

/-- A bound or a step of a slice, which may be left out. -/
def Slice.boundTokens
    (bound : Option Int) :
    List Token :=
  bound.toList.map .integer

/-- The call of a function at the end of a query. -/
def Function.tokens :
    Option Function → List Token
  | none => []
  | some length => [.dot, .name "length", .openParen, .closeParen]

namespace Grammar

/-- What may follow a dot or a double dot. -/
inductive Word :
    Token → Selector → Prop
  | star :
      Word .star (.choose .every)
  | name
      {token : Token}
      {name : String}
      (hname : token.memberName? = some name) :
      Word token (.named name)

/-- What may stand between brackets. -/
inductive Content :
    List Token → Selector → Prop
  | choice
      (choice : Choice) :
      Content [choice.token] (.choose choice)
  | union
      {first : Choice}
      {more : List Choice}
      (hmore : more ≠ []) :
      Content
        (first.token :: more.flatMap fun choice => [.comma, choice.token])
        (.union (first :: more))
  | range
      (start stop : Option Int) :
      Content
        (Slice.boundTokens start ++ .colon :: Slice.boundTokens stop)
        (.slice ⟨start, stop, none⟩)
  | steps
      (start stop : Option Int)
      {step : Option Int}
      (hstep : step ≠ some 0) :
      Content
        (Slice.boundTokens start ++
          .colon :: (Slice.boundTokens stop ++ .colon :: Slice.boundTokens step))
        (.slice ⟨start, stop, step⟩)
  | filter
      {tokens : List Token}
      {predicate : Filter}
      (hread : Filter.read (tokens ++ [.closeBracket]) = ⟨.ok predicate, tokens.length⟩) :
      Content (.question :: tokens) (.filter predicate)

/-- A word or a bracket. -/
inductive Target :
    List Token → Selector → Prop
  | word
      {token : Token}
      {selector : Selector}
      (hword : Word token selector) :
      Target [token] selector
  | bracket
      {content : List Token}
      {selector : Selector}
      (hcontent : Content content selector) :
      Target (.openBracket :: (content ++ [.closeBracket])) selector

/-- The segments of a query and the selectors that they stand for. -/
inductive Segment :
    List Token → List Selector → Prop
  | dot
      {token : Token}
      {selector : Selector}
      (hword : Word token selector) :
      Segment [.dot, token] [selector]
  | bracket
      {content : List Token}
      {selector : Selector}
      (hcontent : Content content selector) :
      Segment (.openBracket :: (content ++ [.closeBracket])) [selector]
  | descent
      {tokens : List Token}
      {selector : Selector}
      (htarget : Target tokens selector) :
      Segment (.descent :: tokens) [.descent, selector]

/-- Segments one after another. -/
inductive Segments :
    List Token → List Selector → Prop
  | nil :
      Segments [] []
  | cons
      {tokens rest : List Token}
      {selectors others : List Selector}
      (hsegment : Segment tokens selectors)
      (hrest : Segments rest others) :
      Segments (tokens ++ rest) (selectors ++ others)

end Grammar
end Query
end FieldQuery
