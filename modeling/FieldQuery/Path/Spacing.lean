import FieldQuery.Path.Plan
import FieldQuery.Path.Spelling

/-!
# Spacing of paths

Blanks between the tokens of a path do not change what query it is. A plan,
though, takes its steps from the plain part of the path as it is written. Two
paths are written with the same pieces if they differ only in their spacing,
that is, in the blanks between their tokens. They are planned alike if the
steps of their plans are the same and what the steps leave over is the same
query.
-/

namespace FieldQuery
namespace Path

open Query (Chain Token Lexeme)

/-- A token and the characters that it is written with. -/
structure Piece where
  token : Token
  written : List Char
deriving DecidableEq

/-- A lexeme with its characters instead of their positions. -/
def Piece.ofLexeme
    (text : List Char)
    (lexeme : Lexeme) :
    Piece :=
  ⟨lexeme.token, Division.between text lexeme.start lexeme.stop⟩

/-- What a path is written with, apart from the blanks between its tokens. -/
def pieces?
    (path : String) :
    Option (List Piece) :=
  match Lexeme.ofText 0 path.toList with
  | .ok lexemes => some (lexemes.map (Piece.ofLexeme path.toList))
  | .error _ => none

/-- Whether the plain part of a path has no blanks between its tokens, except in brackets. -/
def plainlySpaced
    (path : String) :
    Bool :=
  blanksEnclosed .outside 0 (Division.ofText path).plain.toList

/-- Whether two advanced parts are missing, or are queries of the same selectors and function. -/
def SameQuery :
    Option String → Option String → Prop
  | none, none => True
  | some first, some second =>
      ∃ chain,
        Query.compile first = .ok ⟨chain, first⟩ ∧
        Query.compile second = .ok ⟨chain, second⟩
  | _, _ => False

/-- Whether two paths have no plan, or have plans that come to the same. -/
def PlannedAlike
    (first second : String) : Prop :=
  match Plan.compile .full first, Plan.compile .full second with
  | .ok plan, .ok other =>
      plan.contexts = other.contexts ∧
        plan.last = other.last ∧
        plan.isLengthOnly = other.isLengthOnly ∧
        SameQuery plan.advanced other.advanced
  | .error _, .error _ => True
  | _, _ => False

end Path
end FieldQuery
