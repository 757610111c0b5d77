import FieldQuery.Query.Filter
import FieldQuery.Query.Reading

/-!
# Reading filters

Comparisons bind tighter than conjunctions, and conjunctions tighter than
disjunctions; both connectives associate to the left. A primary filter is a
relative path, a literal or a filter in parentheses.

Each rule calls itself only on what other rules have left, so the rules are
defined by recursion on the number of tokens, and within that by precedence.
-/

namespace FieldQuery
namespace Query
namespace Filter

/-- Reads the path after the sign of the current node. -/
def relativePath :
    List Token → Reading (List Accessor)
  | .dot :: .name name :: rest =>
      ((relativePath rest).map (.key name :: ·)).after 2
  | .openBracket :: .text name :: .closeBracket :: rest =>
      ((relativePath rest).map (.key name :: ·)).after 3
  | .openBracket :: .integer index :: .closeBracket :: rest =>
      ((relativePath rest).map (.index index :: ·)).after 3
  | .dot :: _ => .failure .noNameAfterCurrent 0
  | _ => .success [] 0

/-- Reads the parenthesis that closes a filter. -/
def closingParen
    (result : Filter) :
    List Token → Reading Filter
  | [] => .failure (.expectedInFilter .closeParen) 0
  | .endOfInput :: _ => .failure (.expectedInFilter .closeParen) 1
  | .closeParen :: _ => .success result 1
  | found :: _ => .failure (.expected .closeParen found) 1

mutual

/-- Reads filters joined by `||`. -/
def disjunction
    (tokens : List Token) :
    Reading Filter :=
  match conjunction tokens with
  | ⟨.ok first, taken⟩ => (moreDisjuncts first (tokens.drop taken)).after taken
  | failed => failed
termination_by (tokens.length, 5)
decreasing_by
  all_goals simp only [List.length_drop, Prod.lex_def, true_and]; omega

/-- Reads the filters that `||` joins to the ones before. -/
def moreDisjuncts
    (left : Filter)
    (tokens : List Token) :
    Reading Filter :=
  match tokens with
  | .or :: rest =>
      match conjunction rest with
      | ⟨.ok right, taken⟩ =>
          (moreDisjuncts (left.or right) (rest.drop taken)).after (1 + taken)
      | failed => failed.after 1
  | _ => .success left 0
termination_by (tokens.length, 4)
decreasing_by
  all_goals simp only [List.length_cons, List.length_drop, Prod.lex_def]; omega

/-- Reads filters joined by `&&`. -/
def conjunction
    (tokens : List Token) :
    Reading Filter :=
  match comparison tokens with
  | ⟨.ok first, taken⟩ => (moreConjuncts first (tokens.drop taken)).after taken
  | failed => failed
termination_by (tokens.length, 3)
decreasing_by
  all_goals simp only [List.length_drop, Prod.lex_def, true_and]; omega

/-- Reads the filters that `&&` joins to the ones before. -/
def moreConjuncts
    (left : Filter)
    (tokens : List Token) :
    Reading Filter :=
  match tokens with
  | .and :: rest =>
      match comparison rest with
      | ⟨.ok right, taken⟩ =>
          (moreConjuncts (left.and right) (rest.drop taken)).after (1 + taken)
      | failed => failed.after 1
  | _ => .success left 0
termination_by (tokens.length, 2)
decreasing_by
  all_goals simp only [List.length_cons, List.length_drop, Prod.lex_def]; omega

/-- Reads a primary filter, or two of them with a comparison between. -/
def comparison
    (tokens : List Token) :
    Reading Filter :=
  match primary tokens with
  | ⟨.ok left, taken⟩ =>
      match _h : tokens.drop taken with
      | .comparison operator :: rest =>
          ((primary rest).map (left.compare operator ·)).after (taken + 1)
      | _ => .success left taken
  | failed => failed
termination_by (tokens.length, 1)
decreasing_by
  all_goals
    try have := congrArg List.length _h
    simp only [List.length_cons, List.length_drop, Prod.lex_def, true_and] at *
    omega

/-- Reads a relative path, a literal or a filter in parentheses. -/
def primary
    (tokens : List Token) :
    Reading Filter :=
  match tokens with
  | .current :: rest => ((relativePath rest).map relative).after 1
  | .text value :: _ => .success (literal (.text value)) 1
  | .integer value :: _ => .success (literal (.integer value)) 1
  | .float value :: _ => .success (literal (.float value)) 1
  | .bool value :: _ => .success (literal (.bool value)) 1
  | .null :: _ => .success (literal .null) 1
  | .openParen :: rest =>
      match disjunction rest with
      | ⟨.ok inner, taken⟩ => (closingParen inner (rest.drop taken)).after (1 + taken)
      | failed => failed.after 1
  | .root :: _ => .failure .rootInFilter 1
  | [] => .failure .unterminatedFilter 0
  | .endOfInput :: _ => .failure .unterminatedFilter 1
  | found :: _ => .failure (.unexpectedInFilter found) 1
termination_by (tokens.length, 0)
decreasing_by
  all_goals simp only [List.length_cons, Prod.lex_def]; omega

end

/-- Reads the longest filter at the front of a list of tokens. -/
def read
    (tokens : List Token) :
    Reading Filter :=
  disjunction tokens

end Filter
end Query
end FieldQuery
