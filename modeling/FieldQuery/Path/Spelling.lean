import FieldQuery.Path.Division
import FieldQuery.Query.LeadingRun

/-!
# Spelling of paths

Only a query text can be a path, but not every spelling of a query suits a
path: the plain part is taken as it is written. A path is well spelled if its
blanks stand inside quotes or brackets and if a backslash in a leading key
stands only before a backslash, a quote or a slash.
-/

namespace FieldQuery
namespace Path

/-- Where reading is with respect to quotes. -/
inductive Quoting where
  | outside
  | inside (quote : Char)
  | escaped (quote : Char)
deriving DecidableEq

namespace Quoting

/-- Where reading is after one more character. -/
def next :
    Quoting → Char → Quoting
  | outside, c =>
      if c = '\'' || c = '"' then
        inside c
      else
        outside
  | inside quote, c =>
      if c = '\\' then
        escaped quote
      else if c = quote then
        outside
      else
        inside quote
  | escaped quote, _ => inside quote

/-- Whether a character belongs to a quoted text, its quotes included. -/
def covers :
    Quoting → Char → Bool
  | outside, c => c = '\'' || c = '"'
  | inside _, _ => true
  | escaped _, _ => true

/-- Where reading is after some more characters. -/
def after
    (state : Quoting)
    (text : List Char) :
    Quoting :=
  text.foldl next state

end Quoting

/-- The number of open brackets after one more character outside quotes. -/
def depthAfter
    (depth : Nat) :
    Char → Nat
  | '[' => depth + 1
  | ']' => depth - 1
  | _ => depth

/-- Whether the blanks that separate tokens all stand inside quotes or brackets. -/
def blanksEnclosed
    (state : Quoting)
    (depth : Nat) :
    List Char → Bool
  | [] => true
  | c :: rest =>
      if state.covers c then
        blanksEnclosed (state.next c) depth rest
      else
        (0 < depth || !Text.isAsciiBlank c) &&
          blanksEnclosed (state.next c) (depthAfter depth c) rest

/-- Whether every backslash stands before a backslash, a quote or a slash. -/
def plainlyEscaped :
    List Char → Bool
  | [] => true
  | ['\\'] => false
  | '\\' :: c :: rest =>
      (c = '\\' || c = '\'' || c = '"' || c = '/') && plainlyEscaped rest
  | _ :: rest => plainlyEscaped rest

/-- The quoted keys among the segments that name one child each from the front. -/
def leadingKeys :
    List Query.Lexeme → List Query.Lexeme
  | opening :: inner :: rest =>
      match opening.token, inner.token, rest with
      | .openBracket, .text _, closing :: rest =>
          if closing.token = .closeBracket then
            inner :: leadingKeys rest
          else
            []
      | .openBracket, .integer _, closing :: rest =>
          if closing.token = .closeBracket then
            leadingKeys rest
          else
            []
      | .dot, name, rest =>
          if name.memberName?.isSome then
            leadingKeys rest
          else
            []
      | _, _, _ => []
  | _ => []

/-- Whether the leading keys of a text are plainly escaped. -/
def keysPlainlyEscaped
    (text : List Char) :
    Bool :=
  match Query.Lexeme.ofText 0 text with
  | .error _ => false
  | .ok lexemes =>
      (leadingKeys lexemes.tail).all fun key =>
        plainlyEscaped (Division.between text key.start key.stop)

/-- A path whose text compiles to a query and is well spelled. -/
structure WellSpelled
    (path : String)
    (query : Query) : Prop where
  compiles : Query.compile path = .ok query
  blanks : blanksEnclosed .outside 0 path.toList = true
  escapes : keysPlainlyEscaped path.toList = true

end Path
end FieldQuery
