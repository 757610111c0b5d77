import FieldQuery.Query.Lexeme
import FieldQuery.Query.SelectorReading

/-!
# Compiled queries

A query starts at the root sign and goes on with a chain of selectors. A
final `.length()` turns it into a query for the lengths of the nodes that
the chain selects.
-/

namespace FieldQuery

namespace Query

/-- A function at the end of a query. -/
inductive Function where
  | length
deriving DecidableEq

/-- Selectors and the function that follows them. -/
structure Chain where
  selectors : List Selector
  function : Option Function
deriving DecidableEq

namespace Chain

/-- The chain with another selector in front. -/
def cons
    (selector : Selector)
    (chain : Chain) :
    Chain :=
  ⟨selector :: chain.selectors, chain.function⟩

/-- Whether no tokens are left but the end of the input. -/
def isAtEnd :
    List Token → Bool
  | [] => true
  | .endOfInput :: _ => true
  | _ => false

/-- What follows a call of `length()`, if there is one at the front. -/
def afterLength? :
    List Token → Option (List Token)
  | .dot :: .name "length" :: .openParen :: .closeParen :: rest => some rest
  | _ => none

/--
Reads the segments that follow the root sign. A segment takes at least its
first token, and a double dot is read together with its target.
-/
def read
    (tokens : List Token) :
    Except Fault Chain :=
  match tokens with
  | [] => .ok ⟨[], none⟩
  | .endOfInput :: _ => .ok ⟨[], none⟩
  | head :: rest =>
      match afterLength? (head :: rest) with
      | some after =>
          if isAtEnd after then
            .ok ⟨[], some .length⟩
          else
            .error .lengthNotLast
      | none =>
          match Selector.read (head :: rest) with
          | ⟨.error fault, _⟩ => .error fault
          | ⟨.ok .descent, _⟩ =>
              if isAtEnd rest then
                .error .danglingDescent
              else
                match Selector.readTarget rest with
                | ⟨.error fault, _⟩ => .error fault
                | ⟨.ok target, taken⟩ =>
                    match read (rest.drop taken) with
                    | .ok chain => .ok ((chain.cons target).cons .descent)
                    | .error fault => .error fault
          | ⟨.ok selector, taken⟩ =>
              match read (rest.drop (taken - 1)) with
              | .ok chain => .ok (chain.cons selector)
              | .error fault => .error fault
termination_by tokens.length
decreasing_by
  all_goals simp only [List.length_cons, List.length_drop]; omega

end Chain
end Query

/-- A compiled query: its chain and the text that it was compiled from. -/
structure Query where
  chain : Query.Chain
  source : String
deriving DecidableEq

namespace Query

/-- The selectors of a query, applied from the root on. -/
def selectors
    (query : Query) :
    List Selector :=
  query.chain.selectors

/-- The function at the end of a query. -/
def function
    (query : Query) :
    Option Function :=
  query.chain.function

/-- Whether a query can match at most one node. -/
def isSingular
    (query : Query) :
    Bool :=
  query.selectors.all Selector.isSingular

/-- Whether a query asks for the length of a node that it names one step at a time. -/
def isPlainLength
    (query : Query) :
    Bool :=
  query.function = some .length && query.isSingular

/-- Where a fault of the grammar is reported to show in a text. -/
def faultPosition
    (text : String) :
    Fault → Nat
  | .danglingDescent => text.utf8ByteSize
  | _ => 0

/-- The chain of a list of tokens that starts with the root sign. -/
def ofTokens :
    List Token → Except Fault Chain
  | .root :: body => Chain.read body
  | _ => .error .missingRoot

/-- Why a text cannot be a query by its first character. -/
def badStart? :
    List Char → Option Fault
  | [] => some .empty
  | '$' :: _ => none
  | '@' :: _ => some .startsAtCurrent
  | _ :: _ => some .notRooted

/-- Compiles the text of a query. -/
def compile
    (text : String) :
    Except QueryError Query :=
  match badStart? text.toList with
  | some fault => .error (.malformed text fault 0)
  | none =>
      match Token.ofText text with
      | .error (fault, position) => .error (.malformed text fault position)
      | .ok tokens =>
          match ofTokens tokens with
          | .error fault => .error (.malformed text fault (faultPosition text fault))
          | .ok chain => .ok ⟨chain, text⟩

end Query
end FieldQuery
