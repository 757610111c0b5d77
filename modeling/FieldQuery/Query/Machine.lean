import FieldQuery.Query.Compiled

/-!
# Reading step by step

The rules for segments and filters as a machine on a queue of tokens.

**States.** A state is the rule that is called next or the outcome that a call
came back with, the calls that wait for an outcome, innermost first, and the
tokens that are left.

**Steps.** A step enters a rule, goes once around one of its loops, or takes an
outcome back to the call that waits for it. A fault is handed from call to
call. No step is defined by recursion, so whether the machine stops, and after
how many steps, is a question about its runs.

The loop over the segments of a query is given in the same way, one round at a
time.
-/

namespace FieldQuery
namespace Query
namespace Machine

/-- What a rule reads. -/
inductive Part where
  | filter (predicate : Filter)
  | selector (selector : Selector)
deriving DecidableEq

/-- The rules, those with a loop together with what the loop has read so far. -/
inductive Rule where
  | segment
  | target
  | bracket
  | afterChoice (first : Choice)
  | afterIndex (index : Int)
  | unionTail (before : List Choice)
  | disjunction
  | moreDisjuncts (left : Filter)
  | conjunction
  | moreConjuncts (left : Filter)
  | comparison
  | primary
  | relativePath (before : List Accessor)
deriving DecidableEq

/-- What a call that waits for a filter goes on with. -/
inductive Frame where
  | firstDisjunct
  | disjunct (left : Filter)
  | firstConjunct
  | conjunct (left : Filter)
  | leftOperand
  | rightOperand (left : Filter) (operator : Comparison)
  | parens
  | brackets
deriving DecidableEq

/-- What a machine is about to do: call a rule, or hand an outcome back. -/
inductive Control where
  | call (rule : Rule)
  | done (outcome : Except Fault Part)

/-- A state of the machine. -/
structure State where
  control : Control
  stack : List Frame
  tokens : List Token

/-- A rule called on a queue of tokens, with no other call waiting. -/
def start
    (rule : Rule)
    (tokens : List Token) :
    State :=
  ⟨.call rule, [], tokens⟩

/-- A call comes back with a part. -/
def found
    (part : Part)
    (stack : List Frame)
    (tokens : List Token) :
    State :=
  ⟨.done (.ok part), stack, tokens⟩

/-- A call comes back with a fault. -/
def failed
    (fault : Fault)
    (stack : List Frame)
    (tokens : List Token) :
    State :=
  ⟨.done (.error fault), stack, tokens⟩

/-- A call comes back with what a reading without calls and loops gives. -/
def settled
    (reading : Reading Part)
    (stack : List Frame)
    (tokens : List Token) :
    State :=
  ⟨.done reading.outcome, stack, reading.rest tokens⟩

section Entering

variable (stack : List Frame)

/-- Enters the rule for one segment. -/
def enterSegment :
    List Token → State
  | .dot :: rest => settled ((Selector.afterDot rest).map .selector) stack rest
  | .descent :: rest => found (.selector .descent) stack rest
  | .openBracket :: rest => ⟨.call .bracket, stack, rest⟩
  | .closeBracket :: rest => failed .unmatchedBracket stack (.closeBracket :: rest)
  | .current :: rest => failed .currentOutsideFilter stack (.current :: rest)
  | .root :: rest => failed .secondRoot stack (.root :: rest)
  | tokens => failed .noSelector stack tokens

/-- Enters the rule for the target of a descent. -/
def enterTarget :
    List Token → State
  | .star :: rest => found (.selector (.choose .every)) stack rest
  | .openBracket :: rest => ⟨.call .bracket, stack, rest⟩
  | first :: rest =>
      match first.memberName? with
      | some name => found (.selector (.named name)) stack rest
      | none => failed .noDescentTarget stack (first :: rest)
  | [] => failed .noDescentTarget stack []

/-- Enters a bracket behind its sign. -/
def enterBracket :
    List Token → State
  | .question :: rest => ⟨.call .disjunction, .brackets :: stack, rest⟩
  | .integer index :: rest => ⟨.call (.afterIndex index), stack, rest⟩
  | .colon :: rest => settled ((Selector.sliceTail none rest).map .selector) stack rest
  | .star :: rest => ⟨.call (.afterChoice .every), stack, rest⟩
  | .text name :: rest => ⟨.call (.afterChoice (.access (.key name))), stack, rest⟩
  | .closeBracket :: rest => failed .emptyBrackets stack (.closeBracket :: rest)
  | .endOfInput :: rest => failed .unterminatedBracket stack (.endOfInput :: rest)
  | [] => failed .unterminatedBracket stack []
  | first :: rest => failed (.unexpectedInBrackets first) stack (first :: rest)

/-- Goes on behind a name or a star in a bracket. -/
def enterAfterChoice
    (first : Choice) :
    List Token → State
  | .comma :: rest => ⟨.call (.unionTail [first]), stack, .comma :: rest⟩
  | tokens =>
      settled ((Reading.closing .closeBracket (.choose first) tokens).map .selector) stack tokens

/-- Goes on behind an integer in a bracket. -/
def enterAfterIndex
    (index : Int) :
    List Token → State
  | .closeBracket :: rest => found (.selector (.choose (.access (.index index)))) stack rest
  | .colon :: rest => settled ((Selector.sliceTail (some index) rest).map .selector) stack rest
  | .comma :: rest => ⟨.call (.unionTail [.access (.index index)]), stack, .comma :: rest⟩
  | tokens => failed .badAfterIndex stack tokens

/-- Goes once around the loop over the members of a union. -/
def enterUnionTail
    (before : List Choice) :
    List Token → State
  | .comma :: member :: rest =>
      match Selector.choice? member with
      | some choice => ⟨.call (.unionTail (before ++ [choice])), stack, rest⟩
      | none => failed .badUnionMember stack rest
  | [.comma] => failed .badUnionMember stack []
  | tokens =>
      settled ((Reading.closing .closeBracket (.union before) tokens).map .selector) stack tokens

/-- Goes once around the loop over the filters that `||` joins. -/
def enterMoreDisjuncts
    (left : Filter) :
    List Token → State
  | .or :: rest => ⟨.call .conjunction, .disjunct left :: stack, rest⟩
  | tokens => found (.filter left) stack tokens

/-- Goes once around the loop over the filters that `&&` joins. -/
def enterMoreConjuncts
    (left : Filter) :
    List Token → State
  | .and :: rest => ⟨.call .comparison, .conjunct left :: stack, rest⟩
  | tokens => found (.filter left) stack tokens

/-- Enters the rule for a relative path, a literal or a filter in parentheses. -/
def enterPrimary :
    List Token → State
  | .current :: rest => ⟨.call (.relativePath []), stack, rest⟩
  | .text value :: rest => found (.filter (.literal (.text value))) stack rest
  | .integer value :: rest => found (.filter (.literal (.integer value))) stack rest
  | .float value :: rest => found (.filter (.literal (.float value))) stack rest
  | .bool value :: rest => found (.filter (.literal (.bool value))) stack rest
  | .null :: rest => found (.filter (.literal .null)) stack rest
  | .openParen :: rest => ⟨.call .disjunction, .parens :: stack, rest⟩
  | .root :: rest => failed .rootInFilter stack rest
  | [] => failed .unterminatedFilter stack []
  | .endOfInput :: rest => failed .unterminatedFilter stack rest
  | first :: rest => failed (.unexpectedInFilter first) stack rest

/-- Goes once around the loop over the steps of a relative path. -/
def enterRelativePath
    (before : List Accessor) :
    List Token → State
  | .dot :: .name name :: rest => ⟨.call (.relativePath (before ++ [.key name])), stack, rest⟩
  | .openBracket :: .text name :: .closeBracket :: rest =>
      ⟨.call (.relativePath (before ++ [.key name])), stack, rest⟩
  | .openBracket :: .integer index :: .closeBracket :: rest =>
      ⟨.call (.relativePath (before ++ [.index index])), stack, rest⟩
  | .dot :: rest => failed .noNameAfterCurrent stack (.dot :: rest)
  | tokens => found (.filter (.relative before)) stack tokens

/-- Enters a rule, or goes once around its loop. -/
def enter
    (tokens : List Token) :
    Rule → State
  | .segment => enterSegment stack tokens
  | .target => enterTarget stack tokens
  | .bracket => enterBracket stack tokens
  | .afterChoice first => enterAfterChoice stack first tokens
  | .afterIndex index => enterAfterIndex stack index tokens
  | .unionTail before => enterUnionTail stack before tokens
  | .disjunction => ⟨.call .conjunction, .firstDisjunct :: stack, tokens⟩
  | .moreDisjuncts left => enterMoreDisjuncts stack left tokens
  | .conjunction => ⟨.call .comparison, .firstConjunct :: stack, tokens⟩
  | .moreConjuncts left => enterMoreConjuncts stack left tokens
  | .comparison => ⟨.call .primary, .leftOperand :: stack, tokens⟩
  | .primary => enterPrimary stack tokens
  | .relativePath before => enterRelativePath stack before tokens

/-- Goes on behind the left operand of what may be a comparison. -/
def resumeLeftOperand
    (left : Filter) :
    List Token → State
  | .comparison operator :: rest => ⟨.call .primary, .rightOperand left operator :: stack, rest⟩
  | tokens => found (.filter left) stack tokens

/-- Takes a filter back to the call that waits for it. -/
def resume
    (tokens : List Token)
    (result : Filter) :
    Frame → State
  | .firstDisjunct => ⟨.call (.moreDisjuncts result), stack, tokens⟩
  | .disjunct left => ⟨.call (.moreDisjuncts (left.or result)), stack, tokens⟩
  | .firstConjunct => ⟨.call (.moreConjuncts result), stack, tokens⟩
  | .conjunct left => ⟨.call (.moreConjuncts (left.and result)), stack, tokens⟩
  | .leftOperand => resumeLeftOperand stack result tokens
  | .rightOperand left operator => found (.filter (left.compare operator result)) stack tokens
  | .parens => settled ((Filter.closingParen result tokens).map .filter) stack tokens
  | .brackets =>
      settled ((Reading.closing .closeBracket (.filter result) tokens).map .selector) stack tokens

end Entering

namespace State

/-- One step of the machine; it stops with an outcome that no call waits for. -/
def step :
    State → Option State
  | ⟨.call rule, stack, tokens⟩ => some (enter stack tokens rule)
  | ⟨.done (.error fault), _ :: stack, tokens⟩ => some (failed fault stack tokens)
  | ⟨.done (.ok (.filter result)), frame :: stack, tokens⟩ =>
      some (resume stack tokens result frame)
  | _ => none

/-- The state after a number of steps, or where the machine stops before. -/
def run :
    Nat → State → State
  | 0, state => state
  | steps + 1, state =>
      match state.step with
      | some next => next.run steps
      | none => state

/-- How many calls wait for a filter in parentheses. -/
def depth
    (state : State) :
    Nat :=
  state.stack.count .parens

/-- One if the next step is a recursive call for a filter in parentheses. -/
def recursing :
    State → Nat
  | ⟨.call .primary, _, .openParen :: _⟩ => 1
  | _ => 0

/-- How many calls for a filter in parentheses are made in a number of steps. -/
def recursions :
    Nat → State → Nat
  | 0, _ => 0
  | steps + 1, state =>
      match state.step with
      | some next => state.recursing + next.recursions steps
      | none => 0

end State
end Machine

namespace Chain

/-- The loop over the segments of a query: what it has read, and the tokens that are left. -/
structure Loop where
  chain : Chain
  tokens : List Token

namespace Loop

/-- The loop goes on until no tokens are left but the end of the input. -/
def isOver
    (loop : Loop) :
    Bool :=
  isAtEnd loop.tokens

/-- The loop with more selectors read and other tokens left. -/
def extended
    (loop : Loop)
    (selectors : List Selector)
    (tokens : List Token) :
    Loop :=
  ⟨⟨loop.chain.selectors ++ selectors, loop.chain.function⟩, tokens⟩

/-- One round of the loop. -/
def round
    (loop : Loop) :
    Except Fault Loop :=
  if loop.chain.function.isSome then
    .error .lengthNotLast
  else
    match afterLength? loop.tokens with
    | some after => .ok ⟨⟨loop.chain.selectors, some .length⟩, after⟩
    | none =>
        match Selector.read loop.tokens with
        | ⟨.error fault, _⟩ => .error fault
        | ⟨.ok .descent, taken⟩ =>
            if isAtEnd (loop.tokens.drop taken) then
              .error .danglingDescent
            else
              match Selector.readTarget (loop.tokens.drop taken) with
              | ⟨.error fault, _⟩ => .error fault
              | ⟨.ok target, further⟩ =>
                  .ok (loop.extended [.descent, target] ((loop.tokens.drop taken).drop further))
        | ⟨.ok selector, taken⟩ => .ok (loop.extended [selector] (loop.tokens.drop taken))

/-- What the loop comes to, unless it needs more than a given number of rounds. -/
def within
    (rounds : Nat)
    (loop : Loop) :
    Option (Except Fault Chain) :=
  if loop.isOver then
    some (.ok loop.chain)
  else
    match rounds with
    | 0 => none
    | rounds + 1 =>
        match loop.round with
        | .ok next => next.within rounds
        | .error fault => some (.error fault)

end Loop
end Chain
end Query
end FieldQuery
