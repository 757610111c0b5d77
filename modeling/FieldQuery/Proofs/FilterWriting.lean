import FieldQuery.Proofs.FilterLocality
import FieldQuery.Query.FilterWriting

/-!
# Reading a filter undoes writing it

A filter that is written with as few parentheses as possible is read back as
it was, and nothing behind it is read along. Each rule is followed on the
tokens at its own place, with what comes behind them kept general. The rules
for connectives do not stop behind a filter: they go on with it as the left
operand of what follows, so that a chain of one connective is read by
induction on the filter.
-/

namespace FieldQuery
namespace Query

open Reading (andThen)

namespace Reading

variable {α β : Type}

/-- The second rule goes on behind what a first rule has read. -/
theorem andThen_success
    (front rest : List Token)
    (value : α)
    (next : α → List Token → Reading β) :
    andThen (front ++ rest) (.success value front.length) next =
      (next value rest).after front.length := by
  rw [success, andThen, List.drop_left]

/-- Tokens taken one part after the other are taken together. -/
theorem after_after
    (first second : Nat)
    (reading : Reading α) :
    (reading.after second).after first = reading.after (first + second) := by
  rw [after, after, after, Nat.add_assoc]

end Reading

namespace Binding

/-- The rule for the filters at a place. -/
def rule :
    Binding → List Token → Reading Filter
  | disjunction => Filter.disjunction
  | conjunction => Filter.conjunction
  | comparison => Filter.comparison
  | primary => Filter.primary

/-- What the rule for a place goes on with behind a filter. -/
def more :
    Binding → Filter → List Token → Reading Filter
  | disjunction => Filter.moreDisjuncts
  | conjunction => Filter.moreConjuncts
  | _ => fun filter _ => .success filter 0

/-- The tokens that would become part of the last operand at a place. -/
def isExtendedBy :
    Binding → Token → Bool
  | _, .dot => true
  | _, .openBracket => true
  | primary, _ => false
  | _, .comparison _ => true
  | disjunction, .and => true
  | _, _ => false

/-- Whether the last operand at a place ends in front of some tokens. -/
def Ends
    (place : Binding)
    (rest : List Token) : Prop :=
  ∀ token ∈ rest.head?, place.isExtendedBy token = false

/-- Whether the rule for a place reads a filter from some tokens and goes on behind them. -/
def Reads
    (place : Binding)
    (tokens : List Token)
    (filter : Filter) : Prop :=
  ∀ rest, place.Ends rest →
    place.rule (tokens ++ rest) = (place.more filter rest).after tokens.length

variable {tokens rest : List Token}
variable {filter : Filter}

/-- What ends a filter at a place ends it at the tighter places, too. -/
theorem Ends.tighter
    {place other : Binding}
    (h : place.Ends rest)
    (hle : place.tightness ≤ other.tightness) :
    other.Ends rest := by
  intro token htoken
  have hends := h token htoken
  cases place <;> cases other <;> cases token <;> simp_all [isExtendedBy, tightness]

/-- In front of what ends a looser place, a rule stops behind the filter. -/
theorem Reads.success
    {place next : Binding}
    (h : Reads next tokens filter)
    (hlt : place.tightness < next.tightness)
    (hrest : place.Ends rest) :
    next.rule (tokens ++ rest) = .success filter tokens.length := by
  have hmore : next.more filter rest = .success filter 0 := by
    cases next with
    | disjunction => exact absurd hlt (by simp [tightness])
    | conjunction =>
        cases place with
        | disjunction =>
            exact Filter.moreConjuncts_end filter rest fun hand => nomatch hrest _ hand
        | _ => exact absurd hlt (by decide)
    | _ => rfl
  rw [h rest (hrest.tighter (Nat.le_of_lt hlt)), hmore]
  rfl

/-- A primary filter is a comparison if no sign of one follows. -/
theorem reads_comparison
    (h : Reads primary tokens filter) :
    Reads comparison tokens filter := by
  intro rest hrest
  have hprimary : Filter.primary (tokens ++ rest) = .success filter tokens.length :=
    h.success (by decide) hrest
  have hend : Filter.comparand filter rest = .success filter 0 := by
    unfold Filter.comparand
    split
    · next operator _ => exact nomatch hrest _ rfl
    · rfl
  rw [rule, Filter.comparison_eq, hprimary, Reading.andThen_success, hend]
  rfl

/-- Behind a comparison, a conjunction goes on. -/
theorem reads_conjunction
    (h : Reads comparison tokens filter) :
    Reads conjunction tokens filter := by
  intro rest hrest
  have hcomparison : Filter.comparison (tokens ++ rest) = .success filter tokens.length :=
    h rest (hrest.tighter (by decide))
  rw [rule, Filter.conjunction_eq, hcomparison, Reading.andThen_success]
  rfl

/-- Behind a conjunction, a disjunction goes on. -/
theorem reads_disjunction
    (h : Reads conjunction tokens filter) :
    Reads disjunction tokens filter := by
  intro rest hrest
  have hconjunction : Filter.conjunction (tokens ++ rest) = .success filter tokens.length :=
    h.success (by decide) hrest
  rw [rule, Filter.disjunction_eq, hconjunction, Reading.andThen_success]
  rfl

/-- A filter that is read at one place is read at all looser places. -/
theorem Reads.looser
    {place other : Binding}
    (h : Reads place tokens filter)
    (hle : other.tightness ≤ place.tightness) :
    Reads other tokens filter := by
  cases place with
  | primary =>
      cases other with
      | primary => exact h
      | comparison => exact reads_comparison h
      | conjunction => exact reads_conjunction (reads_comparison h)
      | disjunction => exact reads_disjunction (reads_conjunction (reads_comparison h))
  | comparison =>
      cases other with
      | primary => exact absurd hle (by decide)
      | comparison => exact h
      | conjunction => exact reads_conjunction h
      | disjunction => exact reads_disjunction (reads_conjunction h)
  | conjunction =>
      cases other with
      | conjunction => exact h
      | disjunction => exact reads_disjunction h
      | _ => exact absurd hle (by decide)
  | disjunction =>
      cases other with
      | disjunction => exact h
      | _ => exact absurd hle (by decide)

end Binding

namespace Filter

open Binding (Reads)

variable {tokens : List Token}
variable {filter : Filter}

/-- In parentheses, any filter is a primary one. -/
theorem reads_enclosed
    (h : Reads .disjunction tokens filter) :
    Reads .primary (enclosed tokens) filter := by
  intro rest _
  have hread := h (.closeParen :: rest) (by rintro _ ⟨⟩; rfl)
  have hend : moreDisjuncts filter (.closeParen :: rest) = .success filter 0 :=
    moreDisjuncts_end filter _ (by simp)
  have hinner : disjunction (tokens ++ .closeParen :: rest) = .success filter tokens.length := by
    rw [Binding.rule, Binding.more, hend] at hread
    exact hread
  have htokens : enclosed tokens ++ rest = .openParen :: (tokens ++ .closeParen :: rest) := by
    simp [enclosed]
  have hlength : (enclosed tokens).length = 1 + (tokens.length + 1) := by
    simp [enclosed, Nat.add_comm]
  rw [htokens, hlength, Binding.rule, primary_openParen, hinner, Reading.andThen_success]
  rfl

/-- A filter that is read where it needs no parentheses is read everywhere with those it needs. -/
theorem reads_placed
    {binding : Binding}
    (h : Reads binding tokens filter)
    (place : Binding) :
    Reads place (placed binding place tokens) filter := by
  unfold placed
  split
  · have hinner : Reads .disjunction tokens filter := h.looser (by cases binding <;> decide)
    exact (reads_enclosed hinner).looser (by cases place <;> decide)
  · next hle => exact h.looser (by omega)

/-- A path is read from its brackets up to what does not extend it. -/
theorem relativePath_tokens
    (path : List Accessor)
    {rest : List Token}
    (hrest : Binding.primary.Ends rest) :
    relativePath (pathTokens path ++ rest) = .success path (pathTokens path).length := by
  induction path with
  | nil =>
      have hdot : rest.head? ≠ some .dot := fun h => nomatch hrest _ h
      have hbracket : rest.head? ≠ some .openBracket := fun h => nomatch hrest _ h
      unfold relativePath
      split <;> simp_all [pathTokens]
  | cons accessor path ih =>
      have hlength : (pathTokens (accessor :: path)).length = 3 + (pathTokens path).length :=
        Nat.add_comm _ 3
      have htokens : pathTokens (accessor :: path) ++ rest =
          .openBracket :: (Choice.access accessor).token :: .closeBracket ::
            (pathTokens path ++ rest) := rfl
      rw [hlength, htokens]
      cases accessor with
      | key name =>
          rw [Choice.token, relativePath, ih]
          rfl
      | index i =>
          rw [Choice.token, relativePath, ih]
          rfl

/-- A comparison is read from its two operands and stops behind the second one. -/
theorem reads_compare
    {leftTokens rightTokens : List Token}
    {left right : Filter}
    (operator : Comparison)
    (hleft : Reads .primary leftTokens left)
    (hright : Reads .primary rightTokens right) :
    Reads .comparison (leftTokens ++ .comparison operator :: rightTokens)
      (left.compare operator right) := by
  intro rest hrest
  have hends : Binding.primary.Ends (.comparison operator :: (rightTokens ++ rest)) := by
    rintro _ ⟨⟩
    rfl
  have hfirst : primary (leftTokens ++ .comparison operator :: (rightTokens ++ rest)) =
      .success left leftTokens.length := hleft _ hends
  have hsecond : primary (rightTokens ++ rest) = .success right rightTokens.length :=
    hright.success (by decide) hrest
  have hlength : (leftTokens ++ .comparison operator :: rightTokens).length =
      leftTokens.length + (1 + rightTokens.length) := by
    rw [List.length_append, List.length_cons, Nat.add_comm 1]
  rw [Binding.rule, List.append_assoc, List.cons_append, comparison_eq, hfirst,
    Reading.andThen_success, comparand, hsecond, hlength]
  rfl

/-- Filters that a sign joins are read from the left, and the rule goes on behind them. -/
theorem reads_joined
    {place next : Binding}
    {sign : Token}
    {join : Filter → Filter → Filter}
    {leftTokens rightTokens : List Token}
    {left right : Filter}
    (hleft : Reads place leftTokens left)
    (hright : Reads next rightTokens right)
    (hlt : place.tightness < next.tightness)
    (hsign : place.isExtendedBy sign = false)
    (hmore : ∀ rest,
      place.more left (sign :: rest) =
        (andThen rest (next.rule rest) fun right => place.more (join left right)).after 1) :
    Reads place (leftTokens ++ sign :: rightTokens) (join left right) := by
  intro rest hrest
  have hends : place.Ends (sign :: (rightTokens ++ rest)) := by
    rintro _ ⟨⟩
    exact hsign
  have hlength : (leftTokens ++ sign :: rightTokens).length =
      leftTokens.length + 1 + rightTokens.length := by
    rw [List.length_append, List.length_cons]
    omega
  rw [List.append_assoc, List.cons_append, hleft _ hends, hmore, hright.success hlt hrest,
    Reading.andThen_success, Reading.after_after, Reading.after_after, hlength]

/-- Each rule reads a filter from its tokens at the place of the rule. -/
theorem reads_tokens
    (filter : Filter)
    (place : Binding) :
    Reads place (filter.tokens place) filter := by
  induction filter generalizing place with
  | relative path =>
      have hpath : Reads .primary (.current :: pathTokens path) (relative path) := by
        intro rest hrest
        rw [Binding.rule, List.cons_append, primary, relativePath_tokens path hrest, List.length_cons,
          Nat.add_comm]
        rfl
      exact hpath.looser (by cases place <;> decide)
  | literal value =>
      have hvalue : Reads .primary [value.token] (literal value) := by
        intro rest _
        rw [Binding.rule]
        cases value <;> simp [Literal.token, primary] <;> rfl
      exact hvalue.looser (by cases place <;> decide)
  | compare left operator right hleft hright =>
      refine reads_placed ?_ place
      exact reads_compare operator (hleft .primary) (hright .primary)
  | and left right hleft hright =>
      refine reads_placed ?_ place
      exact reads_joined (hleft .conjunction) (hright .comparison) (by decide) rfl
        (moreConjuncts_and left)
  | or left right hleft hright =>
      refine reads_placed ?_ place
      exact reads_joined (hleft .disjunction) (hright .conjunction) (by decide) rfl
        (moreDisjuncts_or left)

/--
A filter is read back from its tokens, and what stands behind them is left, be
it nothing or whatever starts with the end of the input, a closing bracket or
a closing parenthesis.
-/
theorem read_tokens
    (filter : Filter)
    {rest : List Token}
    (hrest : ∀ token ∈ rest.head?, token ∈ [.endOfInput, .closeBracket, .closeParen]) :
    (read (filter.tokens .disjunction ++ rest)).outcome = .ok filter ∧
      (read (filter.tokens .disjunction ++ rest)).rest (filter.tokens .disjunction ++ rest) =
        rest := by
  have hends : Binding.disjunction.Ends rest := by
    intro token htoken
    have hmem := hrest token htoken
    simp only [List.mem_cons, List.not_mem_nil, or_false] at hmem
    rcases hmem with rfl | rfl | rfl <;> rfl
  have hend : moreDisjuncts filter rest = .success filter 0 := by
    refine moreDisjuncts_end filter rest fun hor => ?_
    have hmem := hrest _ hor
    simp at hmem
  have hread : read (filter.tokens .disjunction ++ rest) =
      .success filter (filter.tokens .disjunction).length := by
    refine (reads_tokens filter .disjunction rest hends).trans ?_
    rw [Binding.more, hend]
    rfl
  rw [hread]
  exact ⟨rfl, List.drop_left⟩

/-- A filter with each kind of parentheses: around operands and to the right of its own sign. -/
def nestedFilter : Filter :=
  or
    (and
      (compare
        (compare (relative [.key "a"]) .equal (literal (.integer 1)))
        .notEqual
        (relative []))
      (or (literal (.bool true)) (relative [.index (-1)])))
    (or (literal .null) (relative []))

/-- In front of a bracket with another segment behind it, it is read back as it was. -/
theorem read_tokens_nested :
    nestedFilter.tokens .disjunction =
        [.openParen, .current, .openBracket, .text "a", .closeBracket, .comparison .equal,
          .integer 1, .closeParen, .comparison .notEqual, .current, .and, .openParen, .bool true,
          .or, .current, .openBracket, .integer (-1), .closeBracket, .closeParen, .or, .openParen,
          .null, .or, .current, .closeParen] ∧
      (∀ token ∈ [Token.closeBracket, .dot, .star].head?,
        token ∈ [.endOfInput, .closeBracket, .closeParen]) ∧
      (read (nestedFilter.tokens .disjunction ++ [.closeBracket, .dot, .star])).outcome =
        .ok nestedFilter ∧
      (read (nestedFilter.tokens .disjunction ++ [.closeBracket, .dot, .star])).rest
          (nestedFilter.tokens .disjunction ++ [.closeBracket, .dot, .star]) =
        [.closeBracket, .dot, .star] := by
  have hrest : ∀ token ∈ [Token.closeBracket, .dot, .star].head?,
      token ∈ [.endOfInput, .closeBracket, .closeParen] := by
    simp
  refine ⟨by decide, hrest, ?_⟩
  exact read_tokens nestedFilter hrest

end Filter
end Query
end FieldQuery
