import FieldQuery.Query.Machine
import Mathlib.Logic.Relation

/-!
# Runs of the machine

Every step of the machine takes tokens from the front of the queue only, takes
a token for each recursive call, and makes a measure smaller in which a token
weighs more than all calls that can be made before the next one is taken. So a
run stops after a number of steps that is linear in the length of the queue,
and calls for filters in parentheses at most once per token.
-/

namespace FieldQuery
namespace Query

namespace Reading

variable {α : Type}

/-- A reading leaves an end of the queue. -/
theorem rest_suffix
    (reading : Reading α)
    (tokens : List Token) :
    reading.rest tokens <:+ tokens :=
  List.drop_suffix _ _

theorem rest_suffix_cons
    (reading : Reading α)
    (first : Token)
    (tokens : List Token) :
    reading.rest tokens <:+ first :: tokens :=
  (rest_suffix reading tokens).trans (List.suffix_cons _ _)

end Reading

namespace Machine

/-- What a call of a rule weighs: more than the calls that it leads to before it takes a token. -/
def Rule.weight :
    Rule → Nat
  -- more than a conjunction and the call that waits for it, and so on down to a primary filter
  | disjunction => 9
  | conjunction => 6
  | comparison => 3
  | afterChoice _ => 2
  | afterIndex _ => 2
  | _ => 1

/-- What a waiting call weighs: more than the call that it goes on with. -/
def Frame.weight :
    Frame → Nat
  | firstDisjunct => 2
  | disjunct _ => 2
  | firstConjunct => 2
  | conjunct _ => 2
  | _ => 1

/-- What the waiting calls weigh together. -/
def stackWeight :
    List Frame → Nat
  | [] => 0
  | frame :: stack => frame.weight + stackWeight stack

/-- What the machine weighs by what it is about to do. -/
def Control.weight :
    Control → Nat
  | call rule => rule.weight
  | done _ => 0

/-- A bound for the steps that are left: a token pays for ten of them. -/
def State.measure
    (state : State) :
    Nat :=
  10 * state.tokens.length + state.control.weight + stackWeight state.stack

theorem Frame.weight_pos
    (frame : Frame) :
    0 < frame.weight := by
  cases frame <;> simp [weight]

theorem Rule.weight_pos
    (rule : Rule) :
    0 < rule.weight := by
  cases rule <;> simp [weight]

/-- What every step does to the queue, to the nesting of parentheses and to the measure. -/
structure Advances
    (state next : State) : Prop where
  /-- Tokens are taken from the front only. -/
  queue : next.tokens <:+ state.tokens
  /-- Only a recursive call goes deeper. -/
  depth : next.depth ≤ state.depth + state.recursing
  /-- A recursive call takes a token. -/
  paid : state.recursing + next.tokens.length ≤ state.tokens.length
  /-- Fewer steps are left. -/
  measure : next.measure < state.measure

section Steps

variable {rule next : Rule}
variable {frame : Frame}
variable {stack : List Frame}
variable {tokens rest : List Token}
variable {outcome : Except Fault Part}

theorem recursing_of_ne
    (hrule : rule ≠ .primary) :
    (⟨.call rule, stack, tokens⟩ : State).recursing = 0 := by
  unfold State.recursing
  split
  · next heq => exact absurd (Control.call.inj (State.mk.inj heq).1) hrule
  · rfl

theorem recursing_le_one
    (state : State) :
    state.recursing ≤ 1 := by
  unfold State.recursing
  split <;> simp

/-- Only the rule for primary filters makes recursive calls, so the others take no token for one. -/
theorem paid_of_ne
    (hrule : rule ≠ .primary)
    (hqueue : rest <:+ tokens) :
    (⟨.call rule, stack, tokens⟩ : State).recursing + rest.length ≤ tokens.length := by
  rw [recursing_of_ne hrule, Nat.zero_add]
  exact hqueue.length_le

/-- What takes a token has paid for a recursive call. -/
theorem paid_of_lt
    (hlt : rest.length < tokens.length) :
    (⟨.call rule, stack, tokens⟩ : State).recursing + rest.length ≤ tokens.length := by
  have hone := recursing_le_one ⟨.call rule, stack, tokens⟩
  omega

/-- A call that comes back. -/
theorem advances_done
    (hqueue : rest <:+ tokens)
    (hpaid : (⟨.call rule, stack, tokens⟩ : State).recursing + rest.length ≤ tokens.length) :
    Advances ⟨.call rule, stack, tokens⟩ ⟨.done outcome, stack, rest⟩ := by
  refine ⟨hqueue, Nat.le_add_right _ _, hpaid, ?_⟩
  have hlength := hqueue.length_le
  have hweight := rule.weight_pos
  simp only [State.measure, Control.weight]
  omega

/-- A call of any rule but the one for primary filters that comes back. -/
theorem advances_settled
    (hrule : rule ≠ .primary)
    (hqueue : rest <:+ tokens) :
    Advances ⟨.call rule, stack, tokens⟩ ⟨.done outcome, stack, rest⟩ :=
  advances_done hqueue (paid_of_ne hrule hqueue)

/-- A call that takes tokens and goes on with another one in its place. -/
theorem advances_taking
    (hqueue : rest <:+ tokens)
    (hlt : rest.length < tokens.length)
    (hweight : next.weight < 10 + rule.weight) :
    Advances ⟨.call rule, stack, tokens⟩ ⟨.call next, stack, rest⟩ := by
  refine ⟨hqueue, Nat.le_add_right _ _, paid_of_lt hlt, ?_⟩
  simp only [State.measure, Control.weight]
  omega

/-- A call that goes on with a lighter one in its place. -/
theorem advances_lighter
    (hrule : rule ≠ .primary)
    (hweight : next.weight < rule.weight) :
    Advances ⟨.call rule, stack, tokens⟩ ⟨.call next, stack, tokens⟩ := by
  refine ⟨List.suffix_rfl, Nat.le_add_right _ _, paid_of_ne hrule List.suffix_rfl, ?_⟩
  simp only [State.measure, Control.weight]
  omega

/-- A call that makes another one and waits for it. -/
theorem advances_push
    (hrule : rule ≠ .primary)
    (hframe : frame ≠ .parens)
    (hqueue : rest <:+ tokens)
    (hweight : 10 * rest.length + next.weight + frame.weight < 10 * tokens.length + rule.weight) :
    Advances ⟨.call rule, stack, tokens⟩ ⟨.call next, frame :: stack, rest⟩ := by
  refine ⟨hqueue, ?_, paid_of_ne hrule hqueue, ?_⟩
  · simp [State.depth, hframe]
  · simp only [State.measure, Control.weight, stackWeight]
    omega

/-- The recursive call for a filter in parentheses. -/
theorem advances_openParen :
    Advances ⟨.call .primary, stack, .openParen :: rest⟩
      ⟨.call .disjunction, .parens :: stack, rest⟩ := by
  refine ⟨List.suffix_cons _ _, ?_, paid_of_lt (by simp), ?_⟩
  · simp [State.depth, State.recursing]
  · simp only [State.measure, Control.weight, Rule.weight, Frame.weight, stackWeight,
      List.length_cons]
    omega

/-- A waiting call that comes back in its turn. -/
theorem advances_unwound
    {result : Except Fault Part}
    (hqueue : rest <:+ tokens) :
    Advances ⟨.done result, frame :: stack, tokens⟩ ⟨.done outcome, stack, rest⟩ := by
  have hlength := hqueue.length_le
  have hweight := frame.weight_pos
  refine ⟨hqueue, ?_, ?_, ?_⟩
  · exact Nat.le_trans (List.count_le_count_cons) (Nat.le_add_right _ _)
  · rw [State.recursing, Nat.zero_add]
    · exact hlength
    · simp
  · simp only [State.measure, Control.weight, stackWeight]
    omega

/-- A waiting call that goes on with a call of a loop. -/
theorem advances_resumed
    {result : Except Fault Part}
    (hweight : next.weight < frame.weight) :
    Advances ⟨.done result, frame :: stack, tokens⟩ ⟨.call next, stack, tokens⟩ := by
  refine ⟨List.suffix_rfl, ?_, ?_, ?_⟩
  · exact Nat.le_trans (List.count_le_count_cons) (Nat.le_add_right _ _)
  · simp [State.recursing]
  · simp only [State.measure, Control.weight, stackWeight]
    omega

theorem advances_enterSegment :
    Advances ⟨.call .segment, stack, tokens⟩ (enterSegment stack tokens) := by
  cases tokens with
  | nil => exact advances_settled (by simp) List.suffix_rfl
  | cons first rest =>
      cases first with
      | dot => exact advances_settled (by simp) (Reading.rest_suffix_cons _ _ _)
      | descent => exact advances_settled (by simp) (List.suffix_cons _ _)
      | openBracket =>
          exact advances_taking (List.suffix_cons _ _) (by simp) (by simp [Rule.weight])
      | _ => exact advances_settled (by simp) List.suffix_rfl

theorem advances_enterTarget :
    Advances ⟨.call .target, stack, tokens⟩ (enterTarget stack tokens) := by
  unfold enterTarget
  split
  · exact advances_settled (by simp) (List.suffix_cons _ _)
  · exact advances_taking (List.suffix_cons _ _) (by simp) (by simp [Rule.weight])
  · split
    · exact advances_settled (by simp) (List.suffix_cons _ _)
    · exact advances_settled (by simp) List.suffix_rfl
  · exact advances_settled (by simp) List.suffix_rfl

theorem advances_enterBracket :
    Advances ⟨.call .bracket, stack, tokens⟩ (enterBracket stack tokens) := by
  cases tokens with
  | nil => exact advances_settled (by simp) List.suffix_rfl
  | cons first rest =>
      cases first with
      | question =>
          refine advances_push (by simp) (by simp) (List.suffix_cons _ _) ?_
          simp only [Rule.weight, Frame.weight, List.length_cons]
          omega
      | colon => exact advances_settled (by simp) (Reading.rest_suffix_cons _ _ _)
      | integer _ | star | text _ =>
          exact advances_taking (List.suffix_cons _ _) (by simp) (by simp [Rule.weight])
      | _ => exact advances_settled (by simp) List.suffix_rfl

theorem advances_enterAfterChoice
    (first : Choice) :
    Advances ⟨.call (.afterChoice first), stack, tokens⟩
      (enterAfterChoice stack first tokens) := by
  unfold enterAfterChoice
  split
  · exact advances_lighter (by simp) (by simp [Rule.weight])
  · exact advances_settled (by simp) (Reading.rest_suffix _ _)

theorem advances_enterAfterIndex
    (index : Int) :
    Advances ⟨.call (.afterIndex index), stack, tokens⟩
      (enterAfterIndex stack index tokens) := by
  unfold enterAfterIndex
  split
  · exact advances_settled (by simp) (List.suffix_cons _ _)
  · exact advances_settled (by simp) (Reading.rest_suffix_cons _ _ _)
  · exact advances_lighter (by simp) (by simp [Rule.weight])
  · exact advances_settled (by simp) List.suffix_rfl

theorem advances_enterUnionTail
    (before : List Choice) :
    Advances ⟨.call (.unionTail before), stack, tokens⟩
      (enterUnionTail stack before tokens) := by
  unfold enterUnionTail
  split
  · split
    · exact advances_taking ⟨[_, _], rfl⟩ (by grind) (by simp [Rule.weight])
    · exact advances_settled (by simp) ⟨[_, _], rfl⟩
  · exact advances_settled (by simp) List.nil_suffix
  · exact advances_settled (by simp) (Reading.rest_suffix _ _)

theorem advances_enterMoreDisjuncts
    (left : Filter) :
    Advances ⟨.call (.moreDisjuncts left), stack, tokens⟩
      (enterMoreDisjuncts stack left tokens) := by
  unfold enterMoreDisjuncts
  split
  · refine advances_push (by simp) (by simp) (List.suffix_cons _ _) ?_
    simp only [Rule.weight, Frame.weight, List.length_cons]
    omega
  · exact advances_settled (by simp) List.suffix_rfl

theorem advances_enterMoreConjuncts
    (left : Filter) :
    Advances ⟨.call (.moreConjuncts left), stack, tokens⟩
      (enterMoreConjuncts stack left tokens) := by
  unfold enterMoreConjuncts
  split
  · refine advances_push (by simp) (by simp) (List.suffix_cons _ _) ?_
    simp only [Rule.weight, Frame.weight, List.length_cons]
    omega
  · exact advances_settled (by simp) List.suffix_rfl

theorem advances_enterPrimary :
    Advances ⟨.call .primary, stack, tokens⟩ (enterPrimary stack tokens) := by
  cases tokens with
  | nil => exact advances_done List.suffix_rfl (by simp [State.recursing])
  | cons first rest =>
      cases first with
      | current => exact advances_taking (List.suffix_cons _ _) (by simp) (by simp [Rule.weight])
      | openParen => exact advances_openParen
      | _ => exact advances_done (List.suffix_cons _ _) (paid_of_lt (by simp))

theorem advances_enterRelativePath
    (before : List Accessor) :
    Advances ⟨.call (.relativePath before), stack, tokens⟩
      (enterRelativePath stack before tokens) := by
  unfold enterRelativePath
  split
  · exact advances_taking ⟨[_, _], rfl⟩ (by grind) (by simp [Rule.weight])
  · exact advances_taking ⟨[_, _, _], rfl⟩ (by grind) (by simp [Rule.weight])
  · exact advances_taking ⟨[_, _, _], rfl⟩ (by grind) (by simp [Rule.weight])
  · exact advances_settled (by simp) List.suffix_rfl
  · exact advances_settled (by simp) List.suffix_rfl

/-- Every rule, and every round of a loop, advances the machine. -/
theorem advances_enter
    (rule : Rule) :
    Advances ⟨.call rule, stack, tokens⟩ (enter stack tokens rule) := by
  cases rule with
  | segment => exact advances_enterSegment
  | target => exact advances_enterTarget
  | bracket => exact advances_enterBracket
  | afterChoice first => exact advances_enterAfterChoice first
  | afterIndex index => exact advances_enterAfterIndex index
  | unionTail before => exact advances_enterUnionTail before
  | moreDisjuncts left => exact advances_enterMoreDisjuncts left
  | moreConjuncts left => exact advances_enterMoreConjuncts left
  | primary => exact advances_enterPrimary
  | relativePath before => exact advances_enterRelativePath before
  | disjunction | conjunction | comparison =>
      refine advances_push (by simp) (by simp) List.suffix_rfl ?_
      simp [Rule.weight, Frame.weight]

theorem advances_resumeLeftOperand
    (left : Filter) :
    Advances ⟨.done (.ok (.filter left)), .leftOperand :: stack, tokens⟩
      (resumeLeftOperand stack left tokens) := by
  unfold resumeLeftOperand
  split
  · refine ⟨List.suffix_cons _ _, ?_, ?_, ?_⟩
    · simp [State.depth]
    · simp [State.recursing]
    · simp only [State.measure, Control.weight, Rule.weight, Frame.weight, stackWeight,
        List.length_cons]
      omega
  · exact advances_unwound List.suffix_rfl

/-- A call that gets the filter that it waited for advances the machine. -/
theorem advances_resume
    (result : Filter)
    (frame : Frame) :
    Advances ⟨.done (.ok (.filter result)), frame :: stack, tokens⟩
      (resume stack tokens result frame) := by
  cases frame with
  | firstDisjunct => exact advances_resumed (by simp [Rule.weight, Frame.weight])
  | disjunct left => exact advances_resumed (by simp [Rule.weight, Frame.weight])
  | firstConjunct => exact advances_resumed (by simp [Rule.weight, Frame.weight])
  | conjunct left => exact advances_resumed (by simp [Rule.weight, Frame.weight])
  | leftOperand => exact advances_resumeLeftOperand result
  | rightOperand left operator => exact advances_unwound List.suffix_rfl
  | parens => exact advances_unwound (Reading.rest_suffix _ _)
  | brackets => exact advances_unwound (Reading.rest_suffix _ _)

end Steps

namespace State

/-- Every step advances the machine. -/
theorem advances_of_step
    {state next : State}
    (h : state.step = some next) :
    Advances state next := by
  unfold step at h
  split at h
  · rw [← Option.some.inj h]
    exact advances_enter _
  · rw [← Option.some.inj h]
    exact advances_unwound List.suffix_rfl
  · rw [← Option.some.inj h]
    exact advances_resume _ _
  · cases h

/-- A run only takes tokens from the front of the queue. -/
theorem tokens_run_suffix
    (steps : Nat)
    (state : State) :
    (state.run steps).tokens <:+ state.tokens := by
  induction steps generalizing state with
  | zero => exact List.suffix_rfl
  | succ steps ih =>
      rw [run]
      split
      · next next hstep => exact (ih next).trans (advances_of_step hstep).queue
      · exact List.suffix_rfl

/-- Parentheses are nested as deep as recursive calls were made, at most. -/
theorem depth_run_le
    (steps : Nat)
    (state : State) :
    (state.run steps).depth ≤ state.depth + state.recursions steps := by
  induction steps generalizing state with
  | zero => exact Nat.le_refl _
  | succ steps ih =>
      rw [run, recursions]
      split
      · next next hstep =>
          have hdepth := (advances_of_step hstep).depth
          have hrest := ih next
          omega
      · exact Nat.le_refl _

/-- Each recursive call of a run takes a token of its own. -/
theorem recursions_add_length_le
    (steps : Nat)
    (state : State) :
    state.recursions steps + (state.run steps).tokens.length ≤ state.tokens.length := by
  induction steps generalizing state with
  | zero => simp [recursions, run]
  | succ steps ih =>
      rw [run, recursions]
      split
      · next next hstep =>
          have hpaid := (advances_of_step hstep).paid
          have hrest := ih next
          omega
      · simp

/-- The machine stops where no call waits for an outcome. -/
theorem step_done
    (outcome : Except Fault Part)
    (tokens : List Token) :
    (⟨.done outcome, [], tokens⟩ : State).step = none := by
  cases outcome with
  | error fault => rfl
  | ok part => cases part <;> rfl

/-- A state from which a machine goes to another one in some steps. -/
abbrev Reaches :
    State → State → Prop :=
  Relation.ReflTransGen fun state next => state.step = some next

/-- A run that is as long as the measure ends where the machine stops. -/
theorem run_of_reaches
    {state final : State}
    (h : Reaches state final)
    (hstop : final.step = none)
    {steps : Nat}
    (hsteps : state.measure ≤ steps) :
    state.run steps = final := by
  induction h using Relation.ReflTransGen.head_induction_on generalizing steps with
  | refl =>
      cases steps with
      | zero => rfl
      | succ steps => simp [run, hstop]
  | head hstep _ ih =>
      have hmeasure := (advances_of_step hstep).measure
      obtain ⟨fewer, rfl⟩ : ∃ fewer, steps = fewer + 1 := ⟨steps - 1, by omega⟩
      simp only [run, hstep]
      exact ih (by omega)

end State

end Machine
end Query
end FieldQuery
