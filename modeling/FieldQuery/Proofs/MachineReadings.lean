import FieldQuery.Proofs.Chains
import FieldQuery.Proofs.FilterLocality
import FieldQuery.Proofs.MachineRuns

/-!
# The machine reads what the rules read

A call of a rule comes back with the outcome of the rule's reading, on the
queue that the reading leaves, whatever calls wait for it; and a reading takes
no more tokens than there are. Rules without loops and calls are one step. The
others follow the forms that readings are put together from, one rule after
another or some tokens in front of a rule, and the filters go by induction on
the number of tokens.
-/

namespace FieldQuery
namespace Query

open Reading (andThen)

namespace Reading

variable {α β γ : Type}

/-- What is made of the result of a second rule can be made of it right behind that rule. -/
theorem map_andThen
    (f : β → γ)
    (tokens : List Token)
    (first : Reading α)
    (next : α → List Token → Reading β) :
    (andThen tokens first next).map f =
      andThen tokens first fun value rest => (next value rest).map f := by
  obtain ⟨outcome, taken⟩ := first
  cases outcome <;> rfl

/-- A result that is made something of is a second rule that takes nothing. -/
theorem andThen_eq_map
    (f : α → β)
    (tokens : List Token)
    (first : Reading α) :
    andThen tokens first (fun value _ => success (f value) 0) = first.map f := by
  obtain ⟨outcome, taken⟩ := first
  cases outcome <;> rfl

theorem map_map
    (f : α → β)
    (g : β → γ)
    (reading : Reading α) :
    (reading.map f).map g = reading.map fun value => g (f value) := by
  obtain ⟨outcome, taken⟩ := reading
  cases outcome <;> rfl

theorem map_after
    (f : α → β)
    (before : Nat)
    (reading : Reading α) :
    (reading.after before).map f = (reading.map f).after before :=
  rfl

/-- A reading behind some tokens leaves what it leaves without them. -/
theorem rest_after
    (before : Nat)
    (reading : Reading α)
    (tokens : List Token) :
    (reading.after before).rest tokens = reading.rest (tokens.drop before) := by
  rw [rest, rest, after, List.drop_drop]

theorem length_rest_le
    (reading : Reading α)
    (tokens : List Token) :
    (reading.rest tokens).length ≤ tokens.length :=
  (rest_suffix reading tokens).length_le

/-- What is read behind tokens that are there takes no more than is there. -/
theorem taken_after_le
    {before : Nat}
    {reading : Reading α}
    {tokens : List Token}
    (hbefore : before ≤ tokens.length)
    (h : reading.taken ≤ (tokens.drop before).length) :
    (reading.after before).taken ≤ tokens.length := by
  rw [List.length_drop] at h
  simp only [after]
  omega

end Reading

namespace Machine

variable {rule : Rule}
variable {frame : Frame}
variable {stack : List Frame}
variable {tokens rest : List Token}
variable {reading : Reading Part}
variable {state next : State}

/-- Whether a state comes back with a reading of some tokens, to the calls that wait below it. -/
structure Yields
    (state : State)
    (stack : List Frame)
    (tokens : List Token)
    (reading : Reading Part) : Prop where
  /-- The reading takes tokens that are there. -/
  bounded : reading.taken ≤ tokens.length
  /-- The machine comes to the outcome and the queue of the reading. -/
  reaches : state.Reaches ⟨.done reading.outcome, stack, reading.rest tokens⟩

namespace Yields

theorem of_step
    (hstep : state.step = some next)
    (h : Yields next stack tokens reading) :
    Yields state stack tokens reading :=
  ⟨h.bounded, .head hstep h.reaches⟩

/-- A rule without loops and calls is one step. -/
theorem settled
    {α : Type}
    {read : Reading α}
    {part : α → Part}
    (hbounded : read.taken ≤ tokens.length) :
    Yields (settled (read.map part) stack tokens) stack tokens (read.map part) :=
  ⟨hbounded, .refl⟩

theorem found
    (part : Part)
    (stack : List Frame)
    (tokens : List Token) :
    Yields (found part stack tokens) stack tokens (.success part 0) :=
  ⟨Nat.zero_le _, .refl⟩

theorem failed
    (fault : Fault)
    (stack : List Frame)
    (tokens : List Token) :
    Yields (failed fault stack tokens) stack tokens (.failure fault 0) :=
  ⟨Nat.zero_le _, .refl⟩

/-- A state that yields a reading of the tokens behind some others yields it behind them. -/
theorem after
    (front : List Token)
    (h : Yields state stack rest reading) :
    Yields state stack (front ++ rest) (reading.after front.length) := by
  refine ⟨?_, ?_⟩
  · rw [List.length_append]
    exact Nat.add_le_add_left h.bounded _
  · rw [Reading.rest_after, List.drop_left]
    exact h.reaches

/-- A call that waits goes on with a second rule, and hands a fault on. -/
theorem andThen
    {first : Reading Filter}
    (after : Filter → List Token → Reading Part)
    (hfirst : Yields state (frame :: stack) tokens (first.map .filter))
    (hafter : ∀ result, first.outcome = .ok result →
      Yields (resume stack (first.rest tokens) result frame) stack (first.rest tokens)
        (after result (first.rest tokens))) :
    Yields state stack tokens (andThen tokens first after) := by
  obtain ⟨outcome, taken⟩ := first
  obtain ⟨hbounded, hreaches⟩ := hfirst
  cases outcome with
  | error fault => exact ⟨hbounded, hreaches.tail rfl⟩
  | ok result =>
      obtain ⟨hmore, hrest⟩ := hafter result rfl
      simp only [Reading.rest, List.length_drop] at hmore
      simp only [Reading.map] at hbounded
      refine ⟨?_, ?_⟩
      · simp only [Reading.andThen, Reading.after]
        omega
      · rw [Reading.andThen, Reading.rest_after]
        exact (hreaches.tail rfl).trans hrest

end Yields

/-- A closing sign takes one token, or finds none. -/
theorem taken_closing_le
    {α : Type}
    (wanted : Token)
    (result : α)
    (tokens : List Token) :
    (Reading.closing wanted result tokens).taken ≤ tokens.length := by
  unfold Reading.closing
  split
  · exact Nat.zero_le _
  · split <;> simp [Reading.success, Reading.failure]

section Filters

open FieldQuery.Query.Filter

/-- One round of the loop over the steps of a relative path. -/
theorem yields_pathStep
    {before : List Accessor}
    {accessor : Accessor}
    (front : List Token)
    (hstep : (⟨.call (.relativePath before), stack, front ++ rest⟩ : State).step =
      some ⟨.call (.relativePath (before ++ [accessor])), stack, rest⟩)
    (hrest : Yields ⟨.call (.relativePath (before ++ [accessor])), stack, rest⟩ stack rest
      ((relativePath rest).map fun path => .filter (.relative (before ++ [accessor] ++ path)))) :
    Yields ⟨.call (.relativePath before), stack, front ++ rest⟩ stack (front ++ rest)
      ((((relativePath rest).map (accessor :: ·)).after front.length).map fun path =>
        .filter (.relative (before ++ path))) := by
  have hbehind := hrest.after front
  simp only [List.append_assoc, List.singleton_append] at hbehind
  rw [Reading.map_after, Reading.map_map]
  exact .of_step hstep hbehind

/-- The loop over the steps of a relative path, which it appends to the ones before. -/
theorem yields_relativePath
    (before : List Accessor)
    (tokens : List Token) :
    Yields ⟨.call (.relativePath before), stack, tokens⟩ stack tokens
      ((relativePath tokens).map fun path => .filter (.relative (before ++ path))) := by
  fun_induction relativePath tokens generalizing before with
  | case1 name rest ih => exact yields_pathStep [.dot, .name name] rfl (ih _)
  | case2 name rest ih =>
      exact yields_pathStep [.openBracket, .text name, .closeBracket] rfl (ih _)
  | case3 index rest ih =>
      exact yields_pathStep [.openBracket, .integer index, .closeBracket] rfl (ih _)
  | case4 rest hname =>
      refine .of_step ?_ (.failed .noNameAfterCurrent stack (.dot :: rest))
      simp only [State.step, enter, enterRelativePath]
  | case5 tokens hname htext hindex hdot =>
      have hstop : enterRelativePath stack before tokens =
          found (.filter (.relative before)) stack tokens := by
        simp only [enterRelativePath]
      have hread :
          (Reading.success ([] : List Accessor) 0).map
              (fun path => Part.filter (.relative (before ++ path))) =
            .success (.filter (.relative before)) 0 := by
        simp [Reading.map, Reading.success, Except.map]
      rw [hread]
      exact .of_step (congrArg some hstop) (.found _ _ _)

/-- Whether calls of a rule on at most `n` tokens come back with the filters that it reads. -/
def Answers
    (n : Nat)
    (rule : Rule)
    (read : List Token → Reading Filter) : Prop :=
  ∀ tokens stack, tokens.length ≤ n →
    Yields ⟨.call rule, stack, tokens⟩ stack tokens ((read tokens).map .filter)

variable {n : Nat}

theorem Answers.mono
    {read : List Token → Reading Filter}
    {m : Nat}
    (h : Answers n rule read)
    (hle : m ≤ n) :
    Answers m rule read :=
  fun tokens stack hlength => h tokens stack (Nat.le_trans hlength hle)

theorem taken_closingParen_le
    (result : Filter)
    (tokens : List Token) :
    (closingParen result tokens).taken ≤ tokens.length := by
  unfold closingParen
  split <;> simp [Reading.success, Reading.failure]

/-- Calls for a primary filter come back if those for filters in parentheses do. -/
theorem answers_primary
    (hinner : ∀ m < n, Answers m .disjunction disjunction) :
    Answers n .primary primary := by
  intro tokens stack hlength
  cases tokens with
  | nil =>
      rw [primary]
      exact .of_step rfl (.failed _ _ _)
  | cons first rest =>
      rw [List.length_cons] at hlength
      cases first with
      | current =>
          have hpath : Yields ⟨.call (.relativePath []), stack, rest⟩ stack rest _ :=
            yields_relativePath [] rest
          rw [primary, Reading.map_after, Reading.map_map]
          exact .of_step rfl (hpath.after [.current])
      | openParen =>
          rw [primary_openParen]
          have hcall := hinner rest.length (by omega) rest (.parens :: stack) (Nat.le_refl _)
          have hclosed := hcall.andThen
            (fun result rest => (closingParen result rest).map .filter)
            fun result _ => .settled (taken_closingParen_le _ _)
          rw [← Reading.map_andThen] at hclosed
          exact .of_step rfl (hclosed.after [.openParen])
      | text _ | integer _ | float _ | bool _ | null =>
          rw [primary]
          exact .of_step rfl ((Yields.found _ _ _).after [_])
      | root | endOfInput =>
          rw [primary]
          exact .of_step rfl ((Yields.failed _ _ _).after [_])
      | _ =>
          rw [primary]
          · exact .of_step rfl ((Yields.failed _ _ _).after [_])
          all_goals simp

/-- A comparison goes on behind its left operand, if a sign of one follows. -/
theorem yields_comparand
    (hprimary : Answers n .primary primary)
    (left : Filter)
    (hlength : tokens.length ≤ n) :
    Yields (resumeLeftOperand stack left tokens) stack tokens
      ((comparand left tokens).map .filter) := by
  cases tokens with
  | nil => exact .found _ _ _
  | cons first rest =>
      rw [List.length_cons] at hlength
      cases first with
      | comparison operator =>
          have hright := hprimary rest (.rightOperand left operator :: stack) (by omega)
          have hjoined := hright.andThen
            (fun right _ => .success (.filter (left.compare operator right)) 0)
            fun right _ => .found _ _ _
          rw [Reading.andThen_eq_map] at hjoined
          rw [comparand, Reading.map_after, Reading.map_map]
          exact hjoined.after [.comparison operator]
      | _ => exact .found _ _ _

theorem answers_comparison
    (hprimary : Answers n .primary primary) :
    Answers n .comparison comparison := by
  intro tokens stack hlength
  rw [comparison_eq, Reading.map_andThen]
  refine .of_step rfl ((hprimary tokens (.leftOperand :: stack) hlength).andThen _ ?_)
  intro left _
  exact yields_comparand hprimary left (Nat.le_trans (Reading.length_rest_le _ _) hlength)

section Joined

variable {rule whole : Rule}
variable {loop : Filter → Rule}
variable {first : Frame}
variable {later : Filter → Frame}
variable {read readWhole : List Token → Reading Filter}
variable {more : Filter → List Token → Reading Filter}
variable {join : Filter → Filter → Filter}
variable {sign : Token}

/-- The loop over the filters that a sign joins, if calls for each of them come back. -/
theorem answers_loop
    (hrule : Answers n rule read)
    (hround : ∀ left rest stack,
      enter stack (sign :: rest) (loop left) = ⟨.call rule, later left :: stack, rest⟩)
    (hback : ∀ left right stack tokens,
      resume stack tokens right (later left) = ⟨.call (loop (join left right)), stack, tokens⟩)
    (hover : ∀ left tokens stack, tokens.head? ≠ some sign →
      enter stack tokens (loop left) = found (.filter left) stack tokens)
    (hjoined : ∀ left rest,
      more left (sign :: rest) =
        (Reading.andThen rest (read rest) fun right => more (join left right)).after 1)
    (hend : ∀ left tokens, tokens.head? ≠ some sign → more left tokens = .success left 0) :
    ∀ left, Answers n (loop left) (more left) := by
  induction n using Nat.strongRecOn with
  | ind n ih =>
      intro left tokens stack hlength
      by_cases hsign : tokens.head? = some sign
      · obtain ⟨rest, rfl⟩ := List.head?_eq_some_iff.1 hsign
        rw [List.length_cons] at hlength
        have hshorter : Answers rest.length rule read := hrule.mono (by omega)
        have hcall := hshorter rest (later left :: stack) (Nat.le_refl _)
        rw [hjoined, Reading.map_after, Reading.map_andThen]
        refine .of_step (congrArg some (hround left rest stack)) ((hcall.andThen _ ?_).after [sign])
        intro right _
        rw [hback]
        exact ih rest.length (by omega) hshorter _ _ _ (Reading.length_rest_le _ _)
      · rw [hend left tokens hsign]
        exact .of_step (congrArg some (hover left tokens stack hsign)) (.found _ _ _)

/-- A first filter, and the loop over those that a sign joins to it. -/
theorem answers_joined
    (hrule : Answers n rule read)
    (hloop : ∀ left, Answers n (loop left) (more left))
    (hcall : ∀ stack tokens, enter stack tokens whole = ⟨.call rule, first :: stack, tokens⟩)
    (hback : ∀ left stack tokens,
      resume stack tokens left first = ⟨.call (loop left), stack, tokens⟩)
    (hwhole : ∀ tokens, readWhole tokens = Reading.andThen tokens (read tokens) more) :
    Answers n whole readWhole := by
  intro tokens stack hlength
  rw [hwhole, Reading.map_andThen]
  refine .of_step (congrArg some (hcall stack tokens)) ((hrule tokens _ hlength).andThen _ ?_)
  intro left _
  rw [hback]
  exact hloop left _ _ (Nat.le_trans (Reading.length_rest_le _ _) hlength)

end Joined

/-- A loop is over where no sign for it follows. -/
theorem enterMoreDisjuncts_end
    (left : Filter)
    (tokens : List Token)
    (stack : List Frame)
    (h : tokens.head? ≠ some .or) :
    enterMoreDisjuncts stack left tokens = found (.filter left) stack tokens := by
  unfold enterMoreDisjuncts
  split
  · exact absurd rfl h
  · rfl

theorem enterMoreConjuncts_end
    (left : Filter)
    (tokens : List Token)
    (stack : List Frame)
    (h : tokens.head? ≠ some .and) :
    enterMoreConjuncts stack left tokens = found (.filter left) stack tokens := by
  unfold enterMoreConjuncts
  split
  · exact absurd rfl h
  · rfl

/-- Calls for filters come back with what is read, however deep their parentheses are. -/
theorem answers_disjunction
    (n : Nat) :
    Answers n .disjunction disjunction := by
  induction n using Nat.strongRecOn with
  | ind n ih =>
      have hcomparison := answers_comparison (answers_primary ih)
      have hconjunction : Answers n .conjunction conjunction := by
        refine answers_joined hcomparison ?_ (fun _ _ => rfl) (fun _ _ _ => rfl) conjunction_eq
        exact answers_loop hcomparison (fun _ _ _ => rfl) (fun _ _ _ _ => rfl)
          enterMoreConjuncts_end moreConjuncts_and moreConjuncts_end
      refine answers_joined hconjunction ?_ (fun _ _ => rfl) (fun _ _ _ => rfl) disjunction_eq
      exact answers_loop hconjunction (fun _ _ _ => rfl) (fun _ _ _ _ => rfl)
        enterMoreDisjuncts_end moreDisjuncts_or moreDisjuncts_end

end Filters

section Selectors

open Selector

/-- The loop over the members of a union. -/
theorem yields_unionTail
    (before : List Choice)
    (tokens : List Token) :
    Yields ⟨.call (.unionTail before), stack, tokens⟩ stack tokens
      ((unionTail before tokens).map .selector) := by
  fun_induction unionTail before tokens with
  | case1 before member rest choice hchoice ih =>
      refine .of_step ?_ (ih.after [.comma, member])
      simp only [State.step, enter, enterUnionTail, hchoice]
  | case2 before member rest hchoice =>
      refine .of_step ?_ ((Yields.failed .badUnionMember stack rest).after [.comma, member])
      simp only [State.step, enter, enterUnionTail, hchoice]
  | case3 before => exact .of_step rfl ((Yields.failed .badUnionMember stack []).after [.comma])
  | case4 before tokens hmember hcomma =>
      have hclosing := taken_closing_le .closeBracket (union before) tokens
      refine .of_step ?_ (Yields.settled hclosing)
      simp only [State.step, enter, enterUnionTail]

theorem yields_afterChoice
    (first : Choice)
    (tokens : List Token) :
    Yields ⟨.call (.afterChoice first), stack, tokens⟩ stack tokens
      ((afterChoice first tokens).map .selector) := by
  unfold afterChoice
  split
  · exact .of_step rfl (yields_unionTail _ _)
  · have hclosing := taken_closing_le .closeBracket (choose first) tokens
    refine .of_step ?_ (Yields.settled hclosing)
    simp only [State.step, enter, enterAfterChoice]

theorem length_leadingInteger?_le
    (tokens : List Token) :
    (leadingInteger? tokens).toList.length ≤ tokens.length := by
  unfold leadingInteger?
  split <;> simp

theorem taken_sliceStep_le
    (start stop : Option Int)
    (tokens : List Token) :
    (sliceStep start stop tokens).taken ≤ tokens.length := by
  have hstep := length_leadingInteger?_le tokens
  unfold sliceStep
  dsimp only
  split
  · exact hstep
  · exact Reading.taken_after_le hstep (taken_closing_le _ _ _)

theorem taken_sliceTail_le
    (start : Option Int)
    (tokens : List Token) :
    (sliceTail start tokens).taken ≤ tokens.length := by
  have hstop := length_leadingInteger?_le tokens
  unfold sliceTail
  dsimp only
  split
  · next rest hdrop =>
      have hlength := congrArg List.length hdrop
      have hstep := taken_sliceStep_le start (leadingInteger? tokens) rest
      simp only [List.length_drop, List.length_cons] at hlength
      simp only [Reading.after]
      omega
  · exact Reading.taken_after_le hstop (taken_closing_le _ _ _)

theorem taken_afterDot_le
    (tokens : List Token) :
    (afterDot tokens).taken ≤ tokens.length := by
  unfold afterDot
  split
  · exact Nat.zero_le _
  · exact Nat.zero_le _
  · simp [Reading.success]
  · split <;> simp [Reading.success, Reading.failure]

theorem yields_afterIndex
    (index : Int)
    (tokens : List Token) :
    Yields ⟨.call (.afterIndex index), stack, tokens⟩ stack tokens
      ((afterIndex index tokens).map .selector) := by
  unfold afterIndex
  split
  · exact .of_step rfl ((Yields.found _ _ _).after [_])
  · exact .of_step rfl ((Yields.settled (taken_sliceTail_le _ _)).after [_])
  · exact .of_step rfl (yields_unionTail _ _)
  · refine .of_step ?_ (.failed .badAfterIndex stack tokens)
    simp only [State.step, enter, enterAfterIndex]

/-- A filter in a bracket is a filter and a closing sign behind it. -/
theorem filterTail_eq
    (tokens : List Token) :
    filterTail tokens =
      Reading.andThen tokens (Filter.read tokens) fun predicate =>
        Reading.closing .closeBracket (filter predicate) := by
  rcases hread : Filter.read tokens with ⟨outcome, taken⟩
  cases outcome <;> simp [filterTail, hread, Reading.andThen]

theorem yields_bracket
    (tokens : List Token) :
    Yields ⟨.call .bracket, stack, tokens⟩ stack tokens ((bracket tokens).map .selector) := by
  cases tokens with
  | nil => exact .of_step rfl (.failed _ _ _)
  | cons first rest =>
      cases first with
      | question =>
          have hcall := answers_disjunction rest.length rest (.brackets :: stack) (Nat.le_refl _)
          have hclosed := hcall.andThen
            (fun result rest =>
              (Reading.closing .closeBracket (filter result) rest).map .selector)
            fun result _ => .settled (taken_closing_le _ _ _)
          rw [bracket, filterTail_eq, Reading.map_after, Reading.map_andThen]
          exact .of_step rfl (hclosed.after [.question])
      | integer index => exact .of_step rfl ((yields_afterIndex index rest).after [_])
      | colon => exact .of_step rfl ((Yields.settled (taken_sliceTail_le none rest)).after [_])
      | star => exact .of_step rfl ((yields_afterChoice .every rest).after [_])
      | text name =>
          exact .of_step rfl ((yields_afterChoice (.access (.key name)) rest).after [_])
      | _ => exact .of_step rfl (.failed _ _ _)

theorem yields_read
    (tokens : List Token) :
    Yields ⟨.call .segment, stack, tokens⟩ stack tokens
      ((Selector.read tokens).map .selector) := by
  cases tokens with
  | nil => exact .of_step rfl (.failed _ _ _)
  | cons first rest =>
      cases first with
      | dot => exact .of_step rfl ((Yields.settled (taken_afterDot_le rest)).after [_])
      | descent => exact .of_step rfl ((Yields.found _ _ _).after [_])
      | openBracket => exact .of_step rfl ((yields_bracket rest).after [_])
      | _ => exact .of_step rfl (.failed _ _ _)

theorem yields_readTarget
    (tokens : List Token) :
    Yields ⟨.call .target, stack, tokens⟩ stack tokens ((readTarget tokens).map .selector) := by
  unfold readTarget
  split
  · exact .of_step rfl ((Yields.found _ _ _).after [_])
  · exact .of_step rfl ((yields_bracket _).after [_])
  · next found rest hstar hbracket =>
      split
      · next name hname =>
          refine .of_step ?_ ((Yields.found (.selector (named name)) stack rest).after [found])
          simp only [State.step, enter, enterTarget, hname]
      · next hname =>
          refine .of_step ?_ (.failed .noDescentTarget stack (found :: rest))
          simp only [State.step, enter, enterTarget, hname]
  · exact .of_step rfl (.failed _ _ _)

end Selectors

end Machine
end Query
end FieldQuery
