import FieldQuery.Proofs.MachineReadings

/-!
# Readings end and take tokens from the front

Whatever queue of tokens they are given, with the end of the input missing, in
the middle or repeated, the rules for segments, targets and filters stop, leave
the queue without some tokens at its front, and have taken one if they succeed.
So the loop over segments goes through at most one round per token: a round
that succeeds has taken a token, and a round that fails is the last one and has
found a token to fail at.
-/

namespace FieldQuery
namespace Query

open Reading (andThen)

namespace Reading

variable {α β : Type}

/-- What is read behind a token takes that token. -/
theorem taken_after_one_pos
    (reading : Reading α) :
    0 < (reading.after 1).taken :=
  Nat.lt_of_lt_of_le Nat.zero_lt_one (Nat.le_add_right _ _)

/-- A rule that takes a token for its result takes one together with a second rule, too. -/
theorem taken_andThen_pos
    {tokens : List Token}
    {first : Reading α}
    {next : α → List Token → Reading β}
    {value : β}
    (hfirst : ∀ result, first.outcome = .ok result → 0 < first.taken)
    (h : (andThen tokens first next).outcome = .ok value) :
    0 < (andThen tokens first next).taken := by
  obtain ⟨outcome, taken⟩ := first
  cases outcome with
  | error fault => cases h
  | ok result => exact Nat.lt_of_lt_of_le (hfirst result rfl) (Nat.le_add_right _ _)

end Reading

namespace Filter

variable {tokens : List Token}
variable {result : Filter}

theorem taken_primary_pos
    (h : (primary tokens).outcome = .ok result) :
    0 < (primary tokens).taken := by
  cases tokens with
  | nil =>
      rw [primary] at h
      cases h
  | cons first rest =>
      cases first with
      | current =>
          rw [primary]
          exact Reading.taken_after_one_pos _
      | openParen =>
          rw [primary_openParen]
          exact Reading.taken_after_one_pos _
      | _ =>
          rw [primary]
          · exact Nat.zero_lt_one
          all_goals simp

theorem taken_read_pos
    (h : (Filter.read tokens).outcome = .ok result) :
    0 < (Filter.read tokens).taken := by
  rw [Filter.read, disjunction_eq] at h ⊢
  refine Reading.taken_andThen_pos (fun _ hconjunction => ?_) h
  rw [conjunction_eq] at hconjunction ⊢
  refine Reading.taken_andThen_pos (fun _ hcomparison => ?_) hconjunction
  rw [comparison_eq] at hcomparison ⊢
  exact Reading.taken_andThen_pos (fun _ hprimary => taken_primary_pos hprimary) hcomparison

end Filter

namespace Selector

variable {tokens : List Token}
variable {selector : Selector}

theorem taken_read_pos
    (h : (Selector.read tokens).outcome = .ok selector) :
    0 < (Selector.read tokens).taken := by
  revert h
  unfold Selector.read
  split
  · exact fun _ => Reading.taken_after_one_pos _
  · exact fun _ => Nat.zero_lt_one
  · exact fun _ => Reading.taken_after_one_pos _
  all_goals exact nofun

theorem taken_readTarget_pos
    (h : (readTarget tokens).outcome = .ok selector) :
    0 < (readTarget tokens).taken := by
  revert h
  unfold readTarget
  split
  · exact fun _ => Nat.zero_lt_one
  · exact fun _ => Reading.taken_after_one_pos _
  · split
    · exact fun _ => Nat.zero_lt_one
    · exact nofun
  · exact nofun

end Selector

namespace Chain

variable {tokens : List Token}

/-- A descent is read as one token. -/
theorem taken_of_read_descent
    {taken : Nat}
    (h : Selector.read tokens = ⟨.ok .descent, taken⟩) :
    taken = 1 := by
  cases tokens with
  | nil => cases h
  | cons head rest =>
      rcases selector_read_eq_ok h with ⟨rfl, hdot⟩ | ⟨rfl, -⟩ | ⟨-, hbracket⟩
      · rcases afterDot_eq_ok hdot with ⟨_, -, hstar, -⟩ | ⟨_, _, _, -, -, hnamed, -⟩
        · cases hstar
        · cases hnamed
      · cases h
        rfl
      · exact absurd rfl (bracket_ne_descent (by rw [hbracket]))

namespace Loop

variable {loop next : Loop}
variable {rounds : Nat}

/-- The loop goes on at any token but the end of the input. -/
theorem isOver_cons
    {chain : Chain}
    {head : Token}
    {rest : List Token}
    (h : head = .endOfInput → False) :
    (⟨chain, head :: rest⟩ : Loop).isOver = false := by
  unfold isOver isAtEnd
  split
  · next heq => cases heq
  · next heq => exact absurd (List.cons.inj heq).1 h
  · rfl

theorem within_over
    (rounds : Nat)
    (h : loop.isOver = true) :
    loop.within rounds = some (.ok loop.chain) := by
  unfold within
  rw [if_pos h]

theorem within_round
    (hgoes : loop.isOver = false)
    (hround : loop.round = .ok next) :
    loop.within (rounds + 1) = next.within rounds := by
  rw [within, hround, if_neg (by simp [hgoes])]

theorem within_fault
    {fault : Fault}
    (hgoes : loop.isOver = false)
    (hround : loop.round = .error fault) :
    loop.within (rounds + 1) = some (.error fault) := by
  rw [within, hround, if_neg (by simp [hgoes])]

section Rounds

variable {before : List Selector}
variable {head : Token}
variable {rest : List Token}
variable {taken : Nat}

/-- A round that reads a segment other than a descent. -/
theorem round_segment
    {selector : Selector}
    (hlength : afterLength? (head :: rest) = none)
    (hselector : Selector.read (head :: rest) = ⟨.ok selector, taken⟩)
    (hne : selector = .descent → False) :
    (⟨⟨before, none⟩, head :: rest⟩ : Loop).round =
      .ok ⟨⟨before ++ [selector], none⟩, rest.drop (taken - 1)⟩ := by
  have hpos : 0 < taken := by
    have htaken := Selector.taken_read_pos (congrArg Reading.outcome hselector)
    rwa [hselector] at htaken
  obtain ⟨further, rfl⟩ := Nat.exists_eq_add_of_lt hpos
  simp [round, hlength, hselector, extended]

/-- A round that reads a descent and its target. -/
theorem round_descent
    {target : Selector}
    {further : Nat}
    (hlength : afterLength? (head :: rest) = none)
    (hselector : Selector.read (head :: rest) = ⟨.ok .descent, taken⟩)
    (hend : ¬isAtEnd rest = true)
    (htarget : Selector.readTarget rest = ⟨.ok target, further⟩) :
    (⟨⟨before, none⟩, head :: rest⟩ : Loop).round =
      .ok ⟨⟨before ++ [.descent, target], none⟩, rest.drop further⟩ := by
  obtain rfl := taken_of_read_descent hselector
  simp [round, hlength, hselector, hend, htarget, extended]

/-- Rounds for a token and those behind it are one round and enough for what is left of these. -/
theorem exists_fewer
    (h : (head :: rest).length ≤ rounds) :
    ∃ fewer, rounds = fewer + 1 ∧ ∀ n, (rest.drop n).length ≤ fewer := by
  rw [List.length_cons] at h
  refine ⟨rounds - 1, by omega, fun n => ?_⟩
  rw [List.length_drop]
  omega

end Rounds

/-- The loop takes no more rounds than there are tokens, and comes to the chain that is read. -/
theorem within_eq
    (before : List Selector)
    (hrounds : tokens.length ≤ rounds) :
    (⟨⟨before, none⟩, tokens⟩ : Loop).within rounds =
      some ((read tokens).map fun chain => ⟨before ++ chain.selectors, chain.function⟩) := by
  fun_induction read tokens generalizing before rounds with
  | case1 =>
      rw [within_over rounds rfl]
      simp [Except.map]
  | case2 =>
      rw [within_over rounds rfl]
      simp [Except.map]
  | case3 head rest hhead after hlength hend =>
      obtain ⟨fewer, rfl, -⟩ := exists_fewer hrounds
      have hround : (⟨⟨before, none⟩, head :: rest⟩ : Loop).round =
          .ok ⟨⟨before, some .length⟩, after⟩ := by
        simp [round, hlength]
      have hover : (⟨⟨before, some .length⟩, after⟩ : Loop).isOver = true := hend
      rw [within_round (isOver_cons hhead) hround, within_over fewer hover]
      simp [Except.map]
  | case4 head rest hhead after hlength hend =>
      have hround : (⟨⟨before, none⟩, head :: rest⟩ : Loop).round =
          .ok ⟨⟨before, some .length⟩, after⟩ := by
        simp [round, hlength]
      -- the call of `length()` has paid for the round that finds tokens behind it
      rw [afterLength?_eq_some hlength] at hrounds
      obtain ⟨fewer, rfl⟩ : ∃ fewer, rounds = fewer + 1 + 1 :=
        ⟨rounds - 2, by simp only [List.length_cons] at hrounds; omega⟩
      have hgoes : (⟨⟨before, some .length⟩, after⟩ : Loop).isOver = false :=
        eq_false_of_ne_true hend
      rw [within_round (isOver_cons hhead) hround, within_fault hgoes rfl]
      rfl
  | case5 head rest hhead hlength fault taken hselector =>
      obtain ⟨fewer, rfl, -⟩ := exists_fewer hrounds
      have hround : (⟨⟨before, none⟩, head :: rest⟩ : Loop).round = .error fault := by
        simp [round, hlength, hselector]
      rw [within_fault (isOver_cons hhead) hround]
      rfl
  | case6 head rest hhead hlength taken hselector hend =>
      obtain ⟨fewer, rfl, -⟩ := exists_fewer hrounds
      obtain rfl := taken_of_read_descent hselector
      have hround : (⟨⟨before, none⟩, head :: rest⟩ : Loop).round = .error .danglingDescent := by
        simp [round, hlength, hselector, hend]
      rw [within_fault (isOver_cons hhead) hround]
      rfl
  | case7 head rest hhead hlength taken hselector hend fault further htarget =>
      obtain ⟨fewer, rfl, -⟩ := exists_fewer hrounds
      obtain rfl := taken_of_read_descent hselector
      have hround : (⟨⟨before, none⟩, head :: rest⟩ : Loop).round = .error fault := by
        simp [round, hlength, hselector, hend, htarget]
      rw [within_fault (isOver_cons hhead) hround]
      rfl
  | case8 head rest hhead hlength taken hselector hend target further htarget chain hread ih =>
      obtain ⟨fewer, rfl, hfewer⟩ := exists_fewer hrounds
      rw [within_round (isOver_cons hhead) (round_descent hlength hselector hend htarget),
        ih _ (hfewer further), hread]
      simp [Except.map, cons]
  | case9 head rest hhead hlength taken hselector hend target further htarget fault hread ih =>
      obtain ⟨fewer, rfl, hfewer⟩ := exists_fewer hrounds
      rw [within_round (isOver_cons hhead) (round_descent hlength hselector hend htarget),
        ih _ (hfewer further), hread]
      rfl
  | case10 head rest hhead hlength selector taken hne hselector chain hread ih =>
      obtain ⟨fewer, rfl, hfewer⟩ := exists_fewer hrounds
      rw [within_round (isOver_cons hhead) (round_segment hlength hselector hne),
        ih _ (hfewer (taken - 1)), hread]
      simp [Except.map, cons]
  | case11 head rest hhead hlength selector taken hne hselector fault hread ih =>
      obtain ⟨fewer, rfl, hfewer⟩ := exists_fewer hrounds
      rw [within_round (isOver_cons hhead) (round_segment hlength hselector hne),
        ih _ (hfewer (taken - 1)), hread]
      rfl

end Loop
end Chain

namespace Machine

variable {rule : Rule}
variable {tokens : List Token}
variable {reading : Reading Part}

/-- How a rule that is called on a queue of tokens comes to a reading of them. -/
structure Completes
    (rule : Rule)
    (tokens : List Token)
    (reading : Reading Part) : Prop where
  /-- Ten steps a token and nine more bring it to the outcome and the queue of the reading. -/
  halts : (start rule tokens).run (10 * tokens.length + 9) =
    ⟨.done reading.outcome, [], reading.rest tokens⟩
  /-- No call waits then, and no step is left. -/
  stops : (⟨.done reading.outcome, [], reading.rest tokens⟩ : State).step = none
  /-- Of the queue nothing is gone but the tokens taken from its front, also after a fault. -/
  front : ∃ front, tokens = front ++ reading.rest tokens ∧ front.length = reading.taken
  /-- It is so at every moment of the run. -/
  queue : ∀ steps, ((start rule tokens).run steps).tokens <:+ tokens
  /-- A success has taken a token. -/
  progress : ∀ part, reading.outcome = .ok part → 0 < reading.taken
  /-- Calls for filters in parentheses are nested no deeper than they were made in all. -/
  nested : ∀ steps,
    ((start rule tokens).run steps).depth ≤ (start rule tokens).recursions steps
  /-- Each of them has taken a token of its own. -/
  recursions : ∀ steps,
    (start rule tokens).recursions steps + ((start rule tokens).run steps).tokens.length ≤
      tokens.length

/-- A call that comes back with a reading to nobody completes it. -/
theorem Yields.completes
    (h : Yields (start rule tokens) [] tokens reading)
    (hweight : rule.weight ≤ 9)
    (hprogress : ∀ part, reading.outcome = .ok part → 0 < reading.taken) :
    Completes rule tokens reading where
  halts := by
    refine State.run_of_reaches h.reaches (State.step_done _ _) ?_
    simp only [State.measure, start, Control.weight, stackWeight]
    omega
  stops := State.step_done _ _
  front := by
    refine ⟨tokens.take reading.taken, (List.take_append_drop _ _).symm, ?_⟩
    rw [List.length_take]
    exact Nat.min_eq_left h.bounded
  queue := fun steps => State.tokens_run_suffix steps (start rule tokens)
  progress := hprogress
  nested := fun steps => by
    have hdepth := State.depth_run_le steps (start rule tokens)
    simpa [State.depth, start] using hdepth
  recursions := fun steps => State.recursions_add_length_le steps (start rule tokens)

/-- A reading that takes a token for its result takes one whatever is made of that result. -/
theorem taken_map_pos
    {α : Type}
    {part : α → Part}
    {read : Reading α}
    (h : ∀ result, read.outcome = .ok result → 0 < read.taken) :
    ∀ result, (read.map part).outcome = .ok result → 0 < (read.map part).taken := by
  obtain ⟨outcome, taken⟩ := read
  intro result hresult
  cases outcome with
  | error fault => cases hresult
  | ok value => exact h value rfl

end Machine

open Machine (Completes)

/--
Whatever queue of tokens they are given, the rules for a segment, for the
target of a descent and for a filter stop, take tokens from the front only and
at least one for a success, and call for filters in parentheses at most once
per token; the loop over segments goes through at most one round per token.
-/
theorem reads_from_front
    (tokens : List Token) :
    Completes .segment tokens ((Selector.read tokens).map .selector) ∧
      Completes .target tokens ((Selector.readTarget tokens).map .selector) ∧
      Completes .disjunction tokens ((Filter.read tokens).map .filter) ∧
      (⟨⟨[], none⟩, tokens⟩ : Chain.Loop).within tokens.length = some (Chain.read tokens) := by
  refine ⟨?_, ?_, ?_, ?_⟩
  · refine (Machine.yields_read tokens).completes (by decide) ?_
    exact Machine.taken_map_pos fun _ => Selector.taken_read_pos
  · refine (Machine.yields_readTarget tokens).completes (by decide) ?_
    exact Machine.taken_map_pos fun _ => Selector.taken_readTarget_pos
  · have hfilter := Machine.answers_disjunction tokens.length tokens [] (Nat.le_refl _)
    refine hfilter.completes (by decide) ?_
    exact Machine.taken_map_pos fun _ => Filter.taken_read_pos
  · rw [Chain.Loop.within_eq [] (Nat.le_refl _)]
    cases Chain.read tokens <;> rfl

/-- Two nested pairs of parentheses, with more behind an end of the input in the middle. -/
def nestedTokens :
    List Token :=
  [.openParen, .openParen, .integer 1, .closeParen, .closeParen, .endOfInput, .or, .endOfInput]

theorem reads_from_front_nested :
    (Filter.read nestedTokens).outcome = .ok (.literal (.integer 1)) ∧
      0 < (Filter.read nestedTokens).taken := by
  have hread : (Filter.read nestedTokens).outcome = .ok (.literal (.integer 1)) := by
    cbv
  refine ⟨hread, ?_⟩
  exact (reads_from_front nestedTokens).2.2.1.progress _ (congrArg (Except.map _) hread)

/-- Each pair of parentheses is a recursive call. -/
example : (Machine.start .disjunction nestedTokens).recursions 89 = 2 := by
  decide

end Query
end FieldQuery
