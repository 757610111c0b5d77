import FieldQuery.Proofs.Chains
import FieldQuery.Proofs.FilterLocality
import FieldQuery.Query.Grammar

/-!
# Queries follow the grammar

Reading a list of tokens succeeds exactly if the list follows the grammar,
and then it gives the selectors that the grammar gives. Each rule for what
stands between brackets is shown to take just the tokens of one form up to
the closing bracket; the segments follow one by one.
-/

namespace FieldQuery
namespace Query

namespace Reading

theorem closing_eq_ok_iff
    {α : Type}
    {wanted : Token}
    {result value : α}
    {tokens : List Token}
    {taken : Nat} :
    closing wanted result tokens = ⟨.ok value, taken⟩ ↔
      ∃ rest, tokens = wanted :: rest ∧ value = result ∧ taken = 1 := by
  constructor
  · exact closing_eq_ok
  · rintro ⟨rest, rfl, rfl, rfl⟩
    rw [closing, if_pos rfl]
    rfl

end Reading

namespace Selector

open Grammar (Content)
open Slice (boundTokens)

variable {tokens rest : List Token}
variable {selector : Selector}
variable {taken : Nat}

theorem choice?_eq_some_iff
    {token : Token}
    {choice : Choice} :
    choice? token = some choice ↔ token = choice.token := by
  constructor
  · intro h
    unfold choice? at h
    split at h
    · rw [← Option.some.inj h]
      rfl
    · rw [← Option.some.inj h]
      rfl
    · rw [← Option.some.inj h]
      rfl
    · cases h
  · rintro rfl
    cases choice with
    | every => rfl
    | access accessor => cases accessor <;> rfl

/-- Whether a rule takes just what has a given form and the closing bracket behind it. -/
def Accepts
    (rule : List Token → Reading Selector)
    (form : List Token → Selector → Prop) :
    Prop :=
  ∀ tokens selector taken,
    rule tokens = ⟨.ok selector, taken⟩ ↔
      ∃ content rest,
        tokens = content ++ .closeBracket :: rest ∧
        taken = content.length + 1 ∧
        form content selector

theorem closing_accepts
    (result : Selector) :
    Accepts (Reading.closing .closeBracket result) fun content selector =>
      content = [] ∧ selector = result := by
  intro tokens selector taken
  rw [Reading.closing_eq_ok_iff]
  constructor
  · rintro ⟨rest, rfl, rfl, rfl⟩
    exact ⟨[], rest, rfl, rfl, rfl, rfl⟩
  · rintro ⟨_, rest, rfl, rfl, rfl, rfl⟩
    exact ⟨rest, rfl, rfl, rfl⟩

/-- A rule behind a first token takes what has that token in front. -/
theorem after_accepts
    {rule : List Token → Reading Selector}
    {form : List Token → Selector → Prop}
    (hrule : Accepts rule form)
    {first : Token}
    {tokens : List Token}
    {selector : Selector}
    {taken : Nat} :
    (rule tokens).after 1 = ⟨.ok selector, taken⟩ ↔
      ∃ content rest,
        first :: tokens = first :: content ++ .closeBracket :: rest ∧
        taken = (first :: content).length + 1 ∧
        form content selector := by
  rw [Reading.after_eq_ok]
  constructor
  · rintro ⟨further, hread, rfl⟩
    obtain ⟨content, rest, rfl, rfl, hform⟩ := (hrule _ _ _).1 hread
    exact ⟨content, rest, rfl, Nat.add_comm _ _, hform⟩
  · rintro ⟨content, rest, hsplit, rfl, hform⟩
    obtain rfl := (List.cons.inj hsplit).2
    exact ⟨_, (hrule _ _ _).2 ⟨content, rest, rfl, rfl, hform⟩, Nat.add_comm _ _⟩

/-- A union takes the members after the ones before. -/
theorem unionTail_accepts
    (before : List Choice) :
    Accepts (unionTail before) fun content selector =>
      ∃ more : List Choice,
        content = (more.flatMap fun choice => [.comma, choice.token]) ∧
        selector = .union (before ++ more) := by
  intro tokens selector taken
  constructor
  · intro h
    fun_induction unionTail before tokens generalizing taken with
    | case1 before member rest choice hchoice ih =>
        obtain ⟨further, hrest, rfl⟩ := Reading.after_eq_ok.1 h
        obtain ⟨_, behind, rfl, rfl, more, rfl, rfl⟩ := ih _ hrest
        rw [choice?_eq_some_iff.1 hchoice]
        refine ⟨_, behind, rfl, ?_, choice :: more, rfl, by simp⟩
        simp only [List.flatMap_cons, List.length_append, List.length_cons, List.length_nil]
        omega
    | case2 => cases h
    | case3 => cases h
    | case4 before tokens =>
        obtain ⟨_, rest, rfl, rfl, rfl, rfl⟩ := (closing_accepts _ _ _ _).1 h
        exact ⟨[], rest, rfl, rfl, [], rfl, by simp⟩
  · rintro ⟨_, rest, rfl, rfl, more, rfl, rfl⟩
    induction more generalizing before with
    | nil => simp [unionTail, Reading.closing, Reading.success]
    | cons choice more ih =>
        have hchoice : choice? choice.token = some choice := choice?_eq_some_iff.2 rfl
        have hmore := ih (before ++ [choice])
        simp only [List.flatMap_cons, List.cons_append, List.nil_append, unionTail, hchoice, hmore]
        simp only [Reading.after, List.append_assoc, List.cons_append, List.nil_append,
          List.length_cons, Reading.mk.injEq, true_and]
        omega

section Slice

theorem length_boundTokens
    (bound : Option Int) :
    (boundTokens bound).length = bound.toList.length :=
  List.length_map _

/-- A bound is what stands at the front if that is an integer. -/
theorem boundTokens_leadingInteger?
    (tokens : List Token) :
    boundTokens (leadingInteger? tokens) ++ tokens.drop (leadingInteger? tokens).toList.length =
      tokens := by
  unfold leadingInteger?
  split <;> rfl

theorem leadingInteger?_boundTokens
    (bound : Option Int)
    {rest : List Token}
    (hrest : leadingInteger? rest = none) :
    leadingInteger? (boundTokens bound ++ rest) = bound := by
  cases bound with
  | none => exact hrest
  | some i => rfl

theorem sliceStep_accepts
    (start stop : Option Int) :
    Accepts (sliceStep start stop) fun content selector =>
      ∃ step,
        content = boundTokens step ∧
        step ≠ some 0 ∧
        selector = .slice ⟨start, stop, step⟩ := by
  intro tokens selector taken
  unfold sliceStep
  constructor
  · intro h
    dsimp only at h
    split at h
    · cases h
    · next hstep =>
        obtain ⟨further, hclosing, rfl⟩ := Reading.after_eq_ok.1 h
        obtain ⟨_, rest, hrest, rfl, rfl, rfl⟩ := (closing_accepts _ _ _ _).1 hclosing
        refine ⟨_, rest, ?_, ?_, _, rfl, hstep, rfl⟩
        · have hsplit := boundTokens_leadingInteger? tokens
          rw [hrest] at hsplit
          exact hsplit.symm
        · rw [length_boundTokens]
          rfl
  · rintro ⟨_, rest, rfl, rfl, step, rfl, hstep, rfl⟩
    have hlead := @leadingInteger?_boundTokens step (.closeBracket :: rest) rfl
    simp only [hlead, if_neg hstep, ← length_boundTokens, List.drop_left]
    rw [Reading.after_eq_ok]
    exact ⟨1, rfl, rfl⟩

/-- What may follow the first colon of a slice: its stop and, after another colon, its step. -/
def Sliced
    (start : Option Int)
    (content : List Token)
    (selector : Selector) :
    Prop :=
  (∃ stop,
    content = boundTokens stop ∧
    selector = .slice ⟨start, stop, none⟩) ∨
  (∃ stop step,
    content = boundTokens stop ++ .colon :: boundTokens step ∧
    step ≠ some 0 ∧
    selector = .slice ⟨start, stop, step⟩)

theorem content_of_sliced
    {start : Option Int}
    {content : List Token}
    {selector : Selector}
    (h : Sliced start content selector) :
    Content (boundTokens start ++ .colon :: content) selector := by
  rcases h with ⟨stop, rfl, rfl⟩ | ⟨stop, step, rfl, hstep, rfl⟩
  · exact .range start stop
  · exact .steps start stop hstep

theorem sliceTail_accepts
    (start : Option Int) :
    Accepts (sliceTail start) (Sliced start) := by
  intro tokens selector taken
  unfold sliceTail
  constructor
  · intro h
    have hsplit := boundTokens_leadingInteger? tokens
    dsimp only at h
    split at h
    · next behind hcolon =>
        rw [hcolon] at hsplit
        obtain ⟨further, hstep, rfl⟩ := Reading.after_eq_ok.1 h
        obtain ⟨_, rest, rfl, rfl, step, rfl, hzero, rfl⟩ := (sliceStep_accepts _ _ _ _ _).1 hstep
        refine ⟨_, rest, ?_, ?_, .inr ⟨_, step, rfl, hzero, rfl⟩⟩
        · rw [List.append_assoc]
          exact hsplit.symm
        · simp only [List.length_append, List.length_cons, length_boundTokens]
          omega
    · obtain ⟨further, hclosing, rfl⟩ := Reading.after_eq_ok.1 h
      obtain ⟨_, rest, hrest, rfl, rfl, rfl⟩ := (closing_accepts _ _ _ _).1 hclosing
      rw [hrest] at hsplit
      exact ⟨_, rest, hsplit.symm, by rw [length_boundTokens]; rfl, .inl ⟨_, rfl, rfl⟩⟩
  · rintro ⟨_, rest, rfl, rfl, ⟨stop, rfl, rfl⟩ | ⟨stop, step, rfl, hzero, rfl⟩⟩
    · have hlead := @leadingInteger?_boundTokens stop (.closeBracket :: rest) rfl
      simp only [hlead, ← length_boundTokens, List.drop_left]
      rw [Reading.after_eq_ok]
      exact ⟨1, rfl, rfl⟩
    · have hlead := @leadingInteger?_boundTokens stop
        (.colon :: (boundTokens step ++ .closeBracket :: rest)) rfl
      simp only [List.append_assoc, List.cons_append, hlead, ← length_boundTokens, List.drop_left]
      rw [Reading.after_eq_ok]
      refine ⟨_, (sliceStep_accepts _ _ _ _ _).2 ⟨_, rest, rfl, rfl, step, rfl, hzero, rfl⟩, ?_⟩
      simp only [List.length_append, List.length_cons]
      omega

end Slice

/-- A filter takes what it is read from, whatever stands behind the bracket. -/
theorem filterTail_accepts :
    Accepts filterTail fun content selector =>
      ∃ predicate,
        selector = .filter predicate ∧
        Filter.read (content ++ [.closeBracket]) = ⟨.ok predicate, content.length⟩ := by
  intro tokens selector taken
  unfold filterTail
  constructor
  · intro h
    split at h
    · next predicate before hread =>
        obtain ⟨further, hclosing, rfl⟩ := Reading.after_eq_ok.1 h
        obtain ⟨_, rest, hrest, rfl, rfl, rfl⟩ := (closing_accepts _ _ _ _).1 hclosing
        have hbefore : (tokens.take before).length = before := by
          have hdrop := congrArg List.length hrest
          rw [List.length_drop, List.nil_append, List.length_cons] at hdrop
          rw [List.length_take]
          omega
        have hsplit : tokens = tokens.take before ++ .closeBracket :: rest := by
          rw [← List.nil_append (.closeBracket :: rest), ← hrest, List.take_append_drop]
        rw [hsplit] at hread
        refine ⟨tokens.take before, rest, hsplit, by rw [hbefore]; rfl, predicate, rfl, ?_⟩
        rw [hbefore]
        exact Filter.disjunction_isLocal _ _ rest [] predicate before (Nat.le_refl _)
          (Nat.le_of_eq hbefore.symm) hread
    · cases h
  · rintro ⟨content, rest, rfl, rfl, predicate, rfl, hread⟩
    have hread' : Filter.read (content ++ .closeBracket :: rest) =
        ⟨.ok predicate, content.length⟩ :=
      Filter.disjunction_isLocal _ _ [] rest predicate _ (Nat.le_refl _) (Nat.le_refl _) hread
    rw [hread']
    simp only [List.drop_left]
    rw [Reading.after_eq_ok]
    exact ⟨1, rfl, rfl⟩

/-- What may follow the first member of a bracket: nothing or more members. -/
def Joined
    (first : Choice)
    (content : List Token)
    (selector : Selector) :
    Prop :=
  (content = [] ∧ selector = .choose first) ∨
    ∃ more : List Choice,
      more ≠ [] ∧
      content = (more.flatMap fun choice => [.comma, choice.token]) ∧
      selector = .union (first :: more)

/-- More members start with a comma. -/
theorem Joined.head
    {first : Choice}
    {content : List Token}
    {selector : Selector}
    (h : Joined first content selector) :
    (content = [] ∧ selector = .choose first) ∨ ∃ rest, content = .comma :: rest := by
  rcases h with hnone | ⟨more, hmore, rfl, -⟩
  · exact .inl hnone
  · obtain ⟨choice, others, rfl⟩ := List.exists_cons_of_ne_nil hmore
    exact .inr ⟨_, rfl⟩

theorem content_of_joined
    {first : Choice}
    {content : List Token}
    {selector : Selector}
    (h : Joined first content selector) :
    Content (first.token :: content) selector := by
  rcases h with ⟨rfl, rfl⟩ | ⟨more, hmore, rfl, rfl⟩
  · exact .choice first
  · exact .union hmore

/-- A union behind its first member takes more members. -/
theorem unionTail_joined
    {first : Choice}
    {tokens : List Token}
    {selector : Selector}
    {taken : Nat} :
    unionTail [first] (.comma :: tokens) = ⟨.ok selector, taken⟩ ↔
      ∃ content rest,
        .comma :: tokens = content ++ .closeBracket :: rest ∧
        taken = content.length + 1 ∧
        Joined first content selector := by
  rw [unionTail_accepts [first]]
  constructor
  · rintro ⟨content, rest, hsplit, htaken, more, rfl, rfl⟩
    refine ⟨_, rest, hsplit, htaken, .inr ⟨more, ?_, rfl, rfl⟩⟩
    rintro rfl
    cases hsplit
  · rintro ⟨content, rest, hsplit, htaken, ⟨rfl, -⟩ | ⟨more, -, rfl, rfl⟩⟩
    · cases hsplit
    · exact ⟨_, rest, hsplit, htaken, more, rfl, rfl⟩

theorem afterChoice_accepts
    (first : Choice) :
    Accepts (afterChoice first) (Joined first) := by
  intro tokens selector taken
  unfold afterChoice
  split
  · exact unionTail_joined
  · next hcomma =>
      rw [closing_accepts]
      constructor
      · rintro ⟨_, rest, hsplit, htaken, rfl, rfl⟩
        exact ⟨[], rest, hsplit, htaken, .inl ⟨rfl, rfl⟩⟩
      · rintro ⟨_, rest, rfl, htaken, hjoined⟩
        obtain ⟨rfl, rfl⟩ | ⟨_, rfl⟩ := hjoined.head
        · exact ⟨[], rest, rfl, htaken, rfl, rfl⟩
        · exact absurd rfl (hcomma _)

/-- After an integer the bracket ends, or more members or the rest of a slice follow. -/
theorem afterIndex_accepts
    (index : Int) :
    Accepts (afterIndex index) fun content selector =>
      Joined (.access (.index index)) content selector ∨
        ∃ behind, content = .colon :: behind ∧ Sliced (some index) behind selector := by
  intro tokens selector taken
  unfold afterIndex
  split
  · next rest =>
      constructor
      · intro h
        simp only [Reading.success, Reading.mk.injEq, Except.ok.injEq] at h
        exact ⟨[], rest, rfl, h.2.symm, .inl (.inl ⟨rfl, h.1.symm⟩)⟩
      · rintro ⟨_, behind, hsplit, rfl, hjoined | ⟨_, rfl, -⟩⟩
        · obtain ⟨rfl, rfl⟩ | ⟨_, rfl⟩ := hjoined.head
          · rfl
          · cases hsplit
        · cases hsplit
  · next rest =>
      rw [after_accepts (sliceTail_accepts (some index))]
      constructor
      · rintro ⟨content, behind, hsplit, htaken, hsliced⟩
        exact ⟨.colon :: content, behind, hsplit, htaken, .inr ⟨content, rfl, hsliced⟩⟩
      · rintro ⟨_, behind, hsplit, htaken, hjoined | ⟨content, rfl, hsliced⟩⟩
        · obtain ⟨rfl, -⟩ | ⟨_, rfl⟩ := hjoined.head <;> cases hsplit
        · exact ⟨content, behind, hsplit, htaken, hsliced⟩
  · next rest =>
      rw [unionTail_joined]
      constructor
      · rintro ⟨content, behind, hsplit, htaken, hjoined⟩
        exact ⟨content, behind, hsplit, htaken, .inl hjoined⟩
      · rintro ⟨content, behind, hsplit, htaken, hjoined | ⟨_, rfl, -⟩⟩
        · exact ⟨content, behind, hsplit, htaken, hjoined⟩
        · cases hsplit
  · next hclose hcolon hcomma =>
      constructor
      · intro h
        cases h
      · rintro ⟨_, behind, rfl, -, hjoined | ⟨_, rfl, -⟩⟩
        · obtain ⟨rfl, -⟩ | ⟨_, rfl⟩ := hjoined.head
          · exact absurd rfl (hclose _)
          · exact absurd rfl (hcomma _)
        · exact absurd rfl (hcolon _)

/-- A bracket takes what the grammar lets stand between brackets. -/
theorem bracket_accepts :
    Accepts bracket Content := by
  intro tokens selector taken
  constructor
  · intro h
    unfold bracket at h
    split at h
    · obtain ⟨content, rest, hsplit, htaken, predicate, rfl, hread⟩ :=
        (after_accepts filterTail_accepts).1 h
      exact ⟨_, rest, hsplit, htaken, .filter hread⟩
    · next index _ =>
        obtain ⟨content, rest, hsplit, htaken, hjoined | ⟨behind, rfl, hsliced⟩⟩ :=
          (after_accepts (afterIndex_accepts index)).1 h
        · exact ⟨_, rest, hsplit, htaken, content_of_joined hjoined⟩
        · exact ⟨_, rest, hsplit, htaken, content_of_sliced hsliced⟩
    · obtain ⟨content, rest, hsplit, htaken, hsliced⟩ :=
        (after_accepts (sliceTail_accepts none)).1 h
      exact ⟨_, rest, hsplit, htaken, content_of_sliced hsliced⟩
    · obtain ⟨content, rest, hsplit, htaken, hjoined⟩ :=
        (after_accepts (afterChoice_accepts .every)).1 h
      exact ⟨_, rest, hsplit, htaken, content_of_joined hjoined⟩
    · next name _ =>
        obtain ⟨content, rest, hsplit, htaken, hjoined⟩ :=
          (after_accepts (afterChoice_accepts (.access (.key name)))).1 h
        exact ⟨_, rest, hsplit, htaken, content_of_joined hjoined⟩
    all_goals cases h
  · rintro ⟨content, rest, rfl, rfl, hcontent⟩
    have joined {first : Choice} {content : List Token} (hjoined : Joined first content selector) :
        bracket (first.token :: content ++ .closeBracket :: rest) =
          ⟨.ok selector, (first.token :: content).length + 1⟩ := by
      cases first with
      | every =>
          exact (after_accepts (afterChoice_accepts .every)).2 ⟨_, rest, rfl, rfl, hjoined⟩
      | access accessor =>
          cases accessor with
          | key name =>
              exact (after_accepts (afterChoice_accepts _)).2 ⟨_, rest, rfl, rfl, hjoined⟩
          | index index =>
              exact (after_accepts (afterIndex_accepts index)).2 ⟨_, rest, rfl, rfl, .inl hjoined⟩
    have sliced {start : Option Int} {content : List Token} (hsliced : Sliced start content selector) :
        bracket (boundTokens start ++ .colon :: content ++ .closeBracket :: rest) =
          ⟨.ok selector, (boundTokens start ++ .colon :: content).length + 1⟩ := by
      cases start with
      | none =>
          exact (after_accepts (sliceTail_accepts none)).2 ⟨_, rest, rfl, rfl, hsliced⟩
      | some index =>
          exact (after_accepts (afterIndex_accepts index)).2
            ⟨_, rest, rfl, rfl, .inr ⟨content, rfl, hsliced⟩⟩
    cases hcontent with
    | choice choice => exact joined (.inl ⟨rfl, rfl⟩)
    | union hmore => exact joined (.inr ⟨_, hmore, rfl, rfl⟩)
    | range start stop => exact sliced (.inl ⟨stop, rfl, rfl⟩)
    | steps start stop hstep => exact sliced (.inr ⟨stop, _, rfl, hstep, rfl⟩)
    | filter hread =>
        exact (after_accepts filterTail_accepts).2 ⟨_, rest, rfl, rfl, _, rfl, hread⟩

theorem bracket_of_content
    {content : List Token}
    {selector : Selector}
    (h : Content content selector)
    (rest : List Token) :
    bracket (content ++ .closeBracket :: rest) = ⟨.ok selector, content.length + 1⟩ :=
  (bracket_accepts _ _ _).2 ⟨content, rest, rfl, rfl, h⟩

open Grammar (Target Word)

/-- The target of a descent is a word or a bracket. -/
theorem readTarget_eq_ok_iff
    {tokens : List Token}
    {selector : Selector}
    {taken : Nat} :
    readTarget tokens = ⟨.ok selector, taken⟩ ↔
      ∃ target rest,
        tokens = target ++ rest ∧
        taken = target.length ∧
        Target target selector := by
  constructor
  · intro h
    unfold readTarget at h
    split at h
    · next rest =>
        simp only [Reading.success, Reading.mk.injEq, Except.ok.injEq] at h
        obtain ⟨rfl, rfl⟩ := h
        exact ⟨[.star], rest, rfl, rfl, .word .star⟩
    · next rest =>
        obtain ⟨further, hbracket, rfl⟩ := Reading.after_eq_ok.1 h
        obtain ⟨content, behind, rfl, rfl, hcontent⟩ := (bracket_accepts _ _ _).1 hbracket
        exact ⟨_, behind, by simp, by simp [Nat.add_comm], .bracket hcontent⟩
    · next found rest _ _ =>
        split at h
        · next name hname =>
            simp only [Reading.success, Reading.mk.injEq, Except.ok.injEq] at h
            obtain ⟨rfl, rfl⟩ := h
            exact ⟨[found], rest, rfl, rfl, .word (.name hname)⟩
        · cases h
    · cases h
  · rintro ⟨target, rest, rfl, rfl, htarget⟩
    cases htarget with
    | word hword =>
        cases hword with
        | star => rfl
        | name hname =>
            rename_i token name
            cases token <;> simp_all [readTarget, Token.memberName?, Reading.success]
    | bracket hcontent =>
        simp [readTarget, bracket_of_content hcontent rest, Reading.after, Nat.add_comm]

end Selector

namespace Chain

open Grammar (Segments)

variable {tokens : List Token}
variable {chain : Chain}

/-- Tokens that do not end with the end of the input stand in front of it. -/
theorem split_before_end
    {front rest body : List Token}
    (hlast : front.getLast? ≠ some .endOfInput)
    (h : front ++ rest = body ++ [.endOfInput]) :
    ∃ behind, body = front ++ behind ∧ rest = behind ++ [.endOfInput] := by
  obtain ⟨behind, hbody, hrest⟩ | ⟨ending, hfront, hending⟩ := List.append_eq_append_iff.1 h
  · exact ⟨behind, hbody, hrest⟩
  · cases ending with
    | nil => exact ⟨[], by simpa using hfront.symm, by simpa using hending.symm⟩
    | cons token ending =>
        obtain ⟨rfl, hnil⟩ := List.cons.inj hending
        obtain ⟨rfl, rfl⟩ := List.append_eq_nil_iff.1 hnil.symm
        exact absurd (by rw [hfront, List.getLast?_concat]) hlast

theorem getLast?_target
    {target : List Token}
    {selector : Selector}
    (h : Grammar.Target target selector) :
    target.getLast? ≠ some .endOfInput := by
  cases h with
  | word hword =>
      cases hword with
      | star => simp
      | name hname =>
          rintro ⟨⟩
          cases hname
  | bracket hcontent =>
      rw [← List.cons_append, List.getLast?_concat]
      simp

/-- What is read in front of the end of the input is segments and a closing call. -/
theorem segments_of_reads
    {body : List Token}
    (h : Reads tokens chain)
    (hbody : .endOfInput ∉ body)
    (htokens : tokens = body ++ [.endOfInput]) :
    ∃ front,
      body = front ++ Function.tokens chain.function ∧
      Segments front chain.selectors := by
  have atEnd {body : List Token} (hbody : .endOfInput ∉ body)
      (hend : isAtEnd (body ++ [.endOfInput]) = true) :
      body = [] := by
    cases body with
    | nil => rfl
    | cons first rest =>
        cases first with
        | endOfInput => exact absurd List.mem_cons_self hbody
        | _ => cases hend
  induction h generalizing body with
  | atEnd hend =>
      subst htokens
      rw [atEnd hbody hend]
      exact ⟨[], rfl, .nil⟩
  | @length rest hend =>
      obtain ⟨behind, rfl, rfl⟩ :=
        @split_before_end [.dot, .name "length", .openParen, .closeParen] _ _ (by simp) htokens
      rw [atEnd (fun hmem => hbody (List.mem_append_right _ hmem)) hend]
      exact ⟨[], rfl, .nil⟩
  | @star rest chain hrest ih =>
      obtain ⟨behind, rfl, rfl⟩ := @split_before_end [.dot, .star] _ _ (by simp) htokens
      obtain ⟨front, rfl, hfront⟩ := ih (fun hmem => hbody (List.mem_append_right _ hmem)) rfl
      exact ⟨_, by rw [← List.append_assoc]; rfl, .cons (.dot .star) hfront⟩
  | @member token name rest chain hname hrest ih =>
      have hlast : [.dot, token].getLast? ≠ some .endOfInput := by
        rintro ⟨⟩
        cases hname
      obtain ⟨behind, rfl, rfl⟩ := split_before_end hlast htokens
      obtain ⟨front, rfl, hfront⟩ := ih (fun hmem => hbody (List.mem_append_right _ hmem)) rfl
      exact ⟨_, by rw [← List.append_assoc]; rfl, .cons (.dot (.name hname)) hfront⟩
  | @descent rest selector taken chain hselector hrest ih =>
      obtain ⟨target, behind, rfl, rfl, htarget⟩ := Selector.readTarget_eq_ok_iff.1 hselector
      have hlast : (.descent :: target).getLast? ≠ some .endOfInput :=
        getLast?_cons_ne Token.noConfusion (getLast?_target htarget)
      obtain ⟨behind, rfl, rfl⟩ := split_before_end hlast htokens
      rw [List.drop_left] at ih
      obtain ⟨front, rfl, hfront⟩ := ih (fun hmem => hbody (List.mem_append_right _ hmem)) rfl
      exact ⟨_, by rw [← List.append_assoc]; rfl, .cons (.descent htarget) hfront⟩
  | @bracket rest selector taken chain hselector hrest ih =>
      obtain ⟨content, behind, rfl, rfl, hcontent⟩ := (Selector.bracket_accepts _ _ _).1 hselector
      rw [Lexeme.drop_behind] at ih
      have hclosed : .openBracket :: (content ++ [.closeBracket]) ++ behind =
          body ++ [.endOfInput] := by
        rw [← htokens, List.cons_append, List.append_assoc]
        rfl
      obtain ⟨behind, rfl, rfl⟩ := split_before_end (getLast?_target (.bracket hcontent)) hclosed
      obtain ⟨front, rfl, hfront⟩ := ih (fun hmem => hbody (List.mem_append_right _ hmem)) rfl
      exact ⟨_, by rw [← List.append_assoc]; rfl, .cons (.bracket hcontent) hfront⟩

/-- A segment is read in front of anything that can be read. -/
theorem reads_of_segment
    {rest : List Token}
    {selectors : List Selector}
    (hsegment : Grammar.Segment tokens selectors)
    (hrest : Reads rest chain) :
    Reads (tokens ++ rest) ⟨selectors ++ chain.selectors, chain.function⟩ := by
  cases hsegment with
  | dot hword =>
      cases hword with
      | star => exact .star hrest
      | name hname => exact .member hname hrest
  | @bracket content selector hcontent =>
      have hbehind : Reads ((content ++ .closeBracket :: rest).drop (content.length + 1)) chain := by
        rwa [Lexeme.drop_behind]
      have hreads := Reads.bracket (Selector.bracket_of_content hcontent rest) hbehind
      rw [List.cons_append, List.append_assoc]
      exact hreads
  | @descent target selector htarget =>
      have hbehind : Reads ((target ++ rest).drop target.length) chain := by
        rwa [List.drop_left]
      exact Reads.descent (Selector.readTarget_eq_ok_iff.2 ⟨target, rest, rfl, rfl, htarget⟩) hbehind

/-- Segments and a closing call are read up to the end of the input. -/
theorem reads_of_segments
    {selectors : List Selector}
    (h : Segments tokens selectors)
    (function : Option Function) :
    Reads (tokens ++ Function.tokens function ++ [.endOfInput]) ⟨selectors, function⟩ := by
  induction h with
  | nil =>
      cases function with
      | none => exact .atEnd rfl
      | some function =>
          cases function
          exact .length rfl
  | cons hsegment hrest ih =>
      have hreads := reads_of_segment hsegment ih
      rwa [← List.append_assoc, ← List.append_assoc] at hreads

end Chain

namespace Grammar

/-- Whether a selector may stand for a word or a bracket. -/
def Proper :
    Selector → Prop
  | .descent => False
  | .union choices => 2 ≤ choices.length
  | .slice slice => slice.step ≠ some 0
  | _ => True

theorem Word.proper
    {token : Token}
    {selector : Selector}
    (h : Word token selector) :
    Proper selector := by
  cases h <;> trivial

theorem Content.proper
    {content : List Token}
    {selector : Selector}
    (h : Content content selector) :
    Proper selector := by
  cases h with
  | union hmore => exact Nat.succ_le_succ (List.length_pos_iff.2 hmore)
  | range => exact nofun
  | steps _ _ hstep => exact hstep
  | _ => trivial

theorem Target.proper
    {target : List Token}
    {selector : Selector}
    (h : Target target selector) :
    Proper selector := by
  cases h with
  | word hword => exact hword.proper
  | bracket hcontent => exact hcontent.proper

/-- A segment stands for a proper selector, or for a descent and a proper selector. -/
theorem Segment.selectors_eq
    {tokens : List Token}
    {selectors : List Selector}
    (h : Segment tokens selectors) :
    ∃ selector, Proper selector ∧ (selectors = [selector] ∨ selectors = [.descent, selector]) := by
  cases h with
  | dot hword => exact ⟨_, hword.proper, .inl rfl⟩
  | bracket hcontent => exact ⟨_, hcontent.proper, .inl rfl⟩
  | descent htarget => exact ⟨_, htarget.proper, .inr rfl⟩

theorem Segments.proper
    {tokens : List Token}
    {selectors : List Selector}
    (h : Segments tokens selectors) :
    ∀ selector ∈ selectors, selector = .descent ∨ Proper selector := by
  induction h with
  | nil => simp
  | cons hsegment _ ih =>
      intro selector hmem
      rcases List.mem_append.1 hmem with hfirst | hrest
      · obtain ⟨target, hproper, rfl | rfl⟩ := hsegment.selectors_eq
        · rw [List.mem_singleton.1 hfirst]
          exact .inr hproper
        · rcases List.mem_cons.1 hfirst with rfl | htarget
          · exact .inl rfl
          · rw [List.mem_singleton.1 htarget]
            exact .inr hproper
      · exact ih selector hrest

/-- Every descent is followed by a selector that is none. -/
theorem Segments.descent_followed
    {tokens : List Token}
    {selectors front rest : List Selector}
    (h : Segments tokens selectors)
    (hsplit : selectors = front ++ .descent :: rest) :
    ∃ next more, rest = next :: more ∧ next ≠ .descent := by
  induction h generalizing front with
  | nil => simp at hsplit
  | @cons _ _ _ others hsegment _ ih =>
      have hne {selector : Selector} (hproper : Proper selector) : selector ≠ .descent := by
        rintro rfl
        exact hproper
      obtain ⟨target, hproper, rfl | rfl⟩ := hsegment.selectors_eq
      · cases front with
        | nil => exact absurd (List.cons.inj hsplit).1 (hne hproper)
        | cons _ front => exact ih (List.cons.inj hsplit).2
      · cases front with
        | nil => exact ⟨target, others, (List.cons.inj hsplit).2.symm, hne hproper⟩
        | cons _ front =>
            cases front with
            | nil => exact absurd (List.cons.inj (List.cons.inj hsplit).2).1 (hne hproper)
            | cons _ front => exact ih (List.cons.inj (List.cons.inj hsplit).2).2

end Grammar

/--
Reading a query accepts exactly the grammar: segments one after another and
perhaps a call of `length()` behind them. The chain has the selectors of the
segments in order and the function of the call. So every descent is followed
by a selector that is none, every union has at least two members, and no
slice has a step of zero.
-/
theorem ofTokens_eq_ok_iff_grammar
    {body : List Token}
    {chain : Chain}
    (hbody : .endOfInput ∉ body) :
    (ofTokens (.root :: (body ++ [.endOfInput])) = .ok chain ↔
      ∃ front,
        body = front ++ Function.tokens chain.function ∧
        Grammar.Segments front chain.selectors) ∧
    (ofTokens (.root :: (body ++ [.endOfInput])) = .ok chain →
      (∀ front rest, chain.selectors = front ++ .descent :: rest →
        ∃ next more, rest = next :: more ∧ next ≠ .descent) ∧
      (∀ choices, .union choices ∈ chain.selectors → 2 ≤ choices.length) ∧
      ∀ slice, .slice slice ∈ chain.selectors → slice.step ≠ some 0) := by
  have hgrammar : ofTokens (.root :: (body ++ [.endOfInput])) = .ok chain ↔
      ∃ front,
        body = front ++ Function.tokens chain.function ∧
        Grammar.Segments front chain.selectors := by
    rw [ofTokens]
    constructor
    · intro h
      exact Chain.segments_of_reads (Chain.reads_of_read h) hbody rfl
    · rintro ⟨front, rfl, hsegments⟩
      exact Chain.read_of_reads (Chain.reads_of_segments hsegments chain.function)
  refine ⟨hgrammar, ?_⟩
  intro h
  obtain ⟨_, -, hsegments⟩ := hgrammar.1 h
  refine ⟨fun _ _ => hsegments.descent_followed, ?_, ?_⟩
  · intro choices hmem
    exact (hsegments.proper _ hmem).resolve_left Selector.noConfusion
  · intro slice hmem
    exact (hsegments.proper _ hmem).resolve_left Selector.noConfusion

/-- The tokens of `..[?@['x']>=0][:2:-1].length.length()`. -/
def lengthsBelow : List Token :=
  [.descent, .openBracket, .question, .current, .openBracket, .text "x", .closeBracket,
    .comparison .greaterOrEqual, .integer 0, .closeBracket,
    .openBracket, .colon, .integer 2, .colon, .integer (-1), .closeBracket,
    .dot, .name "length", .dot, .name "length", .openParen, .closeParen]

/-- A bracket inside a filter does not close it, and a name may be that of the function. -/
theorem ofTokens_eq_ok_iff_grammar_lengths :
    .endOfInput ∉ lengthsBelow ∧
      ofTokens (.root :: (lengthsBelow ++ [.endOfInput])) =
        .ok ⟨[.descent,
          .filter (.compare (.relative [.key "x"]) .greaterOrEqual (.literal (.integer 0))),
          .slice ⟨none, some 2, some (-1)⟩, .named "length"], some .length⟩ := by
  have hbody : .endOfInput ∉ lengthsBelow := by
    decide
  have hread : Filter.read
      ([.current, .openBracket, .text "x", .closeBracket, .comparison .greaterOrEqual, .integer 0] ++
        [.closeBracket]) =
      ⟨.ok (.compare (.relative [.key "x"]) .greaterOrEqual (.literal (.integer 0))), 6⟩ := by
    cbv
  have hsegments := Grammar.Segments.cons (.descent (.bracket (.filter hread)))
    (.cons (.bracket (.steps none (some 2) (by decide : some (-1) ≠ some 0)))
      (.cons (.dot (.name (rfl : Token.memberName? (.name "length") = some "length"))) .nil))
  exact ⟨hbody, (ofTokens_eq_ok_iff_grammar hbody).1.2 ⟨_, rfl, hsegments⟩⟩

end Query
end FieldQuery
