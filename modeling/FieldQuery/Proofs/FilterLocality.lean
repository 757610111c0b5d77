import FieldQuery.Query.FilterReading

/-!
# Filters are read locally

What a filter is read from ends in front of a closing bracket, and what stands
behind that bracket has no influence on the reading: no rule looks beyond the
bracket that it does not take. The rules are put together from a few forms,
one rule after another or one token in front of a rule, and locality passes
through each of them; the induction is on the number of tokens in front of
the bracket.
-/

namespace FieldQuery
namespace Query

namespace Reading

variable {α β : Type}

theorem after_eq_ok
    {before taken : Nat}
    {reading : Reading α}
    {value : α} :
    reading.after before = ⟨.ok value, taken⟩ ↔
      ∃ further, reading = ⟨.ok value, further⟩ ∧ taken = before + further := by
  obtain ⟨outcome, further⟩ := reading
  simp only [after, mk.injEq]
  constructor
  · rintro ⟨rfl, rfl⟩
    exact ⟨further, ⟨rfl, rfl⟩, rfl⟩
  · rintro ⟨_, ⟨rfl, rfl⟩, rfl⟩
    exact ⟨rfl, rfl⟩

theorem map_eq_ok
    {f : α → β}
    {taken : Nat}
    {reading : Reading α}
    {value : β} :
    reading.map f = ⟨.ok value, taken⟩ ↔
      ∃ result, reading = ⟨.ok result, taken⟩ ∧ value = f result := by
  obtain ⟨outcome, further⟩ := reading
  cases outcome with
  | error fault => simp [map, Except.map]
  | ok result =>
      simp only [map, Except.map, mk.injEq, Except.ok.injEq]
      constructor
      · rintro ⟨rfl, rfl⟩
        exact ⟨result, ⟨rfl, rfl⟩, rfl⟩
      · rintro ⟨_, ⟨rfl, rfl⟩, rfl⟩
        exact ⟨rfl, rfl⟩

/-- A rule, and a second one on the tokens that it leaves. -/
def andThen
    (tokens : List Token)
    (first : Reading α)
    (next : α → List Token → Reading β) :
    Reading β :=
  match first with
  | ⟨.ok value, taken⟩ => (next value (tokens.drop taken)).after taken
  | ⟨.error fault, taken⟩ => .failure fault taken

theorem andThen_eq_ok
    {tokens : List Token}
    {first : Reading α}
    {next : α → List Token → Reading β}
    {taken : Nat}
    {value : β} :
    andThen tokens first next = ⟨.ok value, taken⟩ ↔
      ∃ result before further,
        first = ⟨.ok result, before⟩ ∧
        next result (tokens.drop before) = ⟨.ok value, further⟩ ∧
        taken = before + further := by
  obtain ⟨outcome, before⟩ := first
  cases outcome with
  | error fault => simp [andThen, failure]
  | ok result =>
      simp only [andThen, after_eq_ok, mk.injEq, Except.ok.injEq]
      constructor
      · rintro ⟨further, hnext, rfl⟩
        exact ⟨result, before, further, ⟨rfl, rfl⟩, hnext, rfl⟩
      · rintro ⟨_, _, further, ⟨rfl, rfl⟩, hnext, rfl⟩
        exact ⟨further, hnext, rfl⟩

/--
Whether a rule that reads some of at most `n` tokens in front of a closing
bracket reads the same whatever stands behind the bracket.
-/
def IsLocal
    (n : Nat)
    (rule : List Token → Reading α) :
    Prop :=
  ∀ (front rest other : List Token) (value : α) (taken : Nat),
    front.length ≤ n →
    taken ≤ front.length →
    rule (front ++ .closeBracket :: rest) = ⟨.ok value, taken⟩ →
    rule (front ++ .closeBracket :: other) = ⟨.ok value, taken⟩

variable {n : Nat}
variable {rule : List Token → Reading α}

theorem IsLocal.mono
    {m : Nat}
    (h : IsLocal n rule)
    (hle : m ≤ n) :
    IsLocal m rule :=
  fun front rest other value taken hfront => h front rest other value taken (Nat.le_trans hfront hle)

theorem IsLocal.andThen
    {next : α → List Token → Reading β}
    (hrule : IsLocal n rule)
    (hnext : ∀ value, IsLocal n (next value)) :
    IsLocal n fun tokens => Reading.andThen tokens (rule tokens) next := by
  intro front rest other value taken hfront htaken h
  obtain ⟨result, before, further, hfirst, hsecond, rfl⟩ := andThen_eq_ok.1 h
  have hbefore : before ≤ front.length := by omega
  rw [List.drop_append_of_le_length hbefore] at hsecond
  refine andThen_eq_ok.2 ⟨result, before, further, ?_, ?_, rfl⟩
  · exact hrule front rest other result before hfront hbefore hfirst
  · rw [List.drop_append_of_le_length hbefore]
    refine hnext result _ rest other value further ?_ ?_ hsecond
    · rw [List.length_drop]
      omega
    · rw [List.length_drop]
      omega

end Reading

namespace Filter

open Reading (IsLocal after_eq_ok map_eq_ok)

variable {n : Nat}

variable {front rest other more : List Token}
variable {token : Token}

/-- A first token that is no closing bracket stands in front of the bracket. -/
theorem exists_front
    (hne : token ≠ .closeBracket)
    (h : front ++ .closeBracket :: rest = token :: more) :
    ∃ behind, front = token :: behind ∧ behind ++ .closeBracket :: rest = more := by
  cases front with
  | nil => exact absurd (List.cons.inj h).1.symm hne
  | cons first behind =>
      obtain ⟨rfl, hbehind⟩ := List.cons.inj h
      exact ⟨behind, rfl, hbehind⟩

/-- A closing bracket at the front is the one that all tokens stand in front of, or before it. -/
theorem front_of_closeBracket
    (h : front ++ .closeBracket :: rest = .closeBracket :: more) :
    front = [] ∨
      ∃ behind, front = .closeBracket :: behind ∧ behind ++ .closeBracket :: rest = more := by
  cases front with
  | nil => exact .inl rfl
  | cons first behind =>
      obtain ⟨rfl, hbehind⟩ := List.cons.inj h
      exact .inr ⟨behind, rfl, hbehind⟩

/-- A bracket with one member takes three tokens, so it ends in front of the bracket. -/
theorem exists_front_of_bracket
    (hne : token ≠ .closeBracket)
    (htaken : 3 ≤ front.length)
    (h : front ++ .closeBracket :: rest = .openBracket :: token :: .closeBracket :: more) :
    ∃ behind, front = .openBracket :: token :: .closeBracket :: behind ∧
      behind ++ .closeBracket :: rest = more := by
  obtain ⟨_, rfl, hopened⟩ := exists_front (by decide) h
  obtain ⟨_, rfl, hmember⟩ := exists_front hne hopened
  obtain rfl | ⟨behind, rfl, hclosed⟩ := front_of_closeBracket hmember
  · simp at htaken
  · exact ⟨behind, rfl, hclosed⟩

/-- The rule for the path after the sign of the current node. -/
theorem relativePath_isLocal :
    IsLocal n relativePath := by
  intro front rest other value taken hfront htaken h
  clear hfront
  generalize htokens : front ++ .closeBracket :: rest = tokens at h
  fun_induction relativePath tokens generalizing front value taken with
  | case1 name more ih =>
      obtain ⟨further, hmap, rfl⟩ := after_eq_ok.1 h
      obtain ⟨path, hpath, rfl⟩ := map_eq_ok.1 hmap
      obtain ⟨_, rfl, hdot⟩ := exists_front (by decide) htokens
      obtain ⟨behind, rfl, hmore⟩ := exists_front (by simp) hdot
      have hbehind := ih behind path further (by grind) hmore hpath
      rw [List.cons_append, List.cons_append, relativePath, hbehind]
      rfl
  | case2 name more ih =>
      obtain ⟨further, hmap, rfl⟩ := after_eq_ok.1 h
      obtain ⟨path, hpath, rfl⟩ := map_eq_ok.1 hmap
      obtain ⟨behind, rfl, hmore⟩ := exists_front_of_bracket (by simp) (by omega) htokens
      have hbehind := ih behind path further (by grind) hmore hpath
      rw [List.cons_append, List.cons_append, List.cons_append, relativePath, hbehind]
      rfl
  | case3 index more ih =>
      obtain ⟨further, hmap, rfl⟩ := after_eq_ok.1 h
      obtain ⟨path, hpath, rfl⟩ := map_eq_ok.1 hmap
      obtain ⟨behind, rfl, hmore⟩ := exists_front_of_bracket (by simp) (by omega) htokens
      have hbehind := ih behind path further (by grind) hmore hpath
      rw [List.cons_append, List.cons_append, List.cons_append, relativePath, hbehind]
      rfl
  | case4 => cases h
  | case5 tokens hname htext hindex hdot =>
      rw [← h]
      -- a path that goes on in front of `other` would also go on in front of `rest`
      unfold relativePath
      split
      · next name more heq =>
          obtain ⟨_, rfl, -⟩ := exists_front (by decide) heq
          exact absurd htokens.symm (hdot _)
      · next name more heq =>
          obtain ⟨_, rfl, hopened⟩ := exists_front (by decide) heq
          obtain ⟨_, rfl, hmember⟩ := exists_front (by simp) hopened
          obtain rfl | ⟨_, rfl, -⟩ := front_of_closeBracket hmember
          · exact absurd htokens.symm (htext _ _)
          · exact absurd htokens.symm (htext _ _)
      · next index more heq =>
          obtain ⟨_, rfl, hopened⟩ := exists_front (by decide) heq
          obtain ⟨_, rfl, hmember⟩ := exists_front (by simp) hopened
          obtain rfl | ⟨_, rfl, -⟩ := front_of_closeBracket hmember
          · exact absurd htokens.symm (hindex _ _)
          · exact absurd htokens.symm (hindex _ _)
      · next more heq =>
          obtain ⟨_, rfl, -⟩ := exists_front (by decide) heq
          exact absurd htokens.symm (hdot _)
      · rfl

/-- The parenthesis that closes a filter stands in front of the bracket. -/
theorem closingParen_isLocal
    (inner : Filter) :
    IsLocal n (closingParen inner) := by
  intro front rest other value taken _ htaken h
  cases front with
  | nil => cases h
  | cons first behind => cases first <;> exact h

/-- Reads the comparison that follows a first operand, if there is one. -/
def comparand
    (left : Filter) :
    List Token → Reading Filter
  | .comparison operator :: rest => ((primary rest).map (left.compare operator ·)).after 1
  | _ => .success left 0

theorem comparison_eq
    (tokens : List Token) :
    comparison tokens = Reading.andThen tokens (primary tokens) comparand := by
  rcases hprimary : primary tokens with ⟨outcome, taken⟩
  cases outcome with
  | error fault => simp [comparison, hprimary, Reading.andThen, Reading.failure]
  | ok left =>
      rw [comparison, hprimary]
      simp only [Reading.andThen]
      split
      · next operator rest hdrop =>
          rw [hdrop, comparand, Reading.after, Reading.after, Reading.after, Nat.add_assoc]
      · next hdrop =>
          have hend : comparand left (tokens.drop taken) = .success left 0 := by
            unfold comparand
            split
            · next heq => exact absurd heq (hdrop _ _)
            · rfl
          rw [hend]
          rfl

theorem conjunction_eq
    (tokens : List Token) :
    conjunction tokens = Reading.andThen tokens (comparison tokens) moreConjuncts := by
  rcases hfirst : comparison tokens with ⟨outcome, taken⟩
  cases outcome <;> simp [conjunction, hfirst, Reading.andThen, Reading.failure]

theorem disjunction_eq
    (tokens : List Token) :
    disjunction tokens = Reading.andThen tokens (conjunction tokens) moreDisjuncts := by
  rcases hfirst : conjunction tokens with ⟨outcome, taken⟩
  cases outcome <;> simp [disjunction, hfirst, Reading.andThen, Reading.failure]

/-- Reads what a sign joins to the filters before. -/
theorem moreConjuncts_and
    (left : Filter)
    (rest : List Token) :
    moreConjuncts left (.and :: rest) =
      (Reading.andThen rest (comparison rest) fun right => moreConjuncts (left.and right)).after 1 := by
  rcases hfirst : comparison rest with ⟨outcome, taken⟩
  cases outcome <;>
    simp [moreConjuncts, hfirst, Reading.andThen, Reading.failure, Reading.after, Nat.add_assoc]

theorem moreDisjuncts_or
    (left : Filter)
    (rest : List Token) :
    moreDisjuncts left (.or :: rest) =
      (Reading.andThen rest (conjunction rest) fun right => moreDisjuncts (left.or right)).after 1 := by
  rcases hfirst : conjunction rest with ⟨outcome, taken⟩
  cases outcome <;>
    simp [moreDisjuncts, hfirst, Reading.andThen, Reading.failure, Reading.after, Nat.add_assoc]

theorem moreConjuncts_end
    (left : Filter)
    (tokens : List Token)
    (h : tokens.head? ≠ some .and) :
    moreConjuncts left tokens = .success left 0 := by
  unfold moreConjuncts
  split
  · exact absurd rfl h
  · rfl

theorem moreDisjuncts_end
    (left : Filter)
    (tokens : List Token)
    (h : tokens.head? ≠ some .or) :
    moreDisjuncts left tokens = .success left 0 := by
  unfold moreDisjuncts
  split
  · exact absurd rfl h
  · rfl

theorem primary_openParen
    (rest : List Token) :
    primary (.openParen :: rest) =
      (Reading.andThen rest (disjunction rest) closingParen).after 1 := by
  rcases hinner : disjunction rest with ⟨outcome, taken⟩
  cases outcome <;>
    simp [primary, hinner, Reading.andThen, Reading.failure, Reading.after, Nat.add_assoc]

section Joined

variable {rule : List Token → Reading Filter}
variable {more : Filter → List Token → Reading Filter}
variable {join : Filter → Filter → Filter}
variable {sign : Token}

/-- Filters that a sign joins are read locally if each of them is. -/
theorem joined_isLocal
    (hrule : IsLocal n rule)
    (hsign : sign ≠ .closeBracket)
    (hjoined : ∀ left rest,
      more left (sign :: rest) =
        (Reading.andThen rest (rule rest) fun right => more (join left right)).after 1)
    (hend : ∀ left tokens, tokens.head? ≠ some sign → more left tokens = .success left 0) :
    ∀ left, IsLocal n (more left) := by
  induction n using Nat.strongRecOn with
  | ind n ih =>
      intro left front rest other value taken hfront htaken h
      cases front with
      | nil =>
          have hstop (tokens : List Token) :
              more left (.closeBracket :: tokens) = .success left 0 :=
            hend left _ fun heq => hsign (Option.some.inj heq).symm
          rw [List.nil_append, hstop] at h ⊢
          exact h
      | cons first behind =>
          rw [List.length_cons] at hfront htaken
          by_cases hfirst : first = sign
          · subst hfirst
            rw [List.cons_append, hjoined, after_eq_ok] at h ⊢
            obtain ⟨further, hfurther, rfl⟩ := h
            have hshorter : IsLocal behind.length rule := hrule.mono (by omega)
            have hlater := hshorter.andThen fun right => ih _ (by omega) hshorter (join left right)
            have hother :=
              hlater behind rest other value further (Nat.le_refl _) (by omega) hfurther
            exact ⟨further, hother, rfl⟩
          · have hstop (tokens : List Token) : more left (first :: tokens) = .success left 0 :=
              hend left _ fun heq => hfirst (Option.some.inj heq)
            rw [List.cons_append, hstop] at h ⊢
            exact h

end Joined

theorem comparand_isLocal
    (hprimary : IsLocal n primary)
    (left : Filter) :
    IsLocal n (comparand left) := by
  intro front rest other value taken hfront htaken h
  cases front with
  | nil => exact h
  | cons first behind =>
      rw [List.length_cons] at hfront htaken
      cases first with
      | comparison operator =>
          rw [List.cons_append, comparand, after_eq_ok] at h ⊢
          obtain ⟨further, hmap, rfl⟩ := h
          obtain ⟨right, hright, rfl⟩ := map_eq_ok.1 hmap
          have hother := hprimary behind rest other right further (by omega) (by omega) hright
          exact ⟨further, map_eq_ok.2 ⟨right, hother, rfl⟩, rfl⟩
      | _ => exact h

/-- A primary filter is read locally if the filters in shorter parentheses are. -/
theorem primary_isLocal
    (hinner : ∀ m < n, IsLocal m disjunction) :
    IsLocal n primary := by
  intro front rest other value taken hfront htaken h
  cases front with
  | nil =>
      rw [List.nil_append, primary] at h
      · cases h
      all_goals simp
  | cons first behind =>
      rw [List.length_cons] at hfront htaken
      cases first with
      | current =>
          rw [List.cons_append, primary, after_eq_ok] at h ⊢
          obtain ⟨further, hmap, rfl⟩ := h
          obtain ⟨path, hpath, rfl⟩ := map_eq_ok.1 hmap
          have hother :=
            relativePath_isLocal behind rest other path further (Nat.le_refl _) (by omega) hpath
          exact ⟨further, map_eq_ok.2 ⟨path, hother, rfl⟩, rfl⟩
      | openParen =>
          rw [List.cons_append, primary_openParen, after_eq_ok] at h ⊢
          obtain ⟨further, hfurther, rfl⟩ := h
          have hlater := (hinner behind.length (by omega)).andThen closingParen_isLocal
          have hother :=
            hlater behind rest other value further (Nat.le_refl _) (by omega) hfurther
          exact ⟨further, hother, rfl⟩
      | _ => simp_all [primary]

/-- No rule for filters looks beyond the bracket that closes the filter. -/
theorem disjunction_isLocal
    (n : Nat) :
    IsLocal n disjunction := by
  induction n using Nat.strongRecOn with
  | ind n ih =>
      have hprimary : IsLocal n primary := primary_isLocal ih
      have hcomparison : IsLocal n comparison := by
        rw [funext comparison_eq]
        exact hprimary.andThen (comparand_isLocal hprimary)
      have hconjunction : IsLocal n conjunction := by
        rw [funext conjunction_eq]
        exact hcomparison.andThen
          (joined_isLocal hcomparison Token.noConfusion moreConjuncts_and moreConjuncts_end)
      rw [funext disjunction_eq]
      exact hconjunction.andThen
        (joined_isLocal hconjunction Token.noConfusion moreDisjuncts_or moreDisjuncts_end)

end Filter
end Query
end FieldQuery
