import FieldQuery.Proofs.Brackets

/-!
# Chains of segments

The segments of a query are read one after another. This module gives the
reading as a relation with one rule for each kind of segment, so that facts
about queries go by induction on it. One of them is that no query ends with
a descent: whatever it selects lies below the node that its last selector
starts from.
-/

namespace FieldQuery
namespace Query
namespace Chain

/-- The segments of a list of tokens, and the chain that they make. -/
inductive Reads : List Token → Chain → Prop where
  | atEnd
      {tokens : List Token}
      (hend : isAtEnd tokens = true) :
      Reads tokens ⟨[], none⟩
  | length
      {rest : List Token}
      (hend : isAtEnd rest = true) :
      Reads (.dot :: .name "length" :: .openParen :: .closeParen :: rest) ⟨[], some .length⟩
  | star
      {rest : List Token}
      {chain : Chain}
      (hrest : Reads rest chain) :
      Reads (.dot :: .star :: rest) (chain.cons (.choose .every))
  | member
      {token : Token}
      {name : String}
      {rest : List Token}
      {chain : Chain}
      (hname : token.memberName? = some name)
      (hrest : Reads rest chain) :
      Reads (.dot :: token :: rest) (chain.cons (.named name))
  | descent
      {rest : List Token}
      {target : Selector}
      {taken : Nat}
      {chain : Chain}
      (htarget : Selector.readTarget rest = ⟨.ok target, taken⟩)
      (hrest : Reads (rest.drop taken) chain) :
      Reads (.descent :: rest) ((chain.cons target).cons .descent)
  | bracket
      {rest : List Token}
      {selector : Selector}
      {taken : Nat}
      {chain : Chain}
      (hselector : Selector.bracket rest = ⟨.ok selector, taken⟩)
      (hrest : Reads (rest.drop taken) chain) :
      Reads (.openBracket :: rest) (chain.cons selector)

theorem afterLength?_eq_some
    {tokens after : List Token}
    (h : afterLength? tokens = some after) :
    tokens = .dot :: .name "length" :: .openParen :: .closeParen :: after := by
  unfold afterLength? at h
  split at h
  · rw [Option.some.inj h]
  · cases h

/-- A bracket reads no descent. -/
theorem bracket_ne_descent
    {tokens : List Token}
    {selector : Selector}
    (h : (Selector.bracket tokens).outcome = .ok selector) :
    selector ≠ .descent := by
  rcases Selector.bracket_outcome h with
    ⟨_, _, -, rfl⟩ | ⟨_, _, -, rfl⟩ | ⟨_, -, rfl⟩ | ⟨hplural, -⟩
  · simp
  · simp
  · simp
  · exact hplural.2

/-- A dot is followed by a star or a member name. -/
theorem afterDot_eq_ok
    {tokens : List Token}
    {selector : Selector}
    {taken : Nat}
    (h : Selector.afterDot tokens = ⟨.ok selector, taken⟩) :
    (∃ rest, tokens = .star :: rest ∧ selector = .choose .every ∧ taken = 1) ∨
      ∃ token name rest, tokens = token :: rest ∧ token.memberName? = some name ∧
        selector = .named name ∧ taken = 1 := by
  unfold Selector.afterDot at h
  split at h
  · cases h
  · cases h
  · next rest =>
      simp only [Reading.success, Reading.mk.injEq, Except.ok.injEq] at h
      exact Or.inl ⟨rest, rfl, h.1.symm, h.2.symm⟩
  · next found rest _ _ =>
      split at h
      · next name hname =>
          simp only [Reading.success, Reading.mk.injEq, Except.ok.injEq] at h
          exact Or.inr ⟨found, name, rest, rfl, hname, h.1.symm, h.2.symm⟩
      · cases h

/-- The first segment of a list of tokens. -/
theorem selector_read_eq_ok
    {head : Token}
    {rest : List Token}
    {selector : Selector}
    {taken : Nat}
    (h : Selector.read (head :: rest) = ⟨.ok selector, taken⟩) :
    (head = .dot ∧ Selector.afterDot rest = ⟨.ok selector, taken - 1⟩) ∨
      (head = .descent ∧ selector = .descent) ∨
      (head = .openBracket ∧ Selector.bracket rest = ⟨.ok selector, taken - 1⟩) := by
  unfold Selector.read at h
  split at h
  case h_1 =>
    simp only [Reading.after, Reading.mk.injEq] at h
    next tail heq =>
      obtain ⟨rfl, rfl⟩ := List.cons.inj heq
      refine Or.inl ⟨rfl, ?_⟩
      rw [← h.1, ← h.2, Nat.add_sub_cancel_left]
  case h_2 =>
    next heq =>
      simp only [Reading.success, Reading.mk.injEq, Except.ok.injEq] at h
      exact Or.inr (Or.inl ⟨(List.cons.inj heq).1, h.1.symm⟩)
  case h_3 =>
    simp only [Reading.after, Reading.mk.injEq] at h
    next tail heq =>
      obtain ⟨rfl, rfl⟩ := List.cons.inj heq
      refine Or.inr (Or.inr ⟨rfl, ?_⟩)
      rw [← h.1, ← h.2, Nat.add_sub_cancel_left]
  all_goals cases h

/-- Reading a list of tokens follows the rules. -/
theorem reads_of_read
    {tokens : List Token}
    {chain : Chain}
    (h : read tokens = .ok chain) :
    Reads tokens chain := by
  fun_induction read tokens generalizing chain with
  | case1 =>
      rw [← Except.ok.inj h]
      exact .atEnd rfl
  | case2 =>
      rw [← Except.ok.inj h]
      exact .atEnd rfl
  | case3 head rest _ after hlength hend =>
      rw [← Except.ok.inj h, afterLength?_eq_some hlength]
      exact .length hend
  | case8 head rest _ _ _ hhead _ target taken htarget chain hread ih =>
      rw [← Except.ok.inj h]
      rcases selector_read_eq_ok hhead with ⟨-, hdot⟩ | ⟨rfl, -⟩ | ⟨-, hbracket⟩
      · rcases afterDot_eq_ok hdot with ⟨_, -, hstar, -⟩ | ⟨_, _, _, -, -, hnamed, -⟩
        · cases hstar
        · cases hnamed
      · exact .descent htarget (ih hread)
      · exact absurd rfl (bracket_ne_descent (by rw [hbracket]))
  | case10 head rest _ _ selector taken hne hhead chain hread ih =>
      rw [← Except.ok.inj h]
      have hrest := ih hread
      rcases selector_read_eq_ok hhead with ⟨rfl, hdot⟩ | ⟨-, hdescent⟩ | ⟨rfl, hbracket⟩
      · rcases afterDot_eq_ok hdot with
          ⟨more, rfl, rfl, htaken⟩ | ⟨token, name, more, rfl, hname, rfl, htaken⟩
        · rw [htaken] at hrest
          exact .star hrest
        · rw [htaken] at hrest
          exact .member hname hrest
      · exact absurd hdescent hne
      · exact .bracket hbracket hrest
  | _ => cases h

/-- A name with segments behind it is no call of `length()`. -/
theorem afterLength?_member
    {token : Token}
    {rest : List Token}
    {chain : Chain}
    (h : Reads rest chain) :
    afterLength? (.dot :: token :: rest) = none := by
  unfold afterLength?
  split
  · next heq =>
      obtain ⟨-, hparens⟩ := List.cons.inj (List.cons.inj heq).2
      rw [hparens] at h
      cases h with
      | atEnd hend => cases hend
  · rfl

theorem readTarget_not_isAtEnd
    {tokens : List Token}
    {target : Selector}
    {taken : Nat}
    (h : Selector.readTarget tokens = ⟨.ok target, taken⟩) :
    isAtEnd tokens = false := by
  unfold isAtEnd
  split
  · cases h
  · cases h
  · rfl

/-- The rules give what reading gives. -/
theorem read_of_reads
    {tokens : List Token}
    {chain : Chain}
    (h : Reads tokens chain) :
    read tokens = .ok chain := by
  induction h with
  | @atEnd tokens hend =>
      unfold isAtEnd at hend
      split at hend
      · rw [read]
      · rw [read]
      · cases hend
  | length hend =>
      rw [read, afterLength?]
      · simp [hend]
      · simp
  | star hrest ih =>
      rw [read, afterLength?_member hrest]
      · simp [Selector.read, Selector.afterDot, Reading.success, Reading.after, ih]
      · simp
  | @member token name rest chain hname hrest ih =>
      have hselector : Selector.read (.dot :: token :: rest) = ⟨.ok (.named name), 2⟩ := by
        cases token <;>
          simp_all [Selector.read, Selector.afterDot, Token.memberName?, Reading.success,
            Reading.after]
      rw [read, afterLength?_member hrest, hselector]
      · simp [Selector.named, ih]
      · simp
  | descent htarget hrest ih =>
      rw [read]
      · simp [afterLength?, Selector.read, Reading.success, readTarget_not_isAtEnd htarget,
          htarget, ih]
      · simp
  | @bracket rest selector taken chain hselector hrest ih =>
      have hne : selector ≠ .descent := bracket_ne_descent (by rw [hselector])
      rw [read]
      · simp [afterLength?, Selector.read, Reading.after, hselector, ih]
      · simp

/-- What can be read is at its end, or starts with the sign of a segment. -/
theorem first_of_reads
    {tokens : List Token}
    {chain : Chain}
    (h : Reads tokens chain) :
    (isAtEnd tokens = true ∧ chain = ⟨[], none⟩) ∨
      ∃ first rest, tokens = first :: rest ∧
        (first = .dot ∨ first = .descent ∨ first = .openBracket) ∧
        chain ≠ ⟨[], none⟩ := by
  cases h with
  | atEnd hend => exact Or.inl ⟨hend, rfl⟩
  | length => exact Or.inr ⟨.dot, _, rfl, by simp, by simp⟩
  | star => exact Or.inr ⟨.dot, _, rfl, by simp, by simp [cons]⟩
  | member => exact Or.inr ⟨.dot, _, rfl, by simp, by simp [cons]⟩
  | descent => exact Or.inr ⟨.descent, _, rfl, by simp, by simp [cons]⟩
  | bracket => exact Or.inr ⟨.openBracket, _, rfl, by simp, by simp [cons]⟩

/-- The target of a descent is no descent. -/
theorem readTarget_ne_descent
    {tokens : List Token}
    {target : Selector}
    {taken : Nat}
    (h : Selector.readTarget tokens = ⟨.ok target, taken⟩) :
    target ≠ .descent := by
  unfold Selector.readTarget at h
  split at h
  · simp only [Reading.success, Reading.mk.injEq, Except.ok.injEq] at h
    simp [← h.1]
  · simp only [Reading.after, Reading.mk.injEq] at h
    exact bracket_ne_descent h.1
  · split at h
    · simp only [Reading.success, Reading.mk.injEq, Except.ok.injEq] at h
      simp [← h.1, Selector.named]
    · cases h
  · cases h

theorem getLast?_cons_ne
    {α : Type}
    {a b : α}
    {rest : List α}
    (ha : a ≠ b)
    (hrest : rest.getLast? ≠ some b) :
    (a :: rest).getLast? ≠ some b := by
  cases rest with
  | nil => simpa using ha
  | cons c rest => rwa [List.getLast?_cons_cons]

/-- No chain of selectors ends with a descent. -/
theorem getLast?_ne_descent
    {tokens : List Token}
    {chain : Chain}
    (h : Reads tokens chain) :
    chain.selectors.getLast? ≠ some .descent := by
  induction h with
  | atEnd => simp
  | length => simp
  | star _ ih => exact getLast?_cons_ne (by simp) ih
  | member _ _ ih => exact getLast?_cons_ne (by simp [Selector.named]) ih
  | descent htarget _ ih =>
      have htail := getLast?_cons_ne (readTarget_ne_descent htarget) ih
      rw [cons, cons, List.getLast?_cons_cons]
      exact htail
  | bracket hselector _ ih =>
      exact getLast?_cons_ne (bracket_ne_descent (by rw [hselector])) ih

end Chain
end Query
end FieldQuery
