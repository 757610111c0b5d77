import FieldQuery.Proofs.Steps

/-!
# Operators behind plain segments

In a segment that names one child no operator stands outside quotes, and
inside quotes an operator ends before the closing quote. So a search for
operators passes over such segments, and finds the one that follows them.
-/

namespace FieldQuery
namespace Path
namespace Division

open Query.Lexeme (startsWord continuesWord)

/-- Where a pattern occurs, each of its places is filled by the text. -/
theorem length_le_of_startsWith
    {pattern : Pattern}
    {front rest : List Char}
    {c : Char}
    (hc : ∀ allowed ∈ pattern, c ∉ allowed)
    (h : startsWith pattern (front ++ c :: rest) = true) :
    pattern.length ≤ front.length := by
  induction pattern generalizing front with
  | nil =>
      exact Nat.zero_le _
  | cons allowed pattern ih =>
      cases front with
      | nil =>
          simp only [List.nil_append, startsWith, Bool.and_eq_true, List.contains_iff_mem] at h
          exact absurd h.1 (hc allowed List.mem_cons_self)
      | cons d front =>
          simp only [List.cons_append, startsWith, Bool.and_eq_true] at h
          have hrest := ih (fun other hmem => hc other (List.mem_cons_of_mem _ hmem)) h.2
          simpa using hrest

/--
Whether a pattern occurs in a stretch of a text only inside quotes, and never
across the end of the stretch.
-/
def Hides
    (pattern : Pattern)
    (front rest : List Char) : Prop :=
  ∀ i, i < front.length → startsWith pattern ((front ++ rest).drop i) = true →
    coveredAt .outside front i = true ∧ i + pattern.length ≤ front.length

theorem coveredAt_append_left
    (state : Quoting)
    (front rest : List Char)
    {i : Nat}
    (hi : i < front.length) :
    coveredAt state (front ++ rest) i = coveredAt state front i := by
  induction front generalizing state i with
  | nil => simp at hi
  | cons c front ih =>
      cases i with
      | zero => rfl
      | succ i => exact ih _ (by simpa using hi)

theorem Hides.append
    {pattern : Pattern}
    {front middle rest : List Char}
    (hfront : Hides pattern front (middle ++ rest))
    (hafter : Quoting.outside.after front = .outside)
    (hmiddle : Hides pattern middle rest) :
    Hides pattern (front ++ middle) rest := by
  intro i hi hstart
  rw [List.append_assoc] at hstart
  by_cases hin : i < front.length
  · obtain ⟨hcovered, hlength⟩ := hfront i hin hstart
    rw [coveredAt_append_left _ _ _ hin]
    exact ⟨hcovered, by rw [List.length_append]; omega⟩
  · obtain ⟨j, rfl⟩ := Nat.exists_eq_add_of_le (Nat.le_of_not_lt hin)
    rw [← List.drop_drop, List.drop_left] at hstart
    rw [List.length_append] at hi ⊢
    obtain ⟨hcovered, hlength⟩ := hmiddle j (by omega) hstart
    rw [coveredAt_append_right, hafter]
    exact ⟨hcovered, by omega⟩

/-- A stretch without the characters that a pattern starts with hides it. -/
theorem hides_of_not_mem
    {allowed : List Char}
    {pattern : Pattern}
    {front rest : List Char}
    (h : ∀ c ∈ front, c ∉ allowed) :
    Hides (allowed :: pattern) front rest := by
  intro i hi hstart
  have hdrop : (front ++ rest).drop i = front[i] :: (front ++ rest).drop (i + 1) := by
    rw [List.drop_eq_getElem_cons (by rw [List.length_append]; omega),
      List.getElem_append_left hi]
  rw [hdrop, startsWith, Bool.and_eq_true, List.contains_iff_mem] at hstart
  exact absurd hstart.1 (h _ (List.getElem_mem hi))

/-- Every character of a quoted text is covered. -/
theorem coveredAt_quoted
    {quote : Char}
    {body : List Char}
    {i : Nat}
    (hquote : quote = '\'' ∨ quote = '"')
    (hbody : QuotedBody quote body)
    (hi : i < body.length + 2) :
    coveredAt .outside (quote :: (body ++ [quote])) i = true := by
  have hopen : ∀ start, QuoteState.opened? .outside = some start → start ≤ 0 := by
    simp [QuoteState.opened?]
  have hcovered := @isCovered_spansFrom .outside 0 i (quote :: (body ++ [quote])) hopen (by simp; omega)
  rw [spansFrom_quoted hquote hbody] at hcovered
  rw [← QuoteState.quoting, ← hcovered]
  simp [isCovered, Span.covers]
  omega

/-- A quoted text hides the patterns that a quote is no part of. -/
theorem hides_quoted
    {pattern : Pattern}
    {quote : Char}
    {body : List Char}
    (rest : List Char)
    (hquote : quote = '\'' ∨ quote = '"')
    (hbody : QuotedBody quote body)
    (hpattern : ∀ allowed ∈ pattern, quote ∉ allowed) :
    Hides pattern (quote :: (body ++ [quote])) rest := by
  intro i hi hstart
  have hlength : i < body.length + 2 := by
    simp only [List.length_cons, List.length_append, List.length_nil] at hi
    omega
  refine ⟨coveredAt_quoted hquote hbody hlength, ?_⟩
  have hdrop : (quote :: (body ++ [quote]) ++ rest).drop i =
      (quote :: body).drop i ++ quote :: rest := by
    have hle : i ≤ (quote :: body).length := by
      simp only [List.length_cons]
      omega
    rw [← List.drop_append_of_le_length hle]
    simp
  rw [hdrop] at hstart
  have hle := length_le_of_startsWith hpattern hstart
  simp only [List.length_drop, List.length_cons, List.length_append, List.length_nil] at hle ⊢
  omega

/-- The occurrences in a stretch that none of them leaves, and those behind it. -/
theorem occurrences_append
    {pattern : Pattern}
    {skip : Nat}
    (position : Nat)
    {front rest : List Char}
    (hskip : skip ≤ front.length)
    (h : ∀ i, i < front.length → startsWith pattern ((front ++ rest).drop i) = true →
      i + pattern.length ≤ front.length) :
    ∃ hidden,
      occurrences pattern skip position (front ++ rest) =
        hidden ++ occurrences pattern 0 (position + front.length) rest ∧
      ∀ p ∈ hidden, ∃ i, i < front.length ∧ p = position + i ∧
        startsWith pattern ((front ++ rest).drop i) = true := by
  induction front generalizing skip position with
  | nil =>
      obtain rfl : skip = 0 := by simpa using hskip
      exact ⟨[], rfl, by simp⟩
  | cons c front ih =>
      have htail : ∀ i, i < front.length → startsWith pattern ((front ++ rest).drop i) = true →
          i + pattern.length ≤ front.length := by
        intro i hi hstart
        have hsucc := h (i + 1) (by simpa using hi) hstart
        rw [List.length_cons] at hsucc
        omega
      have shifted {hidden : List Nat}
          (hmem : ∀ p ∈ hidden, ∃ i, i < front.length ∧ p = position + 1 + i ∧
            startsWith pattern ((front ++ rest).drop i) = true) :
          ∀ p ∈ hidden, ∃ i, i < (c :: front).length ∧ p = position + i ∧
            startsWith pattern ((c :: front ++ rest).drop i) = true := by
        intro p hp
        obtain ⟨i, hi, rfl, hstart⟩ := hmem p hp
        exact ⟨i + 1, by simpa using hi, by omega, hstart⟩
      have hlength : position + (c :: front).length = position + 1 + front.length := by
        rw [List.length_cons]
        omega
      rw [hlength]
      cases skip with
      | succ skip =>
          obtain ⟨hidden, heq, hmem⟩ := ih (position + 1) (by simpa using hskip) htail
          exact ⟨hidden, heq, shifted hmem⟩
      | zero =>
          rw [List.cons_append, occurrences]
          by_cases hstart : startsWith pattern (c :: (front ++ rest)) = true
          · have hend := h 0 (by simp) hstart
            rw [List.length_cons, Nat.zero_add] at hend
            obtain ⟨hidden, heq, hmem⟩ := @ih (pattern.length - 1) (position + 1) (by omega) htail
            refine ⟨position :: hidden, by simp [hstart, heq], ?_⟩
            intro p hp
            rcases List.mem_cons.1 hp with rfl | hp
            · exact ⟨0, by simp, rfl, hstart⟩
            · exact shifted hmem p hp
          · obtain ⟨hidden, heq, hmem⟩ := ih (position + 1) (Nat.zero_le _) htail
            exact ⟨hidden, by simp [hstart, heq], shifted hmem⟩

/-- Whether an occurrence at a position counts as an operator. -/
def counts
    (spans : List Span)
    (position : Nat) :
    Bool :=
  0 < position && !isCovered spans position

/-- A search for an operator passes over a stretch that hides it. -/
theorem find?_occurrences_append
    {spans : List Span}
    {pattern : Pattern}
    {position : Nat}
    {front rest : List Char}
    (htracks : Tracks spans .outside position (front ++ rest))
    (h : Hides pattern front rest) :
    (occurrences pattern 0 position (front ++ rest)).find? (counts spans) =
      (occurrences pattern 0 (position + front.length) rest).find? (counts spans) := by
  obtain ⟨hidden, heq, hmem⟩ := occurrences_append position (Nat.zero_le front.length)
    fun i hi hstart => (h i hi hstart).2
  have hnone : hidden.find? (counts spans) = none := by
    rw [List.find?_eq_none]
    intro p hp
    obtain ⟨i, hi, rfl, hstart⟩ := hmem p hp
    have hcovered := htracks i (by rw [List.length_append]; omega)
    rw [coveredAt_append_left _ _ _ hi, (h i hi hstart).1] at hcovered
    simp [counts, hcovered]
  rw [heq, List.find?_append, hnone, Option.none_or]

/-- Whether a text is empty or goes on with the first sign of a segment. -/
def GoesOn
    (text : List Char) : Prop :=
  ∀ c, text.head? = some c → c = '.' ∨ c = '['

theorem goesOn_advancedStart
    {text : List Char}
    (h : AdvancedStart text) :
    GoesOn text := by
  cases h with
  | descent => simp [GoesOn]
  | star => simp [GoesOn]
  | length => exact fun c hc => Or.inl (Option.some.inj hc).symm
  | bracket => simp [GoesOn]

/-- A call is not spelled by a word that another segment follows. -/
theorem startsWith_call_eq_false
    {letters more : Pattern}
    {word rest : List Char}
    (hletters : ∀ allowed ∈ letters, '.' ∉ allowed ∧ '[' ∉ allowed)
    (hword : ∀ c ∈ word, continuesWord c = true)
    (hrest : GoesOn rest) :
    startsWith (letters ++ ['('] :: more) (word ++ rest) = false := by
  have hnext : ∀ allowed : List Char, '.' ∉ allowed → '[' ∉ allowed → ∀ others,
      startsWith (allowed :: others) rest = false := by
    intro allowed hdot hopening others
    cases rest with
    | nil => rfl
    | cons c rest =>
        rw [startsWith, Bool.and_eq_false_iff]
        refine Or.inl ?_
        rw [← Bool.not_eq_true, List.contains_iff_mem]
        rcases hrest c rfl with rfl | rfl
        · exact hdot
        · exact hopening
  induction letters generalizing word with
  | nil =>
      cases word with
      | nil => exact hnext ['('] (by decide) (by decide) more
      | cons c word =>
          have hc : c ≠ '(' := Query.Lexeme.ne_of_continuesWord (hword c List.mem_cons_self)
            (by decide +kernel)
          simp [startsWith, hc]
  | cons allowed letters ih =>
      have hallowed := hletters allowed List.mem_cons_self
      cases word with
      | nil => exact hnext allowed hallowed.1 hallowed.2 _
      | cons c word =>
          rw [List.cons_append, List.cons_append, startsWith, Bool.and_eq_false_iff]
          exact Or.inr (ih (fun other hmem => hletters other (List.mem_cons_of_mem _ hmem))
            fun d hd => hword d (List.mem_cons_of_mem _ hd))

/-- No operator is spelled by the dot and the name of a segment. -/
theorem startsWith_operator_dotted
    {pattern : Pattern}
    {c : Char}
    {more rest : List Char}
    (hpattern : pattern ∈ operators)
    (hstart : startsWord c = true)
    (hmore : ∀ d ∈ more, continuesWord d = true)
    (hrest : GoesOn rest) :
    startsWith pattern ('.' :: (c :: more ++ rest)) = false := by
  have hcontinues := Query.Lexeme.continuesWord_of_startsWord hstart
  have hdot : c ≠ '.' := Query.Lexeme.ne_of_continuesWord hcontinues (by decide +kernel)
  have hstar : c ≠ '*' := Query.Lexeme.ne_of_continuesWord hcontinues (by decide +kernel)
  simp only [operators, List.mem_cons, List.not_mem_nil, or_false] at hpattern
  rcases hpattern with rfl | rfl | rfl
  · simp [startsWith, hdot]
  · simp [startsWith, hstar]
  · rw [startsWith, Bool.and_eq_false_iff]
    have hword : ∀ d ∈ c :: more, continuesWord d = true := by
      intro d hd
      rcases List.mem_cons.1 hd with rfl | hd
      · exact hcontinues
      · exact hmore d hd
    exact Or.inr (@startsWith_call_eq_false [['l'], ['e'], ['n'], ['g'], ['t'], ['h']] _ _ _
      (by decide) hword hrest)

/-- Every operator but a bracket starts with a dot and has no quote in it. -/
theorem operators_shape :
    ∀ pattern ∈ operators, (∃ more, pattern = ['.'] :: more) ∧
      ∀ allowed ∈ pattern, '\'' ∉ allowed ∧ '"' ∉ allowed := by
  simp only [operators, List.mem_cons, List.not_mem_nil, or_false]
  rintro pattern (rfl | rfl | rfl)
  all_goals exact ⟨⟨_, rfl⟩, by decide⟩

/-- A stretch without dots hides every operator. -/
theorem hides_of_no_dot
    {pattern : Pattern}
    {front rest : List Char}
    (hpattern : pattern ∈ operators)
    (h : '.' ∉ front) :
    Hides pattern front rest := by
  obtain ⟨⟨more, rfl⟩, -⟩ := operators_shape pattern hpattern
  refine hides_of_not_mem fun c hc hmem => h ?_
  rwa [← List.mem_singleton.1 hmem]

theorem not_mem_of_ordinary
    {text : List Char}
    (h : ∀ c ∈ text, Query.Lexeme.Ordinary c) :
    '.' ∉ text := by
  intro hmem
  exact absurd (h '.' hmem).2 (by decide)

theorem not_mem_of_blank
    {blanks : List Char}
    (h : Blank blanks) :
    '.' ∉ blanks :=
  not_mem_of_ordinary fun c hc => Query.Lexeme.ordinary_of_isAsciiBlank (h c hc)

/-- A quoted key or an index hides every operator. -/
theorem hides_plainContent
    {pattern : Pattern}
    {content rest : List Char}
    {accessor : Accessor}
    (hpattern : pattern ∈ operators)
    (h : PlainContent content accessor) :
    Hides pattern content rest := by
  cases h with
  | quoted hquote hbody =>
      refine hides_quoted rest hquote hbody ?_
      intro allowed hallowed
      have hquotes := (operators_shape pattern hpattern).2 allowed hallowed
      rcases hquote with rfl | rfl
      · exact hquotes.1
      · exact hquotes.2
  | indexed hdigits _ =>
      exact hides_of_no_dot hpattern
        (not_mem_of_ordinary fun _ => Query.Lexeme.ordinary_of_mem_integer hdigits)

/-- A dot hides every operator, unless one of them starts with it. -/
theorem hides_dotted
    {pattern : Pattern}
    {inner rest : List Char}
    (hpattern : pattern ∈ operators)
    (hinner : '.' ∉ inner)
    (hstart : startsWith pattern ('.' :: (inner ++ rest)) = false) :
    Hides pattern ('.' :: inner) rest := by
  have hdot : Hides pattern ['.'] (inner ++ rest) := by
    intro i hi hoccurs
    obtain rfl : i = 0 := by simpa using hi
    rw [List.drop_zero, List.singleton_append, hstart] at hoccurs
    cases hoccurs
  exact hdot.append rfl (hides_of_no_dot hpattern hinner)

/-- A bracket that names one child hides every operator. -/
theorem hides_bracketed
    {pattern : Pattern}
    {before content after rest : List Char}
    {accessor : Accessor}
    (hpattern : pattern ∈ operators)
    (hbefore : Blank before)
    (hafter : Blank after)
    (hcontent : PlainContent content accessor) :
    Hides pattern ('[' :: (before ++ content ++ after ++ [']'])) rest := by
  have hopening : Hides pattern ('[' :: before) (content ++ (after ++ [']']) ++ rest) :=
    hides_of_no_dot hpattern (by simpa using not_mem_of_blank hbefore)
  have hclosing : Hides pattern (after ++ [']']) rest :=
    hides_of_no_dot hpattern (by simpa using not_mem_of_blank hafter)
  have hinner := (hides_plainContent hpattern hcontent).append
    (after_of_clear hcontent.clear_isCut) hclosing
  have hbegun : Quoting.outside.after ('[' :: before) = .outside := by
    rw [Quoting.after_cons]
    exact after_of_clear (clear_of_blank hbefore)
  have houter := hopening.append hbegun hinner
  simpa using houter

/-- A run of segments goes on like a segment. -/
theorem goesOn_spelled
    {text rest : List Char}
    {accessors : List Accessor}
    (h : Spelled text accessors)
    (hrest : GoesOn rest) :
    GoesOn (text ++ rest) := by
  cases h with
  | nil => exact hrest
  | cons hsegment _ =>
      intro c hc
      cases hsegment with
      | dotted => exact Or.inl (by simpa using hc.symm)
      | bracketed => exact Or.inr (by simpa using hc.symm)

/-- Where a pattern occurs in a text, the text goes on with it. -/
theorem mem_occurrences
    {pattern : Pattern}
    {skip position p : Nat}
    {text : List Char}
    (h : p ∈ occurrences pattern skip position text) :
    ∃ i, i < text.length ∧ p = position + i ∧ startsWith pattern (text.drop i) = true := by
  induction text generalizing skip position with
  | nil =>
      cases h
  | cons c text ih =>
      have later {skip : Nat} (h : p ∈ occurrences pattern skip (position + 1) text) :
          ∃ i, i < (c :: text).length ∧ p = position + i ∧
            startsWith pattern ((c :: text).drop i) = true := by
        obtain ⟨i, hi, rfl, hstart⟩ := ih h
        exact ⟨i + 1, Nat.succ_lt_succ hi, by omega, hstart⟩
      cases skip with
      | succ skip => exact later h
      | zero =>
          rw [occurrences] at h
          split at h
          · next hstart =>
              rcases List.mem_cons.1 h with rfl | h
              · exact ⟨0, Nat.succ_pos _, rfl, hstart⟩
              · exact later h
          · exact later h

/-- Occurrences do not stand before the text that is searched. -/
theorem le_of_mem_occurrences
    {pattern : Pattern}
    {skip position p : Nat}
    {text : List Char}
    (h : p ∈ occurrences pattern skip position text) :
    position ≤ p := by
  obtain ⟨i, -, rfl, -⟩ := mem_occurrences h
  exact Nat.le_add_right position i

end Division
end Path
end FieldQuery
