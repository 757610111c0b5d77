import FieldQuery.Proofs.ChildSegments
import FieldQuery.Proofs.FilterWriting
import FieldQuery.Proofs.Runs

/-!
# Paths behind the root and behind the current node

A path of segments that name one child each can stand behind the root sign, as
a query of its own, or in a filter behind the sign of the current node, where it
asks whether it leads anywhere. The two are read by different rules and followed
by different means. They agree on which paths there are, but for one thing:
behind a dot in a filter, a keyword is no name.
-/

namespace FieldQuery
namespace Query

namespace ChildSegment

/-- Some segments behind the root sign. -/
def rooted
    (segments : List ChildSegment) :
    String :=
  String.ofList ('$' :: segments.flatMap text)

/-- Some segments behind the sign of the current node, as the filter behind the root sign. -/
def filtering
    (segments : List ChildSegment) :
    String :=
  String.ofList ('$' :: '[' :: '?' :: '@' :: (segments.flatMap text ++ [']']))

end ChildSegment

namespace ChildStep

variable {rest : List Token}

theorem chain_reads
    {chain : Chain}
    (h : Chain.Reads rest chain)
    (steps : List ChildStep) :
    Chain.Reads (steps.flatMap tokens ++ rest) (chain.prepend (steps.map accessor)) := by
  induction steps with
  | nil => exact h
  | cons step steps ih =>
      cases step with
      | word name => exact .member (Lexeme.memberName?_ofWord name) ih
      | label accessor =>
          have hselector : Selector.bracket ((Choice.access accessor).token :: .closeBracket ::
              (steps.flatMap tokens ++ rest)) = ⟨.ok (.choose (.access accessor)), 2⟩ := by
            cases accessor <;> rfl
          exact .bracket hselector ih

/-- Behind the current node, a step is read as its accessor if it is no dotted keyword. -/
theorem relativePath_step
    {step : ChildStep}
    (h : step.isDottedKeyword = false)
    (more : List Token) :
    Filter.relativePath (step.tokens ++ more) =
      ((Filter.relativePath more).map (step.accessor :: ·)).after step.tokens.length := by
  cases step with
  | word name =>
      have htoken : Token.ofWord name = .name name :=
        Token.ofWord_of_not_mem (of_decide_eq_false h)
      rw [tokens, htoken, List.cons_append, List.cons_append, List.nil_append, Filter.relativePath]
      rfl
  | label accessor =>
      cases accessor with
      | key name =>
          rw [tokens, Choice.token, List.cons_append, List.cons_append, List.cons_append,
            List.nil_append, Filter.relativePath]
          rfl
      | index i =>
          rw [tokens, Choice.token, List.cons_append, List.cons_append, List.cons_append,
            List.nil_append, Filter.relativePath]
          rfl

/-- A dotted keyword ends the path behind the current node with a fault. -/
theorem relativePath_keyword
    {step : ChildStep}
    (h : step.isDottedKeyword = true)
    (more : List Token) :
    Filter.relativePath (step.tokens ++ more) = .failure .noNameAfterCurrent 0 := by
  cases step with
  | word name =>
      simp only [isDottedKeyword, isKeyword, decide_eq_true_eq, List.mem_cons, List.not_mem_nil,
        or_false] at h
      rcases h with rfl | rfl | rfl <;> rfl
  | label accessor => cases h

/-- Behind the current node, steps are read as a path exactly if no dotted keyword is among them. -/
theorem relativePath_steps
    (hrest : Binding.primary.Ends rest)
    (steps : List ChildStep) :
    (steps.any isDottedKeyword = false ∧
        Filter.relativePath (steps.flatMap tokens ++ rest) =
          .success (steps.map accessor) (steps.flatMap tokens).length) ∨
      (steps.any isDottedKeyword = true ∧
        ∃ taken, Filter.relativePath (steps.flatMap tokens ++ rest) =
          .failure .noNameAfterCurrent taken) := by
  induction steps with
  | nil => exact Or.inl ⟨rfl, Filter.relativePath_tokens [] hrest⟩
  | cons step steps ih =>
      rw [List.any_cons, List.flatMap_cons, List.append_assoc]
      cases hstep : step.isDottedKeyword with
      | true => exact Or.inr ⟨rfl, 0, relativePath_keyword hstep _⟩
      | false =>
          rw [relativePath_step hstep, Bool.false_or]
          rcases ih with ⟨hfree, hpath⟩ | ⟨hkeyword, taken, hpath⟩
          · refine Or.inl ⟨hfree, ?_⟩
            rw [hpath, List.length_append]
            rfl
          · refine Or.inr ⟨hkeyword, step.tokens.length + taken, ?_⟩
            rw [hpath]
            rfl

/-- In a bracket behind a question mark, steps without a dotted keyword are a filter. -/
theorem bracket_steps
    (steps : List ChildStep)
    (rest : List Token) :
    (steps.any isDottedKeyword = false ∧
        Selector.bracket (.question :: .current :: (steps.flatMap tokens ++ .closeBracket :: rest)) =
          .success (.filter (.relative (steps.map accessor)))
            ((steps.flatMap tokens).length + 3)) ∨
      (steps.any isDottedKeyword = true ∧
        ∃ fault taken,
          Selector.bracket
              (.question :: .current :: (steps.flatMap tokens ++ .closeBracket :: rest)) =
            .failure fault taken) := by
  have hends : Binding.primary.Ends (.closeBracket :: rest) := by
    rintro _ ⟨⟩
    rfl
  rcases relativePath_steps hends steps with ⟨hfree, hpath⟩ | ⟨hkeyword, taken, hpath⟩
  · refine Or.inl ⟨hfree, ?_⟩
    have hreads : Binding.Reads .primary (.current :: steps.flatMap tokens)
        (.relative (steps.map accessor)) := by
      intro behind hbehind
      rcases relativePath_steps hbehind steps with ⟨-, hread⟩ | ⟨hkeyword, -⟩
      · rw [Binding.rule, List.cons_append, Filter.primary, hread, List.length_cons, Nat.add_comm]
        rfl
      · rw [hfree] at hkeyword
        cases hkeyword
    have hend : Filter.moreDisjuncts (.relative (steps.map accessor)) (.closeBracket :: rest) =
        .success (.relative (steps.map accessor)) 0 :=
      Filter.moreDisjuncts_end _ _ (by simp)
    have hdisjunction : Binding.Reads .disjunction (.current :: steps.flatMap tokens)
        (.relative (steps.map accessor)) := hreads.looser (by decide)
    have hread : Filter.read (.current :: (steps.flatMap tokens ++ .closeBracket :: rest)) =
        .success (.relative (steps.map accessor)) ((steps.flatMap tokens).length + 1) := by
      have hrule := hdisjunction (.closeBracket :: rest) (by rintro _ ⟨⟩; rfl)
      rw [Binding.rule, Binding.more, hend] at hrule
      exact hrule
    have hdrop : (Token.current :: (steps.flatMap tokens ++ .closeBracket :: rest)).drop
        ((steps.flatMap tokens).length + 1) = .closeBracket :: rest := by
      rw [List.drop_succ_cons, List.drop_left]
    have hlength : (steps.flatMap tokens).length + 3 =
        1 + ((steps.flatMap tokens).length + 1 + 1) := by
      omega
    rw [Selector.bracket, Selector.filterTail, hread, hlength, Reading.success]
    dsimp only
    rw [hdrop]
    rfl
  · refine Or.inr ⟨hkeyword, .noNameAfterCurrent, 1 + (1 + taken), ?_⟩
    have hprimary : Filter.primary (.current :: (steps.flatMap tokens ++ .closeBracket :: rest)) =
        .failure .noNameAfterCurrent (1 + taken) := by
      rw [Filter.primary, hpath]
      rfl
    have hread : Filter.read (.current :: (steps.flatMap tokens ++ .closeBracket :: rest)) =
        .failure .noNameAfterCurrent (1 + taken) := by
      rw [Filter.read, Filter.disjunction_eq, Filter.conjunction_eq, Filter.comparison_eq, hprimary]
      rfl
    rw [Selector.bracket, Selector.filterTail, hread]
    rfl

end ChildStep

/-- A text behind the root sign is compiled to the chain that its tokens are read as. -/
theorem compile_eq_ok_iff
    {body : List Char}
    {query : Query} :
    compile (String.ofList ('$' :: body)) = .ok query ↔
      query.source = String.ofList ('$' :: body) ∧
        ∃ tokens, tokens? body = some tokens ∧
          Chain.Reads (tokens ++ [.endOfInput]) query.chain := by
  constructor
  · intro h
    obtain ⟨found, lexemes, hbody, hsource, -, hlex, hreads⟩ := Path.reads_of_compile h
    rw [String.toList_ofList] at hbody
    obtain ⟨-, rfl⟩ := List.cons.inj hbody
    exact ⟨hsource, _, by rw [tokens?_eq 1, hlex], hreads⟩
  · rintro ⟨hsource, tokens, htokens, hreads⟩
    rw [tokens?] at htokens
    split at htokens
    · next lexemes hlex =>
        obtain rfl := Option.some.inj htokens
        obtain ⟨chain, source⟩ := query
        obtain rfl : source = _ := hsource
        exact Path.compile_of_reads hlex hreads
    · cases htokens

/-- A path behind the current node keeps the children in which it leads somewhere. -/
theorem select_relative
    {query : Query}
    {path : List Accessor}
    (h : query.chain = ⟨path.map fun accessor => .choose (.access accessor), none⟩)
    (document : Value) :
    select [.filter (.relative path)] document =
      (document.children.filter fun child => !(query.find child.2).isEmpty).map oneStep := by
  have hholds (node : Value) : Filter.holds (.relative path) node = !(query.find node).isEmpty := by
    have hselect := select_run path [] node
    rw [List.append_nil] at hselect
    rw [Filter.holds, Accessor.follow?_eq_trace?, find, function, selectors, h]
    dsimp only
    rw [hselect]
    cases Accessor.trace? path node <;> simp [below, select]
  have hreach : select [.filter (.relative path)] document =
      Selector.reach (.filter (.relative path)) document := by
    rw [select_cons]
    simp [select, below]
  rw [hreach, Selector.reach]
  simp only [hholds]

namespace ChildSegment

section Compile

variable {segments : List ChildSegment}
variable {tokens : List Token}

theorem goesOn_nil : GoesOn [] := by
  rintro _ ⟨⟩

theorem goesOn_closeBracket : GoesOn [']'] := by
  rintro _ ⟨⟩
  exact Or.inr (Or.inr (Or.inr rfl))

/-- What stands behind the root sign if a filter does. -/
theorem tokens?_filter
    (more : List Char) :
    tokens? ('[' :: '?' :: '@' :: more) =
      (tokens? more).map ([.openBracket, .question, .current] ++ ·) := by
  rw [tokens?_token rfl rfl, List.drop_zero, tokens?_token rfl rfl, List.drop_zero,
    tokens?_token rfl rfl, List.drop_zero, Option.map_map, Option.map_map]
  rfl

theorem tokens?_nil :
    tokens? [] = some [] := by
  rw [tokens?, Lexeme.ofText]
  rfl

/-- The tokens of segments behind the root sign. -/
theorem tokens?_rooted
    (h : IsReadAs (segments.flatMap text) tokens) :
    tokens? (segments.flatMap text) = some tokens := by
  have hread := h [] goesOn_nil
  rwa [List.append_nil, tokens?_nil, Option.map_some, List.append_nil] at hread

/-- The tokens of segments in a filter behind the root sign. -/
theorem tokens?_filtering
    (h : IsReadAs (segments.flatMap text) tokens) :
    tokens? ('[' :: '?' :: '@' :: (segments.flatMap text ++ [']'])) =
      some (.openBracket :: .question :: .current :: (tokens ++ [.closeBracket])) := by
  have hclosing : tokens? [']'] = some [.closeBracket] := by
    rw [tokens?_token rfl rfl, List.drop_zero, tokens?_nil]
    rfl
  rw [tokens?_filter, h [']'] goesOn_closeBracket, hclosing]
  rfl

variable {steps : List ChildStep}

/-- Steps behind the root sign are compiled to the selectors of their children. -/
theorem compile_rooted
    (h : IsReadAs (segments.flatMap text) (steps.flatMap ChildStep.tokens)) :
    compile (rooted segments) =
      .ok ⟨⟨(steps.map ChildStep.accessor).map fun accessor => .choose (.access accessor), none⟩,
        rooted segments⟩ := by
  have hatEnd : Chain.Reads [.endOfInput] ⟨[], none⟩ := .atEnd rfl
  have hreads := ChildStep.chain_reads hatEnd steps
  rw [Chain.prepend, List.append_nil] at hreads
  rw [rooted, compile_eq_ok_iff]
  exact ⟨rfl, _, tokens?_rooted h, hreads⟩

/-- Steps behind the current node are compiled to a path exactly if no dotted keyword is among them. -/
theorem compile_filtering
    (h : IsReadAs (segments.flatMap text) (steps.flatMap ChildStep.tokens)) :
    (steps.any ChildStep.isDottedKeyword = false ∧
        compile (filtering segments) =
          .ok ⟨⟨[.filter (.relative (steps.map ChildStep.accessor))], none⟩,
            filtering segments⟩) ∨
      (steps.any ChildStep.isDottedKeyword = true ∧
        ∀ existence, compile (filtering segments) ≠ .ok existence) := by
  have htokens := tokens?_filtering h
  have hclosed : steps.flatMap ChildStep.tokens ++ [Token.closeBracket] ++ [Token.endOfInput] =
      steps.flatMap ChildStep.tokens ++ [Token.closeBracket, Token.endOfInput] := by
    rw [List.append_assoc]
    rfl
  rcases ChildStep.bracket_steps steps [.endOfInput] with
    ⟨hfree, hbracket⟩ | ⟨hkeyword, fault, taken, hbracket⟩
  · have hbehind : Chain.Reads
        ((Token.question :: Token.current :: (steps.flatMap ChildStep.tokens ++
          [Token.closeBracket, Token.endOfInput])).drop
            ((steps.flatMap ChildStep.tokens).length + 3))
        ⟨[], none⟩ := by
      rw [List.drop_succ_cons, List.drop_succ_cons, ← List.drop_drop, List.drop_left]
      exact .atEnd rfl
    have hreads := Chain.Reads.bracket hbracket hbehind
    rw [← hclosed] at hreads
    have hcompile : compile (filtering segments) =
        .ok ⟨⟨[.filter (.relative (steps.map ChildStep.accessor))], none⟩, filtering segments⟩ := by
      rw [filtering, compile_eq_ok_iff]
      exact ⟨rfl, _, htokens, hreads⟩
    exact Or.inl ⟨hfree, hcompile⟩
  · refine Or.inr ⟨hkeyword, ?_⟩
    rintro ⟨chain, source⟩ hcompile
    rw [filtering, compile_eq_ok_iff, htokens] at hcompile
    obtain ⟨-, _, hsome, hreads⟩ := hcompile
    obtain rfl := Option.some.inj hsome
    rw [List.cons_append, List.cons_append, List.cons_append, hclosed] at hreads
    cases hreads with
    | atEnd hend => cases hend
    | bracket hselector =>
        rw [hbracket] at hselector
        cases hselector

/-- Segments that are not read are compiled neither behind the root nor behind the current node. -/
theorem compile_ne_ok
    (h : IsUnread (segments.flatMap text))
    (query : Query) :
    compile (rooted segments) ≠ .ok query ∧ compile (filtering segments) ≠ .ok query := by
  constructor
  · intro hcompile
    have hread := h [] goesOn_nil
    rw [List.append_nil] at hread
    rw [rooted, compile_eq_ok_iff, hread] at hcompile
    obtain ⟨-, _, hsome, -⟩ := hcompile
    cases hsome
  · intro hcompile
    rw [filtering, compile_eq_ok_iff, tokens?_filter, h [']'] goesOn_closeBracket] at hcompile
    obtain ⟨-, _, hsome, -⟩ := hcompile
    cases hsome

end Compile

/--
Segments that name one child each are a path behind the current node exactly if
they are one behind the root and none of them is a dot and a keyword. Both name
the same children in turn, and the filter keeps the children of a node in which
the query behind the root finds a match.
-/
theorem compile_filtering_iff
    (segments : List ChildSegment) :
    ((∃ existence path,
        compile (filtering segments) = .ok existence ∧
        existence.chain = ⟨[.filter (.relative path)], none⟩) ↔
      (∃ query, compile (rooted segments) = .ok query ∧ query.function = none) ∧
        ∀ segment ∈ segments, segment.isDottedKeyword = false) ∧
    ∀ existence query,
      compile (filtering segments) = .ok existence →
      compile (rooted segments) = .ok query →
      ∃ path,
        existence.chain = ⟨[.filter (.relative path)], none⟩ ∧
        query.chain = ⟨path.map fun accessor => .choose (.access accessor), none⟩ ∧
        ∀ document,
          select existence.selectors document =
            (document.children.filter fun child => !(query.find child.2).isEmpty).map oneStep := by
  rcases isReadAs_flatMap segments with ⟨steps, hkeyword, hread⟩ | hunread
  · have hrooted := compile_rooted hread
    have hnames : (∀ segment ∈ segments, segment.isDottedKeyword = false) ↔
        steps.any ChildStep.isDottedKeyword = false := by
      rw [hkeyword, List.any_eq_false]
      simp only [Bool.not_eq_true]
    rw [hnames]
    rcases compile_filtering hread with ⟨hfree, hexistence⟩ | ⟨hkeyword, hnone⟩
    · refine ⟨iff_of_true ⟨_, _, hexistence, rfl⟩ ⟨⟨_, hrooted, rfl⟩, hfree⟩, ?_⟩
      intro existence query hcompile hquery
      obtain rfl := Except.ok.inj (hexistence.symm.trans hcompile)
      obtain rfl := Except.ok.inj (hrooted.symm.trans hquery)
      exact ⟨_, rfl, rfl, select_relative rfl⟩
    · refine ⟨iff_of_false ?_ ?_, ?_⟩
      · rintro ⟨existence, path, hcompile, -⟩
        exact hnone existence hcompile
      · rintro ⟨-, hfree⟩
        rw [hkeyword] at hfree
        cases hfree
      · intro existence query hcompile
        exact absurd hcompile (hnone existence)
  · refine ⟨iff_of_false ?_ ?_, ?_⟩
    · rintro ⟨existence, path, hcompile, -⟩
      exact (compile_ne_ok hunread existence).2 hcompile
    · rintro ⟨⟨query, hcompile, -⟩, -⟩
      exact (compile_ne_ok hunread query).1 hcompile
    · intro existence query hcompile
      exact absurd hcompile (compile_ne_ok hunread existence).2

/-- No blanks. -/
def noBlanks : Blanks :=
  ⟨[], by rintro _ ⟨⟩⟩

/-- A single space. -/
def oneSpace : Blanks :=
  ⟨[' '], List.all_eq_true.1 rfl⟩

/-- A keyword. -/
def trueWord : Word :=
  ⟨'t', "rue".toList, by decide +kernel, List.all_eq_true.1 (by decide +kernel)⟩

/-- A key with an escape, a word close to a keyword and the least index. -/
def mixedSegments : List ChildSegment :=
  [ .bracketed noBlanks oneSpace (.quotation ⟨'\'', "a\\u0062".toList, Or.inl rfl,
      .plain (by decide) (by decide) (.escape (.plain (by decide) (by decide) (.plain (by decide)
        (by decide) (.plain (by decide) (by decide) (.plain (by decide) (by decide) .nil)))))⟩)
      noBlanks,
    .dotted noBlanks oneSpace ⟨'t', "rue-".toList, trueWord.startsWord_first,
      List.all_eq_true.1 (by decide +kernel)⟩,
    .bracketed oneSpace noBlanks (.numeral .leastInteger rfl) noBlanks ]

/-- Both of their texts are compiled, and the filter keeps what the query finds a match in. -/
theorem compile_filtering_iff_mixed :
    filtering mixedSegments = "$[?@[ 'a\\u0062']. true- [-9223372036854775808]]" ∧
      (∀ segment ∈ mixedSegments, segment.isDottedKeyword = false) ∧
      ∃ existence query,
        compile (filtering mixedSegments) = .ok existence ∧
        compile (rooted mixedSegments) = .ok query ∧
        query.leadingRun = [.key "ab", .key "true-", .index (-9223372036854775808)] ∧
        ∀ document,
          select existence.selectors document =
            (document.children.filter fun child => !(query.find child.2).isEmpty).map oneStep := by
  have hfiltering : filtering mixedSegments =
      "$[?@[ 'a\\u0062']. true- [-9223372036854775808]]" := by
    decide +kernel
  have hrooted : rooted mixedSegments = "$[ 'a\\u0062']. true- [-9223372036854775808]" := by
    decide +kernel
  have hquery : compile "$[ 'a\\u0062']. true- [-9223372036854775808]" =
      .ok ⟨⟨[.named "ab", .named "true-", .choose (.access (.index (-9223372036854775808)))], none⟩,
        "$[ 'a\\u0062']. true- [-9223372036854775808]"⟩ := by
    decide +kernel
  rw [← hrooted] at hquery
  have hfree : ∀ segment ∈ mixedSegments, segment.isDottedKeyword = false := by
    simp only [mixedSegments, List.forall_mem_cons]
    exact ⟨rfl, by decide +kernel, rfl, List.forall_mem_nil _⟩
  obtain ⟨hiff, hsame⟩ := compile_filtering_iff mixedSegments
  obtain ⟨existence, path, hexistence, -⟩ := hiff.2 ⟨⟨_, hquery, rfl⟩, hfree⟩
  obtain ⟨_, -, -, hselect⟩ := hsame existence _ hexistence hquery
  exact ⟨hfiltering, hfree, existence, _, hexistence, hquery, by decide, hselect⟩

/-- A dot and a keyword. -/
def keywordSegment : ChildSegment :=
  .dotted noBlanks noBlanks trueWord

/-- Behind the root it is compiled as a name, and behind the current node it is refused. -/
theorem compile_filtering_keyword :
    rooted [keywordSegment] = "$.true" ∧
      filtering [keywordSegment] = "$[?@.true]" ∧
      compile "$.true" = .ok ⟨⟨[.named "true"], none⟩, "$.true"⟩ ∧
      compile "$[?@.true]" = .error (.malformed "$[?@.true]" .noNameAfterCurrent 0) := by
  have htokens : Token.ofText "$[?@.true]" =
      .ok [.root, .openBracket, .question, .current, .dot, .bool true, .closeBracket,
        .endOfInput] := by
    decide +kernel
  refine ⟨by decide +kernel, by decide +kernel, by decide +kernel, ?_⟩
  rw [compile, htokens]
  cbv

end ChildSegment

end Query
end FieldQuery
