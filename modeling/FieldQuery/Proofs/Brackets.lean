import FieldQuery.Proofs.Lexemes

/-!
# Brackets

A bracket names one child exactly if it holds one quoted key or one index. Of
every other bracket the text shows it: outside quotes, and in front of the
closing sign, there is a question mark, a colon, a star or a comma.
-/

namespace FieldQuery
namespace Query

open FieldQuery.Path (clear clear_append clear_of_forall clear_mono clear_quoted)

/-- A reading that ends by a given token succeeds only in front of that token. -/
theorem Reading.closing_eq_ok
    {α : Type}
    {wanted : Token}
    {result value : α}
    {tokens : List Token}
    {taken : Nat}
    (h : Reading.closing wanted result tokens = ⟨.ok value, taken⟩) :
    ∃ rest, tokens = wanted :: rest ∧ value = result ∧ taken = 1 := by
  unfold Reading.closing at h
  split at h
  · cases h
  · next found rest =>
      split at h
      · next hfound =>
          simp only [Reading.success, Reading.mk.injEq, Except.ok.injEq] at h
          exact ⟨rest, by rw [hfound], h.1.symm, h.2.symm⟩
      · cases h

theorem Reading.closing_outcome
    {α : Type}
    {wanted : Token}
    {result value : α}
    {tokens : List Token}
    (h : (Reading.closing wanted result tokens).outcome = .ok value) :
    wanted ∈ tokens ∧ value = result := by
  obtain ⟨rest, rfl, hvalue, -⟩ :=
    @Reading.closing_eq_ok α wanted result value tokens _ (by rw [← h])
  exact ⟨List.mem_cons_self, hvalue⟩

namespace Selector

/-- Whether a selector chooses several children of a node in a way of its own. -/
def IsPlural
    (selector : Selector) : Prop :=
  (∀ choice, selector ≠ choose choice) ∧ selector ≠ .descent

/-- A union ends by a closing bracket. -/
theorem unionTail_outcome
    {before : List Choice}
    {tokens : List Token}
    {selector : Selector}
    (h : (unionTail before tokens).outcome = .ok selector) :
    Token.closeBracket ∈ tokens ∧ selector.IsPlural := by
  fun_induction unionTail before tokens with
  | case1 before member rest choice _ ih =>
      have hrest := ih h
      exact ⟨List.mem_cons_of_mem _ (List.mem_cons_of_mem _ hrest.1), hrest.2⟩
  | case2 => cases h
  | case3 => cases h
  | case4 before tokens =>
      obtain ⟨hmem, rfl⟩ := Reading.closing_outcome h
      exact ⟨hmem, by simp, by simp⟩

theorem sliceStep_outcome
    {start stop : Option Int}
    {tokens : List Token}
    {selector : Selector}
    (h : (sliceStep start stop tokens).outcome = .ok selector) :
    Token.closeBracket ∈ tokens ∧ selector.IsPlural := by
  unfold sliceStep at h
  dsimp only at h
  split at h
  · cases h
  · obtain ⟨hmem, rfl⟩ := Reading.closing_outcome h
    exact ⟨List.mem_of_mem_drop hmem, by simp, by simp⟩

/-- A slice ends by a closing bracket. -/
theorem sliceTail_outcome
    {start : Option Int}
    {tokens : List Token}
    {selector : Selector}
    (h : (sliceTail start tokens).outcome = .ok selector) :
    Token.closeBracket ∈ tokens ∧ selector.IsPlural := by
  unfold sliceTail at h
  dsimp only at h
  split at h
  · next rest hrest =>
      obtain ⟨hmem, hselector⟩ := sliceStep_outcome h
      refine ⟨List.mem_of_mem_drop (i := (leadingInteger? tokens).toList.length) ?_, hselector⟩
      rw [hrest]
      exact List.mem_cons_of_mem _ hmem
  · obtain ⟨hmem, rfl⟩ := Reading.closing_outcome h
    exact ⟨List.mem_of_mem_drop hmem, by simp, by simp⟩

/-- A filter ends by a closing bracket. -/
theorem filterTail_outcome
    {tokens : List Token}
    {selector : Selector}
    (h : (filterTail tokens).outcome = .ok selector) :
    Token.closeBracket ∈ tokens ∧ selector.IsPlural := by
  unfold filterTail at h
  split at h
  · obtain ⟨hmem, rfl⟩ := Reading.closing_outcome h
    exact ⟨List.mem_of_mem_drop hmem, by simp, by simp⟩
  · cases h

/-- The tokens that only a bracket with several or computed members has. -/
def marks : List Token :=
  [.question, .colon, .star, .comma]

/-- What a list of tokens shows of a bracket that does not name one child. -/
def Marked
    (tokens : List Token) : Prop :=
  ∃ front mark rest,
    tokens = front ++ mark :: rest ∧
    mark ∈ marks ∧
    Token.closeBracket ∉ front ∧
    Token.closeBracket ∈ rest

theorem afterChoice_outcome
    {first : Choice}
    {tokens : List Token}
    {selector : Selector}
    (h : (afterChoice first tokens).outcome = .ok selector) :
    (∃ rest, tokens = .closeBracket :: rest ∧ selector = choose first) ∨
      (selector.IsPlural ∧ ∃ rest, tokens = .comma :: rest ∧ Token.closeBracket ∈ rest) := by
  unfold afterChoice at h
  split at h
  · next rest =>
      obtain ⟨hmem, hselector⟩ := unionTail_outcome h
      refine Or.inr ⟨hselector, rest, rfl, ?_⟩
      rcases List.mem_cons.1 hmem with hcomma | hmem
      · cases hcomma
      · exact hmem
  · obtain ⟨rest, htokens, hselector, -⟩ :=
      @Reading.closing_eq_ok Selector .closeBracket _ _ tokens _ (by rw [← h])
    exact Or.inl ⟨rest, htokens, hselector⟩

theorem afterIndex_outcome
    {index : Int}
    {tokens : List Token}
    {selector : Selector}
    (h : (afterIndex index tokens).outcome = .ok selector) :
    (∃ rest, tokens = .closeBracket :: rest ∧
        selector = choose (.access (.index index))) ∨
      (selector.IsPlural ∧ ∃ mark rest, tokens = mark :: rest ∧
        (mark = .colon ∨ mark = .comma) ∧ Token.closeBracket ∈ rest) := by
  unfold afterIndex at h
  split at h
  · next rest =>
      simp only [Reading.success, Except.ok.injEq] at h
      exact Or.inl ⟨rest, rfl, h.symm⟩
  · next rest =>
      obtain ⟨hmem, hselector⟩ := sliceTail_outcome h
      exact Or.inr ⟨hselector, .colon, rest, rfl, Or.inl rfl, hmem⟩
  · next rest =>
      obtain ⟨hmem, hselector⟩ := unionTail_outcome h
      refine Or.inr ⟨hselector, .comma, rest, rfl, Or.inr rfl, ?_⟩
      rcases List.mem_cons.1 hmem with hcomma | hmem
      · cases hcomma
      · exact hmem
  · cases h

/-- A bracket names one child or every child, or its tokens show what else it is. -/
theorem bracket_outcome
    {tokens : List Token}
    {selector : Selector}
    (h : (bracket tokens).outcome = .ok selector) :
    (∃ name rest, tokens = .text name :: .closeBracket :: rest ∧
        selector = choose (.access (.key name))) ∨
      (∃ index rest, tokens = .integer index :: .closeBracket :: rest ∧
        selector = choose (.access (.index index))) ∨
      (∃ rest, tokens = .star :: .closeBracket :: rest ∧ selector = choose .every) ∨
      (selector.IsPlural ∧ Marked tokens) := by
  have plural {token : Token} {rest : List Token} (hplural : selector.IsPlural)
      (hmark : token ∈ marks) (hmem : Token.closeBracket ∈ rest) :
      selector.IsPlural ∧ Marked (token :: rest) :=
    ⟨hplural, [], token, rest, rfl, hmark, by simp, hmem⟩
  unfold bracket at h
  split at h
  · next rest =>
      obtain ⟨hmem, hselector⟩ := filterTail_outcome h
      exact Or.inr (Or.inr (Or.inr (plural hselector (by decide) hmem)))
  · next index rest =>
      rcases afterIndex_outcome h with
        ⟨more, rfl, rfl⟩ | ⟨hselector, mark, more, rfl, hmark, hmem⟩
      · exact Or.inr (Or.inl ⟨index, more, rfl, rfl⟩)
      · refine Or.inr (Or.inr (Or.inr ⟨hselector, [.integer index], mark, more, rfl, ?_,
          by simp, hmem⟩))
        rcases hmark with rfl | rfl <;> decide
  · next rest =>
      obtain ⟨hmem, hselector⟩ := sliceTail_outcome h
      exact Or.inr (Or.inr (Or.inr (plural hselector (by decide) hmem)))
  · next rest =>
      refine Or.inr (Or.inr ?_)
      rcases afterChoice_outcome h with ⟨more, rfl, rfl⟩ | ⟨hselector, more, rfl, hmem⟩
      · exact Or.inl ⟨more, rfl, rfl⟩
      · exact Or.inr (plural hselector (by decide) (List.mem_cons_of_mem _ hmem))
  · next name rest =>
      rcases afterChoice_outcome h with ⟨more, rfl, rfl⟩ | ⟨hselector, more, rfl, hmem⟩
      · exact Or.inl ⟨name, more, rfl, rfl⟩
      · exact Or.inr (Or.inr (Or.inr ⟨hselector, [.text name], .comma, more, rfl, by decide,
          by simp, hmem⟩))
  all_goals cases h

/-- A star alone in a bracket is a mark, too. -/
theorem marked_star
    (rest : List Token) :
    Marked (.star :: .closeBracket :: rest) :=
  ⟨[], .star, .closeBracket :: rest, rfl, by decide, by simp, List.mem_cons_self⟩

end Selector

namespace Lexeme

/-- The characters where a plain path is cut. -/
def isCut
    (c : Char) :
    Bool :=
  c = '.' || c = '[' || c = ']'

/-- Whether a character is neither a quote nor one where a path is cut. -/
def Ordinary
    (c : Char) : Prop :=
  Path.Quoting.outside.covers c = false ∧ isCut c = false

/-- A character of a class without quotes and cuts is ordinary. -/
theorem ordinary_of_class
    {isMember : Char → Bool}
    (hclass : ['\'', '"', '.', '[', ']'].any isMember = false)
    {c : Char}
    (h : isMember c = true) :
    Ordinary c := by
  have hne : ∀ d ∈ ['\'', '"', '.', '[', ']'], c ≠ d := by
    rintro d hd rfl
    exact absurd h (List.any_eq_false.1 hclass c hd)
  simp only [List.mem_cons, List.not_mem_nil, or_false, forall_eq_or_imp, forall_eq] at hne
  simp [Ordinary, Path.Quoting.covers, isCut, hne]

theorem ordinary_of_continuesWord
    {c : Char}
    (h : continuesWord c = true) :
    Ordinary c :=
  ordinary_of_class (by decide) h

theorem ordinary_of_isDigit
    {c : Char}
    (h : c.isDigit = true) :
    Ordinary c :=
  ordinary_of_class (by decide) h

theorem ordinary_of_isAsciiBlank
    {c : Char}
    (h : Text.isAsciiBlank c = true) :
    Ordinary c :=
  ordinary_of_class (by decide) h

theorem clear_of_ordinary
    {text : List Char}
    (h : ∀ c ∈ text, Ordinary c) :
    clear isCut .outside text = true :=
  clear_of_forall h

/-- The characters of a word are ordinary. -/
theorem ordinary_of_mem_word
    {c : Char}
    {more : List Char}
    (hstart : startsWord c = true)
    (hmore : ∀ d ∈ more, continuesWord d = true)
    {d : Char}
    (h : d ∈ c :: more) :
    Ordinary d := by
  apply ordinary_of_continuesWord
  rcases List.mem_cons.1 h with rfl | h
  · exact continuesWord_of_startsWord hstart
  · exact hmore d h

theorem ordinary_of_mem_integer
    {negative : Bool}
    {digits : List Char}
    (hdigits : ∀ d ∈ digits, d.isDigit = true)
    {c : Char}
    (h : c ∈ signText negative ++ digits) :
    Ordinary c := by
  rcases List.mem_append.1 h with h | h
  · cases negative with
    | true =>
        rw [signText, if_pos rfl, List.mem_singleton] at h
        rw [h]
        constructor <;> decide
    | false => simp [signText] at h
  · exact ordinary_of_isDigit (hdigits c h)

/-- The characters that a token is read from. -/
theorem take_of_cons_eq_append
    {c : Char}
    {rest front more : List Char}
    {taken : Nat}
    (h : c :: rest = front ++ more)
    (hlength : front.length = taken + 1) :
    c :: rest.take taken = front := by
  have htake := congrArg (List.take (taken + 1)) h
  rwa [List.take_succ_cons, ← hlength, List.take_left] at htake

theorem not_closing_of_ordinary
    {c : Char}
    (h : Ordinary c) :
    Path.Quoting.outside.covers c = false ∧ (c == ']') = false := by
  obtain ⟨hcovers, hcut⟩ := h
  constructor
  · exact hcovers
  · simp only [isCut, Bool.or_eq_false_iff, decide_eq_false_iff_not] at hcut
    simp [hcut.2]

/-- The characters of any other token are no closing bracket outside quotes. -/
theorem clear_readToken
    {c : Char}
    {rest : List Char}
    {token : Token}
    {taken : Nat}
    (h : readToken c rest = .ok (token, taken))
    (hne : token ≠ .closeBracket) :
    clear (· == ']') .outside (c :: rest.take taken) = true := by
  cases reads_of_readToken h with
  | @text body after value hquote hrest hbody _ =>
      have hsplit : c :: rest = (c :: (body ++ [c])) ++ after := by simp [hrest]
      rw [take_of_cons_eq_append hsplit (by simp)]
      exact clear_quoted _ hquote hbody
  | integer hsplit hlength hdigits _ =>
      rw [take_of_cons_eq_append hsplit hlength]
      exact clear_of_forall fun d hd =>
        not_closing_of_ordinary (ordinary_of_mem_integer hdigits hd)
  | float hcharacters =>
      refine clear_of_forall ?_
      intro d hd
      rcases hcharacters d hd with hdigit | rfl | rfl
      · exact not_closing_of_ordinary (ordinary_of_isDigit hdigit)
      · constructor <;> decide
      · constructor <;> decide
  | dot hc _ =>
      rw [hc]
      rfl
  | descent hc hrest =>
      rw [hc, hrest]
      rfl
  | operator _ hcharacters =>
      refine clear_of_forall fun d hd => not_closing_of_ordinary ?_
      have hmem := hcharacters d hd
      simp only [operatorCharacters, List.mem_cons, List.not_mem_nil, or_false] at hmem
      rcases hmem with rfl | rfl | rfl | rfl | rfl | rfl
      all_goals constructor <;> decide
  | punctuation hc =>
      have hsign := eq_sign_of_ofPunctuation? hc
      have hmem := mem_punctuation hc
      simp only [punctuation, List.mem_cons, List.not_mem_nil, or_false] at hmem
      rw [hsign]
      rcases hmem with rfl | rfl | rfl | rfl | rfl | rfl | rfl | rfl | rfl | rfl
      all_goals first | exact absurd rfl hne | rfl
  | word hstart _ =>
      have htake : rest.take (rest.takeWhile continuesWord).length =
          rest.takeWhile continuesWord :=
        (List.prefix_iff_eq_take.1 (List.takeWhile_prefix _)).symm
      refine clear_of_forall fun d hd => not_closing_of_ordinary ?_
      rw [htake] at hd
      exact ordinary_of_mem_word hstart (List.all_eq_true.1 List.all_takeWhile) hd

/--
Where a token of punctuation shows in a text: if no closing bracket is read
before it, none stands before its character outside quotes.
-/
theorem split_at_token
    {sign : Char}
    {mark : Token}
    (hmark : Token.ofPunctuation? sign = some mark)
    {position : Nat}
    {text : List Char}
    {lexemes : List Lexeme}
    {front rest : List Token}
    (h : ofText position text = .ok lexemes)
    (htokens : lexemes.map token = front ++ mark :: rest)
    (hfront : Token.closeBracket ∉ front) :
    ∃ before after next more,
      text = before ++ sign :: after ∧
      clear (· == ']') .outside before = true ∧
      ofText next after = .ok more ∧
      more.map token = rest := by
  have hblank : ∀ blanks : List Char, (∀ c ∈ blanks, Text.isAsciiBlank c = true) →
      clear (· == ']') .outside blanks = true := fun blanks hblanks =>
    clear_of_forall fun c hc => not_closing_of_ordinary (ordinary_of_isAsciiBlank (hblanks c hc))
  induction front generalizing position text lexemes with
  | nil =>
      cases lexemes with
      | nil => cases htokens
      | cons lexeme more =>
          obtain ⟨blanks, c, after, taken, hblanks, rfl, -, htoken, -, -, hmore⟩ := ofText_eq_cons h
          rw [List.map_cons, List.nil_append, List.cons.injEq] at htokens
          rw [htokens.1] at htoken
          obtain ⟨rfl, rfl⟩ := readToken_punctuation hmark htoken
          exact ⟨blanks, after, _, more, rfl, hblank blanks hblanks, hmore, htokens.2⟩
  | cons first front ih =>
      cases lexemes with
      | nil => cases htokens
      | cons lexeme more =>
          obtain ⟨blanks, c, after, taken, hblanks, rfl, -, htoken, -, -, hmore⟩ := ofText_eq_cons h
          rw [List.map_cons, List.cons_append, List.cons.injEq] at htokens
          have hne : lexeme.token ≠ .closeBracket := by
            rw [htokens.1]
            exact fun heq => hfront (by rw [heq]; exact List.mem_cons_self)
          obtain ⟨before, behind, next, others, hsplit, hbefore, hnext, hothers⟩ :=
            ih hmore htokens.2 fun hmem => hfront (List.mem_cons_of_mem _ hmem)
          refine ⟨blanks ++ (c :: after.take taken ++ before), behind, next, others, ?_, ?_,
            hnext, hothers⟩
          · rw [List.append_assoc, List.append_assoc, ← hsplit, List.cons_append,
              List.take_append_drop]
          · exact clear_append (hblank blanks hblanks)
              (clear_append (clear_readToken htoken hne) hbefore)

/-- The characters of the tokens that only a bracket with several members has. -/
def markSigns : List Char :=
  ['?', ':', '*', ',']

/--
What the text of a bracket shows if the bracket does not name one child: a
mark outside quotes in its content.
-/
def Unplain
    (content : List Char) : Prop :=
  ∃ before mark after,
    content = before ++ mark :: after ∧
    mark ∈ markSigns ∧
    Path.Quoting.outside.after before = .outside

theorem exists_sign_of_mem_marks
    {mark : Token}
    (h : mark ∈ Selector.marks) :
    ∃ sign ∈ markSigns, Token.ofPunctuation? sign = some mark := by
  simp only [Selector.marks, List.mem_cons, List.not_mem_nil, or_false] at h
  rcases h with rfl | rfl | rfl | rfl
  · exact ⟨'?', by decide, rfl⟩
  · exact ⟨':', by decide, rfl⟩
  · exact ⟨'*', by decide, rfl⟩
  · exact ⟨',', by decide, rfl⟩

/-- The content of a bracket whose tokens are marked is not plain. -/
theorem exists_unplain_content
    {position : Nat}
    {text : List Char}
    {lexemes : List Lexeme}
    (h : ofText position text = .ok lexemes)
    (hmarked : Selector.Marked (lexemes.map token ++ [.endOfInput])) :
    ∃ content rest,
      text = content ++ ']' :: rest ∧
      clear (· == ']') .outside content = true ∧
      Unplain content := by
  obtain ⟨front, mark, rest, htokens, hmark, hfront, hclosed⟩ := hmarked
  -- the end of the input is no closing bracket, so the mark stands before it
  obtain ⟨tail, htail, htokens⟩ :
      ∃ tail, Token.closeBracket ∈ tail ∧ lexemes.map token = front ++ mark :: tail := by
    rcases List.eq_nil_or_concat rest with rfl | ⟨tail, last, rfl⟩
    · simp at hclosed
    · rw [List.concat_eq_append, ← List.cons_append, ← List.append_assoc] at htokens
      obtain ⟨hlexemes, hlast⟩ := List.append_inj' htokens rfl
      refine ⟨tail, ?_, hlexemes⟩
      rw [List.concat_eq_append, ← hlast, List.mem_append] at hclosed
      rcases hclosed with hclosed | hclosed
      · exact hclosed
      · simp at hclosed
  obtain ⟨sign, hsign, hread⟩ := exists_sign_of_mem_marks hmark
  obtain ⟨before, after, next, more, rfl, hbefore, hnext, hmore⟩ :=
    split_at_token hread h htokens hfront
  obtain ⟨inner, others, hsplit, hinner⟩ := List.eq_append_cons_of_mem htail
  obtain ⟨middle, behind, _, _, rfl, hmiddle, -, -⟩ :=
    split_at_token (rfl : Token.ofPunctuation? ']' = some .closeBracket) hnext (hmore.trans hsplit) hinner
  refine ⟨before ++ sign :: middle, behind, by simp, ?_, before, sign, middle, rfl, hsign,
    Path.after_of_clear hbefore⟩
  have hclear : clear (· == ']') .outside [sign] = true := by
    simp only [markSigns, List.mem_cons, List.not_mem_nil, or_false] at hsign
    rcases hsign with rfl | rfl | rfl | rfl <;> decide
  exact clear_append hbefore (clear_append hclear hmiddle)

end Lexeme
end Query
end FieldQuery
