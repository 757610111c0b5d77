import FieldQuery.Path.Step
import FieldQuery.Proofs.Quotes

/-!
# Reading lexemes

What a token says about the characters that it was read from. A token of
punctuation is one given character, a word is the longest run of word
characters, and a text is a quoted body between two quotes of one kind.
Reading does not depend on the position that it starts from.
-/

namespace FieldQuery
namespace Query
namespace Lexeme

open FieldQuery.Path (QuotedBody plainlyEscaped)

/-- The kinds of tokens that can start with a character. -/
theorem readToken_eq_ok
    {c : Char}
    {rest : List Char}
    {token : Token}
    {taken : Nat}
    (h : readToken c rest = .ok (token, taken)) :
    (∃ characters, (c = '\'' ∨ c = '"') ∧
        textLiteral c 0 rest = .ok (characters, taken) ∧
        token = .text (String.ofList characters)) ∨
      ((c.isDigit = true ∨ c = '-') ∧ numberLiteral c rest = .ok (token, taken)) ∨
      operator? c rest = some (.ok (token, taken)) ∨
      (Token.ofPunctuation? c = some token ∧ taken = 0) ∨
      word? c rest = some (token, taken) := by
  unfold readToken at h
  split at h
  · next hquote =>
      split at h
      · next characters total hliteral =>
          simp only [Except.ok.injEq, Prod.mk.injEq] at h
          refine Or.inl ⟨characters, by simpa using hquote, ?_, h.1.symm⟩
          rw [hliteral, h.2]
      · cases h
  · split at h
    · next hnumber =>
        exact Or.inr (Or.inl ⟨by simpa using hnumber, h⟩)
    · split at h
      · next result hoperator =>
          subst h
          exact Or.inr (Or.inr (Or.inl hoperator))
      · next found _ hpunctuation =>
          simp only [Except.ok.injEq, Prod.mk.injEq] at h
          refine Or.inr (Or.inr (Or.inr (Or.inl ⟨?_, h.2.symm⟩)))
          rw [hpunctuation, h.1]
      · next result _ _ hword =>
          simp only [Except.ok.injEq] at h
          subst h
          exact Or.inr (Or.inr (Or.inr (Or.inr hword)))
      · cases h

theorem drop_length_takeWhile
    (p : Char → Bool)
    (text : List Char) :
    text.drop (text.takeWhile p).length = text.dropWhile p := by
  induction text with
  | nil =>
      rfl
  | cons c rest ih =>
      cases hc : p c with
      | true => simp [hc, ih]
      | false => simp [hc]

/-- The digits after a point stand behind the point. -/
theorem fractionDigits_append_drop
    {text : List Char}
    (h : fractionDigits text ≠ []) :
    '.' :: (fractionDigits text ++ text.drop ((fractionDigits text).length + 1)) = text := by
  unfold fractionDigits at h ⊢
  split
  · rw [List.drop_succ_cons, drop_length_takeWhile, List.takeWhile_append_dropWhile]
  · next hpoint =>
      split at h
      · next rest => exact absurd rfl (hpoint rest)
      · exact absurd rfl h

theorem isDigit_of_mem_fractionDigits
    {text : List Char}
    {c : Char}
    (h : c ∈ fractionDigits text) :
    c.isDigit = true := by
  unfold fractionDigits at h
  split at h
  · exact List.all_eq_true.1 List.all_takeWhile c h
  · cases h

/-- The characters of a sign. -/
def signText
    (negative : Bool) :
    List Char :=
  if negative then
    ['-']
  else
    []

/-- What is left behind a stretch and the element that closes it. -/
theorem drop_behind
    {α : Type}
    (front : List α)
    (closing : α)
    (rest : List α) :
    (front ++ closing :: rest).drop (front.length + 1) = rest := by
  rw [← List.drop_drop, List.drop_left]
  rfl

/-- No quote is a blank. -/
theorem isAsciiBlank_of_quote
    {quote : Char}
    (hquote : quote = '\'' ∨ quote = '"') :
    Text.isAsciiBlank quote = false := by
  rcases hquote with rfl | rfl <;> rfl

/-- What is left of a text behind the characters that a token takes. -/
theorem drop_eq_of_cons_eq_append
    {c : Char}
    {rest front more : List Char}
    {taken : Nat}
    (h : c :: rest = front ++ more)
    (hlength : front.length = taken + 1) :
    rest.drop taken = more := by
  have hdrop : (c :: rest).drop (taken + 1) = more := by
    rw [h, ← hlength, List.drop_left]
  simpa using hdrop

/--
The parts of a number: a sign, digits, and in a float a point with further
digits after it.
-/
theorem numberLiteral_eq_ok
    {c : Char}
    {rest : List Char}
    {token : Token}
    {taken : Nat}
    (h : numberLiteral c rest = .ok (token, taken)) :
    ∃ negative whole point,
      c :: rest = (signText negative ++ whole ++ point) ++ rest.drop taken ∧
      (signText negative ++ whole ++ point).length = taken + 1 ∧
      whole ≠ [] ∧
      (∀ d ∈ whole, d.isDigit = true) ∧
      ((point = [] ∧ ∃ value, Integer64.ofSignedDigits? negative whole = some value ∧
          token = .integer value) ∨
        ((∀ d ∈ point, d.isDigit = true ∨ d = '.') ∧ ∃ value, token = .float value)) := by
  obtain ⟨body, hbody⟩ : ∃ body, body = if c = '-' then rest else c :: rest := ⟨_, rfl⟩
  obtain ⟨whole, hwhole⟩ : ∃ whole, whole = body.takeWhile Char.isDigit := ⟨_, rfl⟩
  obtain ⟨after, hafter⟩ : ∃ after, after = body.dropWhile Char.isDigit := ⟨_, rfl⟩
  have hdigits : ∀ d ∈ whole, d.isDigit = true := by
    rw [hwhole]
    exact List.all_eq_true.1 List.all_takeWhile
  have hsplit : c :: rest = signText (decide (c = '-')) ++ whole ++ after := by
    rw [List.append_assoc, hwhole, hafter, List.takeWhile_append_dropWhile, hbody, signText]
    split <;> simp_all
  have hsign : (if c = '-' then 1 else 0) = (signText (decide (c = '-'))).length := by
    rw [signText]
    split <;> simp_all
  simp only [numberLiteral, ← hbody, ← hwhole, ← hafter] at h
  split at h
  · cases h
  · next hempty =>
      have hne : whole ≠ [] := by simpa using hempty
      have hpos : 0 < whole.length := List.length_pos_iff.2 hne
      split at h
      · cases h
      · split at h
        · cases h
        · split at h
          · split at h
            · next value hvalue =>
                simp only [Except.ok.injEq, Prod.mk.injEq] at h
                have hlength :
                    (signText (decide (c = '-')) ++ whole ++ []).length = taken + 1 := by
                  simp only [List.append_nil, List.length_append]
                  omega
                refine ⟨decide (c = '-'), whole, [], ?_, hlength, hne, hdigits,
                  Or.inl ⟨rfl, value, hvalue, h.1.symm⟩⟩
                rw [List.append_nil] at hlength ⊢
                rw [drop_eq_of_cons_eq_append hsplit hlength]
                exact hsplit
            · cases h
          · next hfraction =>
              simp only [Except.ok.injEq, Prod.mk.injEq] at h
              have hpoint := @fractionDigits_append_drop after (by simpa using hfraction)
              have hlength :
                  (signText (decide (c = '-')) ++ whole ++
                    '.' :: fractionDigits after).length = taken + 1 := by
                simp only [List.length_append, List.length_cons]
                omega
              rw [← hpoint, ← List.cons_append, ← List.append_assoc] at hsplit
              refine ⟨decide (c = '-'), whole, '.' :: fractionDigits after, ?_, hlength, hne,
                hdigits, Or.inr ⟨?_, _, h.1.symm⟩⟩
              · rw [drop_eq_of_cons_eq_append hsplit hlength]
                exact hsplit
              · intro d hd
                rcases List.mem_cons.1 hd with rfl | hd
                · exact Or.inr rfl
                · exact Or.inl (isDigit_of_mem_fractionDigits hd)

/-- A word is a name or a keyword, and it is the member name that it spells. -/
theorem memberName?_ofWord
    (word : String) :
    (Token.ofWord word).memberName? = some word := by
  unfold Token.ofWord
  split
  · next h => rw [h]; rfl
  · split
    · next h => rw [h]; rfl
    · split
      · next h => rw [h]; rfl
      · rfl

theorem word?_eq_some
    {c : Char}
    {rest : List Char}
    {token : Token}
    {taken : Nat}
    (h : word? c rest = some (token, taken)) :
    startsWord c = true ∧
      token = .ofWord (String.ofList (c :: rest.takeWhile continuesWord)) ∧
      taken = (rest.takeWhile continuesWord).length := by
  unfold word? at h
  split at h
  · next hstart =>
      simp only [Option.some.injEq, Prod.mk.injEq] at h
      exact ⟨hstart, h.1.symm, h.2.symm⟩
  · cases h

/-- The characters of operators other than dots. -/
def operatorCharacters : List Char :=
  ['=', '!', '<', '>', '&', '|']

/-- An operator is a run of dots, a comparison or a connective. -/
theorem operator?_eq_some
    {c : Char}
    {rest : List Char}
    {token : Token}
    {taken : Nat}
    (h : operator? c rest = some (.ok (token, taken))) :
    (c = '.' ∧ dots rest = .ok (token, taken)) ∨
      (((∃ operator, token = .comparison operator) ∨ token = .and ∨ token = .or) ∧
        c ∈ operatorCharacters ∧
        (taken = 0 ∨ taken = 1 ∧ ∃ d ∈ operatorCharacters, rest.head? = some d)) := by
  unfold operator? at h
  split at h
  case h_7 => exact Or.inl ⟨rfl, by simpa using h⟩
  case h_8 => simp at h
  all_goals
    refine Or.inr ?_
    simp only [Option.some.injEq, Except.ok.injEq] at h
    split at h
  all_goals
    simp_all [operatorCharacters]
  all_goals
    simp [← h]

theorem dots_eq_ok
    {rest : List Char}
    {token : Token}
    {taken : Nat}
    (h : dots rest = .ok (token, taken)) :
    (token = .dot ∧ taken = 0 ∧ rest.head? ≠ some '.') ∨
      (token = .descent ∧ taken = 1 ∧ ∃ more, rest = '.' :: more) := by
  unfold dots at h
  split at h
  · cases h
  · next more _ =>
      simp only [Except.ok.injEq, Prod.mk.injEq] at h
      exact Or.inr ⟨h.1.symm, h.2.symm, more, rfl⟩
  · next hone =>
      simp only [Except.ok.injEq, Prod.mk.injEq] at h
      refine Or.inl ⟨h.1.symm, h.2.symm, ?_⟩
      intro hhead
      cases rest with
      | nil => simp at hhead
      | cons d more =>
          simp only [List.head?_cons, Option.some.injEq] at hhead
          exact hone more (by rw [hhead])

/-- A hexadecimal digit is neither a quote nor a backslash. -/
theorem hexDigit_ne
    {c : Char}
    {digit : Nat}
    (h : Text.hexDigit? c = some digit) :
    c ≠ '\'' ∧ c ≠ '"' ∧ c ≠ '\\' := by
  refine ⟨?_, ?_, ?_⟩
  all_goals
    rintro rfl
    simp [Text.hexDigit?] at h

/-- Hexadecimal digits make a quoted body. -/
theorem quotedBody_of_hexNumber
    {quote : Char}
    (hquote : quote = '\'' ∨ quote = '"')
    {digits : List Char}
    {before n : Nat}
    (h : Text.hexNumber? before digits = some n) :
    QuotedBody quote digits := by
  induction digits generalizing before with
  | nil =>
      exact .nil
  | cons c rest ih =>
      simp only [Text.hexNumber?, Option.bind_eq_some_iff] at h
      obtain ⟨digit, hdigit, hrest⟩ := h
      obtain ⟨hsingle, hdouble, hescape⟩ := hexDigit_ne hdigit
      refine .plain ?_ hescape (ih hrest)
      rcases hquote with rfl | rfl
      · exact hsingle
      · exact hdouble

/-- The characters of a code unit make a quoted body. -/
theorem quotedBody_of_hexQuad
    {quote : Char}
    (hquote : quote = '\'' ∨ quote = '"')
    {text : List Char}
    {unit : Nat}
    (h : hexQuad? text = some unit) :
    QuotedBody quote (text.take 4) ∧ 4 ≤ text.length := by
  unfold hexQuad? at h
  split at h
  · refine ⟨.plain ?_ (by decide) (quotedBody_of_hexNumber hquote h), by simp⟩
    rcases hquote with rfl | rfl <;> decide
  · exact ⟨quotedBody_of_hexNumber hquote h, by simp⟩
  · cases h

/-- The characters that a code escape takes make a quoted body. -/
theorem quotedBody_of_codeEscape
    {quote : Char}
    (hquote : quote = '\'' ∨ quote = '"')
    {text : List Char}
    {value : Char}
    {taken : Nat}
    (h : codeEscape text = .ok (value, taken)) :
    QuotedBody quote (text.take taken) ∧ taken ≤ text.length := by
  unfold codeEscape at h
  split at h
  · cases h
  · next unit hunit =>
      obtain ⟨hfirst, hlength⟩ := quotedBody_of_hexQuad hquote hunit
      split at h
      · split at h
        · next second hsecond =>
            split at h
            · next low hlow =>
                split at h
                · simp only [Except.ok.injEq, Prod.mk.injEq] at h
                  obtain ⟨hpair, hrest⟩ := quotedBody_of_hexQuad hquote hlow
                  have hdrop : text.length = 4 + (second.length + 2) := by
                    have := congrArg List.length hsecond
                    simp only [List.length_drop, List.length_cons] at this
                    omega
                  have htake : text.take 10 = text.take 4 ++ '\\' :: 'u' :: second.take 4 := by
                    rw [← List.take_append_drop 4 (text.take 10), List.take_take, List.drop_take,
                      hsecond]
                    rfl
                  rw [← h.2, htake]
                  exact ⟨hfirst.append (.escape hpair), by omega⟩
                · cases h
            · cases h
        · cases h
      · split at h
        · cases h
        · simp only [Except.ok.injEq, Prod.mk.injEq] at h
          rw [← h.2]
          exact ⟨hfirst, hlength⟩

/-- The characters that an escape takes behind its first make a quoted body. -/
theorem quotedBody_of_escape
    {quote : Char}
    (hquote : quote = '\'' ∨ quote = '"')
    {c : Char}
    {text : List Char}
    {value : Char}
    {taken : Nat}
    (h : escape c text = .ok (value, taken)) :
    QuotedBody quote (text.take taken) ∧ taken ≤ text.length := by
  unfold escape at h
  split at h
  case h_10 => exact quotedBody_of_codeEscape hquote h
  case h_11 => cases h
  all_goals
    simp only [Except.ok.injEq, Prod.mk.injEq] at h
    rw [← h.2]
    exact ⟨.nil, Nat.zero_le _⟩

/-- A plain escape stands for the character behind its backslash. -/
theorem escape_of_plain
    {c : Char}
    {text : List Char}
    {value : Char}
    {taken : Nat}
    (hplain : c = '\\' ∨ c = '\'' ∨ c = '"' ∨ c = '/')
    (h : escape c text = .ok (value, taken)) :
    value = c ∧ taken = 0 := by
  rcases hplain with rfl | rfl | rfl | rfl
  all_goals
    simp only [escape, Except.ok.injEq, Prod.mk.injEq] at h
    exact ⟨h.1.symm, h.2.symm⟩

theorem plainlyEscaped_cons
    {c : Char}
    (rest : List Char)
    (h : c ≠ '\\') :
    plainlyEscaped (c :: rest) = plainlyEscaped rest := by
  cases rest <;> simp [plainlyEscaped, h]

/-- A quoted body and what follows it are plainly escaped one by one. -/
theorem plainlyEscaped_append
    {quote : Char}
    {front : List Char}
    (h : QuotedBody quote front)
    (rest : List Char) :
    plainlyEscaped (front ++ rest) = (plainlyEscaped front && plainlyEscaped rest) := by
  induction h with
  | nil => rfl
  | plain _ hplain _ ih =>
      rw [List.cons_append, plainlyEscaped_cons _ hplain, plainlyEscaped_cons _ hplain, ih]
  | escape _ ih =>
      rw [List.cons_append, List.cons_append, plainlyEscaped, plainlyEscaped, ih, Bool.and_assoc]

theorem unescaped_cons
    {c : Char}
    (rest : List Char)
    (h : c ≠ '\\') :
    Path.Step.unescaped (c :: rest) = c :: Path.Step.unescaped rest := by
  cases rest <;> simp [Path.Step.unescaped, h]

/-- Only a plain escape stands for the character behind its backslash and takes no more. -/
theorem plain_of_escape
    {c : Char}
    {text : List Char}
    (h : escape c text = .ok (c, 0)) :
    c = '\\' ∨ c = '\'' ∨ c = '"' ∨ c = '/' := by
  unfold escape at h
  split at h
  case h_10 =>
    unfold codeEscape at h
    grind
  all_goals simp_all

theorem unescaped_append
    {quote : Char}
    {front : List Char}
    (h : QuotedBody quote front)
    (rest : List Char) :
    Path.Step.unescaped (front ++ rest) =
      Path.Step.unescaped front ++ Path.Step.unescaped rest := by
  induction h with
  | nil => rfl
  | plain _ hplain _ ih =>
      rw [List.cons_append, unescaped_cons _ hplain, unescaped_cons _ hplain, ih]
      rfl
  | escape _ ih =>
      rw [List.cons_append, List.cons_append, Path.Step.unescaped, Path.Step.unescaped, ih]
      rfl

theorem eq_nil_of_unescaped_eq_nil
    {quote : Char}
    {body : List Char}
    (hbody : QuotedBody quote body)
    (h : Path.Step.unescaped body = []) :
    body = [] := by
  cases hbody with
  | nil => rfl
  | plain _ hplain _ =>
      rw [unescaped_cons _ hplain] at h
      cases h
  | escape _ => cases h

/--
A text literal is a quoted body up to the closing quote. It stands for the
body without its backslashes exactly if its escapes are plain; other escapes
stand for other characters, and a code escape for fewer.
-/
theorem textLiteral_eq_ok
    {quote : Char}
    (hquote : quote = '\'' ∨ quote = '"')
    {read total : Nat}
    {rest characters : List Char}
    (h : textLiteral quote read rest = .ok (characters, total)) :
    ∃ body after,
      rest = body ++ quote :: after ∧
      total = read + body.length + 1 ∧
      QuotedBody quote body ∧
      characters.length ≤ (Path.Step.unescaped body).length ∧
      (Path.Step.unescaped body = characters ↔ plainlyEscaped body = true) := by
  have hescape := Path.ne_backslash_of_quote hquote
  fun_induction textLiteral quote read rest generalizing characters total with
  | case1 => cases h
  | case2 read after =>
      simp only [Except.ok.injEq, Prod.mk.injEq] at h
      rw [← h.1]
      refine ⟨[], after, rfl, h.2.symm, .nil, Nat.le_refl _, ?_⟩
      simp [Path.Step.unescaped, plainlyEscaped]
  | case3 => cases h
  | case4 => cases h
  | case5 read e after value taken hvalue values length hrest hne ih =>
      simp only [Except.ok.injEq, Prod.mk.injEq] at h
      obtain ⟨rfl, rfl⟩ := h
      obtain ⟨htaken, hlength⟩ := quotedBody_of_escape hquote hvalue
      obtain ⟨body, more, hsplit, htotal, hbody, hle, hunescaped⟩ := ih hrest
      have hkey : Path.Step.unescaped ('\\' :: e :: (after.take taken ++ body)) =
          e :: (Path.Step.unescaped (after.take taken) ++ Path.Step.unescaped body) := by
        rw [Path.Step.unescaped, unescaped_append htaken]
      refine ⟨'\\' :: e :: (after.take taken ++ body), more, ?_, ?_,
        .escape (htaken.append hbody), ?_, ?_⟩
      · rw [List.cons_append, List.cons_append, List.append_assoc, ← hsplit,
          List.take_append_drop]
      · simp only [List.length_cons, List.length_append, List.length_take]
        omega
      · simp only [hkey, List.length_cons, List.length_append]
        omega
      · rw [hkey, List.cons.injEq]
        simp only [plainlyEscaped, Bool.and_eq_true, Bool.or_eq_true, decide_eq_true_eq, or_assoc]
        constructor
        · rintro ⟨rfl, hvalues⟩
          -- the rest is no longer than what it stands for, so the escape took no more
          have hlengths := congrArg List.length hvalues
          rw [List.length_append] at hlengths
          have hnone : Path.Step.unescaped (after.take taken) = [] :=
            List.length_eq_zero_iff.1 (by omega)
          have htaken0 : taken = 0 := by
            have hzero := congrArg List.length (eq_nil_of_unescaped_eq_nil htaken hnone)
            rw [List.length_take, List.length_nil] at hzero
            omega
          subst htaken0
          exact ⟨plain_of_escape hvalue, hunescaped.1 hvalues⟩
        · rintro ⟨hplain, hescapes⟩
          obtain ⟨rfl, rfl⟩ := escape_of_plain hplain hvalue
          exact ⟨rfl, hunescaped.2 hescapes⟩
  | case6 => cases h
  | case7 read c after hother hplain values length hrest ih =>
      simp only [Except.ok.injEq, Prod.mk.injEq] at h
      obtain ⟨rfl, rfl⟩ := h
      obtain ⟨body, more, hsplit, htotal, hbody, hle, hunescaped⟩ := ih hrest
      refine ⟨c :: body, more, by rw [hsplit]; rfl, ?_, .plain hother hplain hbody, ?_, ?_⟩
      · simp only [List.length_cons]
        omega
      · rw [unescaped_cons body hplain]
        exact Nat.succ_le_succ hle
      · rw [unescaped_cons body hplain, plainlyEscaped_cons body hplain, ← hunescaped]
        simp
  | case8 => cases h

/-- The character of a token of punctuation. -/
def sign :
    Token → Char
  | .root => '$'
  | .current => '@'
  | .openBracket => '['
  | .closeBracket => ']'
  | .openParen => '('
  | .closeParen => ')'
  | .comma => ','
  | .colon => ':'
  | .question => '?'
  | .star => '*'
  | _ => ' '

/-- The tokens of punctuation. -/
def punctuation : List Token :=
  [ .root, .current, .openBracket, .closeBracket, .openParen, .closeParen,
    .comma, .colon, .question, .star ]

theorem mem_punctuation
    {c : Char}
    {token : Token}
    (h : Token.ofPunctuation? c = some token) :
    token ∈ punctuation := by
  unfold Token.ofPunctuation? at h
  split at h
  case h_11 => cases h
  all_goals
    simp only [Option.some.injEq] at h
    rw [← h]
    decide

theorem eq_sign_of_ofPunctuation?
    {c : Char}
    {token : Token}
    (h : Token.ofPunctuation? c = some token) :
    c = sign token := by
  unfold Token.ofPunctuation? at h
  split at h
  case h_11 => cases h
  all_goals
    simp only [Option.some.injEq] at h
    rw [← h]
    rfl

theorem ne_of_continuesWord
    {c d : Char}
    (hc : continuesWord c = true)
    (hd : continuesWord d = false) :
    c ≠ d := by
  rintro rfl
  exact absurd hc (by simp [hd])

theorem continuesWord_of_startsWord
    {c : Char}
    (h : startsWord c = true) :
    continuesWord c = true := by
  simp only [startsWord, Bool.or_eq_true] at h
  simp only [continuesWord, Bool.or_eq_true]
  rcases h with halphabetic | hunderscore
  · exact Or.inl (Or.inl (Or.inl halphabetic))
  · exact Or.inl (Or.inr hunderscore)

theorem memberName?_of_punctuation
    {token : Token}
    (h : token ∈ punctuation) :
    token.memberName? = none := by
  simp only [punctuation, List.mem_cons, List.not_mem_nil, or_false] at h
  rcases h with rfl | rfl | rfl | rfl | rfl | rfl | rfl | rfl | rfl | rfl <;> rfl

/--
The shapes of a token: how it is spelled by its first character and by the
characters that it takes of those after it.
-/
inductive Reads
    (c : Char)
    (rest : List Char) :
    Token → Nat → Prop where
  | text
      {body after : List Char}
      {value : String}
      (hquote : c = '\'' ∨ c = '"')
      (hrest : rest = body ++ c :: after)
      (hbody : QuotedBody c body)
      (hvalue : plainlyEscaped body = true →
        String.ofList (Path.Step.unescaped body) = value) :
      Reads c rest (.text value) (body.length + 1)
  | integer
      {negative : Bool}
      {digits : List Char}
      {value : Int}
      {taken : Nat}
      (hsplit : c :: rest = (signText negative ++ digits) ++ rest.drop taken)
      (hlength : (signText negative ++ digits).length = taken + 1)
      (hdigits : ∀ d ∈ digits, d.isDigit = true)
      (hvalue : Integer64.ofSignedDigits? negative digits = some value) :
      Reads c rest (.integer value) taken
  | float
      {value : Binary64}
      {taken : Nat}
      (hcharacters : ∀ d ∈ c :: rest.take taken, d.isDigit = true ∨ d = '-' ∨ d = '.') :
      Reads c rest (.float value) taken
  | dot
      (hc : c = '.')
      (hhead : rest.head? ≠ some '.') :
      Reads c rest .dot 0
  | descent
      {more : List Char}
      (hc : c = '.')
      (hrest : rest = '.' :: more) :
      Reads c rest .descent 1
  | operator
      {token : Token}
      {taken : Nat}
      (htoken : (∃ operator, token = .comparison operator) ∨ token = .and ∨ token = .or)
      (hcharacters : ∀ d ∈ c :: rest.take taken, d ∈ operatorCharacters) :
      Reads c rest token taken
  | punctuation
      {token : Token}
      (hc : Token.ofPunctuation? c = some token) :
      Reads c rest token 0
  | word
      {token : Token}
      (hstart : startsWord c = true)
      (hname : token.memberName? =
        some (String.ofList (c :: rest.takeWhile continuesWord))) :
      Reads c rest token (rest.takeWhile continuesWord).length

/-- Every token that is read has one of the shapes. -/
theorem reads_of_readToken
    {c : Char}
    {rest : List Char}
    {token : Token}
    {taken : Nat}
    (h : readToken c rest = .ok (token, taken)) :
    Reads c rest token taken := by
  rcases readToken_eq_ok h with
    ⟨characters, hquote, hliteral, rfl⟩ | ⟨-, hnumber⟩ | hoperator | ⟨hc, rfl⟩ | hword
  · obtain ⟨body, after, hrest, htotal, hbody, -, hvalue⟩ := textLiteral_eq_ok hquote hliteral
    rw [Nat.zero_add] at htotal
    rw [htotal]
    exact .text hquote hrest hbody fun hplain => by rw [hvalue.2 hplain]
  · obtain ⟨negative, whole, point, hsplit, hlength, -, hdigits, hkind⟩ :=
      numberLiteral_eq_ok hnumber
    rcases hkind with ⟨rfl, value, hvalue, rfl⟩ | ⟨hpoint, value, rfl⟩
    · rw [List.append_nil] at hsplit hlength
      exact .integer hsplit hlength hdigits hvalue
    · refine .float ?_
      have htake : c :: rest.take taken = signText negative ++ whole ++ point := by
        have := congrArg (List.take (taken + 1)) hsplit
        rwa [List.take_succ_cons, ← hlength, List.take_left] at this
      rw [htake]
      intro d hd
      rcases List.mem_append.1 hd with hd | hd
      · rcases List.mem_append.1 hd with hd | hd
        · cases negative with
          | true => exact Or.inr (Or.inl (by simpa [signText] using hd))
          | false => simp [signText] at hd
        · exact Or.inl (hdigits d hd)
      · rcases hpoint d hd with hdigit | hdot
        · exact Or.inl hdigit
        · exact Or.inr (Or.inr hdot)
  · rcases operator?_eq_some hoperator with ⟨rfl, hdots⟩ | ⟨htoken, hc, htaken⟩
    · rcases dots_eq_ok hdots with ⟨rfl, rfl, hhead⟩ | ⟨rfl, rfl, more, hrest⟩
      · exact .dot rfl hhead
      · exact .descent rfl hrest
    · refine .operator htoken ?_
      intro d hd
      rcases List.mem_cons.1 hd with rfl | hd
      · exact hc
      · rcases htaken with rfl | ⟨rfl, e, he, hhead⟩
        · simp at hd
        · cases rest with
          | nil => simp at hd
          | cons f rest =>
              simp only [List.head?_cons, Option.some.injEq] at hhead
              simp only [List.take_succ_cons, List.take_zero, List.mem_singleton] at hd
              rw [hd, hhead]
              exact he
  · exact .punctuation hc
  · obtain ⟨hstart, rfl, rfl⟩ := word?_eq_some hword
    exact .word hstart (memberName?_ofWord _)

/-- A token of punctuation is read from its own character alone. -/
theorem readToken_punctuation
    {c d : Char}
    {rest : List Char}
    {token : Token}
    {taken : Nat}
    (hd : Token.ofPunctuation? d = some token)
    (h : readToken c rest = .ok (token, taken)) :
    c = d ∧ taken = 0 := by
  have hmem := mem_punctuation hd
  cases reads_of_readToken h with
  | punctuation hc =>
      exact ⟨(eq_sign_of_ofPunctuation? hc).trans (eq_sign_of_ofPunctuation? hd).symm, rfl⟩
  | word _ hname =>
      rw [memberName?_of_punctuation hmem] at hname
      cases hname
  | operator htoken _ =>
      rcases htoken with ⟨operator, rfl⟩ | rfl | rfl
      all_goals simp [punctuation] at hmem
  | _ => simp [punctuation] at hmem

/-- A dot is read from a dot that no other follows. -/
theorem readToken_dot
    {c : Char}
    {rest : List Char}
    {taken : Nat}
    (h : readToken c rest = .ok (.dot, taken)) :
    c = '.' ∧ taken = 0 ∧ rest.head? ≠ some '.' := by
  cases reads_of_readToken h with
  | dot hc hhead => exact ⟨hc, rfl, hhead⟩
  | operator htoken _ => simp at htoken
  | punctuation hc => exact absurd (mem_punctuation hc) (by simp [punctuation])
  | word _ hname => cases hname

/-- A descent is read from two dots. -/
theorem readToken_descent
    {c : Char}
    {rest : List Char}
    {taken : Nat}
    (h : readToken c rest = .ok (.descent, taken)) :
    c = '.' ∧ taken = 1 ∧ ∃ more, rest = '.' :: more := by
  cases reads_of_readToken h with
  | descent hc hrest => exact ⟨hc, rfl, _, hrest⟩
  | operator htoken _ => simp at htoken
  | punctuation hc => exact absurd (mem_punctuation hc) (by simp [punctuation])
  | word _ hname => cases hname

/-- A member name is read from the longest run of word characters. -/
theorem readToken_memberName
    {c : Char}
    {rest : List Char}
    {token : Token}
    {taken : Nat}
    {name : String}
    (hname : token.memberName? = some name)
    (h : readToken c rest = .ok (token, taken)) :
    startsWord c = true ∧
      name = String.ofList (c :: rest.takeWhile continuesWord) ∧
      taken = (rest.takeWhile continuesWord).length := by
  cases reads_of_readToken h with
  | word hstart hfound =>
      rw [hname, Option.some.injEq] at hfound
      exact ⟨hstart, hfound, rfl⟩
  | operator htoken _ =>
      rcases htoken with ⟨operator, rfl⟩ | rfl | rfl
      all_goals cases hname
  | punctuation hc =>
      rw [memberName?_of_punctuation (mem_punctuation hc)] at hname
      cases hname
  | _ => cases hname

/-- A text is read from a quoted body and its quotes. -/
theorem readToken_text
    {c : Char}
    {rest : List Char}
    {value : String}
    {taken : Nat}
    (h : readToken c rest = .ok (.text value, taken)) :
    ∃ body after,
      (c = '\'' ∨ c = '"') ∧
      rest = body ++ c :: after ∧
      taken = body.length + 1 ∧
      QuotedBody c body ∧
      (plainlyEscaped body = true → String.ofList (Path.Step.unescaped body) = value) := by
  cases reads_of_readToken h with
  | text hquote hrest hbody hvalue => exact ⟨_, _, hquote, hrest, rfl, hbody, hvalue⟩
  | operator htoken _ => simp at htoken
  | punctuation hc => exact absurd (mem_punctuation hc) (by simp [punctuation])
  | word _ hname => cases hname

/-- An integer is read from a sign and digits. -/
theorem readToken_integer
    {c : Char}
    {rest : List Char}
    {value : Int}
    {taken : Nat}
    (h : readToken c rest = .ok (.integer value, taken)) :
    ∃ negative digits,
      c :: rest = (signText negative ++ digits) ++ rest.drop taken ∧
      (signText negative ++ digits).length = taken + 1 ∧
      (∀ d ∈ digits, d.isDigit = true) ∧
      Integer64.ofSignedDigits? negative digits = some value := by
  cases reads_of_readToken h with
  | integer hsplit hlength hdigits hvalue => exact ⟨_, _, hsplit, hlength, hdigits, hvalue⟩
  | operator htoken _ => simp at htoken
  | punctuation hc => exact absurd (mem_punctuation hc) (by simp [punctuation])
  | word _ hname => cases hname

/-- One token in front of a text. -/
theorem ofText_token
    {position : Nat}
    {c : Char}
    {rest : List Char}
    {token : Token}
    {taken : Nat}
    (hblank : Text.isAsciiBlank c = false)
    (htoken : readToken c rest = .ok (token, taken)) :
    ofText position (c :: rest) =
      (ofText (position + 1 + taken) (rest.drop taken)).map
        (⟨token, position, position + 1 + taken⟩ :: ·) := by
  rw [ofText, hblank, htoken]
  simp only [Bool.false_eq_true, if_false]
  cases ofText (position + 1 + taken) (rest.drop taken) <;> rfl

/--
How reading starts: behind blanks, a text is empty or starts with a token.
-/
theorem ofText_eq_ok
    {position : Nat}
    {text : List Char}
    {lexemes : List Lexeme}
    (h : ofText position text = .ok lexemes) :
    ∃ blanks, (∀ c ∈ blanks, Text.isAsciiBlank c = true) ∧
      ((text = blanks ∧ lexemes = []) ∨
        ∃ c rest token taken more,
          text = blanks ++ c :: rest ∧
          Text.isAsciiBlank c = false ∧
          readToken c rest = .ok (token, taken) ∧
          ofText (position + blanks.length + 1 + taken) (rest.drop taken) = .ok more ∧
          lexemes =
            ⟨token, position + blanks.length, position + blanks.length + 1 + taken⟩ :: more) := by
  fun_induction ofText position text generalizing lexemes with
  | case1 position =>
      simp only [Except.ok.injEq] at h
      exact ⟨[], by simp, Or.inl ⟨rfl, h.symm⟩⟩
  | case2 position c rest hblank ih =>
      obtain ⟨blanks, hblanks, hrest⟩ := ih h
      have hall : ∀ d ∈ c :: blanks, Text.isAsciiBlank d = true := by
        intro d hd
        rcases List.mem_cons.1 hd with rfl | hd
        · exact hblank
        · exact hblanks d hd
      have hlength : position + 1 + blanks.length = position + (c :: blanks).length := by
        simp only [List.length_cons]
        omega
      refine ⟨c :: blanks, hall, ?_⟩
      rcases hrest with ⟨rfl, rfl⟩ | ⟨d, more, token, taken, lexemes, rfl, hd, htoken, hmore, rfl⟩
      · exact Or.inl ⟨rfl, rfl⟩
      · rw [hlength] at hmore ⊢
        exact Or.inr ⟨d, more, token, taken, lexemes, rfl, hd, htoken, hmore, rfl⟩
  | case3 => cases h
  | case4 position c rest hblank token taken htoken _ more hmore =>
      simp only [Except.ok.injEq] at h
      refine ⟨[], by simp, Or.inr ⟨c, rest, token, taken, more, rfl, ?_, htoken, hmore, h.symm⟩⟩
      simpa using hblank
  | case5 => cases h

/-- A text without tokens is blank. -/
theorem blank_of_ofText_nil
    {position : Nat}
    {text : List Char}
    (h : ofText position text = .ok []) :
    ∀ c ∈ text, Text.isAsciiBlank c = true := by
  obtain ⟨blanks, hblanks, ⟨rfl, -⟩ | ⟨c, rest, token, taken, more, -, -, -, -, hne⟩⟩ :=
    ofText_eq_ok h
  · exact hblanks
  · cases hne

/-- How reading starts if there is a first lexeme. -/
theorem ofText_eq_cons
    {position : Nat}
    {text : List Char}
    {lexeme : Lexeme}
    {more : List Lexeme}
    (h : ofText position text = .ok (lexeme :: more)) :
    ∃ blanks c rest taken,
      (∀ c ∈ blanks, Text.isAsciiBlank c = true) ∧
      text = blanks ++ c :: rest ∧
      Text.isAsciiBlank c = false ∧
      readToken c rest = .ok (lexeme.token, taken) ∧
      lexeme.start = position + blanks.length ∧
      lexeme.stop = lexeme.start + 1 + taken ∧
      ofText lexeme.stop (rest.drop taken) = .ok more := by
  obtain ⟨blanks, hblanks, ⟨-, hnil⟩ | ⟨c, rest, token, taken, others, rfl, hc, htoken, hmore, heq⟩⟩ :=
    ofText_eq_ok h
  · cases hnil
  · obtain ⟨rfl, rfl⟩ := List.cons.inj heq
    exact ⟨blanks, c, rest, taken, hblanks, rfl, hc, htoken, rfl, rfl, hmore⟩

/-- The tokens of a text do not depend on the position that it starts from. -/
theorem ofText_tokens
    {position : Nat}
    (other : Nat)
    {text : List Char}
    {lexemes : List Lexeme}
    (h : ofText position text = .ok lexemes) :
    ∃ moved, ofText other text = .ok moved ∧ moved.map token = lexemes.map token := by
  fun_induction ofText position text generalizing other lexemes with
  | case1 position =>
      simp only [Except.ok.injEq] at h
      exact ⟨[], by rw [ofText], by rw [← h]⟩
  | case2 position c rest hblank ih =>
      obtain ⟨moved, hmoved, htokens⟩ := ih (other + 1) h
      exact ⟨moved, by rw [ofText, if_pos hblank, hmoved], htokens⟩
  | case3 => cases h
  | case4 position c rest hblank token taken htoken stop more hmore ih =>
      simp only [Except.ok.injEq] at h
      obtain ⟨moved, hmoved, htokens⟩ := ih (other + 1 + taken) hmore
      refine ⟨⟨token, other, other + 1 + taken⟩ :: moved, ?_, ?_⟩
      · rw [ofText_token (by simpa using hblank) htoken, hmoved]
        rfl
      · rw [← h, List.map_cons, List.map_cons, htokens]
  | case5 => cases h

end Lexeme
end Query
end FieldQuery
