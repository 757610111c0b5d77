import FieldQuery.Proofs.Writing

/-!
# Texts read one behind the other

A text that is read by itself is read the same in front of another one, if no
token goes on from its last character to the first character of the other. A
token goes on only with a character of its own kind: a word and a number with
a word character, a number and a run of dots with a dot, an operator with an
operator. A quote goes on with no token at all.
-/

namespace FieldQuery
namespace Query
namespace Lexeme

/-- Whether no token goes on from a character to another one behind it. -/
structure Apart
    (d e : Char) : Prop where
  dot : e ≠ '.'
  operator : e ∉ operatorCharacters
  word : continuesWord e = true → continuesWord d = false ∧ d ≠ '.'

/-- Whether a text ends where no token goes on to another text. -/
def Separate
    (front more : List Char) : Prop :=
  ∀ d ∈ front.getLast?, ∀ e ∈ more.head?, Apart d e

theorem Separate.suffix
    {front behind more : List Char}
    (h : Separate front more)
    (hsuffix : behind <:+ front) :
    Separate behind more := by
  intro d hd
  obtain ⟨before, rfl⟩ := hsuffix
  refine h d ?_
  rw [List.getLast?_append, Option.mem_def.1 hd]
  rfl

/-- No token goes on with a quote. -/
theorem separate_quote
    {quote : Char}
    (hquote : quote = '\'' ∨ quote = '"')
    (front rest : List Char) :
    Separate front (quote :: rest) := by
  rintro d - e he
  obtain rfl := Option.some.inj he
  rcases hquote with rfl | rfl
  · exact ⟨by decide, by decide, fun h => absurd h (by decide +kernel)⟩
  · exact ⟨by decide, by decide, fun h => absurd h (by decide +kernel)⟩

theorem continuesWord_of_isDigit
    {c : Char}
    (h : c.isDigit = true) :
    continuesWord c = true :=
  forall_digit (P := fun c => continuesWord c = true) (by decide +kernel) h

/-- A run of characters stops inside a text if it does not go on behind it. -/
theorem takeWhile_append_of_stop
    {p : Char → Bool}
    {text more : List Char}
    (h : (∀ d ∈ text, p d = true) → ∀ e ∈ more.head?, p e = false) :
    (text ++ more).takeWhile p = text.takeWhile p ∧
      (text ++ more).dropWhile p = text.dropWhile p ++ more := by
  induction text with
  | nil =>
      have hmore := h (by simp)
      cases more with
      | nil => exact ⟨rfl, rfl⟩
      | cons e more => simp [hmore e rfl]
  | cons c text ih =>
      cases hc : p c with
      | false => simp [hc]
      | true =>
          have htext := ih fun hall => h (List.forall_mem_cons.2 ⟨hc, hall⟩)
          simpa [hc] using htext

section Append

variable {c : Char}
variable {rest more : List Char}

/-- Behind word characters and dots, what is separate does not go on with a word character. -/
theorem Separate.stop
    (h : Separate (c :: rest) more)
    (hall : ∀ d ∈ c :: rest, continuesWord d = true ∨ d = '.') :
    ∀ e ∈ more.head?, continuesWord e = false := by
  intro e he
  obtain ⟨d, hlast⟩ : ∃ d, (c :: rest).getLast? = some d :=
    Option.isSome_iff_exists.1 (by simp)
  have hapart := h d hlast e he
  cases hword : continuesWord e with
  | false => rfl
  | true =>
      obtain ⟨hd, hdot⟩ := hapart.word hword
      rcases hall d (List.mem_of_getLast? hlast) with hcontinues | rfl
      · rw [hd] at hcontinues
        cases hcontinues
      · exact absurd rfl hdot

theorem Separate.stop_digits
    (h : Separate (c :: rest) more)
    (hall : ∀ d ∈ c :: rest, continuesWord d = true ∨ d = '.') :
    ∀ e ∈ more.head?, e.isDigit = false := by
  intro e he
  cases hdigit : e.isDigit with
  | false => rfl
  | true =>
      have hstop := h.stop hall e he
      rw [continuesWord_of_isDigit hdigit] at hstop
      cases hstop

/-- What is separate starts with neither a dot nor an operator. -/
theorem Separate.head_ne
    (h : Separate (c :: rest) more)
    {e : Char}
    (he : e = '.' ∨ e ∈ operatorCharacters) :
    more.head? ≠ some e := by
  intro hhead
  obtain ⟨d, hlast⟩ : ∃ d, (c :: rest).getLast? = some d :=
    Option.isSome_iff_exists.1 (by simp)
  have hapart := h d hlast e hhead
  rcases he with rfl | he
  · exact hapart.dot rfl
  · exact hapart.operator he

/-- A number ends with the text that it is read from. -/
theorem numberLiteral_append
    (hc : c.isDigit = true ∨ c = '-')
    (h : Separate (c :: rest) more) :
    numberLiteral c (rest ++ more) = numberLiteral c rest := by
  have hfirst : continuesWord c = true := by
    rcases hc with hdigit | rfl
    · exact continuesWord_of_isDigit hdigit
    · decide +kernel
  obtain ⟨body, hbody⟩ : ∃ body, body = if c = '-' then rest else c :: rest := ⟨_, rfl⟩
  have hmembers : ∀ d ∈ c :: rest, d = c ∨ d ∈ body := by
    intro d hd
    rw [hbody]
    split
    · exact List.mem_cons.1 hd
    · exact Or.inr hd
  have hjoined : (if c = '-' then rest ++ more else c :: (rest ++ more)) = body ++ more := by
    rw [hbody]
    split <;> rfl
  obtain ⟨htake, hdrop⟩ := @takeWhile_append_of_stop Char.isDigit body more fun hall =>
    h.stop_digits fun d hd => by
      rcases hmembers d hd with rfl | hd
      · exact Or.inl hfirst
      · exact Or.inl (continuesWord_of_isDigit (hall d hd))
  have hfraction : fractionDigits (body.dropWhile Char.isDigit ++ more) =
      fractionDigits (body.dropWhile Char.isDigit) := by
    unfold fractionDigits
    split
    · next digits hdigits =>
        split
        · next inner hinner =>
            rw [hinner, List.cons_append] at hdigits
            obtain rfl := (List.cons.inj hdigits).2
            refine (takeWhile_append_of_stop fun hall => h.stop_digits fun d hd => ?_).1
            rcases hmembers d hd with rfl | hd
            · exact Or.inl hfirst
            · rw [← List.takeWhile_append_dropWhile (p := Char.isDigit) (l := body), hinner] at hd
              rcases List.mem_append.1 hd with hd | hd
              · exact Or.inl (continuesWord_of_isDigit (List.all_eq_true.1 List.all_takeWhile d hd))
              · rcases List.mem_cons.1 hd with rfl | hd
                · exact Or.inr rfl
                · exact Or.inl (continuesWord_of_isDigit (hall d hd))
        · next hnone =>
            cases hafter : body.dropWhile Char.isDigit with
            | nil =>
                rw [hafter, List.nil_append] at hdigits
                exact absurd (by rw [hdigits]; rfl) (h.head_ne (e := '.') (Or.inl rfl))
            | cons e after =>
                rw [hafter, List.cons_append] at hdigits
                exact absurd hafter (by rw [(List.cons.inj hdigits).1]; exact hnone after)
    · next hnone =>
        split
        · next inner hinner => exact absurd (by rw [hinner]; rfl) (hnone (inner ++ more))
        · rfl
  simp only [numberLiteral, hjoined, ← hbody, htake, hdrop, hfraction]

/-- A run of dots ends with the text that it is read from. -/
theorem dots_append
    (h : Separate (c :: rest) more) :
    dots (rest ++ more) = dots rest := by
  have hmore := h.head_ne (e := '.') (Or.inl rfl)
  have hother {d : Char} (hd : d ≠ '.') (text : List Char) : dots (d :: text) = .ok (.dot, 0) := by
    simp [dots, hd]
  have hsecond {d : Char} (hd : d ≠ '.') (text : List Char) :
      dots ('.' :: d :: text) = .ok (.descent, 1) := by
    simp [dots, hd]
  match rest with
  | [] =>
      cases more with
      | nil => rfl
      | cons e more => exact hother (fun he => hmore (congrArg some he)) more
  | [d] =>
      by_cases hd : d = '.'
      · subst hd
        cases more with
        | nil => rfl
        | cons e more => exact hsecond (fun he => hmore (congrArg some he)) more
      · exact (hother hd more).trans (hother hd []).symm
  | d :: e :: rest =>
      by_cases hd : d = '.'
      · subst hd
        by_cases he : e = '.'
        · subst he
          rfl
        · exact (hsecond he (rest ++ more)).trans (hsecond he rest).symm
      · exact (hother hd (e :: rest ++ more)).trans (hother hd (e :: rest)).symm

/-- An operator ends with the text that it is read from. -/
theorem operator?_append
    (h : Separate (c :: rest) more) :
    operator? c (rest ++ more) = operator? c rest := by
  have hhead {d : Char} (hd : d ∈ operatorCharacters) :
      (rest ++ more).head? = some d ↔ rest.head? = some d := by
    cases rest with
    | nil => exact iff_of_false (h.head_ne (Or.inr hd)) (by simp)
    | cons e rest => rfl
  have hequals : (rest ++ more).head? = some '=' ↔ rest.head? = some '=' := hhead (by decide)
  have hand : (rest ++ more).head? = some '&' ↔ rest.head? = some '&' := hhead (by decide)
  have hor : (rest ++ more).head? = some '|' ↔ rest.head? = some '|' := hhead (by decide)
  unfold operator?
  split
  case h_7 => simp only [dots_append h]
  all_goals simp only [hequals, hand, hor]

/-- A word ends with the text that it is read from. -/
theorem word?_append
    (h : Separate (c :: rest) more) :
    word? c (rest ++ more) = word? c rest := by
  unfold word?
  split
  · next hstart =>
      obtain ⟨htake, -⟩ := @takeWhile_append_of_stop continuesWord rest more fun hall =>
        h.stop fun d hd => by
          rcases List.mem_cons.1 hd with rfl | hd
          · exact Or.inl (continuesWord_of_startsWord hstart)
          · exact Or.inl (hall d hd)
      rw [htake]
  · rfl

/-- A token that is read ends with the text that it is read from. -/
theorem readToken_append
    {token : Token}
    {taken : Nat}
    (h : Separate (c :: rest) more)
    (hread : readToken c rest = .ok (token, taken)) :
    readToken c (rest ++ more) = .ok (token, taken) := by
  rw [readToken] at hread ⊢
  split at hread
  · next hquote =>
      rw [if_pos hquote]
      split at hread
      · next characters total hliteral =>
          rw [textLiteral_append (by simpa using hquote) hliteral more]
          exact hread
      · cases hread
  · next hquote =>
      rw [if_neg hquote]
      split at hread
      · next hnumber =>
          rw [if_pos hnumber, numberLiteral_append (by simpa using hnumber) h]
          exact hread
      · next hnumber =>
          rw [if_neg hnumber, operator?_append h, word?_append h]
          exact hread

end Append

/-- A token takes no more than the text has. -/
theorem taken_le_of_readToken
    {c : Char}
    {rest : List Char}
    {token : Token}
    {taken : Nat}
    (h : readToken c rest = .ok (token, taken)) :
    taken ≤ rest.length := by
  rcases readToken_eq_ok h with
    ⟨characters, hquote, hliteral, -⟩ | ⟨-, hnumber⟩ | hoperator | ⟨-, rfl⟩ | hword
  · obtain ⟨body, after, rfl, rfl, -⟩ := textLiteral_eq_ok hquote hliteral
    rw [List.length_append, List.length_cons]
    omega
  · obtain ⟨negative, whole, point, hsplit, hlength, -⟩ := numberLiteral_eq_ok hnumber
    have htotal := congrArg List.length hsplit
    rw [List.length_append, hlength, List.length_cons] at htotal
    omega
  · rcases operator?_eq_some hoperator with ⟨-, hdots⟩ | ⟨-, -, rfl | ⟨rfl, d, -, hhead⟩⟩
    · rcases dots_eq_ok hdots with ⟨-, rfl, -⟩ | ⟨-, rfl, more, rfl⟩
      · exact Nat.zero_le _
      · exact Nat.le_add_left 1 _
    · exact Nat.zero_le _
    · exact List.length_pos_iff.2 fun hnil => by simp [hnil] at hhead
  · exact Nat.zero_le _
  · obtain ⟨-, -, rfl⟩ := word?_eq_some hword
    exact (List.takeWhile_prefix _).length_le

/-- A text that is read by itself is read the same in front of a text that is separate from it. -/
theorem ofText_append
    {position : Nat}
    {front more : List Char}
    {before : List Lexeme}
    (h : ofText position front = .ok before)
    (hseparate : Separate front more) :
    ofText position (front ++ more) =
      (ofText (position + front.length) more).map (before ++ ·) := by
  fun_induction ofText position front generalizing before with
  | case1 position =>
      rw [← Except.ok.inj h]
      cases hmore : ofText position more <;> simp [hmore, Except.map]
  | case2 position c rest hblank ih =>
      have hrest := ih h (hseparate.suffix (List.suffix_cons c rest))
      have hlength : position + (c :: rest).length = position + 1 + rest.length := by
        rw [List.length_cons]
        omega
      rw [List.cons_append, ofText, if_pos hblank, hrest, hlength]
  | case3 => cases h
  | case4 position c rest hblank token taken htoken stop lexemes hlexemes =>
      rename_i ih
      have hle := taken_le_of_readToken htoken
      have hread := readToken_append hseparate htoken
      have hbehind := ih hlexemes
        (hseparate.suffix ((List.drop_suffix taken rest).trans (List.suffix_cons c rest)))
      have hlength : stop + (rest.drop taken).length = position + (c :: rest).length := by
        rw [List.length_drop, List.length_cons]
        omega
      rw [← Except.ok.inj h, List.cons_append, ofText_token (by simpa using hblank) hread,
        List.drop_append_of_le_length hle, hbehind, hlength]
      cases ofText (position + (c :: rest).length) more <;> rfl
  | case5 => cases h

/-- Whether reading a text comes to a position without a fault in front of it. -/
def GetsPast
    (text : List Char)
    (position : Nat) : Prop :=
  ∀ fault place, ofText 0 text = .error (fault, place) → position ≤ place

/-- A fault shows nowhere in front of the position that a text starts from. -/
theorem le_of_ofText_eq_error
    {position place : Nat}
    {text : List Char}
    {fault : Fault}
    (h : ofText position text = .error (fault, place)) :
    position ≤ place := by
  fun_induction ofText position text with
  | case1 => cases h
  | case2 position c rest hblank ih => exact Nat.le_of_succ_le (ih h)
  | case3 position c rest hblank found offset hread =>
      simp only [Except.error.injEq, Prod.mk.injEq] at h
      omega
  | case4 => cases h
  | case5 position c rest hblank token taken hread stop failure hfailure ih =>
      simp only [Except.error.injEq] at h
      subst h
      have hplace := ih hfailure
      omega

end Lexeme
end Query
end FieldQuery
