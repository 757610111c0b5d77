import FieldQuery.Proofs.QuotedKeys
import FieldQuery.Query.Writing

/-!
# Reading undoes writing

Each way to write a token is read as that token, with nothing left of it and
nothing taken of what comes behind it, as long as that starts with a character
that could not belong to the token. A space is such a character, and so tokens
with single spaces between them are read as they were written.
-/

namespace FieldQuery
namespace Query

open Token (Written Printable Printed IsName)

namespace HexDigit

variable {value : Nat}
variable {c : Char}

theorem lt
    (h : HexDigit value c) :
    value < 16 := by
  cases h <;> assumption

theorem hexDigit?_eq
    (h : HexDigit value c) :
    Text.hexDigit? c = some value := by
  have hlower : ∀ n < 16, Text.hexDigit? (Nat.digitChar n) = some n := by decide
  have hupper : ∀ n < 16, Text.hexDigit? (Nat.digitChar n).toUpper = some n := by decide
  cases h with
  | lower h => exact hlower value h
  | upper h => exact hupper value h

end HexDigit

namespace CodeUnit

variable {unit : Nat}
variable {digits : List Char}

/-- A code unit in four digits is read as itself. -/
theorem hexQuad?_eq
    (h : CodeUnit unit digits)
    (more : List Char) :
    Lexeme.hexQuad? (digits ++ more) = some unit := by
  cases h with
  | @digits p q r s a b c d ha hb hc hd =>
      have hplus : a ≠ '+' := by
        rintro rfl
        have hdigit := ha.hexDigit?_eq
        cases hdigit
      have hnumber : Text.hexNumber? 0 [a, b, c, d] =
          some (((p * 16 + q) * 16 + r) * 16 + s) := by
        simp only [Text.hexNumber?, ha.hexDigit?_eq, hb.hexDigit?_eq, hc.hexDigit?_eq,
          hd.hexDigit?_eq, Option.bind_some, Option.some.injEq]
        omega
      rw [← hnumber]
      simp [Lexeme.hexQuad?]

theorem length_eq
    (h : CodeUnit unit digits) :
    digits.length = 4 := by
  cases h
  rfl

theorem lt
    (h : CodeUnit unit digits) :
    unit < 0x10000 := by
  cases h with
  | digits ha hb hc hd =>
      have hp := ha.lt
      have hq := hb.lt
      have hr := hc.lt
      have hs := hd.lt
      omega

end CodeUnit

/-- A word that is no keyword is a name. -/
theorem Token.ofWord_of_not_mem
    {word : String}
    (h : word ∉ ["true", "false", "null"]) :
    Token.ofWord word = .name word := by
  simp only [List.mem_cons, List.not_mem_nil, or_false, not_or] at h
  rw [Token.ofWord, if_neg h.1, if_neg h.2.1, if_neg h.2.2]

namespace Lexeme

section Characters

variable {c : Char}
variable {digits high low : List Char}

/-- No character is one half of a surrogate pair. -/
theorem toNat_cases
    (c : Char) :
    c.toNat < 0xD800 ∨ 0xDFFF < c.toNat ∧ c.toNat < 0x110000 :=
  c.valid

theorem codeEscape_of_hexQuad?
    {text : List Char}
    (h : hexQuad? text = some c.toNat) :
    codeEscape text = .ok (c, 4) := by
  have hcases := toNat_cases c
  have hhigh : Text.isHighSurrogate c.toNat = false := by
    simp only [Text.isHighSurrogate, Bool.and_eq_false_iff, decide_eq_false_iff_not]
    omega
  have hlow : Text.isLowSurrogate c.toNat = false := by
    simp only [Text.isLowSurrogate, Bool.and_eq_false_iff, decide_eq_false_iff_not]
    omega
  simp only [codeEscape, h, hhigh, hlow, Bool.false_eq_true, if_false, Char.ofNat_toNat]

theorem codeEscape_of_code
    (h : CodeUnit c.toNat digits)
    (rest : List Char) :
    codeEscape (digits ++ rest) = .ok (c, 4) :=
  codeEscape_of_hexQuad? (h.hexQuad?_eq rest)

theorem codeEscape_of_pair
    (hplane : 0x10000 ≤ c.toNat)
    (hhigh : CodeUnit (0xD800 + (c.toNat - 0x10000) / 0x400) high)
    (hlow : CodeUnit (0xDC00 + (c.toNat - 0x10000) % 0x400) low)
    (rest : List Char) :
    codeEscape (high ++ '\\' :: 'u' :: low ++ rest) = .ok (c, 10) := by
  have hcases := toNat_cases c
  have hfirst : Text.isHighSurrogate (0xD800 + (c.toNat - 0x10000) / 0x400) = true := by
    simp only [Text.isHighSurrogate, Bool.and_eq_true, decide_eq_true_eq]
    omega
  have hsecond : Text.isLowSurrogate (0xDC00 + (c.toNat - 0x10000) % 0x400) = true := by
    simp only [Text.isLowSurrogate, Bool.and_eq_true, decide_eq_true_eq]
    omega
  have hpair : Text.pairedSurrogates (0xD800 + (c.toNat - 0x10000) / 0x400)
      (0xDC00 + (c.toNat - 0x10000) % 0x400) = c := by
    have hnumber : 0x10000 + (0xD800 + (c.toNat - 0x10000) / 0x400 - 0xD800) * 1024 +
        (0xDC00 + (c.toNat - 0x10000) % 0x400 - 0xDC00) = c.toNat := by
      omega
    rw [Text.pairedSurrogates, hnumber, Char.ofNat_toNat]
  have hdrop : (high ++ ('\\' :: 'u' :: low ++ rest)).drop 4 = '\\' :: 'u' :: (low ++ rest) := by
    rw [← hhigh.length_eq, List.drop_left]
    rfl
  simp only [codeEscape, List.append_assoc, hhigh.hexQuad?_eq, hfirst, if_true, hdrop,
    hlow.hexQuad?_eq, hsecond, hpair]

theorem escape_of_short
    {letter : Char}
    (h : (letter, c) ∈ shortEscapes)
    (rest : List Char) :
    escape letter rest = .ok (c, 0) := by
  simp only [shortEscapes, List.mem_cons, List.not_mem_nil, or_false, Prod.mk.injEq] at h
  rcases h with ⟨rfl, rfl⟩ | ⟨rfl, rfl⟩ | ⟨rfl, rfl⟩ | ⟨rfl, rfl⟩ | ⟨rfl, rfl⟩ | ⟨rfl, rfl⟩ |
    ⟨rfl, rfl⟩ | ⟨rfl, rfl⟩ | ⟨rfl, rfl⟩
  all_goals rfl

variable {quote : Char}
variable {read total : Nat}
variable {rest values : List Char}

theorem textLiteral_escape
    {e : Char}
    {more : List Char}
    (hquote : quote = '\'' ∨ quote = '"')
    (hescape : escape e (more ++ rest) = .ok (c, more.length))
    (hrest : textLiteral quote (read + ('\\' :: e :: more).length) rest = .ok (values, total)) :
    textLiteral quote read ('\\' :: e :: (more ++ rest)) = .ok (c :: values, total) := by
  have hne : '\\' ≠ quote := (Path.ne_backslash_of_quote hquote).symm
  have hlength : read + ('\\' :: e :: more).length = read + 2 + more.length := by
    rw [List.length_cons, List.length_cons]
    omega
  rw [hlength] at hrest
  rw [textLiteral]
  simp only [if_neg hne, if_true, hescape, List.drop_left, hrest]

/-- A character between quotes is read as itself, whichever way it is written. -/
theorem textLiteral_written
    {piece : List Char}
    (hquote : quote = '\'' ∨ quote = '"')
    (h : CharWritten quote c piece)
    (hrest : textLiteral quote (read + piece.length) rest = .ok (values, total)) :
    textLiteral quote read (piece ++ rest) = .ok (c :: values, total) := by
  cases h with
  | raw hraw hescape =>
      have hrest : textLiteral quote (read + 1) rest = .ok (values, total) := hrest
      rw [List.singleton_append]
      unfold textLiteral
      simp only [if_neg hraw, if_neg hescape, hrest]
  | short h => exact textLiteral_escape hquote (escape_of_short h _) hrest
  | code h =>
      have hescape := codeEscape_of_code h rest
      rw [← h.length_eq] at hescape
      exact textLiteral_escape hquote hescape hrest
  | pair hplane hhigh hlow =>
      rename_i high low
      have hescape := codeEscape_of_pair hplane hhigh hlow rest
      have hlength : (high ++ '\\' :: 'u' :: low).length = 10 := by
        simp [hhigh.length_eq, hlow.length_eq]
      rw [← hlength] at hescape
      exact textLiteral_escape hquote hescape hrest

/-- A literal is read up to its closing quote if each piece is read as its character. -/
theorem textLiteral_flatten
    {ways : Char → List Char → Prop}
    {pieces : List (List Char)}
    (hways : ∀ {c piece read rest values total},
      ways c piece →
      textLiteral quote (read + piece.length) rest = .ok (values, total) →
      textLiteral quote read (piece ++ rest) = .ok (c :: values, total))
    (h : List.Forall₂ ways values pieces)
    (read : Nat)
    (rest : List Char) :
    textLiteral quote read (pieces.flatten ++ quote :: rest) =
      .ok (values, read + pieces.flatten.length + 1) := by
  induction h generalizing read with
  | nil =>
      unfold textLiteral
      simp
  | @cons c piece values pieces hpiece hpieces ih =>
      have hrest := ih (read + piece.length)
      rw [List.flatten_cons, List.append_assoc, hways hpiece hrest, List.length_append,
        Nat.add_assoc read]

/-- A literal is read up to its closing quote, whichever way its characters are written. -/
theorem textLiteral_pieces
    {pieces : List (List Char)}
    (hquote : quote = '\'' ∨ quote = '"')
    (h : List.Forall₂ (CharWritten quote) values pieces)
    (read : Nat)
    (rest : List Char) :
    textLiteral quote read (pieces.flatten ++ quote :: rest) =
      .ok (values, read + pieces.flatten.length + 1) :=
  textLiteral_flatten (fun hpiece hrest => textLiteral_written hquote hpiece hrest) h read rest

end Characters

/-- Whether a text goes on with a character that belongs to no token in front of it. -/
def Detached
    (more : List Char) : Prop :=
  ∀ d, more.head? = some d → d = ' ' ∨ d = ']'

theorem detached_closeBracket
    (rest : List Char) :
    Detached (']' :: rest) :=
  fun _ hd => Or.inr (Option.some.inj hd).symm

section Runs

variable {more run : List Char}
variable {p : Char → Bool}

theorem Detached.cases
    (h : Detached more) :
    more = [] ∨ (∃ rest, more = ' ' :: rest) ∨ ∃ rest, more = ']' :: rest := by
  cases more with
  | nil => exact Or.inl rfl
  | cons d rest =>
      rcases h d rfl with rfl | rfl
      · exact Or.inr (Or.inl ⟨rest, rfl⟩)
      · exact Or.inr (Or.inr ⟨rest, rfl⟩)

theorem Detached.takeWhile_eq
    (h : Detached more)
    (hspace : p ' ' = false)
    (hbracket : p ']' = false) :
    more.takeWhile p = [] ∧ more.dropWhile p = more := by
  rcases h.cases with rfl | ⟨rest, rfl⟩ | ⟨rest, rfl⟩
  · exact ⟨rfl, rfl⟩
  · simp [hspace]
  · simp [hbracket]

/-- A run of characters ends where the text is detached. -/
theorem takeWhile_run
    (hrun : ∀ d ∈ run, p d = true)
    (hspace : p ' ' = false)
    (hbracket : p ']' = false)
    (hmore : Detached more) :
    (run ++ more).takeWhile p = run ∧ (run ++ more).dropWhile p = more := by
  obtain ⟨htake, hdrop⟩ := hmore.takeWhile_eq hspace hbracket
  rw [List.takeWhile_append_of_pos hrun, List.dropWhile_append_of_pos hrun, htake, hdrop]
  exact ⟨List.append_nil run, rfl⟩

end Runs

section Numbers

variable {more : List Char}

/-- The digits of a number above zero do not start with a zero. -/
theorem head_toDigits_ne
    {n : Nat}
    (h : 0 < n) :
    (Nat.toDigits 10 n).head? ≠ some '0' := by
  induction n using Nat.strongRecOn with
  | ind n ih =>
      rw [Nat.toDigits_eq_if (by decide)]
      split
      · next hsmall =>
          have hdigits : ∀ m < 10, 0 < m → [Nat.digitChar m].head? ≠ some '0' := by decide
          exact hdigits n hsmall h
      · next hlarge =>
          rw [List.head?_append_of_ne_nil _ Nat.toDigits_ne_nil]
          exact ih (n / 10) (by omega) (by omega)

/-- A sign and digits without needless zeros are read as an integer. -/
theorem numberLiteral_digits
    {negative : Bool}
    {c : Char}
    {rest digits : List Char}
    {value : Int}
    (hsplit : c :: rest = signText negative ++ digits)
    (hne : digits ≠ [])
    (hdigits : ∀ d ∈ digits, d.isDigit = true)
    (hzero : digits.head? = some '0' → negative = false ∧ digits = ['0'])
    (hvalue : Integer64.ofSignedDigits? negative digits = some value)
    (hmore : Detached more) :
    numberLiteral c (rest ++ more) = .ok (.integer value, rest.length) := by
  obtain ⟨htake, hdrop⟩ := takeWhile_run hdigits rfl rfl hmore
  have hpoint : fractionDigits more = [] := by
    rcases hmore.cases with rfl | ⟨rest, rfl⟩ | ⟨rest, rfl⟩ <;> rfl
  have hempty : digits.isEmpty = false := by
    simpa using hne
  have hleading : (decide (1 < digits.length) && decide (digits.head? = some '0')) = false := by
    rw [Bool.and_eq_false_iff, decide_eq_false_iff_not, decide_eq_false_iff_not]
    by_cases hhead : digits.head? = some '0'
    · rw [(hzero hhead).2]
      exact Or.inl (by decide)
    · exact Or.inr hhead
  have hnegative : (negative && decide (digits = ['0'])) = false := by
    rw [Bool.and_eq_false_iff, decide_eq_false_iff_not]
    by_cases hhead : digits.head? = some '0'
    · exact Or.inl (hzero hhead).1
    · exact Or.inr fun heq => hhead (by rw [heq]; rfl)
  cases negative with
  | true =>
      obtain ⟨rfl, rfl⟩ := List.cons.inj hsplit
      simp only [numberLiteral, decide_true, if_true, htake, hdrop, hempty, hleading, hnegative,
        hpoint, hvalue, List.isEmpty_nil, Bool.false_eq_true, if_false]
      rw [Nat.add_sub_cancel_left]
  | false =>
      obtain rfl : c :: rest = digits := hsplit
      have hsign : c ≠ '-' := by
        rintro rfl
        exact absurd (hdigits _ List.mem_cons_self) (by decide)
      rw [List.cons_append] at htake hdrop
      simp only [numberLiteral, hsign, decide_false, Bool.false_eq_true, if_false, htake, hdrop,
        hempty, hleading, hnegative, hpoint, hvalue, List.isEmpty_nil, if_true]
      rw [List.length_cons, Nat.zero_add, Nat.add_sub_cancel]

/-- The digits of a number are what it is read from. -/
theorem ofSignedDigits?_toDigits
    {negative : Bool}
    {n : Nat}
    {value : Int}
    (hvalue : value = if negative then -(n : Int) else n)
    (hsigned : Integer64.isSigned value = true) :
    Integer64.ofSignedDigits? negative (Nat.toDigits 10 n) = some value := by
  have hempty : (Nat.toDigits 10 n).isEmpty = false := by
    simp [Nat.toDigits_ne_nil]
  have hall : (Nat.toDigits 10 n).all Char.isDigit = true :=
    List.all_eq_true.2 fun d hd => Nat.isDigit_of_mem_toDigits (by decide) (by decide) hd
  have hnumber : Integer64.ofDigits (Nat.toDigits 10 n) = n :=
    Nat.ofDigitChars_toDigits (by decide) (by decide)
  rw [Integer64.ofSignedDigits?, hempty, hall, hnumber]
  simp only [Bool.not_true, Bool.or_self, Bool.false_eq_true, if_false]
  rw [← hvalue, if_pos hsigned]

/-- A digit or a minus sign starts a number. -/
theorem readToken_number
    {c : Char}
    (rest : List Char)
    (hc : c.isDigit = true ∨ c = '-') :
    Text.isAsciiBlank c = false ∧ readToken c rest = numberLiteral c rest := by
  have hne : ∀ d, d.isDigit = false → d ≠ '-' → c ≠ d := by
    rintro d hdigit hminus rfl
    rcases hc with hc | hc
    · rw [hdigit] at hc
      cases hc
    · exact hminus hc
  have hquote : ¬ (c = '\'' || c = '"') = true := by
    simp [hne '\'' (by decide) (by decide), hne '"' (by decide) (by decide)]
  have hnumber : (c.isDigit || c = '-') = true := by
    simpa using hc
  constructor
  · simp [Text.isAsciiBlank, hne ' ' (by decide) (by decide), hne '\t' (by decide) (by decide),
      hne '\n' (by decide) (by decide), hne '\r' (by decide) (by decide)]
  · rw [readToken, if_neg hquote, if_pos hnumber]

/-- The text of an integer is its sign and the digits of its magnitude. -/
theorem exists_toString_eq
    (value : Int) :
    ∃ negative n,
      (toString value).toList = signText negative ++ Nat.toDigits 10 n ∧
      value = (if negative then -(n : Int) else n) ∧
      (n = 0 → negative = false) := by
  rw [Int.toString_eq_repr]
  cases value with
  | ofNat n => exact ⟨false, n, Nat.toList_repr, rfl, fun _ => rfl⟩
  | negSucc n =>
      refine ⟨true, n + 1, ?_, rfl, fun h => absurd h (Nat.succ_ne_zero n)⟩
      rw [Int.repr, String.toList_append, Nat.toList_repr]
      rfl

/-- The text of an integer is read as the integer. -/
theorem readToken_toString
    {value : Int}
    (hsigned : Integer64.isSigned value = true)
    (hmore : Detached more) :
    ∃ c rest,
      (toString value).toList = c :: rest ∧
      Text.isAsciiBlank c = false ∧
      readToken c (rest ++ more) = .ok (.integer value, rest.length) := by
  obtain ⟨negative, n, htext, hvalue, hzero⟩ := exists_toString_eq value
  have hdigits : ∀ d ∈ Nat.toDigits 10 n, d.isDigit = true := fun d hd =>
    Nat.isDigit_of_mem_toDigits (by decide) (by decide) hd
  have hhead : (Nat.toDigits 10 n).head? = some '0' →
      negative = false ∧ Nat.toDigits 10 n = ['0'] := by
    intro hhead
    rcases Nat.eq_zero_or_pos n with rfl | hpositive
    · exact ⟨hzero rfl, rfl⟩
    · exact absurd hhead (head_toDigits_ne hpositive)
  have hread := ofSignedDigits?_toDigits hvalue hsigned
  cases hsplit : signText negative ++ Nat.toDigits 10 n with
  | nil => exact absurd (List.append_eq_nil_iff.1 hsplit).2 Nat.toDigits_ne_nil
  | cons c rest =>
      have hstart : c.isDigit = true ∨ c = '-' := by
        have hc : c ∈ signText negative ++ Nat.toDigits 10 n := by
          rw [hsplit]
          exact List.mem_cons_self
        rcases List.mem_append.1 hc with hsign | hdigit
        · cases negative with
          | true => exact Or.inr (List.mem_singleton.1 hsign)
          | false => cases hsign
        · exact Or.inl (hdigits c hdigit)
      obtain ⟨hblank, hnumber⟩ := readToken_number (rest ++ more) hstart
      refine ⟨c, rest, htext.trans hsplit, hblank, hnumber.trans ?_⟩
      exact numberLiteral_digits hsplit.symm Nat.toDigits_ne_nil hdigits hhead hread hmore

end Numbers

section Words

variable {first : Char}
variable {rest more : List Char}

/-- What holds of the characters 48 to 57 holds of every digit. -/
theorem forall_digit
    {P : Char → Prop}
    (hdigits : ∀ n < 58, 48 ≤ n → P (Char.ofNat n))
    {c : Char}
    (h : c.isDigit = true) :
    P c := by
  simp only [Char.isDigit, Bool.and_eq_true, decide_eq_true_eq, ge_iff_le] at h
  have hlower : 48 ≤ c.toNat := h.1
  have hupper : c.toNat ≤ 57 := h.2
  have hc := hdigits c.toNat (by omega) hlower
  rwa [Char.ofNat_toNat] at hc

theorem startsWord_of_isDigit
    {c : Char}
    (h : c.isDigit = true) :
    startsWord c = false :=
  forall_digit (P := fun c => startsWord c = false) (by decide +kernel) h

theorem Detached.stop
    (h : Detached more) :
    ∀ d ∈ more.head?, continuesWord d = false := by
  intro d hd
  rcases h d hd with rfl | rfl
  · decide +kernel
  · decide +kernel

/-- A word is read up to the first character that does not continue it. -/
theorem readToken_word
    (hfirst : startsWord first = true)
    (hrest : ∀ c ∈ rest, continuesWord c = true)
    (hmore : ∀ d ∈ more.head?, continuesWord d = false) :
    Text.isAsciiBlank first = false ∧
      readToken first (rest ++ more) =
        .ok (.ofWord (String.ofList (first :: rest)), rest.length) := by
  have hne : ∀ d, startsWord d = false → first ≠ d := by
    rintro d hd rfl
    rw [hd] at hfirst
    cases hfirst
  have hend : more.takeWhile continuesWord = [] := by
    cases more with
    | nil => rfl
    | cons d more => simp [hmore d rfl]
  have htake : (rest ++ more).takeWhile continuesWord = rest := by
    rw [List.takeWhile_append_of_pos hrest, hend, List.append_nil]
  have hword : word? first (rest ++ more) =
      some (.ofWord (String.ofList (first :: rest)), rest.length) := by
    rw [word?, if_pos hfirst, htake]
  have hquote : ¬ (first = '\'' || first = '"') = true := by
    simp [hne '\'' (by decide +kernel), hne '"' (by decide +kernel)]
  have hnumber : ¬ (first.isDigit || first = '-') = true := by
    rw [Bool.or_eq_true, decide_eq_true_eq, not_or]
    refine ⟨fun hdigit => ?_, hne '-' (by decide +kernel)⟩
    rw [startsWord_of_isDigit hdigit] at hfirst
    cases hfirst
  have hoperator : operator? first (rest ++ more) = none := by
    unfold operator?
    dsimp only
    split
    case h_8 => rfl
    all_goals exact absurd hfirst (by decide +kernel)
  have hpunctuation : Token.ofPunctuation? first = none := by
    unfold Token.ofPunctuation?
    split
    case h_11 => rfl
    all_goals exact absurd hfirst (by decide +kernel)
  constructor
  · simp [Text.isAsciiBlank, hne ' ' (by decide +kernel), hne '\t' (by decide +kernel),
      hne '\n' (by decide +kernel), hne '\r' (by decide +kernel)]
  · rw [readToken, if_neg hquote, if_neg hnumber, hoperator, hpunctuation, hword]

/-- A keyword is read as the token that it stands for. -/
theorem exists_readToken_keyword
    {token : Token}
    {text : String}
    (htext : text.toList = first :: rest)
    (hfirst : startsWord first = true)
    (hrest : rest.all continuesWord = true)
    (htoken : Token.ofWord (String.ofList (first :: rest)) = token)
    (hmore : Detached more) :
    ∃ c rest,
      text.toList = c :: rest ∧
      Text.isAsciiBlank c = false ∧
      readToken c (rest ++ more) = .ok (token, rest.length) := by
  obtain ⟨hblank, hread⟩ := readToken_word hfirst (List.all_eq_true.1 hrest) hmore.stop
  exact ⟨first, rest, htext, hblank, by rw [hread, htoken]⟩

end Words

/-- A token that is written in one way is read from its text. -/
theorem readToken_fixed
    {token : Token}
    {text : String}
    {more : List Char}
    (h : token.fixedText? = some text)
    (hmore : Detached more) :
    ∃ c rest,
      text.toList = c :: rest ∧
      Text.isAsciiBlank c = false ∧
      readToken c (rest ++ more) = .ok (token, rest.length) := by
  cases token with
  | name => cases h
  | text => cases h
  | integer => cases h
  | float => cases h
  | endOfInput => cases h
  | null =>
      obtain rfl := Option.some.inj h
      exact @exists_readToken_keyword 'n' ['u', 'l', 'l'] _ _ _ rfl (by decide +kernel)
        (by decide +kernel) rfl hmore
  | bool value =>
      cases value with
      | true =>
          obtain rfl := Option.some.inj h
          exact @exists_readToken_keyword 't' ['r', 'u', 'e'] _ _ _ rfl (by decide +kernel)
            (by decide +kernel) rfl hmore
      | false =>
          obtain rfl := Option.some.inj h
          exact @exists_readToken_keyword 'f' ['a', 'l', 's', 'e'] _ _ _ rfl (by decide +kernel)
            (by decide +kernel) rfl hmore
  | comparison operator =>
      obtain rfl := Option.some.inj h
      cases operator
      all_goals
        refine ⟨_, _, rfl, rfl, ?_⟩
        rcases hmore.cases with rfl | ⟨rest, rfl⟩ | ⟨rest, rfl⟩ <;> rfl
  | _ =>
      obtain rfl := Option.some.inj h
      refine ⟨_, _, rfl, rfl, ?_⟩
      rcases hmore.cases with rfl | ⟨rest, rfl⟩ | ⟨rest, rfl⟩ <;> rfl

/-- A token is read from its own characters, whichever way it is written. -/
theorem readToken_written
    {token : Token}
    {piece more : List Char}
    (h : Written token piece)
    (hprintable : token.Printable)
    (hmore : Detached more) :
    ∃ c rest,
      piece = c :: rest ∧
      Text.isAsciiBlank c = false ∧
      readToken c (rest ++ more) = .ok (token, rest.length) := by
  cases h with
  | integer => exact readToken_toString hprintable hmore
  | name =>
      obtain ⟨⟨first, rest, hword, hfirst, hrest⟩, hkeyword⟩ := hprintable
      obtain ⟨hblank, hread⟩ := readToken_word hfirst hrest hmore.stop
      refine ⟨first, rest, hword, hblank, ?_⟩
      rw [hread, ← hword, String.ofList_toList, Token.ofWord_of_not_mem hkeyword]
  | text hquote hpieces =>
      rename_i quote value pieces
      have hread := readToken_of_textLiteral hquote (textLiteral_pieces hquote hpieces 0 more)
      refine ⟨quote, _, rfl, by rcases hquote with rfl | rfl <;> rfl, ?_⟩
      rw [List.append_assoc, List.singleton_append, hread, String.ofList_toList, Nat.zero_add,
        List.length_append]
      rfl
  | fixed h => exact readToken_fixed h hmore

/-- A text that starts with a token in writing has this token for its first. -/
theorem ofText_written
    {token : Token}
    {piece more : List Char}
    (h : Written token piece)
    (hprintable : token.Printable)
    (hmore : Detached more)
    (position : Nat) :
    ofText position (piece ++ more) =
      (ofText (position + piece.length) more).map
        (⟨token, position, position + piece.length⟩ :: ·) := by
  obtain ⟨c, rest, rfl, hblank, hread⟩ := readToken_written h hprintable hmore
  have hlength : position + (c :: rest).length = position + 1 + rest.length := by
    rw [List.length_cons]
    omega
  rw [List.cons_append, ofText_token hblank hread, List.drop_left, hlength]

/-- Tokens with single spaces between them are read one after another. -/
theorem exists_ofText_pieces
    {tokens : List Token}
    {pieces : List (List Char)}
    (h : List.Forall₂ Written tokens pieces)
    (hprintable : ∀ token ∈ tokens, token.Printable)
    (position : Nat) :
    ∃ lexemes,
      ofText position ([' '].intercalate pieces) = .ok lexemes ∧
      lexemes.map token = tokens := by
  induction h generalizing position with
  | nil => exact ⟨[], by rw [List.intercalate_nil, ofText], rfl⟩
  | @cons head piece tokens pieces hhead htail ih =>
      obtain ⟨hfirst, hothers⟩ := List.forall_mem_cons.1 hprintable
      cases pieces with
      | nil =>
          cases htail
          have hend : Detached [] := by
            intro d hd
            cases hd
          have hread := ofText_written hhead hfirst hend position
          rw [List.append_nil, ofText] at hread
          exact ⟨_, by rw [List.intercalate_singleton]; exact hread, rfl⟩
      | cons second others =>
          have hspace : Detached (' ' :: [' '].intercalate (second :: others)) := by
            intro d hd
            exact Or.inl (Option.some.inj hd).symm
          obtain ⟨lexemes, hlexemes, htokens⟩ := ih hothers (position + piece.length + 1)
          have hread := ofText_written hhead hfirst hspace position
          have hblank : Text.isAsciiBlank ' ' = true := rfl
          rw [ofText, if_pos hblank, hlexemes] at hread
          refine ⟨_, by rw [List.intercalate_cons_cons, List.append_assoc]; exact hread, ?_⟩
          rw [List.map_cons, htokens]

end Lexeme

namespace Token

/-- Any character can be written between quotes. -/
theorem exists_charWritten
    (c : Char) :
    ∃ piece, CharWritten '"' c piece := by
  by_cases hquote : c = '"'
  · exact ⟨_, @CharWritten.short _ '"' _ (by rw [hquote]; decide)⟩
  · by_cases hescape : c = '\\'
    · exact ⟨_, @CharWritten.short _ '\\' _ (by rw [hescape]; decide)⟩
    · exact ⟨_, .raw hquote hescape⟩

theorem exists_written
    {token : Token}
    (h : token.Printable) :
    ∃ piece, Written token piece := by
  have fixed {text : String} (htext : token.fixedText? = some text) :
      ∃ piece, Written token piece :=
    ⟨_, .fixed htext⟩
  cases token with
  | endOfInput => cases h
  | float => cases h
  | integer value => exact ⟨_, .integer⟩
  | name word => exact ⟨_, .name⟩
  | text value =>
      obtain ⟨pieces, hpieces⟩ : ∃ pieces, List.Forall₂ (CharWritten '"') value.toList pieces := by
        induction value.toList with
        | nil => exact ⟨[], .nil⟩
        | cons c rest ih =>
            obtain ⟨pieces, hpieces⟩ := ih
            obtain ⟨piece, hpiece⟩ := exists_charWritten c
            exact ⟨piece :: pieces, .cons hpiece hpieces⟩
      exact ⟨_, .text (Or.inr rfl) hpieces⟩
  | bool value => cases value <;> exact fixed rfl
  | _ => exact fixed rfl

end Token

/--
Tokens can be written with single spaces between them, and read again they are
the same, whichever way each of them and each character of its text is written.
-/
theorem ofText_of_printed
    {tokens : List Token}
    (h : ∀ token ∈ tokens, token.Printable) :
    (∃ text, Printed tokens text) ∧
    ∀ text, Printed tokens text → Token.ofText text = .ok (tokens ++ [.endOfInput]) := by
  constructor
  · obtain ⟨pieces, hpieces⟩ : ∃ pieces, List.Forall₂ Written tokens pieces := by
      induction tokens with
      | nil => exact ⟨[], .nil⟩
      | cons token tokens ih =>
          obtain ⟨hfirst, hothers⟩ := List.forall_mem_cons.1 h
          obtain ⟨piece, hpiece⟩ := Token.exists_written hfirst
          obtain ⟨pieces, hpieces⟩ := ih hothers
          exact ⟨piece :: pieces, .cons hpiece hpieces⟩
    exact ⟨_, pieces, hpieces, String.toList_ofList⟩
  · rintro text ⟨pieces, hpieces, htext⟩
    obtain ⟨lexemes, hlexemes, htokens⟩ := Lexeme.exists_ofText_pieces hpieces h 0
    rw [Token.ofText, htext, hlexemes, ← htokens]
    rfl

/-- Tokens with a name close to a keyword, the least integer, and characters of three planes. -/
def mixedTokens : List Token :=
  [ .openBracket, .text "é😀'", .closeBracket, .descent, .name "true-",
    .comparison .lessOrEqual, .integer (-9223372036854775808) ]

/-- Two of the characters are written by their codes, in digits of either case. -/
theorem ofText_of_printed_mixed :
    (∀ token ∈ mixedTokens, token.Printable) ∧
      Printed mixedTokens "[ '\\u00E9\\ud83D\\uDe00\\'' ] .. true- <= -9223372036854775808" ∧
      Token.ofText "[ '\\u00E9\\ud83D\\uDe00\\'' ] .. true- <= -9223372036854775808" =
        .ok (mixedTokens ++ [.endOfInput]) := by
  have hname : IsName "true-" :=
    ⟨⟨'t', ['r', 'u', 'e', '-'], rfl, by decide +kernel,
      List.all_eq_true.1 (by decide +kernel)⟩, by decide⟩
  have hprintable : ∀ token ∈ mixedTokens, token.Printable := by
    simp only [mixedTokens, List.forall_mem_cons]
    exact ⟨trivial, trivial, trivial, trivial, hname, trivial, rfl, List.forall_mem_nil _⟩
  have hcode : CodeUnit 'é'.toNat ['0', '0', 'E', '9'] :=
    @CodeUnit.digits 0 0 14 9 _ _ _ _ (.lower (by decide)) (.lower (by decide))
      (.upper (by decide)) (.lower (by decide))
  have hhigh : CodeUnit (0xD800 + ('😀'.toNat - 0x10000) / 0x400) ['d', '8', '3', 'D'] :=
    @CodeUnit.digits 13 8 3 13 _ _ _ _ (.lower (by decide)) (.lower (by decide))
      (.lower (by decide)) (.upper (by decide))
  have hlow : CodeUnit (0xDC00 + ('😀'.toNat - 0x10000) % 0x400) ['D', 'e', '0', '0'] :=
    @CodeUnit.digits 13 14 0 0 _ _ _ _ (.upper (by decide)) (.lower (by decide))
      (.lower (by decide)) (.lower (by decide))
  have htext : List.Forall₂ (CharWritten '\'') "é😀'".toList
      ["\\u00E9".toList, "\\ud83D\\uDe00".toList, "\\'".toList] :=
    .cons (.code hcode) (.cons (.pair (by decide) hhigh hlow)
      (.cons (@CharWritten.short _ '\'' _ (by decide)) .nil))
  have hpieces : List.Forall₂ Written mixedTokens
      [ "[".toList, "'\\u00E9\\ud83D\\uDe00\\''".toList, "]".toList, "..".toList, "true-".toList,
        "<=".toList, "-9223372036854775808".toList ] :=
    .cons (.fixed rfl) (.cons (.text (Or.inl rfl) htext) (.cons (.fixed rfl) (.cons (.fixed rfl)
      (.cons .name (.cons (.fixed rfl) (.cons .integer .nil))))))
  have hprinted : Printed mixedTokens
      "[ '\\u00E9\\ud83D\\uDe00\\'' ] .. true- <= -9223372036854775808" :=
    ⟨_, hpieces, by decide +kernel⟩
  exact ⟨hprintable, hprinted, (ofText_of_printed hprintable).2 _ hprinted⟩

end Query
end FieldQuery
