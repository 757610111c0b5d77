import FieldQuery.Proofs.Joining
import FieldQuery.Query.Compiled

/-!
# Escapes in literals

A literal is a quote, characters that are each written as they are, behind a
backslash or by their code, and the same quote again. A code has four digits,
and a character beyond the first plane has two codes, one for each half of its
surrogate pair. No half stands for a character by itself.

These literals are read, and besides them one more kind. A plus sign in front
of three digits is read as a code as well, as if a zero stood in its place.
-/

namespace FieldQuery
namespace Query

/-- The ways in which a character between quotes is read. -/
inductive CharRead
    (quote : Char) :
    Char → List Char → Prop where
  | written
      {c : Char}
      {piece : List Char}
      (h : CharWritten quote c piece) :
      CharRead quote c piece
  | signed
      {c : Char}
      {digits : List Char}
      (h : CodeUnit c.toNat ('0' :: digits)) :
      CharRead quote c ('\\' :: 'u' :: '+' :: digits)

/-- Whether a text is characters between quotes, in some ways, up to a closing quote. -/
def Closed
    (ways : Char → List Char → Prop)
    (quote : Char)
    (rest : List Char) : Prop :=
  ∃ values pieces more,
    List.Forall₂ ways values pieces ∧ rest = pieces.flatten ++ quote :: more

/-- The start of a code with a sign. -/
def signedCode : List Char :=
  ['\\', 'u', '+']

section Digits

variable {unit value : Nat}
variable {c : Char}
variable {digits text : List Char}

theorem HexDigit.of_hexDigit?
    (h : Text.hexDigit? c = some value) :
    HexDigit value c := by
  have hdigits : ∀ n < 128, ∀ v ∈ Text.hexDigit? (Char.ofNat n),
      v < 16 ∧ (Nat.digitChar v = Char.ofNat n ∨ (Nat.digitChar v).toUpper = Char.ofNat n) := by
    decide +kernel
  have hsmall : c.toNat < 128 := by
    unfold Text.hexDigit? at h
    simp only [Bool.and_eq_true, decide_eq_true_eq] at h
    split at h
    · next hrange =>
        have hupper : c.toNat ≤ 57 := hrange.2
        omega
    · split at h
      · next hrange =>
          have hupper : c.toNat ≤ 102 := hrange.2
          omega
      · split at h
        · next hrange =>
            have hupper : c.toNat ≤ 70 := hrange.2
            omega
        · cases h
  have hc := hdigits c.toNat hsmall value
  rw [Char.ofNat_toNat] at hc
  obtain ⟨hvalue, hlower | hupper⟩ := hc h
  · rw [← hlower]
    exact .lower hvalue
  · rw [← hupper]
    exact .upper hvalue

/-- Whether four characters are read as a code unit: as its digits, or with a sign for a zero. -/
def CodeUnitRead
    (unit : Nat)
    (digits : List Char) : Prop :=
  CodeUnit unit digits ∨ ∃ others, digits = '+' :: others ∧ CodeUnit unit ('0' :: others)

theorem CodeUnit.of_hexNumber?
    {a b c d : Char}
    (h : Text.hexNumber? 0 [a, b, c, d] = some unit) :
    CodeUnit unit [a, b, c, d] := by
  simp only [Text.hexNumber?, Option.bind_eq_some_iff, Option.some.injEq] at h
  obtain ⟨p, hp, q, hq, r, hr, s, hs, rfl⟩ := h
  have hunit : 16 * (16 * (16 * (16 * 0 + p) + q) + r) + s = ((p * 16 + q) * 16 + r) * 16 + s := by
    omega
  rw [hunit]
  exact .digits (.of_hexDigit? hp) (.of_hexDigit? hq) (.of_hexDigit? hr) (.of_hexDigit? hs)

/-- A zero in front does not change the number that digits denote. -/
theorem hexNumber?_zero
    (digits : List Char) :
    Text.hexNumber? 0 ('0' :: digits) = Text.hexNumber? 0 digits :=
  rfl

theorem CodeUnitRead.length_eq
    (h : CodeUnitRead unit digits) :
    digits.length = 4 := by
  rcases h with h | ⟨others, rfl, h⟩
  · exact h.length_eq
  · exact h.length_eq

theorem CodeUnitRead.lt
    (h : CodeUnitRead unit digits) :
    unit < 0x10000 := by
  rcases h with h | ⟨others, -, h⟩
  · exact h.lt
  · exact h.lt

/-- With a sign in front, three digits are left for the number. -/
theorem CodeUnitRead.codeUnit
    (h : CodeUnitRead unit digits)
    (hunit : 0x1000 ≤ unit) :
    CodeUnit unit digits := by
  rcases h with h | ⟨others, -, h⟩
  · exact h
  · cases h with
    | digits ha hb hc hd =>
        have hzero := ha.hexDigit?_eq
        have hq := hb.lt
        have hr := hc.lt
        have hs := hd.lt
        simp [Text.hexDigit?] at hzero
        omega

theorem hexQuad?_of_signed
    (h : CodeUnit unit ('0' :: digits))
    (more : List Char) :
    Lexeme.hexQuad? ('+' :: digits ++ more) = some unit := by
  have hunit := h.hexQuad?_eq []
  cases h
  exact hunit

/-- A code unit is read from four characters, and it is a code unit of these. -/
theorem CodeUnitRead.of_hexQuad?
    (h : Lexeme.hexQuad? text = some unit) :
    ∃ digits more, CodeUnitRead unit digits ∧ text = digits ++ more := by
  unfold Lexeme.hexQuad? at h
  split at h
  · next b c d more =>
      rw [← hexNumber?_zero] at h
      exact ⟨['+', b, c, d], more, Or.inr ⟨_, rfl, .of_hexNumber? h⟩, rfl⟩
  · next a b c d more _ => exact ⟨[a, b, c, d], more, Or.inl (.of_hexNumber? h), rfl⟩
  · cases h

end Digits

section Characters

open Lexeme (codeEscape escape textLiteral readToken)

variable {quote c : Char}
variable {read taken total : Nat}
variable {rest values : List Char}

/-- A character between quotes is read as itself, also from a code with a sign. -/
theorem CharRead.textLiteral_eq
    {piece : List Char}
    (hquote : quote = '\'' ∨ quote = '"')
    (h : CharRead quote c piece)
    (hrest : textLiteral quote (read + piece.length) rest = .ok (values, total)) :
    textLiteral quote read (piece ++ rest) = .ok (c :: values, total) := by
  cases h with
  | written h => exact Lexeme.textLiteral_written hquote h hrest
  | @signed digits h =>
      have hescape := Lexeme.codeEscape_of_hexQuad? (hexQuad?_of_signed h rest)
      rw [← h.length_eq] at hescape
      exact Lexeme.textLiteral_escape hquote hescape hrest

/-- What a code escape takes is the code of its character, or the codes of a pair. -/
theorem CharRead.of_codeEscape
    (h : codeEscape rest = .ok (c, taken)) :
    CharRead quote c ('\\' :: 'u' :: rest.take taken) := by
  unfold codeEscape at h
  split at h
  · cases h
  · next unit hunit =>
      obtain ⟨first, behind, hfirst, rfl⟩ := CodeUnitRead.of_hexQuad? hunit
      have hlength := hfirst.length_eq
      have hbound := hfirst.lt
      split at h
      · next hhigh =>
          simp only [Text.isHighSurrogate, Bool.and_eq_true, decide_eq_true_eq] at hhigh
          rw [← hlength, List.drop_left] at h
          split at h
          · next second =>
              split at h
              · next low hlow =>
                  obtain ⟨digits, more, hdigits, rfl⟩ := CodeUnitRead.of_hexQuad? hlow
                  split at h
                  · next hlow =>
                      simp only [Text.isLowSurrogate, Bool.and_eq_true, decide_eq_true_eq] at hlow
                      obtain ⟨rfl, rfl⟩ := Prod.mk.inj (Except.ok.inj h)
                      have hnumber : (Text.pairedSurrogates unit low).toNat =
                          0x10000 + (unit - 0xD800) * 1024 + (low - 0xDC00) := by
                        have hvalid : Nat.isValidChar
                            (0x10000 + (unit - 0xD800) * 1024 + (low - 0xDC00)) :=
                          Or.inr ⟨by omega, by omega⟩
                        rw [Text.pairedSurrogates, Char.ofNat, dif_pos hvalid]
                        rfl
                      have htake : (first ++ '\\' :: 'u' :: (digits ++ more)).take 10 =
                          first ++ '\\' :: 'u' :: digits := by
                        have htotal : (first ++ '\\' :: 'u' :: digits).length = 10 := by
                          simp [hlength, hdigits.length_eq]
                        rw [← htotal, ← List.cons_append, ← List.cons_append, ← List.append_assoc,
                          List.take_left]
                      rw [htake]
                      refine .written (.pair (by omega) ?_ ?_)
                      · have heq : 0xD800 + ((Text.pairedSurrogates unit low).toNat - 0x10000) /
                            0x400 = unit := by
                          omega
                        rw [heq]
                        exact hfirst.codeUnit (by omega)
                      · have heq : 0xDC00 + ((Text.pairedSurrogates unit low).toNat - 0x10000) %
                            0x400 = low := by
                          omega
                        rw [heq]
                        exact hdigits.codeUnit (by omega)
                  · cases h
              · cases h
          · cases h
      · next hhigh =>
          simp only [Text.isHighSurrogate, Bool.and_eq_true, decide_eq_true_eq, not_and,
            Nat.not_le] at hhigh
          split at h
          · cases h
          · next hlow =>
              simp only [Text.isLowSurrogate, Bool.and_eq_true, decide_eq_true_eq, not_and,
                Nat.not_le] at hlow
              obtain ⟨rfl, rfl⟩ := Prod.mk.inj (Except.ok.inj h)
              have hnumber : (Char.ofNat unit).toNat = unit := by
                have hvalid : unit.isValidChar := by
                  by_cases hbelow : unit < 0xD800
                  · exact Or.inl hbelow
                  · exact Or.inr ⟨by omega, by omega⟩
                rw [Char.ofNat, dif_pos hvalid]
                rfl
              rw [← hlength, List.take_left]
              rcases hfirst with hfirst | ⟨others, rfl, hfirst⟩
              · exact .written (.code (by rwa [hnumber]))
              · exact .signed (by rwa [hnumber])

/-- What an escape takes is one of the ways to write its character. -/
theorem CharRead.of_escape
    {e : Char}
    (h : escape e rest = .ok (c, taken)) :
    CharRead quote c ('\\' :: e :: rest.take taken) := by
  unfold escape at h
  split at h
  case h_10 => exact .of_codeEscape h
  case h_11 => cases h
  all_goals
    obtain ⟨rfl, rfl⟩ := Prod.mk.inj (Except.ok.inj h)
    exact .written (.short (by decide))

/-- A literal that is read is characters in the ways in which they are read, and a quote. -/
theorem exists_pieces_of_textLiteral
    (h : textLiteral quote read rest = .ok (values, total)) :
    ∃ pieces more,
      List.Forall₂ (CharRead quote) values pieces ∧ rest = pieces.flatten ++ quote :: more := by
  fun_induction textLiteral quote read rest generalizing values total with
  | case2 read after =>
      obtain ⟨rfl, -⟩ := Prod.mk.inj (Except.ok.inj h)
      exact ⟨[], after, .nil, rfl⟩
  | case5 read e after value taken hvalue others length hothers hne ih =>
      obtain ⟨rfl, -⟩ := Prod.mk.inj (Except.ok.inj h)
      obtain ⟨pieces, more, hpieces, hsplit⟩ := ih hothers
      refine ⟨('\\' :: e :: after.take taken) :: pieces, more, .cons (.of_escape hvalue) hpieces, ?_⟩
      rw [List.flatten_cons, List.append_assoc, ← hsplit, List.cons_append, List.cons_append,
        List.take_append_drop]
  | case7 read c after hquote hescape others length hothers ih =>
      obtain ⟨rfl, -⟩ := Prod.mk.inj (Except.ok.inj h)
      obtain ⟨pieces, more, hpieces, hsplit⟩ := ih hothers
      exact ⟨[c] :: pieces, more, .cons (.written (.raw hquote hescape)) hpieces,
        by rw [hsplit]; rfl⟩
  | _ => cases h

/-- No hexadecimal digit is a sign. -/
theorem not_codeUnit_sign
    {unit : Nat}
    {digits : List Char} :
    ¬ CodeUnit unit ('+' :: digits) := by
  rintro ⟨⟩
  rename_i hsign
  have hdigit := hsign.hexDigit?_eq
  cases hdigit

/-- No way to write a character starts as a code with a sign, whatever stands behind it. -/
theorem not_prefix_of_charWritten
    {piece : List Char}
    (h : CharWritten quote c piece)
    (more : List Char) :
    ¬ signedCode <+: piece ++ more := by
  have hdigits {unit : Nat} {digits behind : List Char} (hunit : CodeUnit unit digits) :
      ¬ ['+'] <+: digits ++ behind := by
    obtain ⟨d, others, rfl⟩ : ∃ d others, digits = d :: others :=
      List.exists_cons_of_length_pos (by rw [hunit.length_eq]; decide)
    intro hsign
    obtain ⟨rfl, -⟩ := List.cons_prefix_cons.1 hsign
    exact not_codeUnit_sign hunit
  intro hsign
  cases h with
  | raw _ hescape => exact hescape (List.cons_prefix_cons.1 hsign).1.symm
  | short hletter =>
      obtain ⟨rfl, -⟩ := List.cons_prefix_cons.1 (List.cons_prefix_cons.1 hsign).2
      simp [shortEscapes] at hletter
  | code hcode => exact hdigits hcode (List.cons_prefix_cons.1 (List.cons_prefix_cons.1 hsign).2).2
  | pair _ hhigh _ =>
      rw [List.cons_append, List.cons_append, List.append_assoc] at hsign
      exact hdigits hhigh (List.cons_prefix_cons.1 (List.cons_prefix_cons.1 hsign).2).2

/-- A piece is a way to write its character exactly if it is no code with a sign. -/
theorem CharRead.charWritten_iff
    {piece : List Char}
    (h : CharRead quote c piece) :
    CharWritten quote c piece ↔ ¬ signedCode <+: piece := by
  constructor
  · intro hwritten
    have hprefix := not_prefix_of_charWritten hwritten []
    rwa [List.append_nil] at hprefix
  · intro hsign
    cases h with
    | written h => exact h
    | signed h => exact absurd ⟨_, rfl⟩ hsign

theorem forall₂_charWritten_iff
    {pieces : List (List Char)} :
    List.Forall₂ (CharWritten quote) values pieces ↔
      List.Forall₂ (CharRead quote) values pieces ∧ ∀ piece ∈ pieces, ¬ signedCode <+: piece := by
  constructor
  · intro h
    refine ⟨h.imp fun _ _ => .written, ?_⟩
    induction h with
    | nil => simp
    | cons hpiece _ ih =>
        exact List.forall_mem_cons.2 ⟨(CharRead.written hpiece).charWritten_iff.1 hpiece, ih⟩
  · rintro ⟨h, hsign⟩
    induction h with
    | nil => exact .nil
    | cons hpiece _ ih =>
        obtain ⟨hfirst, hothers⟩ := List.forall_mem_cons.1 hsign
        exact .cons (hpiece.charWritten_iff.2 hfirst) (ih hothers)

/-- A literal is read exactly if it is closed, and then as the characters of its pieces. -/
theorem readToken_quote
    {pieces : List (List Char)}
    {more : List Char}
    (hquote : quote = '\'' ∨ quote = '"')
    (hpieces : List.Forall₂ (CharRead quote) values pieces) :
    readToken quote (pieces.flatten ++ quote :: more) =
      .ok (.text (String.ofList values), pieces.flatten.length + 1) := by
  have hread := Lexeme.textLiteral_flatten
    (fun hpiece hrest => CharRead.textLiteral_eq hquote hpiece hrest) hpieces 0 more
  rw [Lexeme.readToken_of_textLiteral hquote hread, Nat.zero_add]

/-- Whether a quoted body is read as a literal does not depend on what stands behind it. -/
theorem readToken_quotedBody
    {body more : List Char}
    (hquote : quote = '\'' ∨ quote = '"')
    (hbody : Path.QuotedBody quote body)
    (h : textLiteral quote 0 (body ++ quote :: more) = .ok (values, total))
    (other : List Char) :
    readToken quote (body ++ quote :: other) =
      .ok (.text (String.ofList values), body.length + 1) := by
  obtain ⟨pieces, behind, hpieces, hsplit⟩ := exists_pieces_of_textLiteral h
  have hread := Lexeme.textLiteral_flatten
    (fun hpiece hrest => CharRead.textLiteral_eq hquote hpiece hrest) hpieces 0 behind
  rw [← hsplit, h] at hread
  obtain ⟨-, htotal⟩ := Prod.mk.inj (Except.ok.inj hread)
  obtain ⟨found, after, hfound, hlength, hquoted, -⟩ := Lexeme.textLiteral_eq_ok hquote h
  have hsame := hbody.append_inj (Path.ne_backslash_of_quote hquote) hquoted hfound
  obtain ⟨rfl, -⟩ := List.append_inj hsplit (by rw [hsame]; omega)
  exact readToken_quote hquote hpieces

theorem closed_of_readToken
    {token : Token}
    (hquote : quote = '\'' ∨ quote = '"')
    (h : readToken quote rest = .ok (token, taken)) :
    Closed (CharRead quote) quote rest := by
  unfold Lexeme.readToken at h
  rw [if_pos (by simpa using hquote)] at h
  split at h
  · next hliteral =>
      obtain ⟨pieces, more, hpieces, hsplit⟩ := exists_pieces_of_textLiteral hliteral
      exact ⟨_, pieces, more, hpieces, hsplit⟩
  · cases h

/--
Behind any lexemes, a literal is read exactly if it is characters in the ways in
which they are read and a closing quote, and it has the lexeme of these characters.
Any other text with a quote there is no query. The characters are written in the
ways of the grammar exactly if no code among them has a sign.
-/
theorem closed_iff_readToken
    {front : List Char}
    {before : List Lexeme}
    (hquote : quote = '\'' ∨ quote = '"')
    (hfront : Lexeme.ofText 0 front = .ok before)
    (rest : List Char) :
    ((∃ token taken, readToken quote rest = .ok (token, taken)) ↔
        Closed (CharRead quote) quote rest) ∧
      (∀ values pieces more,
        List.Forall₂ (CharRead quote) values pieces →
        rest = pieces.flatten ++ quote :: more →
        Lexeme.ofText 0 (front ++ quote :: rest) =
          (Lexeme.ofText (front.length + (pieces.flatten.length + 2)) more).map fun behind =>
            before ++ ⟨.text (String.ofList values), front.length,
              front.length + (pieces.flatten.length + 2)⟩ :: behind) ∧
      (¬ Closed (CharRead quote) quote rest →
        ∃ fault place,
          Lexeme.ofText 0 (front ++ quote :: rest) = .error (fault, place) ∧
          ∃ error,
            compile (String.ofList (front ++ quote :: rest)) = .error error ∧
            error.kind = .invalidPath) ∧
      (Closed (CharWritten quote) quote rest ↔
        ∃ values pieces more,
          List.Forall₂ (CharRead quote) values pieces ∧
          rest = pieces.flatten ++ quote :: more ∧
          ∀ piece ∈ pieces, ¬ signedCode <+: piece) := by
  have hblank := Lexeme.isAsciiBlank_of_quote hquote
  have hjoined := Lexeme.ofText_append hfront (Lexeme.separate_quote hquote front rest)
  rw [Nat.zero_add] at hjoined
  have hread (values pieces more) (hpieces : List.Forall₂ (CharRead quote) values pieces)
      (hsplit : rest = pieces.flatten ++ quote :: more) :
      readToken quote rest = .ok (.text (String.ofList values), pieces.flatten.length + 1) := by
    rw [hsplit]
    exact readToken_quote hquote hpieces
  have hiff : (∃ token taken, readToken quote rest = .ok (token, taken)) ↔
      Closed (CharRead quote) quote rest := by
    constructor
    · rintro ⟨token, taken, htoken⟩
      exact closed_of_readToken hquote htoken
    · rintro ⟨values, pieces, more, hpieces, hsplit⟩
      exact ⟨_, _, hread values pieces more hpieces hsplit⟩
  refine ⟨hiff, ?_, ?_, ?_⟩
  · intro values pieces more hpieces hsplit
    have hlength : front.length + 1 + (pieces.flatten.length + 1) =
        front.length + (pieces.flatten.length + 2) := by
      omega
    have hdrop : rest.drop (pieces.flatten.length + 1) = more := by
      rw [hsplit, Lexeme.drop_behind]
    rw [hjoined, Lexeme.ofText_token hblank (hread values pieces more hpieces hsplit), hlength,
      hdrop]
    cases Lexeme.ofText (front.length + (pieces.flatten.length + 2)) more <;> rfl
  · intro hclosed
    cases htoken : readToken quote rest with
    | ok result => exact absurd (hiff.1 ⟨_, _, htoken⟩) hclosed
    | error failure =>
        obtain ⟨fault, offset⟩ := failure
        have hfault : Lexeme.ofText 0 (front ++ quote :: rest) =
            .error (fault, front.length + offset) := by
          rw [hjoined, Lexeme.ofText, if_neg (by rw [hblank]; decide), htoken]
          rfl
        refine ⟨fault, _, hfault, ?_⟩
        rw [compile, Token.ofText, String.toList_ofList, hfault]
        cases badStart? (front ++ quote :: rest) with
        | none => exact ⟨_, rfl, rfl⟩
        | some start => exact ⟨_, rfl, rfl⟩
  · constructor
    · rintro ⟨values, pieces, more, hpieces, hsplit⟩
      obtain ⟨hreads, hsign⟩ := forall₂_charWritten_iff.1 hpieces
      exact ⟨values, pieces, more, hreads, hsplit, hsign⟩
    · rintro ⟨values, pieces, more, hreads, hsplit, hsign⟩
      exact ⟨values, pieces, more, forall₂_charWritten_iff.2 ⟨hreads, hsign⟩, hsplit⟩

/-- A character of the second plane by its two codes, and a line break. -/
theorem closed_iff_readToken_pair :
    Closed (CharWritten '\'') '\'' "\\ud83D\\uDe00\\n']".toList ∧
      Lexeme.ofText 0 "$['\\ud83D\\uDe00\\n']".toList =
        .ok [⟨.root, 0, 1⟩, ⟨.openBracket, 1, 2⟩, ⟨.text "😀\n", 2, 18⟩, ⟨.closeBracket, 18, 19⟩] ∧
      ¬ Closed (CharRead '\'') '\'' "\\ud83D']".toList ∧
      ∃ error, compile "$['\\ud83D']" = .error error ∧ error.kind = .invalidPath := by
  have hfront : Lexeme.ofText 0 "$[".toList = .ok [⟨.root, 0, 1⟩, ⟨.openBracket, 1, 2⟩] := by
    decide +kernel
  have hhigh : CodeUnit (0xD800 + ('😀'.toNat - 0x10000) / 0x400) ['d', '8', '3', 'D'] :=
    .of_hexNumber? rfl
  have hlow : CodeUnit (0xDC00 + ('😀'.toNat - 0x10000) % 0x400) ['D', 'e', '0', '0'] :=
    .of_hexNumber? rfl
  have hpieces : List.Forall₂ (CharWritten '\'') ['😀', '\n']
      ["\\ud83D\\uDe00".toList, "\\n".toList] :=
    .cons (.pair (by decide) hhigh hlow) (.cons (@CharWritten.short _ 'n' _ (by decide)) .nil)
  obtain ⟨-, hread, -⟩ :=
    closed_iff_readToken (Or.inl rfl) hfront "\\ud83D\\uDe00\\n']".toList
  obtain ⟨hiff, -, hother, -⟩ := closed_iff_readToken (Or.inl rfl) hfront "\\ud83D']".toList
  have hwhole := hread _ _ [']'] (hpieces.imp fun _ _ => .written) rfl
  have hclosing : Lexeme.ofText 18 [']'] = .ok [⟨.closeBracket, 18, 19⟩] := by decide +kernel
  have hlone : ¬ Closed (CharRead '\'') '\'' "\\ud83D']".toList := by
    rw [← hiff]
    rintro ⟨token, taken, htoken⟩
    have hfault : readToken '\'' "\\ud83D']".toList = .error (.loneHighSurrogate, 2) := by decide +kernel
    rw [hfault] at htoken
    cases htoken
  obtain ⟨-, -, -, herror⟩ := hother hlone
  exact ⟨⟨_, _, _, hpieces, rfl⟩, hwhole.trans (by decide +kernel), hlone, herror⟩

/-- The code with a sign is no way to write a character, and it is read as a letter. -/
theorem compile_signedCode :
    (¬ Closed (CharWritten '\'') '\'' "\\u+041']".toList) ∧
      compile "$['\\u+041']" =
        .ok ⟨⟨[.choose (.access (.key "A"))], none⟩, "$['\\u+041']"⟩ := by
  refine ⟨?_, by decide +kernel⟩
  rintro ⟨values, pieces, more, hpieces, hsplit⟩
  cases hpieces with
  | nil => cases hsplit
  | cons hpiece _ =>
      rw [List.flatten_cons, List.append_assoc] at hsplit
      have hsign : signedCode <+: "\\u+041']".toList := ⟨"041']".toList, rfl⟩
      rw [hsplit] at hsign
      exact not_prefix_of_charWritten hpiece _ hsign

end Characters

end Query
end FieldQuery
