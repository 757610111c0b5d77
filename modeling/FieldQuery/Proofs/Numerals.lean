import Mathlib.Data.List.TakeWhile
import FieldQuery.Proofs.Joining

/-!
# Numerals

A numeral is an optional minus, digits, and optionally a point with further
digits. Its whole part may be a zero but may not start with one. A numeral with a
point is a decimal of any sign and size. One without is an integer, which has
to fit 64 bits and may not be minus zero.

Numerals are read by this grammar but for one kind. The sign and the whole part
are judged before it is known whether a point follows, so a negative decimal
whose whole part is zero is refused as if it were minus zero.
-/

namespace FieldQuery
namespace Query

open Lexeme (signText continuesWord)

/-- An optional minus, digits, and the digits behind a point, of which there may be none. -/
structure Numeral where
  negative : Bool
  whole : List Char
  fraction : List Char
  whole_ne_nil : whole ≠ []
  isDigit_of_mem_whole : ∀ c ∈ whole, c.isDigit = true
  isDigit_of_mem_fraction : ∀ c ∈ fraction, c.isDigit = true

namespace Numeral

/-- The point and the digits behind it, if there are any. -/
def pointText
    (numeral : Numeral) :
    List Char :=
  if numeral.fraction.isEmpty then
    []
  else
    '.' :: numeral.fraction

/-- The characters of a numeral. -/
def text
    (numeral : Numeral) :
    List Char :=
  signText numeral.negative ++ numeral.whole ++ numeral.pointText

/-- The integer that the sign and the whole part denote. -/
def integer
    (numeral : Numeral) :
    Int :=
  if numeral.negative then
    -(Integer64.ofDigits numeral.whole : Int)
  else
    Integer64.ofDigits numeral.whole

/-- The token of a numeral: its integer, or the float nearest to its decimal. -/
def token
    (numeral : Numeral) :
    Token :=
  if numeral.fraction.isEmpty then
    .integer numeral.integer
  else
    .float (Binary64.nearest numeral.negative
      (.decimal (Integer64.ofDigits (numeral.whole ++ numeral.fraction))
        (-numeral.fraction.length)))

/-- Whether the sign and the whole part are minus zero. -/
def startsMinusZero
    (numeral : Numeral) :
    Bool :=
  numeral.negative && numeral.whole = ['0']

/-- Whether a numeral follows the grammar of integers and decimals. -/
structure IsGrammatical
    (numeral : Numeral) : Prop where
  zero : numeral.whole.head? = some '0' → numeral.whole = ['0']
  kind :
    numeral.fraction ≠ [] ∨
      Integer64.isSigned numeral.integer = true ∧ numeral.startsMinusZero = false

/-- Whether a text does not go on with characters that could belong to a numeral in front of it. -/
structure EndsBefore
    (numeral : Numeral)
    (more : List Char) : Prop where
  digit : ∀ c ∈ more.head?, c.isDigit = false
  point :
    numeral.fraction = [] →
      ∀ c rest, more = '.' :: c :: rest → c.isDigit = false

variable {numeral : Numeral}
variable {more : List Char}

theorem EndsBefore.fractionDigits_eq
    (h : numeral.EndsBefore more) :
    Lexeme.fractionDigits (numeral.pointText ++ more) = numeral.fraction := by
  rw [pointText]
  split
  · next hempty =>
      have hnil : numeral.fraction = [] := by simpa using hempty
      rw [List.nil_append, hnil]
      unfold Lexeme.fractionDigits
      split
      · next rest =>
          cases rest with
          | nil => rfl
          | cons c rest => simp [h.point hnil c rest rfl]
      · rfl
  · have htake := @Lexeme.takeWhile_append_of_stop Char.isDigit numeral.fraction more
      fun _ => h.digit
    rw [List.cons_append, Lexeme.fractionDigits, htake.1, List.takeWhile_eq_self_iff]
    exact numeral.isDigit_of_mem_fraction

theorem ofSignedDigits?_whole
    (numeral : Numeral) :
    Integer64.ofSignedDigits? numeral.negative numeral.whole =
      if Integer64.isSigned numeral.integer then some numeral.integer else none := by
  have hempty : numeral.whole.isEmpty = false := by
    simpa using numeral.whole_ne_nil
  have hall : numeral.whole.all Char.isDigit = true :=
    List.all_eq_true.2 numeral.isDigit_of_mem_whole
  rw [Integer64.ofSignedDigits?, hempty, hall]
  rfl

theorem length_text
    (numeral : Numeral) :
    numeral.text.length =
      (if numeral.negative then 1 else 0) + numeral.whole.length + numeral.pointText.length := by
  rw [text, List.length_append, List.length_append, signText]
  split <;> rfl

/-- A numeral is read by its parts, whatever stands behind its end. -/
theorem numberLiteral_text
    {c : Char}
    {rest : List Char}
    (hsplit : c :: rest = numeral.text ++ more)
    (hends : numeral.EndsBefore more) :
    Lexeme.numberLiteral c rest =
      if 1 < numeral.whole.length && numeral.whole.head? = some '0' then
        .error (.leadingZero, if numeral.negative then 1 else 0)
      else if numeral.startsMinusZero then
        .error (.negativeZero, 0)
      else if numeral.fraction.isEmpty && !Integer64.isSigned numeral.integer then
        .error (.integerRange, 0)
      else
        .ok (numeral.token, numeral.text.length - 1) := by
  have hsign : decide (c = '-') = numeral.negative ∧
      (if c = '-' then rest else c :: rest) = numeral.whole ++ (numeral.pointText ++ more) := by
    rw [text, List.append_assoc, List.append_assoc, signText] at hsplit
    cases hnegative : numeral.negative with
    | true =>
        rw [hnegative] at hsplit
        obtain ⟨rfl, rfl⟩ := List.cons.inj hsplit
        exact ⟨rfl, rfl⟩
    | false =>
        rw [hnegative] at hsplit
        have hbody : c :: rest = numeral.whole ++ (numeral.pointText ++ more) := hsplit
        have hc : c ≠ '-' := by
          rintro rfl
          obtain ⟨d, digits, hwhole⟩ := List.exists_cons_of_ne_nil numeral.whole_ne_nil
          have hd := numeral.isDigit_of_mem_whole d (by rw [hwhole]; exact List.mem_cons_self)
          rw [hwhole, List.cons_append] at hbody
          rw [← (List.cons.inj hbody).1] at hd
          exact absurd hd (by decide)
        exact ⟨decide_eq_false hc, by rw [if_neg hc, hbody]⟩
  have hpoint : ∀ e ∈ (numeral.pointText ++ more).head?, e.isDigit = false := by
    rw [pointText]
    split
    · exact hends.digit
    · rintro _ ⟨⟩
      rfl
  obtain ⟨htake, hdrop⟩ := @Lexeme.takeWhile_append_of_stop Char.isDigit numeral.whole
    (numeral.pointText ++ more) fun _ => hpoint
  rw [List.takeWhile_eq_self_iff.2 numeral.isDigit_of_mem_whole] at htake
  rw [List.dropWhile_eq_nil_iff.2 numeral.isDigit_of_mem_whole, List.nil_append] at hdrop
  have hempty : numeral.whole.isEmpty = false := by
    simpa using numeral.whole_ne_nil
  have hwidth : (if c = '-' then 1 else 0) = if numeral.negative then 1 else 0 := by
    rw [← hsign.1]
    simp
  simp only [Lexeme.numberLiteral, hsign.1, hsign.2, htake, hdrop, hempty, hwidth,
    hends.fractionDigits_eq, ofSignedDigits?_whole, Bool.false_eq_true, if_false]
  rw [← startsMinusZero, length_text, pointText, token]
  split
  · rfl
  · split
    · rfl
    · cases hfraction : numeral.fraction.isEmpty with
      | true =>
          cases hsigned : Integer64.isSigned numeral.integer with
          | true => rfl
          | false => rfl
      | false =>
          simp only [Bool.false_eq_true, if_false, Bool.false_and, List.length_cons]
          rfl

/-- A whole part has no needless zero in front exactly if it starts with none or is a zero. -/
theorem needlessZero_eq_false_iff
    (numeral : Numeral) :
    (1 < numeral.whole.length && numeral.whole.head? = some '0') = false ↔
      (numeral.whole.head? = some '0' → numeral.whole = ['0']) := by
  obtain ⟨d, digits, hwhole⟩ := List.exists_cons_of_ne_nil numeral.whole_ne_nil
  rw [hwhole]
  cases digits <;> simp

/-- What the grammar asks of the kind of a numeral that does not start with minus zero. -/
theorem isGrammatical_iff
    (h : numeral.startsMinusZero = false) :
    numeral.IsGrammatical ↔
      (1 < numeral.whole.length && numeral.whole.head? = some '0') = false ∧
        (numeral.fraction.isEmpty && !Integer64.isSigned numeral.integer) = false := by
  rw [needlessZero_eq_false_iff]
  constructor
  · rintro ⟨hzero, hfraction | ⟨hsigned, -⟩⟩
    · exact ⟨hzero, by simp [hfraction]⟩
    · exact ⟨hzero, by simp [hsigned]⟩
  · rintro ⟨hzero, hkind⟩
    refine ⟨hzero, ?_⟩
    by_cases hfraction : numeral.fraction = []
    · exact Or.inr ⟨by simpa [hfraction] using hkind, h⟩
    · exact Or.inl hfraction

/-- The token of a numeral that is read, or a fault that shows inside the numeral. -/
theorem numberLiteral_cases
    {c : Char}
    {rest : List Char}
    (hsplit : c :: rest = numeral.text ++ more)
    (hends : numeral.EndsBefore more) :
    ((numeral.IsGrammatical ∧ numeral.startsMinusZero = false) ∧
        Lexeme.numberLiteral c rest = .ok (numeral.token, numeral.text.length - 1)) ∨
      (¬ (numeral.IsGrammatical ∧ numeral.startsMinusZero = false) ∧
        ∃ fault offset,
          Lexeme.numberLiteral c rest = .error (fault, offset) ∧
          offset < numeral.text.length) := by
  have hwhole := List.length_pos_iff.2 numeral.whole_ne_nil
  have hlength := numeral.length_text
  rw [numberLiteral_text hsplit hends]
  cases hminus : numeral.startsMinusZero with
  | true =>
      refine Or.inr ⟨by simp, ?_⟩
      split
      · refine ⟨_, _, rfl, ?_⟩
        rw [hlength]
        omega
      · exact ⟨_, _, rfl, by rw [hlength]; omega⟩
  | false =>
      rw [isGrammatical_iff hminus, if_neg Bool.false_ne_true]
      split
      · next hzero =>
          refine Or.inr ⟨by simp [hzero], _, _, rfl, ?_⟩
          rw [hlength]
          omega
      · next hzero =>
          rw [Bool.not_eq_true] at hzero
          split
          · next hrange =>
              exact Or.inr ⟨by simp [hrange], _, _, rfl, by rw [hlength]; omega⟩
          · next hrange =>
              rw [Bool.not_eq_true] at hrange
              exact Or.inl ⟨⟨⟨hzero, hrange⟩, rfl⟩, rfl⟩

theorem exists_text_eq_cons
    (numeral : Numeral) :
    ∃ c rest, numeral.text = c :: rest ∧ (c.isDigit = true ∨ c = '-') := by
  obtain ⟨d, digits, hwhole⟩ := List.exists_cons_of_ne_nil numeral.whole_ne_nil
  have hd := numeral.isDigit_of_mem_whole d (by rw [hwhole]; exact List.mem_cons_self)
  rw [text, hwhole, signText]
  cases numeral.negative with
  | true => exact ⟨'-', _, rfl, Or.inr rfl⟩
  | false => exact ⟨d, _, rfl, Or.inl hd⟩

/-- A numeral is separate from what ends with neither a word character nor a dot. -/
theorem separate_text
    {front : List Char}
    (hfront : ∀ c ∈ front.getLast?, continuesWord c = false ∧ c ≠ '.')
    (numeral : Numeral)
    (more : List Char) :
    Lexeme.Separate front (numeral.text ++ more) := by
  intro d hd e he
  obtain ⟨c, rest, htext, hc⟩ := numeral.exists_text_eq_cons
  rw [htext] at he
  obtain rfl := Option.some.inj he
  refine ⟨?_, ?_, fun _ => hfront d hd⟩
  · rintro rfl
    simp at hc
  · intro hmem
    simp only [Lexeme.operatorCharacters, List.mem_cons, List.not_mem_nil, or_false] at hmem
    rcases hmem with rfl | rfl | rfl | rfl | rfl | rfl <;> simp at hc

/--
A numeral between characters that could not belong to it is read exactly if it
follows the grammar and its sign and whole part are not minus zero. It then has
a lexeme of its own, and without a point the token of this lexeme is its integer.
-/
theorem getsPast_text_iff
    {front more : List Char}
    {before : List Lexeme}
    (numeral : Numeral)
    (hfront : Lexeme.ofText 0 front = .ok before)
    (hlast : ∀ c ∈ front.getLast?, continuesWord c = false ∧ c ≠ '.')
    (hends : numeral.EndsBefore more) :
    (Lexeme.GetsPast (front ++ (numeral.text ++ more)) (front.length + numeral.text.length) ↔
        numeral.IsGrammatical ∧ numeral.startsMinusZero = false) ∧
      (numeral.IsGrammatical ∧ numeral.startsMinusZero = false →
        Lexeme.ofText 0 (front ++ (numeral.text ++ more)) =
          (Lexeme.ofText (front.length + numeral.text.length) more).map fun behind =>
            before ++
              ⟨numeral.token, front.length, front.length + numeral.text.length⟩ :: behind) ∧
      (numeral.fraction = [] → numeral.token = .integer numeral.integer) := by
  obtain ⟨c, rest, htext, hc⟩ := numeral.exists_text_eq_cons
  have hjoined := Lexeme.ofText_append hfront (separate_text hlast numeral more)
  have hsplit : c :: (rest ++ more) = numeral.text ++ more := by rw [htext]; rfl
  obtain ⟨hblank, hnumber⟩ := Lexeme.readToken_number (rest ++ more) hc
  rw [Nat.zero_add] at hjoined
  have hinteger : numeral.fraction = [] → numeral.token = .integer numeral.integer := by
    intro hfraction
    rw [token, hfraction]
    rfl
  rcases numberLiteral_cases hsplit hends with ⟨hread, hnumeral⟩ | ⟨hread, fault, offset, hfault, hoffset⟩
  · have hlexeme : Lexeme.ofText front.length (numeral.text ++ more) =
        (Lexeme.ofText (front.length + numeral.text.length) more).map
          (⟨numeral.token, front.length, front.length + numeral.text.length⟩ :: ·) := by
      have hlength : front.length + 1 + (numeral.text.length - 1) =
          front.length + numeral.text.length := by
        rw [htext, List.length_cons]
        omega
      have hdrop : (rest ++ more).drop (numeral.text.length - 1) = more := by
        rw [htext]
        exact List.drop_left
      rw [← hsplit, Lexeme.ofText_token hblank (hnumber.trans hnumeral), hlength, hdrop]
    have hwhole : Lexeme.ofText 0 (front ++ (numeral.text ++ more)) =
        (Lexeme.ofText (front.length + numeral.text.length) more).map fun behind =>
          before ++
            ⟨numeral.token, front.length, front.length + numeral.text.length⟩ :: behind := by
      rw [hjoined, hlexeme]
      cases Lexeme.ofText (front.length + numeral.text.length) more <;> rfl
    refine ⟨iff_of_true ?_ hread, fun _ => hwhole, hinteger⟩
    intro fault place herror
    rw [hwhole] at herror
    cases hmore : Lexeme.ofText (front.length + numeral.text.length) more with
    | ok behind =>
        rw [hmore] at herror
        cases herror
    | error failure =>
        rw [hmore] at herror
        obtain rfl := Except.error.inj herror
        exact Lexeme.le_of_ofText_eq_error hmore
  · refine ⟨iff_of_false ?_ hread, fun h => absurd h hread, hinteger⟩
    intro hpast
    have hlexeme : Lexeme.ofText front.length (numeral.text ++ more) =
        .error (fault, front.length + offset) := by
      rw [← hsplit, Lexeme.ofText, if_neg (by rw [hblank]; decide), hnumber, hfault]
    rw [hlexeme] at hjoined
    have hplace := hpast fault (front.length + offset) hjoined
    omega

/-- The least integer of 64 bits. -/
def leastInteger : Numeral :=
  ⟨true, "9223372036854775808".toList, [], by decide,
    List.all_eq_true.1 (by decide +kernel), by simp⟩

/-- As an index, it is read up to a dot that no digit follows. -/
theorem getsPast_text_iff_leastInteger :
    leastInteger.EndsBefore ".a]".toList ∧
      leastInteger.IsGrammatical ∧
      Lexeme.GetsPast "$[-9223372036854775808.a]".toList 22 ∧
      Lexeme.ofText 0 "$[-9223372036854775808.a]".toList =
        (Lexeme.ofText 22 ".a]".toList).map fun behind =>
          ⟨.root, 0, 1⟩ :: ⟨.openBracket, 1, 2⟩ ::
            ⟨.integer (-9223372036854775808), 2, 22⟩ :: behind := by
  have hfront : Lexeme.ofText 0 "$[".toList = .ok [⟨.root, 0, 1⟩, ⟨.openBracket, 1, 2⟩] := by
    decide +kernel
  have hlast : ∀ c ∈ "$[".toList.getLast?, continuesWord c = false ∧ c ≠ '.' := by
    rintro _ ⟨⟩
    exact ⟨by decide +kernel, by decide⟩
  have hends : leastInteger.EndsBefore ".a]".toList := by
    refine ⟨?_, ?_⟩
    · rintro _ ⟨⟩
      rfl
    · rintro - _ _ ⟨⟩
      rfl
  have hgrammar : leastInteger.IsGrammatical := ⟨by decide, Or.inr ⟨by decide, by decide⟩⟩
  obtain ⟨hiff, hread, htoken⟩ := getsPast_text_iff leastInteger hfront hlast hends
  have hnumeral : leastInteger.IsGrammatical ∧ leastInteger.startsMinusZero = false :=
    ⟨hgrammar, by decide⟩
  have hwhole := hread hnumeral
  rw [htoken rfl] at hwhole
  exact ⟨hends, hgrammar, hiff.2 hnumeral, hwhole⟩

/-- A half below zero. -/
def minusHalf : Numeral :=
  ⟨true, ['0'], ['5'], by decide, by simp, by simp⟩

/-- It follows the grammar, and it is refused as a minus zero. -/
theorem not_getsPast_minusHalf :
    minusHalf.text = "-0.5".toList ∧
      minusHalf.IsGrammatical ∧
      Lexeme.ofText 0 "$[?@.a==-0.5]".toList = .error (.negativeZero, 8) ∧
      ¬ Lexeme.GetsPast "$[?@.a==-0.5]".toList 12 := by
  have hfault : Lexeme.ofText 0 "$[?@.a==-0.5]".toList = .error (.negativeZero, 8) := by
    decide +kernel
  refine ⟨rfl, ⟨fun _ => rfl, Or.inl (by decide)⟩, hfault, ?_⟩
  intro hpast
  exact absurd (hpast _ _ hfault) (by decide)

end Numeral
end Query
end FieldQuery
