import FieldQuery.Decimal.Shortest

/-!
# Layout of decimals

The digits of a float are chosen by `shortest`; a layout says how they are
arranged: which magnitudes are written positionally, whether a whole number
keeps a fraction of zero, and how a tie between two shortest decimals goes.
-/

namespace FieldQuery
namespace Decimal

/-- How the digits of a float are arranged. -/
structure Layout where
  /-- The exponents of the leading digit that are written positionally. -/
  positional : Int → Bool
  /-- Whether a whole number is written with a fraction of zero. -/
  pointZero : Bool
  /-- Whether the upper of two equally near shortest decimals is taken. -/
  tieUp : Bool

/-- Floats of a document: every float shows that it is one. -/
def Layout.document : Layout :=
  { positional := fun exponent => -6 < exponent && exponent < 16
    pointZero := true
    tieUp := false }

/-- Floats inside a message: always positional, as few characters as possible. -/
def Layout.message : Layout :=
  { positional := fun _ => true
    pointZero := false
    tieUp := true }

/-- Digits without the zeros at their end, and how many zeros there were. -/
def stripZeros :
    List Char → List Char × Nat
  | [] => ([], 0)
  | c :: rest =>
      match stripZeros rest with
      | ([], zeros) =>
          if c = '0' then
            ([], zeros + 1)
          else
            ([c], zeros)
      | (kept, zeros) => (c :: kept, zeros)

/-- Digits with a decimal point after the first `whole` of them. -/
def withPoint
    (pointZero : Bool)
    (digits : List Char)
    (whole : Int) :
    List Char :=
  let fraction (rest : List Char) :=
    if rest.isEmpty then
      (if pointZero then ['.', '0'] else [])
    else
      '.' :: rest
  if whole ≤ 0 then
    '0' :: fraction (List.replicate (-whole).toNat '0' ++ digits)
  else
    let padded := digits ++ List.replicate (whole.toNat - digits.length) '0'
    padded.take whole.toNat ++ fraction (padded.drop whole.toNat)

/-- Digits with a decimal point after the first one and an exponent. -/
def withExponent
    (digits : List Char)
    (exponent : Int) :
    List Char :=
  let fraction :=
    match digits.drop 1 with
    | [] => []
    | rest => '.' :: rest
  digits.take 1 ++ fraction ++ 'e' :: (toString exponent).toList

/-- The text of a positive decimal. -/
def Layout.ofDecimal
    (layout : Layout)
    (d : Decimal) :
    List Char :=
  let (digits, zeros) := stripZeros (Nat.toDigits 10 d.digits)
  let whole := digits.length + d.scale + zeros
  if layout.positional (whole - 1) then
    withPoint layout.pointZero digits whole
  else
    withExponent digits (whole - 1)

/-- The text of a float. -/
def Layout.render
    (layout : Layout)
    (x : Binary64) :
    String :=
  let sign := if x.negative then ['-'] else []
  let body :=
    if x.isInfinite then
      ['i', 'n', 'f']
    else if x.rank = 0 then
      withPoint layout.pointZero [] 0
    else
      layout.ofDecimal (shortest layout.tieUp x)
  String.ofList (sign ++ body)

end Decimal
end FieldQuery
