import TaggedUnion.Decimal.Double

/-!
# Decimal layout

The digits of a number do not yet say how it is written. A `Layout` holds those choices, and
`Layout.render` writes a double by them: its shortest decimal either in full, with at least one
digit on each side of the point, or as one digit, the rest behind a point, and a power of ten.
-/

namespace TaggedUnion.Decimal

/-- The choices that turn the shortest decimal of a number into text. -/
structure Layout where
  /-- The least power of ten of a first digit that is written in full. -/
  leastPlain : Int
  /-- The greatest power of ten of a first digit that is written in full. -/
  greatestPlain : Int
  /-- What stands between the digits and the power of ten. -/
  exponentMark : String
  infinity : String
  notANumber : String

/-- The power of ten of the first of `digits`, the last of which stands for `10 ^ exponent`. -/
def leadingExponent (digits : List Char) (exponent : Int) : Int :=
  exponent + digits.length - 1

/-- The digits in full, given how many of them stand before the point. -/
def plain (digits : List Char) (before : Int) : List Char :=
  if before ≤ 0 then
    '0' :: '.' :: List.replicate (-before).toNat '0' ++ digits
  else
    let whole := digits.take before.toNat
    let rest := digits.drop before.toNat
    whole ++ List.replicate (before.toNat - whole.length) '0'
      ++ '.' :: if rest.isEmpty then ['0'] else rest

/-- The first digit, and behind a point those that follow it. -/
def scientific : List Char → List Char
  | [] => []
  | [d] => [d]
  | d :: ds => d :: '.' :: ds

/-- A positive decimal without sign. -/
def Layout.renderDecimal (l : Layout) (d : GridPoint) : String :=
  let digits := Nat.toDigits 10 d.coefficient
  let lead := leadingExponent digits d.exponent
  if l.leastPlain ≤ lead ∧ lead ≤ l.greatestPlain then
    String.ofList (plain digits (lead + 1))
  else
    String.ofList (scientific digits) ++ l.exponentMark ++ toString lead

/-- A minus sign for a negative number, and none for a positive one. -/
def signed (negative : Bool) (text : String) : String :=
  if negative then "-" ++ text else text

/-- The text of a double. Zero keeps its sign, NaN has none. -/
def Layout.render (l : Layout) (x : Double) : String :=
  match x with
  | .nan => l.notANumber
  | .infinite negative => signed negative l.infinity
  | .zero negative => signed negative (String.ofList (plain ['0'] 1))
  | .finite negative magnitude => signed negative (l.renderDecimal magnitude.shortest)

end TaggedUnion.Decimal
