/-!
# The shortest decimal of a binary number

A floating-point number stands for every real that rounds to it. Of the decimals among those reals
`Binary.shortest` picks one on the coarsest grid `10 ^ e` that has any, and on that grid the one
nearest to the number, the larger of two that are equally near. All arithmetic is exact, on `Nat`.
-/

namespace TaggedUnion.Decimal

/-- The positive number `mantissa * 2 ^ exponent`, as a member of a binary floating-point format. -/
structure Binary where
  mantissa : Nat
  exponent : Int
  /-- The next smaller number of the format is only half as far away as the next larger one. -/
  narrowBelow : Bool

/-- The number `coefficient * 10 ^ exponent`, a point of the decimal grid of that exponent. -/
structure GridPoint where
  coefficient : Nat
  exponent : Int

/-- A binary number and the ends of its rounding interval, over one denominator: the true sizes, in
units of some decimal grid, are `low / unit`, `value / unit` and `high / unit`. -/
structure Measured where
  low : Nat
  value : Nat
  high : Nat
  unit : Nat

/-- The number and its interval in units of `10 ^ e`. The interval ends half way to the neighbours,
so everything is counted in quarters of `2 ^ exponent`. -/
def Binary.measure (b : Binary) (e : Int) : Measured :=
  let q := b.exponent - 2
  let scale := Nat.pow 2 q.toNat * Nat.pow 10 (-e).toNat
  { low := (4 * b.mantissa - if b.narrowBelow then 1 else 2) * scale
    value := 4 * b.mantissa * scale
    high := (4 * b.mantissa + 2) * scale
    unit := Nat.pow 2 (-q).toNat * Nat.pow 10 e.toNat }

/-- Whether the grid point `c` rounds to the number; the ends do so only if the mantissa is even. -/
def Measured.accepts (m : Measured) (endsIncluded : Bool) (c : Nat) : Bool :=
  let x := c * m.unit
  if endsIncluded then m.low ≤ x && x ≤ m.high else m.low < x && x < m.high

/-- The accepted grid point nearest to the number, the larger one on a tie. Only the two points
around the number need a look: if any point is accepted, one of these is. -/
def Measured.nearest? (m : Measured) (endsIncluded : Bool) : Option Nat :=
  let below := m.value / m.unit
  let above := below + 1
  match m.accepts endsIncluded below, m.accepts endsIncluded above with
  | true, true =>
    some (if m.value - below * m.unit < above * m.unit - m.value then below else above)
  | true, false => some below
  | false, true => some above
  | false, false => none

/-- The first hit on the grids `10 ^ e`, `10 ^ (e - 1)` and so on, `n` of them. -/
def Binary.coarsest? (b : Binary) (e : Int) : Nat → Option GridPoint
  | 0 => none
  | n + 1 =>
    match (b.measure e).nearest? (b.mantissa % 2 == 0) with
    | some c => some ⟨c, e⟩
    | none => b.coarsest? (e - 1) n

/-- The exact decimal of a binary number. -/
def Binary.exact (b : Binary) : GridPoint :=
  if 0 ≤ b.exponent then ⟨b.mantissa * Nat.pow 2 b.exponent.toNat, 0⟩
  else ⟨b.mantissa * Nat.pow 5 (-b.exponent).toNat, b.exponent⟩

/-- A power of ten above the number: `log₁₀ 2` is just under `1234 / 4096`. -/
def Binary.topExponent (b : Binary) : Int :=
  ((b.mantissa.log2 : Int) + 1 + b.exponent) * 1234 / 4096 + 2

/-- The shortest decimal that rounds to the number. No double needs more than seventeen digits, so
its search ends within the grids that it is given. -/
def Binary.shortest (b : Binary) : GridPoint :=
  (b.coarsest? b.topExponent 24).getD b.exact

end TaggedUnion.Decimal
