import TaggedUnion.Decimal.Shortest

/-!
# The parts of a double

The 64 bits of a double are a sign, eleven bits of exponent and 52 bits of fraction. `Double.ofBits`
reads them as one of the four kinds of number that have a text of their own.
-/

namespace TaggedUnion.Decimal

/-- What the bits of a double stand for. -/
inductive Double
  | nan
  | infinite (negative : Bool)
  | zero (negative : Bool)
  | finite (negative : Bool) (magnitude : Binary)

/-- The least exponent belongs to the subnormal numbers, which have no leading one and are evenly
spaced; the greatest to the infinities and NaN. -/
def Double.ofBits (bits : UInt64) : Double :=
  let negative := bits.toNat / Nat.pow 2 63 == 1
  let biased : Nat := bits.toNat / Nat.pow 2 52 % Nat.pow 2 11
  let fraction := bits.toNat % Nat.pow 2 52
  if biased = 2047 then
    if fraction = 0 then .infinite negative else .nan
  else if biased = 0 then
    if fraction = 0 then .zero negative else .finite negative ⟨fraction, -1074, false⟩
  else
    .finite negative ⟨Nat.pow 2 52 + fraction, (biased : Int) - 1075, fraction == 0 && 1 < biased⟩

end TaggedUnion.Decimal
