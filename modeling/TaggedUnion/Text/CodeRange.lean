/-!
# Ranges of code points

The character tables are ascending lists of disjoint ranges. `inRanges` walks such a list and stops
at the first range that starts beyond the character.
-/

namespace TaggedUnion.Text

/-- The code points from `first` to `last`, both included. -/
structure CodeRange where
  first : Nat
  last : Nat

/-- Whether a character lies in one of the ranges, which must ascend. -/
def inRanges (c : Char) : List CodeRange → Bool
  | [] => false
  | r :: rs => r.first ≤ c.toNat && (c.toNat ≤ r.last || inRanges c rs)

end TaggedUnion.Text
