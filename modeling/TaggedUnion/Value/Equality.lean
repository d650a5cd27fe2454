import TaggedUnion.Value.Basic

/-!
# Equality of values

Values are compared part by part: types by identity, variants by tag, and floats as numbers, so that
the two zeros are equal and NaN differs from itself. Hence `==` is no equivalence, and differs from
`=` in both directions.
-/

namespace TaggedUnion

mutual

/-- Whether two values are of the same kind and equal. -/
def Value.equal : Value → Value → Bool
  | .int a, .int b => a == b
  | .byte a, .byte b => a == b
  | .float a, .float b => a == b
  | .bool a, .bool b => a == b
  | .text a, .text b => a == b
  | .unit, .unit => true
  | .enum a, .enum b => a.equal b
  | _, _ => false

/-- Whether two instances have the same type and variant and equal fields. -/
def EnumValue.equal : EnumValue → EnumValue → Bool
  | ⟨t, i, xs⟩, ⟨u, j, ys⟩ => t == u && i.val == j.val && Value.equalAll xs ys

/-- Whether two lists have the same length and equal values at each position. -/
def Value.equalAll : List Value → List Value → Bool
  | [], [] => true
  | x :: xs, y :: ys => x.equal y && Value.equalAll xs ys
  | _, _ => false

end

instance : BEq Value where
  beq := Value.equal

instance : BEq EnumValue where
  beq := EnumValue.equal

end TaggedUnion
