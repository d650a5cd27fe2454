/-!
# Doubles

A double is its 64 bits: the sign, and the magnitude, which orders the numbers without sign from zero
over infinity to NaN. There are many NaNs, and a value keeps the one that it was made of. Compared by
`==`, doubles are numbers: no NaN is equal to anything, and the two zeros are equal.

* `Binary64.beq_iff`: which doubles are equal.
* `Binary64.beq_self_iff`: only NaN differs from itself.
-/

namespace TaggedUnion

/-- A double, by its bits. -/
structure Binary64 where
  bits : UInt64

namespace Binary64

/-- All bits but the sign, as a number. -/
def magnitude (x : Binary64) : Nat :=
  x.bits.toNat % Nat.pow 2 63

/-- Infinity has all bits of the exponent and none of the fraction; what lies beyond is no number. -/
def isNaN (x : Binary64) : Bool :=
  2047 * Nat.pow 2 52 < x.magnitude

/-- Whether the double is one of the two zeros. -/
def isZero (x : Binary64) : Bool :=
  x.magnitude == 0

/-- Whether two doubles are numbers, and the same one. -/
def equal (x y : Binary64) : Bool :=
  !x.isNaN && !y.isNaN && (x.bits == y.bits || (x.isZero && y.isZero))

instance : BEq Binary64 where
  beq := equal

/-- Numbers that are equal are the same or the two zeros, and NaN is equal to none. -/
theorem beq_iff {x y : Binary64} :
    (x == y) = true ↔
      x.isNaN = false ∧ y.isNaN = false ∧ (x = y ∨ x.isZero = true ∧ y.isZero = true) := by
  obtain ⟨a⟩ := x
  obtain ⟨b⟩ := y
  show equal ⟨a⟩ ⟨b⟩ = true ↔ _
  unfold equal
  simp [and_assoc]

theorem beq_self_iff {x : Binary64} : (x == x) = true ↔ x.isNaN = false := by
  simp [beq_iff]

instance : PartialEquivBEq Binary64 where
  symm := by
    intro x y h
    rw [beq_iff] at h ⊢
    obtain ⟨hx, hy, hxy⟩ := h
    exact ⟨hy, hx, hxy.imp Eq.symm And.symm⟩
  trans := by
    intro x y z h h'
    rw [beq_iff] at h h' ⊢
    obtain ⟨hx, -, hxy⟩ := h
    obtain ⟨-, hz, hyz⟩ := h'
    refine ⟨hx, hz, ?_⟩
    -- equal numbers are both zero or both not, so the middle one can be left out
    rcases hxy with rfl | ⟨hx, hy⟩
    · exact hyz
    · rcases hyz with rfl | ⟨-, hz⟩
      · exact .inr ⟨hx, hy⟩
      · exact .inr ⟨hx, hz⟩

end Binary64

end TaggedUnion
