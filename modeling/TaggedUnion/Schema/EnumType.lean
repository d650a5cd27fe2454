import TaggedUnion.Dict
import TaggedUnion.Schema.Variant

/-!
# Union types

A registered union type has an identity, a name and a list of variants. The place of a variant in
that list is its tag, and an index leads from the name of a variant to its tag.
-/

namespace TaggedUnion

/-- A registered union type. -/
structure EnumType where
  id : TypeId
  name : String
  variants : List Variant
  /-- The tags of the variants, by name. -/
  index : Dict String Nat

/-- Two types are the same when their identities agree. -/
instance : BEq EnumType where
  beq t u := t.id == u.id

namespace EnumType

/-- The type as the fields of other types refer to it. -/
def ref (t : EnumType) : TypeRef :=
  ⟨t.id, t.name⟩

def variantCount (t : EnumType) : Nat :=
  t.variants.length

def variant? (t : EnumType) (tag : Nat) : Option Variant :=
  t.variants[tag]?

/-- The tag that the index gives for a name. -/
def tag? (t : EnumType) (name : String) : Option Nat :=
  t.index.get? name

/-- The variant at the tag that the index gives for a name. -/
def variantNamed? (t : EnumType) (name : String) : Option (Fin t.variants.length × Variant) :=
  (t.tag? name).bind fun tag =>
    if h : tag < t.variants.length then some (⟨tag, h⟩, t.variants[tag]) else none

def variantNames (t : EnumType) : List String :=
  t.variants.map (·.name)

def render (t : EnumType) : String :=
  Text.record ("enum " ++ t.name) (t.variants.map (·.render))

end EnumType

end TaggedUnion
