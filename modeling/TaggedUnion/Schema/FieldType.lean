/-!
# Field types

The type of a field is one of six scalars or a registered union type. A union type is known by its
identity alone: `==` on field types never looks at names, so two types that read alike but were
registered apart stay apart.
-/

namespace TaggedUnion

/-- A type whose values have no parts. -/
inductive Scalar
  | int
  | byte
  | float
  | bool
  | text
  | unit
  deriving DecidableEq

/-- The word for a scalar type in texts. No union type may be registered under it. -/
def Scalar.name : Scalar → String
  | .int => "int"
  | .byte => "byte"
  | .float => "float"
  | .bool => "bool"
  | .text => "text"
  | .unit => "unit"

def Scalar.all : List Scalar :=
  [.int, .byte, .float, .bool, .text, .unit]

theorem Scalar.mem_all (s : Scalar) : s ∈ all := by
  cases s <;> decide

/-- The identity of a registered type: how many types were registered before it. A counter of 32 bits
gives the same identities as long as there are fewer than `2 ^ 32` types. -/
structure TypeId where
  index : Nat
  deriving DecidableEq

/-- A registered type as others refer to it. -/
structure TypeRef where
  id : TypeId
  name : String

/-- Two references denote the same type when the identities agree. -/
instance : BEq TypeRef where
  beq a b := a.id == b.id

inductive FieldType
  | scalar (s : Scalar)
  | enum (t : TypeRef)
  deriving BEq

namespace FieldType

def isEnum : FieldType → Bool
  | .scalar _ => false
  | .enum _ => true

def enum? : FieldType → Option TypeRef
  | .scalar _ => none
  | .enum t => some t

/-- The text of a field type: the scalar's word or the name of the registered type. -/
def render : FieldType → String
  | .scalar s => s.name
  | .enum t => t.name

end FieldType

end TaggedUnion
