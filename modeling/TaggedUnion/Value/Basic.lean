import TaggedUnion.Schema.EnumType
import TaggedUnion.Value.Binary64

/-!
# Values

A value is a scalar or an instance of a registered union type. An instance carries the type it
belongs to, the tag of its variant, which is a tag of that type by construction, and the fields of
the variant in declared order. Every value has exactly one type, `Value.type`.
-/

namespace TaggedUnion

mutual

/-- A value that a field can hold. -/
inductive Value
  | int (n : Int64)
  | byte (b : UInt8)
  | float (x : Binary64)
  | bool (b : Bool)
  | text (s : String)
  | unit
  | enum (v : EnumValue)

/-- An instance of a registered union type. -/
structure EnumValue where
  type : EnumType
  tag : Fin type.variants.length
  fields : List Value

end

namespace EnumValue

def variant (v : EnumValue) : Variant :=
  v.type.variants[v.tag]

def variantName (v : EnumValue) : String :=
  v.variant.name

def is (v : EnumValue) (variant : String) : Bool :=
  v.variantName == variant

end EnumValue

namespace Value

/-- The one type that the value has. -/
def type : Value → FieldType
  | .int _ => .scalar .int
  | .byte _ => .scalar .byte
  | .float _ => .scalar .float
  | .bool _ => .scalar .bool
  | .text _ => .scalar .text
  | .unit => .scalar .unit
  | .enum v => .enum v.type.ref

/-- Whether a field of the given type can hold the value. -/
def conformsTo (v : Value) (t : FieldType) : Bool :=
  v.type == t

def int? : Value → Option Int64
  | .int n => some n
  | _ => none

def byte? : Value → Option UInt8
  | .byte b => some b
  | _ => none

def float? : Value → Option Binary64
  | .float x => some x
  | _ => none

def bool? : Value → Option Bool
  | .bool b => some b
  | _ => none

def text? : Value → Option String
  | .text s => some s
  | _ => none

def enum? : Value → Option EnumValue
  | .enum v => some v
  | _ => none

end Value

end TaggedUnion
