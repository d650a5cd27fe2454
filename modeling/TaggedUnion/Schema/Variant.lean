import TaggedUnion.Schema.FieldType
import TaggedUnion.Text.Structure

/-!
# Declared variants

A variant of a union type is declared by its name and the shape of its payload: no fields, fields
told apart by position, or fields told apart by name. The order of declaration is also the order in
which a value stores its fields.
-/

namespace TaggedUnion

/-- A field that is known by its name. -/
structure Field where
  name : String
  type : FieldType
  deriving BEq

/-- A field with its type, as a declaration writes it. -/
def Field.render (f : Field) : String :=
  Text.labelled f.name f.type.render

inductive ShapeKind
  | unit
  | positional
  | named
  deriving DecidableEq

/-- The word for a kind of payload in messages. -/
def ShapeKind.name : ShapeKind → String
  | .unit => "unit"
  | .positional => "positional"
  | .named => "named"

/-- The payload that a variant declares. -/
inductive Shape
  | unit
  | positional (types : List FieldType)
  | named (fields : List Field)
  deriving BEq

namespace Shape

def kind : Shape → ShapeKind
  | .unit => .unit
  | .positional _ => .positional
  | .named _ => .named

/-- The types of the fields in the order in which values store them. -/
def fieldTypes : Shape → List FieldType
  | .unit => []
  | .positional types => types
  | .named fields => fields.map (·.type)

def arity (s : Shape) : Nat :=
  s.fieldTypes.length

def fieldType? (s : Shape) (position : Nat) : Option FieldType :=
  s.fieldTypes[position]?

def namedFields? : Shape → Option (List Field)
  | .named fields => some fields
  | _ => none

/-- The position at which the field of a given name is stored. -/
def fieldIndex? (s : Shape) (name : String) : Option Nat :=
  s.namedFields?.bind fun fields => fields.findIdx? (·.name == name)

end Shape

structure Variant where
  name : String
  shape : Shape
  deriving BEq

/-- A variant as a declaration writes it: the bare name, then the types of its fields. -/
def Variant.render (v : Variant) : String :=
  match v.shape with
  | .unit => v.name
  | .positional types => Text.tuple v.name (types.map (·.render))
  | .named fields => Text.record v.name (fields.map (·.render))

end TaggedUnion
