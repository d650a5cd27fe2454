import TaggedUnion.Schema.EnumType
import TaggedUnion.Text.Quoted

/-!
# Inspecting a type

The full structure of a type as text: every part under its label and every name quoted. Unlike the
declaration that `EnumType.render` writes, it shows identities and tells text from names.
-/

namespace TaggedUnion

def Scalar.inspect : Scalar → String
  | .int => "Int"
  | .byte => "Byte"
  | .float => "Float"
  | .bool => "Bool"
  | .text => "Text"
  | .unit => "Unit"

/-- A reference shows the name and the identity of its type. -/
def TypeRef.inspect (t : TypeRef) : String :=
  Text.tuple "EnumTypeHandle" [t.name ++ "#" ++ toString t.id.index]

def FieldType.inspect : FieldType → String
  | .scalar s => s.inspect
  | .enum t => Text.tuple "Enum" [t.inspect]

def Field.inspect (f : Field) : String :=
  Text.record "FieldDef"
    [Text.labelled "name" (Text.quote f.name), Text.labelled "ty" f.type.inspect]

def Shape.inspect : Shape → String
  | .unit => "Unit"
  | .positional types => Text.tuple "Positional" [Text.bracketed (types.map (·.inspect))]
  | .named fields => Text.tuple "Named" [Text.bracketed (fields.map (·.inspect))]

def Variant.inspect (v : Variant) : String :=
  Text.record "VariantDescriptor"
    [Text.labelled "name" (Text.quote v.name), Text.labelled "shape" v.shape.inspect]

def EnumType.inspect (t : EnumType) : String :=
  Text.record "EnumType"
    [Text.labelled "id" (toString t.id.index),
     Text.labelled "name" (Text.quote t.name),
     Text.labelled "variants" (Text.bracketed (t.variants.map (·.inspect)))]

end TaggedUnion
