import TaggedUnion.Decimal.Layout
import TaggedUnion.Text.Quoted
import TaggedUnion.Value.Basic

/-!
# The text of a value

An instance is written like the declaration of its variant, with values in place of types. Names are
written as they are; a text value is quoted. `EnumValue.inspect` puts the name of the type in front.
-/

namespace TaggedUnion

/-- Floats are written in full from a ten-thousandth to below ten quadrillion, else with a power
of ten. -/
def floatLayout : Decimal.Layout where
  leastPlain := -4
  greatestPlain := 15
  exponentMark := "e"
  infinity := "inf"
  notANumber := "NaN"

mutual

def Value.render : Value → String
  | .int n => toString n.toInt
  | .byte b => toString b.toNat
  | .float x => floatLayout.render (.ofBits x.bits)
  | .bool b => if b then "true" else "false"
  | .text s => Text.quote s
  | .unit => "()"
  | .enum v => v.render

/-- The name of the variant, and the fields that it declares. -/
def EnumValue.render : EnumValue → String
  | ⟨t, tag, fields⟩ =>
    let variant := t.variants[tag]
    match variant.shape with
    | .unit => variant.name
    | .positional _ => Text.tuple variant.name (Value.renderAll fields)
    | .named declared =>
      Text.record variant.name
        (List.zipWith (fun f text => Text.labelled f.name text) declared (Value.renderAll fields))

def Value.renderAll : List Value → List String
  | [] => []
  | v :: vs => v.render :: Value.renderAll vs

end

/-- The text of an instance under the name of its type. -/
def EnumValue.inspect (v : EnumValue) : String :=
  v.type.name ++ "::" ++ v.render

end TaggedUnion
