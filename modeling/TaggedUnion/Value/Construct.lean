import TaggedUnion.Value.Payload

/-!
# Construction and extraction

`construct` makes an instance from a type, the name of a variant and a payload, provided the payload
is one that the variant declares; the fields are stored in declared order. `EnumValue.extract` goes
back. Nothing else in the library makes instances, so each of them holds what its variant declares.
-/

namespace TaggedUnion

/-- Why a payload is not one that a variant declares. -/
inductive Misfit
  | wrongKind (expected found : ShapeKind)
  | wrongArity (expected found : Nat)
  | wrongFieldType (field : String) (expected found : FieldType)
  | missingField (field : String)
  | unknownField (field : String)
  | duplicateField (field : String)

def Misfit.message : Misfit → String
  | wrongKind expected found =>
    s!"expected a {expected.name} payload, found a {found.name} payload"
  | wrongArity expected found => s!"expected {expected} field(s), found {found}"
  | wrongFieldType field expected found =>
    s!"field `{field}` expects `{expected.render}`, found `{found.render}`"
  | missingField field => s!"missing field `{field}`"
  | unknownField field => s!"unknown field `{field}`"
  | duplicateField field => s!"field `{field}` supplied more than once"

/-- Why an instance is not made or not read. -/
inductive ValueError
  | unknownVariant (type variant : String)
  | payloadMisfit (type variant : String) (reason : Misfit)
  | variantMismatch (type expected actual : String)

def ValueError.message : ValueError → String
  | unknownVariant type variant => s!"enum type `{type}` has no variant named `{variant}`"
  | payloadMisfit type variant reason =>
    s!"payload does not fit `{type}::{variant}`: {reason.message}"
  | variantMismatch type expected actual =>
    s!"expected `{type}::{expected}`, but the value holds `{type}::{actual}`"

/-! ## Fitting a payload to a shape -/

/-- A field holds values of its declared type only. -/
def checkField (field : String) (declared : FieldType) (value : Value) : Except Misfit Unit :=
  if value.conformsTo declared then .ok ()
  else .error (.wrongFieldType field declared value.type)

/-- Checks the values from `position` on against the types declared there. A field without a name
is called by its position. -/
def checkPositions (position : Nat) : List FieldType → List Value → Except Misfit Unit
  | t :: ts, v :: vs => do
    checkField (toString position) t v
    checkPositions (position + 1) ts vs
  | _, _ => .ok ()

/-- Puts each supplied value into the slot of its field, of which there is one for each declared field. A
value must be of the declared type, and its slot empty. -/
def fillSlots (declared : List Field) (slots : List (Option Value)) :
    List (String × Value) → Except Misfit (List (Option Value))
  | [] => .ok slots
  | (name, value) :: rest =>
    match declared.findFinIdx? (·.name == name) with
    | none => .error (.unknownField name)
    | some position => do
      checkField name (declared.get position).type value
      match slots[position.val]?.join with
      | some _ => .error (.duplicateField name)
      | none => fillSlots declared (slots.set position (some value)) rest

/-- The values in the slots, all of which must be filled. -/
def slotValues : List Field → List (Option Value) → Except Misfit (List Value)
  | field :: declared, slot :: slots =>
    match slot with
    | none => .error (.missingField field.name)
    | some value => (value :: ·) <$> slotValues declared slots
  | _, _ => .ok []

/-- The fields of a payload in the order in which a value of this shape stores them. -/
def Shape.conform : Shape → Payload → Except Misfit (List Value)
  | .unit, .unit => .ok []
  | .positional types, .positional values =>
    if types.length ≠ values.length then .error (.wrongArity types.length values.length)
    else (fun _ => values) <$> checkPositions 0 types values
  | .named declared, .named supplied => do
    let slots ← fillSlots declared (List.replicate declared.length none) supplied
    slotValues declared slots
  | shape, payload => .error (.wrongKind shape.kind payload.kind)

/-! ## Making and reading instances -/

/-- The instance of `type` that holds the named variant with the given payload. -/
def construct (type : EnumType) (variant : String) (payload : Payload) :
    Except ValueError EnumValue :=
  match type.variantNamed? variant with
  | none => .error (.unknownVariant type.name variant)
  | some (tag, declared) =>
    match declared.shape.conform payload with
    | .error reason => .error (.payloadMisfit type.name variant reason)
    | .ok fields => .ok ⟨type, tag, fields⟩

namespace EnumValue

def payload (v : EnumValue) : Payload :=
  match v.variant.shape with
  | .unit => .unit
  | .positional _ => .positional v.fields
  | .named declared => .named (List.zipWith (fun f value => (f.name, value)) declared v.fields)

/-- Reading is allowed for the variant that the value holds and no other. -/
def checkVariant (v : EnumValue) (variant : String) : Except ValueError Unit :=
  match v.type.tag? variant with
  | none => .error (.unknownVariant v.type.name variant)
  | some tag =>
    if tag = v.tag.val then .ok ()
    else .error (.variantMismatch v.type.name variant v.variantName)

def extractFields (v : EnumValue) (variant : String) : Except ValueError (List Value) :=
  (fun _ => v.fields) <$> v.checkVariant variant

def extract (v : EnumValue) (variant : String) : Except ValueError Payload :=
  (fun _ => v.payload) <$> v.checkVariant variant

end EnumValue

end TaggedUnion
