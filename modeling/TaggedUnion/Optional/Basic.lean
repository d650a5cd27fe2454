import TaggedUnion.Dict
import TaggedUnion.Match.Matcher
import TaggedUnion.Schema.Registry

/-!
# Option types

The option type over a field type is an instance of the generic `Option` with two variants,
`Present` with one field of that type and `Absent` with none. It is registered when first asked for.
A value is an option by the identity of its type; variants of the same names do not make it one.
-/

namespace TaggedUnion

/-- Why an option type or an operation on options fails. -/
inductive OptionError
  | registry (error : RegistryError)
  | value (error : ValueError)
  | matching (error : MatchError)
  | notAnOption (type : String)
  | typeMismatch (expected found : String)
  | unwrapAbsent (type : String)

def OptionError.message : OptionError → String
  | registry error => error.message
  | value error => error.message
  | matching error => error.message
  | notAnOption type => s!"`{type}` is not an option type"
  | typeMismatch expected found => s!"expected a value of type `{expected}`, found `{found}`"
  | unwrapAbsent type => s!"called `unwrap` on an `Absent` value of `{type}`"

/-- The option type over the field type `inner`. -/
structure OptionType where
  type : EnumType
  inner : FieldType
  deriving BEq

namespace OptionType

def generic : String :=
  "Option"

def presentName : String :=
  "Present"

def absentName : String :=
  "Absent"

def variants (inner : FieldType) : List Variant :=
  [⟨presentName, .positional [inner]⟩, ⟨absentName, .unit⟩]

def name (t : OptionType) : String :=
  t.type.name

/-- The option type as the type of a field, as in an option of an option. -/
def fieldType (t : OptionType) : FieldType :=
  .enum t.type.ref

/-- Whether the value is of this very option type. -/
def isInstance (t : OptionType) (v : EnumValue) : Bool :=
  v.type == t.type

def make (t : OptionType) (variant : String) (payload : Payload) : Except OptionError EnumValue :=
  (construct t.type variant payload).mapError .value

/-- The option that holds a value, which must be of the inner type. -/
def present (t : OptionType) (v : Value) : Except OptionError EnumValue :=
  t.make presentName (.positional [v])

def absent (t : OptionType) : Except OptionError EnumValue :=
  t.make absentName .unit

/-- The option that holds what `v` holds. -/
def wrap (t : OptionType) : Option Value → Except OptionError EnumValue
  | some v => t.present v
  | none => t.absent

def inspect (t : OptionType) : String :=
  Text.tuple "OptionType" [t.name]

end OptionType

/-- The option types made so far, by what they are over and by their own identities. -/
structure OptionTable where
  byInner : Dict FieldType OptionType := {}
  byType : Dict TypeId OptionType := {}

namespace OptionTable

/-- The option types that are found by what they are over. -/
def instances (t : OptionTable) : List OptionType :=
  t.byInner.values

def over? (t : OptionTable) (inner : FieldType) : Option OptionType :=
  t.byInner.get? inner

def withId? (t : OptionTable) (id : TypeId) : Option OptionType :=
  t.byType.get? id

/-- Enters an option type into both dictionaries. -/
def insert (t : OptionTable) (option : OptionType) : OptionTable :=
  let t := { t with byInner := t.byInner.insert option.inner option }
  { t with byType := t.byType.insert option.type.id option }

def isOption (t : OptionTable) (v : EnumValue) : Bool :=
  t.byType.contains v.type.id

def typeOf (t : OptionTable) (v : EnumValue) : Except OptionError OptionType :=
  match t.withId? v.type.id with
  | some type => .ok type
  | none => .error (.notAnOption v.type.name)

end OptionTable

end TaggedUnion
