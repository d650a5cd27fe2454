import TaggedUnion.Schema.EnumType
import TaggedUnion.Text.Names

/-!
# The registry

A registry holds the union types registered so far, by name, and counts their identities. A type enters
it by `register`, under a name of its own, or by `registerInstance`, as one instance of a generic type,
whose name is built from the generic's name and the texts of its arguments. Names of the two kinds cannot
meet, because only the second kind contains angle brackets. Both give the registry back with their
result, whether that is a type or an error.
-/

namespace TaggedUnion

/-- Why a type is not registered. -/
inductive RegistryError
  | duplicateVariantName (type variant : String)
  | duplicateTypeName (type : String)
  | emptyTypeName
  | reservedTypeName (type : String)
  | emptyVariantName (type : String)
  | noVariants (type : String)
  | emptyFieldList (type variant : String)
  | duplicateFieldName (type variant field : String)
  deriving DecidableEq

def RegistryError.message : RegistryError → String
  | duplicateVariantName type variant =>
    s!"enum type `{type}` declares variant `{variant}` more than once"
  | duplicateTypeName type => s!"enum type `{type}` is already registered"
  | emptyTypeName => "enum type name must not be empty"
  | reservedTypeName type =>
    s!"`{type}` is reserved: type names cannot be a scalar type name or contain `<` or `>`"
  | emptyVariantName type => s!"enum type `{type}` has a variant with an empty name"
  | noVariants type => s!"enum type `{type}` must declare at least one variant"
  | emptyFieldList type variant =>
    s!"variant `{type}::{variant}` declares an empty field list (use a unit variant instead)"
  | duplicateFieldName type variant field =>
    s!"variant `{type}::{variant}` declares field `{field}` more than once"

/-- A name for a type or a generic: not empty, no scalar's word, and no angle bracket in it. -/
def checkPlainName (name : String) : Except RegistryError Unit :=
  if name = "" then .error .emptyTypeName
  else if '<' ∈ name.toList ∨ '>' ∈ name.toList ∨ name ∈ Scalar.all.map (·.name) then
    .error (.reservedTypeName name)
  else .ok ()

def instanceName (generic : String) (args : List FieldType) : String :=
  generic ++ "<" ++ Text.commas (args.map (·.render)) ++ ">"

/-- What can be wrong with a variant of the type named `type` by itself. -/
def Variant.check (type : String) (v : Variant) : Except RegistryError Unit :=
  if v.name = "" then .error (.emptyVariantName type)
  else match v.shape with
    | .unit => .ok ()
    | .positional [] | .named [] => .error (.emptyFieldList type v.name)
    | .positional (_ :: _) => .ok ()
    | .named fields =>
      match Text.firstRepeat? (fields.map (·.name)) with
      | some field => .error (.duplicateFieldName type v.name field)
      | none => .ok ()

/-- Enters the names of variants into an index, the first with the given tag and each next one with the
next tag. A variant is checked by itself, and its name must not be in the index already. -/
def indexVariants (type : String) (index : Dict String Nat) (tag : Nat) :
    List Variant → Except RegistryError (Dict String Nat)
  | [] => .ok index
  | v :: vs => do
    v.check type
    if index.contains v.name then .error (.duplicateVariantName type v.name)
    else indexVariants type (index.insert v.name tag) (tag + 1) vs

/-- The types registered so far. -/
structure Registry where
  byName : Dict String EnumType := {}
  /-- The identity that the next type gets. -/
  nextId : Nat := 0

namespace Registry

/-- The number of registered types. -/
def count (r : Registry) : Nat :=
  r.byName.size

/-- The registered types, whatever their names. -/
def types (r : Registry) : List EnumType :=
  r.byName.values

def lookup? (r : Registry) (name : String) : Option EnumType :=
  r.byName.get? name

/-- Adds a type under a name that has passed its checks. A name in use is reported last. -/
def insert (r : Registry) (name : String) (variants : List Variant) :
    Except RegistryError EnumType × Registry :=
  if variants.isEmpty then (.error (.noVariants name), r)
  else
    match indexVariants name {} 0 variants with
    | .error error => (.error error, r)
    | .ok index =>
      if r.byName.contains name then (.error (.duplicateTypeName name), r)
      else
        let type : EnumType := ⟨⟨r.nextId⟩, name, variants, index⟩
        let r := { r with nextId := r.nextId + 1 }
        (.ok type, { r with byName := r.byName.insert name type })

/-- Adds a type, after the check of the part of its name that the client gives. -/
def enter (r : Registry) (plain name : String) (variants : List Variant) :
    Except RegistryError EnumType × Registry :=
  match checkPlainName plain with
  | .error error => (.error error, r)
  | .ok () => r.insert name variants

def register (r : Registry) (name : String) (variants : List Variant) :
    Except RegistryError EnumType × Registry :=
  r.enter name name variants

def registerInstance (r : Registry) (generic : String) (args : List FieldType)
    (variants : List Variant) : Except RegistryError EnumType × Registry :=
  r.enter generic (instanceName generic args) variants

end Registry

end TaggedUnion
