import TaggedUnion.Schema.Variant
import TaggedUnion.Text.Names
import TaggedUnion.Text.Quoted

/-!
# Binders

A binder says which parts of a matched value get names in the body of an arm. `Binder.resolve`
checks a binder against the fields that a variant declares and settles where each name is read from.
The name `_` asks for no binding and may be given to any number of fields.
-/

namespace TaggedUnion

/-- The name that binds nothing. -/
def placeholder : String :=
  "_"

/-- How an arm names the parts of the value it matches. -/
inductive Binder
  /-- No names. -/
  | ignore
  /-- One name for the whole value. -/
  | whole (name : String)
  /-- A name for each field, in declared order. -/
  | positional (names : List String)
  /-- Fields and the names they get, in any order. -/
  | named (pairs : List (String × String))
  deriving DecidableEq

/-- A binder that gives each field its own name. -/
def Binder.fields (names : List String) : Binder :=
  .named (names.map fun name => (name, name))

/-- Why a binder does not fit the fields of a variant. -/
inductive BinderIssue
  | positionalArity (expected found : Nat)
  | positionalOnNonPositional (kind : ShapeKind)
  | namedOnNonNamed (kind : ShapeKind)
  | unknownField (field : String)
  | duplicateField (field : String)
  | missingField (field : String)
  | duplicateBinding (name : String)
  | wildcardFields
  deriving DecidableEq

def BinderIssue.message : BinderIssue → String
  | positionalArity expected found => s!"expected {expected} positional binder(s), found {found}"
  | positionalOnNonPositional kind =>
    s!"positional binders cannot destructure a {kind.name} variant"
  | namedOnNonNamed kind => s!"named binders cannot destructure a {kind.name} variant"
  | unknownField field => s!"no field named `{field}`"
  | duplicateField field => s!"field `{field}` is bound more than once"
  | missingField field => s!"field `{field}` is not bound (use `_` to ignore it)"
  | duplicateBinding name => s!"name `{name}` is introduced more than once"
  | wildcardFields => "a wildcard arm can only ignore the value or bind it whole"

/-- A binder whose names know where to read. -/
inductive ResolvedBinder
  | nothing
  | whole (name : String)
  /-- Names, each with the position of the field that it stands for. -/
  | fields (places : List (String × Nat))
  deriving DecidableEq

/-- The places that bind a name, provided the names are distinct. -/
def distinctPlaces (places : List (String × Nat)) : Except BinderIssue ResolvedBinder :=
  let bound := places.filter (·.1 != placeholder)
  match Text.firstRepeat? (bound.map (·.1)) with
  | some name => .error (.duplicateBinding name)
  | none => .ok (.fields bound)

/-- The place of each pair's field among the declared ones. A field must be declared and not among
the fields `seen` before it. -/
def namedPlaces (declared : List Field) (seen : List String) :
    List (String × String) → Except BinderIssue (List (String × Nat))
  | [] => .ok []
  | (field, name) :: rest =>
    match declared.findIdx? (·.name == field) with
    | none => .error (.unknownField field)
    | some position =>
      if field ∈ seen then .error (.duplicateField field)
      else ((name, position) :: ·) <$> namedPlaces declared (field :: seen) rest

/-- Checks a binder against the shape of the variant that the arm names, if it names one. -/
def Binder.resolve (shape : Option Shape) : Binder → Except BinderIssue ResolvedBinder
  | .ignore => .ok .nothing
  | .whole name => .ok (if name = placeholder then .nothing else .whole name)
  | .positional names =>
    match shape with
    | none => .error .wildcardFields
    | some (.positional types) =>
      if names.length ≠ types.length then .error (.positionalArity types.length names.length)
      else distinctPlaces names.zipIdx
    | some shape => .error (.positionalOnNonPositional shape.kind)
  | .named pairs =>
    match shape with
    | none => .error .wildcardFields
    | some (.named declared) => do
      let places ← namedPlaces declared [] pairs
      match declared.find? (·.name ∉ pairs.map (·.1)) with
      | some field => .error (.missingField field.name)
      | none => distinctPlaces places
    | some shape => .error (.namedOnNonNamed shape.kind)

def Binder.inspect : Binder → String
  | .ignore => "Ignore"
  | .whole name => Text.tuple "Whole" [Text.quote name]
  | .positional names => Text.tuple "Positional" [Text.bracketed (names.map Text.quote)]
  | .named pairs =>
    Text.tuple "Named" [Text.bracketed
      (pairs.map fun (field, name) => Text.tuple "" [Text.quote field, Text.quote name])]

end TaggedUnion
