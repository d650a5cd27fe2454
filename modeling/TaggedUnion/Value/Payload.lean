import TaggedUnion.Value.Equality

/-!
# Payloads

A payload is the data of one variant as a caller supplies or receives it. Fields told apart by name
may come in any order, and equality of such payloads does not depend on the order either.
-/

namespace TaggedUnion

/-- The data of one variant, apart from any type. -/
inductive Payload
  | unit
  | positional (values : List Value)
  | named (fields : List (String × Value))

namespace Payload

def kind : Payload → ShapeKind
  | .unit => .unit
  | .positional _ => .positional
  | .named _ => .named

/-- The values without their names, in the order supplied. -/
def values : Payload → List Value
  | .unit => []
  | .positional values => values
  | .named fields => fields.map (·.2)

def size (p : Payload) : Nat :=
  p.values.length

def isEmpty (p : Payload) : Bool :=
  p.size == 0

/-- The field at a position, of a payload whose fields are told apart by position. -/
def get? (p : Payload) (position : Nat) : Option Value :=
  match p with
  | .positional values => values[position]?
  | _ => none

def field? (p : Payload) (name : String) : Option Value :=
  match p with
  | .named fields => fields.lookup name
  | _ => none

/-- Whether each of `fields` is found in the payload under its name, with an equal value. -/
def holdsAll (p : Payload) (fields : List (String × Value)) : Bool :=
  fields.all fun (name, value) => (p.field? name).any (· == value)

/-- Payloads are equal if they are of the same kind and have equal fields: in order where position
tells the fields apart, and found in each other where names do. -/
def equal : Payload → Payload → Bool
  | .unit, .unit => true
  | .positional xs, .positional ys => Value.equalAll xs ys
  | .named xs, .named ys =>
    xs.length == ys.length && (named ys).holdsAll xs && (named xs).holdsAll ys
  | _, _ => false

instance : BEq Payload where
  beq := equal

end Payload

end TaggedUnion
