import TaggedUnion.Match.Error

/-!
# Bindings

The names that the body of an arm can read, and the variant that was matched. A name can be read any
number of times, or taken once, after which it is unbound.
-/

namespace TaggedUnion

/-- The names bound by the arm that fires. -/
structure Bindings where
  /-- The variant that the matched value holds, also where a wildcard matched it. -/
  variant : String
  entries : List (String × Value)

namespace Bindings

def size (b : Bindings) : Nat :=
  b.entries.length

def isEmpty (b : Bindings) : Bool :=
  b.entries.isEmpty

def names (b : Bindings) : List String :=
  b.entries.map (·.1)

def get? (b : Bindings) (name : String) : Option Value :=
  b.entries.lookup name

def value (b : Bindings) (name : String) : Except MatchError Value :=
  match b.get? name with
  | some v => .ok v
  | none => .error (.unboundName name)

/-- The value bound to a name, read as one kind of value. -/
def typed {α : Type} (b : Bindings) (name expected : String) (read : Value → Option α) :
    Except MatchError α := do
  let v ← b.value name
  match read v with
  | some x => .ok x
  | none => .error (.bindingType name expected v.type)

def int (b : Bindings) (name : String) : Except MatchError Int64 :=
  b.typed name "int" Value.int?

def byte (b : Bindings) (name : String) : Except MatchError UInt8 :=
  b.typed name "byte" Value.byte?

def float (b : Bindings) (name : String) : Except MatchError Binary64 :=
  b.typed name "float" Value.float?

def bool (b : Bindings) (name : String) : Except MatchError Bool :=
  b.typed name "bool" Value.bool?

def text (b : Bindings) (name : String) : Except MatchError String :=
  b.typed name "text" Value.text?

def enum (b : Bindings) (name : String) : Except MatchError EnumValue :=
  b.typed name "variant" Value.enum?

/-- Takes out the entry at a position and closes the gap with the last entry. -/
def removeAt (entries : List (String × Value)) (position : Nat) : List (String × Value) :=
  match entries.getLast? with
  | none => []
  | some last => (entries.set position last).dropLast

/-- Takes the value bound to a name out of the bindings. -/
def take (b : Bindings) (name : String) : Except MatchError Value × Bindings :=
  match b.entries.findFinIdx? (·.1 == name) with
  | none => (.error (.unboundName name), b)
  | some position =>
    (.ok (b.entries.get position).2, { b with entries := removeAt b.entries position })

end Bindings

end TaggedUnion
