import TaggedUnion.Match.Bindings
import TaggedUnion.Match.Coverage

/-!
# Plans

A plan is a list of arms checked against a type: it says for each tag which arm fires, and for each
arm where its names are read from. `Plan.compile` makes the plan from the heads of the arms, and
`Plan.run` sends a value to the body of its arm.
-/

namespace TaggedUnion

/-- One arm of a match with results in `R`. -/
structure Arm (R : Type) where
  head : ArmHead
  body : Bindings → R

namespace Arm

variable {R : Type}

def on (variant : String) (binder : Binder) (body : Bindings → R) : Arm R :=
  ⟨⟨.variant variant, binder⟩, body⟩

/-- An arm for whatever the arms before it leave. -/
def otherwise (binder : Binder) (body : Bindings → R) : Arm R :=
  ⟨⟨.wildcard, binder⟩, body⟩

def inspect (a : Arm R) : String :=
  Text.record "Arm" [Text.labelled "shape" a.head.inspect, ".."]

end Arm

/-- A list of arms that has been checked against a type. -/
structure Plan where
  type : EnumType
  /-- The arm that fires, by tag. -/
  table : List Nat
  /-- What each arm binds, by arm. -/
  binders : List ResolvedBinder

namespace Plan

/-- Checks the heads of a list of arms against a type. -/
def compile (type : EnumType) (heads : List ArmHead) : Except MatchError Plan := do
  let coverage ← heads.foldlM (Coverage.add type) (Coverage.empty type)
  let table ← coverage.table type
  .ok ⟨type, table, coverage.binders⟩

def armCount (p : Plan) : Nat :=
  p.binders.length

/-- The arm that fires for a tag. -/
def armFor? (p : Plan) (tag : Nat) : Option Nat :=
  p.table[tag]?

/-! ## Running -/

def readPlaces (stored : List Value) :
    List (String × Nat) → Except MatchError (List (String × Value))
  | [] => .ok []
  | (name, position) :: rest =>
    match stored[position]? with
    | none => .error (.unboundName name)
    | some value => ((name, value) :: ·) <$> readPlaces stored rest

/-- The names that an arm binds when it fires for a value. -/
def bind (p : Plan) (arm : Nat) (v : EnumValue) : Except MatchError Bindings :=
  match p.binders[arm]? with
  | none | some .nothing => .ok ⟨v.variantName, []⟩
  | some (.whole name) => .ok ⟨v.variantName, [(name, .enum v)]⟩
  | some (.fields places) =>
    match v.extractFields v.variantName with
    | .error error => .error (.value error)
    | .ok stored => (⟨v.variantName, ·⟩) <$> readPlaces stored places

/-- The outcome of the arm that fires for a value. -/
def run {R : Type} (p : Plan) (v : EnumValue) (arms : List (Arm R)) : Except MatchError R :=
  match p.armFor? v.tag with
  | none => .error (.nonExhaustive v.type.name [v.variantName])
  | some i =>
    match arms[i]? with
    | none => .error (.nonExhaustive v.type.name [v.variantName])
    | some arm => arm.body <$> p.bind i v

end Plan

end TaggedUnion
