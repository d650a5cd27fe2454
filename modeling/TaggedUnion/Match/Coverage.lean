import TaggedUnion.Match.Error
import TaggedUnion.Match.Head

/-!
# Coverage

Which variants of a type the arms of a match cover. `Coverage.add` takes the heads of the arms one
by one and rejects the first that cannot fire, names no variant, repeats one, or has a binder that
does not fit. `Coverage.table` ends the list: it says for each tag which arm fires, or which
variants are left over.
-/

namespace TaggedUnion

/-- What the arms seen so far cover and bind. -/
structure Coverage where
  /-- The arm that names the variant of each tag. -/
  claims : List (Option Nat)
  /-- The arm that takes every variant left. -/
  wildcard : Option Nat
  /-- What each arm binds. -/
  binders : List ResolvedBinder

namespace Coverage

def empty (type : EnumType) : Coverage :=
  ⟨List.replicate type.variantCount none, none, []⟩

/-- What an arm binds, or the complaint that its binder does not fit. -/
def resolve (type : EnumType) (head : ArmHead) (shape : Option Shape) :
    Except MatchError ResolvedBinder :=
  match head.binder.resolve shape with
  | .ok binder => .ok binder
  | .error issue => .error (.binderMismatch type.name head.patternName issue)

def add (type : EnumType) (c : Coverage) (head : ArmHead) : Except MatchError Coverage :=
  let arm := c.binders.length
  match c.wildcard, head.pattern with
  | some wildcard, _ => .error (.unreachableArm type.name arm wildcard)
  | none, .wildcard => do
    let binder ← resolve type head none
    .ok { c with wildcard := some arm, binders := c.binders ++ [binder] }
  | none, .variant name =>
    match type.variantNamed? name with
    | none => .error (.unknownVariant type.name name arm)
    | some (tag, variant) =>
      match c.claims[tag]?.join with
      | some first => .error (.duplicateArm type.name name first arm)
      | none => do
        let binder ← resolve type head (some variant.shape)
        .ok { c with claims := c.claims.set tag (some arm), binders := c.binders ++ [binder] }

/-- The variants that no arm names, in the order of their tags. -/
def missing (type : EnumType) (c : Coverage) : List String :=
  (c.claims.zip type.variantNames).filterMap fun (claim, name) =>
    if claim.isNone then some name else none

/-- The arm that fires for each tag. A wildcard takes what is left, and without one nothing may be
left. -/
def table (type : EnumType) (c : Coverage) : Except MatchError (List Nat) :=
  match c.wildcard with
  | some wildcard => .ok (c.claims.map (·.getD wildcard))
  | none =>
    let missing := c.missing type
    if missing.isEmpty then .ok (c.claims.filterMap id)
    else .error (.nonExhaustive type.name missing)

end Coverage

end TaggedUnion
