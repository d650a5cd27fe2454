import TaggedUnion.Match.Plan

/-!
# Matchers

A matcher matches values against lists of arms. It keeps the plans it has made, up to its capacity,
and uses a plan again for the same type and the same heads. Rejected lists are not kept, and what is
kept is never given up, so a full matcher goes on working but learns nothing more.
-/

namespace TaggedUnion

/-- What a plan depends on. -/
structure PlanKey where
  type : TypeId
  heads : List ArmHead
  deriving DecidableEq

/-- The number of plans that a matcher keeps unless told otherwise. -/
def defaultCapacity : Nat :=
  1024

/-- A matcher with the plans it has kept, the oldest first. -/
structure Matcher where
  capacity : Nat := defaultCapacity
  plans : List (PlanKey × Plan) := []

namespace Matcher

def uncached : Matcher :=
  ⟨0, []⟩

def cachedPlans (m : Matcher) : Nat :=
  m.plans.length

def keep (m : Matcher) (key : PlanKey) (plan : Plan) : Matcher :=
  if m.plans.length < m.capacity then { m with plans := m.plans ++ [(key, plan)] } else m

/-- The plan for a type and the heads of a list of arms. Nothing else uses the matcher while a plan is
compiled, so a key that was not there before is not there after, and is not looked up twice. -/
def plan (m : Matcher) (type : EnumType) (heads : List ArmHead) :
    Except MatchError Plan × Matcher :=
  let key : PlanKey := ⟨type.id, heads⟩
  match m.plans.lookup key with
  | some plan => (.ok plan, m)
  | none =>
    match Plan.compile type heads with
    | .error error => (.error error, m)
    | .ok plan => (.ok plan, m.keep key plan)

def validate {R : Type} (m : Matcher) (type : EnumType) (arms : List (Arm R)) :
    Except MatchError Plan × Matcher :=
  m.plan type (arms.map (·.head))

/-- Matches a value against a list of arms, all of which must be well formed whichever fires. -/
def evaluate {R : Type} (m : Matcher) (v : EnumValue) (arms : List (Arm R)) :
    Except MatchError R × Matcher :=
  let (plan, m) := m.validate v.type arms
  (plan.bind (·.run v arms), m)

def inspect (m : Matcher) : String :=
  Text.record "MatchEngine"
    [Text.labelled "capacity" (toString m.capacity), Text.labelled "plans" (toString m.cachedPlans)]

end Matcher

end TaggedUnion
