import TaggedUnion.Match.Binder

/-!
# Heads of arms

The head of an arm says what the arm matches and what it names. Whether a list of arms is well
formed depends on the heads alone.
-/

namespace TaggedUnion

/-- What an arm matches. -/
inductive Pattern
  /-- The variant of this name. -/
  | variant (name : String)
  /-- Whatever the arms before it leave. -/
  | wildcard
  deriving DecidableEq

/-- The part of an arm that checks look at. -/
structure ArmHead where
  pattern : Pattern
  binder : Binder
  deriving DecidableEq

namespace ArmHead

def isWildcard (h : ArmHead) : Bool :=
  h.pattern == .wildcard

/-- The name that the pattern is written with. -/
def patternName (h : ArmHead) : String :=
  match h.pattern with
  | .variant name => name
  | .wildcard => placeholder

/-- An arm's head as a match expression would write it. A field bound to its own name is written
once. -/
def render (h : ArmHead) : String :=
  match h.binder with
  | .ignore => if h.isWildcard then placeholder else Text.tuple h.patternName [".."]
  | .whole name => name ++ " @ " ++ h.patternName
  | .positional names => Text.tuple h.patternName names
  | .named pairs =>
    Text.record h.patternName (pairs.map fun (field, name) =>
      if field = name then field else Text.labelled field name)

end ArmHead

def Pattern.inspect : Pattern → String
  | .variant name => Text.tuple "Variant" [Text.quote name]
  | .wildcard => "Wildcard"

def ArmHead.inspect (h : ArmHead) : String :=
  Text.record "ArmShape"
    [Text.labelled "pattern" h.pattern.inspect, Text.labelled "binders" h.binder.inspect]

end TaggedUnion
