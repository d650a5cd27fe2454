import TaggedUnion.Match.Binder
import TaggedUnion.Value.Construct

/-!
# Match errors

What can be wrong with a list of arms, and with reading a name in the body of an arm.
-/

namespace TaggedUnion

/-- Why a list of arms is rejected, or a name in the body of an arm cannot be read. -/
inductive MatchError
  | nonExhaustive (type : String) (missing : List String)
  | duplicateArm (type variant : String) (first second : Nat)
  | unreachableArm (type : String) (arm wildcard : Nat)
  | unknownVariant (type variant : String) (arm : Nat)
  | binderMismatch (type variant : String) (issue : BinderIssue)
  | unboundName (name : String)
  | bindingType (name expected : String) (found : FieldType)
  | value (error : ValueError)

def MatchError.message : MatchError → String
  | nonExhaustive type missing =>
    s!"non-exhaustive match on `{type}`: missing " ++ Text.commas missing
  | duplicateArm type variant first second =>
    s!"variant `{type}::{variant}` is matched by arm {first} and again by arm {second}"
  | unreachableArm type arm wildcard =>
    s!"arm {arm} on `{type}` is unreachable: "
      ++ s!"the wildcard at arm {wildcard} already matches everything"
  | unknownVariant type variant arm =>
    s!"arm {arm} names `{variant}`, which is not a variant of `{type}`"
  | binderMismatch type variant issue =>
    s!"binders for `{type}::{variant}` do not match its fields: {issue.message}"
  | unboundName name => s!"no binding named `{name}` in this arm"
  | bindingType name expected found => s!"binding `{name}` holds `{found.render}`, not `{expected}`"
  | value error => error.message

end TaggedUnion
