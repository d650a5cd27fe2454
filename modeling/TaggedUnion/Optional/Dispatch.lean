import TaggedUnion.Session

/-!
# Dispatch on options

Operations on options have one thing in common: they find the option type of their value, and then
match the value with one arm for each variant. Here are these two steps, and the check that an
instance is of an expected option type.
-/

namespace TaggedUnion.Optional

variable {m : Type → Type} [Monad m]

def typeOf (v : EnumValue) : OptionsT m OptionType :=
  ExceptT.mk fun session => pure (session.options.typeOf v, session)

/-- The name that the value in an option gets in its arm. -/
def valueName : String :=
  "value"

/-- The two arms of a match on an option. The outer result says whether the arm could read the value
in the option. -/
def arms {α : Type} (present : Value → α) (absent : α) : List (Arm (Except MatchError α)) :=
  [.on OptionType.presentName (.positional [valueName]) fun bindings =>
      present <$> (bindings.take valueName).1,
    .on OptionType.absentName .ignore fun _ => .ok absent]

/-- Goes on with `present` on the value in an option, or with `absent` if there is none. -/
def dispatch {α : Type} (option : EnumValue) (present : Value → OptionsT m α)
    (absent : OptionsT m α) : OptionsT m α :=
  ExceptT.mk fun session =>
    match session.evaluate option (arms present absent) with
    | (.ok (.ok action), session) => action.run.run session
    | (.ok (.error error), session) | (.error error, session) =>
      pure (.error (.matching error), session)

/-- Fails unless the value is of the given option type. -/
def ensureInstance (expected : OptionType) (v : EnumValue) : Except OptionError Unit :=
  if expected.isInstance v then .ok ()
  else .error (.typeMismatch expected.name v.type.name)

end TaggedUnion.Optional
