import TaggedUnion.Optional.Dispatch

/-!
# Looking into options

Operations that say what an option holds. Each first makes sure that its value is an option.
-/

namespace TaggedUnion.Optional

variable {m : Type → Type} [Monad m]

/-- The value in an option, or else the default, which must be of the inner type either way. -/
def unwrapOr (option : EnumValue) (default : Value) : OptionsT m Value := do
  let type ← typeOf option
  if default.conformsTo type.inner then
    dispatch option pure (pure default)
  else
    throw (.typeMismatch type.inner.render default.type.render)

def isPresent (option : EnumValue) : OptionsT m Bool := do
  let _ ← typeOf option
  dispatch option (fun _ => pure true) (pure false)

def isAbsent (option : EnumValue) : OptionsT m Bool :=
  (!·) <$> isPresent option

/-- The value in an option, which must hold one. -/
def unwrap (option : EnumValue) : OptionsT m Value := do
  let type ← typeOf option
  dispatch option pure (throw (.unwrapAbsent type.name))

/-- What an option holds, without its type. -/
def held? (option : EnumValue) : OptionsT m (Option Value) := do
  let _ ← typeOf option
  dispatch option (fun v => pure (some v)) (pure none)

end TaggedUnion.Optional
