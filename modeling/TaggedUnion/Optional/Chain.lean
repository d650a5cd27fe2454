import TaggedUnion.Optional.Dispatch

/-!
# Options from options

Operations that make an option from an option. Each first makes sure that its value is an option. A
function that is passed in runs in the session too, at most once, and only on the value held.
-/

namespace TaggedUnion.Optional

variable {m : Type → Type} [Monad m]

/-- The option in `into` of what `f` makes of the value in an option. -/
def map (option : EnumValue) (into : OptionType) (f : Value → SessionT m Value) :
    OptionsT m EnumValue := do
  let _ ← typeOf option
  dispatch option
    (fun v => do .ofExcept (into.present (← f v)))
    (.ofExcept into.absent)

/-- The option that `f` makes of the value in an option, which must be of type `into`. -/
def andThen (option : EnumValue) (into : OptionType) (f : Value → OptionsT m EnumValue) :
    OptionsT m EnumValue := do
  let _ ← typeOf option
  dispatch option
    (fun v => do
      let chained ← f v
      .ofExcept (ensureInstance into chained)
      return chained)
    (.ofExcept into.absent)

/-- The option itself if it holds a value, or else the alternative, which must be of the same type
either way. -/
def orElse (option alternative : EnumValue) : OptionsT m EnumValue := do
  let type ← typeOf option
  .ofExcept (ensureInstance type alternative)
  dispatch option (fun _ => pure option) (pure alternative)

end TaggedUnion.Optional
