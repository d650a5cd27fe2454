import TaggedUnion.Optional.Basic

/-!
# Sessions

A session is what successive operations share: the registered types, the option types among them,
and the matcher that is used when no other is named. An operation gives the session back with its result,
also when it fails. Operations follow one another, so what is looked up is not looked up again before it
is added.
-/

namespace TaggedUnion

/-- The state that successive operations share. A new one knows no types and no plans. -/
structure Session where
  registry : Registry := {}
  options : OptionTable := {}
  matcher : Matcher := {}

namespace Session

def register (s : Session) (name : String) (variants : List Variant) :
    Except RegistryError EnumType × Session :=
  let (result, registry) := s.registry.register name variants
  (result, { s with registry })

def registerInstance (s : Session) (generic : String) (args : List FieldType)
    (variants : List Variant) : Except RegistryError EnumType × Session :=
  let (result, registry) := s.registry.registerInstance generic args variants
  (result, { s with registry })

/-- The option type over a field type, registered if it is not yet known. Nothing else uses the table
meanwhile, so that it is looked up once. -/
def optionOver (s : Session) (inner : FieldType) : Except OptionError OptionType × Session :=
  match s.options.over? inner with
  | some option => (.ok option, s)
  | none =>
    match s.registerInstance OptionType.generic [inner] (OptionType.variants inner) with
    | (.error error, s) => (.error (.registry error), s)
    | (.ok type, s) =>
      let option : OptionType := ⟨type, inner⟩
      (.ok option, { s with options := s.options.insert option })

def validate {R : Type} (s : Session) (type : EnumType) (arms : List (Arm R)) :
    Except MatchError Plan × Session :=
  let (plan, matcher) := s.matcher.validate type arms
  (plan, { s with matcher })

/-- Matches a value against a list of arms with the session's matcher. -/
def evaluate {R : Type} (s : Session) (v : EnumValue) (arms : List (Arm R)) :
    Except MatchError R × Session :=
  let (outcome, matcher) := s.matcher.evaluate v arms
  (outcome, { s with matcher })

end Session

/-- A computation that uses and changes a session. -/
abbrev SessionT (m : Type → Type) :=
  StateT Session m

/-- A computation on options: it uses a session, and may fail. A failure keeps the session. -/
abbrev OptionsT (m : Type → Type) :=
  ExceptT OptionError (SessionT m)

/-- A result that needs no session. -/
def OptionsT.ofExcept {m : Type → Type} [Monad m] {α : Type} (result : Except OptionError α) :
    OptionsT m α :=
  ExceptT.mk (pure result)

end TaggedUnion
