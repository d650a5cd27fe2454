import TaggedUnion.Optional.Basic

/-!
# Errors

Any error of the library, for callers that do not care which part it comes from. The text is the one
that the part gives it.
-/

namespace TaggedUnion

/-- An error of any part of the library. -/
inductive Error
  | registry (error : RegistryError)
  | value (error : ValueError)
  | matching (error : MatchError)
  | option (error : OptionError)

def Error.message : Error → String
  | registry error => error.message
  | value error => error.message
  | matching error => error.message
  | option error => error.message

instance : Coe RegistryError Error := ⟨.registry⟩
instance : Coe ValueError Error := ⟨.value⟩
instance : Coe MatchError Error := ⟨.matching⟩
instance : Coe OptionError Error := ⟨.option⟩

end TaggedUnion
