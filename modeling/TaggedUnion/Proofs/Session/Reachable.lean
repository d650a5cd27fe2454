import TaggedUnion.Session
import TaggedUnion.Proofs.Match.Cache

/-!
# Reachable sessions

What the operations of the library can make of a session. Registrations and requests for option types
add types to it, or fail; a match, of a client or of an operation on options, may add to the plans it has
kept.

* `Session.Step`, `Session.Reachable`: one operation, and any number of them on a new session.
* `Session.register_eq_iff`, `Session.registerInstance_eq_iff`, `Session.optionOver_eq_ok_iff`,
  `Session.optionOver_cases`: all that the operations which add types do.
* `Session.Consistent`: what every operation keeps, among it that the two dictionaries of option types
  have the same entries. `Session.Reachable.consistent` proves it.
-/

namespace TaggedUnion

namespace Session

/-- What an operation can do to a session, whether it succeeds or fails. Types are named after they were
registered. Checks of arms and matches leave the session with a matcher that has been asked about more. -/
inductive Step (s : Session) : Session → Prop
  | register {s' : Session} {name : String} {vs : List Variant}
      {result : Except RegistryError EnumType} (hknown : s.registry.Declares vs)
      (hr : s.register name vs = (result, s')) : Step s s'
  | registerInstance {s' : Session} {generic : String} {args : List FieldType} {vs : List Variant}
      {result : Except RegistryError EnumType} (hargs : ∀ arg ∈ args, s.registry.Knows arg)
      (hknown : s.registry.Declares vs)
      (hr : s.registerInstance generic args vs = (result, s')) : Step s s'
  | optionOver {s' : Session} {inner : FieldType} {result : Except OptionError OptionType}
      (hinner : s.registry.Knows inner) (hr : s.optionOver inner = (result, s')) : Step s s'
  | matching {m : Matcher} (hm : m.Reachable s.registry) : Step s { s with matcher := m }

/-- The sessions that operations bring about. -/
inductive Reachable : Session → Prop
  | new : Reachable {}
  | next {s s' : Session} (h : Reachable s) (hstep : s.Step s') : Reachable s'

/-- What every operation keeps: an option type stands under what it is over, and under its identity, in
one dictionary if in the other; option types are registered types; and the matcher has been asked about
registered types only. -/
structure Consistent (s : Session) : Prop where
  registry : s.registry.Reachable
  byInner : ∀ entry ∈ s.options.byInner.entries, entry.1 = entry.2.inner
  byType : s.options.byType.entries = s.options.instances.map fun o => (o.type.id, o)
  options : ∀ o ∈ s.options.instances, o.type ∈ s.registry.types
  matcher : s.matcher.Reachable s.registry

/-! ## The operations -/

variable {s s' : Session} {vs : List Variant} {result : Except RegistryError EnumType}
  {inner : FieldType}

/-- To register a type is to do so in the registry, and nothing else changes. -/
theorem register_eq_iff {name : String} :
    s.register name vs = (result, s') ↔
      ∃ r, s.registry.register name vs = (result, r) ∧ s' = { s with registry := r } := by
  unfold register
  simp [Prod.ext_iff, eq_comm, and_assoc]

theorem registerInstance_eq_iff {generic : String} {args : List FieldType} :
    s.registerInstance generic args vs = (result, s') ↔
      ∃ r, s.registry.registerInstance generic args vs = (result, r) ∧
        s' = { s with registry := r } := by
  unfold registerInstance
  simp [Prod.ext_iff, eq_comm, and_assoc]

/-- A request for an option type is for one that has been made before; or its registration fails, which
leaves the session as it was; or the option type is registered and entered into the table. -/
theorem optionOver_cases {result : Except OptionError OptionType}
    (h : s.optionOver inner = (result, s')) :
    (∃ o, s.options.over? inner = some o ∧ result = .ok o ∧ s' = s) ∨
      s.options.over? inner = none ∧
        ((∃ e, (s.registry.registerInstance OptionType.generic [inner]
            (OptionType.variants inner)).1 = .error e ∧ result = .error (.registry e) ∧ s' = s) ∨
          ∃ t r, s.registry.registerInstance OptionType.generic [inner] (OptionType.variants inner)
              = (.ok t, r) ∧
            result = .ok ⟨t, inner⟩ ∧
            s' = { s with registry := r, options := s.options.insert ⟨t, inner⟩ }) := by
  unfold optionOver registerInstance at h
  cases hover : s.options.over? inner with
  | some o =>
    rw [hover] at h
    cases h
    exact .inl ⟨o, rfl, rfl, rfl⟩
  | none =>
    rw [hover] at h
    dsimp only at h
    cases hreg : s.registry.registerInstance OptionType.generic [inner]
      (OptionType.variants inner) with
    | mk result r =>
      rw [hreg] at h
      cases result with
      | error e =>
        cases h
        -- the registry that comes back with the error is the old one
        rw [Registry.eq_of_enter_eq_error hreg]
        exact .inr ⟨rfl, .inl ⟨e, rfl, rfl, rfl⟩⟩
      | ok t =>
        cases h
        exact .inr ⟨rfl, .inr ⟨t, r, rfl, rfl, rfl⟩⟩

/-- A request that fails gives the session back as it was. -/
theorem eq_of_optionOver_eq_error {e : OptionError} (h : s.optionOver inner = (.error e, s')) :
    s' = s := by
  rcases optionOver_cases h with ⟨_, -, -, hsame⟩ | ⟨-, ⟨_, -, -, hsame⟩ | ⟨_, _, -, hcontra, -⟩⟩
  · exact hsame
  · exact hsame
  · cases hcontra

/-- An option type has been made before, or it is registered now. -/
theorem optionOver_eq_ok_iff {o : OptionType} :
    s.optionOver inner = (.ok o, s') ↔
      (s.options.over? inner = some o ∧ s' = s) ∨
        (s.options.over? inner = none ∧ ∃ t r,
          s.registry.registerInstance OptionType.generic [inner] (OptionType.variants inner)
            = (.ok t, r) ∧
          o = ⟨t, inner⟩ ∧
          s' = { s with registry := r, options := s.options.insert ⟨t, inner⟩ }) := by
  constructor
  · intro h
    rcases optionOver_cases h with ⟨_, hover, ⟨⟩, rfl⟩ | ⟨hover, hreg⟩
    · exact .inl ⟨hover, rfl⟩
    · rcases hreg with ⟨_, -, hcontra, -⟩ | ⟨t, r, hreg, ho, rfl⟩
      · cases hcontra
      · cases ho
        exact .inr ⟨hover, t, r, hreg, rfl, rfl⟩
  · rintro (⟨hover, rfl⟩ | ⟨hover, t, r, hreg, rfl, rfl⟩)
    · unfold optionOver
      rw [hover]
    · unfold optionOver registerInstance
      rw [hover, hreg]

/-! ## The invariant -/

/-- The variants of an option type refer to what it is over, and to no other type. -/
theorem declares_optionVariants {r : Registry} {inner : FieldType} (h : r.Knows inner) :
    r.Declares (OptionType.variants inner) := by
  intro v hv type htype
  simp only [OptionType.variants, List.mem_cons, List.not_mem_nil, or_false] at hv
  rcases hv with rfl | rfl
  · rw [List.mem_singleton.mp htype]
    exact h
  · cases htype

/-- Types stay registered, under the identity and the name that they have. -/
theorem Step.types (h : s.Step s') : s.registry.types <+: s'.registry.types := by
  cases h with
  | register hknown hr =>
    obtain ⟨r, hreg, rfl⟩ := register_eq_iff.mp hr
    exact Registry.prefix_of_enter hreg
  | registerInstance hargs hknown hr =>
    obtain ⟨r, hreg, rfl⟩ := registerInstance_eq_iff.mp hr
    exact Registry.prefix_of_enter hreg
  | optionOver hinner hr =>
    obtain ⟨_, -, -, rfl⟩ | ⟨-, ⟨_, -, -, rfl⟩ | ⟨t, r, hreg, -, rfl⟩⟩ := optionOver_cases hr
    · exact List.prefix_refl _
    · exact List.prefix_refl _
    · exact Registry.prefix_of_enter hreg
  | matching hm => exact List.prefix_refl _

/-- What a new option type does to the two dictionaries: in both it goes to the end. Its identity is new
because the registry has just given it out, and what it is over is new because it was looked up. -/
theorem Consistent.entries_insert (h : s.Consistent) (hover : s.options.over? inner = none)
    {name : String} {vs : List Variant} {t : EnumType} {r : Registry}
    (hinsert : s.registry.insert name vs = (.ok t, r)) :
    (s.options.insert ⟨t, inner⟩).byInner.entries
        = s.options.byInner.entries ++ [(inner, ⟨t, inner⟩)] ∧
      (s.options.insert ⟨t, inner⟩).byType.entries
        = s.options.byType.entries ++ [(t.id, ⟨t, inner⟩)] := by
  refine ⟨Dict.entries_insert hover, Dict.entries_insert ?_⟩
  rw [Dict.get?, lookup_eq_none_iff_not_mem, h.byType, List.map_map, List.mem_map]
  -- an entry under this identity would be of a type that is registered already
  rintro ⟨o, ho, hid⟩
  exact h.registry.consistent.id_ne_of_insert hinsert (h.options o ho) hid

/-- What is found by an identity is found by what it is over as well. -/
theorem Consistent.mem_of_withId? (h : s.Consistent) {id : TypeId} {o : OptionType}
    (hid : s.options.withId? id = some o) : o ∈ s.options.instances ∧ o.type.id = id := by
  have hentry := mem_of_lookup_eq_some (show s.options.byType.entries.lookup id = some o from hid)
  rw [h.byType] at hentry
  obtain ⟨o', ho', heq⟩ := List.mem_map.mp hentry
  cases heq
  exact ⟨ho', rfl⟩

/-- The step: every operation keeps the invariant. -/
theorem Consistent.step (h : s.Consistent) (hstep : s.Step s') : s'.Consistent := by
  have hgrows := hstep.types
  have hmatcher := h.matcher.mono hgrows
  have hoptions : ∀ o ∈ s.options.instances, o.type ∈ s'.registry.types :=
    fun o ho => hgrows.subset (h.options o ho)
  cases hstep with
  | register hknown hr =>
    obtain ⟨r, hreg, rfl⟩ := register_eq_iff.mp hr
    exact ⟨.register h.registry hknown hreg, h.byInner, h.byType, hoptions, hmatcher⟩
  | registerInstance hargs hknown hr =>
    obtain ⟨r, hreg, rfl⟩ := registerInstance_eq_iff.mp hr
    exact ⟨.registerInstance h.registry hargs hknown hreg, h.byInner, h.byType, hoptions, hmatcher⟩
  | @optionOver _ inner _ hinner hr =>
    obtain ⟨_, -, -, rfl⟩ | ⟨hover, ⟨_, -, -, rfl⟩ | ⟨t, r, hreg, -, rfl⟩⟩ := optionOver_cases hr
    · exact h
    · exact h
    · -- the request was granted, so the registry has the type and both dictionaries get an entry
      have hreachable : r.Reachable :=
        .registerInstance h.registry (List.forall_mem_singleton.mpr hinner)
          (declares_optionVariants hinner) hreg
      have hinsert := Registry.insert_of_registerInstance hreg
      obtain ⟨hinners, htypes⟩ := h.entries_insert hover hinsert
      have hinstances : (s.options.insert ⟨t, inner⟩).instances
          = s.options.instances ++ [⟨t, inner⟩] :=
        Dict.values_insert hover
      refine ⟨hreachable, ?_, ?_, ?_, hmatcher⟩
      · rw [hinners, List.forall_mem_append, List.forall_mem_singleton]
        exact ⟨h.byInner, rfl⟩
      · rw [htypes, hinstances, h.byType, List.map_append, List.map_singleton]
      · -- the one option type that is new has just been registered
        rw [hinstances, List.forall_mem_append, List.forall_mem_singleton]
        exact ⟨hoptions, Registry.mem_of_insert hinsert⟩
  | matching hm => exact ⟨h.registry, h.byInner, h.byType, h.options, hm⟩

/-- Every session that operations bring about is consistent. Induction on the operations. -/
theorem Reachable.consistent (h : s.Reachable) : s.Consistent := by
  induction h with
  | new =>
    exact ⟨.empty, by simp, rfl, by simp [OptionTable.instances, Dict.values], .new defaultCapacity⟩
  | next _ hstep ih => exact ih.step hstep

end Session

end TaggedUnion
