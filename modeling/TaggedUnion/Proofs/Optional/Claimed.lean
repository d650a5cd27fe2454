import TaggedUnion.Proofs.Optional.Table

/-!
# Claimed names

Option types share their names with the instances of the generic `Option` that clients register
themselves. A client who does so first has claimed the name, and the option type can no longer be
made. Nothing else stands in the way of a request.

* `Session.ClaimedByClient`: a client has registered an instance of `Option` under the name of an
  option type.
* `Session.Reachable.instance_cases`: an instance of `Option` in the registry is an option type of the
  table, or a client has registered it.
* `Session.not_mem_table_of_claimed`: what a client has registered never enters the table.
* `Session.Reachable.optionOver_succeeds_iff`: a request is granted exactly if no client has claimed
  the name.
-/

namespace TaggedUnion

/-- The declaration of an option type is in order, whatever it is over. -/
theorem OptionType.wellFormed_variants {id : TypeId} {name : String} {inner : FieldType} :
    (EnumType.declared id name (OptionType.variants inner)).WellFormed := by
  refine EnumType.declared_wellFormed_iff.mpr ⟨List.cons_ne_nil _ _, ?_, ?_⟩
  · intro v hv
    simp only [OptionType.variants, List.mem_cons, List.not_mem_nil, or_false] at hv
    rcases hv with rfl | rfl
    · exact ⟨show OptionType.presentName ≠ "" by decide, List.cons_ne_nil _ _⟩
    · exact ⟨show OptionType.absentName ≠ "" by decide, trivial⟩
  · show [OptionType.presentName, OptionType.absentName].Nodup
    decide

namespace Session

variable {s s' : Session} {inner : FieldType} {t : EnumType}

/-! ## What a request depends on -/

/-- A request is granted as long as the name is free. -/
theorem exists_optionOver
    (hfree : s.registry.lookup? (instanceName OptionType.generic [inner]) = none) :
    ∃ o s', s.optionOver inner = (.ok o, s') := by
  cases hover : s.options.over? inner with
  | some o => exact ⟨o, s, optionOver_of_over? hover⟩
  | none =>
    -- the registration that the request makes cannot fail
    have hwf : (EnumType.declared ⟨s.registry.nextId⟩ (instanceName OptionType.generic [inner])
        (OptionType.variants inner)).WellFormed := OptionType.wellFormed_variants
    have hinsert := Registry.insert_eq_ok_iff.mpr ⟨hwf, hfree, rfl, rfl⟩
    have hreg : s.registry.registerInstance OptionType.generic [inner] (OptionType.variants inner)
        = (.ok _, _) :=
      Registry.enter_eq_ok_iff.mpr ⟨rfl, hinsert⟩
    exact ⟨_, _, optionOver_eq_ok_iff.mpr (.inr ⟨hover, _, _, hreg, rfl, rfl⟩)⟩

/-- A name that is in use otherwise stands in the way. -/
theorem optionOver_eq_error (hover : s.options.over? inner = none)
    (hlookup : s.registry.lookup? (instanceName OptionType.generic [inner]) = some t) :
    s.optionOver inner
      = (.error (.registry (.duplicateTypeName (instanceName OptionType.generic [inner]))), s) := by
  have hreg : s.registry.registerInstance OptionType.generic [inner] (OptionType.variants inner)
      = (.error (.duplicateTypeName (instanceName OptionType.generic [inner])), s.registry) :=
    Registry.insert_eq_duplicateTypeName OptionType.wellFormed_variants hlookup
  unfold optionOver registerInstance
  rw [hover, hreg]

/-! ## Who has registered an instance of `Option` -/

/-- A client has registered an instance of the generic `Option` itself, under the name of the option
type over `inner`. -/
def ClaimedByClient (s : Session) (inner : FieldType) : Prop :=
  ∃ (s₀ : Session) (args : List FieldType) (vs : List Variant) (t : EnumType) (s₁ : Session),
    s₀.Reachable ∧ (∀ arg ∈ args, s₀.registry.Knows arg) ∧ s₀.registry.Declares vs ∧
      s₀.registerInstance OptionType.generic args vs = (.ok t, s₁) ∧ Steps s₁ s ∧
      t.name = instanceName OptionType.generic [inner]

/-- An instance of `Option` was made by a request for an option type, or a client has registered it.
Induction on the operations: no other registration makes a name of this kind. -/
theorem Reachable.instance_cases (hs : s.Reachable) (ht : t ∈ s.registry.types)
    (hname : t.name = instanceName OptionType.generic [inner]) :
    (∃ o ∈ s.options.instances, o.type = t) ∨ s.ClaimedByClient inner := by
  induction hs with
  | new => cases ht
  | @next s s' hs hstep ih =>
    by_cases hold : t ∈ s.registry.types
    · rcases ih hold with ⟨o, ho, rfl⟩ | ⟨s₀, args, vs, u, s₁, hs₀, hargs, hvs, hreg, hsteps, hu⟩
      · exact .inl ⟨o, hstep.options_prefix.subset ho, rfl⟩
      · exact .inr ⟨s₀, args, vs, u, s₁, hs₀, hargs, hvs, hreg, hsteps.tail hstep, hu⟩
    · cases hstep with
      | register _ hr =>
        -- a plain name has no brackets
        obtain ⟨r, hreg, rfl⟩ := register_eq_iff.mp hr
        obtain ⟨hplain, hinsert⟩ := (Registry.mem_types_of_enter hreg ht).resolve_left hold
        rw [← Registry.name_of_insert hinsert, checkPlainName_eq_ok_iff, hname] at hplain
        exact absurd (by simp [instanceName, String.toList_append]) hplain.2.1
      | @registerInstance _ generic args vs result hargs hknown hr =>
        obtain ⟨r, hreg, rfl⟩ := registerInstance_eq_iff.mp hr
        obtain ⟨hplain, hinsert⟩ := (Registry.mem_types_of_enter hreg ht).resolve_left hold
        have hnames : instanceName generic args = instanceName OptionType.generic [inner] :=
          (Registry.name_of_insert hinsert).symm.trans hname
        obtain ⟨rfl, -⟩ := (instanceName_eq_iff hplain rfl).mp hnames
        have hgranted := Registry.enter_eq_ok_iff.mpr ⟨hplain, hinsert⟩
        exact .inr ⟨s, args, vs, t, _, hs, hargs, hknown,
          registerInstance_eq_iff.mpr ⟨_, hgranted, rfl⟩, .refl, hname⟩
      | @optionOver _ inner' _ _ hr =>
        obtain ⟨_, -, -, rfl⟩ | ⟨hover, ⟨_, -, -, rfl⟩ | ⟨u, r, hreg, -, rfl⟩⟩ := optionOver_cases hr
        · -- a request that was answered from the table, or has failed, adds no type
          exact absurd ht hold
        · exact absurd ht hold
        · have hinsert := Registry.insert_of_registerInstance hreg
          obtain rfl := ((Registry.mem_types_of_insert hinsert).mp ht).resolve_left hold
          refine .inl ⟨⟨t, inner'⟩, ?_, rfl⟩
          show _ ∈ (s.options.byInner.insert inner' ⟨t, inner'⟩).values
          rw [Dict.values_insert hover]
          exact List.mem_append_right _ (List.mem_singleton.mpr rfl)
      | matching _ => exact absurd ht hold

/-- What a client has registered never enters the table, because a request adds a type that it has
registered itself. Induction on the operations since then. -/
theorem not_mem_table_of_claimed {s₀ s₁ : Session} (hs₀ : s₀.Reachable) {generic : String}
    {args : List FieldType} {vs : List Variant} (hargs : ∀ arg ∈ args, s₀.registry.Knows arg)
    (hknown : s₀.registry.Declares vs)
    (hreg : s₀.registerInstance generic args vs = (.ok t, s₁)) (hsteps : Steps s₁ s) :
    t ∈ s.registry.types ∧ ∀ o ∈ s.options.instances, o.type ≠ t := by
  have hs₁ : s₁.Reachable := hs₀.next (.registerInstance hargs hknown hreg)
  induction hsteps with
  | refl =>
    obtain ⟨r, hinstance, rfl⟩ := registerInstance_eq_iff.mp hreg
    have hinsert := Registry.insert_of_registerInstance hinstance
    refine ⟨Registry.mem_of_insert hinsert, ?_⟩
    rintro o ho rfl
    exact hs₀.consistent.registry.consistent.not_mem_of_insert hinsert
      (hs₀.consistent.options o ho)
  | @tail s s' hsteps hstep ih =>
    obtain ⟨ht, htable⟩ := ih
    refine ⟨hstep.types.subset ht, ?_⟩
    obtain hsame | ⟨inner, u, -, -, hreg', hadded⟩ := hstep.options_cases
    · rw [hsame]
      exact htable
    · rw [hadded, List.forall_mem_append, List.forall_mem_singleton]
      -- the option type that is added is new, and what the client has registered is not
      refine ⟨htable, ?_⟩
      rintro rfl
      exact (hs₁.steps hsteps).consistent.registry.consistent.not_mem_of_insert
        (Registry.insert_of_registerInstance hreg') ht

/-! ## When a request is granted -/

/-- In every session that operations can bring about, and for every known type, a request for the
option type over it is granted exactly if no client has registered an instance of `Option` of that
name before; and if one has, the request fails because the name is in use. So plain registrations and
instances of other generics cannot stand in the way, nor can any other operation. -/
theorem Reachable.optionOver_succeeds_iff (hs : s.Reachable) (hinner : s.registry.Knows inner) :
    ((∃ o s', s.optionOver inner = (.ok o, s')) ↔ ¬ s.ClaimedByClient inner) ∧
      (s.ClaimedByClient inner → s.optionOver inner
        = (.error (.registry (.duplicateTypeName ("Option<" ++ inner.render ++ ">"))), s)) := by
  have hcon := hs.consistent.registry.consistent
  have hfails : s.ClaimedByClient inner → s.optionOver inner
      = (.error (.registry (.duplicateTypeName (instanceName OptionType.generic [inner]))), s) := by
    rintro ⟨s₀, args, vs, t, s₁, hs₀, hargs, hknown, hreg, hsteps, htname⟩
    obtain ⟨ht, htable⟩ := not_mem_table_of_claimed hs₀ hargs hknown hreg hsteps
    have hlookup : s.registry.lookup? t.name = some t := hcon.lookup?_eq_some_iff.mpr ⟨ht, rfl⟩
    rw [htname] at hlookup
    cases hover : s.options.over? inner with
    | none => exact optionOver_eq_error hover hlookup
    | some o =>
      -- the option type would be registered under the very name that the client has claimed
      obtain ⟨ho, rfl⟩ := (hs.over?_eq_some_iff hinner).mp hover
      have hsame : o.type = t :=
        hcon.eq_of_name_eq (hs.registered ho).mem ht ((hs.registered ho).name.trans htname.symm)
      exact absurd hsame (htable o ho)
  refine ⟨⟨?_, ?_⟩, ?_⟩
  · rintro ⟨o, s', hgiven⟩ hclaimed
    rw [hfails hclaimed] at hgiven
    cases hgiven
  · intro hclaimed
    cases hlookup : s.registry.lookup? (instanceName OptionType.generic [inner]) with
    | none => exact exists_optionOver hlookup
    | some t =>
      -- the type that has the name is the option type itself
      obtain ⟨ht, htname⟩ := hcon.lookup?_eq_some_iff.mp hlookup
      rcases hs.instance_cases ht htname with ⟨o, ho, rfl⟩ | hclient
      · have hsame : o.inner = inner :=
          hs.consistent.registry.eq_of_instanceName_singleton_eq rfl (hs.registered ho).knows hinner
            ((hs.registered ho).name.symm.trans htname)
        exact ⟨o, s, optionOver_of_over? ((hs.over?_eq_some_iff hinner).mpr ⟨ho, hsame⟩)⟩
      · exact absurd hclient hclaimed
  · rw [← OptionType.instanceName_generic]
    exact hfails

/-- No client has registered an option over texts, and the option type over them is given. -/
theorem Reachable.optionOver_succeeds_iff_messages :
    (∃ o s', World.messages.session.optionOver (.scalar .text) = (.ok o, s')) ∧
      ¬ World.messages.session.ClaimedByClient (.scalar .text) := by
  have hgiven : ∃ o s', World.messages.session.optionOver (.scalar .text) = (.ok o, s') :=
    ⟨_, _, rfl⟩
  have hknown : World.messages.session.registry.Knows (.scalar .text) := trivial
  obtain ⟨hsucceeds, -⟩ :=
    World.reachable_messages.sound.session.optionOver_succeeds_iff hknown
  exact ⟨hgiven, hsucceeds.mp hgiven⟩

/-- A type with the name of the option type over `int` and a variant of its own. -/
def claimedOption : EnumType where
  id := ⟨0⟩
  name := "Option<int>"
  variants := [⟨"Only", .unit⟩]
  index := ⟨[("Only", 0)]⟩

/-- The session after a client has registered this type. -/
def claimed : Session where
  registry :=
    { byName := ⟨[("Option<int>", claimedOption)]⟩
      nextId := 1 }

/-- A client registers an instance of `Option` over `int`. From then on the option type over `int`
cannot be made. -/
theorem optionOver_blocked_by_client :
    claimed.Reachable ∧
      (claimed.optionOver (.scalar .int)).1
        = .error (.registry (.duplicateTypeName "Option<int>")) := by
  have hregister : Session.registerInstance {} "Option" [.scalar .int] claimedOption.variants
      = (.ok claimedOption, claimed) := rfl
  have hargs : ∀ arg ∈ [FieldType.scalar .int], Registry.Knows {} arg := by
    intro arg harg
    rw [List.mem_singleton.mp harg]
    trivial
  have hdeclares : Registry.Declares {} claimedOption.variants := by
    intro v hv type htype
    rw [List.mem_singleton.mp hv] at htype
    cases htype
  exact ⟨.next .new (.registerInstance hargs hdeclares hregister), rfl⟩

end Session

end TaggedUnion
