import TaggedUnion.Proofs.Schema.InstanceName
import TaggedUnion.Proofs.Session.Invariant
import Mathlib.Logic.Relation

/-!
# The table of option types

A session keeps the option types that it has made in two dictionaries, one by the type that they hold and
one by their own identity. A request for an option type writes the registry and then one dictionary after
the other, unless it fails. In every reachable session the two dictionaries and the registry agree.

* `OptionType.Registered`: an entry of the table is registered as the option type over its inner type.
* `Session.Reachable.registered`: so is every entry, whatever else was registered in between.
* `Session.Reachable.over?_eq_some_iff`, `Session.Reachable.withId?_eq_some_iff`: each dictionary finds
  all option types that were made and nothing else.
* `Session.Reachable.optionTable_faithful`: the two dictionaries are inverse to each other, and an option
  type once made stays the option type over its inner type.
-/

namespace TaggedUnion

/-- Whether a value is of an option type is decided by identities. -/
theorem OptionType.isInstance_iff {o : OptionType} {v : EnumValue} :
    o.isInstance v = true ↔ o.type.id = v.type.id := by
  show (v.type.id == o.type.id) = true ↔ _
  rw [beq_iff_eq, eq_comm]

/-- The name of the option type over a type, written out. -/
theorem OptionType.instanceName_generic (inner : FieldType) :
    instanceName OptionType.generic [inner] = "Option<" ++ inner.render ++ ">" := by
  simp [instanceName, OptionType.generic, Text.commas, String.append_assoc]

/-- The option type is registered as the instance over its inner type, with the variants of one. -/
structure OptionType.Registered (r : Registry) (o : OptionType) : Prop where
  mem : o.type ∈ r.types
  knows : r.Knows o.inner
  name : o.type.name = instanceName OptionType.generic [o.inner]
  variants : o.type.variants = OptionType.variants o.inner

namespace OptionType.Registered

variable {r : Registry} {o o' : OptionType}

theorem mono {r' : Registry} (h : o.Registered r) (hgrows : r.types <+: r'.types) :
    o.Registered r' :=
  ⟨hgrows.subset h.mem, h.knows.mono hgrows, h.name, h.variants⟩

/-- One inner type, one option type: the name of the type follows from it. -/
theorem eq_of_inner_eq (hr : r.Reachable) (h : o.Registered r) (h' : o'.Registered r)
    (hinner : o.inner = o'.inner) : o = o' := by
  have hname : o.type.name = o'.type.name := by
    rw [h.name, h'.name, hinner]
  -- a name belongs to one registered type
  have htype : o.type = o'.type := hr.consistent.eq_of_name_eq h.mem h'.mem hname
  cases o
  cases o'
  cases htype
  cases hinner
  rfl

/-- One identity, one option type: the name says which type is held. -/
theorem eq_of_id_eq (hr : r.Reachable) (h : o.Registered r) (h' : o'.Registered r)
    (hid : o.type.id = o'.type.id) : o = o' := by
  have htype : o.type = o'.type := hr.consistent.eq_of_id_eq h.mem h'.mem hid
  have hnames : instanceName OptionType.generic [o.inner]
      = instanceName OptionType.generic [o'.inner] := by
    rw [← h.name, ← h'.name, htype]
  -- what an instance is over can be read off its name
  exact eq_of_inner_eq hr h h' (hr.eq_of_instanceName_singleton_eq rfl h.knows h'.knows hnames)

end OptionType.Registered

namespace Session

variable {s s' : Session} {inner : FieldType} {o : OptionType}

/-! ## What a step does to the table -/

/-- The table changes with a request for an option type that is not yet known, if it is granted, and with
nothing else. -/
theorem Step.options_cases (h : s.Step s') :
    s'.options = s.options ∨
      ∃ inner t, s.registry.Knows inner ∧ s.options.over? inner = none ∧
        s.registry.registerInstance OptionType.generic [inner] (OptionType.variants inner)
          = (.ok t, s'.registry) ∧
        s'.options.instances = s.options.instances ++ [⟨t, inner⟩] := by
  cases h with
  | register _ hr =>
    obtain ⟨r, -, rfl⟩ := register_eq_iff.mp hr
    exact .inl rfl
  | registerInstance _ _ hr =>
    obtain ⟨r, -, rfl⟩ := registerInstance_eq_iff.mp hr
    exact .inl rfl
  | @optionOver _ inner _ hinner hr =>
    obtain ⟨_, -, -, rfl⟩ | ⟨hnew, ⟨_, -, -, rfl⟩ | ⟨t, r, hreg, -, rfl⟩⟩ := optionOver_cases hr
    · exact .inl rfl
    · exact .inl rfl
    · exact .inr ⟨inner, t, hinner, hnew, hreg, Dict.values_insert hnew⟩
  | matching _ => exact .inl rfl

/-- No option type is ever taken out of the table. -/
theorem Step.options_prefix (h : s.Step s') : s.options.instances <+: s'.options.instances := by
  obtain hsame | ⟨inner, t, -, -, -, hadded⟩ := h.options_cases
  · rw [hsame]
  · rw [hadded]
    exact List.prefix_append _ _

/-- Any number of steps. -/
abbrev Steps : Session → Session → Prop :=
  Relation.ReflTransGen Step

/-- Nor is one in any number of steps. -/
theorem Steps.options_prefix (h : Steps s s') : s.options.instances <+: s'.options.instances := by
  induction h with
  | refl => exact List.prefix_refl _
  | tail _ hstep ih => exact ih.trans hstep.options_prefix

theorem Steps.types (h : Steps s s') : s.registry.types <+: s'.registry.types := by
  induction h with
  | refl => exact List.prefix_refl _
  | tail _ hstep ih => exact ih.trans hstep.types

theorem Reachable.steps (hs : s.Reachable) (h : Steps s s') : s'.Reachable := by
  induction h with
  | refl => exact hs
  | tail _ hstep ih => exact ih.next hstep

/-! ## Look-ups -/

/-- An entry was registered when it was made, and types stay registered. Induction on the operations;
the one that adds an entry has just registered its type. -/
theorem Reachable.registered (hs : s.Reachable) (ho : o ∈ s.options.instances) :
    o.Registered s.registry := by
  induction hs with
  | new => cases ho
  | @next s s' hs hstep ih =>
    obtain hsame | ⟨inner, t, hinner, -, hreg, hadded⟩ := hstep.options_cases
    · rw [hsame] at ho
      exact (ih ho).mono hstep.types
    · rw [hadded] at ho
      rcases List.mem_append.mp ho with hold | hnew
      · exact (ih hold).mono hstep.types
      · rw [List.mem_singleton.mp hnew]
        -- the new entry: its type has just been registered
        have hinsert := Registry.insert_of_registerInstance hreg
        obtain ⟨-, -, ht, -⟩ := Registry.insert_eq_ok_iff.mp hinsert
        exact ⟨Registry.mem_of_insert hinsert, hinner.mono hstep.types,
          Registry.name_of_insert hinsert, congrArg EnumType.variants ht⟩

/-- The dictionary by inner types finds all option types that were made, each under what it is over. Its
keys are compared by identity, which among known types is enough. -/
theorem Reachable.over?_eq_some_iff (hs : s.Reachable) (hinner : s.registry.Knows inner) :
    s.options.over? inner = some o ↔ o ∈ s.options.instances ∧ o.inner = inner := by
  have hkey : ∀ entry ∈ s.options.byInner.entries,
      entry.2 ∈ s.options.instances ∧ ((inner == entry.1) = true ↔ entry.2.inner = inner) := by
    intro entry hentry
    have ho : entry.2 ∈ s.options.instances := List.mem_map_of_mem hentry
    rw [hs.consistent.byInner entry hentry,
      hs.consistent.registry.consistent.beq_iff_eq_of_knows hinner (hs.registered ho).knows]
    exact ⟨ho, eq_comm⟩
  rw [OptionTable.over?, Dict.get?_eq_some_iff_of_unique]
  · constructor
    · rintro ⟨entry, hentry, hfound, rfl⟩
      obtain ⟨ho, hkey⟩ := hkey entry hentry
      exact ⟨ho, hkey.mp hfound⟩
    · rintro ⟨ho, ho'⟩
      obtain ⟨entry, hentry, rfl⟩ := List.mem_map.mp ho
      exact ⟨entry, hentry, (hkey entry hentry).2.mpr ho', rfl⟩
  · -- two entries under equal keys hold option types over one type, and there is one of these
    intro entry hentry entry' hentry' hfound hfound'
    obtain ⟨ho, hkey₁⟩ := hkey entry hentry
    obtain ⟨ho', hkey₂⟩ := hkey entry' hentry'
    exact (hs.registered ho).eq_of_inner_eq hs.consistent.registry (hs.registered ho')
      ((hkey₁.mp hfound).trans (hkey₂.mp hfound').symm)

/-- The dictionary by identities finds the same option types, each under its own identity. -/
theorem Reachable.withId?_eq_some_iff (hs : s.Reachable) {id : TypeId} :
    s.options.withId? id = some o ↔ o ∈ s.options.instances ∧ o.type.id = id := by
  have hentries : ∀ entry ∈ s.options.byType.entries,
      entry.2 ∈ s.options.instances ∧ entry.1 = entry.2.type.id := by
    rw [hs.consistent.byType]
    intro entry hentry
    obtain ⟨o, ho, rfl⟩ := List.mem_map.mp hentry
    exact ⟨ho, rfl⟩
  refine ⟨hs.consistent.mem_of_withId?, ?_⟩
  rintro ⟨ho, rfl⟩
  rw [OptionTable.withId?, Dict.get?_eq_some_iff_of_unique]
  · refine ⟨(o.type.id, o), ?_, beq_self_eq_true _, rfl⟩
    rw [hs.consistent.byType]
    exact List.mem_map_of_mem ho
  · -- two entries under one identity hold the same option type
    intro entry hentry entry' hentry' hfound hfound'
    obtain ⟨hmem, hid⟩ := hentries entry hentry
    obtain ⟨hmem', hid'⟩ := hentries entry' hentry'
    have hsame : entry.1 = entry'.1 := (beq_iff_eq.mp hfound).symm.trans (beq_iff_eq.mp hfound')
    exact (hs.registered hmem).eq_of_id_eq hs.consistent.registry (hs.registered hmem')
      (hid.symm.trans (hsame.trans hid'))

/-- The option type of a value is found if and only if the value is an instance of one in the
table. -/
theorem Reachable.typeOf_eq_ok_iff (hs : s.Reachable) {v : EnumValue} :
    s.options.typeOf v = .ok o ↔ o ∈ s.options.instances ∧ o.isInstance v = true := by
  rw [OptionType.isInstance_iff, ← hs.withId?_eq_some_iff]
  unfold OptionTable.typeOf
  cases s.options.withId? v.type.id <;> simp

/-- A value that is an instance of no option type is reported as such. -/
theorem Reachable.typeOf_eq_error_iff (hs : s.Reachable) {v : EnumValue} :
    s.options.typeOf v = .error (.notAnOption v.type.name) ↔
      ∀ o ∈ s.options.instances, o.isInstance v = false := by
  constructor
  · intro herror o ho
    rw [← Bool.not_eq_true]
    intro hinstance
    rw [hs.typeOf_eq_ok_iff.mpr ⟨ho, hinstance⟩] at herror
    cases herror
  · intro hnone
    cases hid : s.options.withId? v.type.id with
    | some o =>
      obtain ⟨ho, hid⟩ := hs.withId?_eq_some_iff.mp hid
      have hinstance := hnone o ho
      rw [OptionType.isInstance_iff.mpr hid] at hinstance
      cases hinstance
    | none =>
      unfold OptionTable.typeOf
      rw [hid]

/-- A request gives an entry of the table, the one over the inner type asked for. -/
theorem mem_of_optionOver (hs : s.Reachable) (hinner : s.registry.Knows inner)
    (h : s.optionOver inner = (.ok o, s')) : o ∈ s'.options.instances ∧ o.inner = inner := by
  obtain ⟨hover, rfl⟩ | ⟨hover, t, r, -, rfl, rfl⟩ := optionOver_eq_ok_iff.mp h
  · exact (hs.over?_eq_some_iff hinner).mp hover
  · have hinstances : (s.options.insert ⟨t, inner⟩).instances
        = s.options.instances ++ [⟨t, inner⟩] := Dict.values_insert hover
    refine ⟨?_, rfl⟩
    rw [hinstances]
    exact List.mem_append_right _ (List.mem_singleton.mpr rfl)

/-- An option type that was made before is given, and nothing is registered. -/
theorem optionOver_of_over? (h : s.options.over? inner = some o) :
    s.optionOver inner = (.ok o, s) :=
  optionOver_eq_ok_iff.mpr (.inl ⟨h, rfl⟩)

/-! ## Table and registry agree -/

/-- The two dictionaries of option types are inverse to each other and agree with the registry, after
whatever requests, granted or refused. An option type that a request has given is what every later request
for its inner type gives, which then changes nothing; it is the option type of its own instances and of no
other value; and a request for another inner type gives another type. A value is an option exactly if it
has an option type. A request that fails gives back the session, with both dictionaries and the registry,
as it was. Identities count on without end here, where a counter of 32 bits would come to its end after
`2 ^ 32` types. -/
theorem Reachable.optionTable_faithful (hs : s.Reachable) :
    (∀ inner o, s.registry.Knows inner → s.options.over? inner = some o →
      o.inner = inner ∧ s.options.withId? o.type.id = some o ∧
        s.registry.lookup? ("Option<" ++ inner.render ++ ">") = some o.type ∧
        o.type.variants = [⟨"Present", .positional [inner]⟩, ⟨"Absent", .unit⟩]) ∧
    (∀ id o, s.options.withId? id = some o →
      o.type.id = id ∧ s.options.over? o.inner = some o) ∧
    (∀ inner o s₁, s.registry.Knows inner → s.optionOver inner = (.ok o, s₁) →
      ∀ s₂, Steps s₁ s₂ →
        s₂.optionOver inner = (.ok o, s₂) ∧
        (∀ v, s₂.options.typeOf v = .ok o ↔ o.isInstance v = true) ∧
        ∀ inner' o' s₃, s₂.registry.Knows inner' → s₂.optionOver inner' = (.ok o', s₃) →
          inner ≠ inner' → (o.type == o'.type) = false) ∧
    (∀ v, s.options.isOption v = true ↔ ∃ o, s.options.typeOf v = .ok o) ∧
    ∀ inner e s', s.optionOver inner = (.error e, s') → s' = s := by
  refine ⟨?_, ?_, ?_, ?_, ?_⟩
  · intro inner o hinner hover
    obtain ⟨ho, rfl⟩ := (hs.over?_eq_some_iff hinner).mp hover
    have hreg := hs.registered ho
    refine ⟨rfl, hs.withId?_eq_some_iff.mpr ⟨ho, rfl⟩, ?_, hreg.variants⟩
    rw [← OptionType.instanceName_generic, ← hreg.name]
    exact hs.consistent.registry.consistent.lookup?_eq_some_iff.mpr ⟨hreg.mem, rfl⟩
  · intro id o hid
    obtain ⟨ho, hid⟩ := hs.withId?_eq_some_iff.mp hid
    exact ⟨hid, (hs.over?_eq_some_iff (hs.registered ho).knows).mpr ⟨ho, rfl⟩⟩
  · intro inner o s₁ hinner hgiven s₂ hsteps
    have hs₁ : s₁.Reachable := hs.next (.optionOver hinner hgiven)
    have hs₂ : s₂.Reachable := hs₁.steps hsteps
    obtain ⟨ho₁, rfl⟩ := mem_of_optionOver hs hinner hgiven
    have ho : o ∈ s₂.options.instances := hsteps.options_prefix.subset ho₁
    refine ⟨optionOver_of_over? ?_, ?_, ?_⟩
    · exact (hs₂.over?_eq_some_iff (hs₂.registered ho).knows).mpr ⟨ho, rfl⟩
    · intro v
      rw [hs₂.typeOf_eq_ok_iff]
      exact and_iff_right ho
    · intro inner' o' s₃ hinner' hgiven' hne
      have hstep : s₂.Step s₃ := .optionOver hinner' hgiven'
      have hs₃ : s₃.Reachable := hs₂.next hstep
      obtain ⟨ho', rfl⟩ := mem_of_optionOver hs₂ hinner' hgiven'
      have ho₃ : o ∈ s₃.options.instances := hstep.options_prefix.subset ho
      show (o.type.id == o'.type.id) = false
      rw [beq_eq_false_iff_ne]
      intro hid
      -- of one identity they would be one option type, over one inner type
      have hsame : o = o' :=
        (hs₃.registered ho₃).eq_of_id_eq hs₃.consistent.registry (hs₃.registered ho') hid
      exact hne (congrArg OptionType.inner hsame)
  · intro v
    show (s.options.withId? v.type.id).isSome = true ↔ _
    unfold OptionTable.typeOf
    cases s.options.withId? v.type.id <;> simp
  · intro inner e s' hfails
    exact eq_of_optionOver_eq_error hfails

/-- The option type over messages is found both ways, whatever is registered after it. -/
theorem Reachable.optionTable_faithful_messages :
    World.messages.session.registry.lookup? "Option<Message>" = some World.optionOfMessage.type ∧
      World.messages.session.options.withId? ⟨1⟩ = some World.optionOfMessage ∧
      ∀ s, Steps World.messages.session s →
        s.optionOver (.enum Registry.message.ref) = (.ok World.optionOfMessage, s) ∧
          s.options.typeOf World.writtenOption = .ok World.optionOfMessage := by
  have hknown : World.messages.session.registry.Knows (.enum Registry.message.ref) :=
    ⟨Registry.message, List.mem_cons_self, rfl⟩
  obtain ⟨hinner, -, hgiven, -, -⟩ := World.reachable_messages.sound.session.optionTable_faithful
  obtain ⟨-, hid, hregistered, -⟩ := hinner _ World.optionOfMessage hknown rfl
  refine ⟨hregistered, hid, ?_⟩
  intro s hsteps
  obtain ⟨hagain, htype, -⟩ := hgiven _ World.optionOfMessage _ hknown rfl s hsteps
  exact ⟨hagain, (htype World.writtenOption).mpr rfl⟩

end Session

end TaggedUnion
