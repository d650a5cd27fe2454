import TaggedUnion.Proofs.Optional.Laws
import TaggedUnion.Proofs.Value.PayloadEquality

/-!
# Layers of options

To make an option of a native one and to look into it undo each other. The same goes for options of
options, though the variants have the same names at every layer: a layer is told by the identity of its
type, so none is lost or added, and nothing at one layer is not an option of nothing at the next.

* `Session.IsOption.beq_eq`: options of one type are equal as the native ones are.
* `Session.IsOption.conformsTo_iff`: options that hold options.
* `Layers`: native options of native options, one for each option type in a row. `Layers.wrap` makes a
  value of them, and `Layers.held?` looks for them in a value.
* `Layers.wrap_injective`, `Layers.wrap_beq_eq`: values tell their layers, and equality goes by them.
* `OptionType.Stack`: rows of option types, each over the one that follows.
* `OptionType.Stack.exists_wrap`, `OptionType.Stack.exists_held?`: the two ways, by induction on the row.
* `World.Reachable.wrap_held_inverse`: one layer, options that hold options, and any number of layers.
-/

namespace TaggedUnion

/-! ## One layer -/

theorem EnumValue.Represents.unique {v : EnumValue} {n n' : Option Value} (h : v.Represents n)
    (h' : v.Represents n') : n = n' := by
  have hlists : n.toList = n'.toList := h.fields_eq.symm.trans h'.fields_eq
  cases n <;> cases n' <;> simp_all

/-- Whether something is held shows in the name of the variant. -/
theorem EnumValue.Represents.variantName_eq {v : EnumValue} {n : Option Value}
    (h : v.Represents n) :
    v.variantName = n.elim OptionType.absentName fun _ => OptionType.presentName := by
  cases h with
  | present hvariant _ => exact hvariant
  | absent hvariant _ => exact hvariant

/-- An option says what it was made of. -/
theorem OptionType.Wraps.wrap_injective {t : OptionType} (h : t.Wraps) {v : EnumValue}
    {n n' : Option Value} (hv : t.wrap n = .ok v) (hv' : t.wrap n' = .ok v) : n = n' :=
  (h.isInstance_and_represents hv).2.unique (h.isInstance_and_represents hv').2

namespace Session

variable {s : Session} {T U : OptionType} {v u : EnumValue} {n n' : Option Value}

/-- Options of one type are equal exactly if they are so as native ones. -/
theorem IsOption.beq_eq (hv : s.IsOption v T n) (hu : s.IsOption u T n') : (v == u) = (n == n') := by
  have hcon := hv.session.consistent.registry.consistent
  have hT := (hv.session.typeOf_eq_ok_iff.mp hv.typeOf).1
  have htype : T.type.WellFormed := hcon.wellFormed _ (hv.session.registered hT).mem
  have hnames : v.variantName ≠ u.variantName → (v == u) = false := by
    intro hne
    rw [← Bool.not_eq_true, hv.value.beq_iff_extract hcon hu.value]
    exact fun hbeq => hne hbeq.2.1
  have hv' := hv.wrap_eq
  have hu' := hu.wrap_eq
  -- two that hold something were made under one name, and so were two that hold nothing
  cases n with
  | none =>
    cases n' with
    | none => exact construct_beq htype (mapError_eq_ok_iff.mp hv') (mapError_eq_ok_iff.mp hu')
    | some y =>
      refine hnames ?_
      rw [hv.represents.variantName_eq, hu.represents.variantName_eq]
      show OptionType.absentName ≠ OptionType.presentName
      decide
  | some x =>
    cases n' with
    | none =>
      refine hnames ?_
      rw [hv.represents.variantName_eq, hu.represents.variantName_eq]
      show OptionType.presentName ≠ OptionType.absentName
      decide
    | some y =>
      rw [construct_beq htype (mapError_eq_ok_iff.mp hv') (mapError_eq_ok_iff.mp hu'),
        Option.some_beq_some, Bool.eq_iff_iff, Payload.positional_beq_iff]
      simp

/-- An option of `U` has the type that options of `T` hold exactly if `T` is the option type over
`U`. -/
theorem IsOption.conformsTo_iff (hu : s.IsOption u U n) (hT : T ∈ s.options.instances) :
    (Value.enum u).conformsTo T.inner = true ↔ s.options.over? U.fieldType = some T := by
  have hU := (hu.session.typeOf_eq_ok_iff.mp hu.typeOf).1
  have hknown : s.registry.Knows U.fieldType :=
    ⟨U.type, (hu.session.registered hU).mem, rfl⟩
  have hsame : (Value.enum u).conformsTo T.inner = true ↔ U.fieldType = T.inner := by
    rw [← hu.session.consistent.registry.consistent.beq_iff_eq_of_knows hknown
      (hu.session.registered hT).knows]
    show (FieldType.enum u.type.ref == T.inner) = true ↔ _
    rw [hu.type_eq]
    rfl
  rw [hsame, hu.session.over?_eq_some_iff hknown, and_iff_right hT, eq_comm]

end Session

/-! ## Native layers -/

/-- Options of options, as native ones: one for each option type in the row, the outermost first. -/
abbrev Layers : List OptionType → Type
  | [] => Value
  | _ :: os => Option (Layers os)

/-- Option types in a row, each over the one that follows and the last one over `inner`. The options of
the first one are of type `outer`. -/
inductive OptionType.Stack (inner : FieldType) : (outer : FieldType) → List OptionType → Prop
  | nil : Stack inner inner []
  | cons {o : OptionType} {os : List OptionType} (hrest : Stack inner o.inner os) :
      Stack inner o.fieldType (o :: os)

namespace Layers

/-- The value that all the layers hold, if each of them holds something. -/
def bottom? : (os : List OptionType) → Layers os → Option Value
  | [], x => some x
  | _ :: os, n => Option.bind n (bottom? os)

/-- Values at the bottom are compared as values, and layers as native options. -/
def equal : (os : List OptionType) → Layers os → Layers os → Bool
  | [], x, y => Value.equal x y
  | _ :: os, some n, some n' => equal os n n'
  | _ :: _, none, none => true
  | _ :: _, _, _ => false

/-- Makes an option of each layer, from the innermost to the outermost. -/
def wrap : (os : List OptionType) → Layers os → Except OptionError Value
  | [], x => .ok x
  | o :: os, n => do
    let inner ← Option.mapM (wrap os) n
    .enum <$> o.wrap inner

/-- Looks into a value as often as there are option types in the row. -/
def held? {m : Type → Type} [Monad m] : (os : List OptionType) → Value → OptionsT m (Layers os)
  | [], x => pure x
  | _ :: os, .enum v => do Option.mapM (held? os) (← Optional.held? v)
  | _ :: _, x => throw (.notAnOption x.type.render)

variable {s : Session} {o : OptionType} {os : List OptionType} {x y : Value}

/-- To go through an option with a function that may fail gives an option of the same kind. -/
theorem mapM_eq_ok_iff {ε α β : Type} {f : α → Except ε β} {n : Option α} {r : Option β} :
    Option.mapM f n = .ok r ↔ Option.Rel (fun a b => f a = .ok b) n r := by
  constructor
  · intro h
    cases n with
    | none =>
      cases h
      exact .none
    | some a =>
      obtain ⟨b, hb, rfl⟩ := map_eq_ok_iff.mp h
      exact .some hb
  · intro h
    cases h with
    | none => rfl
    | some hb => exact map_eq_ok_iff.mpr ⟨_, hb, rfl⟩

/-- One layer more: the layers below have become a value, if there are any, and an option is made of
it. -/
theorem wrap_cons_eq_ok_iff {n : Option (Layers os)} :
    wrap (o :: os) n = .ok x ↔ ∃ inner v, Option.Rel (fun k y => wrap os k = .ok y) n inner ∧
      o.wrap inner = .ok v ∧ x = .enum v := by
  rw [wrap, bind_eq_ok_iff]
  constructor
  · rintro ⟨inner, hinner, hx⟩
    obtain ⟨v, hv, rfl⟩ := map_eq_ok_iff.mp hx
    exact ⟨inner, v, mapM_eq_ok_iff.mp hinner, hv, rfl⟩
  · rintro ⟨inner, v, hinner, hv, rfl⟩
    exact ⟨inner, mapM_eq_ok_iff.mpr hinner, map_eq_ok_iff.mpr ⟨v, hv, rfl⟩⟩

/-- A value says which layers it was made of. Induction on the row: each option says what it was made
of. -/
theorem wrap_injective (hos : ∀ o ∈ os, o.Wraps) {n n' : Layers os} (hn : wrap os n = .ok x)
    (hn' : wrap os n' = .ok x) : n = n' := by
  induction os generalizing x with
  | nil =>
    cases hn
    cases hn'
    rfl
  | cons o os ih =>
    obtain ⟨ho, hos⟩ := List.forall_mem_cons.mp hos
    obtain ⟨inner, v, hinner, hv, rfl⟩ := wrap_cons_eq_ok_iff.mp hn
    obtain ⟨inner', v', hinner', hv', hsame⟩ := wrap_cons_eq_ok_iff.mp hn'
    cases hsame
    obtain rfl := ho.wrap_injective hv hv'
    -- nothing at this layer, or layers below that are compared by the induction
    cases hinner with
    | none =>
      cases hinner'
      rfl
    | some hk =>
      cases hinner' with
      | some hk' => rw [ih hos hk hk']

theorem forall_of_bottom?_cons {P : Value → Prop} {n : Option (Layers os)}
    (h : ∀ b ∈ bottom? (o :: os) n, P b) {k : Layers os} (hk : k ∈ n) :
    ∀ b ∈ bottom? os k, P b := by
  cases hk
  exact h

variable (hs : s.Reachable)

include hs

/-- The outermost layer is an option, of what the layers below have become. -/
theorem exists_isOption_of_wrap (ho : o ∈ s.options.instances) {n : Option (Layers os)}
    (hbelow : ∀ k ∈ n, ∀ y, wrap os k = .ok y → y.WellFormed s.registry)
    (hx : wrap (o :: os) n = .ok x) :
    ∃ inner v, Option.Rel (fun k y => wrap os k = .ok y) n inner ∧ s.IsOption v o inner ∧
      x = .enum v := by
  obtain ⟨inner, v, hinner, hv, rfl⟩ := wrap_cons_eq_ok_iff.mp hx
  refine ⟨inner, v, hinner, hs.isOption_of_wrap ho ?_ hv, rfl⟩
  intro y hy
  cases hinner with
  | none => cases hy
  | some hk =>
    cases hy
    exact hbelow _ rfl _ hk

/-- Layers over a well-formed value are well formed. Induction on the row. -/
theorem wellFormed_of_wrap (hos : ∀ o ∈ os, o ∈ s.options.instances) {n : Layers os}
    (hn : ∀ b ∈ bottom? os n, b.WellFormed s.registry) (hx : wrap os n = .ok x) :
    x.WellFormed s.registry := by
  induction os generalizing x with
  | nil =>
    cases hx
    exact hn x rfl
  | cons o os ih =>
    obtain ⟨ho, hos⟩ := List.forall_mem_cons.mp hos
    obtain ⟨inner, v, -, hoption, rfl⟩ := exists_isOption_of_wrap hs ho
      (fun k hk y hy => ih hos (forall_of_bottom?_cons hn hk) hy) hx
    exact Value.wellFormed_enum hoption.value

/-- Induction on the row: equality of options is equality of native ones at each layer. -/
theorem wrap_beq_eq (hos : ∀ o ∈ os, o ∈ s.options.instances) {n n' : Layers os}
    (hn : ∀ b ∈ bottom? os n, b.WellFormed s.registry)
    (hn' : ∀ b ∈ bottom? os n', b.WellFormed s.registry) (hx : wrap os n = .ok x)
    (hy : wrap os n' = .ok y) : (x == y) = equal os n n' := by
  induction os generalizing x y with
  | nil =>
    cases hx
    cases hy
    rfl
  | cons o os ih =>
    obtain ⟨ho, hos⟩ := List.forall_mem_cons.mp hos
    obtain ⟨inner, v, hinner, hoption, rfl⟩ := exists_isOption_of_wrap hs ho
      (fun k hk z hz => wellFormed_of_wrap hs hos (forall_of_bottom?_cons hn hk) hz) hx
    obtain ⟨inner', u, hinner', hoption', rfl⟩ := exists_isOption_of_wrap hs ho
      (fun k hk z hz => wellFormed_of_wrap hs hos (forall_of_bottom?_cons hn' hk) hz) hy
    refine (hoption.beq_eq hoption').trans ?_
    cases hinner with
    | none => cases hinner' <;> rfl
    | some hk =>
      cases hinner' with
      | none => rfl
      | some hk' =>
        rw [Option.some_beq_some]
        exact ih hos hn hn' hk hk'

end Layers

namespace OptionType.Stack

variable {s : Session} {inner outer : FieldType} {os : List OptionType} {x : Value}

/-- Induction on the row: what the layers below have become is what the next one holds. -/
theorem exists_wrap (h : Stack inner outer os) (hs : s.Reachable)
    (hos : ∀ o ∈ os, o ∈ s.options.instances) {n : Layers os}
    (hn : ∀ b ∈ Layers.bottom? os n, b.WellFormed s.registry ∧ b.conformsTo inner = true) :
    ∃ x, Layers.wrap os n = .ok x ∧ x.WellFormed s.registry ∧ x.conformsTo outer = true := by
  induction h with
  | nil => exact ⟨n, rfl, hn n rfl⟩
  | @cons o os hrest ih =>
    obtain ⟨ho, hos⟩ := List.forall_mem_cons.mp hos
    have hbelow : ∃ below, Option.Rel (fun k y => Layers.wrap os k = .ok y) n below ∧
        ∀ y ∈ below, y.WellFormed s.registry ∧ y.conformsTo o.inner = true := by
      cases n with
      | none => exact ⟨none, .none, by simp⟩
      | some k =>
        obtain ⟨y, hy, hfits⟩ := ih hos hn
        exact ⟨some y, .some hy, by simpa using hfits⟩
    obtain ⟨below, hrel, hfits⟩ := hbelow
    obtain ⟨v, hv, hoption⟩ := hs.exists_isOption_of_fits ho hfits
    refine ⟨.enum v, Layers.wrap_cons_eq_ok_iff.mpr ⟨below, v, hrel, hv, rfl⟩,
      Value.wellFormed_enum hoption.value, ?_⟩
    exact (hs.typeOf_eq_ok_iff.mp hoption.typeOf).2

/-- Induction on the row: looking into the outermost option finds what the layers below have become,
and leaves a session in which they can be looked into. -/
theorem exists_held? {m : Type → Type} [Monad m] [LawfulMonad m] (h : Stack inner outer os)
    (hs : s.Reachable) (hos : ∀ o ∈ os, o ∈ s.options.instances) (hx : x.WellFormed s.registry)
    (hfits : x.conformsTo outer = true) :
    ∃ n s', Layers.wrap os n = .ok x ∧ Session.Steps s s' ∧
      (Layers.held? os x : OptionsT m (Layers os)).run.run s = pure (.ok n, s') := by
  induction h generalizing s x with
  | nil => exact ⟨x, s, rfl, .refl, rfl⟩
  | @cons o os hrest ih =>
    obtain ⟨ho, hos⟩ := List.forall_mem_cons.mp hos
    cases x with
    | enum v =>
      obtain ⟨n, hoption⟩ := hs.exists_isOption (hx v rfl) ho hfits
      have hstep := Session.steps_afterMatch hs hoption.value
      have hwrap : ∀ k : Option (Layers os), Option.Rel (fun k y => Layers.wrap os k = .ok y) k n →
          Layers.wrap (o :: os) k = .ok (.enum v) := fun k hk =>
        Layers.wrap_cons_eq_ok_iff.mpr ⟨n, v, hk, hoption.wrap_eq, rfl⟩
      have hrun : (Layers.held? (o :: os) (.enum v) : OptionsT m (Layers (o :: os))).run.run s
          = (Option.mapM (Layers.held? os) n : OptionsT m (Option (Layers os))).run.run
            (s.afterMatch v) := by
        rw [Layers.held?, Session.run_bind, hoption.refines.held?, pure_bind]
      cases n with
      | none => exact ⟨none, s.afterMatch v, hwrap none .none, hstep, hrun⟩
      | some y =>
        obtain ⟨k, s', hk, hsteps, hheld⟩ := ih (hs.steps hstep)
          (fun o' ho' => hstep.options_prefix.subset (hos o' ho')) hoption.wellFormed_of_some
          hoption.conformsTo_of_some
        refine ⟨some k, s', hwrap _ (.some hk), hstep.trans hsteps, hrun.trans ?_⟩
        show (some <$> Layers.held? os y : OptionsT m (Option (Layers os))).run.run _ = _
        rw [map_eq_pure_bind, Session.run_bind, hheld, pure_bind]
        rfl
    | _ => cases hfits

end OptionType.Stack

namespace World

/-! ## A message in two layers -/

/-- The option type over options of messages, the third type to be registered. -/
def optionOfOption : OptionType where
  type :=
    { id := ⟨2⟩
      name := "Option<Option<Message>>"
      variants := OptionType.variants optionOfMessage.fieldType
      index := ⟨[("Present", 0), ("Absent", 1)]⟩ }
  inner := optionOfMessage.fieldType

/-- The world with the option of a message, once there is a type for options of it. -/
def nested : World :=
  messages.within
    { registry :=
        { byName :=
            messages.session.registry.byName.insert "Option<Option<Message>>" optionOfOption.type
          nextId := 3 }
      options := messages.session.options.insert optionOfOption }

theorem reachable_nested : Reachable nested := by
  have hknown : messages.session.registry.Knows optionOfMessage.fieldType :=
    ⟨optionOfMessage.type, List.mem_cons_of_mem _ List.mem_cons_self, rfl⟩
  have hgiven : messages.session.optionOver optionOfMessage.fieldType
      = (.ok optionOfOption, nested.session) := rfl
  exact .trans reachable_messages (.session (.optionOver hknown hgiven))

/-! ## The round trip -/

variable {w : World}

/-- To make options and to look into them undo each other, and layers are kept apart. An option can be
made of a native one exactly if what this one holds fits, and looking into it gives the native option
back. An option that clients can hold is the instance that is made of what is found in it. An option of
`U` fits into an option of `T` exactly if `T` is the option type over `U`. So it is with any row of
option types, each over the one that follows (`OptionType.Stack`): native options of as many layers
become values and come back, each value comes from one of them, and two values are equal exactly if
these are. -/
theorem Reachable.wrap_held_inverse {m : Type → Type} [Monad m] [LawfulMonad m]
    (hw : w.Reachable) :
    (∀ T ∈ w.session.options.instances, ∀ n : Option Value, (∀ x ∈ n, w.Holds x) →
      ((∃ v, T.wrap n = .ok v) ↔ ∀ x ∈ n, x.conformsTo T.inner = true) ∧
      ∀ v, T.wrap n = .ok v →
        (Optional.held? v : OptionsT m (Option Value)).run.run w.session
          = pure (.ok n, w.session.afterMatch v) ∧
        w.session.options.typeOf v = .ok T) ∧
    (∀ v ∈ w.held, ∀ T, w.session.options.typeOf v = .ok T →
      ∃ n, (Optional.held? v : OptionsT m (Option Value)).run.run w.session
          = pure (.ok n, w.session.afterMatch v) ∧
        T.wrap n = .ok v) ∧
    (∀ T ∈ w.session.options.instances, ∀ U ∈ w.session.options.instances, ∀ u ∈ w.held,
      U.isInstance u = true →
        ((∃ v, T.present (.enum u) = .ok v) ↔
          w.session.options.over? U.fieldType = some T)) ∧
    ∀ inner outer os, OptionType.Stack inner outer os →
      (∀ o ∈ os, o ∈ w.session.options.instances) →
      (∀ n : Layers os,
        (∀ b ∈ Layers.bottom? os n, w.Holds b ∧ b.conformsTo inner = true) →
        ∃ x s, Layers.wrap os n = .ok x ∧ x.conformsTo outer = true ∧
          Session.Steps w.session s ∧
          (Layers.held? os x : OptionsT m (Layers os)).run.run w.session = pure (.ok n, s)) ∧
      (∀ x, w.Holds x → x.conformsTo outer = true → ∃! n, Layers.wrap os n = .ok x) ∧
      ∀ (n n' : Layers os) (x y : Value), (∀ b ∈ Layers.bottom? os n, w.Holds b) →
        (∀ b ∈ Layers.bottom? os n', w.Holds b) → Layers.wrap os n = .ok x →
        Layers.wrap os n' = .ok y → (x == y) = Layers.equal os n n' := by
  have hs := hw.sound.session
  have hvalue : ∀ x, w.Holds x → x.WellFormed w.session.registry := fun x => hw.sound.value
  refine ⟨?_, ?_, ?_, ?_⟩
  · intro T hT n hn
    refine ⟨(hs.wraps hT).exists_wrap_iff, ?_⟩
    intro v hv
    have hoption : w.session.IsOption v T n :=
      hs.isOption_of_wrap hT (fun x hx => hvalue x (hn x hx)) hv
    exact ⟨hoption.refines.held?, hoption.typeOf⟩
  · intro v hv T htype
    obtain ⟨hT, hinstance⟩ := hs.typeOf_eq_ok_iff.mp htype
    obtain ⟨n, hoption⟩ := hs.exists_isOption (hw.sound.held v hv) hT hinstance
    exact ⟨n, hoption.refines.held?, hoption.wrap_eq⟩
  · intro T hT U hU u hu hinstance
    obtain ⟨n, hoption⟩ := hs.exists_isOption (hw.sound.held u hu) hU hinstance
    rw [← hoption.conformsTo_iff hT]
    exact (hs.wraps hT).exists_wrap_iff (n := some (.enum u)).trans (by simp)
  · intro inner outer os hstack hos
    have hwraps : ∀ o ∈ os, o.Wraps := fun o ho => hs.wraps (hos o ho)
    refine ⟨?_, ?_, ?_⟩
    · intro n hn
      obtain ⟨x, hx, hwf, hfits⟩ := hstack.exists_wrap hs hos fun b hb =>
        ⟨hvalue b (hn b hb).1, (hn b hb).2⟩
      obtain ⟨n', s, hx', hsteps, hrun⟩ := hstack.exists_held? (m := m) hs hos hwf hfits
      -- the layers that are found are the ones that were wrapped, as a value comes from one row of layers
      obtain rfl := Layers.wrap_injective hwraps hx hx'
      exact ⟨x, s, hx, hfits, hsteps, hrun⟩
    · intro x hx hfits
      obtain ⟨n, s, hn, -⟩ := hstack.exists_held? (m := m) hs hos (hvalue x hx) hfits
      exact ⟨n, hn, fun n' hn' => Layers.wrap_injective hwraps hn' hn⟩
    · intro n n' x y hn hn' hx hy
      exact Layers.wrap_beq_eq hs hos (fun b hb => hvalue b (hn b hb))
        (fun b hb => hvalue b (hn' b hb)) hx hy

/-- The option of a message holds the message, and fits into an option of such options, but not into
one of messages. An option of nothing is no option that holds nothing, and is found to be what it is. -/
theorem Reachable.wrap_held_inverse_nested :
    (Optional.held? writtenOption : OptionsT Id (Option Value)).run.run nested.session
      = pure (.ok (some (.enum written)), nested.session.afterMatch writtenOption) ∧
    (∃ v, optionOfOption.present (.enum writtenOption) = .ok v) ∧
    (¬ ∃ v, optionOfMessage.present (.enum writtenOption) = .ok v) ∧
    ∃ x y s, Layers.wrap [optionOfOption, optionOfMessage] (some none) = .ok x ∧
      Layers.wrap [optionOfOption, optionOfMessage] none = .ok y ∧ (x == y) = false ∧
      (Layers.held? [optionOfOption, optionOfMessage] x : OptionsT Id _).run.run nested.session
        = pure (.ok (some none), s) := by
  obtain ⟨hmade, -, hover, hlayers⟩ := reachable_nested.wrap_held_inverse (m := Id)
  have hmessage : optionOfMessage ∈ nested.session.options.instances := List.mem_cons_self
  have hoption : optionOfOption ∈ nested.session.options.instances :=
    List.mem_cons_of_mem _ List.mem_cons_self
  have hwritten : ∀ x ∈ some (Value.enum written), nested.Holds x := by
    intro x hx v hv
    cases hx
    cases hv
    exact List.mem_cons_self
  have hheld : writtenOption ∈ nested.held := by simp [nested, within, messages]
  have hstack : OptionType.Stack (.enum Registry.message.ref) optionOfOption.fieldType
      [optionOfOption, optionOfMessage] := .cons (.cons .nil)
  have hos : ∀ o ∈ [optionOfOption, optionOfMessage], o ∈ nested.session.options.instances :=
    List.forall_mem_cons.mpr ⟨hoption, List.forall_mem_singleton.mpr hmessage⟩
  obtain ⟨hwrap, -, hequal⟩ := hlayers _ _ _ hstack hos
  obtain ⟨x, s, hx, -, -, hrun⟩ := hwrap (some none) (by simp [Layers.bottom?])
  obtain ⟨y, -, hy, -⟩ := hwrap none (by simp [Layers.bottom?])
  refine ⟨((hmade _ hmessage _ hwritten).2 writtenOption rfl).1, ?_, ?_, x, y, s, hx, hy, ?_, hrun⟩
  · exact (hover _ hoption _ hmessage _ hheld rfl).mpr rfl
  · rw [hover _ hmessage _ hmessage _ hheld rfl]
    intro hfound
    cases hfound
  · rw [hequal _ _ x y (by simp [Layers.bottom?]) (by simp [Layers.bottom?]) hx hy]
    rfl

end World

end TaggedUnion
