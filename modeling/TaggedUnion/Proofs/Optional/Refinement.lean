import TaggedUnion.Proofs.Optional.Table

/-!
# Options as the native ones

The operations on options do what those of `Option` do. An operation first looks for the option type
of its value, and fails if there is none. A value that has one is matched, which cannot fail, and the
function passed in runs in the arm of `Present` or not at all.

* `EnumValue.Represents`: what an option holds, read off its variant.
* `OptionType.Wraps`: which values can be put into options of a type.
* `Optional.Refuses`, `Optional.Refines`: all operations fail in one way, or all do what their
  counterparts do.
* `Optional.evaluate_arms`: the match that they share succeeds, whatever plans are kept.
* `Session.refuses_of_typeOf`, `Session.IsOption.refines`: the eight operations.
* `World.Reachable.options_refine`: one of the two is the case for every instance held.
-/

namespace TaggedUnion

/-- The option `v` holds `x`, or nothing. -/
inductive EnumValue.Represents (v : EnumValue) : Option Value → Prop
  | present {x : Value} (hvariant : v.variantName = OptionType.presentName)
      (hfields : v.fields = [x]) : v.Represents (some x)
  | absent (hvariant : v.variantName = OptionType.absentName) (hfields : v.fields = []) :
      v.Represents none

/-- The stored fields are what the native option holds. -/
theorem EnumValue.Represents.fields_eq {v : EnumValue} {n : Option Value} (h : v.Represents n) :
    v.fields = n.toList := by
  cases h with
  | present _ hfields => exact hfields
  | absent _ hfields => exact hfields

/-- A well-formed value of a type with the variants of an option is one or the other. -/
theorem EnumValue.WellFormed.exists_represents {r : Registry} {v : EnumValue} {inner : FieldType}
    (hv : v.WellFormed r) (hvariants : v.type.variants = OptionType.variants inner) :
    ∃ n, v.Represents n := by
  have hmem : v.variant ∈ v.type.variants := List.getElem_mem _
  have htyped := hv.typed
  rw [hvariants] at hmem
  simp only [OptionType.variants, List.mem_cons, List.not_mem_nil, or_false] at hmem
  rcases hmem with hpresent | habsent
  · -- one field is declared, so one value is stored
    rw [hpresent] at htyped
    obtain ⟨x, hfields, -⟩ := List.map_eq_singleton_iff.mp htyped
    exact ⟨some x, .present (congrArg Variant.name hpresent) hfields⟩
  · rw [habsent] at htyped
    exact ⟨none, .absent (congrArg Variant.name habsent) (List.map_eq_nil_iff.mp htyped)⟩

/-! ## Making options -/

/-- Values of the inner type, and no others, can be put into options of this type; and the option
that holds nothing can always be made. -/
structure OptionType.Wraps (t : OptionType) : Prop where
  absent : ∃ v, t.absent = .ok v ∧ t.isInstance v = true ∧ v.Represents none
  present : ∀ x : Value, x.conformsTo t.inner = true →
    ∃ v, t.present x = .ok v ∧ t.isInstance v = true ∧ v.Represents (some x)
  misfit : ∀ x : Value, x.conformsTo t.inner = false → t.present x
    = .error (.value (.payloadMisfit t.name "Present" (.wrongFieldType "0" t.inner x.type)))

/-- The two variants are found by their names. -/
theorem OptionType.Registered.variantNamed? {r : Registry} (hr : r.Consistent) {t : OptionType}
    (h : t.Registered r) :
    (∃ tag, t.type.variantNamed? OptionType.presentName
        = some (tag, ⟨OptionType.presentName, .positional [t.inner]⟩)) ∧
      ∃ tag, t.type.variantNamed? OptionType.absentName
        = some (tag, ⟨OptionType.absentName, .unit⟩) := by
  have hfound : ∀ v ∈ OptionType.variants t.inner, ∃ tag, t.type.variantNamed? v.name
      = some (tag, v) := by
    intro v hv
    rw [← h.variants] at hv
    obtain ⟨tag, rfl⟩ := List.mem_iff_get.mp hv
    exact ⟨tag, (EnumType.variantNamed?_eq_some_iff (hr.wellFormed _ h.mem)).mpr ⟨rfl, rfl⟩⟩
  exact ⟨hfound _ List.mem_cons_self, hfound _ (List.mem_cons_of_mem _ List.mem_cons_self)⟩

/-- Option types that were registered can be filled: a payload is checked against the inner type, and
nothing else can go wrong. -/
theorem OptionType.Registered.wraps {r : Registry} (hr : r.Consistent) {t : OptionType}
    (h : t.Registered r) : t.Wraps := by
  obtain ⟨⟨tag, hpresent⟩, tag', habsent⟩ := h.variantNamed? hr
  have hname : ∀ {name tag v}, t.type.variantNamed? name = some (tag, v) →
      ∀ fields, (EnumValue.mk t.type tag fields).variantName = name := by
    intro name tag v hfound fields
    obtain ⟨rfl, hv⟩ := (EnumType.variantNamed?_eq_some_iff (hr.wellFormed _ h.mem)).mp hfound
    exact hv
  -- the one field of `Present` is checked against the inner type
  have hmake : ∀ x, t.present x
      = ((checkField "0" t.inner x).mapError fun reason =>
          OptionError.value (.payloadMisfit t.name "Present" reason)).map fun _ =>
        ⟨t.type, tag, [x]⟩ := by
    intro x
    unfold OptionType.present OptionType.make
    rw [construct_of_variantNamed? hpresent]
    show ((((fun _ => [x]) <$> (checkField "0" t.inner x >>= fun _ => .ok ())).mapError _).map
      _).mapError _ = _
    cases checkField "0" t.inner x <;> rfl
  refine ⟨⟨⟨t.type, tag', []⟩, ?_, isInstance_iff.mpr rfl, .absent (hname habsent _) rfl⟩, ?_, ?_⟩
  · unfold OptionType.absent OptionType.make
    rw [construct_of_variantNamed? habsent]
    rfl
  · intro x hx
    rw [hmake, checkField_eq_ok_iff.mpr hx]
    exact ⟨_, rfl, isInstance_iff.mpr rfl, .present (hname hpresent _) rfl⟩
  · intro x hx
    rw [hmake]
    unfold checkField
    rw [hx]
    rfl

/-! ## What the operations give -/

namespace Optional

variable (m : Type → Type) [Monad m]

/-- Every operation on `v` fails with `e`, whatever else it is passed, and changes nothing. No
function is called. -/
structure Refuses (s : Session) (v : EnumValue) (e : OptionError) : Prop where
  held? : (held? v : OptionsT m _).run.run s = pure (.error e, s)
  isPresent : (isPresent v : OptionsT m _).run.run s = pure (.error e, s)
  isAbsent : (isAbsent v : OptionsT m _).run.run s = pure (.error e, s)
  unwrap : (unwrap v : OptionsT m _).run.run s = pure (.error e, s)
  unwrapOr : ∀ d, (unwrapOr v d : OptionsT m _).run.run s = pure (.error e, s)
  orElse : ∀ a, (orElse v a : OptionsT m _).run.run s = pure (.error e, s)
  map : ∀ into f, (map v into f : OptionsT m _).run.run s = pure (.error e, s)
  andThen : ∀ into f, (andThen v into f : OptionsT m _).run.run s = pure (.error e, s)

/-- Every operation on `v`, which is of the option type `type`, does what its counterpart does on `n`,
and leaves the session `s'`. A value of another type in the place of a default, an alternative or a
result is an error, and so is unwrapping nothing. A function that is passed in is called once, on what
`n` holds, or not at all. -/
structure Refines (s s' : Session) (v : EnumValue) (type : OptionType) (n : Option Value) :
    Prop where
  held? : (held? v : OptionsT m _).run.run s = pure (.ok n, s')
  isPresent : (isPresent v : OptionsT m _).run.run s = pure (.ok n.isSome, s')
  isAbsent : (isAbsent v : OptionsT m _).run.run s = pure (.ok !n.isSome, s')
  unwrap : (unwrap v : OptionsT m _).run.run s
    = pure (n.elim (.error (.unwrapAbsent type.name)) .ok, s')
  unwrapOr : ∀ d, (unwrapOr v d : OptionsT m _).run.run s
    = if d.conformsTo type.inner then pure (.ok (n.getD d), s')
      else pure (.error (.typeMismatch type.inner.render d.type.render), s)
  orElse : ∀ a, (orElse v a : OptionsT m _).run.run s
    = if type.isInstance a then pure (.ok (if n.isSome then v else a), s')
      else pure (.error (.typeMismatch type.name a.type.name), s)
  map : ∀ into f, (map v into f : OptionsT m _).run.run s
    = n.elim (pure (into.absent, s')) fun x =>
      (f x).run s' >>= fun (y, s'') => pure (into.present y, s'')
  andThen : ∀ into f, (andThen v into f : OptionsT m _).run.run s
    = n.elim (pure (into.absent, s')) fun x =>
      (f x).run.run s' >>= fun (result, s'') =>
        pure (result.bind fun chained =>
          if into.isInstance chained then .ok chained
          else .error (.typeMismatch into.name chained.type.name), s'')

/-! ## The match that they share -/

section Match

variable {α : Type} {r : Registry} {v : EnumValue} {inner : FieldType} {n : Option Value}

/-- The two arms cover the variants of an option, and the name fits the one field of `Present`. -/
theorem exists_compile_arms {type : EnumType} (htype : type.WellFormed)
    (hvariants : type.variants = OptionType.variants inner) (present : Value → α) (absent : α) :
    ∃ p, Plan.compile type ((arms present absent).map (·.head)) = .ok p := by
  have hheads : (arms present absent).map (·.head)
      = [] ++ [⟨.variant OptionType.presentName, .positional [valueName]⟩]
        ++ [⟨.variant OptionType.absentName, .ignore⟩] := rfl
  have hnames : type.variantNames = [OptionType.presentName, OptionType.absentName] := by
    rw [EnumType.variantNames, hvariants]
    rfl
  rw [hheads, Plan.exists_compile_iff htype, EnumType.accepts_concat_iff,
    EnumType.accepts_concat_iff]
  -- the arm for a value, the arm for none, and that they leave nothing out
  refine ⟨⟨⟨EnumType.accepts_nil, ?_⟩, ?_⟩, .inr ?_⟩
  · refine ⟨by simp, by simp [hnames], by simp, ?_⟩
    have hshape : (ArmHead.mk (.variant OptionType.presentName) (.positional [valueName])).shape? type
        = some (.positional [inner]) := by
      rw [ArmHead.shape?, hvariants]
      rfl
    rw [hshape]
    exact ⟨rfl, by decide⟩
  · refine ⟨by simp, by simp [hnames], ?_, trivial⟩
    simp [OptionType.presentName, OptionType.absentName]
  · simp [hnames]

/-- Matching an option succeeds, whatever plans are kept: its arm fires, and finds the value in it. -/
theorem evaluate_arms {matcher : Matcher} (hr : r.Consistent) (hm : matcher.Sound r)
    (hv : v.WellFormed r) (hvariants : v.type.variants = OptionType.variants inner)
    (hn : v.Represents n) (present : Value → α) (absent : α) :
    (matcher.evaluate v (arms present absent)).1 = .ok (.ok (n.elim absent present)) := by
  rcases Matcher.evaluate_cases hr hm hv (arms present absent) with
    ⟨e, hcompile, -⟩ | ⟨i, arm, entries, harm, hbinds, hfirst, hevaluate⟩
  · obtain ⟨p, hp⟩ :=
      exists_compile_arms (hr.wellFormed _ hv.registered) hvariants present absent
    rw [hp] at hcompile
    cases hcompile
  · rw [hevaluate]
    cases hn with
    | @present x hvariant hfields =>
      rw [hvariant] at hfirst
      -- the first arm names `Present`, so it is the one that fires
      obtain rfl : 0 = i := Option.some.inj hfirst
      cases harm
      obtain ⟨y, hy, rfl⟩ := World.binds_value hbinds
      rw [hfields] at hy
      cases hy
      rfl
    | absent hvariant _ =>
      rw [hvariant] at hfirst
      -- only the second arm names `Absent`
      obtain rfl : 1 = i := Option.some.inj hfirst
      cases harm
      rfl

end Match

end Optional

namespace Session

variable {m : Type → Type} [Monad m] {α β : Type} {s : Session} {v : EnumValue}

/-! ## Runs -/

theorem run_ofExcept (result : Except OptionError α) :
    (OptionsT.ofExcept result : OptionsT m α).run.run s = pure (result, s) :=
  rfl

/-- A second step is run in the session that the first one leaves, unless the first one fails. -/
theorem run_bind (code : OptionsT m α) (next : α → OptionsT m β) :
    (code >>= next).run.run s = code.run.run s >>= fun
      | (.ok a, s') => (next a).run.run s'
      | (.error e, s') => pure (.error e, s') := by
  rw [ExceptT.run_bind, StateT.run_bind]
  congr
  funext result
  obtain ⟨e | a, s'⟩ := result <;> rfl

section

variable [LawfulMonad m]

/-- After code that cannot fail, the rest is run. -/
theorem run_lift_bind (code : SessionT m α) (next : α → OptionsT m β) :
    ((code : OptionsT m α) >>= next).run.run s
      = code.run s >>= fun (a, s') => (next a).run.run s' := by
  have hrun : (code : OptionsT m α).run.run s
      = code.run s >>= fun (a, s') => pure (.ok a, s') := by
    show StateT.run (Except.ok <$> code) s = _
    rw [StateT.run_map, map_eq_pure_bind]
  rw [run_bind, hrun, bind_assoc]
  congr
  funext result
  rw [pure_bind]

/-- A check decides whether the rest is run. -/
theorem run_ofExcept_bind (check : Except OptionError α) (next : α → OptionsT m β) :
    (OptionsT.ofExcept check >>= next).run.run s
      = match check with
        | .ok a => (next a).run.run s
        | .error e => pure (.error e, s) := by
  rw [run_bind, run_ofExcept, pure_bind]
  cases check <;> rfl

/-- The first step: the rest is run with the option type of the value, if it has one. -/
theorem run_typeOf_bind (code : OptionType → OptionsT m α) :
    (Optional.typeOf v >>= code).run.run s
      = match s.options.typeOf v with
        | .ok type => (code type).run.run s
        | .error e => pure (.error e, s) := by
  have hrun : (Optional.typeOf v : OptionsT m OptionType).run.run s
      = pure (s.options.typeOf v, s) := rfl
  rw [run_bind, hrun, pure_bind]
  cases s.options.typeOf v <;> rfl

/-- Whether nothing is held is the opposite of whether something is. -/
theorem run_isAbsent {result : Except OptionError Bool} {s' : Session}
    (h : (Optional.isPresent v : OptionsT m Bool).run.run s = pure (result, s')) :
    (Optional.isAbsent v : OptionsT m Bool).run.run s = pure ((!·) <$> result, s') := by
  unfold Optional.isAbsent
  rw [map_eq_pure_bind, run_bind, h, pure_bind]
  cases result <;> rfl

/-- A value without an option type is refused. -/
theorem refuses_of_typeOf {e : OptionError} (htype : s.options.typeOf v = .error e) :
    Optional.Refuses m s v e := by
  have hrun : ∀ {α : Type} (code : OptionType → OptionsT m α),
      (Optional.typeOf v >>= code).run.run s = pure (.error e, s) := by
    intro α code
    rw [run_typeOf_bind, htype]
  have hpresent : (Optional.isPresent v : OptionsT m Bool).run.run s = pure (.error e, s) :=
    hrun _
  exact {
    held? := hrun _
    isPresent := hpresent
    isAbsent := run_isAbsent hpresent
    unwrap := hrun _
    unwrapOr := fun _ => hrun _
    orElse := fun _ => hrun _
    map := fun _ _ => hrun _
    andThen := fun _ _ => hrun _ }

end

/-! ## Operations on an option -/

/-- The session after a match on an option: at most a plan has been kept. -/
def afterMatch (s : Session) (v : EnumValue) : Session :=
  { s with matcher := (s.matcher.evaluate v (Optional.arms (fun _ => ()) ())).2 }

/-- A match on an option is one step of the session. -/
theorem Reachable.afterMatch (hs : s.Reachable) (hv : v.WellFormed s.registry) :
    (s.afterMatch v).Reachable :=
  hs.next (.matching
    (hs.consistent.matcher.serve (.evaluate v (Optional.arms (fun _ => ()) ())) hv.registered))

/-- Every option type of the table can be filled. -/
theorem Reachable.wraps {type : OptionType} (hs : s.Reachable)
    (htype : type ∈ s.options.instances) : type.Wraps :=
  (hs.registered htype).wraps hs.consistent.registry.consistent

/-- In the reachable session `s`, the value `v` is an option of the type `type` and holds `n`. -/
structure IsOption (s : Session) (v : EnumValue) (type : OptionType) (n : Option Value) :
    Prop where
  session : s.Reachable
  value : v.WellFormed s.registry
  typeOf : s.options.typeOf v = .ok type
  variants : v.type.variants = OptionType.variants type.inner
  represents : v.Represents n

namespace IsOption

variable {type : OptionType} {n : Option Value}

/-- The second step: a match on an option goes on with the value held, or without one. -/
theorem run_dispatch (h : s.IsOption v type n) (present : Value → OptionsT m α)
    (absent : OptionsT m α) :
    (Optional.dispatch v present absent).run.run s
      = (n.elim absent present).run.run (s.afterMatch v) := by
  have hconsistent := h.session.consistent
  have hevaluate : s.evaluate v (Optional.arms present absent)
      = (.ok (.ok (n.elim absent present)), s.afterMatch v) :=
    Prod.ext (Optional.evaluate_arms hconsistent.registry.consistent hconsistent.matcher.sound
      h.value h.variants h.represents present absent) rfl
  unfold Optional.dispatch
  dsimp only [ExceptT.run, ExceptT.mk, StateT.run]
  rw [hevaluate]

variable [LawfulMonad m]

theorem run_typeOf (h : s.IsOption v type n) (code : OptionType → OptionsT m α) :
    (Optional.typeOf v >>= code).run.run s = (code type).run.run s := by
  rw [run_typeOf_bind, h.typeOf]

theorem run_isPresent (h : s.IsOption v type n) :
    (Optional.isPresent v : OptionsT m Bool).run.run s = pure (.ok n.isSome, s.afterMatch v) := by
  unfold Optional.isPresent
  rw [h.run_typeOf, h.run_dispatch]
  cases n <;> rfl

/-- The default is checked first, and used only if nothing is held. -/
theorem run_unwrapOr (h : s.IsOption v type n) (d : Value) :
    (Optional.unwrapOr v d : OptionsT m Value).run.run s
      = if d.conformsTo type.inner then pure (.ok (n.getD d), s.afterMatch v)
        else pure (.error (.typeMismatch type.inner.render d.type.render), s) := by
  unfold Optional.unwrapOr
  rw [h.run_typeOf]
  by_cases hd : d.conformsTo type.inner = true
  · rw [if_pos hd, if_pos hd, h.run_dispatch]
    cases n <;> rfl
  · rw [if_neg hd, if_neg hd]
    rfl

/-- The alternative is checked first, and given only if nothing is held. -/
theorem run_orElse (h : s.IsOption v type n) (a : EnumValue) :
    (Optional.orElse v a : OptionsT m EnumValue).run.run s
      = if type.isInstance a then pure (.ok (if n.isSome then v else a), s.afterMatch v)
        else pure (.error (.typeMismatch type.name a.type.name), s) := by
  unfold Optional.orElse Optional.ensureInstance
  rw [h.run_typeOf, run_ofExcept_bind]
  by_cases ha : type.isInstance a = true
  · rw [if_pos ha, if_pos ha]
    dsimp only
    rw [h.run_dispatch]
    cases n <;> rfl
  · rw [if_neg ha, if_neg ha]

/-- The function is run on the value held, if there is one. -/
theorem run_map (h : s.IsOption v type n) (into : OptionType) (f : Value → SessionT m Value) :
    (Optional.map v into f).run.run s
      = n.elim (pure (into.absent, s.afterMatch v)) fun x =>
        (f x).run (s.afterMatch v) >>= fun (y, s') => pure (into.present y, s') := by
  unfold Optional.map
  rw [h.run_typeOf, h.run_dispatch]
  cases n with
  | none => rfl
  | some x => exact run_lift_bind _ _

/-- The function is run on the value held, and its result is checked. -/
theorem run_andThen (h : s.IsOption v type n) (into : OptionType)
    (f : Value → OptionsT m EnumValue) :
    (Optional.andThen v into f).run.run s
      = n.elim (pure (into.absent, s.afterMatch v)) fun x =>
        (f x).run.run (s.afterMatch v) >>= fun (result, s') =>
          pure (result.bind fun chained =>
            if into.isInstance chained then .ok chained
            else .error (.typeMismatch into.name chained.type.name), s') := by
  unfold Optional.andThen
  rw [h.run_typeOf, h.run_dispatch]
  cases n with
  | none => rfl
  | some x =>
    show (f x >>= fun chained => OptionsT.ofExcept (Optional.ensureInstance into chained)
      >>= fun _ => pure chained).run.run (s.afterMatch v) = _
    rw [run_bind]
    congr
    funext result
    obtain ⟨e | chained, s'⟩ := result
    · rfl
    · -- what `f` has given is passed on if it is of type `into`
      dsimp only
      rw [run_ofExcept_bind]
      unfold Optional.ensureInstance Except.bind
      dsimp only
      by_cases hinstance : into.isInstance chained = true
      · rw [if_pos hinstance, if_pos hinstance]
        rfl
      · rw [if_neg hinstance, if_neg hinstance]

/-- All eight operations on an option, assembled from their runs. -/
theorem refines (h : s.IsOption v type n) :
    Optional.Refines m s (s.afterMatch v) v type n where
  held? := by
    unfold Optional.held?
    rw [h.run_typeOf, h.run_dispatch]
    cases n <;> rfl
  isPresent := h.run_isPresent
  isAbsent := run_isAbsent h.run_isPresent
  unwrap := by
    unfold Optional.unwrap
    rw [h.run_typeOf, h.run_dispatch]
    cases n <;> rfl
  unwrapOr := h.run_unwrapOr
  orElse := h.run_orElse
  map := h.run_map
  andThen := h.run_andThen

end IsOption

/-- A well-formed value of an option type in the table is an option, and holds something or nothing. -/
theorem Reachable.exists_isOption {type : OptionType} (hs : s.Reachable)
    (hv : v.WellFormed s.registry) (htype : type ∈ s.options.instances)
    (hinstance : type.isInstance v = true) : ∃ n, s.IsOption v type n := by
  have hregistered := hs.registered htype
  have hsame : v.type = type.type :=
    hs.consistent.registry.consistent.eq_of_id_eq hv.registered hregistered.mem
      (OptionType.isInstance_iff.mp hinstance).symm
  have hvariants : v.type.variants = OptionType.variants type.inner := by
    rw [hsame, hregistered.variants]
  obtain ⟨n, hn⟩ := hv.exists_represents hvariants
  exact ⟨n, hs, hv, hs.typeOf_eq_ok_iff.mpr ⟨htype, hinstance⟩, hvariants, hn⟩

end Session

namespace World

variable {w : World} {v : EnumValue}

/-- Take any instance that clients can hold, whatever plans have been kept. If it is not an instance
of an option type that has been made, every operation on options refuses it and calls nothing. If it
is, that type is found, and every operation does what its native counterpart does on what the instance
holds; only a plan may be kept in addition. The functions that clients pass are any code, with effects
of any kind. -/
theorem Reachable.options_refine {m : Type → Type} [Monad m] [LawfulMonad m] (hw : w.Reachable)
    (hv : v ∈ w.held) :
    ((∀ o ∈ w.session.options.instances, o.isInstance v = false) →
      Optional.Refuses m w.session v (.notAnOption v.type.name)) ∧
    (∀ type ∈ w.session.options.instances, type.isInstance v = true →
      w.session.options.typeOf v = .ok type ∧
      ∃ n, v.Represents n ∧ (w.session.afterMatch v).Reachable ∧
        Optional.Refines m w.session (w.session.afterMatch v) v type n) ∧
    ∀ into ∈ w.session.options.instances, into.Wraps := by
  have hs := hw.sound.session
  have hwf := hw.sound.held v hv
  refine ⟨?_, ?_, ?_⟩
  · intro hnone
    exact Session.refuses_of_typeOf (hs.typeOf_eq_error_iff.mpr hnone)
  · intro type htype hinstance
    obtain ⟨n, hoption⟩ := hs.exists_isOption hwf htype hinstance
    exact ⟨hoption.typeOf, n, hoption.represents, hs.afterMatch hwf, hoption.refines⟩
  · exact fun into hinto => hs.wraps hinto

/-- A function that counts its calls is called once on the option that holds the message, and not at
all on the message itself, which is no option. -/
theorem Reachable.options_refine_messages :
    let counted : Value → SessionT (StateM Nat) Value := fun x => do
      StateT.lift (modify (· + 1))
      pure x
    ((Optional.map writtenOption optionOfMessage counted).run.run messages.session).run 0
        = ((.ok writtenOption, messages.session.afterMatch writtenOption), 1) ∧
      ((Optional.map written optionOfMessage counted).run.run messages.session).run 0
        = ((.error (.notAnOption "Message"), messages.session), 0) := by
  intro counted
  have hoption : writtenOption ∈ messages.held := by simp [messages]
  have hmessage : written ∈ messages.held := by simp [messages]
  have htable : optionOfMessage ∈ messages.session.options.instances := List.mem_singleton.mpr rfl
  constructor
  · obtain ⟨-, hrefines, -⟩ := reachable_messages.options_refine (m := StateM Nat) hoption
    obtain ⟨-, n, hn, -, hrefines⟩ := hrefines optionOfMessage htable rfl
    rw [hrefines.map]
    cases hn with
    | present _ hfields =>
      cases hfields
      rfl
    | absent hvariant _ => exact absurd hvariant (by decide)
  · obtain ⟨hrefuses, -, -⟩ := reachable_messages.options_refine (m := StateM Nat) hmessage
    have hnone : ∀ o ∈ messages.session.options.instances, o.isInstance written = false := by
      intro o ho
      rw [List.mem_singleton.mp ho]
      rfl
    rw [(hrefuses hnone).map]
    rfl

end World

end TaggedUnion
