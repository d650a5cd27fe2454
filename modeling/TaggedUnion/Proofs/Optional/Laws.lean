import TaggedUnion.Proofs.Optional.Refinement
import TaggedUnion.Proofs.Session.History
import TaggedUnion.Proofs.Value.RoundTrip

/-!
# The laws of chaining

Chaining functions that make options is associative, and making an option of a value is its unit. The
two ways to chain two functions check the types of what the functions give at different moments, and
pass on failures through different layers. What comes out is the same.

* `OptionsT.exec`, `OptionsT.outcome`: a run, and what can be seen of it without asking for the plans
  that are kept.
* `OptionType.checked`: what becomes of the result of a function that is passed in.
* `Session.Reachable.exists_isOption_of_fits`: whatever fits becomes an option that holds it.
* `Session.IsOption.wrap_eq`: an option is what making one of what it holds gives.
* `Session.IsOption.exec_andThen_some`, `Session.IsOption.exec_andThen_none`: the two runs of a link.
* `Session.Yields`: functions that give options of one type.
* `World.Reachable.andThen_laws`: associativity and the two units.
-/

namespace TaggedUnion

variable {σ α β : Type}

/-- What a run gives and leaves, where functions that are passed in have a state of their own. -/
def OptionsT.exec (code : OptionsT (StateM σ) α) (s : Session) (a : σ) :
    (Except OptionError α × Session) × σ :=
  (code.run.run s).run a

/-- A run without the plans that it keeps: the result, the types and option types after it, and the
state of the functions. -/
def OptionsT.outcome (code : OptionsT (StateM σ) α) (s : Session) (a : σ) :
    Except OptionError α × Registry × OptionTable × σ :=
  match OptionsT.exec code s a with
  | ((result, s'), a') => (result, s'.registry, s'.options, a')

/-- What becomes of the result of a function that is to give an option of this type. -/
def OptionType.checked (into : OptionType) (result : Except OptionError EnumValue) :
    Except OptionError EnumValue :=
  result.bind fun chained =>
    if into.isInstance chained then .ok chained
    else .error (.typeMismatch into.name chained.type.name)

namespace OptionType

variable {into : OptionType}

theorem checked_ok {v : EnumValue} (h : into.isInstance v = true) : into.checked (.ok v) = .ok v :=
  if_pos h

/-- To check a second time changes nothing. -/
theorem checked_checked (result : Except OptionError EnumValue) :
    into.checked (into.checked result) = into.checked result := by
  cases result with
  | error e => rfl
  | ok v =>
    show into.checked (if into.isInstance v then _ else _) = if into.isInstance v then _ else _
    by_cases h : into.isInstance v = true
    · rw [if_pos h, checked_ok h]
    · rw [if_neg h]
      rfl

/-- What an option could be made of is of the inner type. -/
theorem Wraps.conformsTo_of_present (h : into.Wraps) {x : Value} {v : EnumValue}
    (hv : into.present x = .ok v) : x.conformsTo into.inner = true := by
  cases hfits : x.conformsTo into.inner with
  | true => rfl
  | false =>
    rw [h.misfit x hfits] at hv
    cases hv

/-- An option can be made of a native one exactly if what this one holds fits. -/
theorem Wraps.exists_wrap_iff (h : into.Wraps) {n : Option Value} :
    (∃ v, into.wrap n = .ok v) ↔ ∀ x ∈ n, x.conformsTo into.inner = true := by
  cases n with
  | none =>
    obtain ⟨v, hv, -⟩ := h.absent
    exact iff_of_true ⟨v, hv⟩ (by simp)
  | some x =>
    constructor
    · rintro ⟨v, hv⟩ _ ⟨⟩
      exact h.conformsTo_of_present hv
    · intro hfits
      obtain ⟨v, hv, -⟩ := h.present x (hfits x rfl)
      exact ⟨v, hv⟩

/-- What is made of a native option is an option of the type, and holds the same. -/
theorem Wraps.isInstance_and_represents (h : into.Wraps) {n : Option Value} {v : EnumValue}
    (hv : into.wrap n = .ok v) : into.isInstance v = true ∧ v.Represents n := by
  cases n with
  | none =>
    obtain ⟨_, hmade, hv'⟩ := h.absent
    cases hmade.symm.trans hv
    exact hv'
  | some x =>
    obtain ⟨_, hmade, hv'⟩ := h.present x (h.conformsTo_of_present hv)
    cases hmade.symm.trans hv
    exact hv'

theorem Wraps.checked_absent (h : into.Wraps) : into.checked into.absent = into.absent := by
  obtain ⟨v, hv, hinstance, -⟩ := h.absent
  rw [hv, checked_ok hinstance]

end OptionType

namespace OptionsT

variable {code : OptionsT (StateM σ) α} {next : α → OptionsT (StateM σ) β} {s s' : Session}
  {a a' : σ}

theorem exists_exec (code : OptionsT (StateM σ) α) (s : Session) (a : σ) :
    ∃ result s' a', exec code s a = ((result, s'), a') :=
  ⟨_, _, _, rfl⟩

/-- After a success the second step is run. -/
theorem exec_bind_ok {x : α} (h : exec code s a = ((.ok x, s'), a')) :
    exec (code >>= next) s a = exec (next x) s' a' := by
  unfold exec at h ⊢
  rw [Session.run_bind, StateT.run_bind, h]
  rfl

theorem exec_bind_error {e : OptionError} (h : exec code s a = ((.error e, s'), a')) :
    exec (code >>= next) s a = ((.error e, s'), a') := by
  unfold exec at h ⊢
  rw [Session.run_bind, StateT.run_bind, h]
  rfl

end OptionsT

namespace Session

variable {s s' : Session} {v : EnumValue} {type into : OptionType} {n : Option Value}

/-! ## Making the option again -/

/-- A match on an option is a step, from the session before it to the one after it. -/
theorem steps_afterMatch (hs : s.Reachable) (hv : v.WellFormed s.registry) :
    Steps s (s.afterMatch v) :=
  .single (.matching (hs.consistent.matcher.serve
    (.evaluate v (Optional.arms (fun _ => ()) ())) hv.registered))

/-- An option that is made of a native one, with a well-formed value in it, holds this one. -/
theorem Reachable.isOption_of_wrap (hs : s.Reachable) (htype : type ∈ s.options.instances)
    (hn : ∀ x ∈ n, x.WellFormed s.registry) (hv : type.wrap n = .ok v) : s.IsOption v type n := by
  obtain ⟨hinstance, hrep⟩ := (hs.wraps htype).isInstance_and_represents hv
  have hregistered := (hs.registered htype).mem
  have hcon := hs.consistent.registry.consistent
  -- the instance is made of a well-formed payload, so it is well formed
  have hwf : v.WellFormed s.registry := by
    cases n with
    | none =>
      have hmade : construct type.type OptionType.absentName .unit = .ok v :=
        mapError_eq_ok_iff.mp hv
      exact construct_wellFormed hcon hregistered (by simp [Payload.values]) hmade
    | some x =>
      have hmade : construct type.type OptionType.presentName (.positional [x]) = .ok v :=
        mapError_eq_ok_iff.mp hv
      have hvalues : ∀ y ∈ (Payload.positional [x]).values, y.WellFormed s.registry :=
        List.forall_mem_singleton.mpr (hn x rfl)
      exact construct_wellFormed hcon hregistered hvalues hmade
  obtain ⟨_, hoption⟩ := hs.exists_isOption hwf htype hinstance
  exact { hoption with represents := hrep }

/-- Whatever fits becomes an option that holds it. -/
theorem Reachable.exists_isOption_of_fits (hs : s.Reachable) (htype : type ∈ s.options.instances)
    (hn : ∀ x ∈ n, x.WellFormed s.registry ∧ x.conformsTo type.inner = true) :
    ∃ v, type.wrap n = .ok v ∧ s.IsOption v type n := by
  obtain ⟨v, hv⟩ := (hs.wraps htype).exists_wrap_iff.mpr fun x hx => (hn x hx).2
  exact ⟨v, hv, hs.isOption_of_wrap htype (fun x hx => (hn x hx).1) hv⟩

namespace IsOption

/-- The type of an option is the one that its option type has. -/
theorem type_eq (h : s.IsOption v type n) : v.type = type.type := by
  obtain ⟨htype, hinstance⟩ := h.session.typeOf_eq_ok_iff.mp h.typeOf
  exact h.session.consistent.registry.consistent.eq_of_id_eq h.value.registered
    (h.session.registered htype).mem (OptionType.isInstance_iff.mp hinstance).symm

/-- The variant of an option follows from its name, and the payload from the variant. -/
theorem payload_eq (h : s.IsOption v type n) :
    v.payload = n.elim .unit fun x => .positional [x] := by
  have hmem : v.variant ∈ v.type.variants := List.getElem_mem _
  rw [h.variants] at hmem
  simp only [OptionType.variants, List.mem_cons, List.not_mem_nil, or_false] at hmem
  rw [EnumValue.payload_eq]
  -- the name of the variant says which of the two it is
  cases h.represents with
  | present hname hfields =>
    rcases hmem with hvariant | hvariant
    · rw [hvariant, hfields]
      rfl
    · rw [EnumValue.variantName, hvariant] at hname
      exact absurd hname (by decide)
  | absent hname hfields =>
    rcases hmem with hvariant | hvariant
    · rw [EnumValue.variantName, hvariant] at hname
      exact absurd hname (show OptionType.presentName ≠ OptionType.absentName by decide)
    · rw [hvariant]
      rfl

/-- Making an option of what an option holds gives the very same instance. -/
theorem wrap_eq (h : s.IsOption v type n) : type.wrap n = .ok v := by
  have htype : v.type.WellFormed :=
    h.session.consistent.registry.consistent.wellFormed _ h.value.registered
  -- to read an instance and to make it again gives the instance
  have hagain : construct v.type v.variantName v.payload = .ok v := by
    refine (construct_eq_ok_iff_arranges htype).mpr ⟨rfl, rfl, ?_, h.value.stores⟩
    rw [EnumValue.payload_eq]
    exact Shape.arranges_payloadOf h.value.stores
  rw [h.payload_eq, h.type_eq] at hagain
  cases h.represents with
  | present hname _ =>
    rw [hname] at hagain
    exact congrArg (Except.mapError OptionError.value) hagain
  | absent hname _ =>
    rw [hname] at hagain
    exact congrArg (Except.mapError OptionError.value) hagain

theorem wellFormed_of_some {x : Value} (h : s.IsOption v type (some x)) :
    x.WellFormed s.registry := by
  have hfields : x ∈ v.fields := by
    rw [h.represents.fields_eq]
    exact List.mem_cons_self
  exact h.value.value hfields

/-- What an option holds is of the type that its own type is over. -/
theorem conformsTo_of_some {x : Value} (h : s.IsOption v type (some x)) :
    x.conformsTo type.inner = true := by
  have htable := (h.session.typeOf_eq_ok_iff.mp h.typeOf).1
  exact (h.session.wraps htable).conformsTo_of_present h.wrap_eq

/-! ## One link -/

variable {f : Value → OptionsT (StateM σ) EnumValue} {a a' : σ}

/-- A link on nothing gives nothing, and calls nothing. -/
theorem exec_andThen_none (h : s.IsOption v type none) :
    OptionsT.exec (Optional.andThen v into f) s a = ((into.absent, s.afterMatch v), a) := by
  unfold OptionsT.exec
  rw [h.refines.andThen]
  rfl

/-- A link on a value calls the function on it, and checks the result. -/
theorem exec_andThen_some {x : Value} (h : s.IsOption v type (some x))
    {result : Except OptionError EnumValue}
    (hf : OptionsT.exec (f x) (s.afterMatch v) a = ((result, s'), a')) :
    OptionsT.exec (Optional.andThen v into f) s a = ((into.checked result, s'), a') := by
  unfold OptionsT.exec at hf ⊢
  rw [h.refines.andThen]
  show ((f x).run.run (s.afterMatch v) >>= _).run a = _
  rw [StateT.run_bind, hf]
  rfl

/-- What comes out of a link would pass the check of the link once more. -/
theorem checked_of_exec_andThen (h : s.IsOption v type n) (hinto : into.Wraps)
    {result : Except OptionError EnumValue}
    (hrun : OptionsT.exec (Optional.andThen v into f) s a = ((result, s'), a')) :
    into.checked result = result := by
  cases n with
  | none =>
    rw [h.exec_andThen_none] at hrun
    cases hrun
    exact hinto.checked_absent
  | some x =>
    rw [h.exec_andThen_some rfl] at hrun
    cases hrun
    exact OptionType.checked_checked _

end IsOption

/-- From `s₀` on, `f` works in the session as clients do, and an option that it gives is of type
`into`. -/
def Yields (s₀ : Session) (into : OptionType) (f : Value → OptionsT (StateM σ) EnumValue) : Prop :=
  ∀ ⦃s⦄, Steps s₀ s → ∀ ⦃x : Value⦄, x.WellFormed s.registry → ∀ ⦃a result s' a'⦄,
    OptionsT.exec (f x) s a = ((result, s'), a') →
      Steps s s' ∧ ∀ u, result = .ok u → u.WellFormed s'.registry ∧ into.isInstance u = true

/-- What such a function gives passes the check. -/
theorem Yields.checked_eq {f : Value → OptionsT (StateM σ) EnumValue} {s₀ : Session}
    (h : s₀.Yields into f) (hsteps : Steps s₀ s) {x : Value} (hx : x.WellFormed s.registry)
    {a a' : σ} {result : Except OptionError EnumValue}
    (hf : OptionsT.exec (f x) s a = ((result, s'), a')) : into.checked result = result := by
  obtain ⟨-, hresult⟩ := h hsteps hx hf
  cases result with
  | error e => rfl
  | ok u => exact OptionType.checked_ok (hresult u rfl).2

/-! ## Two links -/

variable {f g : Value → OptionsT (StateM σ) EnumValue} {T U W : OptionType}

/-- Associativity. An option that holds nothing is matched once more on the left, which may keep
another plan. One that holds a value goes the same way on both sides, with one check more on the
right. -/
theorem IsOption.andThen_assoc (h : s.IsOption v T n) (hU : U ∈ s.options.instances)
    (hW : W ∈ s.options.instances) (hf : s.Yields U f) (a : σ) :
    OptionsT.outcome (Optional.andThen v U f >>= fun u => Optional.andThen u W g) s a
      = OptionsT.outcome
        (Optional.andThen v W fun x => f x >>= fun u => Optional.andThen u W g) s a := by
  have hstep : Steps s (s.afterMatch v) := steps_afterMatch h.session h.value
  have hs₁ : (s.afterMatch v).Reachable := h.session.steps hstep
  have hwraps : W.Wraps := h.session.wraps hW
  unfold OptionsT.outcome
  cases n with
  | none =>
    -- on the left there is an option of type `U` in between, which holds nothing either
    obtain ⟨b, hb, hoption⟩ := hs₁.exists_isOption_of_fits (n := none) hU (by simp)
    have hfirst : OptionsT.exec (Optional.andThen v U f) s a = ((.ok b, s.afterMatch v), a) := by
      rw [h.exec_andThen_none, show U.absent = .ok b from hb]
    rw [OptionsT.exec_bind_ok hfirst, hoption.exec_andThen_none, h.exec_andThen_none]
    rfl
  | some x =>
    have hx : x.WellFormed (s.afterMatch v).registry := h.wellFormed_of_some
    -- `f` runs from one session on both sides, so there is one run of it to look at
    obtain ⟨result, s₂, a₂, hcall⟩ := OptionsT.exists_exec (f x) (s.afterMatch v) a
    obtain ⟨hsteps, hresult⟩ := hf hstep hx hcall
    have hfirst : OptionsT.exec (Optional.andThen v U f) s a = ((result, s₂), a₂) := by
      rw [h.exec_andThen_some hcall, hf.checked_eq hstep hx hcall]
    cases result with
    | error e =>
      rw [OptionsT.exec_bind_error hfirst, h.exec_andThen_some (OptionsT.exec_bind_error hcall)]
      rfl
    | ok u =>
      -- and so is there of the link with `g`, whose check comes twice on the right
      obtain ⟨hu, hinstance⟩ := hresult u rfl
      have hU₂ : U ∈ s₂.options.instances := hsteps.options_prefix.subset hU
      obtain ⟨n₂, hoption⟩ := (hs₁.steps hsteps).exists_isOption hu hU₂ hinstance
      obtain ⟨last, s₃, a₃, hlast⟩ := OptionsT.exists_exec (Optional.andThen u W g) s₂ a₂
      have hinner : OptionsT.exec (f x >>= fun u => Optional.andThen u W g) (s.afterMatch v) a
          = ((last, s₃), a₃) := (OptionsT.exec_bind_ok hcall).trans hlast
      rw [OptionsT.exec_bind_ok hfirst, hlast, h.exec_andThen_some hinner,
        hoption.checked_of_exec_andThen hwraps hlast]

/-- The left unit: an option made of a value hands it on. -/
theorem Reachable.present_andThen (hs : s.Reachable) (hT : T ∈ s.options.instances) {x : Value}
    (hx : x.WellFormed s.registry) (hfits : x.conformsTo T.inner = true) :
    ∃ o, T.present x = .ok o ∧ ∀ f, s.Yields U f → ∀ a : σ,
      OptionsT.exec (Optional.andThen o U f) s a = OptionsT.exec (f x) (s.afterMatch o) a := by
  obtain ⟨o, ho, hoption⟩ := hs.exists_isOption_of_fits (n := some x) hT (by simpa using ⟨hx, hfits⟩)
  refine ⟨o, ho, ?_⟩
  intro f hf a
  obtain ⟨result, s', a', hcall⟩ := OptionsT.exists_exec (f x) (s.afterMatch o) a
  have hstep : Steps s (s.afterMatch o) := steps_afterMatch hs hoption.value
  -- the option holds the value, so the link is a call of the function, and its result passes the check
  rw [hoption.exec_andThen_some hcall, hcall, hf.checked_eq hstep hx hcall]

/-- The right unit: an option made of what an option holds is the option. -/
theorem IsOption.andThen_present (h : s.IsOption v T n) (a : σ) :
    OptionsT.exec (Optional.andThen v T fun x => .ofExcept (T.present x)) s a
      = ((.ok v, s.afterMatch v), a) := by
  have hwrap := h.wrap_eq
  cases n with
  | none =>
    rw [h.exec_andThen_none]
    exact congrArg (fun result => ((result, s.afterMatch v), a)) hwrap
  | some x =>
    have hmake : T.present x = .ok v := hwrap
    have hinstance := (h.session.typeOf_eq_ok_iff.mp h.typeOf).2
    -- the function makes the option again, and this passes the check
    have hcall : OptionsT.exec (OptionsT.ofExcept (T.present x)) (s.afterMatch v) a
        = ((.ok v, s.afterMatch v), a) := by
      rw [hmake]
      rfl
    rw [h.exec_andThen_some hcall, OptionType.checked_ok hinstance]

end Session

namespace World

variable {w : World} {T U W : OptionType}

/-- Chaining obeys the laws of a monad, failures included. Chaining two functions one after the other
comes to chaining with the two chained to each other, if the first gives only options of type `U`: the
results are the same, and so are all types and all that the functions have done. An option made of a
value hands the value to the function. To make an option of what an option holds gives this very
instance. Only the plans that are kept may differ, as an option that holds nothing is matched again if
it is chained again. -/
theorem Reachable.andThen_laws (hw : w.Reachable) (σ : Type)
    (hT : T ∈ w.session.options.instances) (hU : U ∈ w.session.options.instances)
    (hW : W ∈ w.session.options.instances) :
    (∀ o ∈ w.held, T.isInstance o = true →
      ∀ f g : Value → OptionsT (StateM σ) EnumValue, w.session.Yields U f → ∀ a,
        OptionsT.outcome (do
          let chained ← Optional.andThen o U f
          Optional.andThen chained W g) w.session a
        = OptionsT.outcome (Optional.andThen o W fun x => do
          let chained ← f x
          Optional.andThen chained W g) w.session a) ∧
    (∀ x, w.Holds x → x.conformsTo T.inner = true →
      ∃ o, T.present x = .ok o ∧
        ∀ f : Value → OptionsT (StateM σ) EnumValue, w.session.Yields U f → ∀ a,
          OptionsT.exec (Optional.andThen o U f) w.session a
            = OptionsT.exec (f x) (w.session.afterMatch o) a) ∧
    ∀ o ∈ w.held, T.isInstance o = true → ∀ a : σ,
      OptionsT.exec (Optional.andThen o T fun x => .ofExcept (T.present x)) w.session a
        = ((.ok o, w.session.afterMatch o), a) := by
  have hs := hw.sound.session
  refine ⟨?_, ?_, ?_⟩
  · intro o ho hinstance f g hf a
    obtain ⟨n, hoption⟩ := hs.exists_isOption (hw.sound.held o ho) hT hinstance
    exact hoption.andThen_assoc hU hW hf a
  · intro x hx hfits
    exact hs.present_andThen hT (hw.sound.value hx) hfits
  · intro o ho hinstance a
    obtain ⟨n, hoption⟩ := hs.exists_isOption (hw.sound.held o ho) hT hinstance
    exact hoption.andThen_present a

/-- The second function gives a message and no option of one. Both ways to chain it say so, though the
check stands in another place. -/
theorem Reachable.andThen_laws_messages :
    let f : Value → OptionsT (StateM Unit) EnumValue := fun _ => .ofExcept (.ok writtenOption)
    let g : Value → OptionsT (StateM Unit) EnumValue := fun _ => .ofExcept (.ok written)
    (OptionsT.outcome (do
        let chained ← Optional.andThen writtenOption optionOfMessage f
        Optional.andThen chained optionOfMessage g) messages.session ()).1
      = .error (.typeMismatch "Option<Message>" "Message") ∧
    (OptionsT.exec (Optional.andThen writtenOption optionOfMessage fun x =>
        .ofExcept (optionOfMessage.present x)) messages.session ()).1.1 = .ok writtenOption := by
  intro f g
  have hoption : writtenOption ∈ messages.held := by simp [messages]
  have htable : optionOfMessage ∈ messages.session.options.instances := List.mem_singleton.mpr rfl
  obtain ⟨hassoc, -, hright⟩ := reachable_messages.andThen_laws Unit htable htable htable
  have hf : messages.session.Yields optionOfMessage f := by
    intro s hsteps x _ a result s' a' hcall
    cases hcall
    refine ⟨.refl, ?_⟩
    intro u hu
    cases hu
    exact ⟨(reachable_messages.sound.held _ hoption).mono hsteps.types, rfl⟩
  refine ⟨?_, ?_⟩
  · rw [hassoc _ hoption rfl f g hf ()]
    rfl
  · rw [hright _ hoption rfl ()]

end World

end TaggedUnion
