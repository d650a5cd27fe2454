import TaggedUnion.Proofs.Optional.Laws

/-!
# The laws of mapping

Mapping is chaining with a function that makes an option of its result: the check that follows in a
chain finds nothing to complain about, since what is made as an option of a type is one. So the two
fail alike, and mapping has its identity from chaining. It respects composition as far as the results
of the first function fit, for only there does mapping in two steps look at them.

* `OptionType.isInstance_of_make`: what is made as an option of a type is an instance of it.
* `Optional.map_eq_andThen`: mapping is chaining, whatever the value, the type and the function.
* `Session.IsOption.exec_map_some`, `Session.IsOption.exec_map_none`: the two runs of mapping.
* `Session.Maps`: functions between the values of two types.
* `Session.IgnoresPlans`: functions to which it makes no difference which plans are kept.
* `World.Reachable.map_laws`: mapping is chaining, and respects identity and composition.
-/

namespace TaggedUnion

variable {σ α : Type}

/-- What a run gives and leaves, apart from the plans that it keeps. -/
def SessionT.outcome (code : SessionT (StateM σ) α) (s : Session) (a : σ) :
    α × Registry × OptionTable × σ :=
  match (code.run s).run a with
  | ((x, s'), a') => (x, s'.registry, s'.options, a')

theorem SessionT.exists_run (code : SessionT (StateM σ) α) (s : Session) (a : σ) :
    ∃ x s' a', (code.run s).run a = ((x, s'), a') :=
  ⟨_, _, _, rfl⟩

/-- What is made as an option of a type is an instance of it. -/
theorem OptionType.isInstance_of_make {t : OptionType} {v : EnumValue} {variant : String}
    {payload : Payload} (h : t.make variant payload = .ok v) : t.isInstance v = true := by
  obtain ⟨-, -, -, -, -, rfl⟩ := exists_of_construct (Session.mapError_eq_ok_iff.mp h)
  exact isInstance_iff.mpr rfl

/-! ## Mapping is chaining -/

namespace Optional

variable {m : Type → Type} [Monad m] [LawfulMonad m]

/-- To check an option that has just been made changes nothing, and neither does it where none could
be made. -/
theorem ofExcept_present_bind (into : OptionType) (x : Value) :
    (OptionsT.ofExcept (into.present x) >>= fun chained => do
        OptionsT.ofExcept (ensureInstance into chained)
        return chained)
      = (OptionsT.ofExcept (into.present x) : OptionsT m EnumValue) := by
  apply ExceptT.ext
  apply StateT.ext
  intro s
  rw [Session.run_ofExcept_bind, Session.run_ofExcept]
  cases h : into.present x with
  | error e => rfl
  | ok v =>
    -- what was just made is an instance of the type
    have hcheck : ensureInstance into v = .ok () := if_pos (OptionType.isInstance_of_make h)
    dsimp only
    rw [hcheck, Session.run_ofExcept_bind]
    rfl

/-- Mapping is chaining with the function that makes an option of the result. -/
theorem map_eq_andThen (option : EnumValue) (into : OptionType) (f : Value → SessionT m Value) :
    map option into f
      = andThen (m := m) option into (fun x => do .ofExcept (into.present (← f x))) := by
  unfold map andThen
  congr
  funext _
  congr
  funext x
  rw [bind_assoc]
  congr
  funext y
  exact (ofExcept_present_bind into y).symm

end Optional

namespace Session

variable {s s' : Session} {v : EnumValue} {T U W into : OptionType} {n : Option Value}
  {f g : Value → SessionT (StateM σ) Value} {a a' : σ}

namespace IsOption

/-! ## The two runs -/

theorem exec_map_none (h : s.IsOption v T none) :
    OptionsT.exec (Optional.map v into f) s a = ((into.absent, s.afterMatch v), a) := by
  unfold OptionsT.exec
  rw [h.refines.map]
  rfl

/-- Mapping a value calls the function on it, and makes an option of the result. -/
theorem exec_map_some {x y : Value} (h : s.IsOption v T (some x))
    (hf : ((f x).run (s.afterMatch v)).run a = ((y, s'), a')) :
    OptionsT.exec (Optional.map v into f) s a = ((into.present y, s'), a') := by
  unfold OptionsT.exec
  rw [h.refines.map]
  show ((f x).run (s.afterMatch v) >>= _).run a = _
  rw [StateT.run_bind, hf]
  rfl

/-- The option is made where no plans are looked at. -/
theorem outcome_map_some {x : Value} (h : s.IsOption v T (some x)) :
    OptionsT.outcome (Optional.map v into f) s a
      = (fun (y, rest) => (into.present y, rest)) ((f x).outcome (s.afterMatch v) a) := by
  unfold OptionsT.outcome
  rw [h.exec_map_some rfl]
  rfl

/-- Identity. An option of what an option holds is the option. -/
theorem map_pure (h : s.IsOption v T n) (a : σ) :
    OptionsT.exec (Optional.map v T pure) s a = ((.ok v, s.afterMatch v), a) := by
  have hwrap := h.wrap_eq
  cases n with
  | none =>
    rw [h.exec_map_none]
    exact congrArg (fun result => ((result, s.afterMatch v), a)) hwrap
  | some x =>
    rw [h.exec_map_some rfl]
    exact congrArg (fun result => ((result, s.afterMatch v), a)) hwrap

end IsOption

/-! ## Two maps -/

/-- From `s₀` on, `f` works in the session as clients do, and makes values of type `inner'` of those of
type `inner`. -/
def Maps (s₀ : Session) (inner inner' : FieldType) (f : Value → SessionT (StateM σ) Value) : Prop :=
  ∀ ⦃s⦄, Steps s₀ s → ∀ ⦃x : Value⦄, x.WellFormed s.registry → x.conformsTo inner = true →
    ∀ ⦃a y s' a'⦄, ((f x).run s).run a = ((y, s'), a') →
      Steps s s' ∧ y.WellFormed s'.registry ∧ y.conformsTo inner' = true

/-- From `s₀` on, `g` gives and leaves the same whatever plans are kept when it is called. -/
def IgnoresPlans (s₀ : Session) (g : Value → SessionT (StateM σ) Value) : Prop :=
  ∀ ⦃s⦄, Steps s₀ s → ∀ ⦃m : Matcher⦄, m.Reachable s.registry →
    ∀ ⦃x : Value⦄, x.WellFormed s.registry → ∀ a,
      (g x).outcome { s with matcher := m } a = (g x).outcome s a

/-- A function that does without the session does not see the plans. -/
theorem ignoresPlans_lift (s₀ : Session) (k : Value → StateM σ Value) :
    s₀.IgnoresPlans fun x => StateT.lift (k x) :=
  fun _ _ _ _ _ _ _ => rfl

/-- Composition. An option that holds nothing is matched once more on the left. One that holds a value
has the first function called alike on both sides, and the second one on the left after one match
more, that of the option in between. -/
theorem IsOption.map_map (h : s.IsOption v T n) (hU : U ∈ s.options.instances)
    (hf : s.Maps T.inner U.inner f) (hg : s.IgnoresPlans g) (a : σ) :
    OptionsT.outcome (Optional.map v U f >>= fun u => Optional.map u W g) s a
      = OptionsT.outcome (Optional.map v W fun x => f x >>= g) s a := by
  have hstep : Steps s (s.afterMatch v) := steps_afterMatch h.session h.value
  have hs₁ : (s.afterMatch v).Reachable := h.session.steps hstep
  cases n with
  | none =>
    -- on the left there is an option in between, which holds nothing either
    obtain ⟨b, hb, hoption⟩ := hs₁.exists_isOption_of_fits (n := none) hU (by simp)
    have hfirst : OptionsT.exec (Optional.map v U f) s a = ((.ok b, s.afterMatch v), a) := by
      rw [h.exec_map_none, show U.absent = .ok b from hb]
    unfold OptionsT.outcome
    rw [OptionsT.exec_bind_ok hfirst, hoption.exec_map_none, h.exec_map_none]
    rfl
  | some x =>
    obtain ⟨y, s₂, a₂, hcall⟩ := SessionT.exists_run (f x) (s.afterMatch v) a
    obtain ⟨hsteps, hy, hfits⟩ := hf hstep h.wellFormed_of_some h.conformsTo_of_some hcall
    have hs₂ : s₂.Reachable := hs₁.steps hsteps
    have hU₂ : U ∈ s₂.options.instances := hsteps.options_prefix.subset hU
    -- the value made fits, so there is an option of it in between on the left
    obtain ⟨u, hu, hoption⟩ :=
      hs₂.exists_isOption_of_fits (n := some y) hU₂ (by simpa using ⟨hy, hfits⟩)
    have hfirst : OptionsT.exec (Optional.map v U f) s a = ((.ok u, s₂), a₂) := by
      rw [h.exec_map_some hcall, show U.present y = .ok u from hu]
    have hleft : OptionsT.outcome (Optional.map v U f >>= fun u => Optional.map u W g) s a
        = OptionsT.outcome (Optional.map u W g) s₂ a₂ := by
      unfold OptionsT.outcome
      rw [OptionsT.exec_bind_ok hfirst]
    have hright : (f x >>= g).outcome (s.afterMatch v) a = (g y).outcome s₂ a₂ := by
      unfold SessionT.outcome
      rw [StateT.run_bind, StateT.run_bind, hcall]
      rfl
    -- the second function does not see that this option was matched
    have hplans : (g y).outcome (s₂.afterMatch u) a₂ = (g y).outcome s₂ a₂ :=
      hg (hstep.trans hsteps) (hs₂.afterMatch hoption.value).consistent.matcher hy a₂
    rw [hleft, hoption.outcome_map_some, h.outcome_map_some, hright, hplans]

end Session

namespace World

variable {w : World} {T U W : OptionType}

/-- Mapping obeys the laws of a functor, and agrees with chaining. To map is to chain with the function
that makes an option of the result, whatever function is passed, so the two also fail alike. Mapping
into the same type with a function that gives back what it gets gives this very instance. To map twice
comes to mapping with both functions at once, if what the first one makes fits into options of `U`. The
plans that are kept may differ, as there is one option less to match, and the second function must not
go by them; functions that do without the session never do. -/
theorem Reachable.map_laws (hw : w.Reachable) (σ : Type)
    (hT : T ∈ w.session.options.instances) (hU : U ∈ w.session.options.instances) :
    (∀ o ∈ w.held, ∀ (into : OptionType) (f : Value → SessionT (StateM σ) Value),
      Optional.map o into f
        = Optional.andThen (m := StateM σ) o into fun x => do
          .ofExcept (into.present (← f x))) ∧
    (∀ o ∈ w.held, T.isInstance o = true → ∀ a : σ,
      OptionsT.exec (Optional.map o T pure) w.session a
        = ((.ok o, w.session.afterMatch o), a)) ∧
    (∀ o ∈ w.held, T.isInstance o = true →
      ∀ f g : Value → SessionT (StateM σ) Value, w.session.Maps T.inner U.inner f →
        w.session.IgnoresPlans g → ∀ a,
        OptionsT.outcome (do
          let mapped ← Optional.map o U f
          Optional.map mapped W g) w.session a
        = OptionsT.outcome (Optional.map o W fun x => do g (← f x)) w.session a) ∧
    ∀ k : Value → StateM σ Value, w.session.IgnoresPlans fun x => StateT.lift (k x) := by
  have hs := hw.sound.session
  refine ⟨?_, ?_, ?_, ?_⟩
  · intro o _ into f
    exact Optional.map_eq_andThen o into f
  · intro o ho hinstance a
    obtain ⟨n, hoption⟩ := hs.exists_isOption (hw.sound.held o ho) hT hinstance
    exact hoption.map_pure a
  · intro o ho hinstance f g hf hg a
    obtain ⟨n, hoption⟩ := hs.exists_isOption (hw.sound.held o ho) hT hinstance
    exact hoption.map_map hU hf hg a
  · exact Session.ignoresPlans_lift w.session

/-- A function that counts its calls gives a text where a message is asked for. Mapping and chaining
complain alike after one call; and so do both ways to map with it after a function that changes
nothing. -/
theorem Reachable.map_laws_messages :
    let counted : StateM Nat Value := do
      modify (· + 1)
      return .text "gone"
    let gone : Value → SessionT (StateM Nat) Value := fun _ => StateT.lift counted
    let misfit : OptionError := .value
      (.payloadMisfit "Option<Message>" "Present"
        (.wrongFieldType "0" optionOfMessage.inner (.scalar .text)))
    OptionsT.exec (Optional.andThen (m := StateM Nat) writtenOption optionOfMessage fun x => do
        .ofExcept (optionOfMessage.present (← gone x))) messages.session 0
      = ((.error misfit, messages.session.afterMatch writtenOption), 1) ∧
    (OptionsT.exec (Optional.map writtenOption optionOfMessage pure) messages.session 0).1.1
      = .ok writtenOption ∧
    ((OptionsT.outcome (do
        let mapped ← Optional.map writtenOption optionOfMessage pure
        Optional.map mapped optionOfMessage gone) messages.session 0).1
      = .error misfit) := by
  intro counted gone misfit
  have hoption : writtenOption ∈ messages.held := by simp [messages]
  have htable : optionOfMessage ∈ messages.session.options.instances := List.mem_singleton.mpr rfl
  obtain ⟨hchain, hidentity, hcomposition, hlift⟩ :=
    reachable_messages.map_laws (W := optionOfMessage) Nat htable htable
  have hpure : messages.session.Maps optionOfMessage.inner optionOfMessage.inner
      (pure : Value → SessionT (StateM Nat) Value) := by
    intro s _ x hx hfits a y s' a' hcall
    cases hcall
    exact ⟨.refl, hx, hfits⟩
  refine ⟨?_, ?_, ?_⟩
  · rw [← hchain _ hoption]
    rfl
  · rw [hidentity _ hoption rfl]
  · rw [hcomposition _ hoption rfl pure gone hpure (hlift fun _ => counted)]
    rfl

end World

end TaggedUnion
