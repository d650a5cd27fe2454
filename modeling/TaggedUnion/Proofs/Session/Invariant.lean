import TaggedUnion.Proofs.Match.Dispatch
import TaggedUnion.Proofs.Session.World

/-!
# What holds in every world

Every instance that an operation gives is well formed, whatever was done before. Each operation has a
lemma that says so, given that it starts in a world where all instances held are well formed.

* `World.Sound`: the invariant.
* `World.Leads`: an operation keeps the invariant, and types stay registered.
* `World.gives_typeOf`, `World.gives_dispatch`: the two steps that the operations on options share.
* `World.Run.leads`: any number of operations, one case for each of them.
* `World.Reachable.held_wellFormed`: no instance has a tag and fields that do not fit each other.
* `World.Reachable.evaluate_first_match`: matching an instance is first match.
-/

namespace TaggedUnion

namespace World

/-- What every operation keeps. -/
structure Sound (w : World) : Prop where
  session : w.session.Reachable
  held : ∀ v ∈ w.held, v.WellFormed w.session.registry

/-- From `w` the invariant is kept in `u`, and the types of `w` are registered in `u`. -/
structure Leads (w u : World) : Prop where
  sound : u.Sound
  types : w.session.registry.types <+: u.session.registry.types

section Changes

variable {w u : World}

theorem sound_new : Sound {} where
  session := .new
  held := by simp

theorem Sound.registry (h : w.Sound) : w.session.registry.Reachable :=
  h.session.consistent.registry

/-- The type of an option type is registered. -/
theorem Sound.options (h : w.Sound) {o : OptionType} (ho : o ∈ w.session.options.instances) :
    o.type ∈ w.session.registry.types :=
  h.session.consistent.options o ho

theorem Sound.matcher (h : w.Sound) : w.session.matcher.Reachable w.session.registry :=
  h.session.consistent.matcher

/-- Values that clients can pass are well formed, as the instances in them are held. -/
theorem Sound.value (h : w.Sound) {x : Value} (hx : w.Holds x) :
    x.WellFormed w.session.registry :=
  fun v hv => h.held v (hx v hv)

theorem Sound.refl (h : w.Sound) : w.Leads w :=
  ⟨h, List.prefix_refl _⟩

theorem Leads.trans {v : World} (h : w.Leads u) (h' : u.Leads v) : w.Leads v :=
  ⟨h'.sound, h.types.trans h'.types⟩

theorem Sound.hold (h : w.Sound) {xs : List Value}
    (hxs : ∀ x ∈ xs, x.WellFormed w.session.registry) : w.Leads (w.hold xs) := by
  refine ⟨⟨h.session, ?_⟩, List.prefix_refl _⟩
  intro v hv
  rcases List.mem_append.mp hv with hold | hnew
  · exact h.held v hold
  · -- of the new values only instances are held
    obtain ⟨x, hx, henum⟩ := List.mem_filterMap.mp hnew
    refine hxs x hx v ?_
    cases x <;> cases henum
    rfl

/-- A step of the session keeps what clients hold well formed. -/
theorem Sound.step (h : w.Sound) {s : Session} (hstep : w.session.Step s) :
    w.Leads (w.within s) := by
  have hgrows := hstep.types
  refine ⟨⟨.next h.session hstep, ?_⟩, hgrows⟩
  -- what was well formed is well formed over more types as well
  intro v hv
  exact (h.held v hv).mono hgrows

/-- So does a match, which leaves the session with another matcher. -/
theorem Sound.matching (h : w.Sound) {m : Matcher} (hm : m.Reachable w.session.registry) :
    w.Leads (w.within { w.session with matcher := m }) :=
  h.step (.matching hm)

end Changes

/-! ## Instances and matches -/

section Instances

variable {w : World} {v : EnumValue}

/-- An instance made of values that clients can pass is well formed. -/
theorem leads_construct (h : w.Sound) {type : EnumType} (ht : type ∈ w.session.registry.types)
    {variant : String} {payload : Payload} (hpayload : ∀ x ∈ payload.values, w.Holds x)
    (hr : construct type variant payload = .ok v) : w.Leads (w.hold [.enum v]) := by
  have hv : v.WellFormed w.session.registry :=
    construct_wellFormed h.registry.consistent ht (fun x hx => h.value (hpayload x hx)) hr
  exact h.hold (List.forall_mem_singleton.mpr (Value.wellFormed_enum hv))

/-- Stored fields of a well-formed instance are well formed. -/
theorem leads_extractFields (h : w.Sound) (hv : v ∈ w.held) {variant : String}
    {values : List Value} (hr : v.extractFields variant = .ok values) :
    w.Leads (w.hold values) := by
  have hwf := h.held v hv
  have htype := h.registry.consistent.wellFormed _ hwf.registered
  obtain ⟨-, rfl⟩ := (EnumValue.extractFields_eq_ok_iff htype).mp hr
  exact h.hold fun x hx => hwf.value hx

/-- The values in a payload are the stored fields. -/
theorem leads_extract (h : w.Sound) (hv : v ∈ w.held) {variant : String} {payload : Payload}
    (hr : v.extract variant = .ok payload) : w.Leads (w.hold payload.values) := by
  have hwf := h.held v hv
  have htype := h.registry.consistent.wellFormed _ hwf.registered
  obtain ⟨-, rfl⟩ := (EnumValue.extract_eq_ok_iff htype).mp hr
  rw [hwf.payload_values]
  exact h.hold fun x hx => hwf.value hx

/-- What a match binds is the instance matched or one of its fields, whichever arm fires. -/
theorem wellFormed_of_bound (h : w.Sound) (hv : v ∈ w.held) {m : Matcher}
    (hm : m.Reachable w.session.registry) (heads : List ArmHead) :
    ∀ x ∈ bound (m.evaluate v (heads.map Arm.handing)).1, x.WellFormed w.session.registry := by
  have hwf := h.held v hv
  intro x hx
  rcases Matcher.evaluate_cases h.registry.consistent hm.sound hwf (heads.map Arm.handing) with
    ⟨e, -, hevaluate⟩ | ⟨i, arm, entries, harm, hbinds, -, hevaluate⟩
  · -- a match that fails binds nothing
    rw [hevaluate] at hx
    cases hx
  · rw [hevaluate] at hx
    rw [List.getElem?_map] at harm
    obtain ⟨head, -, rfl⟩ := Option.map_eq_some_iff.mp harm
    obtain ⟨entry, hentry, rfl⟩ := List.mem_map.mp hx
    exact EnumValue.value_of_binds hwf hbinds entry hentry

/-- A match with the matcher of the session: it may keep a plan, and the bodies get what is bound. -/
theorem leads_evaluate (h : w.Sound) (hv : v ∈ w.held) (heads : List ArmHead) :
    w.Leads ((w.within (w.session.evaluate v (heads.map Arm.handing)).2).hold
      (bound (w.session.evaluate v (heads.map Arm.handing)).1)) := by
  have hm : (w.session.matcher.evaluate v (heads.map Arm.handing)).2.Reachable
      w.session.registry :=
    h.matcher.serve (.evaluate v (heads.map Arm.handing)) (h.held v hv).registered
  have hmatched := h.matching hm
  exact hmatched.trans (hmatched.sound.hold (wellFormed_of_bound h hv h.matcher heads))

end Instances

/-! ## Options -/

section Options

variable {α β : Type} {w : World} {option : EnumValue}

/-- A result of an operation on options keeps the invariant, and what it gives is well formed. -/
def Gives (w : World) (given : α → List Value) (result : Except OptionError α × World) : Prop :=
  w.Leads result.2 ∧
    ∀ a, result.1 = .ok a → ∀ y ∈ given a, y.WellFormed result.2.session.registry

/-- An operation on options keeps the invariant if its result does. -/
theorem leads_perform {code : OptionsClientM α} {given : α → List Value}
    (h : w.Gives given (w.exec code.run)) : w.Leads (w.perform code given) := by
  obtain ⟨hleads, hgiven⟩ := h
  unfold perform
  generalize w.exec code.run = result at hleads hgiven
  obtain ⟨a | a, u⟩ := result
  · exact hleads
  · exact hleads.trans (hleads.sound.hold (hgiven a rfl))

theorem gives_error {u : World} (h : w.Leads u) {given : α → List Value} (e : OptionError) :
    w.Gives given (.error e, u) := by
  refine ⟨h, ?_⟩
  intro a ha
  cases ha

/-- What an operation gives must be well formed, and the world that it leaves must be sound. -/
theorem gives_ok {u : World} (h : w.Leads u) {given : α → List Value} {a : α}
    (ha : ∀ y ∈ given a, y.WellFormed u.session.registry) : w.Gives given (.ok a, u) := by
  refine ⟨h, ?_⟩
  intro b hb
  cases hb
  exact ha

/-- An option of a well-formed value is well formed, if it can be made. -/
theorem gives_wrap {u : World} (h : w.Leads u) {into : OptionType}
    (ht : into.type ∈ u.session.registry.types) {x : Option Value}
    (hx : ∀ y ∈ x, y.WellFormed u.session.registry) :
    w.Gives ([.enum ·]) (into.wrap x, u) := by
  have hmake : ∀ (variant : String) (payload : Payload),
      (∀ y ∈ payload.values, y.WellFormed u.session.registry) →
      w.Gives ([.enum ·]) (into.make variant payload, u) := by
    intro variant payload hpayload
    unfold OptionType.make
    cases hconstruct : construct into.type variant payload with
    | error e => exact gives_error h _
    | ok v =>
      have hv : v.WellFormed u.session.registry :=
        construct_wellFormed h.sound.registry.consistent ht hpayload hconstruct
      exact gives_ok h (List.forall_mem_singleton.mpr (Value.wellFormed_enum hv))
  cases x with
  | none => exact hmake _ _ (by simp [Payload.values])
  | some y => exact hmake _ _ (List.forall_mem_singleton.mpr (hx y rfl))

/-- A second step runs in the world that the first one leaves, unless the first one fails. -/
theorem exec_bind (w : World) (code : OptionsClientM α) (next : α → OptionsClientM β) :
    w.exec (code >>= next).run
      = match w.exec code.run with
        | (.ok a, u) => u.exec (next a).run
        | (.error e, u) => (.error e, u) := by
  unfold exec
  rw [ExceptT.run_bind, StateT.run_bind, StateT.run_bind]
  dsimp only [bind, Id.run]
  rcases (code.run.run w.session).run w.held with ⟨⟨e | a, s⟩, held⟩ <;> rfl

/-- A check changes nothing, and what comes after it may rely on its success. -/
theorem gives_check {u : World} (h : w.Leads u) {given : α → List Value}
    {check : Except OptionError β} {next : β → OptionsClientM α}
    (hnext : ∀ b, w.Gives given (u.exec (next b).run)) :
    w.Gives given (u.exec (OptionsT.ofExcept check >>= next).run) := by
  have hexec : u.exec (OptionsT.ofExcept check).run = (check, u) := rfl
  rw [exec_bind, hexec]
  cases check with
  | error e => exact gives_error h e
  | ok b => exact hnext b

/-- The first step: the option type of the value is looked up, and nothing changes. -/
theorem gives_typeOf (h : w.Sound) {given : α → List Value} {code : OptionType → OptionsClientM α}
    (hcode : ∀ o ∈ w.session.options.instances, w.Gives given (w.exec (code o).run)) :
    w.Gives given (w.exec (Optional.typeOf option >>= code).run) := by
  rw [exec_bind]
  have hexec : w.exec (Optional.typeOf option).run = (w.session.options.typeOf option, w) := rfl
  rw [hexec]
  unfold OptionTable.typeOf
  cases hid : w.session.options.withId? option.type.id with
  | none => exact gives_error h.refl _
  | some o => exact hcode o (h.session.consistent.mem_of_withId? hid).1

/-- The arm for a value in an option binds one name, to the first field. -/
theorem binds_value {entries : List (String × Value)}
    (h : (Binder.positional [Optional.valueName]).Binds option entries) :
    ∃ x, option.fields[0]? = some x ∧ entries = [(Optional.valueName, x)] := by
  have hplaces : List.Forall₂
      (fun (entry : String × Value) place =>
        entry.1 = place.1 ∧ option.fields[place.2]? = some entry.2)
      entries [(Optional.valueName, 0)] := h
  obtain ⟨⟨name, x⟩, rest, ⟨rfl, hx⟩, hrest, rfl⟩ := List.forall₂_cons_right_iff.mp hplaces
  rw [List.forall₂_nil_right_iff.mp hrest]
  exact ⟨x, hx, rfl⟩

/-- The second step: one of two actions goes on, the first of them with what the option holds. At
most the plans kept have changed by then. -/
theorem gives_dispatch (h : w.Sound) (hv : option ∈ w.held) {given : α → List Value}
    {present : Value → OptionsClientM α} {absent : OptionsClientM α}
    (hpresent : ∀ (m : Matcher) (x : Value), m.Reachable w.session.registry → x ∈ option.fields →
      w.Gives given ((w.within { w.session with matcher := m }).exec (present x).run))
    (habsent : ∀ m : Matcher, m.Reachable w.session.registry →
      w.Gives given ((w.within { w.session with matcher := m }).exec absent.run)) :
    w.Gives given (w.exec (Optional.dispatch option present absent).run) := by
  have hwf := h.held option hv
  have hm : (w.session.matcher.evaluate option (Optional.arms present absent)).2.Reachable
      w.session.registry :=
    h.matcher.serve (.evaluate option (Optional.arms present absent)) hwf.registered
  have hexec : w.exec (Optional.dispatch option present absent).run
      = match w.session.evaluate option (Optional.arms present absent) with
        | (.ok (.ok action), s) => (w.within s).exec action.run
        | (.ok (.error e), s) | (.error e, s) => (.error (.matching e), w.within s) := by
    unfold exec Optional.dispatch
    dsimp only [ExceptT.run, ExceptT.mk, StateT.run]
    rcases w.session.evaluate option (Optional.arms present absent) with
      ⟨e | e | action, s⟩ <;> rfl
  rw [hexec]
  unfold Session.evaluate
  dsimp only
  -- the matcher after the match is reachable, and nothing else is needed of it
  generalize (w.session.matcher.evaluate option (Optional.arms present absent)).2 = m at hm
  rcases Matcher.evaluate_cases h.registry.consistent h.matcher.sound hwf
    (Optional.arms present absent) with
    ⟨e, -, hevaluate⟩ | ⟨i, arm, entries, harm, hbinds, -, hevaluate⟩
  · rw [hevaluate]
    exact gives_error (h.matching hm) _
  · rw [hevaluate]
    -- one of the two arms fires
    have hmem := List.mem_of_getElem? harm
    simp only [Optional.arms, List.mem_cons, List.not_mem_nil, or_false] at hmem
    rcases hmem with rfl | rfl
    · obtain ⟨x, hx, rfl⟩ := binds_value hbinds
      exact hpresent m x hm (List.mem_of_getElem? hx)
    · exact habsent m hm

/-- A function is called in a world in which the client holds its argument. -/
theorem exec_given (w : World) (x : Value) (code : ClientM α) :
    w.exec (ClientM.given x code) = (w.hold [x]).exec code := by
  cases x <;> rfl

/-- Functions are called in sound worlds. -/
theorem CallsOn.leads (h : w.Sound) (hv : option ∈ w.held) {x : Value} {u : World}
    (hu : w.CallsOn option x u) : w.Leads u := by
  obtain ⟨hx, m, hm, rfl⟩ := hu
  have hmatched := h.matching hm
  have hvalue : x.WellFormed w.session.registry := (h.held option hv).value hx
  exact hmatched.trans (hmatched.sound.hold (List.forall_mem_singleton.mpr hvalue))

/-- Mapping: the function is called at most once, and what it gives goes into an option. -/
theorem leads_map (h : w.Sound) (hv : option ∈ w.held) {into : OptionType}
    (ho : into ∈ w.session.options.instances) {f : Value → ClientM Value}
    (hf : ∀ x u, w.CallsOn option x u → u.Leads (u.exec (f x)).2)
    (hout : ∀ x u, w.CallsOn option x u → (u.exec (f x)).2.Holds (u.exec (f x)).1) :
    w.Leads (w.perform (Optional.map option into fun x => ClientM.given x (f x)) ([.enum ·])) := by
  refine leads_perform (gives_typeOf h fun _ _ => gives_dispatch h hv ?_ ?_)
  · intro m x hm hx
    have hcalls : w.CallsOn option x ((w.within { w.session with matcher := m }).hold [x]) :=
      ⟨hx, m, hm, rfl⟩
    -- `f` is run, and its result goes into an option
    show w.Gives _
      (into.wrap (some ((w.within { w.session with matcher := m }).exec (.given x (f x))).1),
        ((w.within { w.session with matcher := m }).exec (.given x (f x))).2)
    rw [exec_given]
    generalize (w.within { w.session with matcher := m }).hold [x] = u at hcalls
    have hleads := (hcalls.leads h hv).trans (hf x u hcalls)
    refine gives_wrap hleads (hleads.types.subset (h.options ho)) fun y hy => ?_
    cases hy
    exact hleads.sound.value (hout x u hcalls)
  · intro m hm
    have hmatched := h.matching hm
    exact gives_wrap (x := none) hmatched (h.options ho) (by simp)

/-- Chaining: what the function gives is an instance that the client holds, and it is passed on. -/
theorem leads_andThen (h : w.Sound) (hv : option ∈ w.held) {into : OptionType}
    (ho : into ∈ w.session.options.instances) {f : Value → OptionsClientM EnumValue}
    (hf : ∀ x u, w.CallsOn option x u → u.Leads (u.exec (f x).run).2)
    (hout : ∀ x u v, w.CallsOn option x u → (u.exec (f x).run).1 = .ok v →
      v ∈ (u.exec (f x).run).2.held) :
    w.Leads (w.perform (Optional.andThen option into fun x => .mk (ClientM.given x (f x).run))
      ([.enum ·])) := by
  refine leads_perform (gives_typeOf h fun _ _ => gives_dispatch h hv ?_ ?_)
  · intro m x hm hx
    -- `f` is called where the plan for the two arms may have been kept, and the client holds `x`
    have hcalls : w.CallsOn option x ((w.within { w.session with matcher := m }).hold [x]) :=
      ⟨hx, m, hm, rfl⟩
    have hexec : (w.within { w.session with matcher := m }).exec
        (ExceptT.run (.mk (ClientM.given x (f x).run)))
        = ((w.within { w.session with matcher := m }).hold [x]).exec (f x).run :=
      exec_given _ _ _
    rw [exec_bind, hexec]
    generalize (w.within { w.session with matcher := m }).hold [x] = u at hcalls
    have hleads := (hcalls.leads h hv).trans (hf x u hcalls)
    have hheld := hout x u
    generalize u.exec (f x).run = result at hleads hheld
    obtain ⟨e | chained, u'⟩ := result
    · exact gives_error hleads e
    · -- what `f` has made is only passed on if it is of type `into`
      have hwf : chained.WellFormed u'.session.registry :=
        hleads.sound.held chained (hheld chained hcalls rfl)
      refine gives_check hleads fun _ => gives_ok hleads ?_
      exact List.forall_mem_singleton.mpr (Value.wellFormed_enum hwf)
  · intro m hm
    exact gives_wrap (x := none) (h.matching hm) (h.options ho) (by simp)

/-- An operation that gives, unchanged, what the option holds or something else that is held. -/
theorem gives_lookup (h : w.Sound) (hv : option ∈ w.held) {given : α → List Value}
    (present : Value → α) (absent : Except OptionError α)
    (hpresent : ∀ x ∈ option.fields, ∀ y ∈ given (present x), y.WellFormed w.session.registry)
    (habsent : ∀ a, absent = .ok a → ∀ y ∈ given a, y.WellFormed w.session.registry) :
    w.Gives given
      (w.exec (Optional.dispatch option (fun x => pure (present x)) (.ofExcept absent)).run) := by
  refine gives_dispatch h hv ?_ ?_
  · intro m x hm hx
    exact gives_ok (h.matching hm) (hpresent x hx)
  · intro m hm
    exact ⟨h.matching hm, habsent⟩

/-- The option or the alternative is given back, both of which the client holds. -/
theorem leads_orElse (h : w.Sound) (hv : option ∈ w.held) {alternative : EnumValue}
    (ha : alternative ∈ w.held) :
    w.Leads (w.perform (Optional.orElse option alternative) ([.enum ·])) := by
  have hgiven : ∀ v ∈ w.held, ∀ y ∈ [Value.enum v], y.WellFormed w.session.registry :=
    fun v hv => List.forall_mem_singleton.mpr (Value.wellFormed_enum (h.held v hv))
  refine leads_perform (gives_typeOf h fun o _ => gives_check h.refl fun _ => ?_)
  refine gives_lookup h hv (fun _ => option) (.ok alternative) ?_ ?_
  · exact fun _ _ => hgiven option hv
  · intro a heq
    cases heq
    exact hgiven alternative ha

/-- What the option holds is given back, or a default that fits. -/
theorem leads_unwrapOr (h : w.Sound) (hv : option ∈ w.held) {default : Value}
    (hd : w.Holds default) : w.Leads (w.perform (Optional.unwrapOr option default) ([·])) := by
  refine leads_perform (gives_typeOf h fun o _ => ?_)
  show w.Gives _ (w.exec (if default.conformsTo o.inner then
    Optional.dispatch option pure (pure default)
    else throw (.typeMismatch o.inner.render default.type.render)).run)
  -- the default is checked before the option is matched
  by_cases hconforms : default.conformsTo o.inner = true
  · rw [if_pos hconforms]
    refine gives_lookup h hv id (.ok default) ?_ ?_
    · exact fun x hx => List.forall_mem_singleton.mpr ((h.held option hv).value hx)
    · intro a heq
      cases heq
      exact List.forall_mem_singleton.mpr (h.value hd)
  · rw [if_neg hconforms]
    exact gives_error h.refl _

/-- A yes or no gives no value. -/
theorem gives_isPresent (h : w.Sound) (hv : option ∈ w.held) :
    w.Gives (fun _ => []) (w.exec (Optional.isPresent option).run) := by
  refine gives_typeOf h fun o _ => ?_
  exact gives_lookup h hv (fun _ => true) (.ok false) (by simp) (by simp)

/-- The opposite of `isPresent`, which does the work. -/
theorem leads_isAbsent (h : w.Sound) (hv : option ∈ w.held) :
    w.Leads (w.perform (Optional.isAbsent option) fun _ => []) := by
  refine leads_perform ?_
  obtain ⟨hleads, -⟩ := gives_isPresent h hv
  unfold Optional.isAbsent
  rw [map_eq_pure_bind, exec_bind]
  generalize w.exec (Optional.isPresent option).run = result at hleads
  obtain ⟨e | b, u⟩ := result
  · exact gives_error hleads e
  · exact gives_ok hleads (by simp)

/-- What the option holds is given back, or nothing. -/
theorem leads_unwrap (h : w.Sound) (hv : option ∈ w.held) :
    w.Leads (w.perform (Optional.unwrap option) ([·])) := by
  refine leads_perform (gives_typeOf h fun o _ => ?_)
  refine gives_lookup h hv id (.error (.unwrapAbsent o.type.name)) ?_ ?_
  · exact fun x hx => List.forall_mem_singleton.mpr ((h.held option hv).value hx)
  · intro a heq
    cases heq

/-- What the option holds is given back, if it holds anything. -/
theorem leads_held? (h : w.Sound) (hv : option ∈ w.held) :
    w.Leads (w.perform (Optional.held? option) (·.toList)) := by
  refine leads_perform (gives_typeOf h fun o _ => ?_)
  refine gives_lookup h hv some (.ok none) ?_ ?_
  · exact fun x hx => List.forall_mem_singleton.mpr ((h.held option hv).value hx)
  · intro a heq
    cases heq
    simp

end Options

/-! ## Runs -/

variable {w u : World}

/-- A run keeps the invariant. Induction on the run, with a case for each operation; the functions that
the client passes are runs themselves, so the hypotheses of the induction speak for them. -/
theorem Run.leads (hrun : Run w u) (h : w.Sound) : w.Leads u := by
  induction hrun with
  | refl => exact h.refl
  | trans _ _ ih ih' =>
    have hfirst := ih h
    exact hfirst.trans (ih' hfirst.sound)
  | session hstep => exact h.step hstep
  | construct ht hpayload hr => exact leads_construct h ht hpayload hr
  | extract hv hr => exact leads_extract h hv hr
  | extractFields hv hr => exact leads_extractFields h hv hr
  | evaluate hv heads => exact leads_evaluate h hv heads
  | evaluateWith hv hm heads => exact h.hold (wellFormed_of_bound h hv hm heads)
  | wrap ho hx hr =>
    obtain ⟨-, hgiven⟩ := gives_wrap h.refl (h.options ho) fun y hy => h.value (hx y hy)
    exact h.hold (hgiven _ hr)
  | map hv ho _ hout ih =>
    exact leads_map h hv ho (fun x u hu => ih x u hu (hu.leads h hv).sound) hout
  | andThen hv ho _ hout ih =>
    exact leads_andThen h hv ho (fun x u hu => ih x u hu (hu.leads h hv).sound) hout
  | orElse hv ha => exact leads_orElse h hv ha
  | unwrapOr hv hd => exact leads_unwrapOr h hv hd
  | isPresent hv => exact leads_perform (gives_isPresent h hv)
  | isAbsent hv => exact leads_isAbsent h hv
  | unwrap hv => exact leads_unwrap h hv
  | held? hv => exact leads_held? h hv

/-- Every world that clients can bring about satisfies the invariant. -/
theorem Reachable.sound (h : w.Reachable) : w.Sound :=
  (h.leads sound_new).sound

/-! ## What follows for clients -/

/-- No instance has a tag and fields that do not fit each other. Whatever clients do, each instance
that an operation has given, and each instance in it at any depth, is one of a registered type: its
tag is a tag of that type, its fields are as many as its variant declares and of the declared types,
and its payload leaves none of them out. -/
theorem Reachable.held_wellFormed (hw : w.Reachable) {v : EnumValue} (hv : v ∈ w.held)
    {x : EnumValue} (hx : x.Within v) :
    x.type ∈ w.session.registry.types ∧ x.tag.val < x.type.variantCount ∧
      x.type.variant? x.tag = some x.variant ∧ x.fields.length = x.variant.shape.arity ∧
      (∀ i field, x.fields[i]? = some field → x.variant.shape.fieldType? i = some field.type) ∧
      x.payload.values = x.fields := by
  have hwf : x.WellFormed w.session.registry := (hw.sound.held v hv).within hx
  refine ⟨hwf.registered, x.tag.isLt, List.getElem?_eq_getElem x.tag.isLt, hwf.length_fields, ?_,
    hwf.payload_values⟩
  intro i field hfield
  rw [← hwf.type_getElem? i, hfield]
  rfl

/-- The message in the option that holds it is well formed as well. -/
theorem Reachable.held_wellFormed_messages :
    messages.Reachable ∧ written.Within writtenOption ∧ written.payload.values = written.fields := by
  have hheld : writtenOption ∈ messages.held := by simp [messages]
  have hwithin : written.Within writtenOption := .field (by simp [writtenOption]) .self
  obtain ⟨-, -, -, -, -, hpayload⟩ := reachable_messages.held_wellFormed hheld hwithin
  exact ⟨reachable_messages, hwithin, hpayload⟩

/-- Matching is first match. Take any instance that clients can hold, and the session's matcher or
another one, whatever it has been asked before. Checking a list of arms comes to compiling them, and
if that fails, matching fails in the same way. Otherwise the outcome is that of one body: the body of
the first arm that covers the variant held, given the name of this variant and exactly what the binder
of the arm asks for. The table has an entry for the tag, the list has an arm for the entry, and
binding succeeds. `R` may be a type of actions, such as `SessionT m α`. The outcome is then the action of
this body and of no other, so that what the bodies of other arms would do is not done. -/
theorem Reachable.evaluate_first_match {R : Type} (hw : w.Reachable) {v : EnumValue}
    (hv : v ∈ w.held) {m : Matcher}
    (hm : m = w.session.matcher ∨ m.Reachable w.session.registry) (arms : List (Arm R)) :
    (m.validate v.type arms).1 = Plan.compile v.type (arms.map (·.head)) ∧
      (∀ e, (m.evaluate v arms).1 = .error e ↔
        Plan.compile v.type (arms.map (·.head)) = .error e) ∧
      ∀ p, Plan.compile v.type (arms.map (·.head)) = .ok p →
        ∃ i arm entries, arms.findIdx? (·.head.covers v.variantName) = some i ∧
          p.armFor? v.tag = some i ∧ arms[i]? = some arm ∧
          p.bind i v = .ok ⟨v.variantName, entries⟩ ∧ arm.head.binder.Binds v entries ∧
          (m.evaluate v arms).1 = .ok (arm.body ⟨v.variantName, entries⟩) := by
  have hsound := hw.sound
  have hcon := hsound.registry.consistent
  have hwf : v.WellFormed w.session.registry := hsound.held v hv
  have hmatcher : m.Sound w.session.registry := by
    rcases hm with rfl | hm
    · exact hsound.matcher.sound
    · exact hm.sound
  have hvalidate : (m.validate v.type arms).1 = Plan.compile v.type (arms.map (·.head)) :=
    Matcher.answer_plan_of_sound hcon hmatcher hwf.registered
  have hevaluate := Matcher.answer_evaluate_of_sound hcon hmatcher hwf.registered arms
  -- an accepted list is run with the plan that compiling yields
  have hrun : ∀ p, Plan.compile v.type (arms.map (·.head)) = .ok p →
      (m.evaluate v arms).1 = p.run v arms := by
    intro p hp
    rw [hevaluate, hp]
    rfl
  refine ⟨hvalidate, ?_, ?_⟩
  · intro e
    cases hp : Plan.compile v.type (arms.map (·.head)) with
    | error e' =>
      rw [hevaluate, hp]
      show Except.error e' = Except.error e ↔ _
      rw [Except.error.injEq, Except.error.injEq]
    | ok p =>
      obtain ⟨_, _, _, -, -, -, -, -, hbody⟩ := Plan.exists_run hcon hwf hp
      rw [hrun p hp, hbody]
      simp
  · intro p hp
    obtain ⟨i, arm, entries, hentry, harm, hfirst, hbind, hbinds, hbody⟩ :=
      Plan.exists_run hcon hwf hp
    exact ⟨i, arm, entries, hfirst, hentry, harm, hbind, hbinds, (hrun p hp).trans hbody⟩

/-- The message is taken apart by the arm that names its variant, though the arm for moves comes
first and a wildcard would have taken it as well. -/
theorem Reachable.evaluate_first_match_messages :
    (Matcher.uncached.evaluate written
      [.on "Move" .ignore fun _ => "move", .on "Write" (.positional ["text"]) fun b => b.variant,
        .otherwise .ignore fun _ => "other"]).1 = .ok "Write" := by
  have hheld : written ∈ messages.held := by simp [messages]
  obtain ⟨-, -, hfirst⟩ := reachable_messages.evaluate_first_match hheld (.inr (.new 0))
    [.on "Move" .ignore fun _ => "move", .on "Write" (.positional ["text"]) fun b => b.variant,
      .otherwise .ignore fun _ => "other"]
  obtain ⟨i, arm, entries, hcovers, -, harm, -, -, hbody⟩ := hfirst _ rfl
  have hi : i = 1 := Option.some.inj (hcovers.symm.trans rfl)
  subst hi
  cases harm
  exact hbody

end World

end TaggedUnion
